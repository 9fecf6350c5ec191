import Pagescript.Proofs.Run
import Pagescript.Proofs.Writing
/-!
# Stages of runs

What a run evaluates is a list of stages, up to the first step that fails, and the last stage decides
how the run ends.  A log has a line for each stage, as long as they can be written: at the first that
cannot be the run goes wrong.
-/

namespace Pagescript

variable {σ : Type}

/-- A step that has been evaluated: in which world, what it came to, and what it left behind. -/
structure Stage (σ : Type) where
  step : Step
  before : World σ
  outcome : Outcome
  after : World σ

/-- The line by which a stage is recorded that stands at some place of its run. -/
def Stage.line (stage : Stage σ) (log : EventLog) (index : Nat) : Except Fault String :=
  log.stepLine (Runner.sourceOf index) stage.step stage.outcome stage.before.now stage.after.now

namespace Stage

def error (stage : Stage σ) : Value :=
  match stage.outcome with
  | .ok _ => .null
  | .error e => .mapping e.inReport

/-- What is recorded of a stage: as which event of which log, and at which place of its run. -/
def entry (stage : Stage σ) (runId : String) (number index : Nat) : Value :=
  .mapping [("ts", .float stage.after.now), ("run_id", .text runId), ("step", .int number),
    ("source", .text (Runner.sourceOf index)), ("action", .mapping stage.step.fields),
    ("ok", .bool stage.outcome.succeeded), ("value", stage.outcome.valueOr .null),
    ("error", stage.error),
    ("duration_ms", .float ((stage.after.now.sub stage.before.now).mul (.ofInt 1000)))]

/-- A stage can be written as the next event of a log: the log is open, its error can be reported,
and there is room for what is recorded, in which no integer has too many digits. -/
structure Writable (stage : Stage σ) (log : EventLog) (index : Nat) : Prop where
  logOpen : log.closed = false
  error : ∀ e, stage.outcome = .error e → ∀ v ∈ e.payload, v.Reportable log.room
  levels : (stage.entry log.runId (log.step + 1) index).levels ≤ log.room + EventLog.lineMargin
  short : (stage.entry log.runId (log.step + 1) index).Short

variable {stage : Stage σ} {log : EventLog} {index : Nat}

theorem errorValue_eq_ok_iff {room : Nat} {v : Value} :
    Runner.errorValue room stage.outcome = .ok v ↔
      (∀ e, stage.outcome = .error e → ∀ v ∈ e.payload, v.Reportable room) ∧ v = stage.error := by
  unfold error
  cases stage.outcome with
  | ok value => simp [Runner.errorValue, eq_comm]
  | error e =>
      constructor
      · intro h
        cases hreport : e.report room with
        | error failure =>
            rw [Runner.errorValue, hreport] at h
            cases h
        | ok fields =>
            obtain ⟨hall, rfl⟩ := ActionError.report_eq_ok_iff.1 hreport
            rw [Runner.errorValue, hreport] at h
            cases h
            exact ⟨fun e' he' => Except.error.inj he' ▸ hall, rfl⟩
      · rintro ⟨hall, rfl⟩
        rw [Runner.errorValue, ActionError.report_eq_ok_iff.2 ⟨hall e rfl, rfl⟩]
        rfl

theorem event_eq (room : Nat) (source : String) (stage : Stage σ) :
    Runner.event room source stage.step stage.outcome stage.before.now stage.after.now =
      (Runner.errorValue room stage.outcome).map fun error =>
        ⟨.text source, .mapping stage.step.fields, .bool stage.outcome.succeeded,
          stage.outcome.valueOr .null, error,
          .float ((stage.after.now.sub stage.before.now).mul (.ofInt 1000))⟩ := by
  unfold Runner.event
  cases Runner.errorValue room stage.outcome with
  | error e => rfl
  | ok v => rfl

/-- A stage has a line if and only if it can be written, and then it is the text of its entry. -/
theorem line_eq_ok_iff {line : String} :
    stage.line log index = .ok line ↔ stage.Writable log index ∧
      line = Json.render .line 0 (stage.entry log.runId (log.step + 1) index) := by
  unfold Stage.line EventLog.stepLine
  rw [event_eq]
  cases hvalue : Runner.errorValue log.room stage.outcome with
  | error e =>
      have hnot : ¬ stage.Writable log index := fun h => by
        rw [errorValue_eq_ok_iff.2 ⟨h.error, rfl⟩] at hvalue
        cases hvalue
      simp only [Except.map, reduceCtorEq, hnot, false_and]
  | ok v =>
      obtain ⟨herror, rfl⟩ := errorValue_eq_ok_iff.1 hvalue
      have hentry : (log.count 1).line stage.after.now
          ⟨.text (Runner.sourceOf index), .mapping stage.step.fields,
            .bool stage.outcome.succeeded, stage.outcome.valueOr .null, stage.error,
            .float ((stage.after.now.sub stage.before.now).mul (.ofInt 1000))⟩ =
          Json.write .line (log.room + EventLog.lineMargin)
            (stage.entry log.runId (log.step + 1) index) := rfl
      simp only [Except.map, hentry]
      cases hwrite : Json.write .line (log.room + EventLog.lineMargin)
          (stage.entry log.runId (log.step + 1) index) with
      | error e =>
          have hnot : ¬ stage.Writable log index := fun h => by
            rw [Json.write_eq_ok_iff.2 ⟨⟨.inl rfl, h.levels, h.short⟩, rfl⟩] at hwrite
            cases hwrite
          simp only [reduceCtorEq, hnot, false_and]
      | ok text =>
          obtain ⟨⟨-, hlevels, hshort⟩, rfl⟩ := Json.write_eq_ok_iff.1 hwrite
          cases hclosed : log.closed with
          | true =>
              have hnot : ¬ stage.Writable log index := fun h =>
                Bool.noConfusion (hclosed.symm.trans h.logOpen)
              simp only [if_true, reduceCtorEq, hnot, false_and]
          | false =>
              have hwritable : stage.Writable log index := ⟨hclosed, herror, hlevels, hshort⟩
              simp only [Bool.false_eq_true, if_false, Except.ok.injEq, hwritable, true_and,
                eq_comm]

/-- What could be written if the log were open goes wrong because it is closed. -/
theorem line_of_closed (hwritable : stage.Writable { log with closed := false } index)
    (hclosed : log.closed = true) : stage.line log index = .error .closedLog := by
  have hopen := line_eq_ok_iff.2 ⟨hwritable, rfl⟩
  unfold Stage.line EventLog.stepLine at hopen ⊢
  simp only at hopen ⊢
  split at hopen
  next => cases hopen
  next event hevent =>
    have hsame : (EventLog.count { log with closed := false } 1).line stage.after.now event =
        (log.count 1).line stage.after.now event := rfl
    rw [hsame] at hopen
    cases hline : (log.count 1).line stage.after.now event with
    | error e =>
        rw [hline] at hopen
        cases hopen
    | ok line =>
        simp only [hclosed, if_true]

end Stage

namespace EventLog

/-- The lines of a log for some stages, each given with its place in its run, or what goes wrong with
the first that has none. -/
def lines (log : EventLog) : List (Stage σ × Nat) → Except Fault (List String)
  | [] => .ok []
  | (stage, index) :: rest =>
    match stage.line log index with
    | .error f => .error f
    | .ok line => ((log.count 1).lines rest).map (line :: ·)

variable {log : EventLog} {stage : Stage σ} {index : Nat}
  {rest stages stages' : List (Stage σ × Nat)} {texts texts' : List String}

theorem lines_cons_eq_ok_iff : log.lines ((stage, index) :: rest) = .ok texts ↔
    ∃ line more, stage.line log index = .ok line ∧ (log.count 1).lines rest = .ok more ∧
      texts = line :: more := by
  rw [lines]
  cases stage.line log index with
  | error f => simp
  | ok line =>
      cases (log.count 1).lines rest with
      | error f => simp [Except.map]
      | ok more => simp [Except.map, eq_comm]

/-- The lines are numbered on from what the log has counted. -/
theorem line_of_lines (htexts : log.lines stages = .ok texts) {n : Nat}
    (hstage : stages[n]? = some (stage, index)) :
    ∃ line, texts[n]? = some line ∧ stage.line (log.count n) index = .ok line := by
  induction stages generalizing log texts n with
  | nil => cases hstage
  | cons entry rest ih =>
      obtain ⟨first, place⟩ := entry
      obtain ⟨line, more, hline, hmore, rfl⟩ := lines_cons_eq_ok_iff.1 htexts
      cases n with
      | zero =>
          cases hstage
          exact ⟨line, rfl, hline⟩
      | succ n =>
          obtain ⟨later, hlater, heq⟩ := ih hmore hstage
          rw [count_count, Nat.add_comm] at heq
          exact ⟨later, hlater, heq⟩

/-- There is a line for each of some stages if and only if each of them can be written. -/
theorem exists_lines_iff : (∃ texts, log.lines stages = .ok texts) ↔
    ∀ n (stage : Stage σ) index, stages[n]? = some (stage, index) →
      stage.Writable (log.count n) index := by
  constructor
  · rintro ⟨texts, htexts⟩ n stage index hstage
    obtain ⟨line, -, hline⟩ := line_of_lines htexts hstage
    exact (Stage.line_eq_ok_iff.1 hline).1
  · intro hwritable
    induction stages generalizing log with
    | nil => exact ⟨[], rfl⟩
    | cons entry rest ih =>
        obtain ⟨stage, index⟩ := entry
        have hline := Stage.line_eq_ok_iff.2 ⟨hwritable 0 stage index rfl, rfl⟩
        obtain ⟨more, hmore⟩ := @ih (log.count 1) fun n stage index hstage => by
          rw [count_count, Nat.add_comm]
          exact hwritable (n + 1) stage index hstage
        exact ⟨_, lines_cons_eq_ok_iff.2 ⟨_, more, hline, hmore, rfl⟩⟩

end EventLog

namespace Runner

/-- The stages of a run whose next step is at some place: its steps are evaluated one after the
other, each in the world that the one before it has left, until one fails. -/
inductive Evaluates (it : Interpreter σ) : Nat → List Step → World σ → List (Stage σ) → Prop where
  | done (index : Nat) (w : World σ) : Evaluates it index [] w []
  | failed {index : Nat} {step : Step} {w w' : World σ} {e : ActionError}
    (hstep : (evaluateStep it { source := sourceOf index } step).outcome w = (.ok (.error e), w'))
    (rest : List Step) : Evaluates it index (step :: rest) w [⟨step, w, .error e, w'⟩]
  | next {index : Nat} {step : Step} {rest : List Step} {w w' : World σ} {v : Value}
    {stages : List (Stage σ)}
    (hstep : (evaluateStep it { source := sourceOf index } step).outcome w = (.ok (.ok v), w'))
    (hrest : Evaluates it (index + 1) rest w' stages) :
    Evaluates it index (step :: rest) w (⟨step, w, .ok v, w'⟩ :: stages)

/-- How a run ends whose value so far is `v`. -/
def ending (v : Value) (stages : List (Stage σ)) : Outcome :=
  (stages.getLast?.map Stage.outcome).getD (.ok v)

def endWorld (w : World σ) (stages : List (Stage σ)) : World σ :=
  (stages.getLast?.map Stage.after).getD w

variable {it : Interpreter σ} {index : Nat} {step : Step} {s : Session σ} {log : EventLog}
  {stages : List (Stage σ)}

theorem ending_cons (v : Value) (stage : Stage σ) (stages : List (Stage σ)) :
    ending v (stage :: stages) = (stages.getLast?.map Stage.outcome).getD stage.outcome := by
  rw [ending, List.getLast?_cons]
  cases stages.getLast? with
  | none => rfl
  | some last => rfl

theorem endWorld_cons (w : World σ) (stage : Stage σ) (stages : List (Stage σ)) :
    endWorld w (stage :: stages) = endWorld stage.after stages := by
  rw [endWorld, endWorld, List.getLast?_cons]
  cases stages.getLast? with
  | none => rfl
  | some last => rfl

/-- The stages of a run are determined by the world in which it begins. -/
theorem Evaluates.unique {steps : List Step} {w : World σ} {stages' : List (Stage σ)}
    (hstages : Evaluates it index steps w stages) (hstages' : Evaluates it index steps w stages') :
    stages = stages' := by
  induction hstages generalizing stages' with
  | done index w =>
      cases hstages'
      rfl
  | failed hstep rest =>
      cases hstages' with
      | failed hstep' =>
          rw [hstep] at hstep'
          cases hstep'
          rfl
      | next hstep' =>
          rw [hstep] at hstep'
          cases hstep'
  | next hstep hrest ih =>
      cases hstages' with
      | failed hstep' =>
          rw [hstep] at hstep'
          cases hstep'
      | next hstep' hrest' =>
          rw [hstep] at hstep'
          cases hstep'
          rw [ih hrest']

def recording (s : Session σ) (log : EventLog) (line : String) (w : World σ) : Session σ :=
  { s with world := w, events := some (log.count 1), archive := log.add line s.archive }

theorem runStep_of_line {outcome : Outcome} {w' : World σ} {line : String}
    (hevents : s.events = some log)
    (houtcome : (evaluateStep it { source := sourceOf index } step).outcome s.world =
      (.ok outcome, w'))
    (hline : Stage.line ⟨step, s.world, outcome, w'⟩ log index = .ok line) :
    runStep it index step s = (.ok outcome, recording s log line w') := by
  rw [runStep_of_outcome houtcome,
    record_of_line (s := { s with world := w' }) hevents hline]
  rfl

theorem runStep_of_unlogged {outcome : Outcome} {w' : World σ} (hevents : s.events = none)
    (houtcome : (evaluateStep it { source := sourceOf index } step).outcome s.world =
      (.ok outcome, w')) :
    runStep it index step s = (.ok outcome, { s with world := w' }) := by
  have hrecord : record (sourceOf index) step outcome s.world.now { s with world := w' } =
      (.ok (), { s with world := w' }) := by
    simp only [record, hevents]
  rw [runStep_of_outcome houtcome, hrecord]
  rfl

theorem runStep_of_lineless {outcome : Outcome} {w' : World σ} {f : Fault}
    (hevents : s.events = some log)
    (houtcome : (evaluateStep it { source := sourceOf index } step).outcome s.world =
      (.ok outcome, w'))
    (hline : Stage.line ⟨step, s.world, outcome, w'⟩ log index = .error f) :
    ∃ s', runStep it index step s = (.error f, s') := by
  have hstep := runStep_apply it index step s
  rw [houtcome] at hstep
  obtain ⟨n, archive, hstep⟩ := hstep
  have hfault : ({ s with world := w' } : Session σ).stepFault? (sourceOf index) step outcome
      s.world.now = some f := by
    rw [Stage.line] at hline
    rw [Session.stepFault?, hevents, Option.bind_some, EventLog.stepFault?, hline]
  rw [hfault] at hstep
  exact ⟨_, hstep⟩

/-- A step that comes to an outcome in a session with a log has its line there. -/
theorem exists_line_of_runStep_ok {outcome : Outcome} {s' : Session σ}
    (hevents : s.events = some log) (hstep : runStep it index step s = (.ok outcome, s')) :
    ∃ w' line, (evaluateStep it { source := sourceOf index } step).outcome s.world =
        (.ok outcome, w') ∧
      Stage.line ⟨step, s.world, outcome, w'⟩ log index = .ok line ∧
      s' = recording s log line w' := by
  cases houtcome : (evaluateStep it { source := sourceOf index } step).outcome s.world with
  | mk result w' =>
      cases result with
      | error f =>
          rw [runStep_of_faulty houtcome] at hstep
          cases hstep
      | ok outcome' =>
          cases hline : Stage.line ⟨step, s.world, outcome', w'⟩ log index with
          | error f =>
              obtain ⟨s'', heq⟩ := runStep_of_lineless hevents houtcome hline
              rw [heq] at hstep
              cases hstep
          | ok line =>
              rw [runStep_of_line hevents houtcome hline] at hstep
              cases hstep
              exact ⟨w', line, rfl, hline, rfl⟩

theorem events_of_runStep_ok {outcome : Outcome} {s' : Session σ}
    (hstep : runStep it index step s = (.ok outcome, s')) :
    s'.events = s.events.map (·.count 1) := by
  cases hevents : s.events with
  | some log =>
      obtain ⟨w', line, -, -, rfl⟩ := exists_line_of_runStep_ok hevents hstep
      rfl
  | none =>
      cases houtcome : (evaluateStep it { source := sourceOf index } step).outcome s.world with
      | mk result w' =>
          cases result with
          | error f =>
              rw [runStep_of_faulty houtcome] at hstep
              cases hstep
          | ok outcome' =>
              rw [runStep_of_unlogged hevents houtcome] at hstep
              cases hstep
              exact hevents

/-- A run ends as its last stage, if all its stages have a line in the log. -/
theorem runFrom_of_evaluates {steps : List Step} {w : World σ} {v : Value}
    (hstages : Evaluates it index steps w stages) (hworld : s.world = w) :
    (runFrom it index v steps s).1 = s.events.elim (.ok (ending v stages))
      fun log => (log.lines (stages.zipIdx index)).map fun _ => ending v stages := by
  induction hstages generalizing s v with
  | done index w =>
      cases s.events with
      | none => rfl
      | some log => rfl
  | @failed index step w w' e hstep rest =>
      subst hworld
      cases hevents : s.events with
      | none =>
          obtain ⟨records, heq⟩ := runFrom_of_failed v rest (runStep_of_unlogged hevents hstep)
          rw [heq]
          rfl
      | some log =>
          cases hline : Stage.line ⟨step, s.world, .error e, w'⟩ log index with
          | error f =>
              obtain ⟨s', heq⟩ := runStep_of_lineless hevents hstep hline
              rw [runFrom_of_fault heq]
              simp only [Option.elim_some, List.zipIdx_cons, EventLog.lines, hline, Except.map]
          | ok line =>
              obtain ⟨records, heq⟩ := runFrom_of_failed v rest (runStep_of_line hevents hstep hline)
              rw [heq]
              simp only [Option.elim_some, List.zipIdx_cons, List.zipIdx_nil, EventLog.lines, hline,
                Except.map]
              rfl
  | @next index step rest w w' v' stages hstep hrest ih =>
      subst hworld
      cases hevents : s.events with
      | none =>
          rw [runFrom_of_ok (runStep_of_unlogged hevents hstep), ih rfl, ending_cons, hevents]
          rfl
      | some log =>
          cases hline : Stage.line ⟨step, s.world, .ok v', w'⟩ log index with
          | error f =>
              obtain ⟨s', heq⟩ := runStep_of_lineless hevents hstep hline
              rw [runFrom_of_fault heq]
              simp only [Option.elim_some, List.zipIdx_cons, EventLog.lines, hline, Except.map]
          | ok line =>
              rw [runFrom_of_ok (runStep_of_line hevents hstep hline), ih rfl, ending_cons]
              simp only [recording, Option.elim_some, List.zipIdx_cons, EventLog.lines, hline]
              cases (log.count 1).lines (stages.zipIdx (index + 1)) with
              | error f => rfl
              | ok more => rfl

end Runner

end Pagescript
