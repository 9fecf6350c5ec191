import Pagescript.Proofs.Lifecycle
import Pagescript.Proofs.Stages
/-!
# Recorded runs

An event log only listens: a run that is recorded comes to the same outcome as one that is not.  But
the log is closed with the runner, which can still be asked for runs, and the first step of a run that
would be recorded in a closed log goes wrong.
-/

namespace Pagescript

/-- The same run without a log. -/
def Run.unlogged {σ : Type} (run : Run σ) : Run σ :=
  { run with session := { run.session with events := none } }

namespace Runner

variable {σ : Type} {it : Interpreter σ} {index : Nat} {step : Step} {s s₁ s₂ : Session σ}

theorem exists_outcome {x : Evaluation σ Value} {w : World σ}
    (hx : ∀ f w', x w ≠ (.error (.fault f), w')) : ∃ outcome w', x.outcome w = (.ok outcome, w') := by
  unfold Evaluation.outcome
  cases hresult : x w with
  | mk result w' =>
      cases result with
      | ok v => exact ⟨_, _, rfl⟩
      | error stop =>
          cases stop with
          | failed e => exact ⟨_, _, rfl⟩
          | fault f => exact absurd hresult (hx f w')

theorem exists_outcome_of_visits {rest : List Step}
    (hvisits : ∀ u ∈ visitsFrom it index (step :: rest) s, ∀ f w',
      it.evaluate u.action u.frame u.world ≠ (.error (.fault f), w')) :
    ∃ outcome w', (evaluateStep it { source := sourceOf index } step).outcome s.world =
      (.ok outcome, w') := by
  refine exists_outcome fun f w' => ?_
  cases hstep : step.action? it.registry with
  | none =>
      obtain ⟨e, heq⟩ := evaluateStep_of_unread hstep { source := sourceOf index } s.world
      rw [heq]
      intro hfault
      cases hfault
  | some a =>
      rw [evaluateStep_of_read hstep]
      refine hvisits ⟨a, { source := sourceOf index }, s.world⟩ ?_ f w'
      rw [visitsFrom, hstep]
      exact List.mem_append_left _ (List.mem_singleton_self _)

theorem visitsFrom_of_unread (hstep : step.action? it.registry = none) :
    visitsFrom it index [step] s = [] := by
  rw [visitsFrom, hstep]
  split
  · rfl
  · rfl

/-- If no evaluation goes wrong, and nothing is recorded, all stages of a run come about. -/
theorem exists_evaluates_of_visits {steps : List Step} (hevents : s.events = none)
    (hvisits : ∀ u ∈ visitsFrom it index steps s, ∀ f w',
      it.evaluate u.action u.frame u.world ≠ (.error (.fault f), w')) :
    ∃ stages, Evaluates it index steps s.world stages := by
  induction steps generalizing index s with
  | nil => exact ⟨[], .done index s.world⟩
  | cons step rest ih =>
      obtain ⟨outcome, w', houtcome⟩ := exists_outcome_of_visits hvisits
      cases outcome with
      | error e => exact ⟨_, .failed houtcome rest⟩
      | ok v =>
          have hstep := runStep_of_unlogged hevents houtcome
          obtain ⟨stages, hstages⟩ := @ih (index + 1) { s with world := w' } hevents fun u hu => by
            refine hvisits u ?_
            rw [visitsFrom, hstep]
            exact List.mem_append_right _ hu
          exact ⟨_, .next houtcome hstages⟩

/-- The log is closed by the operations that close the runner, and stays in place. -/
theorem events_after (r : Runner σ) (ops : List Operation) (hs : s.closed = false)
    (hopen : s.logClosed = false) :
    (r.after s ops).events.map (·.closed) = s.events.map fun _ => ops.any Operation.closes := by
  have hsealed : Sealed s := fun hclosed => absurd (hs.symm.trans hclosed) (by decide)
  have hlog := (follows_after r ops hsealed).log
  rw [hlog, hs]
  cases hevents : s.events with
  | none => rfl
  | some log =>
      have hlogOpen : log.closed = false := by
        rw [Session.logClosed, hevents] at hopen
        exact hopen
      simp [hlogOpen]

theorem perform_of_begun? {r : Runner σ} {op : Operation} {run : Run σ}
    (hrun : r.begun? s op = some run) (hop : op.closes = false) :
    r.perform op s = ((r.proceed run).1.map some, (r.proceed run).2) := by
  cases op with
  | run document =>
      rw [perform, map_apply]
      cases hparse : document.parse r.registry with
      | ok program =>
          simp only [begun?, hparse] at hrun
          cases hrun
          rw [run_of_parsed hparse]
      | error e =>
          simp only [begun?, hparse] at hrun
          cases hrun
  | runSteps steps =>
      cases hrun
      rw [perform, map_apply, runSteps_apply]
  | runAndClose document => cases hop
  | _ => cases hrun

/-- What is returned when a run is asked for, after any sequence of operations.

If no evaluation goes wrong, a run has the outcome that it has without a log, unless there is a log
and a step that has been evaluated cannot be written there.  That is so once the log was closed, which
is when the runner was; or if there is no room for what is recorded of the step, or an integer in it
has too many digits.  Then the run does not return.  A document that is refused is reported, unless
it is nested too deep for that. -/
theorem recorded_run (r : Runner σ) (ops : List Operation) {s : Session σ} (hs : s.closed = false)
    (hopen : s.logClosed = false) :
    (∀ op run, r.begun? (r.after s ops) op = some run → op.closes = false →
      (∀ u ∈ r.visits run.unlogged, ∀ f w',
        (r.interpreter run.session.program).evaluate u.action u.frame u.world ≠
          (.error (.fault f), w')) →
      run.session.events.map (·.closed) = (s.events.map fun _ => ops.any Operation.closes) ∧
      ∃ stages, Evaluates (r.interpreter run.session.program) 0 run.steps run.session.world stages ∧
        (r.proceed run.unlogged).1 = .ok (ending .null stages) ∧
        (r.perform op (r.after s ops)).1 = (run.session.events.elim (.ok (some (ending .null stages)))
          fun log => (log.lines stages.zipIdx).map fun _ => some (ending .null stages)) ∧
        ((∃ result, (r.perform op (r.after s ops)).1 = .ok result) ↔
          ∀ log, run.session.events = some log → ∀ index (stage : Stage σ),
            stages[index]? = some stage → stage.Writable (log.count index) index)) ∧
    (∀ document e, document.parse r.registry = .error e →
      (r.perform (.run document) (r.after s ops)).1 =
        match document.offending e.details with
        | .ok action => .ok (some (.error (refusal e action)))
        | .error container => .error (.nestedTooDeep container)) := by
  constructor
  · intro op run hrun hop hvisits
    obtain ⟨program, hsession⟩ := session_of_begun? hrun
    obtain ⟨stages, hstages⟩ := exists_evaluates_of_visits rfl hvisits
    have hperform : (r.perform op (r.after s ops)).1 =
        run.session.events.elim (.ok (some (ending .null stages)))
          fun log => (log.lines stages.zipIdx).map fun _ => some (ending .null stages) := by
      have hproceed : (r.proceed run).1 = run.session.events.elim (.ok (ending .null stages))
          fun log => (log.lines stages.zipIdx).map fun _ => ending .null stages :=
        runFrom_of_evaluates hstages rfl
      rw [perform_of_begun? hrun hop, hproceed]
      cases run.session.events with
      | none => rfl
      | some log =>
          simp only [Option.elim_some]
          cases log.lines stages.zipIdx with
          | error f => rfl
          | ok texts => rfl
    refine ⟨?_, stages, hstages, ?_, hperform, ?_⟩
    · rw [hsession]
      exact events_after r ops hs hopen
    · exact runFrom_of_evaluates (s := run.unlogged.session) hstages rfl
    · rw [hperform]
      cases hevents : run.session.events with
      | none => simp
      | some log =>
          have hlines : (∃ texts, log.lines stages.zipIdx = .ok texts) ↔
              ∀ index (stage : Stage σ), stages[index]? = some stage →
                stage.Writable (log.count index) index := by
            rw [EventLog.exists_lines_iff]
            constructor
            · intro hwritable index stage hstage
              refine hwritable index stage index ?_
              rw [List.getElem?_zipIdx, hstage, Nat.zero_add]
              rfl
            · intro hwritable n stage index hstage
              rw [List.getElem?_zipIdx, Nat.zero_add] at hstage
              obtain ⟨_, hfound, heq⟩ := Option.map_eq_some_iff.1 hstage
              cases heq
              exact hwritable n stage hfound
          simp only [Option.elim_some, Option.some.injEq, forall_eq', ← hlines]
          cases log.lines stages.zipIdx with
          | error f => simp [Except.map]
          | ok texts => simp [Except.map]
  · intro document e hparse
    obtain ⟨records, -, hresult⟩ := run_of_refused hparse (r.after s ops)
    rw [perform, map_apply, hresult]
    cases document.offending e.details with
    | ok action => rfl
    | error container => rfl

def remarking : Runner Script :=
  { pausing with
    registry := ⟨[(Kind.log.name, Kind.log.registration)], Registry.defaultMaxDepth⟩ }

def remark : Action := .node none (.log "x")

def remarkingLog : EventLog := { runId := "c", base := ⟨"", ["runs", "c"]⟩, name := none }

def remarkingSession : Session Script :=
  { pausingSession with events := some remarkingLog }

/-- The run of a step, after some operations. -/
def remarkingAfter (ops : List Operation) (step : Step) : Run Script :=
  ⟨[step], { remarking.after remarkingSession ops with
    world := (remarking.after remarkingSession ops).world.arm }⟩

def remarkStage (w : World Script) : Stage Script where
  step := .action remark
  before := w
  outcome := .ok .null
  after := ((remarking.interpreter .empty).evaluate remark { source := sourceOf 0 } w).2

theorem evaluate_remark (program : Program) (w : World Script) :
    (remarking.interpreter program).evaluate remark { source := sourceOf 0 } w =
      (.ok .null, (remarkStage w).after) := by
  have hadmits (program : Program) : (remarking.interpreter program).Admits
      (({ source := sourceOf 0 } : Frame Handle).enter remark.name) := by
    change (_ : Int) ≤ 1000 ∧ (_ : Int) ≤ 50
    decide
  rw [remarkStage, Interpreter.evaluate_of_admits (hadmits program),
    Interpreter.evaluate_of_admits (hadmits .empty)]
  rfl

theorem evaluates_remark (program : Program) (w : World Script) :
    Evaluates (remarking.interpreter program) 0 [.action remark] w [remarkStage w] := by
  refine .next ?_ (.done 1 _)
  rw [Evaluation.outcome, evaluateStep, evaluate_remark]
  rfl

theorem writable_remark (log : EventLog) (hopen : log.closed = false)
    (hstep : log.step < Numeral.maxDigits) (w : World Script) :
    (remarkStage w).Writable log 0 := by
  constructor
  · exact hopen
  · intro e he
    cases he
  · have hlevels : ((remarkStage w).entry log.runId (log.step + 1) 0).levels = 2 := rfl
    rw [hlevels]
    exact Nat.le_add_left 2 log.room
  · have hnumber : (Value.int (log.step + 1 : Nat)).Short := Value.short_of_le hstep
    have hfits : ((remarkStage w).entry log.runId (log.step + 1) 0).fits Numeral.bound =
        ((Value.int (log.step + 1 : Nat)).fits Numeral.bound && true) := rfl
    rw [Value.Short, hfits, Bool.and_true]
    exact hnumber

/-- An integer with too many digits, given as a step. -/
def longStep : Step := .raw (.int Numeral.bound)

/-- The same step is carried out before the runner is closed, and also afterwards if it is not
recorded; but afterwards it cannot be recorded.  What has too many digits cannot be recorded at any
time. -/
theorem recorded_run_afterClose :
    (remarking.perform (.runSteps [.action remark]) remarkingSession).1 = .ok (some (.ok .null)) ∧
      (remarking.proceed (remarkingAfter [.close] (.action remark)).unlogged).1 = .ok (.ok .null) ∧
      (remarking.perform (.runSteps [.action remark]) (remarking.after remarkingSession [.close])).1 =
        .error .closedLog ∧
      ∀ outcome, (remarking.perform (.runSteps [longStep]) remarkingSession).1 ≠ .ok outcome := by
  have hvisits (ops : List Operation) :
      ∀ u ∈ remarking.visits (remarkingAfter ops (.action remark)).unlogged, ∀ f w',
        (remarking.interpreter (remarkingAfter ops (.action remark)).session.program).evaluate
          u.action u.frame u.world ≠ (.error (.fault f), w') := by
    intro u hu f w' hfault
    obtain hu | hu := List.mem_append.1 hu
    · cases List.mem_singleton.1 hu
      rw [evaluate_remark] at hfault
      cases hfault
    · split at hu
      · cases hu
      · cases hu
  obtain ⟨-, stages, hstages, -, hresult, hreturns⟩ :=
    (recorded_run remarking [] (s := remarkingSession) rfl rfl).1 (.runSteps [.action remark])
      (remarkingAfter [] (.action remark)) rfl rfl (hvisits [])
  obtain ⟨-, stages', hstages', hunlogged, hresult', -⟩ :=
    (recorded_run remarking [.close] (s := remarkingSession) rfl rfl).1 (.runSteps [.action remark])
      (remarkingAfter [.close] (.action remark)) rfl rfl (hvisits [.close])
  cases hstages.unique (evaluates_remark _ _)
  cases hstages'.unique (evaluates_remark _ _)
  refine ⟨?_, hunlogged, ?_, ?_⟩
  · have hline (w : World Script) := Stage.line_eq_ok_iff.2
      ⟨writable_remark remarkingLog rfl (by decide) w, rfl⟩
    have hlines (w : World Script) := EventLog.lines_cons_eq_ok_iff.2
      ⟨_, _, hline w, EventLog.lines.eq_1 (σ := Script) _, rfl⟩
    exact hresult.trans (congrArg (Except.map _) (hlines _))
  · have hlines (w : World Script) :
        remarkingLog.close.lines [remarkStage w].zipIdx = .error .closedLog := by
      have hwritable := writable_remark remarkingLog rfl (by decide) w
      rw [List.zipIdx_cons, EventLog.lines, Stage.line_of_closed hwritable rfl]
    exact hresult'.trans (congrArg (Except.map _) (hlines _))
  · intro outcome hreturned
    have hunread : longStep.action? remarking.registry = none := by
      rw [longStep, Step.action?, Registry.parseAction, Registry.parseWithin]
      rfl
    have hquiet : remarking.visits (remarkingAfter [] longStep).unlogged = [] :=
      visitsFrom_of_unread hunread
    obtain ⟨-, stages, hstages, -, -, hreturns⟩ :=
      (recorded_run remarking [] (s := remarkingSession) rfl rfl).1 (.runSteps [longStep])
        (remarkingAfter [] longStep) rfl rfl fun u hu => by
          rw [hquiet] at hu
          cases hu
    have hlong (stage : Stage Script) (hstep : stage.step = longStep) (log : EventLog) (index : Nat) :
        ¬ stage.Writable log index := by
      intro hwritable
      have hshort := hwritable.short
      simp [Value.Short, Stage.entry, Value.fits, Value.allFitFields, hstep, longStep, Step.fields,
        Interpreter.rawFields] at hshort
    have hwritable := hreturns.1 ⟨outcome, hreturned⟩ _ rfl
    cases hstages with
    | failed => exact hlong _ rfl _ _ (hwritable 0 _ rfl)
    | next => exact hlong _ rfl _ _ (hwritable 0 _ rfl)

end Runner

end Pagescript
