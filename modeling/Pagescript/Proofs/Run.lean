import Pagescript.Proofs.Nesting
import Pagescript.Proofs.Onward
import Pagescript.Runner
/-!
# Runs

A run evaluates its steps one after the other, up to the first that fails, and after each of them
writes an event to the log.  An operation of a runner begins at most one run.  What no evaluation can
undo no run can undo, and a run leaves the rest of the session as it is: the program that is in
force, and whether the runner and the log are closed.
-/

namespace Pagescript

/-- The action that a step stands for, if it can be read. -/
def Step.action? (registry : Registry) : Step → Option Action
  | .action a => some a
  | .raw v => (registry.parseAction v).toOption

/-- Whether there is a log that is closed. -/
def Session.logClosed {σ : Type} (s : Session σ) : Bool :=
  (s.events.map (·.closed)).getD false

theorem EventLog.count_count (log : EventLog) (n n' : Nat) :
    (log.count n).count n' = log.count (n + n') := by
  simp only [count, Nat.add_assoc]

/-- The line by which a step is recorded, unless its error cannot be reported, its event makes no
line, or the log is closed. -/
def EventLog.stepLine (log : EventLog) (source : String) (step : Step) (outcome : Outcome)
    (started now : Binary64) : Except Fault String :=
  match Runner.event log.room source step outcome started now with
  | .error e => .error (.unwritable e)
  | .ok event =>
    match (log.count 1).line now event with
    | .error e => .error (.unwritable e)
    | .ok line => if log.closed then .error .closedLog else .ok line

/-- What goes wrong when a step is recorded, if anything does. -/
def EventLog.stepFault? (log : EventLog) (source : String) (step : Step) (outcome : Outcome)
    (started now : Binary64) : Option Fault :=
  match log.stepLine source step outcome started now with
  | .error f => some f
  | .ok _ => none

/-- What goes wrong when a step is recorded that has just ended. -/
def Session.stepFault? {σ : Type} (s : Session σ) (source : String) (step : Step)
    (outcome : Outcome) (started : Binary64) : Option Fault :=
  s.events.bind fun log => log.stepFault? source step outcome started s.world.now

theorem Evaluation.world_outcome {σ : Type} (x : Evaluation σ Value) (w : World σ) :
    (x.outcome w).2 = (x w).2 := by
  unfold outcome
  split
  next h => rw [h]
  next h => rw [h]
  next h => rw [h]

/-- What a run can make of a session, if it can only make `R` of its world. -/
structure Session.Carries {σ : Type} (R : World σ → World σ → Prop) (s s' : Session σ) : Prop where
  world : R s.world s'.world
  program : s'.program = s.program
  closed : s'.closed = s.closed
  log : ∃ n, s'.events = s.events.map (·.count n)

namespace Session.Carries

variable {σ : Type} {R : World σ → World σ → Prop} {s s' s'' : Session σ}

theorem ofWorld {w : World σ} (hw : R s.world w) : Carries R s { s with world := w } :=
  ⟨hw, rfl, rfl, 0, Option.map_id'.symm⟩

theorem refl (hR : World.Change R) (s : Session σ) : Carries R s s :=
  .ofWorld (hR.refl s.world)

theorem trans (hR : World.Change R) (h : Carries R s s') (h' : Carries R s' s'') :
    Carries R s s'' where
  world := hR.trans h.world h'.world
  program := h'.program.trans h.program
  closed := h'.closed.trans h.closed
  log := by
    obtain ⟨n, hn⟩ := h.log
    obtain ⟨n', hn'⟩ := h'.log
    refine ⟨n + n', ?_⟩
    rw [hn', hn, Option.map_map]
    exact congrArg (Option.map · s.events) (funext fun log => log.count_count n n')

theorem log_closed (h : Carries R s s') :
    s'.events.map (·.closed) = s.events.map (·.closed) := by
  obtain ⟨n, hn⟩ := h.log
  rw [hn, Option.map_map]
  rfl

theorem logClosed_eq (h : Carries R s s') : s'.logClosed = s.logClosed := by
  rw [logClosed, h.log_closed, logClosed]

end Session.Carries

namespace Runner

variable {σ : Type}

/-! ### One step -/

section Steps

variable {it : Interpreter σ} {R : World σ → World σ → Prop} {index : Nat} {step : Step}
  {s s' : Session σ}

theorem evaluateStep_of_read {a : Action} (hstep : step.action? it.registry = some a)
    (frame : Frame Handle) : evaluateStep it frame step = it.evaluate a frame := by
  cases step with
  | action b =>
      cases hstep
      rfl
  | raw v =>
      simp only [Step.action?] at hstep
      cases hparse : it.registry.parseAction v with
      | error e =>
          rw [hparse] at hstep
          cases hstep
      | ok b =>
          rw [hparse] at hstep
          cases hstep
          simp only [evaluateStep, Interpreter.evaluateRaw, hparse]

theorem evaluateStep_of_unread (hstep : step.action? it.registry = none) (frame : Frame Handle)
    (w : World σ) : ∃ e, evaluateStep it frame step w = (.error (.failed e), w) := by
  cases step with
  | action b => cases hstep
  | raw v =>
      simp only [Step.action?] at hstep
      cases hparse : it.registry.parseAction v with
      | ok b =>
          rw [hparse] at hstep
          cases hstep
      | error e =>
          simp only [evaluateStep, Interpreter.evaluateRaw, hparse]
          exact ⟨_, rfl⟩

theorem keeps_evaluateStep (hR : World.Trend R) (frame : Frame Handle) (w : World σ) :
    R w (evaluateStep it frame step w).2 := by
  cases hstep : step.action? it.registry with
  | some a =>
      rw [evaluateStep_of_read hstep]
      exact (Interpreter.keeps_evaluate hR a frame w).1
  | none =>
      obtain ⟨e, heq⟩ := evaluateStep_of_unread hstep frame w
      rw [heq]
      exact hR.refl w

theorem record_of_line {s : Session σ} {log : EventLog} {source : String} {step : Step}
    {outcome : Outcome} {started : Binary64} {line : String} (hevents : s.events = some log)
    (hline : log.stepLine source step outcome started s.world.now = .ok line) :
    record source step outcome started s =
      (.ok (), { s with events := some (log.count 1), archive := log.add line s.archive }) := by
  unfold EventLog.stepLine at hline
  split at hline
  next => cases hline
  next event hevent =>
    split at hline
    next => cases hline
    next line' hline' =>
      split at hline
      next => cases hline
      next hopen =>
        cases hline
        simp only [record, hevents, hevent, EventLog.write, hline', hopen]
        rfl

/-- A step is recorded unless something goes wrong with that.  Either way no more is changed than what
the log has counted and what the archive holds, and that goes by the clock, and by nothing else in the
world or the program in force. -/
theorem record_retarget (source : String) (step : Step) (outcome : Outcome) (started : Binary64)
    (s : Session σ) :
    ∃ n archive, ∀ (w : World σ) (program : Program), w.now = s.world.now →
      record source step outcome started { s with world := w, program } =
        ((s.stepFault? source step outcome started).elim (.ok ()) .error,
          { s with world := w, program, events := s.events.map (·.count n), archive }) := by
  obtain ⟨w', program', events, archive, closed⟩ := s
  cases events with
  | none => exact ⟨0, archive, fun w program _ => rfl⟩
  | some log =>
      obtain ⟨runId, base, name, count, logClosed, room⟩ := log
      simp only [record, Session.stepFault?, Option.bind_some, EventLog.stepFault?,
        EventLog.stepLine, EventLog.write, EventLog.count]
      cases hevent : event room source step outcome started w'.now with
      | error e =>
          refine ⟨0, archive, fun w program hnow => ?_⟩
          rw [hnow, hevent]
          rfl
      | ok event =>
          cases hline : EventLog.line ⟨runId, base, name, count + 1, logClosed, room⟩ w'.now event with
          | error e =>
              refine ⟨1, archive, fun w program hnow => ?_⟩
              simp only [hnow, hevent, hline]
              rfl
          | ok line =>
              cases logClosed with
              | false =>
                  let log : EventLog := ⟨runId, base, name, count + 1, false, room⟩
                  refine ⟨1, log.add line archive, fun w program hnow => ?_⟩
                  simp only [hnow, hevent, hline]
                  rfl
              | true =>
                  refine ⟨1, archive, fun w program hnow => ?_⟩
                  simp only [hnow, hevent, hline]
                  rfl

theorem record_apply (source : String) (step : Step) (outcome : Outcome) (started : Binary64)
    (s : Session σ) :
    ∃ n archive, record source step outcome started s =
      ((s.stepFault? source step outcome started).elim (.ok ()) .error,
        { s with events := s.events.map (·.count n), archive }) := by
  obtain ⟨n, archive, hrecord⟩ := record_retarget source step outcome started s
  exact ⟨n, archive, hrecord s.world s.program rfl⟩

theorem ofInteraction_apply {α : Type} {x : Interaction σ α} {s : Session σ}
    {result : Except Fault α} {w' : World σ} (h : x s.world = (result, w')) :
    Activity.ofInteraction x s = (result, { s with world := w' }) := by
  simp only [Activity.ofInteraction, h]

theorem runStep_of_outcome {it : Interpreter σ} {index : Nat} {step : Step} {s : Session σ}
    {outcome : Outcome} {w' : World σ}
    (houtcome : (evaluateStep it { source := sourceOf index } step).outcome s.world =
      (.ok outcome, w')) :
    runStep it index step s =
      ((record (sourceOf index) step outcome s.world.now { s with world := w' }).1.map
          fun _ => outcome,
        (record (sourceOf index) step outcome s.world.now { s with world := w' }).2) := by
  have hget (s : Session σ) : (get : Activity σ (Session σ)) s = (.ok s, s) := rfl
  simp only [runStep]
  rw [Fallible.bind_of_ok (hget s), Fallible.bind_of_ok (ofInteraction_apply houtcome)]
  cases hrecord : record (sourceOf index) step outcome s.world.now { s with world := w' } with
  | mk result s' =>
      cases result with
      | error f => exact Fallible.bind_of_error hrecord
      | ok => exact Fallible.bind_of_ok hrecord

theorem runStep_of_faulty {it : Interpreter σ} {index : Nat} {step : Step} {s : Session σ}
    {f : Fault} {w' : World σ}
    (houtcome : (evaluateStep it { source := sourceOf index } step).outcome s.world =
      (.error f, w')) :
    runStep it index step s = (.error f, { s with world := w' }) := by
  have hget (s : Session σ) : (get : Activity σ (Session σ)) s = (.ok s, s) := rfl
  simp only [runStep]
  rw [Fallible.bind_of_ok (hget s), Fallible.bind_of_error (ofInteraction_apply houtcome)]

/-- A step is evaluated, and unless that goes wrong it is recorded, which may go wrong too. -/
theorem runStep_apply (it : Interpreter σ) (index : Nat) (step : Step) (s : Session σ) :
    match (evaluateStep it { source := sourceOf index } step).outcome s.world with
    | (.error f, w') => runStep it index step s = (.error f, { s with world := w' })
    | (.ok outcome, w') => ∃ n archive,
        runStep it index step s =
          ((({ s with world := w' } : Session σ).stepFault? (sourceOf index) step outcome
              s.world.now).elim (.ok outcome) .error,
            { s with world := w', events := s.events.map (·.count n), archive }) := by
  cases houtcome : (evaluateStep it { source := sourceOf index } step).outcome s.world with
  | mk result w' =>
      cases result with
      | error f => exact runStep_of_faulty houtcome
      | ok outcome =>
          obtain ⟨n, archive, hrecord⟩ := record_apply (sourceOf index) step outcome s.world.now
            { s with world := w' }
          refine ⟨n, archive, ?_⟩
          rw [runStep_of_outcome houtcome, hrecord]
          cases ({ s with world := w' } : Session σ).stepFault? (sourceOf index) step outcome
            s.world.now <;> rfl

theorem world_runStep (it : Interpreter σ) (index : Nat) (step : Step) (s : Session σ) :
    (runStep it index step s).2.world =
      (evaluateStep it { source := sourceOf index } step s.world).2 := by
  rw [← Evaluation.world_outcome]
  have hstep := runStep_apply it index step s
  cases houtcome : (evaluateStep it { source := sourceOf index } step).outcome s.world with
  | mk result w' =>
      rw [houtcome] at hstep
      cases result with
      | error f => rw [hstep]
      | ok outcome =>
          obtain ⟨n, archive, heq⟩ := hstep
          rw [heq]

theorem carries_runStep (hR : World.Trend R) (it : Interpreter σ) (index : Nat) (step : Step)
    (s : Session σ) : s.Carries R (runStep it index step s).2 := by
  have hworld : R s.world (runStep it index step s).2.world := by
    rw [world_runStep]
    exact keeps_evaluateStep hR _ s.world
  have hstep := runStep_apply it index step s
  cases houtcome : (evaluateStep it { source := sourceOf index } step).outcome s.world with
  | mk result w' =>
      rw [houtcome] at hstep
      cases result with
      | error f =>
          rw [hstep] at hworld ⊢
          exact .ofWorld hworld
      | ok outcome =>
          obtain ⟨n, archive, heq⟩ := hstep
          rw [heq] at hworld ⊢
          exact ⟨hworld, rfl, rfl, n, rfl⟩

/-! ### One step after the other -/

theorem runFrom_of_ok {v v' : Value} {rest : List Step}
    (hstep : runStep it index step s = (.ok (.ok v'), s')) :
    runFrom it index v (step :: rest) s = runFrom it (index + 1) v' rest s' :=
  Fallible.bind_of_ok hstep

theorem runFrom_of_failed (v : Value) (rest : List Step) {e : ActionError}
    (hstep : runStep it index step s = (.ok (.error e), s')) :
    ∃ records, runFrom it index v (step :: rest) s =
      (.ok (.error e), { s' with world := { s'.world with records } }) :=
  ⟨_, Fallible.bind_of_ok hstep⟩

theorem runFrom_of_fault {v : Value} {rest : List Step} {f : Fault}
    (hstep : runStep it index step s = (.error f, s')) :
    runFrom it index v (step :: rest) s = (.error f, s') :=
  Fallible.bind_of_error hstep

/-- The actions that are evaluated as steps of a run, which begins at some index. -/
def visitsFrom (it : Interpreter σ) : Nat → List Step → Session σ → List (Visit σ)
  | _, [], _ => []
  | index, step :: rest, s =>
    (step.action? it.registry).toList.map (⟨·, { source := sourceOf index }, s.world⟩) ++
      match runStep it index step s with
      | (.ok (.ok _), next) => visitsFrom it (index + 1) rest next
      | _ => []

theorem carries_runFrom (hR : World.Trend R) (it : Interpreter σ) (index : Nat) (v : Value)
    (steps : List Step) (s : Session σ) :
    s.Carries R (runFrom it index v steps s).2 ∧
      ∀ u ∈ visitsFrom it index steps s, R s.world u.world ∧
        R (it.evaluate u.action u.frame u.world).2 (runFrom it index v steps s).2.world := by
  induction steps generalizing index v s with
  | nil => exact ⟨.refl hR.toChange s, fun u hu => (List.not_mem_nil hu).elim⟩
  | cons step rest ih =>
      have hfirst := carries_runStep hR it index step s
      -- whatever the first step comes to, the rest of the run goes on from there
      have hrest : (runStep it index step s).2.Carries R (runFrom it index v (step :: rest) s).2 ∧
          ∀ u ∈ (match runStep it index step s with
            | (.ok (.ok _), next) => visitsFrom it (index + 1) rest next
            | _ => []),
          R (runStep it index step s).2.world u.world ∧
            R (it.evaluate u.action u.frame u.world).2
              (runFrom it index v (step :: rest) s).2.world := by
        cases hstep : runStep it index step s with
        | mk result s' =>
            cases result with
            | error f =>
                rw [runFrom_of_fault hstep]
                exact ⟨.refl hR.toChange s', fun u hu => (List.not_mem_nil hu).elim⟩
            | ok outcome =>
                cases outcome with
                | error e =>
                    obtain ⟨records, heq⟩ := runFrom_of_failed v rest hstep
                    rw [heq]
                    refine ⟨.ofWorld (hR.records _ records), fun u hu => ?_⟩
                    exact (List.not_mem_nil hu).elim
                | ok v' =>
                    rw [runFrom_of_ok hstep]
                    exact ih (index + 1) v' s'
      refine ⟨hfirst.trans hR.toChange hrest.1, fun u hu => ?_⟩
      rw [visitsFrom] at hu
      obtain hu | hu := List.mem_append.1 hu
      · obtain ⟨a, ha, rfl⟩ := List.mem_map.1 hu
        have hread := evaluateStep_of_read (Option.mem_toList.1 ha) { source := sourceOf index }
        refine ⟨hR.refl s.world, ?_⟩
        have hevaluated := world_runStep it index step s
        rw [hread] at hevaluated
        rw [← hevaluated]
        exact hrest.1.world
      · exact ⟨hR.trans hfirst.world (hrest.2 u hu).1, (hrest.2 u hu).2⟩

end Steps

end Runner

/-! ### Runs of a runner -/

/-- A run as it begins: the steps that it is to evaluate, and the session in which it is. -/
structure Run (σ : Type) where
  steps : List Step
  session : Session σ

namespace Runner

variable {σ : Type}

/-- How a run ends. -/
def proceed (r : Runner σ) (run : Run σ) : Except Fault Outcome × Session σ :=
  runFrom (r.interpreter run.session.program) 0 .null run.steps run.session

/-- The actions that are evaluated as steps of a run. -/
def visits (r : Runner σ) (run : Run σ) : List (Visit σ) :=
  visitsFrom (r.interpreter run.session.program) 0 run.steps run.session

/-- The run that an operation begins, if it begins one: not so if its document is refused. -/
def begun? (r : Runner σ) (s : Session σ) : Operation → Option (Run σ)
  | .run document | .runAndClose document =>
    match document.parse r.registry with
    | .ok program => some ⟨program.steps.map .action, { s with program, world := s.world.arm }⟩
    | .error _ => none
  | .runSteps steps => some ⟨steps, { s with world := s.world.arm }⟩
  | _ => none

theorem carries_proceed {R : World σ → World σ → Prop} (hR : World.Trend R) (r : Runner σ)
    (run : Run σ) :
    run.session.Carries R (r.proceed run).2 ∧ ∀ u ∈ r.visits run, R run.session.world u.world ∧
      R ((r.interpreter run.session.program).evaluate u.action u.frame u.world).2
        (r.proceed run).2.world :=
  carries_runFrom hR _ 0 .null run.steps run.session

theorem runSteps_apply (r : Runner σ) (steps : List Step) (s : Session σ) :
    r.runSteps steps s = r.proceed ⟨steps, { s with world := s.world.arm }⟩ := rfl

theorem run_of_parsed {r : Runner σ} {document : Document} {program : Program}
    (hparse : document.parse r.registry = .ok program) (s : Session σ) :
    r.run document s =
      r.proceed ⟨program.steps.map .action, { s with program, world := s.world.arm }⟩ := by
  rw [run, hparse]
  rfl

theorem run_of_refused {r : Runner σ} {document : Document} {e : ParseError}
    (hparse : document.parse r.registry = .error e) (s : Session σ) :
    ∃ records, (r.run document s).2 = { s with world := { s.world with records } } ∧
      (r.run document s).1 = match document.offending e.details with
        | .ok action => .ok (.error (refusal e action))
        | .error container => .error (.nestedTooDeep container) := by
  rw [run, hparse]
  simp only [refuse]
  cases document.offending e.details with
  | ok action => exact ⟨_, rfl, rfl⟩
  | error container => exact ⟨s.world.records, rfl, rfl⟩

theorem andThenAlways_apply {α : Type} (x : Activity σ α) (last : Activity σ Unit)
    (s : Session σ) :
    x.andThenAlways last s =
      ((last (x s).2).1.bind fun _ => (x s).1, (last (x s).2).2) := by
  cases hx : x s with
  | mk result s' =>
      have hcaught : tryCatch (Except.ok <$> x) (fun f => return .error f) s =
          ((.ok result : Except Fault (Except Fault α)), s') := by
        cases result with
        | ok v =>
            have hmap : (Except.ok <$> x) s = ((.ok (.ok v) : Except Fault (Except Fault α)), s') := by
              rw [map_eq_pure_bind, Fallible.bind_of_ok hx]
              rfl
            exact Fallible.tryCatch_of_ok hmap
        | error f =>
            have hmap : (Except.ok <$> x) s = ((.error f : Except Fault (Except Fault α)), s') := by
              rw [map_eq_pure_bind, Fallible.bind_of_error hx]
            exact Fallible.tryCatch_of_error hmap
      rw [Activity.andThenAlways, Fallible.bind_of_ok hcaught]
      cases hlast : last s' with
      | mk ending s'' =>
          cases ending with
          | error f => rw [Fallible.bind_of_error hlast]; rfl
          | ok =>
              rw [Fallible.bind_of_ok hlast]
              cases result with
              | ok v => rfl
              | error f => rfl

theorem map_apply {α β : Type} (f : α → β) (x : Activity σ α) (s : Session σ) :
    (f <$> x) s = ((x s).1.map f, (x s).2) := by
  rw [map_eq_pure_bind]
  cases hx : x s with
  | mk result s' =>
      cases result with
      | ok v => exact Fallible.bind_of_ok hx
      | error e => exact Fallible.bind_of_error hx

theorem close_of_closed (r : Runner σ) {s : Session σ} (hclosed : s.closed = true) :
    r.close s = (.ok (), s) := by
  have hget : (get : Activity σ (Session σ)) s = (.ok s, s) := rfl
  rw [close, Fallible.bind_of_ok hget, if_pos hclosed]
  rfl

/-- The first time that a runner is closed the surface is closed, and however that ends the log is
closed too. -/
theorem close_of_not_closed (r : Runner σ) {s : Session σ} (hclosed : s.closed = false) :
    r.close s = ((Surface.close r.surface.page s.world.cancel).1,
      { s with
        world := (Surface.close r.surface.page s.world.cancel).2
        closed := true
        events := s.events.map EventLog.close }) := by
  have hget : (get : Activity σ (Session σ)) s = (.ok s, s) := rfl
  rw [close, Fallible.bind_of_ok hget, if_neg (by simp [hclosed])]
  change (Activity.ofInteraction (Surface.close r.surface.page)).andThenAlways closeLog
    { s with closed := true, world := s.world.cancel } = _
  rw [andThenAlways_apply]
  rfl

end Runner

end Pagescript
