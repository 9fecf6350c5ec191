import Mathlib.Data.List.Forall2
import Pagescript.Proofs.Grammar
import Pagescript.Proofs.Recording
/-!
# Steps read beforehand and steps read as they come

The steps of a document are read with it; a step can also be given to a runner as the value that it
is written as, and is then read when its turn comes.  Both come to the same: a document runs as its
names do, followed by its steps as they are written.
-/

namespace Pagescript

namespace Entries

variable {α : Type}

/-- All entries but those under one name. -/
def without (entries : Entries α) (key : String) : Entries α :=
  entries.filter (·.1 ≠ key)

theorem get?_update_without {removed key : String} (hkey : key ≠ removed) (batch : Entries α)
    {entries entries' : Entries α} (hentries : get? entries key = get? entries' key) :
    get? (update entries (batch.without removed)) key = get? (update entries' batch) key := by
  induction batch generalizing entries entries' with
  | nil => exact hentries
  | cons entry rest ih =>
      obtain ⟨k, v⟩ := entry
      by_cases hk : k = removed
      · have hdropped : without ((k, v) :: rest) removed = without rest removed := by
          simp [without, hk]
        rw [hdropped]
        refine ih ?_
        rw [get?_insert, if_neg (hk ▸ hkey)]
        exact hentries
      · have hkept : without ((k, v) :: rest) removed = (k, v) :: without rest removed := by
          simp [without, hk]
        rw [hkept]
        refine ih ?_
        rw [get?_insert, get?_insert, hentries]

theorem get?_update_of_not_mem {key : String} {batch : Entries α}
    (hkey : ∀ entry ∈ batch, entry.1 ≠ key)
    (entries : Entries α) : get? (update entries batch) key = get? entries key := by
  induction batch generalizing entries with
  | nil => rfl
  | cons entry rest ih =>
      change get? (update (insert entries entry.1 entry.2) rest) key = _
      rw [ih fun e he => hkey e (List.mem_cons_of_mem _ he), get?_insert,
        if_neg (hkey entry List.mem_cons_self).symm]

theorem get?_ofList_without_self (entries : Entries α) (key : String) :
    get? (ofList (entries.without key)) key = none := by
  refine get?_update_of_not_mem (fun entry hentry => ?_) []
  simpa using (List.mem_filter.1 hentry).2

theorem get?_ofList_without {removed key : String} (hkey : key ≠ removed) (entries : Entries α) :
    get? (ofList (entries.without removed)) key = get? (ofList entries) key :=
  get?_update_without hkey entries rfl

end Entries

/-! ### Reading a program -/

namespace Registry

variable {registry : Registry} {v : Value} {a : Action}

theorem parseAction_of_node (hnode : registry.node v = .valid a) :
    registry.parseAction v = .ok a := by
  unfold node at hnode
  split at hnode
  · cases hnode
    assumption
  · cases hnode

/-- An action that is read remembers the mapping that it is read from. -/
theorem written_of_parseAction (hparse : registry.parseAction v = .ok a) :
    ∃ fields, v = .mapping fields ∧ a.written = some fields := by
  unfold parseAction at hparse
  cases hbudget : registry.maxDepth.toNat with
  | zero =>
      rw [hbudget] at hparse
      exact absurd hparse parseWithin_zero_ne_ok
  | succ budget =>
      rw [hbudget] at hparse
      obtain ⟨fields, _, _, form, hv, _, _, _, rfl⟩ := parseWithin_succ_eq_ok_iff.1 hparse
      exact ⟨fields, hv, rfl⟩

end Registry

namespace Program

variable {registry : Registry} {form : Notation} {fields : Fields} {program : Program}

/-- The steps of a document, as they are written in it. -/
def rawSteps (fields : Fields) : List Value :=
  match Entries.get? (Entries.ofList fields) "steps" with
  | some (.list vs) => vs.map Value.settle
  | _ => []

theorem ofFields_eq_valid_iff :
    ofFields registry form fields = .valid program ↔
      (Reader.withDefault (Entries.ofList fields) "selectors" []
        (Reader.mappingOf form Reader.text) = .valid program.selectors ∧
      Reader.withDefault (Entries.ofList fields) "actions" []
        (Reader.mappingOf form fun v => registry.node v.settle) = .valid program.actions ∧
      Reader.withDefault (Entries.ofList fields) "steps" []
        (Reader.listOf form fun v => registry.node v.settle) = .valid program.steps) ∧
      (Reader.onlyFields (Entries.ofList fields) ["selectors", "actions", "steps"]).IsValid := by
  unfold ofFields
  simp only [Check.seqLeft_eq_valid_iff, Check.seq_eq_valid_iff, Check.map_eq_valid_iff]
  refine and_congr_left fun _ => ?_
  constructor
  · rintro ⟨_, steps, ⟨_, actions, ⟨selectors, hselectors, rfl⟩, hactions, rfl⟩, hsteps, rfl⟩
    exact ⟨hselectors, hactions, hsteps⟩
  · rintro ⟨hselectors, hactions, hsteps⟩
    exact ⟨_, _, ⟨_, _, ⟨_, hselectors, rfl⟩, hactions, rfl⟩, hsteps, rfl⟩

/-- Each step of a program is what its value in the document is read as. -/
theorem forall₂_rawSteps (hread : ofFields registry form fields = .valid program) :
    List.Forall₂ (fun v a => registry.parseAction v = .ok a) (rawSteps fields) program.steps := by
  obtain ⟨⟨-, -, hsteps⟩, -⟩ := ofFields_eq_valid_iff.1 hread
  unfold Reader.withDefault at hsteps
  unfold rawSteps
  cases hget : Entries.get? (Entries.ofList fields) "steps" with
  | none =>
      rw [hget] at hsteps
      rw [← Check.valid.inj hsteps]
      exact .nil
  | some v =>
      rw [hget] at hsteps
      cases v with
      | list vs =>
          cases hitems : Reader.items (fun v => registry.node v.settle) 0 vs with
          | invalid issues =>
              simp only [Reader.listOf, hitems] at hsteps
              cases hsteps
          | valid as =>
              simp only [Reader.listOf, hitems] at hsteps
              rw [← Check.valid.inj hsteps, List.forall₂_map_left_iff]
              exact (Reader.forall₂_of_items hitems).imp fun v a h =>
                Registry.parseAction_of_node h
      | _ => cases hsteps

/-- Without its steps a document is read as the program without steps. -/
theorem ofFields_without_steps (hread : ofFields registry form fields = .valid program) :
    ofFields registry form (Entries.without fields "steps") =
      .valid { program with steps := [] } := by
  obtain ⟨⟨hselectors, hactions, -⟩, honly⟩ := ofFields_eq_valid_iff.1 hread
  refine ofFields_eq_valid_iff.2 ⟨⟨?_, ?_, ?_⟩, ?_⟩
  · unfold Reader.withDefault at hselectors ⊢
    rw [Entries.get?_ofList_without (by decide)]
    exact hselectors
  · unfold Reader.withDefault at hactions ⊢
    rw [Entries.get?_ofList_without (by decide)]
    exact hactions
  · unfold Reader.withDefault
    rw [Entries.get?_ofList_without_self]
  · rw [Reader.isValid_onlyFields] at honly ⊢
    intro entry hentry
    obtain ⟨v, hv⟩ := Entries.exists_get?_of_mem hentry
    have hkey : entry.1 ≠ "steps" := by
      intro hkey
      rw [hkey, Entries.get?_ofList_without_self] at hv
      cases hv
    rw [Entries.get?_ofList_without hkey] at hv
    obtain ⟨entry', hentry', heq⟩ := List.mem_map.1 (Entries.mem_keys_iff.2 ⟨v, hv⟩)
    exact heq ▸ honly entry' hentry'

end Program

/-! ### The steps of the program in force -/

namespace Interpreter

variable {σ : Type} (it : Interpreter σ)

/-- The same interpreter while another list of steps is in force. -/
def withSteps (steps : List Action) : Interpreter σ :=
  { it with program := { it.program with steps } }

theorem plan_withSteps (steps : List Action) : (it.withSteps steps).plan = it.plan := by
  have hplan (k : Kind) (a : Action) (frame : Frame Handle) :
      Handler.plan (it.withSteps steps).program k a frame = Handler.plan it.program k a frame := by
    cases k with
    | store =>
        have hitems (items : List (String × Item Action)) :
            Handler.itemValues (it.withSteps steps).program frame items =
              Handler.itemValues it.program frame items := by
          induction items with
          | nil => rfl
          | cons entry rest ih =>
              obtain ⟨name, item⟩ := entry
              simp only [Handler.itemValues, ih]
              rfl
        simp only [Handler.plan, hitems]
    | _ => rfl
  have hcall (name : String) (a : Action) (frame : Frame Handle) :
      Handler.call (it.withSteps steps).program name a frame =
        Handler.call it.program name a frame := rfl
  funext a frame
  unfold plan
  simp only [hplan, hcall]
  rfl

/-- No evaluation depends on the steps of the program. -/
theorem evaluateWithin_withSteps (steps : List Action) (budget : Nat) :
    (it.withSteps steps).evaluateWithin budget = it.evaluateWithin budget := by
  have hserve (ev : Evaluator σ) : (it.withSteps steps).serve ev = it.serve ev := by
    funext r
    cases r <;> rfl
  induction budget with
  | zero =>
      funext a frame
      unfold evaluateWithin
      rfl
  | succ budget ih =>
      funext a frame
      unfold evaluateWithin
      simp only [ih, step, plan_withSteps, hserve]
      rfl

end Interpreter

/-! ### Both ways to run a document -/

theorem World.arm_arm {σ : Type} (w : World σ) : w.arm.arm = w.arm := by
  unfold arm
  rw [Token.arm_eq, Token.arm_eq]
  cases w.token.deadline with
  | some d => rfl
  | none =>
      cases w.token.timeout with
      | none => rfl
      | some limit => rfl

namespace Runner

variable {σ : Type} {it : Interpreter σ} {index : Nat} {v : Value} {a : Action}

theorem runStep_withProgram (it : Interpreter σ) (index : Nat) (step : Step) (s : Session σ)
    (program : Program) :
    runStep it index step { s with program } =
      ((runStep it index step s).1, { (runStep it index step s).2 with program }) := by
  cases houtcome : (evaluateStep it { source := sourceOf index } step).outcome s.world with
  | mk result w' =>
      cases result with
      | error f =>
          rw [runStep_of_faulty houtcome, runStep_of_faulty (s := { s with program }) houtcome]
      | ok outcome =>
          obtain ⟨n, archive, hrecord⟩ := record_retarget (sourceOf index) step outcome s.world.now
            { s with world := w' }
          rw [runStep_of_outcome houtcome, runStep_of_outcome (s := { s with program }) houtcome,
            hrecord w' s.program rfl, hrecord w' program rfl]

/-- The error of a step is reported, and that is how the run ends. -/
theorem runFrom_of_reported {step : Step} {s s' : Session σ} {e : ActionError} (v : Value)
    (rest : List Step) (hstep : runStep it index step s = (.ok (.error e), s')) :
    runFrom it index v (step :: rest) s = failed e s' :=
  Fallible.bind_of_ok hstep

theorem runFrom_withProgram (it : Interpreter σ) (index : Nat) (v : Value) (steps : List Step)
    (s : Session σ) (program : Program) :
    runFrom it index v steps { s with program } =
      ((runFrom it index v steps s).1, { (runFrom it index v steps s).2 with program }) := by
  induction steps generalizing index v s with
  | nil => rfl
  | cons step rest ih =>
      have hstep' := runStep_withProgram it index step s program
      cases hstep : runStep it index step s with
      | mk result s' =>
          rw [hstep] at hstep'
          cases result with
          | error f => rw [runFrom_of_fault hstep, runFrom_of_fault hstep']
          | ok outcome =>
              cases outcome with
              | ok v' =>
                  rw [runFrom_of_ok hstep, runFrom_of_ok hstep']
                  exact ih (index + 1) v' s'
              | error e =>
                  rw [runFrom_of_reported v rest hstep, runFrom_of_reported v rest hstep']
                  rfl

/-- A step comes to the same whether it is read beforehand or as its turn comes, and whichever steps
are in force. -/
theorem runStep_raw (steps : List Action) (hparse : it.registry.parseAction v = .ok a) :
    runStep (it.withSteps steps) index (.raw v) = runStep it index (.action a) := by
  have hevaluate : evaluateStep (it.withSteps steps) { source := sourceOf index } (.raw v) =
      evaluateStep it { source := sourceOf index } (.action a) := by
    have hread : (Step.raw v).action? (it.withSteps steps).registry = some a := by
      change (it.registry.parseAction v).toOption = some a
      rw [hparse]
      rfl
    rw [evaluateStep_of_read hread]
    exact congrFun (congrFun (it.evaluateWithin_withSteps steps _) a) _
  have hfields : (Step.raw v).fields = (Step.action a).fields := by
    obtain ⟨fields, rfl, hwritten⟩ := Registry.written_of_parseAction hparse
    exact (Action.payload_of_written hwritten).symm
  have hrecord (outcome : Outcome) (started : Binary64) :
      (record (sourceOf index) (.raw v) outcome started : Activity σ Unit) =
        record (sourceOf index) (.action a) outcome started := by
    funext s
    simp only [record, event, hfields]
  simp only [runStep, hevaluate, hrecord]

theorem runFrom_raw (it : Interpreter σ) (steps : List Action) {vs : List Value} {as : List Action}
    (hparse : List.Forall₂ (fun v a => it.registry.parseAction v = .ok a) vs as) (index : Nat)
    (v : Value) :
    runFrom (it.withSteps steps) index v (vs.map .raw) = runFrom it index v (as.map .action) := by
  induction hparse generalizing index v with
  | nil => rfl
  | cons hfirst _ ih =>
      simp only [List.map_cons, runFrom, runStep_raw steps hfirst, ih]

/-- To run a document is to run it without its steps and then its steps as they are written.

The first of the two runs has nothing to do.  The second has the result of the whole, and leaves the
same behind: the same world, with what was stored, called and logged, and the same events in the
log.  All that is different is the list of steps in force, which no evaluation looks at. -/
theorem run_stepwise {r : Runner σ} {fields : Fields} {program : Program}
    (hparse : (Document.value (.mapping fields)).parse r.registry = .ok program) (s : Session σ) :
    ∃ s' s'' result,
      r.run (.value (.mapping (Entries.without fields "steps"))) s = (.ok (.ok .null), s') ∧
      r.runSteps ((Program.rawSteps fields).map .raw) s' = (result, s'') ∧
      s''.program = { program with steps := [] } ∧
      r.run (.value (.mapping fields)) s = (result, { s'' with program }) := by
  have hread : Program.ofFields r.registry .value fields = .valid program := by
    unfold Document.parse at hparse
    split at hparse
    next hcheck =>
      cases hparse
      exact hcheck
    · cases hparse
  have hnames : (Document.value (.mapping (Entries.without fields "steps"))).parse r.registry =
      .ok { program with steps := [] } := by
    have hcheck : (Document.value (.mapping (Entries.without fields "steps"))).check r.registry =
        .valid { program with steps := [] } := Program.ofFields_without_steps hread
    rw [Document.parse, hcheck]
  have hsteps : runFrom ((r.interpreter program).withSteps []) 0 .null
      ((Program.rawSteps fields).map .raw) =
        runFrom (r.interpreter program) 0 .null (program.steps.map .action) :=
    runFrom_raw (r.interpreter program) [] (Program.forall₂_rawSteps hread) 0 .null
  -- what the steps of the program come to, whatever program is in force
  obtain ⟨result, s₀, hresult⟩ : ∃ result s₀, runFrom (r.interpreter program) 0 .null
      (program.steps.map .action) { s with world := s.world.arm } = (result, s₀) := ⟨_, _, rfl⟩
  have hending (inForce : Program) : runFrom (r.interpreter program) 0 .null
      (program.steps.map .action) { s with program := inForce, world := s.world.arm } =
        (result, { s₀ with program := inForce }) := by
    have hsame := runFrom_withProgram (r.interpreter program) 0 .null
      (program.steps.map .action) { s with world := s.world.arm } inForce
    rw [hresult] at hsame
    exact hsame
  refine ⟨{ s with program := { program with steps := [] }, world := s.world.arm },
    { s₀ with program := { program with steps := [] } }, result, ?_, ?_, rfl, ?_⟩
  · rw [run_of_parsed hnames]
    rfl
  · rw [runSteps_apply, World.arm_arm]
    exact (congrFun hsteps _).trans (hending { program with steps := [] })
  · rw [run_of_parsed hparse]
    exact hending program

/-- A step that logs a message, as it is written. -/
def writtenRemark (message : String) : Fields :=
  [("action", .text "log"), ("message", .text message)]

theorem parseAction_writtenRemark (message : String) :
    remarking.registry.parseAction (.mapping (writtenRemark message)) =
      .ok (.node (some (writtenRemark message)) (.log message)) :=
  Registry.parseWithin_succ_eq_ok_iff.2
    ⟨writtenRemark message, "log", .kind .log, .log message, rfl, rfl, rfl, rfl, rfl⟩

/-- A document with a selector and two steps. -/
def twoRemarks : Fields :=
  [("selectors", .mapping [("a", .text "li")]),
    ("steps", .list [.mapping (writtenRemark "x"), .mapping (writtenRemark "y")])]

theorem parse_twoRemarks : (Document.value (.mapping twoRemarks)).parse remarking.registry =
    .ok ⟨[("a", "li")], [], [.node (some (writtenRemark "x")) (.log "x"),
      .node (some (writtenRemark "y")) (.log "y")]⟩ := by
  have hnode (message : String) :
      remarking.registry.node (Value.settle (.mapping (writtenRemark message))) =
        .valid (.node (some (writtenRemark message)) (.log message)) := by
    have hsettle : Value.settle (.mapping (writtenRemark message)) =
        .mapping (writtenRemark message) := rfl
    rw [hsettle, Registry.node, parseAction_writtenRemark]
  have hsteps : Reader.withDefault (Entries.ofList twoRemarks) "steps" []
      (Reader.listOf .value fun v => remarking.registry.node v.settle) =
        .valid [.node (some (writtenRemark "x")) (.log "x"),
          .node (some (writtenRemark "y")) (.log "y")] := by
    have hget : Entries.get? (Entries.ofList twoRemarks) "steps" =
        some (.list [.mapping (writtenRemark "x"), .mapping (writtenRemark "y")]) := rfl
    rw [Reader.withDefault, hget]
    simp only [Reader.listOf, Reader.items, hnode]
    rfl
  have hread : Program.ofFields remarking.registry .value twoRemarks = .valid ⟨[("a", "li")], [],
      [.node (some (writtenRemark "x")) (.log "x"), .node (some (writtenRemark "y")) (.log "y")]⟩ :=
    Program.ofFields_eq_valid_iff.2 ⟨⟨rfl, rfl, hsteps⟩, ⟨(), rfl⟩⟩
  rw [Document.parse, Document.check, Program.ofValue, hread]

theorem run_stepwise_twoRemarks :
    ∃ program s' s'' result,
      (Document.value (.mapping twoRemarks)).parse remarking.registry = .ok program ∧
      program.steps.length = 2 ∧
      remarking.run (.value (.mapping [("selectors", .mapping [("a", .text "li")])]))
        remarkingSession = (.ok (.ok .null), s') ∧
      remarking.runSteps [.raw (.mapping (writtenRemark "x")), .raw (.mapping (writtenRemark "y"))]
        s' = (result, s'') ∧
      s''.program = { program with steps := [] } ∧
      remarking.run (.value (.mapping twoRemarks)) remarkingSession =
        (result, { s'' with program }) := by
  obtain ⟨s', s'', result, hnames, hsteps, hprogram, hrun⟩ :=
    run_stepwise parse_twoRemarks remarkingSession
  exact ⟨_, s', s'', result, parse_twoRemarks, rfl, hnames, hsteps, hprogram, hrun⟩

end Runner

end Pagescript
