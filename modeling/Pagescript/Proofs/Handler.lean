import Pagescript.Proofs.Course
/-!
# What handlers keep to

Said once for all handlers: to which actions and frames a handler goes on, what else it asks for,
and for which reasons it stops of its own.
-/

namespace Pagescript

/-- A text that stands for an action of the program, although no call can be made up from it. -/
def Program.Unreadable (program : Program) (s : String) : Prop :=
  (∃ name target, program.resolve s = .action name target) ∧
    ∀ name, Reader.referenceText (.text s) ≠ .valid name

theorem Form.eq_compare_of_kind? {α : Type} {form : Form α} {c : Comparison}
    (hkind : form.kind? = some (.compare c)) :
    ∃ expected statement ignoreCase, form = .compare c expected statement ignoreCase := by
  cases form <;> simp_all [Form.kind?]

theorem Form.kind?_of_items? {α : Type} {form : Form α} {items : List (String × Item α)}
    (hitems : form.items? = some items) : form.kind? = some .store := by
  cases form <;> simp_all [Form.items?, Form.kind?]

namespace Handler

open Plan

/-- The actions and frames that an action at a frame can lead to: its parts, which stay at the frame
or go to a turn or an item, and the action that it calls. -/
inductive Leads (program : Program) (a : Action) (frame : Frame Handle) :
    Action → Frame Handle → Prop where
  | statements {b : Action} {bs : List Action} (hbs : a.form.statements? = some bs) (hb : b ∈ bs) :
    Leads program a frame b frame
  | condition {b : Action} (hb : a.form.condition? = some b) : Leads program a frame b frame
  | statement {b : Action} (hb : a.form.statement? = some (.node b)) : Leads program a frame b frame
  | otherwise {b : Action} (hb : a.form.otherwise? = some (some b)) : Leads program a frame b frame
  | turn {b : Action} (hb : a.form.execute? = some b) (index : Nat) (handle : Handle) :
    Leads program a frame b ((frame.item index).bind (some handle))
  | item {b : Action} {name : String} {items : List (String × Item Action)}
    (hitems : a.form.items? = some items) (hb : (name, .node b) ∈ items) :
    Leads program a frame b (frame.field name)
  | reference {name s called target : String} {b : Action} {items : List (String × Item Action)}
    (hitems : a.form.items? = some items) (hs : (name, .literal (.text s)) ∈ items)
    (hresolve : program.resolve s = .action called b)
    (hread : Reader.referenceText (.text s) = .valid target) :
    Leads program a frame (.callOf target) (frame.field name)
  | call {b : Action} {name : String} (hform : a.form = .call name)
    (hb : program.action? name = some b) : Leads program a frame b (frame.calling name)

/-- What a handler of some kind can ask for; only that of store actions writes to the store. -/
inductive Asks (program : Program) (k : Option Kind) (a : Action) (frame : Frame Handle) :
    Request → Prop where
  | evaluate {b : Action} {g : Frame Handle} (hlead : Leads program a frame b g) :
    Asks program k a frame (.evaluate b g)
  | carryOut (task : Surface.Task) : Asks program k a frame (.carryOut task)
  | wait (awaited : Surface.Awaited) : Asks program k a frame (.wait awaited)
  | timeout : Asks program k a frame .timeout
  | lookUp (name : String) : Asks program k a frame (.lookUp name)
  | commit (hk : k = some .store) (batch : Fields) : Asks program k a frame (.commit batch)
  | log {level : Level} (hlevel : level = .info ∨ level = .error) (message : String) :
    Asks program k a frame (.log level message)

/-- Why a handler of some kind can stop of its own: the action fails at its frame (though not on
account of a limit, and as unknown only without a handler), the action is of another kind, or an item
of a store action cannot be read as a call. -/
inductive Halts (program : Program) (k : Option Kind) (a : Action) (frame : Frame Handle) :
    Stop → Prop where
  | failure {code : ErrorCode} (hcode : code ≠ .recursionLimit)
    (hunknown : code = .unknownAction → k = none ∧ a.form.kind? ≠ none) (message : String)
    (payload : List Value) :
    Halts program k a frame (.failure frame a.payload code message payload)
  | missingField (hk : a.form.kind? ≠ k) (title field : String) :
    Halts program k a frame (.fault (.missingField title field))
  | missingSelector (hk : a.form.kind? ≠ k) : Halts program k a frame (.fault .missingSelector)
  | badReference {name s : String} {items : List (String × Item Action)}
    (hitems : a.form.items? = some items) (hs : (name, .literal (.text s)) ∈ items)
    (hunreadable : program.Unreadable s) (issues : List Issue) :
    Halts program k a frame (.fault (.badReference issues))

/-- The faults of handlers: the action is of another kind, or a reference cannot be read. -/
theorem Halts.fault_cases {program : Program} {k : Option Kind} {a : Action} {frame : Frame Handle}
    {f : Fault} (hhalts : Halts program k a frame (.fault f)) :
    (a.form.kind? ≠ k ∧ ((∃ title field, f = .missingField title field) ∨ f = .missingSelector)) ∨
      a.form.kind? = some .store ∧ (∃ s, program.Unreadable s) ∧
        ∃ issues, f = .badReference issues := by
  generalize hs : Stop.fault f = s at hhalts
  cases hhalts with
  | failure hcode hunknown message payload => cases hs
  | missingField hk title field =>
      cases hs
      exact .inl ⟨hk, .inl ⟨title, field, rfl⟩⟩
  | missingSelector hk =>
      cases hs
      exact .inl ⟨hk, .inr rfl⟩
  | badReference hitems hs' hunreadable issues =>
      cases hs
      exact .inr ⟨Form.kind?_of_items? hitems, ⟨_, hunreadable⟩, issues, rfl⟩

/-- A plan that keeps to what a handler of some kind can do with an action at a frame. -/
abbrev Proper {α : Type} (program : Program) (k : Option Kind) (a : Action) (frame : Frame Handle)
    (gives : α → Prop) (p : Plan α) : Prop :=
  p.Abides (Asks program k a frame) (Halts program k a frame) gives

section Parts

variable {α : Type} {program : Program} {k : Option Kind} {a : Action} {frame : Frame Handle}

theorem proper_failAt {gives : α → Prop} (code : ErrorCode) (message : String)
    (payload : List Value) (hcode : code ≠ .recursionLimit := by decide)
    (hunknown : code ≠ .unknownAction := by decide) :
    Proper program k a frame gives (failAt a frame code message payload) :=
  abides_stop (.failure hcode (fun hcode => absurd hcode hunknown) message payload)

theorem proper_need {field : String} {o : Option α} (ho : o = none → a.form.kind? ≠ k) :
    Proper program k a frame (fun v => o = some v) (need a field o) := by
  cases o with
  | none => exact abides_stop (.missingField (ho rfl) _ _)
  | some v => exact abides_pure rfl

theorem proper_evaluate {b : Action} {g : Frame Handle} (hlead : Leads program a frame b g) :
    Proper program k a frame (fun _ => True) (evaluate b g) :=
  abides_ask (.evaluate hlead)

theorem proper_carryOut (task : Surface.Task) :
    Proper program k a frame (fun _ => True) (carryOut task) :=
  abides_ask (.carryOut task)

theorem proper_selector (expression : String) :
    Proper program k a frame (fun _ => True) (selector program a frame expression) := by
  unfold selector
  split
  · exact abides_pure trivial
  · exact proper_failAt _ _ _

theorem proper_target : Proper program k a frame (fun _ => True) (target program a frame) := by
  unfold target
  split
  · exact (proper_selector _).bind fun selector _ => proper_carryOut (.queryOne selector)
  · exact abides_pure trivial
  · exact proper_failAt _ _ _

theorem proper_expectFlag {b : Action} (hlead : Leads program a frame b frame) (label : String) :
    Proper program k a frame (fun _ => True) (expectFlag a frame b label) := by
  refine (proper_evaluate hlead).bind fun v _ => ?_
  split
  · exact abides_pure trivial
  · exact proper_failAt _ _ _

theorem proper_expectText {b : Action} (hlead : Leads program a frame b frame) (label : String) :
    Proper program k a frame (fun _ => True) (expectText a frame b label) := by
  refine (proper_evaluate hlead).bind fun v _ => ?_
  split
  · exact abides_pure trivial
  · exact proper_failAt _ _ _

theorem proper_wait (awaited : Surface.Awaited) :
    Proper program k a frame (fun _ => True) (wait a frame awaited) := by
  refine (abides_ask (.wait awaited)).bind fun ending _ => ?_
  split
  · exact abides_pure trivial
  · exact proper_failAt _ _ _
  · exact (abides_ask .timeout).bind fun limit _ => proper_failAt _ _ _

theorem proper_evaluateAll {bs : List Action} (hlead : ∀ b ∈ bs, Leads program a frame b frame)
    (v : Value) : Proper program k a frame (fun _ => True) (evaluateAll frame v bs) := by
  induction bs generalizing v with
  | nil => exact abides_pure trivial
  | cons b rest ih =>
      refine (proper_evaluate (hlead b List.mem_cons_self)).bind fun v _ => ?_
      exact ih (fun b hb => hlead b (List.mem_cons_of_mem _ hb)) v

theorem proper_turns {b : Action} (hb : a.form.execute? = some b) (index : Nat)
    (handles : List Handle) :
    Proper program k a frame (fun _ => True) (turns b frame index handles) := by
  induction handles generalizing index with
  | nil => exact abides_pure trivial
  | cons handle rest ih =>
      exact (proper_evaluate (.turn hb index handle)).bind fun _ _ => ih (index + 1)

theorem proper_itemValue {name : String} {item : Item Action} {items : List (String × Item Action)}
    (hitems : a.form.items? = some items) (hitem : (name, item) ∈ items) :
    Proper program k a frame (fun _ => True) (itemValue program (frame.field name) item) := by
  unfold itemValue
  split
  · exact proper_evaluate (.item hitems hitem)
  · split
    next hresolve =>
      split
      next target hread => exact proper_evaluate (.reference hitems hitem hresolve hread)
      next issues hread =>
        refine abides_stop (.badReference hitems hitem ⟨⟨_, _, hresolve⟩, ?_⟩ _)
        intro target htarget
        rw [hread] at htarget
        cases htarget
    · exact abides_pure trivial
    · exact abides_pure trivial
  · exact abides_pure trivial

theorem proper_itemValues {items rest : List (String × Item Action)}
    (hitems : a.form.items? = some items) (hrest : ∀ entry ∈ rest, entry ∈ items) :
    Proper program k a frame (fun _ => True) (itemValues program frame rest) := by
  induction rest with
  | nil => exact abides_pure trivial
  | cons entry rest ih =>
      obtain ⟨name, item⟩ := entry
      refine (proper_itemValue hitems (hrest _ List.mem_cons_self)).bind fun v _ => ?_
      refine (ih fun entry hentry => hrest entry (List.mem_cons_of_mem _ hentry)).bind ?_
      exact fun batch _ => abides_pure trivial

theorem proper_statementOf (hk : a.form.kind? = k → ∃ b, a.form.statement? = some (.node b)) :
    Proper program k a frame (fun b => a.form.statement? = some (.node b)) (statementOf a) := by
  refine (proper_need fun hnone hkind => ?_).bind fun operand hoperand => ?_
  · obtain ⟨b, hb⟩ := hk hkind
    rw [hnone] at hb
    cases hb
  · split
    · exact abides_pure hoperand
    next flag =>
      refine abides_stop (.missingField (fun hkind => ?_) _ _)
      obtain ⟨b, hb⟩ := hk hkind
      rw [hoperand] at hb
      cases hb

theorem proper_comparison (c : Comparison) :
    Proper program (some (.compare c)) a frame (fun _ => True) (comparison c a frame) := by
  have hexpected : Proper program (some (.compare c)) a frame (fun _ => True) (expectedOf a c) := by
    have hfield : a.form.kind? = some (.compare c) →
        (a.form.expected? = none → c = .contains) ∧ (a.form.text? = none → c ≠ .contains) := by
      intro hkind
      obtain ⟨expected, statement, ignoreCase, hform⟩ := Form.eq_compare_of_kind? hkind
      rw [hform]
      cases c <;> simp [Form.expected?, Form.text?]
    cases c with
    | equal | notEqual =>
        refine Abides.mono (proper_need ?_) (fun _ => id) (fun _ => id) fun _ _ => trivial
        intro hnone hkind
        cases (hfield hkind).1 hnone
    | contains =>
        refine Abides.mono (proper_need ?_) (fun _ => id) (fun _ => id) fun _ _ => trivial
        intro hnone hkind
        exact (hfield hkind).2 hnone rfl
  refine hexpected.bind fun expected _ => ?_
  refine (proper_statementOf fun hkind => ?_).bind fun b hb => ?_
  · cases hform : a.form <;> simp_all [Form.statement?, Form.kind?]
  refine (proper_expectText (.statement hb) _).bind fun actual _ => ?_
  refine (proper_need fun hnone => ?_).bind fun ignoreCase _ => ?_
  · cases hform : a.form <;> simp_all [Form.ignoreCase?, Form.kind?]
  split
  · exact abides_pure trivial
  · exact abides_pure trivial

end Parts

/-- The handler of a kind keeps to what is said of handlers, whatever action it is given. -/
theorem proper_plan (program : Program) (k : Kind) (a : Action) (frame : Frame Handle) :
    Proper program (some k) a frame (fun _ => True) (plan program k a frame) := by
  cases k with
  | sequence =>
      refine (proper_need fun hnone => ?_).bind fun bs hbs => ?_
      · cases hform : a.form <;> simp_all [Form.statements?, Form.kind?]
      · exact proper_evaluateAll (fun b hb => .statements hbs hb) _
  | branch =>
      refine (proper_need fun hnone => ?_).bind fun condition hcondition => ?_
      · cases hform : a.form <;> simp_all [Form.condition?, Form.kind?]
      refine (proper_expectFlag (.condition hcondition) _).bind fun holds _ => ?_
      split
      · refine (proper_statementOf fun hkind => ?_).bind fun b hb => proper_evaluate (.statement hb)
        cases hform : a.form <;> simp_all [Form.statement?, Form.kind?]
      · refine (proper_need fun hnone => ?_).bind fun otherwise hotherwise => ?_
        · cases hform : a.form <;> simp_all [Form.otherwise?, Form.kind?]
        split
        · exact proper_evaluate (.otherwise hotherwise)
        · exact abides_pure trivial
  | negate =>
      refine (proper_need fun hnone => ?_).bind fun operand hoperand => ?_
      · cases hform : a.form <;> simp_all [Form.statement?, Form.kind?]
      split
      · exact abides_pure trivial
      · refine (proper_expectFlag (.statement hoperand) _).bind fun b _ => abides_pure trivial
  | forEach =>
      refine (proper_need fun hnone => ?_).bind fun elements _ => ?_
      · cases hform : a.form <;> simp_all [Form.elements?, Form.kind?]
      refine (proper_selector elements).bind fun selector _ => ?_
      refine (proper_carryOut (.queryAll selector)).bind fun handles _ => ?_
      refine (proper_need fun hnone => ?_).bind fun b hb => proper_turns hb 0 handles
      cases hform : a.form <;> simp_all [Form.execute?, Form.kind?]
  | has =>
      refine (proper_need fun hnone => ?_).bind fun element helement => ?_
      · cases hform : a.form <;> simp_all [Form.element?, Form.kind?]
      split
      next expression =>
        refine (proper_selector expression).bind fun selector _ => ?_
        exact (proper_carryOut (.queryAll selector)).bind fun handles _ => abides_pure trivial
      · refine abides_stop (.missingSelector fun hkind => ?_)
        cases hform : a.form <;> simp_all [Form.element?, Form.kind?]
  | inspect inspection =>
      exact proper_target.bind fun handle _ => proper_carryOut (.inspect handle inspection)
  | attributeOf =>
      refine proper_target.bind fun handle _ => ?_
      refine (proper_need fun hnone => ?_).bind fun name _ =>
        proper_carryOut (.readAttribute handle name)
      cases hform : a.form <;> simp_all [Form.name?, Form.kind?]
  | compare c => exact proper_comparison c
  | gesture g =>
      refine proper_target.bind fun handle _ => ?_
      exact (proper_carryOut (.gesture handle g)).bind fun _ _ => abides_pure trivial
  | input =>
      have htext : a.form.text? = none → a.form.kind? ≠ some .input := by
        intro hnone
        cases hform : a.form <;> simp_all [Form.text?, Form.kind?]
      simp only [plan]
      split
      · refine proper_target.bind fun handle _ => ?_
        refine (proper_need htext).bind fun text _ => ?_
        exact (proper_carryOut (.input handle text)).bind fun _ _ => abides_pure trivial
      · refine (proper_need htext).bind fun text _ => ?_
        exact (proper_carryOut (.insertText text)).bind fun _ _ => abides_pure trivial
  | press =>
      refine (proper_need fun hnone => ?_).bind fun key _ => ?_
      · cases hform : a.form <;> simp_all [Form.key?, Form.kind?]
      split
      · refine proper_target.bind fun handle _ => ?_
        exact (proper_carryOut (.press handle _)).bind fun _ _ => abides_pure trivial
      · exact (proper_carryOut (.pressKey _)).bind fun _ _ => abides_pure trivial
  | navigate =>
      refine (proper_need fun hnone => ?_).bind fun link _ => ?_
      · cases hform : a.form <;> simp_all [Form.link?, Form.kind?]
      · exact (proper_carryOut (.navigate link)).bind fun _ _ => abides_pure trivial
  | eval =>
      have hexpression : a.form.expression? = none → a.form.kind? ≠ some .eval := by
        intro hnone
        cases hform : a.form <;> simp_all [Form.expression?, Form.kind?]
      simp only [plan]
      split
      · refine proper_target.bind fun handle _ => ?_
        exact (proper_need hexpression).bind fun expression _ =>
          proper_carryOut (.evaluateOn handle expression)
      · exact (proper_need hexpression).bind fun expression _ =>
          proper_carryOut (.evaluate expression)
  | sleep =>
      refine (proper_need fun hnone => ?_).bind fun duration _ => proper_wait (.pause duration)
      cases hform : a.form <;> simp_all [Form.duration?, Form.kind?]
  | awaitPage state => exact proper_wait (.page state)
  | awaitElement state =>
      exact proper_target.bind fun handle _ => proper_wait (.element handle state)
  | store =>
      refine (proper_need fun hnone => ?_).bind fun items hitems => ?_
      · cases hform : a.form <;> simp_all [Form.items?, Form.kind?]
      refine (proper_itemValues hitems fun entry hentry => hentry).bind fun batch _ => ?_
      exact (abides_ask (.commit rfl batch)).bind fun _ _ => abides_pure trivial
  | logStore =>
      refine (proper_need fun hnone => ?_).bind fun name _ => ?_
      · cases hform : a.form <;> simp_all [Form.name?, Form.kind?]
      refine (abides_ask (.lookUp name)).bind fun stored _ => ?_
      split
      · exact (abides_ask (.log (.inl rfl) _)).bind fun _ _ => abides_pure trivial
      · exact proper_failAt _ _ _
  | log =>
      refine (proper_need fun hnone => ?_).bind fun message _ => ?_
      · cases hform : a.form <;> simp_all [Form.message?, Form.kind?]
      · exact (abides_ask (.log (.inl rfl) _)).bind fun _ _ => abides_pure trivial
  | error =>
      refine (proper_need fun hnone => ?_).bind fun message _ => ?_
      · cases hform : a.form <;> simp_all [Form.message?, Form.kind?]
      · exact (abides_ask (.log (.inr rfl) _)).bind fun _ _ => proper_failAt _ _ _

/-- A store action computes the values of its items and then writes them all. -/
theorem plan_store {program : Program} {a : Action} {items : List (String × Item Action)}
    (hitems : a.form.items? = some items) (frame : Frame Handle) :
    plan program .store a frame = do
      let batch ← itemValues program frame items
      ask (.commit batch)
      return Value.null := by
  rw [plan, hitems]
  rfl

theorem proper_call {program : Program} {name : String} {a : Action} (frame : Frame Handle)
    (hform : a.form = .call name) :
    Proper program none a frame (fun _ => True) (call program name a frame) := by
  unfold call
  split
  next target htarget => exact proper_evaluate (.call hform htarget)
  · exact proper_failAt _ _ _

end Handler

namespace Interpreter

open Handler

variable {σ : Type}

/-- The kind whose handler carries an action out, if there is one. -/
def dispatch? (it : Interpreter σ) (a : Action) : Option Kind :=
  match a.form with
  | .call _ => none
  | form => (it.registry.get? form.name).bind (·.handler)

theorem plan_of_dispatch? {it : Interpreter σ} {a : Action} {k : Kind}
    (hdispatch : it.dispatch? a = some k) (frame : Frame Handle) :
    it.plan a frame = Handler.plan it.program k a frame := by
  unfold dispatch? at hdispatch
  unfold plan
  cases hform : a.form with
  | call name =>
      rw [hform] at hdispatch
      cases hdispatch
  | _ =>
      rw [hform] at hdispatch
      simp only at hdispatch ⊢
      rw [hdispatch]

/-- What an action does keeps to what is said of the handler that it is dispatched to. -/
theorem proper_plan (it : Interpreter σ) (a : Action) (frame : Frame Handle) :
    Proper it.program (it.dispatch? a) a frame (fun _ => True) (it.plan a frame) := by
  unfold plan dispatch?
  cases hform : a.form with
  | call name => exact proper_call frame hform
  | _ =>
      simp only
      split
      next k hk =>
        rw [hk]
        exact Handler.proper_plan it.program k a frame
      next hnone =>
        refine Plan.abides_stop (.failure (by decide) (fun _ => ⟨hnone, ?_⟩) _ _)
        simp [hform, Form.kind?]

end Interpreter

end Pagescript
