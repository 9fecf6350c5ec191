import Pagescript.Action.Fold
import Pagescript.Proofs.Handler
/-!
# Plans that are alike

Two plans are alike if they make the same requests, but for the actions that they evaluate and the
frames at which they do, and end alike.  A handler sees of an action nothing but its form, and of a
frame nothing but the element that is bound: its plans for two actions of one form are alike.
-/

namespace Pagescript

/-! ### The fields of a form with other parts -/

namespace Form

variable {α β : Type} (f : α → β) (form : Form α)

@[simp]
theorem map_id : form.map id = form := by
  have hitem (item : Item α) : item.map id = item := by
    cases item <;> rfl
  have hoperand (operand : Operand α) : operand.map id = operand := by
    cases operand <;> rfl
  cases form <;> simp [map, hitem, hoperand]

theorem map_eq_call_iff {f : α → β} {form : Form α} {name : String} :
    form.map f = .call name ↔ form = .call name := by
  cases form <;> simp [map]

theorem kind?_map : (form.map f).kind? = form.kind? := by cases form <;> rfl

theorem title_map : (form.map f).title = form.title := by
  rw [title, kind?_map, title]

theorem name_map : (form.map f).name = form.name := by cases form <;> rfl

@[simp]
theorem statements?_map : (form.map f).statements? = form.statements?.map (·.map f) := by
  cases form <;> rfl

@[simp]
theorem condition?_map : (form.map f).condition? = form.condition?.map f := by
  cases form <;> rfl

@[simp]
theorem statement?_map : (form.map f).statement? = form.statement?.map (·.map f) := by
  cases form <;> rfl

@[simp]
theorem otherwise?_map : (form.map f).otherwise? = form.otherwise?.map (·.map f) := by
  cases form <;> rfl

@[simp]
theorem execute?_map : (form.map f).execute? = form.execute?.map f := by
  cases form <;> rfl

@[simp]
theorem items?_map :
    (form.map f).items? = form.items?.map (·.map fun entry => (entry.1, entry.2.map f)) := by
  cases form <;> rfl

@[simp]
theorem elements?_map : (form.map f).elements? = form.elements? := by cases form <;> rfl

@[simp]
theorem element?_map : (form.map f).element? = form.element? := by cases form <;> rfl

@[simp]
theorem target?_map : (form.map f).target? = form.target? := by
  rw [target?, element?_map, target?]

@[simp]
theorem name?_map : (form.map f).name? = form.name? := by cases form <;> rfl

@[simp]
theorem expected?_map : (form.map f).expected? = form.expected? := by
  cases form with
  | compare c => cases c <;> rfl
  | _ => rfl

@[simp]
theorem text?_map : (form.map f).text? = form.text? := by
  cases form with
  | compare c => cases c <;> rfl
  | _ => rfl

@[simp]
theorem ignoreCase?_map : (form.map f).ignoreCase? = form.ignoreCase? := by cases form <;> rfl

@[simp]
theorem key?_map : (form.map f).key? = form.key? := by cases form <;> rfl

@[simp]
theorem link?_map : (form.map f).link? = form.link? := by cases form <;> rfl

@[simp]
theorem expression?_map : (form.map f).expression? = form.expression? := by cases form <;> rfl

@[simp]
theorem duration?_map : (form.map f).duration? = form.duration? := by cases form <;> rfl

@[simp]
theorem message?_map : (form.map f).message? = form.message? := by cases form <;> rfl

end Form

/-! ### Two plans -/

namespace Plan

variable {α α' β β' : Type}

/-- Whatever the answers are, both plans make the same requests, where an evaluation stands for
another one, and end with like values, like errors, or the same fault. -/
inductive Alike (evaluations : Action → Frame Handle → Action → Frame Handle → Prop)
    (errors : ActionError → ActionError → Prop) (values : α → α' → Prop) :
    Plan α → Plan α' → Prop where
  | done {v : α} {v' : α'} (hv : values v v') : Alike evaluations errors values (done v) (done v')
  | failed {e e' : ActionError} (he : errors e e') :
    Alike evaluations errors values (stop (.failed e)) (stop (.failed e'))
  | fault (f : Fault) : Alike evaluations errors values (stop (.fault f)) (stop (.fault f))
  | evaluate {b b' : Action} {g g' : Frame Handle} {next : Value → Plan α} {next' : Value → Plan α'}
    (hb : evaluations b g b' g') (hnext : ∀ v, Alike evaluations errors values (next v) (next' v)) :
    Alike evaluations errors values (request (.evaluate b g) next) (request (.evaluate b' g') next')
  | same {r : Request} {next : r.Answer → Plan α} {next' : r.Answer → Plan α'}
    (hr : ∀ b g, r ≠ .evaluate b g)
    (hnext : ∀ v, Alike evaluations errors values (next v) (next' v)) :
    Alike evaluations errors values (request r next) (request r next')

variable {evaluations : Action → Frame Handle → Action → Frame Handle → Prop}
  {errors : ActionError → ActionError → Prop} {values : α → α' → Prop}

theorem Alike.bind {values' : β → β' → Prop} {p : Plan α} {p' : Plan α'} {f : α → Plan β}
    {f' : α' → Plan β'} (hp : Alike evaluations errors values p p')
    (hf : ∀ v v', values v v' → Alike evaluations errors values' (f v) (f' v')) :
    Alike evaluations errors values' (p >>= f) (p' >>= f') := by
  induction hp with
  | done hv => exact hf _ _ hv
  | failed he => exact .failed he
  | fault f => exact .fault f
  | evaluate hb _ ih => exact .evaluate hb ih
  | same hr _ ih => exact .same hr ih

theorem Alike.bind_same {values' : β → β' → Prop} {p p' : Plan α} {f : α → Plan β} {f' : α → Plan β'}
    (hp : Alike evaluations errors Eq p p')
    (hf : ∀ v, Alike evaluations errors values' (f v) (f' v)) :
    Alike evaluations errors values' (p >>= f) (p' >>= f') := by
  refine hp.bind ?_
  rintro v _ rfl
  exact hf v

theorem alike_ask (r : Request) (hr : ∀ b g, r ≠ .evaluate b g := by rintro _ _ ⟨⟩) :
    Alike evaluations errors Eq (ask r) (ask r) :=
  .same hr fun _ => .done rfl

theorem alike_carryOut (task : Surface.Task) :
    Alike evaluations errors Eq (carryOut task) (carryOut task) :=
  alike_ask (.carryOut task)

theorem alike_evaluate {b b' : Action} {g g' : Frame Handle} (hb : evaluations b g b' g') :
    Alike evaluations errors Eq (Plan.evaluate b g) (Plan.evaluate b' g') :=
  .evaluate hb fun _ => .done rfl

end Plan

/-! ### Handlers -/

namespace Handler

open Plan

/-- Two actions at two frames that a handler treats alike.  They have one form, in which their parts
stand for each other, the same element is bound, and they fail alike. -/
structure Counterparts {ι : Type} (left right : ι → Action) (form : Form ι)
    (evaluations : Action → Frame Handle → Action → Frame Handle → Prop)
    (errors : ActionError → ActionError → Prop) (a a' : Action) (frame frame' : Frame Handle) :
    Prop where
  form_left : a.form = form.map left
  form_right : a'.form = form.map right
  element : frame'.element = frame.element
  failure : ∀ code message payload,
    errors { code, message, source := frame.source, action := .mapping a.payload, payload }
      { code, message, source := frame'.source, action := .mapping a'.payload, payload }
  part : ∀ i, evaluations (left i) frame (right i) frame'
  turn : ∀ i (index : Nat) (handle : Handle),
    evaluations (left i) ((frame.item index).bind (some handle))
      (right i) ((frame'.item index).bind (some handle))
  item : ∀ i name, evaluations (left i) (frame.field name) (right i) (frame'.field name)
  reference : ∀ name target,
    evaluations (.callOf target) (frame.field name) (.callOf target) (frame'.field name)
  call : ∀ b name, evaluations b (frame.calling name) b (frame'.calling name)

section Parts

variable {ι α α' : Type} {left right : ι → Action} {form : Form ι}
  {evaluations : Action → Frame Handle → Action → Frame Handle → Prop}
  {errors : ActionError → ActionError → Prop} {a a' : Action} {frame frame' : Frame Handle}
  (h : Counterparts left right form evaluations errors a a' frame frame') {program : Program}

include h

theorem alike_failAt {values : α → α' → Prop} (code : ErrorCode) (message : String)
    (payload : List Value) :
    Alike evaluations errors values (failAt a frame code message payload)
      (failAt a' frame' code message payload) :=
  .failed (h.failure code message payload)

theorem Counterparts.title_eq : a'.title = a.title := by
  rw [Action.title, Action.title, h.form_left, h.form_right, Form.title_map, Form.title_map]

theorem Counterparts.name_eq : a'.name = a.name := by
  rw [Action.name, Action.name, h.form_left, h.form_right, Form.name_map, Form.name_map]

/-- Counterparts are calls of the same name, or both no calls. -/
theorem Counterparts.call_or :
    (∃ name, a.form = .call name ∧ a'.form = .call name) ∨
      (∀ name, a.form ≠ .call name) ∧ ∀ name, a'.form ≠ .call name := by
  rw [h.form_left, h.form_right]
  simp only [ne_eq, Form.map_eq_call_iff, and_self]
  by_cases hcall : ∃ name, form = .call name
  · exact .inl hcall
  · exact .inr (not_exists.1 hcall)

/-- A field is missing on both sides or on neither. -/
theorem alike_need {γ : Type} (f : γ → α) (f' : γ → α') (field : String) (o : Option γ) :
    Alike evaluations errors (fun v v' => ∃ x, f x = v ∧ f' x = v') (need a field (o.map f))
      (need a' field (o.map f')) := by
  cases o with
  | none =>
      simp only [Option.map_none, need, h.title_eq]
      exact .fault _
  | some x => exact .done ⟨x, rfl, rfl⟩

theorem alike_need_same (field : String) (o : Option α) :
    Alike evaluations errors Eq (need a field o) (need a' field o) := by
  simp only [need, h.title_eq]
  cases o with
  | none => exact .fault _
  | some v => exact .done rfl

theorem alike_selector (expression : String) :
    Alike evaluations errors Eq (selector program a frame expression)
      (selector program a' frame' expression) := by
  unfold selector
  cases program.selector? expression with
  | none => exact alike_failAt h _ _ _
  | some selector => exact .done rfl

theorem hasTarget_eq : hasTarget a' frame' = hasTarget a frame := by
  simp only [hasTarget, h.form_left, h.form_right, h.element, Form.target?_map]

theorem alike_target :
    Alike evaluations errors Eq (target program a frame) (target program a' frame') := by
  simp only [target, h.form_left, h.form_right, h.element, Form.target?_map]
  cases form.target? with
  | some expression =>
      refine (alike_selector h expression).bind_same fun selector => ?_
      exact alike_carryOut (.queryOne selector)
  | none =>
      cases frame.element with
      | some handle => exact .done rfl
      | none => exact alike_failAt h _ _ _

theorem alike_expectFlag (i : ι) (label : String) :
    Alike evaluations errors Eq (expectFlag a frame (left i) label)
      (expectFlag a' frame' (right i) label) := by
  refine (alike_evaluate (h.part i)).bind_same fun v => ?_
  cases v with
  | bool b => exact .done rfl
  | _ => exact alike_failAt h _ _ _

theorem alike_expectText (i : ι) (label : String) :
    Alike evaluations errors Eq (expectText a frame (left i) label)
      (expectText a' frame' (right i) label) := by
  refine (alike_evaluate (h.part i)).bind_same fun v => ?_
  cases v with
  | text s => exact .done rfl
  | _ => exact alike_failAt h _ _ _

theorem alike_wait (awaited : Surface.Awaited) :
    Alike evaluations errors Eq (wait a frame awaited) (wait a' frame' awaited) := by
  refine (alike_ask (.wait awaited)).bind_same fun ending => ?_
  cases ending with
  | ok => exact .done rfl
  | error interruption =>
      cases interruption with
      | cancelled => exact alike_failAt h _ _ _
      | timeout =>
          refine (alike_ask .timeout).bind_same fun limit => ?_
          exact alike_failAt h _ _ _

theorem alike_evaluateAll (parts : List ι) (v : Value) :
    Alike evaluations errors Eq (evaluateAll frame v (parts.map left))
      (evaluateAll frame' v (parts.map right)) := by
  induction parts generalizing v with
  | nil => exact .done rfl
  | cons i rest ih =>
      refine (alike_evaluate (h.part i)).bind_same fun v => ?_
      exact ih v

theorem alike_turns (i : ι) (index : Nat) (handles : List Handle) :
    Alike evaluations errors Eq (turns (left i) frame index handles)
      (turns (right i) frame' index handles) := by
  induction handles generalizing index with
  | nil => exact .done rfl
  | cons handle rest ih =>
      exact (alike_evaluate (h.turn i index handle)).bind_same fun _ => ih (index + 1)

theorem alike_itemValue (name : String) (item : Item ι) :
    Alike evaluations errors Eq (itemValue program (frame.field name) (item.map left))
      (itemValue program (frame'.field name) (item.map right)) := by
  cases item with
  | node i => exact alike_evaluate (h.item i name)
  | literal v =>
      cases v with
      | text s =>
          simp only [Item.map, itemValue]
          cases program.resolve s with
          | action =>
              cases Reader.referenceText (.text s) with
              | valid target => exact alike_evaluate (h.reference name target)
              | invalid issues => exact .fault _
          | _ => exact .done rfl
      | _ => exact .done rfl

theorem alike_itemValues (items : List (String × Item ι)) :
    Alike evaluations errors Eq
      (itemValues program frame (items.map fun entry => (entry.1, entry.2.map left)))
      (itemValues program frame' (items.map fun entry => (entry.1, entry.2.map right))) := by
  induction items with
  | nil => exact .done rfl
  | cons entry rest ih =>
      obtain ⟨name, item⟩ := entry
      refine (alike_itemValue h name item).bind_same fun v => ?_
      refine ih.bind_same fun batch => ?_
      exact .done rfl

theorem alike_statementOf :
    Alike evaluations errors (fun b b' => ∃ i, left i = b ∧ right i = b') (statementOf a)
      (statementOf a') := by
  simp only [statementOf, h.form_left, h.form_right, Form.statement?_map]
  refine (alike_need h _ _ _ _).bind ?_
  rintro _ _ ⟨operand, rfl, rfl⟩
  cases operand with
  | flag b => exact .fault _
  | node i => exact .done ⟨i, rfl, rfl⟩

theorem alike_comparison (c : Comparison) :
    Alike evaluations errors Eq (comparison c a frame) (comparison c a' frame') := by
  have hexpected : Alike evaluations errors Eq (expectedOf a c) (expectedOf a' c) := by
    cases c <;> simp only [expectedOf, h.form_left, h.form_right, Form.expected?_map,
      Form.text?_map] <;> exact alike_need_same h _ _
  refine hexpected.bind_same fun expected => ?_
  refine (alike_statementOf h).bind ?_
  rintro _ _ ⟨i, rfl, rfl⟩
  refine (alike_expectText h i _).bind_same fun actual => ?_
  simp only [h.form_left, h.form_right, Form.ignoreCase?_map]
  refine (alike_need_same h _ _).bind_same fun ignoreCase => ?_
  cases ignoreCase with
  | true => exact .done rfl
  | false => exact .done rfl

/-- The plans of a handler for counterparts are alike, whatever kind the handler is of. -/
theorem alike_plan (k : Kind) :
    Alike evaluations errors Eq (plan program k a frame) (plan program k a' frame') := by
  cases k with
  | sequence =>
      simp only [plan, h.form_left, h.form_right, Form.statements?_map]
      refine (alike_need h _ _ _ _).bind ?_
      rintro _ _ ⟨parts, rfl, rfl⟩
      exact alike_evaluateAll h parts .null
  | branch =>
      simp only [plan, h.form_left, h.form_right, Form.condition?_map, Form.otherwise?_map]
      refine (alike_need h _ _ _ _).bind ?_
      rintro _ _ ⟨i, rfl, rfl⟩
      refine (alike_expectFlag h i _).bind_same fun holds => ?_
      cases holds with
      | true =>
          refine (alike_statementOf h).bind ?_
          rintro _ _ ⟨i, rfl, rfl⟩
          exact alike_evaluate (h.part i)
      | false =>
          refine (alike_need h _ _ _ _).bind ?_
          rintro _ _ ⟨otherwise, rfl, rfl⟩
          cases otherwise with
          | none => exact .done rfl
          | some i => exact alike_evaluate (h.part i)
  | negate =>
      simp only [plan, h.form_left, h.form_right, Form.statement?_map]
      refine (alike_need h _ _ _ _).bind ?_
      rintro _ _ ⟨operand, rfl, rfl⟩
      cases operand with
      | flag b => exact .done rfl
      | node i =>
          refine (alike_expectFlag h i _).bind_same fun b => ?_
          exact .done rfl
  | forEach =>
      simp only [plan, h.form_left, h.form_right, Form.elements?_map, Form.execute?_map]
      refine (alike_need_same h _ _).bind_same fun elements => ?_
      refine (alike_selector h elements).bind_same fun selector => ?_
      refine (alike_carryOut (.queryAll selector)).bind_same fun handles => ?_
      refine (alike_need h _ _ _ _).bind ?_
      rintro _ _ ⟨i, rfl, rfl⟩
      exact alike_turns h i 0 handles
  | has =>
      simp only [plan, h.form_left, h.form_right, Form.element?_map]
      refine (alike_need_same h _ _).bind_same fun element => ?_
      cases element with
      | none => exact .fault _
      | some expression =>
          refine (alike_selector h expression).bind_same fun selector => ?_
          refine (alike_carryOut (.queryAll selector)).bind_same fun handles => ?_
          exact .done rfl
  | inspect inspection =>
      refine (alike_target h).bind_same fun handle => ?_
      exact alike_carryOut (.inspect handle inspection)
  | attributeOf =>
      simp only [plan, h.form_left, h.form_right, Form.name?_map]
      refine (alike_target h).bind_same fun handle => ?_
      refine (alike_need_same h _ _).bind_same fun name => ?_
      exact alike_carryOut (.readAttribute handle name)
  | compare c => exact alike_comparison h c
  | gesture g =>
      refine (alike_target h).bind_same fun handle => ?_
      exact (alike_carryOut (.gesture handle g)).bind_same fun _ => .done rfl
  | input =>
      simp only [plan, h.form_left, h.form_right, hasTarget_eq h, Form.text?_map]
      split
      · refine (alike_target h).bind_same fun handle => ?_
        refine (alike_need_same h _ _).bind_same fun text => ?_
        exact (alike_carryOut (.input handle text)).bind_same fun _ => .done rfl
      · refine (alike_need_same h _ _).bind_same fun text => ?_
        exact (alike_carryOut (.insertText text)).bind_same fun _ => .done rfl
  | press =>
      simp only [plan, h.form_left, h.form_right, hasTarget_eq h, Form.key?_map]
      refine (alike_need_same h _ _).bind_same fun key => ?_
      split
      · refine (alike_target h).bind_same fun handle => ?_
        exact (alike_carryOut (.press handle _)).bind_same fun _ => .done rfl
      · exact (alike_carryOut (.pressKey _)).bind_same fun _ => .done rfl
  | navigate =>
      simp only [plan, h.form_left, h.form_right, Form.link?_map]
      refine (alike_need_same h _ _).bind_same fun link => ?_
      exact (alike_carryOut (.navigate link)).bind_same fun _ => .done rfl
  | eval =>
      simp only [plan, h.form_left, h.form_right, hasTarget_eq h, Form.expression?_map]
      split
      · refine (alike_target h).bind_same fun handle => ?_
        refine (alike_need_same h _ _).bind_same fun expression => ?_
        exact alike_carryOut (.evaluateOn handle expression)
      · refine (alike_need_same h _ _).bind_same fun expression => ?_
        exact alike_carryOut (.evaluate expression)
  | sleep =>
      simp only [plan, h.form_left, h.form_right, Form.duration?_map]
      refine (alike_need_same h _ _).bind_same fun duration => ?_
      exact alike_wait h (.pause duration)
  | awaitPage state => exact alike_wait h (.page state)
  | awaitElement state =>
      refine (alike_target h).bind_same fun handle => ?_
      exact alike_wait h (.element handle state)
  | store =>
      simp only [plan, h.form_left, h.form_right, Form.items?_map]
      refine (alike_need h _ _ _ _).bind ?_
      rintro _ _ ⟨items, rfl, rfl⟩
      refine (alike_itemValues h items).bind_same fun batch => ?_
      exact (alike_ask (.commit batch)).bind_same fun _ => .done rfl
  | logStore =>
      simp only [plan, h.form_left, h.form_right, Form.name?_map]
      refine (alike_need_same h _ _).bind_same fun name => ?_
      refine (alike_ask (.lookUp name)).bind_same fun stored => ?_
      cases stored with
      | none => exact alike_failAt h _ _ _
      | some v => exact (alike_ask (.log _ _)).bind_same fun _ => .done rfl
  | log =>
      simp only [plan, h.form_left, h.form_right, Form.message?_map]
      refine (alike_need_same h _ _).bind_same fun message => ?_
      exact (alike_ask (.log _ _)).bind_same fun _ => .done rfl
  | error =>
      simp only [plan, h.form_left, h.form_right, Form.message?_map]
      refine (alike_need_same h _ _).bind_same fun message => ?_
      exact (alike_ask (.log _ _)).bind_same fun _ => alike_failAt h _ _ _

theorem alike_call (name : String) :
    Alike evaluations errors Eq (call program name a frame) (call program name a' frame') := by
  unfold call
  cases program.action? name with
  | none => exact alike_failAt h _ _ _
  | some target => exact alike_evaluate (h.call target name)

end Parts

end Handler

namespace Interpreter

open Plan Handler

variable {σ : Type} {it it' : Interpreter σ}

theorem plan_of_not_call {a : Action} (hform : ∀ name, a.form ≠ .call name) (frame : Frame Handle) :
    it.plan a frame =
      match (it.registry.get? a.name).bind (·.handler) with
      | some k => Handler.plan it.program k a frame
      | none => failAt a frame .unknownAction
        ("could not find a defined action with the name " ++ Text.quote a.name) [] := by
  rw [plan, Action.name]
  cases h : a.form with
  | call name => exact absurd h (hform name)
  | _ => rfl

/-- Interpreters of one program whose registries agree plan alike for counterparts. -/
theorem alike_plan {ι : Type} {left right : ι → Action} {form : Form ι}
    {evaluations : Action → Frame Handle → Action → Frame Handle → Prop}
    {errors : ActionError → ActionError → Prop} {a a' : Action} {frame frame' : Frame Handle}
    (h : Counterparts left right form evaluations errors a a' frame frame')
    (hprogram : it'.program = it.program)
    (hget : ∀ name, it'.registry.get? name = it.registry.get? name) :
    Alike evaluations errors Eq (it.plan a frame) (it'.plan a' frame') := by
  obtain ⟨name, hleft, hright⟩ | ⟨hleft, hright⟩ := h.call_or
  · simp only [plan, hleft, hright, hprogram]
    exact alike_call h name
  · rw [plan_of_not_call hleft, plan_of_not_call hright, h.name_eq, hget, hprogram]
    cases (it.registry.get? a.name).bind (·.handler) with
    | none => exact alike_failAt h _ _ _
    | some k => exact Handler.alike_plan h k

end Interpreter

end Pagescript
