import Pagescript.Proofs.Calls
import Pagescript.Proofs.Relocation
/-!
# Calls and the actions they stand for

A call does nothing but evaluate the action that the program holds under its name, one level deeper
and at a longer path.  Main statement: an action in which calls have been replaced by the actions they
stand for, wherever they are in it, does the same as before and comes to the same, unless the calls
come upon the limits.
-/

namespace Pagescript

open Plan Handler

/-! ### Actions with calls replaced -/

/-- The second action is the first one with any of the calls in it replaced, each by the action that
the program holds under the name that is called. -/
inductive Action.Inlines (program : Program) : Action → Action → Prop where
  | same (a : Action) : Inlines program a a
  | call {written : Option Fields} {name : String} {target : Action}
    (hname : referenced? name = none) (htarget : Entries.get? program.actions name = some target) :
    Inlines program (.node written (.call name)) target
  | parts {ι : Type} (form : Form ι) {left right : ι → Action} {written written' : Option Fields}
    (hparts : ∀ i, Inlines program (left i) (right i)) :
    Inlines program (.node written (form.map left)) (.node written' (form.map right))

theorem Action.Inlines.call_or_parts {program : Program} {a a' : Action}
    (ha : a.Inlines program a') :
    (∃ name, a.form = .call name ∧ referenced? name = none ∧
        Entries.get? program.actions name = some a') ∨
      ∃ (ι : Type) (form : Form ι) (left right : ι → Action),
        a.form = form.map left ∧ a'.form = form.map right ∧
          ∀ i, (left i).Inlines program (right i) := by
  cases ha with
  | same => exact .inr ⟨Action, a.form, id, id, a.form.map_id.symm, a.form.map_id.symm, .same⟩
  | call hname htarget => exact .inl ⟨_, rfl, hname, htarget⟩
  | parts form hparts => exact .inr ⟨_, form, _, _, rfl, rfl, hparts⟩

/-- The same failure, whichever action is to blame for it and wherever that is. -/
def ActionError.Agrees (e e' : ActionError) : Prop :=
  e'.code = e.code ∧ e'.message = e.message ∧ e'.payload = e.payload

/-- A frame that binds the same element as another one, and is no deeper and no longer. -/
structure Frame.Nearer (frame frame' : Frame Handle) : Prop where
  element : frame'.element = frame.element
  depth_le : frame'.depth ≤ frame.depth
  length_le : frame'.source.length ≤ frame.source.length

namespace Frame.Nearer

variable {frame frame' : Frame Handle}

theorem refl (frame : Frame Handle) : Nearer frame frame :=
  ⟨rfl, Int.le_refl _, Nat.le_refl _⟩

theorem enter (h : Nearer frame frame') {kind kind' : String} (hkind : kind' = kind) :
    Nearer (frame.enter kind) (frame'.enter kind') := by
  subst hkind
  have hdepth := h.depth_le
  have hlength := h.length_le
  refine ⟨h.element, ?_, ?_⟩
  · rw [depth_enter, depth_enter]
    omega
  · rw [length_source_enter, length_source_enter]
    omega

theorem turn (h : Nearer frame frame') (index : Nat) (handle : Handle) :
    Nearer ((frame.item index).bind (some handle)) ((frame'.item index).bind (some handle)) := by
  have hlength := h.length_le
  refine ⟨rfl, h.depth_le, ?_⟩
  simp only [item, bind, String.length_append]
  omega

theorem field (h : Nearer frame frame') (name : String) :
    Nearer (frame.field name) (frame'.field name) := by
  have hlength := h.length_le
  refine ⟨h.element, h.depth_le, ?_⟩
  simp only [Frame.field, String.length_append]
  omega

theorem calling (h : Nearer frame frame') (name : String) :
    Nearer (frame.calling name) (frame'.calling name) :=
  ⟨h.element, h.depth_le, h.length_le⟩

/-- Whoever has gone into a call is farther away than whoever has not. -/
theorem enter_calling (h : Nearer frame frame') (kind name : String) :
    Nearer ((frame.enter kind).calling name) frame' := by
  have hdepth := h.depth_le
  have hlength := h.length_le
  refine ⟨h.element, ?_, ?_⟩
  · change frame'.depth ≤ (frame.enter kind).depth
    rw [depth_enter]
    omega
  · change frame'.source.length ≤ (frame.enter kind).source.length
    rw [length_source_enter]
    omega

/-- Actions of one form whose parts have calls replaced are counterparts. -/
theorem counterparts {program : Program} {a a' : Action} {ι : Type} {form : Form ι}
    {left right : ι → Action} (hform : a.form = form.map left) (hform' : a'.form = form.map right)
    (hparts : ∀ i, (left i).Inlines program (right i)) (h : Nearer frame frame') :
    Counterparts left right form
      (fun b g b' g' => b.Inlines program b' ∧ g.depth = frame.depth ∧ Nearer g g')
      ActionError.Agrees a a' frame frame' where
  form_left := hform
  form_right := hform'
  element := h.element
  failure _ _ _ := ⟨rfl, rfl, rfl⟩
  part i := ⟨hparts i, rfl, h⟩
  turn i index handle := ⟨hparts i, rfl, h.turn index handle⟩
  item i name := ⟨hparts i, rfl, h.field name⟩
  reference name _ := ⟨.same _, rfl, h.field name⟩
  call b name := ⟨.same b, rfl, h.calling name⟩

end Frame.Nearer

namespace Interpreter

variable {σ : Type} {it : Interpreter σ} {a a' target : Action} {frame frame' : Frame Handle}
  {w : World σ} {name : String}

theorem widens_self (it : Interpreter σ) : it.Widens it :=
  ⟨rfl, rfl, rfl, fun _ => rfl, Int.le_refl _, Int.le_refl _⟩

theorem Admits.nearer (h : Frame.Nearer frame frame') (hadmits : it.Admits frame) :
    it.Admits frame' := by
  obtain ⟨hsource, hdepth⟩ := hadmits
  have hlength := h.length_le
  have hdepth' := h.depth_le
  constructor <;> omega

theorem name_eq_of_map {ι : Type} {form : Form ι} {left right : ι → Action}
    (hform : a.form = form.map left) (hform' : a'.form = form.map right) : a'.name = a.name := by
  rw [Action.name, Action.name, hform, hform', Form.name_map, Form.name_map]

/-! ### One call -/

theorem action?_of_referenced? (hname : referenced? name = none) :
    it.program.action? name = Entries.get? it.program.actions name := by
  rw [Program.action?, hname]
  rfl

theorem effects_call (hform : a.form = .call name) (hadmits : it.Admits (frame.enter a.name))
    (htarget : it.program.action? name = some target) :
    it.effects a frame w = it.effects target ((frame.enter a.name).calling name) w := by
  have hplan : it.plan a (frame.enter a.name) =
      Plan.evaluate target ((frame.enter a.name).calling name) := by
    simp only [plan, hform, Handler.call, htarget]
  rw [effects_eq, requests_of_admits hadmits, hplan]
  -- the evaluation of the target is the only request
  have hcourse : (Plan.evaluate target ((frame.enter a.name).calling name)).course
      (it.serve it.evaluate) w = [⟨.evaluate target ((frame.enter a.name).calling name), w⟩] := by
    rw [Plan.evaluate, ask, Plan.course]
    split <;> rfl
  rw [hcourse, List.flatMap_cons, List.flatMap_nil, List.append_nil]
  rfl

/-! ### Calls anywhere in an action -/

theorem mirrors_inlined (ha : a.Inlines it.program a') (h : Frame.Nearer frame frame')
    (w : World σ) :
    EndsAtLimit (it.evaluate a frame w) ∨
      Mirrors ActionError.Agrees (it.evaluate a frame w) (it.evaluate a' frame' w) := by
  induction a, frame using it.evaluation_induction generalizing a' frame' w with
  | hstep a frame ih =>
      by_cases hadmits : it.Admits (frame.enter a.name)
      · obtain ⟨name, hform, hname, htarget⟩ | ⟨ι, form, left, right, hform, hform', hparts⟩ :=
          ha.call_or_parts
        · -- the call is one step ahead of what stands in its place
          rw [← action?_of_referenced? hname] at htarget
          rw [evaluate_call_of_some hform hadmits htarget]
          exact ih hadmits a' _ rfl (.same a') (h.enter_calling a.name name) w
        · have hentered := h.enter (name_eq_of_map hform hform')
          have hadmits' := hadmits.nearer hentered
          rw [evaluate_of_admits hadmits, evaluate_of_admits hadmits']
          refine mirrors_step it.widens_self ?_ (hentered.counterparts hform hform' hparts) w
          intro b g b' g' hb w
          obtain ⟨hb, hdepth, hg⟩ := hb
          exact ih hadmits b g hdepth hb hg w
      · exact .inl (endsAtLimit_of_not_admits hadmits w)

theorem effects_inlined (ha : a.Inlines it.program a') (h : Frame.Nearer frame frame')
    (hlimit : ¬ EndsAtLimit (it.evaluate a frame w)) :
    it.effects a' frame' w = it.effects a frame w := by
  induction a, frame using it.evaluation_induction generalizing a' frame' w with
  | hstep a frame ih =>
      have hadmits := admits_of_not_endsAtLimit hlimit
      obtain ⟨name, hform, hname, htarget⟩ | ⟨ι, form, left, right, hform, hform', hparts⟩ :=
        ha.call_or_parts
      · rw [← action?_of_referenced? hname] at htarget
        rw [evaluate_call_of_some hform hadmits htarget] at hlimit
        rw [effects_call hform hadmits htarget]
        exact ih hadmits a' _ rfl (.same a') (h.enter_calling a.name name) hlimit
      · have hentered := h.enter (name_eq_of_map hform hform')
        refine effects_eq_of_counterparts it.widens_self
          (hentered.counterparts hform hform' hparts) hadmits (hadmits.nearer hentered) ?_ ?_ hlimit
        · intro b g b' g' hb w
          exact mirrors_inlined hb.1 hb.2.2 w
        · intro b g b' g' hb w hinner
          exact ih hadmits b g hb.2.1 hb.1 hb.2.2 hinner

/-- An action in which any of the calls have been replaced by the actions that the program holds
under their names, be it in loops, items or branches, does the same as before and comes to the same,
unless it came upon the limits before.

The effects are the same, each in the same world.  The value, or the fault, is the same, or both
fail, with the same code, message and payload.  The worlds at the end agree in all but the log, and
there in the records of all loggers but that of the interpreter. -/
theorem evaluate_inlined (ha : a.Inlines it.program a')
    (hlimit : ¬ EndsAtLimit (it.evaluate a frame w)) :
    Mirrors ActionError.Agrees (it.evaluate a frame w) (it.evaluate a' frame w) ∧
      it.effects a' frame w = it.effects a frame w ∧
      ∃ records, (it.evaluate a' frame w).2 = { (it.evaluate a frame w).2 with records } ∧
        ∀ logger, logger ≠ LogRecord.interpreterLogger →
          records.filter (·.logger = logger) =
            (it.evaluate a frame w).2.records.filter (·.logger = logger) := by
  have hmirrors := (mirrors_inlined ha (.refl frame) w).resolve_left hlimit
  exact ⟨hmirrors, effects_inlined ha (.refl frame) hlimit, hmirrors.exists_records⟩

/-! ### A call inside a loop -/

def tapping : Action := .node none (.gesture .click none)

/-- A loop whose turns call an action that clicks on the element of the turn. -/
def callingEach : Action :=
  .node none (.forEach "li" (.callOf "tap"))

def tapper : Interpreter Script :=
  { clicker with program := ⟨[], [("tap", tapping)], []⟩ }

theorem inlines_callingEach : callingEach.Inlines tapper.program clickingEach := by
  have hcall : (Action.callOf "tap").Inlines tapper.program tapping := .call rfl rfl
  exact .parts (.forEach "li" ()) fun _ => hcall

/-- The called action has the element that the loop has bound, and fails on it as it does without
the call. -/
theorem evaluate_inlined_callingEach :
    ∃ e w₁ e' w₂,
      tapper.evaluate callingEach nearFrame onStiffPage = (.error (.failed e), w₁) ∧
      e.code = .surfaceError ∧ e.source = "root[0].forEach[0].$tap.click" ∧
      tapper.evaluate clickingEach nearFrame onStiffPage = (.error (.failed e'), w₂) ∧
      ActionError.Agrees e e' ∧ e'.source = "root[0].forEach[0].click" ∧
      tapper.effects clickingEach nearFrame onStiffPage =
        tapper.effects callingEach nearFrame onStiffPage := by
  obtain ⟨e, w₁, hleft, hcode, hsource⟩ : ∃ e w₁,
      tapper.evaluate callingEach nearFrame onStiffPage = (.error (.failed e), w₁) ∧
        e.code = .surfaceError ∧ e.source = "root[0].forEach[0].$tap.click" :=
    ⟨_, _, rfl, rfl, by decide⟩
  have hlimit : ¬ EndsAtLimit (tapper.evaluate callingEach nearFrame onStiffPage) := by
    rintro ⟨e', w', hresult, hlimit⟩
    cases hleft.symm.trans hresult
    rw [hcode] at hlimit
    cases hlimit
  obtain ⟨hmirrors, heffects, -⟩ := evaluate_inlined inlines_callingEach hlimit
  obtain ⟨e', w₂, hright, he⟩ := hmirrors.exists_failed hleft
  have hsource' : e'.source = "root[0].forEach[0].click" := by
    cases hright
    decide
  exact ⟨e, w₁, e', w₂, hleft, hcode, hsource, hright, he, hsource', heffects⟩

end Interpreter

end Pagescript
