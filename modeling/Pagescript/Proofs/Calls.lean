import Pagescript.Proofs.Provenance
/-!
# Which action a call leads to

A call looks up its name among the actions of the program, and so does the item of a store action
that is made into a call.  Main statement: a name is looked up as it is written exactly if it does not
begin with the sigil; one that does loses it.
-/

namespace Pagescript

open Plan Handler

theorem referenced?_reference (name : String) : referenced? (reference name) = some name :=
  referenced?_eq_some_iff.2 rfl

theorem ne_reference (name : String) : name ≠ reference name := by
  intro heq
  have hlength := congrArg String.length heq
  rw [reference, String.length_append, String.length_singleton] at hlength
  omega

/-- The name under which a call looks its action up. -/
def lookedUp (name : String) : String :=
  (referenced? name).getD name

theorem lookedUp_of_referenced? {name : String} (hname : referenced? name = none) :
    lookedUp name = name := by
  rw [lookedUp, hname]
  rfl

namespace Interpreter

variable {σ : Type} {it : Interpreter σ} {a b : Action} {frame : Frame Handle} {w w' : World σ}
  {name : String}

theorem step_call (hform : a.form = .call name) (ev : Evaluator σ) (frame : Frame Handle) :
    it.step ev a frame = (Handler.call it.program name a frame).run (it.serve ev) := by
  simp only [step, plan, hform]

theorem evaluate_call_of_some (hform : a.form = .call name)
    (hadmits : it.Admits (frame.enter a.name)) (hb : it.program.action? name = some b) :
    it.evaluate a frame w = it.evaluate b ((frame.enter a.name).calling name) w := by
  rw [evaluate_of_admits hadmits, step_call hform, Handler.call, hb]
  exact run_evaluate _ _ _

theorem evaluate_call_of_none (hform : a.form = .call name)
    (hadmits : it.Admits (frame.enter a.name)) (hnone : it.program.action? name = none) :
    it.evaluate a frame w =
      (.error (.failure (frame.enter a.name) a.payload .unknownCustomAction
        ("could not find a custom action named " ++ Text.quote name) [.text name]), w) := by
  rw [evaluate_of_admits hadmits, step_call hform, Handler.call, hnone]
  rfl

theorem run_itemValue_reference {target : Action}
    (hname : Reader.referenceText (.text (reference name)) = .valid name)
    (hselector : Entries.get? it.program.selectors name = none)
    (haction : Entries.get? it.program.actions name = some target) :
    (itemValue it.program frame (.literal (.text (reference name)))).run (it.serve it.evaluate) w =
      it.evaluate (.callOf name) frame w := by
  have hresolve : it.program.resolve (reference name) = .action name target :=
    Program.resolve_eq_action_iff.2 ⟨rfl, hselector, haction⟩
  simp only [itemValue, hresolve, hname]
  exact run_evaluate _ _ _

theorem length_lt_of_evaluate_failed {e : ActionError}
    (hresult : it.evaluate a frame w = (.error (.failed e), w')) :
    frame.source.length < e.source.length := by
  obtain ⟨links, last, herror⟩ := exists_errorAlong hresult
  have hpos : 0 < (trailPath a links).length := by
    cases links with
    | nil =>
        rw [trailPath, String.length_append]
        exact Nat.add_pos_left (by decide) _
    | cons l links =>
        rw [trailPath, String.append_assoc, String.append_assoc, String.length_append]
        exact Nat.add_pos_left (by decide) _
  rw [herror.source, String.length_append]
  omega

/-- Whoever calls a name, or refers to it in an item, is led to the action under a key, and it is
unknown exactly if there is nothing under that key. -/
structure LooksUp (it : Interpreter σ) (name key : String) : Prop where
  call : ∀ {a b : Action} {frame : Frame Handle} {w : World σ}, a.form = .call name →
    it.Admits (frame.enter a.name) → Entries.get? it.program.actions key = some b →
      it.evaluate a frame w = it.evaluate b ((frame.enter a.name).calling name) w
  unknown : ∀ {a : Action} {frame : Frame Handle} {w : World σ}, a.form = .call name →
    it.Admits (frame.enter a.name) →
      ((∃ e w', it.evaluate a frame w = (.error (.failed e), w') ∧
          e.code = .unknownCustomAction ∧ e.source = (frame.enter a.name).source) ↔
        Entries.get? it.program.actions key = none)
  item : ∀ {b target : Action} {frame : Frame Handle} {w : World σ},
    Entries.get? it.program.selectors name = none →
      Entries.get? it.program.actions name = some target →
        Entries.get? it.program.actions key = some b → it.Admits (frame.enter (reference name)) →
          (itemValue it.program frame (.literal (.text (reference name)))).run
              (it.serve it.evaluate) w =
            it.evaluate b ((frame.enter (reference name)).calling name) w

theorem looksUp_lookedUp (it : Interpreter σ)
    (hname : Reader.referenceText (.text (reference name)) = .valid name) :
    it.LooksUp name (lookedUp name) where
  call hform hadmits hb := evaluate_call_of_some hform hadmits hb
  unknown {a frame w} hform hadmits := by
    constructor
    · rintro ⟨e, w', hresult, -, hsource⟩
      by_contra hsome
      obtain ⟨b, hb⟩ := Option.ne_none_iff_exists'.1 hsome
      -- the error of the action that is called lies further in
      rw [evaluate_call_of_some hform hadmits hb] at hresult
      have hlength := length_lt_of_evaluate_failed hresult
      rw [hsource] at hlength
      exact absurd hlength (Nat.lt_irrefl _)
    · intro hnone
      exact ⟨_, w, evaluate_call_of_none hform hadmits hnone, rfl, rfl⟩
  item hselector haction hb hadmits := by
    rw [run_itemValue_reference hname hselector haction]
    exact evaluate_call_of_some rfl hadmits hb

/-- A program whose one action has a name that begins with the sigil. -/
def underSigil (inner : String) : Interpreter Unit :=
  { onClosedPage (reference inner) with maxSourceLength := (reference (reference inner)).length + 1 }

theorem not_looksUp_reference (inner : String) :
    ¬ (underSigil inner).LooksUp (reference inner) (reference inner) := by
  intro hlooks
  let call : Action := .callOf (reference inner)
  have hadmits : (underSigil inner).Admits (Frame.enter { source := "" } call.name) := by
    constructor
    · rw [Frame.length_source_enter]
      simp only [underSigil, call, Action.name, Action.callOf, Action.form, Form.name]
      simp
      omega
    · change (0 : Int) + 1 ≤ Registry.defaultMaxDepth
      decide
  have hunder : Entries.get? (underSigil inner).program.actions (reference inner) ≠ none := by
    simp [underSigil, onClosedPage, Entries.get?_cons]
  have hinner : (underSigil inner).program.action? (reference inner) = none := by
    simp [Program.action?, referenced?_reference, underSigil, onClosedPage, Entries.get?_cons,
      ne_reference inner]
  apply hunder
  rw [← hlooks.unknown (a := call) (w := { page := () }) rfl hadmits]
  exact ⟨_, _, evaluate_call_of_none rfl hadmits hinner, rfl, rfl⟩

/-- A call leads to the action under the very name that it gives, in every program, exactly if the
name does not begin with the sigil.  In general the name is looked up without its first sigil, both by
calls and by the items that are made into calls. -/
theorem looksUp_self_iff (hname : Reader.referenceText (.text (reference name)) = .valid name) :
    (∀ {σ : Type} (it : Interpreter σ), it.LooksUp name (lookedUp name)) ∧
      ((∀ {σ : Type} (it : Interpreter σ), it.LooksUp name name) ↔ referenced? name = none) := by
  refine ⟨fun it => it.looksUp_lookedUp hname, fun hexact => ?_, fun hplain σ it => ?_⟩
  · cases hreferenced : referenced? name with
    | none => rfl
    | some inner =>
        obtain rfl := referenced?_eq_some_iff.1 hreferenced
        exact absurd (hexact (underSigil inner)) (not_looksUp_reference inner)
  · have hlooks := it.looksUp_lookedUp hname
    rwa [lookedUp_of_referenced? hplain] at hlooks

theorem looksUp_self_iff_twoSigils :
    Reader.referenceText (.text "$$x") = .valid "$x" ∧
      (∀ {σ : Type} (it : Interpreter σ), it.LooksUp "$x" "x") ∧
      ¬ ∀ {σ : Type} (it : Interpreter σ), it.LooksUp "$x" "$x" := by
  have hname : Reader.referenceText (.text (reference "$x")) = .valid "$x" := rfl
  obtain ⟨hlooks, hexact⟩ := looksUp_self_iff hname
  refine ⟨hname, hlooks, fun hself => ?_⟩
  exact absurd (hexact.1 hself) (by decide)

end Interpreter

end Pagescript
