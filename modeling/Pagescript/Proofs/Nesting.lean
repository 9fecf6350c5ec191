import Mathlib.Logic.Relation
import Pagescript.Proofs.Registry
/-!
# Nested evaluations

The actions of a program may call themselves and each other in any way.  What bounds an evaluation
is that no request is made by an action beyond the limits, while every action that is evaluated on
behalf of another one stands one level deeper and at a longer path.
-/

namespace Pagescript

open Plan Handler

/-- An action that is to be evaluated at a frame in some world. -/
structure Visit (σ : Type) where
  action : Action
  frame : Frame Handle
  world : World σ

/-- The frame at which the action of a visit is carried out. -/
def Visit.entered {σ : Type} (v : Visit σ) : Frame Handle :=
  v.frame.enter v.action.name

namespace Interpreter

variable {σ : Type} {it : Interpreter σ} {parent child v : Visit σ}

/-- While the action of one visit is carried out, it asks for the other visit. -/
def Nests (it : Interpreter σ) (parent child : Visit σ) : Prop :=
  ⟨.evaluate child.action child.frame, child.world⟩ ∈
    it.requests parent.action parent.frame parent.world

/-! ### One level -/

theorem Nests.admits (hnests : it.Nests parent child) : it.Admits parent.entered :=
  (asks_of_mem_requests hnests).1

theorem Nests.depth_eq (hnests : it.Nests parent child) :
    child.frame.depth = parent.frame.depth + 1 :=
  (leads_of_mem_requests hnests rfl).depth_eq

theorem Nests.length_source_le (hnests : it.Nests parent child) :
    parent.frame.source.length + 2 ≤ child.frame.source.length := by
  -- entering the parent adds a dot and its name, and no path is shortened after that
  have hlead := (leads_of_mem_requests hnests rfl).length_source_le
  rw [Frame.length_source_enter] at hlead
  have hname := parent.action.length_name_pos
  omega

/-! ### Many levels -/

theorem length_le_of_isChain {vs : List (Visit σ)} (hchain : List.IsChain it.Nests (v :: vs))
    (hvs : vs ≠ []) :
    v.frame.depth + vs.length ≤ it.maxDepth ∧
      v.frame.source.length + 2 * vs.length ≤ it.maxSourceLength := by
  induction vs generalizing v with
  | nil => exact absurd rfl hvs
  | cons child rest ih =>
      obtain ⟨hnests, hrest⟩ := List.isChain_cons_cons.1 hchain
      have hdepth := hnests.depth_eq
      have hlength := hnests.length_source_le
      rw [List.length_cons]
      cases rest with
      | nil =>
          -- the last visit but one makes a request, so it is within the limits
          obtain ⟨hmaxLength, hmaxDepth⟩ := hnests.admits
          have hname := v.action.length_name_pos
          rw [Visit.entered, Frame.length_source_enter] at hmaxLength
          rw [Visit.entered, Frame.depth_enter] at hmaxDepth
          constructor
          · simpa using hmaxDepth
          · simp only [List.length_nil]
            omega
      | cons next rest =>
          obtain ⟨hmaxDepth, hmaxLength⟩ := ih hrest (List.cons_ne_nil _ _)
          constructor
          · omega
          · omega

/-! ### Beyond the limits -/

theorem fails_of_not_admits (hadmits : ¬ it.Admits v.entered) :
    (∃ e, e.code = .recursionLimit ∧
        it.evaluate v.action v.frame v.world = (.error (.failed e), v.world)) ∧
      it.course v.action v.frame v.world = [] := by
  constructor
  · obtain ⟨message, hevaluate⟩ := evaluate_of_not_admits hadmits
    rw [hevaluate]
    exact ⟨_, rfl, rfl⟩
  · rw [course_eq, requests_of_not_admits hadmits]
    rfl

/-- An error comes from a visit: its frame is beyond a limit (the length of the path is looked at
first), or its action fails of its own. -/
inductive Origin (it : Interpreter σ) (u : Visit σ) (e : ActionError) : Prop where
  | overlong (hlength : it.maxSourceLength < u.entered.source.length)
    (he : Stop.failed e = it.overlong u.action u.entered)
  | tooDeep (hdepth : it.maxDepth < u.entered.depth)
    (he : Stop.failed e = it.tooDeep u.action u.entered)
  | own {code : ErrorCode} {message : String} {payload : List Value}
    (hcode : code ≠ .recursionLimit)
    (hunknown : code = .unknownAction → it.dispatch? u.action = none ∧ u.action.form.kind? ≠ none)
    (he : Stop.failed e = .failure u.entered u.action.payload code message payload)

theorem exists_origin {a : Action} {frame : Frame Handle} {w w' : World σ} {e : ActionError}
    (hresult : it.evaluate a frame w = (.error (.failed e), w')) :
    ∃ u, Relation.ReflTransGen it.Nests ⟨a, frame, w⟩ u ∧ it.Origin u e := by
  induction a, frame using it.evaluation_induction generalizing w with
  | hstep a frame ih =>
      by_cases hadmits : it.Admits (frame.enter a.name)
      · obtain ⟨_, _, _, hcode, hunknown, he⟩ | ⟨b, g, w₁, hmem, hinner⟩ :=
          failed_of_admits hadmits hresult
        · exact ⟨⟨a, frame, w⟩, .refl, .own hcode hunknown he⟩
        · have hnests : it.Nests ⟨a, frame, w⟩ ⟨b, g, w₁⟩ := hmem
          obtain ⟨u, hu, horigin⟩ := ih hadmits b g hnests.depth_eq hinner
          exact ⟨u, .head hnests hu, horigin⟩
      · refine ⟨⟨a, frame, w⟩, .refl, ?_⟩
        rw [evaluate_eq_unfolding, unfolding] at hresult
        split at hresult
        next hlength =>
          cases hresult
          exact .overlong hlength rfl
        next hlength =>
          split at hresult
          next hdepth =>
            cases hresult
            exact .tooDeep hdepth rfl
          next hdepth => exact absurd ⟨Int.not_lt.1 hlength, Int.not_lt.1 hdepth⟩ hadmits

/-- Whatever is asked for in the course of an evaluation is asked for by a visit that is nested in
it and is within the limits. -/
theorem exists_of_mem_course {e : Occurrence σ} (he : e ∈ it.course v.action v.frame v.world) :
    ∃ u, Relation.ReflTransGen it.Nests v u ∧ it.Admits u.entered ∧
      e ∈ it.requests u.action u.frame u.world := by
  obtain ⟨a, frame, w⟩ := v
  induction a, frame using it.evaluation_induction generalizing w with
  | hstep a frame ih =>
      rw [course_eq] at he
      obtain ⟨first, hfirst, he⟩ := List.mem_flatMap.1 he
      have hadmits := (asks_of_mem_requests hfirst).1
      obtain rfl | he := List.mem_cons.1 he
      · exact ⟨⟨a, frame, w⟩, .refl, hadmits, hfirst⟩
      · obtain ⟨b, g, w₁, rfl, hg⟩ | hother := cases_of_mem_requests hfirst
        · obtain ⟨u, hu, hrest⟩ := ih hadmits b g hg w₁ he
          have hnests : it.Nests ⟨a, frame, w⟩ ⟨b, g, w₁⟩ := hfirst
          exact ⟨u, .head hnests hu, hrest⟩
        · rw [innerCourse_eq_nil hother] at he
          cases he

theorem mem_course_of_reflTransGen {u : Visit σ} {e : Occurrence σ}
    (hu : Relation.ReflTransGen it.Nests v u) (he : e ∈ it.requests u.action u.frame u.world) :
    e ∈ it.course v.action v.frame v.world := by
  induction hu using Relation.ReflTransGen.head_induction_on with
  | refl => exact mem_course_of_mem_requests he
  | head hnests _ ih => exact mem_course_of_mem_innerCourse hnests ih

theorem exists_stalls_of_evaluate_hung {w' : World σ}
    (hresult : it.evaluate v.action v.frame v.world = (.error (.fault .hung), w')) :
    ∃ e ∈ it.course v.action v.frame v.world, it.Stalls e := by
  obtain ⟨b, g, -, hhalts⟩ | ⟨e, he, hrequest, hserve⟩ := fault_origin hresult
  · obtain ⟨-, ⟨_, _, hf⟩ | hf⟩ | ⟨-, -, _, hf⟩ := hhalts.fault_cases
    · cases hf
    · cases hf
    · cases hf
  · exact ⟨e, he, hrequest, w', hserve⟩

/-- Every evaluation comes to an end, however the actions of the program call each other.

Evaluation is the one solution of the recursive evaluator's equation, in which no budget occurs.  A
nested evaluation stands one level deeper, at a path that is longer by two characters at least, so a
chain of them is bounded by the limit on the depth and also by the limit on the path.  Beyond the
limits an action fails before it asks for anything, so nothing is carried out there.  And only a
request that never ends, be it a call on the browser or a pause without end, can keep an evaluation
from ending. -/
theorem evaluation_terminates (it : Interpreter σ) :
    (∀ ev : Evaluator σ, ev = it.unfolding ev ↔ ev = it.evaluate) ∧
    (∀ parent child, it.Nests parent child →
      child.frame.depth = parent.frame.depth + 1 ∧
        parent.frame.source.length + 2 ≤ child.frame.source.length) ∧
    (∀ v vs, List.IsChain it.Nests (v :: vs) → vs ≠ [] →
      v.frame.depth + vs.length ≤ it.maxDepth ∧
        v.frame.source.length + 2 * vs.length ≤ it.maxSourceLength) ∧
    (∀ v : Visit σ,
      (¬ it.Admits v.entered →
        (∃ e, e.code = .recursionLimit ∧
            it.evaluate v.action v.frame v.world = (.error (.failed e), v.world)) ∧
          it.course v.action v.frame v.world = []) ∧
      (∀ e ∈ it.course v.action v.frame v.world,
        ∃ u, Relation.ReflTransGen it.Nests v u ∧ it.Admits u.entered ∧
          e ∈ it.requests u.action u.frame u.world) ∧
      ∀ w', it.evaluate v.action v.frame v.world = (.error (.fault .hung), w') →
        ∃ e ∈ it.course v.action v.frame v.world, it.Stalls e ∧
          ∀ seconds, e.request = .wait (.pause seconds) →
            (e.world.now.add seconds).isFinite = false) := by
  refine ⟨fun ev => ⟨eq_evaluate_of_eq_unfolding, ?_⟩, ?_, ?_, fun v => ⟨?_, ?_, ?_⟩⟩
  · rintro rfl
    exact it.evaluate_eq_unfolding
  · intro parent child hnests
    exact ⟨hnests.depth_eq, hnests.length_source_le⟩
  · intro v vs hchain hvs
    exact length_le_of_isChain hchain hvs
  · intro hadmits
    exact fails_of_not_admits hadmits
  · intro e he
    exact exists_of_mem_course he
  · intro w' hresult
    obtain ⟨e, he, hstalls⟩ := exists_stalls_of_evaluate_hung hresult
    exact ⟨e, he, hstalls, fun seconds hpause => hstalls.isFinite_eq_false hpause⟩

/-- An interpreter of a program whose only action calls itself. -/
def selfCalling : Interpreter Script :=
  { ofKinds [] with
    program := ⟨[], [("loop", .callOf "loop")], []⟩
    maxDepth := 2 }

/-- The call of the action that calls itself, from inside some calls of it. -/
def selfCall : Nat → Visit Script
  | 0 => ⟨.callOf "loop", { source := "root[0]" }, .onEmptyPage⟩
  | n + 1 => { selfCall n with frame := (selfCall n).entered.calling "loop" }

/-- The bound on the depth is reached: the innermost of three calls is beyond it. -/
theorem evaluation_terminates_selfCalling :
    List.IsChain selfCalling.Nests [selfCall 0, selfCall 1, selfCall 2] ∧
      (selfCall 0).frame.depth + 2 ≤ selfCalling.maxDepth ∧
      ∃ e, e.code = .recursionLimit ∧
        selfCalling.evaluate (selfCall 2).action (selfCall 2).frame (selfCall 2).world =
          (.error (.failed e), (selfCall 2).world) := by
  obtain ⟨-, -, hbound, hvisit⟩ := evaluation_terminates selfCalling
  have hfirst : selfCalling.Nests (selfCall 0) (selfCall 1) :=
    List.mem_of_head? rfl
  have hsecond : selfCalling.Nests (selfCall 1) (selfCall 2) :=
    List.mem_of_head? rfl
  have hchain : List.IsChain selfCalling.Nests [selfCall 0, selfCall 1, selfCall 2] :=
    .cons_cons hfirst (.cons_cons hsecond (.singleton _))
  exact ⟨hchain, (hbound _ _ hchain (by simp)).1, ((hvisit (selfCall 2)).1 (by decide)).1⟩

end Interpreter

end Pagescript
