import Pagescript.Proofs.Nesting
/-!
# The history of the store

The store is written to only by store actions that complete, each of which writes one batch.  So the
store after an evaluation is the one before it with the batches of its course, in order.
-/

namespace Pagescript

open Plan Handler

namespace Interpreter

variable {σ : Type} {it : Interpreter σ} {a : Action} {frame : Frame Handle} {w w' : World σ}

/-! ### Batches -/

/-- The batch that a request writes to the store, if it writes to it. -/
def batch? (e : Occurrence σ) : Option Fields :=
  match e.request with
  | .commit batch => some batch
  | _ => none

/-- The batches that are written while an action is evaluated, in order. -/
def batches (it : Interpreter σ) (a : Action) (frame : Frame Handle) (w : World σ) : List Fields :=
  (it.course a frame w).filterMap batch?

theorem store_step (it : Interpreter σ) (ev : Evaluator σ) (a : Action) (frame : Frame Handle)
    (w : World σ) :
    (it.step ev a frame w).2.store = ((it.plan a frame).run (it.serve ev) w).2.store := by
  obtain hstep | ⟨e, w₁, hrun, _, _, _, _, -, hstep⟩ := it.step_eq_run_or ev a frame w
  · rw [hstep]
  · rw [hstep, hrun]

theorem store_serve {ev : Evaluator σ} {e : Occurrence σ} (he : ∀ b g, e.request ≠ .evaluate b g) :
    (it.serve ev e.request e.world).2.store =
      (batch? e).toList.foldl Store.commit e.world.store := by
  obtain ⟨request, w⟩ := e
  cases request with
  | evaluate b g => exact absurd rfl (he b g)
  | carryOut task => exact it.surface.keeps_carryOut World.change_store task w
  | wait awaited => exact (it.surface.keeps_work World.change_store awaited).race World.change_store w
  | _ => rfl

/-- The store after an evaluation is the one before it with the batches of its course. -/
theorem store_evaluate (it : Interpreter σ) (a : Action) (frame : Frame Handle) (w : World σ) :
    (it.evaluate a frame w).2.store = (it.batches a frame w).foldl Store.commit w.store := by
  induction a, frame using it.evaluation_induction generalizing w with
  | hstep a frame ih =>
      rw [batches, course_eq]
      by_cases hadmits : it.Admits (frame.enter a.name)
      · rw [evaluate_of_admits hadmits, store_step, requests_of_admits hadmits,
          List.filterMap_flatMap, List.foldl_flatMap]
        refine run_view World.store _ _ w fun e he => ?_
        rw [← requests_of_admits hadmits] at he
        obtain ⟨b, g, w₁, rfl, hg⟩ | hother := cases_of_mem_requests he
        · exact ih hadmits b g hg w₁
        · rw [store_serve hother, innerCourse_eq_nil hother, List.filterMap_cons]
          cases batch? e with
          | none => rfl
          | some batch => rfl
      · obtain ⟨message, hevaluate⟩ := evaluate_of_not_admits hadmits
        rw [hevaluate, requests_of_not_admits hadmits]
        rfl

/-! ### Store actions -/

theorem course_plan_store {ev : Evaluator σ} {program : Program}
    {items : List (String × Item Action)} (hitems : a.form.items? = some items) (w : World σ) :
    (Handler.plan program .store a frame).course (it.serve ev) w =
      (itemValues program frame items).course (it.serve ev) w ++
        match (itemValues program frame items).run (it.serve ev) w with
        | (.ok batch, w₁) => [⟨.commit batch, w₁⟩]
        | (.error _, _) => [] := by
  rw [plan_store hitems, course_bind]
  cases (itemValues program frame items).run (it.serve ev) w with
  | mk result w₁ =>
      cases result with
      | ok batch => rfl
      | error s => rfl

theorem run_plan_store {ev : Evaluator σ} {program : Program}
    {items : List (String × Item Action)} (hitems : a.form.items? = some items) (w : World σ) :
    (Handler.plan program .store a frame).run (it.serve ev) w =
      match (itemValues program frame items).run (it.serve ev) w with
      | (.ok batch, w₁) => (.ok .null, { w₁ with store := w₁.store.commit batch })
      | (.error s, w₁) => (.error s, w₁) := by
  rw [plan_store hitems, run_bind]
  cases (itemValues program frame items).run (it.serve ev) w with
  | mk result w₁ =>
      cases result with
      | ok batch => rfl
      | error s => rfl

/-- The items of a store action write nothing themselves. -/
theorem batch?_eq_none_of_mem_itemValues {ev : Evaluator σ} {program : Program}
    {items : List (String × Item Action)} (hitems : a.form.items? = some items) {e : Occurrence σ}
    (he : e ∈ (itemValues program frame items).course (it.serve ev) w) : batch? e = none := by
  have hproper : Proper program none a frame (fun _ => True) (itemValues program frame items) :=
    proper_itemValues hitems fun _ => id
  have hasks := hproper.of_mem_course he
  obtain ⟨request, w₁⟩ := e
  cases hasks with
  | commit hnone => cases hnone
  | _ => rfl

theorem run_itemValues_of_commit_mem {ev : Evaluator σ} {program : Program} {e : Occurrence σ}
    {batch : Fields}
    (he : e ∈ (Handler.plan program .store a frame).course (it.serve ev) w)
    (hbatch : e.request = .commit batch) :
    ∃ items, a.form.items? = some items ∧
      (itemValues program frame items).run (it.serve ev) w = (.ok batch, e.world) := by
  cases hitems : a.form.items? with
  | none =>
      rw [Handler.plan, hitems] at he
      cases he
  | some items =>
      refine ⟨items, rfl, ?_⟩
      rw [course_plan_store hitems] at he
      obtain he | he := List.mem_append.1 he
      · have hnone := batch?_eq_none_of_mem_itemValues hitems he
        rw [batch?, hbatch] at hnone
        cases hnone
      · cases hrun : (itemValues program frame items).run (it.serve ev) w with
        | mk result w₁ =>
            rw [hrun] at he
            cases result with
            | error s => cases he
            | ok computed =>
                obtain rfl : e = ⟨.commit computed, w₁⟩ := List.mem_singleton.1 he
                cases hbatch
                rfl

theorem run_store_of_commit_mem {ev : Evaluator σ} {program : Program} {e : Occurrence σ}
    {batch : Fields}
    (he : e ∈ (Handler.plan program .store a frame).course (it.serve ev) w)
    (hbatch : e.request = .commit batch) :
    (Handler.plan program .store a frame).run (it.serve ev) w =
      (.ok .null, { e.world with store := e.world.store.commit batch }) := by
  obtain ⟨items, hitems, hrun⟩ := run_itemValues_of_commit_mem he hbatch
  rw [run_plan_store hitems, hrun]

/-- Only a store action writes to the store, and when it does it completes. -/
theorem evaluate_of_commit_mem {e : Occurrence σ} {batch : Fields} (he : e ∈ it.requests a frame w)
    (hbatch : e.request = .commit batch) :
    it.dispatch? a = some .store ∧
      it.evaluate a frame w =
        (.ok .null, { e.world with store := e.world.store.commit batch }) := by
  obtain ⟨hadmits, hasks⟩ := asks_of_mem_requests he
  rw [hbatch] at hasks
  cases hasks with
  | commit hdispatch =>
      refine ⟨hdispatch, ?_⟩
      rw [requests_of_admits hadmits, plan_of_dispatch? hdispatch] at he
      rw [evaluate_of_admits hadmits]
      refine step_eq_ok_iff.2 ?_
      rw [plan_of_dispatch? hdispatch]
      exact run_store_of_commit_mem he hbatch

/-- The visit is one of a store action, which writes the batch and with that completes. -/
def Writes (it : Interpreter σ) (u : Visit σ) (batch : Fields) : Prop :=
  it.dispatch? u.action = some .store ∧
    ∃ w : World σ, ⟨.commit batch, w⟩ ∈ it.requests u.action u.frame u.world ∧
      it.evaluate u.action u.frame u.world = (.ok .null, { w with store := w.store.commit batch })

theorem mem_batches_iff {batch : Fields} :
    batch ∈ it.batches a frame w ↔
      ∃ u, Relation.ReflTransGen it.Nests ⟨a, frame, w⟩ u ∧ it.Writes u batch := by
  constructor
  · intro hbatch
    obtain ⟨⟨request, w₁⟩, he, hcommit⟩ := List.mem_filterMap.1 hbatch
    obtain rfl : request = .commit batch := by
      cases request with
      | commit written =>
          cases hcommit
          rfl
      | _ => cases hcommit
    obtain ⟨u, hu, -, hrequest⟩ := exists_of_mem_course (v := ⟨a, frame, w⟩) he
    obtain ⟨hdispatch, hresult⟩ := evaluate_of_commit_mem hrequest rfl
    exact ⟨u, hu, hdispatch, w₁, hrequest, hresult⟩
  · rintro ⟨u, hu, -, w₁, hrequest, -⟩
    exact List.mem_filterMap.2 ⟨_, mem_course_of_reflTransGen hu hrequest, rfl⟩

/-- A store action that stops writes nothing itself; nor does any other action that stops.

What the store holds afterwards is what it held before, with the batches that were written on the
way, and these are the batches of the store actions further in that have completed.  So the store is
unchanged if there is no such action; else its batch stays, although the action as a whole fails. -/
theorem store_of_evaluate_error {s : Stop} (hresult : it.evaluate a frame w = (.error s, w')) :
    w'.store = (it.batches a frame w).foldl Store.commit w.store ∧
    (∀ batch, batch ∈ it.batches a frame w ↔
      ∃ u, Relation.TransGen it.Nests ⟨a, frame, w⟩ u ∧ it.Writes u batch) ∧
    ((∀ u batch, Relation.TransGen it.Nests ⟨a, frame, w⟩ u → ¬ it.Writes u batch) →
      w'.store = w.store) := by
  have hstore : w'.store = (it.batches a frame w).foldl Store.commit w.store := by
    rw [← store_evaluate, hresult]
  have hinner (batch : Fields) : batch ∈ it.batches a frame w ↔
      ∃ u, Relation.TransGen it.Nests ⟨a, frame, w⟩ u ∧ it.Writes u batch := by
    rw [mem_batches_iff]
    constructor
    · rintro ⟨u, hu, hwrites⟩
      obtain rfl | hu := Relation.reflTransGen_iff_eq_or_transGen.1 hu
      · -- the action itself has not completed
        obtain ⟨-, w₁, -, hok⟩ := hwrites
        rw [hresult] at hok
        cases hok
      · exact ⟨u, hu, hwrites⟩
    · rintro ⟨u, hu, hwrites⟩
      exact ⟨u, hu.to_reflTransGen, hwrites⟩
  refine ⟨hstore, hinner, fun hnone => ?_⟩
  have hempty : it.batches a frame w = [] := by
    refine List.eq_nil_iff_forall_not_mem.2 fun batch hbatch => ?_
    obtain ⟨u, hu, hwrites⟩ := (hinner batch).1 hbatch
    exact hnone u batch hu hwrites
  rw [hstore, hempty]
  rfl

/-! ### A store action inside one that fails -/

def storingOne : Action := .node none (.store [("x", .literal (.int 1))])

/-- A store action whose first item stores something, and whose second item fails. -/
def storingThenFailing : Action :=
  .node none (.store [("a", .node storingOne), ("b", .node (.node none (.error "stop")))])

/-- The action as a whole fails, but what its first item has stored stays. -/
theorem store_of_evaluate_error_nested :
    ∃ e w', (ofKinds [.store, .error]).evaluate storingThenFailing { source := "root[0]" }
        .onEmptyPage = (.error (.failed e), w') ∧
      w'.store.entries = [(.text "x", .int 1)] ∧ World.onEmptyPage.store.entries = [] ∧
        ∃ u, Relation.TransGen (ofKinds [.store, .error]).Nests
            ⟨storingThenFailing, { source := "root[0]" }, .onEmptyPage⟩ u ∧
          (ofKinds [.store, .error]).Writes u [("x", .int 1)] := by
  obtain ⟨e, w', hresult⟩ : ∃ e w', (ofKinds [.store, .error]).evaluate storingThenFailing
      { source := "root[0]" } .onEmptyPage = (.error (.failed e), w') := ⟨_, _, rfl⟩
  obtain ⟨hstore, hinner, -⟩ := store_of_evaluate_error hresult
  refine ⟨e, w', hresult, ?_, rfl, (hinner _).1 ?_⟩
  · rw [hstore]
    rfl
  · exact List.mem_of_head? rfl

end Interpreter

end Pagescript
