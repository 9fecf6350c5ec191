import Mathlib.Data.List.Forall2
import Pagescript.Proofs.Calls
import Pagescript.Proofs.Store
/-!
# Completed store actions

The batches that are written to the store are those of the store actions that complete, one for each
and in the order in which they complete: a store action inside another one comes before it.  A batch
holds the values of the action's own items.
-/

namespace Pagescript

open Plan Handler

/-! ### The names of a store -/

namespace Store

/-- No name is bound twice. -/
def Distinct (s : Store) : Prop :=
  s.names.Pairwise fun name later => name.same later = false

theorem map_fst_insert (name : Name) (v : Value) (entries : List Binding) :
    (insert name v entries).map (·.1) =
      if entries.any (·.1.same name) then entries.map (·.1) else entries.map (·.1) ++ [name] := by
  induction entries with
  | nil => rfl
  | cons entry rest ih =>
      obtain ⟨n, old⟩ := entry
      by_cases hn : n.same name
      · simp [insert, hn]
      · by_cases hrest : rest.any (·.1.same name) <;> simp [insert, hn, ih, hrest]

theorem names_set (s : Store) (name : Name) (v : Value) :
    (s.set name v).names = if s.contains name then s.names else s.names ++ [name] :=
  map_fst_insert name v s.entries

theorem names_prefix_set (s : Store) (name : Name) (v : Value) :
    s.names <+: (s.set name v).names := by
  rw [names_set]
  split
  · exact List.prefix_rfl
  · exact List.prefix_append _ _

theorem Distinct.set {s : Store} (hs : s.Distinct) (name : Name) (v : Value) :
    (s.set name v).Distinct := by
  rw [Distinct, names_set]
  split
  · exact hs
  next hnew =>
    refine List.pairwise_append.2 ⟨hs, List.pairwise_singleton _ _, ?_⟩
    intro n hn later hlater
    obtain rfl := List.mem_singleton.1 hlater
    obtain ⟨entry, hentry, rfl⟩ := List.mem_map.1 hn
    have hnone := List.any_eq_false.1 (Bool.not_eq_true _ ▸ hnew)
    simpa using hnone entry hentry

theorem names_prefix_commit (s : Store) (batch : Fields) : s.names <+: (s.commit batch).names := by
  rw [commit, bind]
  induction batch generalizing s with
  | nil => exact List.prefix_rfl
  | cons entry rest ih => exact (s.names_prefix_set _ _).trans (ih _)

theorem Distinct.commit {s : Store} (hs : s.Distinct) (batch : Fields) :
    (s.commit batch).Distinct := by
  rw [Store.commit, bind]
  induction batch generalizing s with
  | nil => exact hs
  | cons entry rest ih => exact ih (hs.set _ _)

theorem names_prefix_foldl_commit (s : Store) (batches : List Fields) :
    s.names <+: (batches.foldl commit s).names := by
  induction batches generalizing s with
  | nil => exact List.prefix_rfl
  | cons batch rest ih => exact (s.names_prefix_commit batch).trans (ih _)

theorem Distinct.foldl_commit {s : Store} (hs : s.Distinct) (batches : List Fields) :
    (batches.foldl Store.commit s).Distinct := by
  induction batches generalizing s with
  | nil => exact hs
  | cons batch rest ih => exact ih (hs.commit batch)

theorem get?_set_text (s : Store) (name name' : String) (v : Value) :
    (s.set name v).get? name' = if name' = name then some v else s.get? name' := by
  simp only [get?, set]
  induction s.entries with
  | nil =>
      by_cases hname : name' = name
      · simp [insert, Name.same, hname]
      · simp [insert, Name.same, hname, Ne.symm hname]
  | cons entry rest ih =>
      obtain ⟨n, old⟩ := entry
      cases n with
      | other u => simpa [insert, Name.same] using ih
      | text s =>
          by_cases hs : s = name
          · by_cases hname : name' = name <;> simp_all [insert, Name.same, eq_comm]
          · by_cases hname : s = name' <;> simp_all [insert, Name.same, eq_comm]

theorem get?_commit_of_not_mem (s : Store) {name : String} {batch : Fields}
    (hname : name ∉ batch.map (·.1)) : (s.commit batch).get? name = s.get? name := by
  rw [commit, bind]
  induction batch generalizing s with
  | nil => rfl
  | cons entry rest ih =>
      rw [List.map_cons, List.mem_cons, not_or] at hname
      have hrest := ih (s.set entry.1 entry.2) hname.2
      rw [get?_set_text, if_neg hname.1] at hrest
      exact hrest

theorem get?_commit (s : Store) {name : String} {v : Value} (before : Fields) {after : Fields}
    (hname : name ∉ after.map (·.1)) :
    (s.commit (before ++ (name, v) :: after)).get? name = some v := by
  have hsplit : s.commit (before ++ (name, v) :: after) =
      ((s.commit before).set name v).commit after := by
    simp only [commit, bind, List.map_append, List.map_cons, List.foldl_append, List.foldl_cons]
  rw [hsplit, get?_commit_of_not_mem _ hname, get?_set_text, if_pos rfl]

end Store

theorem forall₂_flatMap {α β γ : Type} {R : β → γ → Prop} {xs : List α} {f : α → List β}
    {g : α → List γ} (hxs : ∀ x ∈ xs, List.Forall₂ R (f x) (g x)) :
    List.Forall₂ R (xs.flatMap f) (xs.flatMap g) := by
  have hsame : List.Forall₂ (fun x y => List.Forall₂ R (f x) (g y)) xs xs :=
    List.forall₂_same.2 hxs
  exact List.rel_flatMap hsame fun _ _ hxy => hxy

namespace Interpreter

variable {σ : Type} {it : Interpreter σ} {u v : Visit σ}

/-! ### The order of completion -/

/-- The visits of an evaluation, `budget` levels deep, in the order in which they end. -/
def endingsWithin (it : Interpreter σ) : Nat → Visit σ → List (Visit σ)
  | 0, v => [v]
  | budget + 1, v =>
    (it.requests v.action v.frame v.world).flatMap (fun e =>
      match e.request with
      | .evaluate b g => endingsWithin it budget ⟨b, g, e.world⟩
      | _ => []) ++ [v]

/-- The visits of an evaluation in the order in which they end: a nested one ends before the one it
is nested in. -/
def endings (it : Interpreter σ) (v : Visit σ) : List (Visit σ) :=
  it.endingsWithin (it.maxDepth - v.frame.depth).toNat v

def innerEndings (it : Interpreter σ) (e : Occurrence σ) : List (Visit σ) :=
  match e.request with
  | .evaluate b g => it.endings ⟨b, g, e.world⟩
  | _ => []

theorem endings_eq (it : Interpreter σ) (v : Visit σ) :
    it.endings v =
      (it.requests v.action v.frame v.world).flatMap it.innerEndings ++ [v] := by
  rw [endings]
  cases hbudget : (it.maxDepth - v.frame.depth).toNat with
  | zero =>
      have hadmits : ¬ it.Admits v.entered := by
        intro hadmits
        have hdepth := hadmits.2
        rw [Visit.entered, Frame.depth_enter] at hdepth
        omega
      rw [requests_of_not_admits hadmits]
      rfl
  | succ budget =>
      rw [endingsWithin]
      congr 1
      refine List.flatMap_congr fun e he => ?_
      rw [innerEndings]
      split
      next b g hrequest =>
        have hg : g.depth = v.frame.depth + 1 := (leads_of_mem_requests he hrequest).depth_eq
        have hleft : budget = (it.maxDepth - g.depth).toNat := by omega
        rw [endings, hleft]
      · rfl

theorem innerEndings_eq_nil {e : Occurrence σ} (he : ∀ b g, e.request ≠ .evaluate b g) :
    it.innerEndings e = [] := by
  rw [innerEndings]
  split
  next b g hrequest => exact absurd hrequest (he b g)
  · rfl

theorem mem_endings_iff : u ∈ it.endings v ↔ Relation.ReflTransGen it.Nests v u := by
  obtain ⟨a, frame, w⟩ := v
  induction a, frame using it.evaluation_induction generalizing w with
  | hstep a frame ih =>
      rw [endings_eq, List.mem_append, List.mem_singleton]
      constructor
      · rintro (hinner | rfl)
        · obtain ⟨e, he, hu⟩ := List.mem_flatMap.1 hinner
          obtain ⟨b, g, w₁, rfl, hg⟩ | hother := cases_of_mem_requests he
          · have hnests : it.Nests ⟨a, frame, w⟩ ⟨b, g, w₁⟩ := he
            exact .head hnests ((ih (asks_of_mem_requests he).1 b g hg w₁).1 hu)
          · rw [innerEndings_eq_nil hother] at hu
            cases hu
        · exact .refl
      · intro hu
        obtain rfl | ⟨⟨b, g, w₁⟩, hnests, hrest⟩ := Relation.ReflTransGen.cases_head_iff.1 hu
        · exact .inr rfl
        · refine .inl (List.mem_flatMap.2 ⟨_, hnests, ?_⟩)
          exact (ih hnests.admits b g hnests.depth_eq w₁).2 hrest

/-- The visit is one of a store action that completes. -/
def completesStore (it : Interpreter σ) (v : Visit σ) : Bool :=
  it.dispatch? v.action = some .store && (it.evaluate v.action v.frame v.world).1.isOk

/-- The store actions that complete in an evaluation, in the order in which they do. -/
def completedStores (it : Interpreter σ) (v : Visit σ) : List (Visit σ) :=
  (it.endings v).filter it.completesStore

theorem completesStore_iff :
    it.completesStore v ↔ it.dispatch? v.action = some .store ∧
      ∃ x w', it.evaluate v.action v.frame v.world = (.ok x, w') := by
  rw [completesStore, Bool.and_eq_true, decide_eq_true_iff]
  refine and_congr_right fun _ => ?_
  cases it.evaluate v.action v.frame v.world with
  | mk result w' =>
      cases result with
      | ok x => exact ⟨fun _ => ⟨x, w', rfl⟩, fun _ => rfl⟩
      | error s =>
          refine ⟨nofun, fun ⟨x, w₁, hresult⟩ => ?_⟩
          cases hresult

/-! ### One batch for each -/

theorem batch?_eq_none_of_not_completesStore (hv : ¬ it.completesStore v) {e : Occurrence σ}
    (he : e ∈ it.requests v.action v.frame v.world) : batch? e = none := by
  obtain ⟨request, w₁⟩ := e
  cases request with
  | commit batch =>
      obtain ⟨hdispatch, hresult⟩ := evaluate_of_commit_mem he rfl
      exact absurd (completesStore_iff.2 ⟨hdispatch, _, _, hresult⟩) hv
  | _ => rfl

/-- The last request of a store action that completes is the one for its batch. -/
theorem requests_of_completesStore (hv : it.completesStore v) :
    ∃ others batch w₁, it.requests v.action v.frame v.world = others ++ [⟨.commit batch, w₁⟩] ∧
      (∀ e ∈ others, batch? e = none) ∧ it.Writes v batch := by
  obtain ⟨hdispatch, x, w', hresult⟩ := completesStore_iff.1 hv
  obtain ⟨hadmits, hrun⟩ := of_evaluate_ok hresult
  rw [plan_of_dispatch? hdispatch] at hrun
  cases hitems : v.action.form.items? with
  | none =>
      rw [Handler.plan, hitems] at hrun
      cases hrun
  | some items =>
      rw [run_plan_store hitems] at hrun
      cases hvalues : (itemValues it.program (v.frame.enter v.action.name) items).run
          (it.serve it.evaluate) v.world with
      | mk result w₁ =>
          rw [hvalues] at hrun
          cases result with
          | error s => cases hrun
          | ok batch =>
              have hrequests : it.requests v.action v.frame v.world =
                  (itemValues it.program (v.frame.enter v.action.name) items).course
                    (it.serve it.evaluate) v.world ++ [⟨.commit batch, w₁⟩] := by
                rw [requests_of_admits hadmits, plan_of_dispatch? hdispatch,
                  course_plan_store hitems, hvalues]
              have hcommit : ⟨.commit batch, w₁⟩ ∈ it.requests v.action v.frame v.world := by
                rw [hrequests]
                exact List.mem_append_cons_self
              refine ⟨_, batch, w₁, hrequests, ?_, hdispatch, w₁, hcommit, ?_⟩
              · intro e he
                exact batch?_eq_none_of_mem_itemValues hitems he
              · exact (evaluate_of_commit_mem hcommit rfl).2

theorem batches_eq (it : Interpreter σ) (a : Action) (frame : Frame Handle) (w : World σ) :
    it.batches a frame w = (it.requests a frame w).flatMap fun e =>
      (batch? e).toList ++ (it.innerCourse e).filterMap batch? := by
  rw [batches, course_eq, List.filterMap_flatMap]
  refine List.flatMap_congr fun e _ => ?_
  rw [List.filterMap_cons]
  cases batch? e with
  | none => rfl
  | some batch => rfl

/-- The store actions that complete write the batches, one each and in the same order. -/
theorem forall₂_writes (it : Interpreter σ) (v : Visit σ) :
    List.Forall₂ it.Writes (it.completedStores v) (it.batches v.action v.frame v.world) := by
  obtain ⟨a, frame, w⟩ := v
  induction a, frame using it.evaluation_induction generalizing w with
  | hstep a frame ih =>
      -- a request that writes nothing itself adds what is written while it is served
      have hinner (e : Occurrence σ) (he : e ∈ it.requests a frame w) (hnone : batch? e = none) :
          List.Forall₂ it.Writes ((it.innerEndings e).filter it.completesStore)
            ((batch? e).toList ++ (it.innerCourse e).filterMap batch?) := by
        rw [hnone, Option.toList_none, List.nil_append]
        obtain ⟨b, g, w₁, rfl, hg⟩ | hother := cases_of_mem_requests he
        · exact ih (asks_of_mem_requests he).1 b g hg w₁
        · rw [innerEndings_eq_nil hother, innerCourse_eq_nil hother]
          exact .nil
      rw [completedStores, endings_eq, List.filter_append, List.filter_flatMap, batches_eq]
      by_cases hv : it.completesStore ⟨a, frame, w⟩
      · obtain ⟨others, batch, w₁, hrequests, hothers, hwrites⟩ := requests_of_completesStore hv
        simp only at hrequests
        rw [hrequests] at hinner
        rw [List.filter_cons_of_pos hv, List.filter_nil, hrequests, List.flatMap_append,
          List.flatMap_append]
        refine List.rel_append ?_ (.cons hwrites .nil)
        have hcommit : it.innerEndings ⟨.commit batch, w₁⟩ = [] := rfl
        rw [List.flatMap_singleton, hcommit, List.filter_nil, List.append_nil]
        refine forall₂_flatMap fun e he => hinner e ?_ (hothers e he)
        exact List.mem_append_left _ he
      · rw [List.filter_cons_of_neg hv, List.filter_nil, List.append_nil]
        refine forall₂_flatMap fun e he => hinner e he ?_
        exact batch?_eq_none_of_not_completesStore hv he

/-! ### The values of items -/

/-- The value of an item when a store action is carried out at a visit. -/
inductive Yields (it : Interpreter σ) (u : Visit σ) (name : String) : Item Action → Value → Prop where
  | value {x : Value} (hx : ∀ s, x ≠ .text s) : Yields it u name (.literal x) x
  | plain {s : String} (hs : referenced? s = none) :
    Yields it u name (.literal (.text s)) (.text s)
  | selector {key text : String} (hselector : Entries.get? it.program.selectors key = some text) :
    Yields it u name (.literal (.text (reference key))) (.text text)
  | unresolved {key : String} (hselector : Entries.get? it.program.selectors key = none)
    (haction : Entries.get? it.program.actions key = none) :
    Yields it u name (.literal (.text (reference key))) (.text (reference key))
  | action {b : Action} {x : Value} {w w' : World σ}
    (hnests : it.Nests u ⟨b, u.entered.field name, w⟩)
    (hvalue : it.evaluate b (u.entered.field name) w = (.ok x, w')) :
    Yields it u name (.node b) x
  /-- The value of a reference to an action of the program is that of the action which a call of the
  name leads to.  This is the one that is referred to, unless the name begins with the sigil. -/
  | called {key : String} {target b : Action} {x : Value} {w w' : World σ}
    (hselector : Entries.get? it.program.selectors key = none)
    (haction : Entries.get? it.program.actions key = some target)
    (hnests : it.Nests u ⟨.callOf key, u.entered.field name, w⟩)
    (hb : it.program.action? key = some b) (hexact : referenced? key = none → b = target)
    (hvalue : it.evaluate b (((u.entered.field name).enter (reference key)).calling key) w =
      (.ok x, w')) :
    Yields it u name (.literal (.text (reference key))) x

theorem evaluate_call_ok {a : Action} {frame : Frame Handle} {w w' : World σ} {x : Value}
    {name : String} (hform : a.form = .call name)
    (hresult : it.evaluate a frame w = (.ok x, w')) :
    ∃ b, it.program.action? name = some b ∧
      it.evaluate b ((frame.enter a.name).calling name) w = (.ok x, w') := by
  have hadmits := (of_evaluate_ok hresult).1
  cases hb : it.program.action? name with
  | none =>
      rw [evaluate_call_of_none hform hadmits hb] at hresult
      cases hresult
  | some b =>
      rw [evaluate_call_of_some hform hadmits hb] at hresult
      exact ⟨b, rfl, hresult⟩

theorem yields_text_of_run {name s : String} {x : Value} {w w' : World σ}
    (hrun : (itemValue it.program (u.entered.field name) (.literal (.text s))).run
      (it.serve it.evaluate) w = (.ok x, w'))
    (hown : ∀ e ∈ (itemValue it.program (u.entered.field name) (.literal (.text s))).course
      (it.serve it.evaluate) w, e ∈ it.requests u.action u.frame u.world) :
    it.Yields u name (.literal (.text s)) x := by
  cases hs : referenced? s with
  | none =>
      simp only [itemValue, Program.resolve, hs] at hrun
      cases hrun
      exact .plain hs
  | some key =>
      obtain rfl := referenced?_eq_some_iff.1 hs
      cases hselector : Entries.get? it.program.selectors key with
      | some text =>
          simp only [itemValue, Program.resolve, hs, hselector] at hrun
          cases hrun
          exact .selector hselector
      | none =>
          cases haction : Entries.get? it.program.actions key with
          | none =>
              simp only [itemValue, Program.resolve, hs, hselector, haction] at hrun
              cases hrun
              exact .unresolved hselector haction
          | some target =>
              simp only [itemValue, Program.resolve, hs, hselector, haction] at hrun hown
              cases hread : Reader.referenceText (.text (reference key)) with
              | invalid issues =>
                  simp only [hread] at hrun
                  cases hrun
              | valid called =>
                  obtain rfl := reference_inj (Reader.eq_reference_of_referenceText hread)
                  simp only [hread] at hrun hown
                  have hcall : it.evaluate (.callOf key) (u.entered.field name) w = (.ok x, w') :=
                    (run_evaluate _ _ _).symm.trans hrun
                  obtain ⟨b, hb, hvalue⟩ := evaluate_call_ok rfl hcall
                  have hnests := hown _ (mem_course_evaluate _ _ _)
                  have hexact (hplain : referenced? key = none) : b = target := by
                    have hlookedUp : Entries.get? it.program.actions (lookedUp key) = some b := hb
                    rw [lookedUp_of_referenced? hplain, haction] at hlookedUp
                    exact (Option.some.inj hlookedUp).symm
                  exact .called hselector haction hnests hb hexact hvalue

theorem yields_of_run {name : String} {item : Item Action} {x : Value} {w w' : World σ}
    (hrun : (itemValue it.program (u.entered.field name) item).run (it.serve it.evaluate) w =
      (.ok x, w'))
    (hown : ∀ e ∈ (itemValue it.program (u.entered.field name) item).course
      (it.serve it.evaluate) w, e ∈ it.requests u.action u.frame u.world) :
    it.Yields u name item x := by
  cases item with
  | node b =>
      have hvalue : it.evaluate b (u.entered.field name) w = (.ok x, w') :=
        (run_evaluate _ _ _).symm.trans hrun
      exact .action (hown _ (mem_course_evaluate _ _ _)) hvalue
  | literal y =>
      cases y with
      | text s => exact yields_text_of_run hrun hown
      | _ =>
          cases hrun
          exact .value nofun

theorem forall₂_yields {items : List (String × Item Action)} {batch : Fields} {w w' : World σ}
    (hrun : (itemValues it.program u.entered items).run (it.serve it.evaluate) w = (.ok batch, w'))
    (hown : ∀ e ∈ (itemValues it.program u.entered items).course (it.serve it.evaluate) w,
      e ∈ it.requests u.action u.frame u.world) :
    List.Forall₂ (fun item entry => item.1 = entry.1 ∧ it.Yields u item.1 item.2 entry.2)
      items batch := by
  induction items generalizing batch w with
  | nil =>
      cases hrun
      exact .nil
  | cons entry rest ih =>
      obtain ⟨name, item⟩ := entry
      obtain ⟨x, w₁, hitem, hrest, hcourse⟩ := exists_of_run_bind_ok hrun
      obtain ⟨later, w₂, hlater, hbatch, hcourse'⟩ := exists_of_run_bind_ok hrest
      cases hbatch
      rw [itemValues, hcourse, hcourse'] at hown
      refine .cons ⟨rfl, yields_of_run hitem fun e he => ?_⟩ (ih hlater fun e he => ?_)
      · exact hown e (List.mem_append_left _ he)
      · exact hown e (List.mem_append_right _ (List.mem_append_left _ he))

/-- The batch of a store action holds the values of its items under their names. -/
theorem Writes.forall₂_yields {batch : Fields} (hwrites : it.Writes u batch) :
    ∃ items, u.action.form.items? = some items ∧
      List.Forall₂ (fun item entry => item.1 = entry.1 ∧ it.Yields u item.1 item.2 entry.2)
        items batch := by
  obtain ⟨hdispatch, w₁, hcommit, -⟩ := hwrites
  have hadmits := (asks_of_mem_requests hcommit).1
  have hrequests := requests_of_admits hadmits u.world
  rw [plan_of_dispatch? hdispatch] at hrequests
  rw [hrequests] at hcommit
  obtain ⟨items, hitems, hrun⟩ := run_itemValues_of_commit_mem hcommit rfl
  refine ⟨items, hitems, Interpreter.forall₂_yields hrun fun e he => ?_⟩
  rw [hrequests, course_plan_store hitems]
  exact List.mem_append_left _ he

/-- When a store action has completed, each of its names is bound to the value of its own item. -/
theorem Writes.store_get? {batch : Fields} (hwrites : it.Writes u batch)
    {before after : List (String × Item Action)} {name : String} {item : Item Action}
    (hbatch : List.Forall₂ (fun item entry => item.1 = entry.1 ∧ it.Yields u item.1 item.2 entry.2)
      (before ++ (name, item) :: after) batch)
    (hname : name ∉ after.map (·.1)) :
    ∃ x, it.Yields u name item x ∧
      (it.evaluate u.action u.frame u.world).2.store.get? name = some x := by
  have hdrop := List.forall₂_drop before.length hbatch
  rw [List.drop_left] at hdrop
  obtain ⟨⟨_, x⟩, later, ⟨rfl, hx⟩, hlater, hsplit⟩ := List.forall₂_cons_left_iff.1 hdrop
  refine ⟨x, hx, ?_⟩
  have hkeys : after.map (·.1) = later.map (·.1) := by
    have heq : List.Forall₂ Eq (after.map (·.1)) (later.map (·.1)) := by
      rw [List.forall₂_map_left_iff, List.forall₂_map_right_iff]
      exact hlater.imp fun _ _ => And.left
    rwa [List.forall₂_eq_eq_eq] at heq
  obtain ⟨-, w₁, -, hresult⟩ := hwrites
  rw [hresult, ← List.take_append_drop before.length batch, hsplit]
  exact w₁.store.get?_commit _ (hkeys ▸ hname)

/-- The history of the store.

The store after an evaluation is the one before it, updated by the batches of the store actions that
have completed, one for each and in the order in which they did; no other action writes to it.  A store
action that completes leaves its names bound to the values of its own items, whatever was stored under
them meanwhile.  (Of two items with one name the later counts.)  So names stay where they are, new ones
come after them, and none comes to be bound twice. -/
theorem store_history (it : Interpreter σ) (a : Action) (frame : Frame Handle) (w : World σ) :
    (it.evaluate a frame w).2.store = (it.batches a frame w).foldl Store.commit w.store ∧
    List.Forall₂ it.Writes (it.completedStores ⟨a, frame, w⟩) (it.batches a frame w) ∧
    (∀ u, u ∈ it.completedStores ⟨a, frame, w⟩ ↔
      Relation.ReflTransGen it.Nests ⟨a, frame, w⟩ u ∧ it.dispatch? u.action = some .store ∧
        ∃ x w', it.evaluate u.action u.frame u.world = (.ok x, w')) ∧
    (∀ u batch, it.Writes u batch → ∃ items, u.action.form.items? = some items ∧
      List.Forall₂ (fun item entry => item.1 = entry.1 ∧ it.Yields u item.1 item.2 entry.2)
        items batch ∧
      ∀ before name item after, items = before ++ (name, item) :: after →
        name ∉ after.map (·.1) → ∃ x, it.Yields u name item x ∧
          (it.evaluate u.action u.frame u.world).2.store.get? name = some x) ∧
    w.store.names <+: (it.evaluate a frame w).2.store.names ∧
    (w.store.Distinct → (it.evaluate a frame w).2.store.Distinct) := by
  refine ⟨it.store_evaluate a frame w, it.forall₂_writes ⟨a, frame, w⟩, fun u => ?_, ?_, ?_, ?_⟩
  · rw [completedStores, List.mem_filter, mem_endings_iff, completesStore_iff]
  · intro u batch hwrites
    obtain ⟨items, hitems, hbatch⟩ := hwrites.forall₂_yields
    refine ⟨items, hitems, hbatch, ?_⟩
    rintro before name item after rfl hname
    exact hwrites.store_get? hbatch hname
  · rw [store_evaluate]
    exact w.store.names_prefix_foldl_commit _
  · intro hdistinct
    rw [store_evaluate]
    exact hdistinct.foldl_commit _

/-! ### A name that is also written by an item -/

/-- A store action for the name `x`, the item of which stores something else under `x` meanwhile. -/
def overwriting : Action :=
  .node none (.store [("x", .node (.node none (.sequence
    [.node none (.store [("x", .literal (.int 1)), ("y", .literal (.int 2))]),
      .node none (.negate (.flag true))])))])

/-- The inner store action completes first, so `x` comes before `y` but has the outer value. -/
theorem store_history_overwriting :
    ((ofKinds [.store, .sequence, .negate]).evaluate overwriting { source := "root[0]" }
        .onEmptyPage).2.store.entries = [(.text "x", .bool false), (.text "y", .int 2)] ∧
      ((ofKinds [.store, .sequence, .negate]).completedStores
        ⟨overwriting, { source := "root[0]" }, .onEmptyPage⟩).length = 2 ∧
      ((ofKinds [.store, .sequence, .negate]).evaluate overwriting { source := "root[0]" }
        .onEmptyPage).2.store.Distinct := by
  obtain ⟨hstore, hwrites, -, -, -, hdistinct⟩ := store_history
    (ofKinds [.store, .sequence, .negate]) overwriting { source := "root[0]" } .onEmptyPage
  refine ⟨?_, ?_, hdistinct .nil⟩
  · rw [hstore]
    rfl
  · rw [hwrites.length_eq]
    rfl

end Interpreter

end Pagescript
