import Pagescript.Page.Scripted
import Pagescript.Proofs.Evaluation
/-!
# The registry of all kinds

In the registry that knows all kinds, each under its own name, an action is dispatched to the
handler of its own kind.
-/

namespace Pagescript

namespace Entries

variable {α : Type}

@[simp]
theorem get?_nil (key : String) : get? ([] : Entries α) key = none := rfl

theorem get?_cons (entries : Entries α) (key key' : String) (v : α) :
    get? ((key, v) :: entries) key' = if key' = key then some v else get? entries key' := by
  rw [get?, List.lookup_cons]
  by_cases hkey : key' = key
  · rw [if_pos hkey, beq_iff_eq.2 hkey]
  · rw [if_neg hkey, beq_false_of_ne hkey]
    rfl

theorem get?_insert (entries : Entries α) (key key' : String) (v : α) :
    get? (insert entries key v) key' = if key' = key then some v else get? entries key' := by
  induction entries with
  | nil => rw [insert, get?_cons]
  | cons entry rest ih =>
      obtain ⟨k, old⟩ := entry
      by_cases hk : k = key
      · subst hk
        rw [insert, if_pos rfl, get?_cons, get?_cons]
        split <;> rfl
      · rw [insert, if_neg hk, get?_cons, get?_cons, ih]
        by_cases hkey : key' = k
        · rw [if_pos hkey, if_pos hkey, if_neg (hkey ▸ hk)]
        · rw [if_neg hkey, if_neg hkey]

end Entries

/-! ### Kinds -/

namespace Kind

theorem mem_all (k : Kind) : k ∈ all := by
  cases k with
  | inspect x | compare x | gesture x | awaitPage x | awaitElement x => cases x <;> decide
  | _ => decide

theorem name_inj {k k' : Kind} (hname : k.name = k'.name) : k = k' := by
  have hall : ∀ k ∈ all, ∀ k' ∈ all, k.name = k'.name → k = k' := by decide +kernel
  exact hall k k.mem_all k' k'.mem_all hname

theorem startsWith_sigil_name (k : Kind) :
    k.name.startsWith (String.singleton sigil) = false := by
  have hall : ∀ k ∈ all, k.name.startsWith (String.singleton sigil) = false := by decide +kernel
  exact hall k k.mem_all

/-- What a kind is registered with if nothing else is asked for. -/
def registration (k : Kind) : Registration where
  name := k.name
  schema := .kind k
  handler := some k
  description := (Schema.kind k).description

end Kind

namespace Registry

theorem register_kind (registry : Registry) (k : Kind) :
    registry.register .initial { schema := some (.kind k), handler := some k } =
      .ok ({ registry with
        registrations := Entries.insert registry.registrations k.name k.registration },
        Naming.initial.give (.kind k) k.name) := by
  have hname : ((nonempty? none).or (nonempty? (Naming.initial.nameOf? (.kind k)))).getD
      (Schema.kind k).title = k.name := by
    cases k with
    | inspect x | compare x | gesture x | awaitPage x | awaitElement x => cases x <;> rfl
    | _ => rfl
  simp only [register]
  rw [hname, k.startsWith_sigil_name]
  rfl

theorem builtin_initial (maxDepth : Int) :
    builtin .initial maxDepth = Kind.all.foldl (fun registry k =>
      { registry with
        registrations := Entries.insert registry.registrations k.name k.registration })
      (empty maxDepth) := by
  simp only [builtin, register_kind]

@[simp]
theorem maxDepth_builtin (maxDepth : Int) : (builtin .initial maxDepth).maxDepth = maxDepth := by
  rw [builtin_initial]
  rfl

@[simp]
theorem get?_builtin (maxDepth : Int) (k : Kind) :
    (builtin .initial maxDepth).get? k.name = some k.registration := by
  have hfold (ks : List Kind) (registry : Registry) :
      (ks.foldl (fun registry k =>
        { registry with
          registrations := Entries.insert registry.registrations k.name k.registration })
        registry).get? k.name =
        if k ∈ ks then some k.registration else registry.get? k.name := by
    induction ks generalizing registry with
    | nil => rfl
    | cons k' rest ih =>
        rw [List.foldl_cons, ih, get?, Entries.get?_insert]
        by_cases hk : k = k'
        · subst hk
          simp
        · have hname : k.name ≠ k'.name := fun hname => hk (Kind.name_inj hname)
          rw [if_neg hname]
          simp [hk, get?]
  rw [builtin_initial, hfold, if_pos k.mem_all]

end Registry

/-- With all kinds registered, every action is dispatched to the handler of its own kind. -/
theorem Interpreter.dispatch?_eq_kind? {σ : Type} {it : Interpreter σ} {maxDepth : Int}
    (hregistry : it.registry = .builtin .initial maxDepth) (a : Action) :
    it.dispatch? a = a.form.kind? := by
  rw [dispatch?]
  split
  next name hform =>
    rw [hform]
    rfl
  next hcall =>
    cases hkind : a.form.kind? with
    | none =>
        obtain ⟨name, hform⟩ := Form.eq_call_of_kind? hkind
        exact absurd hform (hcall name)
    | some k =>
        rw [hregistry, Form.name_eq_of_kind? hkind, Registry.get?_builtin]
        rfl

/-! ### Small interpreters -/

/-- An interpreter of a program without names, on a scripted page, that knows only some kinds. -/
def Interpreter.ofKinds (kinds : List Kind) : Interpreter Script where
  program := .empty
  surface := { page := Script.page }
  registry := ⟨kinds.map fun k => (k.name, k.registration), Registry.defaultMaxDepth⟩

/-- The world of a run on a page without elements. -/
def World.onEmptyPage : World Script where
  page := ⟨[], [], [], [], []⟩

end Pagescript
