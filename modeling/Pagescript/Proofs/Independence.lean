import Pagescript.Proofs.Faithful
/-!
# Registries beside each other

Many registries can be filled in turn.  All that they share is the table of names: a registration
under a name of its own is remembered there, and a later registration of the same schema without a
name takes it up, in whichever registry.  So what a registry holds is changed by its own registrations
only, but a registry of all kinds that is made later knows each kind by the last name it was given.
-/

namespace Pagescript

/-! ### Names that are given -/

/-- A name under which something can be registered. -/
def IsRegistrable (name : String) : Prop :=
  name ≠ "" ∧ name.startsWith (String.singleton sigil) = false

theorem nonempty?_some {name : String} (hname : name ≠ "") : nonempty? (some name) = some name := by
  have hempty : name.isEmpty = false := by
    rw [← Bool.not_eq_true, String.isEmpty_iff]
    exact hname
  simp [nonempty?, hempty]

theorem ne_empty_of_nonempty? {s : Option String} {name : String}
    (hname : nonempty? s = some name) : name ≠ "" := by
  obtain ⟨-, hempty⟩ := Option.filter_eq_some_iff.1 hname
  rintro rfl
  cases hempty

theorem Kind.isRegistrable_name (k : Kind) : IsRegistrable k.name := by
  refine ⟨?_, k.startsWith_sigil_name⟩
  intro hname
  have hlength := k.length_name_pos
  rw [hname] at hlength
  exact absurd hlength (by decide)

/-- The name that a request gives to a kind: it has to be asked for, and can be refused. -/
def RegistrationRequest.renames? (request : RegistrationRequest) (k : Kind) : Option String :=
  if request.schema = some (.kind k) then
    (nonempty? request.name).filter fun name => !name.startsWith (String.singleton sigil)
  else none

theorem RegistrationRequest.renames?_of_ne {request : RegistrationRequest} {k : Kind}
    (hschema : request.schema ≠ some (.kind k)) : request.renames? k = none :=
  if_neg hschema

/-- The name by which a kind goes after some requests: the last that it was given. -/
def Kind.nameAfter (k : Kind) (requests : List RegistrationRequest) : String :=
  ((requests.filterMap (·.renames? k)).getLast?).getD k.name

namespace Naming

def current (naming : Naming) (k : Kind) : String :=
  (naming.nameOf? (.kind k)).getD k.name

variable {naming : Naming} {k : Kind} {schema : Schema}

theorem nameOf?_kind (naming : Naming) (k : Kind) :
    naming.nameOf? (.kind k) = some (naming.current k) := by
  unfold current nameOf?
  cases naming.given.lookup (.kind k) with
  | none => rfl
  | some name => rfl

theorem current_give_self (naming : Naming) (k : Kind) (name : String) :
    (naming.give (.kind k) name).current k = name := by
  simp [current, nameOf?, give]

theorem current_give_of_ne (naming : Naming) (name : String) (hne : schema ≠ .kind k) :
    (naming.give schema name).current k = naming.current k := by
  have hlookup : (naming.give schema name).given.lookup (.kind k) = naming.given.lookup (.kind k) := by
    rw [give, List.lookup_cons, beq_false_of_ne (Ne.symm hne)]
  unfold current nameOf?
  rw [hlookup]
  cases naming.given.lookup (.kind k) with
  | none => rfl
  | some name => rfl

end Naming

/-! ### One registration -/

namespace Registry

variable {registry next : Registry} {naming naming' : Naming} {request : RegistrationRequest}
  {k : Kind}

/-- A registration gives a kind the name it asks for, and otherwise leaves the name as it is. -/
theorem current_of_register (hname : IsRegistrable (naming.current k))
    (hregister : registry.register naming request = .ok (next, naming')) :
    naming'.current k = (request.renames? k).getD (naming.current k) := by
  unfold register at hregister
  split at hregister
  · cases hregister
  next schema hschema =>
    simp only at hregister
    split at hregister
    · cases hregister
    next hsigil =>
      cases hregister
      by_cases hkind : schema = .kind k
      · subst hkind
        rw [Naming.current_give_self, RegistrationRequest.renames?, if_pos hschema]
        rw [Naming.nameOf?_kind, nonempty?_some hname.1] at hsigil ⊢
        cases hasked : nonempty? request.name with
        | none => rfl
        | some name =>
            rw [hasked] at hsigil
            have hallowed : name.startsWith (String.singleton sigil) = false := by
              exact eq_false_of_ne_true hsigil
            rw [Option.filter_some, hallowed]
            rfl
      · have hother : request.schema ≠ some (.kind k) := by
          rw [hschema]
          exact fun h => hkind (Option.some.inj h)
        rw [Naming.current_give_of_ne _ _ hkind, RegistrationRequest.renames?_of_ne hother]
        rfl

/-- What is refused would not have given a name either. -/
theorem renames?_of_refused {e : RegistrationError} (hname : IsRegistrable (naming.current k))
    (hregister : registry.register naming request = .error e) : request.renames? k = none := by
  by_cases hschema : request.schema = some (.kind k)
  · unfold register at hregister
    rw [hschema] at hregister
    simp only [Naming.nameOf?_kind, nonempty?_some hname.1] at hregister
    rw [RegistrationRequest.renames?, if_pos hschema]
    cases hasked : nonempty? request.name with
    | none => rfl
    | some name =>
        rw [hasked] at hregister
        split at hregister
        next hsigil =>
          have hrefused : name.startsWith (String.singleton sigil) = true := hsigil
          rw [Option.filter_some, hrefused]
          rfl
        · cases hregister
  · exact RegistrationRequest.renames?_of_ne hschema

theorem isRegistrable_renames? {name : String} (hname : request.renames? k = some name) :
    IsRegistrable name := by
  unfold RegistrationRequest.renames? at hname
  split at hname
  · obtain ⟨hasked, hsigil⟩ := Option.filter_eq_some_iff.1 hname
    exact ⟨ne_empty_of_nonempty? hasked, by simpa using hsigil⟩
  · cases hname

/-! ### A registry of all kinds, whatever they are called -/

/-- What a kind is registered with under a name of its own. -/
def registrationAs (k : Kind) (name : String) : Registration :=
  { k.registration with name }

def addKind (registry : Registry) (k : Kind) (name : String) : Registry :=
  { registry with
    registrations := Entries.insert registry.registrations name (registrationAs k name) }

theorem register_current (registry : Registry) (hname : IsRegistrable (naming.current k)) :
    registry.register naming { schema := some (.kind k), handler := some k } =
      .ok (registry.addKind k (naming.current k), naming.give (.kind k) (naming.current k)) := by
  have hcurrent : ((nonempty? none).or (nonempty? (naming.nameOf? (.kind k)))).getD
      (Schema.kind k).title = naming.current k := by
    rw [Naming.nameOf?_kind, nonempty?_some hname.1]
    rfl
  exact register_of_name rfl hcurrent hname.2

theorem builtin_eq_foldl (hnames : ∀ k, IsRegistrable (naming.current k)) (maxDepth : Int) :
    builtin naming maxDepth =
      Kind.all.foldl (fun registry k => registry.addKind k (naming.current k)) (empty maxDepth) := by
  unfold builtin
  congr 1
  funext registry k
  rw [register_current registry (hnames k)]

/-- Of the kinds that go by one name the last one counts. -/
theorem get?_builtin_naming (hnames : ∀ k, IsRegistrable (naming.current k)) (maxDepth : Int)
    (key : String) :
    (builtin naming maxDepth).get? key =
      (Kind.all.reverse.find? (naming.current · == key)).map (registrationAs · key) := by
  have hfold (ks : List Kind) (registry : Registry) :
      (ks.foldl (fun registry k => registry.addKind k (naming.current k)) registry).get? key =
        ((ks.reverse.find? (naming.current · == key)).map (registrationAs · key)).or
          (registry.get? key) := by
    induction ks generalizing registry with
    | nil => rfl
    | cons k rest ih =>
        rw [List.foldl_cons, ih, get?, addKind, Entries.get?_insert, List.reverse_cons,
          List.find?_append]
        by_cases hk : key = naming.current k
        · subst hk
          cases rest.reverse.find? (naming.current · == naming.current k) with
          | none => simp
          | some k' => rfl
        · have hbeq : (naming.current k == key) = false := beq_false_of_ne (Ne.symm hk)
          simp [hk, hbeq, get?]
  rw [builtin_eq_foldl hnames, hfold]
  exact Option.or_none

theorem builtin_eq_table (hnames : ∀ k, naming.current k = k.name) (maxDepth : Int) :
    builtin naming maxDepth = ⟨Kind.all.map fun k => (k.name, k.registration), maxDepth⟩ := by
  have hfold (ks : List Kind) (entries : Entries Registration) :
      ks.foldl (fun registry k => registry.addKind k (naming.current k))
          (Registry.mk entries maxDepth) =
        ⟨Entries.update entries (ks.map fun k => (k.name, k.registration)), maxDepth⟩ := by
    induction ks generalizing entries with
    | nil => rfl
    | cons k rest ih =>
        rw [List.foldl_cons, hnames, addKind, ih]
        rfl
  have hdistinct : ((Kind.all.map fun k => (k.name, k.registration)).map (·.1)).Nodup := by
    rw [List.map_map]
    decide +kernel
  have hregistrable (k : Kind) : IsRegistrable (naming.current k) := by
    rw [hnames]
    exact k.isRegistrable_name
  rw [builtin_eq_foldl hregistrable, empty, hfold]
  exact congrArg (Registry.mk · maxDepth) (Entries.ofList_of_nodup hdistinct)

/-- A kind is registered under its own name only if it goes by that name. -/
theorem current_of_get?_builtin (hnames : ∀ k, IsRegistrable (naming.current k)) {maxDepth : Int}
    (hget : (builtin naming maxDepth).get? k.name = some k.registration) :
    naming.current k = k.name := by
  rw [get?_builtin_naming hnames, Option.map_eq_some_iff] at hget
  obtain ⟨k', hfound, hregistration⟩ := hget
  have hschema : Schema.kind k' = .kind k := congrArg Registration.schema hregistration
  cases hschema
  have hcurrent : (naming.current k == k.name) = true := by
    have hsome := List.find?_some hfound
    exact hsome
  exact beq_iff_eq.1 hcurrent

end Registry

/-! ### Several registries -/

/-- Registries, of which there are as many as are needed, and the names that they share. -/
structure Registries where
  member : Nat → Registry
  naming : Naming

namespace Registries

/-- All registries are empty and every kind goes by its own name. -/
def initial (maxDepth : Nat → Int) : Registries :=
  ⟨fun i => .empty (maxDepth i), .initial⟩

/-- A registration in one of them.  If it is refused nothing changes. -/
def register (rs : Registries) (i : Nat) (request : RegistrationRequest) : Registries :=
  match (rs.member i).register rs.naming request with
  | .ok (next, naming) => ⟨Function.update rs.member i next, naming⟩
  | .error _ => rs

/-- What a sequence of registrations leaves, each in some registry. -/
def after (rs : Registries) (calls : List (Nat × RegistrationRequest)) : Registries :=
  calls.foldl (fun rs call => rs.register call.1 call.2) rs

variable {rs : Registries} {k : Kind}

theorem member_register_of_ne (rs : Registries) {i j : Nat} (hne : j ≠ i)
    (request : RegistrationRequest) : (rs.register i request).member j = rs.member j := by
  unfold register
  split
  · exact Function.update_of_ne hne _ _
  · rfl

theorem current_register (hname : IsRegistrable (rs.naming.current k)) (i : Nat)
    (request : RegistrationRequest) :
    (rs.register i request).naming.current k =
      (request.renames? k).getD (rs.naming.current k) := by
  unfold register
  split
  next hregister => exact Registry.current_of_register hname hregister
  next hrefused =>
    rw [Registry.renames?_of_refused hname hrefused]
    rfl

theorem isRegistrable_register (hname : IsRegistrable (rs.naming.current k)) (i : Nat)
    (request : RegistrationRequest) :
    IsRegistrable ((rs.register i request).naming.current k) := by
  rw [current_register hname]
  cases hasked : request.renames? k with
  | none => exact hname
  | some name => exact Registry.isRegistrable_renames? hasked

/-- The last name that was asked for and not refused is the one by which a kind goes. -/
theorem current_after (hname : IsRegistrable (rs.naming.current k))
    (calls : List (Nat × RegistrationRequest)) :
    IsRegistrable ((rs.after calls).naming.current k) ∧
      (rs.after calls).naming.current k =
        (((calls.map (·.2)).filterMap (·.renames? k)).getLast?).getD (rs.naming.current k) := by
  induction calls generalizing rs with
  | nil => exact ⟨hname, rfl⟩
  | cons call rest ih =>
      obtain ⟨hregistrable, hcurrent⟩ := ih (isRegistrable_register hname call.1 call.2)
      refine ⟨hregistrable, ?_⟩
      calc (rs.after (call :: rest)).naming.current k
          = (((rest.map (·.2)).filterMap (·.renames? k)).getLast?).getD
              ((call.2.renames? k).getD (rs.naming.current k)) := by
            rw [← current_register hname call.1 call.2]
            exact hcurrent
        _ = _ := by
            rw [List.map_cons, List.filterMap_cons]
            cases call.2.renames? k with
            | none => rfl
            | some name =>
                rw [List.getLast?_cons]
                rfl

/-- The registration of a kind with its handler, under the name that it has. -/
def kindCall (i : Nat) (k : Kind) : Nat × RegistrationRequest :=
  (i, { schema := some (.kind k), handler := some k })

/-- The registrations that fill a registry with all kinds. -/
def allKinds (i : Nat) : List (Nat × RegistrationRequest) :=
  Kind.all.map (kindCall i)

/-- To fill a registry with all kinds takes up their names and leaves them as they are. -/
theorem after_allKinds (hnames : ∀ k, IsRegistrable (rs.naming.current k)) {i : Nat} {maxDepth : Int}
    (hempty : rs.member i = .empty maxDepth) :
    (rs.after (allKinds i)).member i = .builtin rs.naming maxDepth ∧
      ∀ k, (rs.after (allKinds i)).naming.current k = rs.naming.current k := by
  -- all the while the names are what they were before the first kind was registered
  have hfold (ks : List Kind) (between : Registries)
      (hbetween : ∀ k, between.naming.current k = rs.naming.current k) :
      (between.after (ks.map (kindCall i))).member i =
          ks.foldl (fun registry k => registry.addKind k (rs.naming.current k)) (between.member i) ∧
        ∀ k, (between.after (ks.map (kindCall i))).naming.current k = rs.naming.current k := by
    induction ks generalizing between with
    | nil => exact ⟨rfl, hbetween⟩
    | cons k rest ih =>
        have hregistrable : IsRegistrable (between.naming.current k) := by
          rw [hbetween]
          exact hnames k
        have hstep : between.register i (kindCall i k).2 =
            ⟨Function.update between.member i ((between.member i).addKind k (rs.naming.current k)),
              between.naming.give (.kind k) (rs.naming.current k)⟩ := by
          rw [register, kindCall, Registry.register_current _ hregistrable, hbetween]
        have hnext (k' : Kind) : (between.naming.give (.kind k) (rs.naming.current k)).current k' =
            rs.naming.current k' := by
          by_cases hk : k = k'
          · rw [hk, Naming.current_give_self]
          · rw [Naming.current_give_of_ne _ _ fun h => hk (Schema.kind.inj h), hbetween]
        obtain ⟨hmember, hcurrent⟩ := ih (between.register i (kindCall i k).2) (by
          rw [hstep]
          exact hnext)
        refine ⟨hmember.trans ?_, hcurrent⟩
        rw [hstep]
        simp only [Function.update_self, List.foldl_cons]
  have hall := hfold Kind.all rs fun _ => rfl
  rwa [hempty, ← Registry.builtin_eq_foldl hnames, ← allKinds] at hall

/-- How far registries depend on each other.

After any registrations, one more in some registry changes no other one.  A registry that is then
filled with all kinds knows each by the last name that was given to it, and of kinds with the same
name it knows the last; so it is the table of the kinds under their own names, with their own schemas
and handlers, exactly if the last name that any kind was given is its own. -/
theorem independent_iff (maxDepth : Nat → Int) (calls : List (Nat × RegistrationRequest)) :
    let rs := (initial maxDepth).after calls
    let nameOf := fun k : Kind => k.nameAfter (calls.map (·.2))
    (∀ i request j, j ≠ i → (rs.register i request).member j = rs.member j) ∧
    (∀ i d, rs.member i = .empty d →
      (rs.after (allKinds i)).member i = .builtin rs.naming d ∧
      ∀ k, (rs.after (allKinds i)).naming.current k = nameOf k) ∧
    (∀ d key, (Registry.builtin rs.naming d).get? key =
      (Kind.all.reverse.find? (nameOf · == key)).map (Registry.registrationAs · key)) ∧
    ((∀ d, Registry.builtin rs.naming d =
        ⟨Kind.all.map fun k => (k.name, k.registration), d⟩) ↔
      ∀ k, nameOf k = k.name) := by
  intro rs nameOf
  have hrun (k : Kind) := @current_after (initial maxDepth) k k.isRegistrable_name calls
  have hnames (k : Kind) : IsRegistrable (rs.naming.current k) := (hrun k).1
  have hcurrent (k : Kind) : rs.naming.current k = nameOf k := (hrun k).2
  have hnameOf : nameOf = rs.naming.current := funext fun k => (hcurrent k).symm
  refine ⟨fun i request j hne => member_register_of_ne rs hne request, ?_, ?_, ?_, ?_⟩
  · intro i d hempty
    rw [hnameOf]
    exact after_allKinds hnames hempty
  · intro d key
    rw [hnameOf]
    exact Registry.get?_builtin_naming hnames d key
  · intro htable k
    have hinitial : Registry.builtin .initial 0 = Registry.builtin rs.naming 0 := by
      rw [htable 0]
      exact Registry.builtin_eq_table (fun _ => rfl) 0
    rw [hnameOf]
    apply Registry.current_of_get?_builtin hnames
    rw [← hinitial]
    exact Registry.get?_builtin 0 k
  · intro hown d
    apply Registry.builtin_eq_table
    intro k
    rw [hcurrent, hown]

end Registries

end Pagescript
