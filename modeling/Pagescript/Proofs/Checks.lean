import Mathlib.Data.List.Forall2
import Pagescript.Proofs.Provenance
/-!
# Checks that pass

Which values each reader accepts, said without the issues that it lists for the others, and what it
reads them as.  A check that is put together from others passes if all of them do.
-/

namespace Pagescript

/-! ### Checks that pass -/

namespace Check

variable {α β : Type}

/-- The check finds nothing wrong. -/
def IsValid (c : Check α) : Prop :=
  ∃ a, c = .valid a

@[simp]
theorem isValid_valid (a : α) : (valid a).IsValid := ⟨a, rfl⟩

@[simp]
theorem isValid_pure (a : α) : (pure a : Check α).IsValid := ⟨a, rfl⟩

@[simp]
theorem not_isValid_invalid (issues : List Issue) : ¬ (invalid issues : Check α).IsValid := by
  rintro ⟨a, ha⟩
  cases ha

@[simp]
theorem not_isValid_fail (complaint : Complaint) : ¬ (fail complaint : Check α).IsValid :=
  not_isValid_invalid _

@[simp]
theorem isValid_map {f : α → β} {c : Check α} : (f <$> c).IsValid ↔ c.IsValid := by
  change (map f c).IsValid ↔ _
  cases c <;> simp [map]

@[simp]
theorem isValid_seq {f : Check (α → β)} {c : Check α} :
    (f <*> c).IsValid ↔ f.IsValid ∧ c.IsValid := by
  change (seq f fun _ => c).IsValid ↔ _
  cases f <;> cases c <;> simp [seq, map]

@[simp]
theorem isValid_seqLeft {c : Check α} {d : Check β} :
    (c <* d).IsValid ↔ c.IsValid ∧ d.IsValid := by
  change (seq (map (Function.const β) c) fun _ => d).IsValid ↔ _
  cases c <;> cases d <;> simp [seq, map]

@[simp]
theorem isValid_under {segment : Segment} {c : Check α} : (c.under segment).IsValid ↔ c.IsValid := by
  cases c <;> simp [under]

end Check

namespace Entries

variable {α : Type} {entries : Entries α} {key : String}

theorem contains_iff : contains entries key = true ↔ ∃ v, get? entries key = some v := by
  induction entries with
  | nil => simp [contains]
  | cons entry rest ih =>
      obtain ⟨k, v⟩ := entry
      rw [get?_cons]
      by_cases hk : key = k
      · simp [contains, hk]
      · rw [if_neg hk, ← ih]
        simp [contains, Ne.symm hk]

theorem exists_get?_of_mem {entry : String × α} (hentry : entry ∈ entries) :
    ∃ v, get? entries entry.1 = some v :=
  contains_iff.1 (List.any_eq_true.2 ⟨entry, hentry, beq_self_eq_true _⟩)

theorem mem_keys_iff : key ∈ entries.map (·.1) ↔ ∃ v, get? entries key = some v := by
  rw [← contains_iff, contains, List.any_eq_true]
  simp

end Entries

namespace Reader

open Check

variable {α : Type} {reader : Reader α} {v : Value} {fields : Fields} {key : String}

theorem isValid_text : (text v).IsValid ↔ ∃ s, v = .text s := by
  cases v <;> simp [text]

theorem isValid_required :
    (required fields key reader).IsValid ↔
      ∃ v, Entries.get? fields key = some v ∧ (reader v).IsValid := by
  rw [required, isValid_under]
  cases Entries.get? fields key with
  | none => simp
  | some v => simp

theorem isValid_withDefault {default : α} :
    (withDefault fields key default reader).IsValid ↔
      ∀ v, Entries.get? fields key = some v → (reader v).IsValid := by
  rw [withDefault]
  cases Entries.get? fields key with
  | none => simp
  | some v => simp

theorem isValid_onlyFields {known : List String} :
    (onlyFields fields known).IsValid ↔ ∀ entry ∈ fields, entry.1 ∈ known := by
  rw [onlyFields]
  split
  next hnone => simpa [List.filter_eq_nil_iff] using hnone
  next hsome =>
    simp only [not_isValid_invalid, false_iff]
    intro hknown
    refine hsome (List.filter_eq_nil_iff.2 fun entry hentry => ?_)
    simpa using hknown entry hentry

theorem isValid_nullable : (nullable reader v).IsValid ↔ v = .null ∨ (reader v).IsValid := by
  unfold nullable
  split
  · simp
  next hnull =>
    change (some <$> reader v).IsValid ↔ _
    rw [isValid_map, or_iff_right hnull]

theorem isValid_items {start : Nat} {vs : List Value} :
    (items reader start vs).IsValid ↔ ∀ v ∈ vs, (reader v).IsValid := by
  induction vs generalizing start with
  | nil => simp [items]
  | cons v rest ih => simp [items, ih]

theorem isValid_listOf {form : Notation} :
    (listOf form reader v).IsValid ↔ ∃ vs, v = .list vs ∧ ∀ v ∈ vs, (reader v).IsValid := by
  cases v <;> simp [listOf, isValid_items]

theorem isValid_entries :
    (entries reader fields).IsValid ↔ ∀ entry ∈ fields, (reader entry.2).IsValid := by
  induction fields with
  | nil => simp [entries]
  | cons entry rest ih =>
      obtain ⟨k, v⟩ := entry
      rw [entries, isValid_seq, ih]
      change (List.cons <$> ((k, ·) <$> (reader v).under (.key k))).IsValid ∧ _ ↔ _
      simp

theorem isValid_mappingOf {form : Notation} :
    (mappingOf form reader v).IsValid ↔
      ∃ fields, v = .mapping fields ∧ ∀ entry ∈ fields, (reader entry.2).IsValid := by
  cases v with
  | mapping fields =>
      change (Entries.ofList <$> entries reader fields).IsValid ↔ _
      simp [isValid_entries]
  | _ => simp [mappingOf]

end Reader

/-! ### What is read -/

namespace Check

variable {α β : Type}

theorem map_eq_valid_iff {f : α → β} {c : Check α} {b : β} :
    f <$> c = .valid b ↔ ∃ a, c = .valid a ∧ f a = b := by
  change map f c = _ ↔ _
  cases c <;> simp [map]

theorem seq_eq_valid_iff {f : Check (α → β)} {c : Check α} {b : β} :
    f <*> c = .valid b ↔ ∃ g a, f = .valid g ∧ c = .valid a ∧ g a = b := by
  change seq f (fun _ => c) = _ ↔ _
  cases f <;> cases c <;> simp [seq, map]

theorem seqLeft_eq_valid_iff {c : Check α} {d : Check β} {a : α} :
    c <* d = .valid a ↔ c = .valid a ∧ d.IsValid := by
  change seq (map (Function.const β) c) (fun _ => d) = _ ↔ _
  cases c <;> cases d <;> simp [seq, map]

@[simp]
theorem under_eq_valid_iff {segment : Segment} {c : Check α} {a : α} :
    c.under segment = .valid a ↔ c = .valid a := by
  cases c <;> simp [under]

end Check

namespace Reader

variable {α : Type} {reader : Reader α} {v : Value} {fields : Fields} {key : String} {a : α}

theorem required_eq_valid_iff :
    required fields key reader = .valid a ↔
      ∃ v, Entries.get? fields key = some v ∧ reader v = .valid a := by
  rw [required, Check.under_eq_valid_iff]
  cases Entries.get? fields key with
  | none => simp [Check.fail]
  | some v => simp

theorem withDefault_eq_valid_iff {default : α} :
    withDefault fields key default reader = .valid a ↔
      (Entries.get? fields key = none ∧ default = a) ∨
        ∃ v, Entries.get? fields key = some v ∧ reader v = .valid a := by
  rw [withDefault]
  cases Entries.get? fields key with
  | none => simp
  | some v => simp

theorem nullable_eq_valid_iff {o : Option α} :
    nullable reader v = .valid o ↔
      (v = .null ∧ o = none) ∨ v ≠ .null ∧ ∃ a, reader v = .valid a ∧ some a = o := by
  unfold nullable
  split
  · simp [eq_comm]
  next hnull =>
    have hv : v ≠ .null := hnull
    change some <$> reader v = .valid o ↔ _
    simp [Check.map_eq_valid_iff, hv]

theorem forall₂_of_items {start : Nat} {vs : List Value} {as : List α}
    (hread : items reader start vs = .valid as) :
    List.Forall₂ (fun v a => reader v = .valid a) vs as := by
  induction vs generalizing start as with
  | nil =>
      cases hread
      exact .nil
  | cons v rest ih =>
      obtain ⟨g, as', hhead, hrest, rfl⟩ := Check.seq_eq_valid_iff.1 hread
      obtain ⟨a, ha, rfl⟩ := Check.map_eq_valid_iff.1 hhead
      exact .cons (Check.under_eq_valid_iff.1 ha) (ih hrest)

theorem forall₂_of_listOf {form : Notation} {as : List α}
    (hread : listOf form reader v = .valid as) :
    ∃ vs, v = .list vs ∧ List.Forall₂ (fun v a => reader v = .valid a) vs as := by
  cases v with
  | list vs => exact ⟨vs, rfl, forall₂_of_items hread⟩
  | _ => cases hread

theorem forall₂_of_entries {read : List (String × α)}
    (hread : entries reader fields = .valid read) :
    List.Forall₂ (fun entry item => entry.1 = item.1 ∧ reader entry.2 = .valid item.2)
      fields read := by
  induction fields generalizing read with
  | nil =>
      cases hread
      exact .nil
  | cons entry rest ih =>
      obtain ⟨key, v⟩ := entry
      obtain ⟨g, read', hhead, hrest, rfl⟩ := Check.seq_eq_valid_iff.1 hread
      obtain ⟨item, hitem, rfl⟩ := Check.map_eq_valid_iff.1 hhead
      obtain ⟨a, ha, rfl⟩ := Check.map_eq_valid_iff.1 hitem
      exact .cons ⟨rfl, Check.under_eq_valid_iff.1 ha⟩ (ih hrest)

theorem forall₂_of_mappingOf {form : Notation} {read : Entries α}
    (hread : mappingOf form reader v = .valid read) :
    ∃ fields items, v = .mapping fields ∧ read = Entries.ofList items ∧
      List.Forall₂ (fun entry item => entry.1 = item.1 ∧ reader entry.2 = .valid item.2)
        fields items := by
  cases v with
  | mapping fields =>
      change Entries.ofList <$> entries reader fields = .valid read at hread
      obtain ⟨items, hitems, rfl⟩ := Check.map_eq_valid_iff.1 hread
      exact ⟨fields, items, rfl, rfl, forall₂_of_entries hitems⟩
  | _ => cases hread

end Reader

/-! ### Plain fields -/

/-- A sigil and a name. -/
def IsReference (s : String) : Prop :=
  ∃ name, Readable name ∧ s = reference name

/-- A number of seconds that is not below zero; an integer may not be beyond the finite numbers. -/
inductive IsDuration : Value → Prop where
  | int {i : Int} (hi : 0 ≤ i) (hfinite : (Binary64.ofInt i).isFinite = true) : IsDuration (.int i)
  | float {x : Binary64} (hx : Binary64.zero.le x = true) : IsDuration (.float x)

/-- A truth value, zero or one, or a word that stands for a truth value in small or large letters. -/
inductive IsFlag : Value → Prop where
  | bool (b : Bool) : IsFlag (.bool b)
  | int {i : Int} (hi : i = 0 ∨ i = 1) : IsFlag (.int i)
  | float {x : Binary64} (hx : x.isInt 0 = true ∨ x.isInt 1 = true) : IsFlag (.float x)
  | word {s : String} (hs : s.toLower ∈ ["0", "off", "f", "false", "n", "no", "1", "on", "t", "true",
    "y", "yes"]) : IsFlag (.text s)

namespace Binary64

theorem one_pos : 0 < one := by
  unfold one
  generalize 1074 = exponent
  exact Nat.two_pow_pos exponent

/-- The number nearest to an integer has its sign, and is zero only for zero. -/
theorem ofInt_cases (i : Int) :
    ofInt i = .infinite (decide (i < 0)) ∨
      ∃ units, ofInt i = .finite (decide (i < 0)) units ∧ (i < 0 → 0 < units) := by
  have hunits (hi : i < 0) : 0 < roundSteps (i.natAbs * one) 1 :=
    roundSteps_pos (Nat.mul_pos (by omega) one_pos)
  unfold ofInt ofSteps
  simp only
  split
  · exact .inr ⟨_, rfl, hunits⟩
  · exact .inl rfl

theorem zero_le_finite_iff {negative : Bool} {units : Nat} :
    zero.le (.finite negative units) = true ↔ 0 ≤ signed negative units := by
  simp only [le, lt, same, zero, signed, Bool.or_eq_true]
  split <;> simp <;> omega

theorem exists_ofInt?_iff {i : Int} :
    (∃ x, ofInt? i = some x ∧ zero.le x = true) ↔ 0 ≤ i ∧ (ofInt i).isFinite = true := by
  have hcases := ofInt_cases i
  unfold ofInt?
  generalize ofInt i = y at hcases ⊢
  obtain rfl | ⟨units, rfl, hpos⟩ := hcases
  · simp [isFinite, bounded?]
  · have hsign : 0 ≤ signed (decide (i < 0)) units ↔ 0 ≤ i := by
      by_cases hi : i < 0
      · have := hpos hi
        simp [signed, hi]
        omega
      · simp [signed, hi]
        omega
    simp [isFinite, bounded?, zero_le_finite_iff, hsign]

theorem signed_mul (negative : Bool) (n q : Nat) :
    signed negative (n * q) = signed negative q * n := by
  cases negative with
  | false =>
      change ((n * q : Nat) : Int) = q * n
      rw [Int.natCast_mul, Int.mul_comm]
  | true =>
      change -((n * q : Nat) : Int) = -(q : Int) * n
      rw [Int.natCast_mul, Int.mul_comm, Int.neg_mul]

theorem signed_eq_mul_iff {negative : Bool} {units n : Nat} {i : Int} (hn : 0 < n) :
    signed negative units = i * n ↔ units % n = 0 ∧ signed negative (units / n) = i := by
  constructor
  · intro hsigned
    have hdvd : (n : Int) ∣ signed negative units := ⟨i, by rw [hsigned, Int.mul_comm]⟩
    obtain ⟨q, rfl⟩ : n ∣ units := by
      cases negative
      · exact Int.natCast_dvd_natCast.1 hdvd
      · exact Int.natCast_dvd_natCast.1 (Int.dvd_neg.1 hdvd)
    rw [signed_mul] at hsigned
    rw [Nat.mul_mod_right, Nat.mul_div_cancel_left q hn]
    exact ⟨rfl, Int.eq_of_mul_eq_mul_right (by omega) hsigned⟩
  · rintro ⟨hwhole, rfl⟩
    rw [← signed_mul, Nat.mul_div_cancel' (Nat.dvd_of_mod_eq_zero hwhole)]

theorem isInt_iff {negative : Bool} {units : Nat} {i : Int} :
    (finite negative units).isInt i = true ↔
      isWhole units = true ∧ truncate negative units = i := by
  simp only [isInt, isWhole, truncate, decide_eq_true_eq]
  exact signed_eq_mul_iff one_pos

end Binary64

namespace Reader

open Check

variable {v : Value}

theorem isValid_nonemptyText : (nonemptyText v).IsValid ↔ ∃ s, v = .text s ∧ s ≠ "" := by
  cases v with
  | text s =>
      simp only [nonemptyText, Value.text.injEq, exists_eq_left', ne_eq, ← String.isEmpty_iff]
      cases s.isEmpty <;> simp
  | _ => simp [nonemptyText]

theorem isValid_referenceText : (referenceText v).IsValid ↔ ∃ s, v = .text s ∧ IsReference s := by
  cases v with
  | text s =>
      simp only [Value.text.injEq, exists_eq_left']
      constructor
      · rintro ⟨name, hname⟩
        obtain rfl := eq_reference_of_referenceText hname
        exact ⟨name, exists_referenceText_iff.1 ⟨name, hname⟩, rfl⟩
      · rintro ⟨name, hname, rfl⟩
        exact exists_referenceText_iff.2 hname
  | _ => simp [referenceText]

theorem isValid_literal {expected : String} :
    (literal expected v).IsValid ↔ v = .text expected := by
  cases v with
  | text s =>
      simp only [literal, Value.text.injEq]
      split <;> simp_all
  | _ => simp [literal]

theorem isValid_notBelowZero {x : Option Binary64} :
    (notBelowZero x).IsValid ↔ ∃ y, x = some y ∧ Binary64.zero.le y = true := by
  cases x with
  | none => simp [notBelowZero]
  | some y =>
      simp only [notBelowZero, Option.some.injEq, exists_eq_left']
      split <;> simp_all

theorem isValid_duration : (duration v).IsValid ↔ IsDuration v := by
  cases v with
  | int i =>
      rw [duration, isValid_notBelowZero, Binary64.exists_ofInt?_iff]
      constructor
      · exact fun h => .int h.1 h.2
      · intro h
        cases h with
        | int hi hfinite => exact ⟨hi, hfinite⟩
  | float x =>
      rw [duration, isValid_notBelowZero]
      constructor
      · rintro ⟨y, hy, hx⟩
        cases hy
        exact .float hx
      · intro h
        cases h with
        | float hx => exact ⟨x, rfl, hx⟩
  | _ => exact iff_of_false (not_isValid_fail _) (by rintro ⟨⟩)

theorem isValid_numberFlag {i : Int} : (numberFlag i).IsValid ↔ i = 0 ∨ i = 1 := by
  unfold numberFlag
  split
  · simp_all
  · split <;> simp_all

theorem isValid_flag : (flag v).IsValid ↔ IsFlag v := by
  cases v with
  | bool b => exact ⟨fun _ => .bool b, fun _ => isValid_valid b⟩
  | int i =>
      have hflag : (flag (.int i)).IsValid ↔ i = 0 ∨ i = 1 := by
        have hbound : Int.pow 2 63 = 9223372036854775808 := rfl
        simp only [flag, hbound, Bool.and_eq_true, decide_eq_true_eq]
        split
        · exact isValid_numberFlag
        · simp
          omega
      rw [hflag]
      constructor
      · exact .int
      · intro h
        cases h with
        | int hi => exact hi
  | float x =>
      have hflag : (flag (.float x)).IsValid ↔ x.isInt 0 = true ∨ x.isInt 1 = true := by
        cases x with
        | finite negative units =>
            have hbound : Nat.pow 2 63 = 9223372036854775808 := rfl
            simp only [flag, hbound, Bool.and_eq_true, decide_eq_true_eq, Binary64.isInt_iff]
            split
            next hwhole =>
              rw [isValid_numberFlag]
              simp [hwhole.1]
            next hnot =>
              simp only [not_isValid_fail, false_iff]
              rintro (⟨hwhole, hi⟩ | ⟨hwhole, hi⟩)
              · exact hnot ⟨hwhole, by omega⟩
              · exact hnot ⟨hwhole, by omega⟩
        | _ => simp [flag, Binary64.isInt]
      rw [hflag]
      constructor
      · exact .float
      · intro h
        cases h with
        | float hx => exact hx
  | text s =>
      have hflag : (flag (.text s)).IsValid ↔ ∃ b, Entries.get? flagWords s.toLower = some b := by
        simp only [flag, Entries.get?]
        cases List.lookup s.toLower flagWords with
        | none => simp
        | some b => simp
      rw [hflag, ← Entries.mem_keys_iff]
      constructor
      · exact .word
      · intro h
        cases h with
        | word hs => exact hs
  | _ => exact iff_of_false (not_isValid_fail _) (by rintro ⟨⟩)

end Reader

end Pagescript
