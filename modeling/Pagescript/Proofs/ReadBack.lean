import Pagescript.Json.Writer
import Pagescript.Proofs.Limits
import Pagescript.Proofs.Rounding
/-!
# Values read back

What is written as JSON on one line can be read again.  A value comes back as it was, but for a
tuple, which comes back as a list, and for what JSON has no form for, which comes back as the text of
its literal.  Main statements: `Json.read_render`, and `Json.read_render_of_readWithin` for what has
been read before.
-/

namespace Pagescript

/-! ### What is read back -/

namespace Binary64

/-- The number that the text of a number stands for. -/
def echo : Binary64 → Binary64
  | .finite negative units =>
    if units = 0 then .finite negative 0
    else .ofDecimal negative (Decimal.shortest units).digits (Decimal.shortest units).exponent
  | x => x

/-- A number that can come about: it has been rounded. -/
inductive IsSound : Binary64 → Prop where
  | nan : IsSound .nan
  | infinite (negative : Bool) : IsSound (.infinite negative)
  | finite (negative : Bool) {units : Nat} (hrounded : IsRounded units) (hlimit : units < limit) :
    IsSound (.finite negative units)

theorem isSound_zero (negative : Bool) : (finite negative 0).IsSound :=
  .finite negative (Nat.dvd_zero _) (by decide +kernel)

theorem isSound_ofSteps (negative : Bool) (p q : Nat) : (ofSteps negative p q).IsSound := by
  by_cases hlimit : roundSteps p q < limit
  · rw [ofSteps, if_pos hlimit]
    exact .finite negative (isRounded_roundSteps p q) hlimit
  · rw [ofSteps, if_neg hlimit]
    exact .infinite negative

theorem isSound_ofDecimal (negative : Bool) (digits : Nat) (exponent : Int) :
    (ofDecimal negative digits exponent).IsSound := by
  unfold ofDecimal
  extract_lets magnitude
  split
  · exact isSound_zero negative
  · split
    · exact .infinite negative
    · split
      · exact isSound_zero negative
      · split
        · exact isSound_ofSteps negative _ _
        · exact isSound_ofSteps negative _ _

theorem IsSound.echo_eq {x : Binary64} (hx : x.IsSound) : x.echo = x := by
  cases hx with
  | nan => rfl
  | infinite negative => rfl
  | @finite negative units hrounded hlimit =>
      rw [echo]
      split
      next hzero => rw [hzero]
      next hunits =>
        exact (Decimal.reads_shortest (Nat.pos_of_ne_zero hunits) hlimit hrounded).2 negative

end Binary64

namespace Value

mutual

/-- What a value is read back as. -/
def echo : Value → Value
  | .float x => .float x.echo
  | .list xs | .tuple xs => .list (echoAll xs)
  | .mapping fields => .mapping (echoFields fields)
  | .null => .null
  | .bool b => .bool b
  | .int i => .int i
  | .text s => .text s
  | v => .text v.literal
termination_by structural v => v

def echoAll : List Value → List Value
  | [] => []
  | v :: rest => v.echo :: echoAll rest
termination_by structural vs => vs

def echoFields : List (String × Value) → List (String × Value)
  | [] => []
  | (key, v) :: rest => (key, v.echo) :: echoFields rest
termination_by structural fs => fs

end

mutual

/-- A value of the kinds that JSON has, in which all numbers have been rounded. -/
def Plain : Value → Prop
  | .float x => x.IsSound
  | .list xs => PlainAll xs
  | .mapping fields => PlainFields fields
  | .null | .bool _ | .int _ | .text _ => True
  | _ => False
termination_by structural v => v

def PlainAll : List Value → Prop
  | [] => True
  | v :: rest => v.Plain ∧ PlainAll rest
termination_by structural vs => vs

def PlainFields : List (String × Value) → Prop
  | [] => True
  | (_, v) :: rest => v.Plain ∧ PlainFields rest
termination_by structural fs => fs

end

mutual

/-- What JSON has comes back as it is. -/
theorem echo_eq_of_plain : (v : Value) → (v.Plain → v.echo = v)
  | .float _ => fun h => congrArg float (Binary64.IsSound.echo_eq h)
  | .list xs => fun h => congrArg list (echoAll_eq_of_plain xs h)
  | .mapping fields => fun h => congrArg mapping (echoFields_eq_of_plain fields h)
  | .null | .bool _ | .int _ | .text _ => fun _ => rfl
  | .tuple _ | .bytes _ | .date _ | .time _ | .moment _ _ _ | .foreign _ => False.elim
termination_by structural v => v

theorem echoAll_eq_of_plain : (vs : List Value) → (PlainAll vs → echoAll vs = vs)
  | [] => fun _ => rfl
  | v :: rest => fun h => by rw [echoAll, echo_eq_of_plain v h.1, echoAll_eq_of_plain rest h.2]
termination_by structural vs => vs

theorem echoFields_eq_of_plain : (fields : List (String × Value)) →
    (PlainFields fields → echoFields fields = fields)
  | [] => fun _ => rfl
  | (key, v) :: rest => fun h => by
      rw [echoFields, echo_eq_of_plain v h.1, echoFields_eq_of_plain rest h.2]
termination_by structural fs => fs

end

theorem plainAll_iff {vs : List Value} : PlainAll vs ↔ ∀ v ∈ vs, v.Plain := by
  induction vs with
  | nil => simp [PlainAll]
  | cons v rest ih => rw [PlainAll, ih, List.forall_mem_cons]

theorem plainFields_iff {fields : List (String × Value)} :
    PlainFields fields ↔ ∀ entry ∈ fields, entry.2.Plain := by
  induction fields with
  | nil => simp [PlainFields]
  | cons entry rest ih => rw [PlainFields, ih, List.forall_mem_cons]

end Value

namespace Json

/-! ### Digits -/

/-- What follows does not go on with a number. -/
def Ends (rest : List Char) : Prop :=
  ∀ c ∈ rest.head?, c.isDigit = false ∧ c ≠ '.' ∧ c ≠ 'e' ∧ c ≠ 'E'

/-- Digits that make up a whole number, without a zero in front. -/
structure Whole (ds : List Char) : Prop where
  digits : ∀ c ∈ ds, c.isDigit = true
  nonempty : ds ≠ []
  leading : ds.head? = some '0' → ds.length = 1

theorem whole_zero : Whole ['0'] :=
  ⟨List.forall_mem_singleton.2 rfl, List.cons_ne_nil _ _, fun _ => rfl⟩

theorem takeWhile_digits {ds rest : List Char} (hds : ∀ c ∈ ds, c.isDigit = true)
    (hrest : ∀ c ∈ rest.head?, c.isDigit = false) :
    (ds ++ rest).takeWhile Char.isDigit = ds ∧ (ds ++ rest).dropWhile Char.isDigit = rest := by
  have hstop : rest.takeWhile Char.isDigit = [] ∧ rest.dropWhile Char.isDigit = rest := by
    cases rest with
    | nil => exact ⟨rfl, rfl⟩
    | cons c rest => simp [hrest c rfl]
  rw [List.takeWhile_append_of_pos hds, List.dropWhile_append_of_pos hds, hstop.1, hstop.2,
    List.append_nil]
  exact ⟨rfl, rfl⟩

/-- The digits of a positive number do not begin with a zero. -/
theorem head?_toDigits_ne {n : Nat} (hn : 0 < n) : (Nat.toDigits 10 n).head? ≠ some '0' := by
  induction n using Nat.strongRecOn with
  | ind n ih =>
      rcases Nat.lt_or_ge n 10 with hsmall | hlarge
      · rw [Nat.toDigits_of_lt_base hsmall, List.head?_singleton]
        intro hzero
        exact Nat.ne_of_gt hn (Nat.digitChar_eq_zero.1 (Option.some.inj hzero))
      · have hinit := ih (n / 10) (by omega) (by omega)
        obtain ⟨c, cs, hcs⟩ :=
          List.exists_cons_of_ne_nil (Nat.toDigits_ne_nil (n := n / 10) (b := 10))
        rw [Nat.toDigits_of_base_le (by decide) hlarge, hcs]
        rw [hcs] at hinit
        exact hinit

theorem whole_toDigits (n : Nat) : Whole (Nat.toDigits 10 n) := by
  refine ⟨fun c hc => Nat.isDigit_of_mem_toDigits (by decide) (by decide) hc, Nat.toDigits_ne_nil,
    fun hhead => ?_⟩
  rcases Nat.eq_zero_or_pos n with rfl | hn
  · rfl
  · exact absurd hhead (head?_toDigits_ne hn)

theorem number?_eq {cs : List Char} (hcs : cs ≠ []) :
    number? cs = some (Nat.ofDigitChars 10 cs 0) := by
  rw [number?, if_neg hcs, Nat.ofDigitChars_eq_foldl]
  rfl

theorem number?_toDigits (n : Nat) : number? (Nat.toDigits 10 n) = some n := by
  rw [number?_eq Nat.toDigits_ne_nil, Nat.ofDigitChars_ten_toDigits]

/-! ### Numbers -/

variable {limits : Limits} {negative : Bool} {ds rest : List Char}

theorem Whole.guard (hds : Whole ds) :
    (decide (ds = []) || (decide (ds.head? = some '0') && decide (1 < ds.length))) = false := by
  have hlength : ¬ (ds.head? = some '0' ∧ 1 < ds.length) := fun h => by
    have := hds.leading h.1
    omega
  simpa [hds.nonempty] using hlength

theorem exponent_of_ends (hrest : Ends rest) : exponent rest = some (none, rest) := by
  unfold exponent
  split
  next => exact absurd rfl (hrest _ rfl).2.2.1
  next => exact absurd rfl (hrest _ rfl).2.2.2
  next => rfl

/-- A whole number is an integer. -/
theorem unsigned_whole (hlimits : limits.intDigits = none) (hds : Whole ds) (hrest : Ends rest) :
    unsigned limits negative (ds ++ rest) =
      some (.int (if negative then -(Nat.ofDigitChars 10 ds 0 : Int) else Nat.ofDigitChars 10 ds 0),
        rest) := by
  obtain ⟨htake, hdrop⟩ := takeWhile_digits hds.digits fun c hc => (hrest c hc).1
  simp only [unsigned, htake, hdrop, hds.guard, Bool.false_eq_true, if_false]
  split
  next => exact absurd rfl (hrest _ rfl).2.1
  next =>
    simp [exponent_of_ends hrest, number?_eq hds.nonempty, exceeds, hlimits]

/-- A whole number with a fraction or a power of ten is a number with a point. -/
theorem unsigned_fraction (hlimits : limits.wholeDigits = none) (hds : Whole ds)
    {fraction tail : List Char} (hfraction : ∀ c ∈ fraction, c.isDigit = true)
    (hne : fraction ≠ []) {power : Option Int}
    (htail : ∀ c ∈ tail.head?, c.isDigit = false) (hpower : exponent tail = some (power, rest)) :
    unsigned limits negative (ds ++ '.' :: (fraction ++ tail)) =
      some (.float (.ofDecimal negative (Nat.ofDigitChars 10 (ds ++ fraction) 0)
        (power.getD 0 - fraction.length)), rest) := by
  have hpoint : ∀ c ∈ ('.' :: (fraction ++ tail)).head?, c.isDigit = false := by simp
  obtain ⟨htake, hdrop⟩ := takeWhile_digits hds.digits hpoint
  obtain ⟨htake', hdrop'⟩ := takeWhile_digits hfraction htail
  simp only [unsigned, htake, hdrop, hds.guard, Bool.false_eq_true, if_false]
  simp [htake', hdrop', hne, hpower, exceeds, hlimits, number?_eq, hds.nonempty]

theorem unsigned_power (hlimits : limits.wholeDigits = none) (hds : Whole ds) {tail : List Char}
    {power : Int} (htail : ∀ c ∈ tail.head?, c.isDigit = false ∧ c ≠ '.')
    (hpower : exponent tail = some (some power, rest)) :
    unsigned limits negative (ds ++ tail) =
      some (.float (.ofDecimal negative (Nat.ofDigitChars 10 ds 0) power), rest) := by
  obtain ⟨htake, hdrop⟩ := takeWhile_digits hds.digits fun c hc => (htail c hc).1
  simp only [unsigned, htake, hdrop, hds.guard, Bool.false_eq_true, if_false]
  split
  next => exact absurd rfl (htail _ rfl).2
  next => simp [hpower, number?_eq hds.nonempty, exceeds, hlimits]

theorem ofDigitChars_zeros_append (n : Nat) (cs : List Char) :
    Nat.ofDigitChars 10 (NumberFormat.zeros n ++ cs) 0 = Nat.ofDigitChars 10 cs 0 := by
  rw [Nat.ofDigitChars_append, NumberFormat.zeros, Nat.ofDigitChars_replicate_zero, Nat.mul_zero]

/-- A power of ten is read back. -/
theorem exponent_power (lead : Int) (hrest : Ends rest) :
    exponent (NumberFormat.power lead ++ rest) = some (some lead, rest) := by
  have hdigits : ∀ c ∈ Nat.toDigits 10 lead.natAbs, c.isDigit = true :=
    (whole_toDigits lead.natAbs).digits
  have hpadded : ∃ ds, (∀ c ∈ ds, c.isDigit = true) ∧ number? ds = some lead.natAbs ∧
      NumberFormat.power lead = 'e' :: (if lead < 0 then '-' else '+') :: ds := by
    by_cases hshort : (Nat.toDigits 10 lead.natAbs).length < 2
    · refine ⟨'0' :: Nat.toDigits 10 lead.natAbs, ?_, ?_, ?_⟩
      · exact List.forall_mem_cons.2 ⟨by decide, hdigits⟩
      · have hvalue := ofDigitChars_zeros_append 1 (Nat.toDigits 10 lead.natAbs)
        rw [Nat.ofDigitChars_ten_toDigits] at hvalue
        exact (number?_eq (List.cons_ne_nil _ _)).trans (congrArg some hvalue)
      · simp only [NumberFormat.power, hshort, if_true]
    · refine ⟨_, hdigits, number?_toDigits _, ?_⟩
      simp only [NumberFormat.power, hshort, if_false]
  obtain ⟨ds, hds, hnumber, hpower⟩ := hpadded
  obtain ⟨htake, hdrop⟩ := takeWhile_digits hds fun c hc => (hrest c hc).1
  rw [hpower]
  simp only [List.cons_append, exponent]
  by_cases hlead : lead < 0
  · simp only [hlead, if_true, htake, hdrop, hnumber]
    change some (some (-(lead.natAbs : Int)), rest) = _
    rw [Int.ofNat_natAbs_of_nonpos (Int.le_of_lt hlead), Int.neg_neg]
  · simp only [hlead, if_false, htake, hdrop, hnumber, Bool.false_eq_true]
    change some (some (lead.natAbs : Int), rest) = _
    rw [Int.natAbs_of_nonneg (Int.not_lt.1 hlead)]

section Layouts

variable {lead : Int} (hlimits : limits.wholeDigits = none) (hrest : Ends rest) (hds : Whole ds)
  (hhead : ds.head? ≠ some '0')

include hlimits hrest hds

theorem unsigned_below_one (hlead : lead < 0) :
    unsigned limits negative ('0' :: '.' :: (NumberFormat.zeros (-lead - 1).toNat ++ ds) ++ rest) =
      some (.float (.ofDecimal negative (Nat.ofDigitChars 10 ds 0) (lead + 1 - ds.length)),
        rest) := by
  have hfraction : ∀ c ∈ NumberFormat.zeros (-lead - 1).toNat ++ ds, c.isDigit = true := by
    intro c hc
    obtain hc | hc := List.mem_append.1 hc
    · rw [List.eq_of_mem_replicate hc]
      decide
    · exact hds.digits c hc
  have hread : unsigned limits negative _ = _ :=
    unsigned_fraction hlimits whole_zero hfraction (by simp [hds.nonempty])
      (fun c hc => (hrest c hc).1) (exponent_of_ends hrest)
  have hvalue : Nat.ofDigitChars 10 (['0'] ++ (NumberFormat.zeros (-lead - 1).toNat ++ ds)) 0 =
      Nat.ofDigitChars 10 ds 0 := by
    have hzeros := ofDigitChars_zeros_append 1 (NumberFormat.zeros (-lead - 1).toNat ++ ds)
    exact hzeros.trans (ofDigitChars_zeros_append _ ds)
  have hexponent : (0 : Int) - (NumberFormat.zeros (-lead - 1).toNat ++ ds).length =
      lead + 1 - ds.length := by
    rw [List.length_append, NumberFormat.zeros, List.length_replicate]
    omega
  rw [hvalue, Option.getD_none, hexponent] at hread
  simpa using hread

omit hlimits hrest hds in
/-- Any digits that begin as these are whole too. -/
theorem whole_of_head (hhead : ds.head? ≠ some '0') {part : List Char} (hne : part ≠ [])
    (hpart : ∀ c ∈ part, c.isDigit = true) (hsame : part.head? = ds.head?) : Whole part :=
  ⟨hpart, hne, fun h => absurd (hsame.symm.trans h) hhead⟩

omit hlimits hrest in
theorem whole_take (hhead : ds.head? ≠ some '0') (n : Nat) : Whole (ds.take (n + 1)) := by
  refine whole_of_head hhead (by simp [hds.nonempty]) ?_ ?_
  · exact fun c hc => hds.digits c (List.mem_of_mem_take hc)
  · cases ds <;> rfl

theorem unsigned_from_one (hhead : ds.head? ≠ some '0') (hpos : 0 < Nat.ofDigitChars 10 ds 0)
    (hlead : 0 ≤ lead) :
    unsigned limits negative (ds.take (lead.toNat + 1) ++
        NumberFormat.zeros (lead.toNat + 1 - ds.length) ++
        '.' :: (if ds.drop (lead.toNat + 1) = [] then ['0'] else ds.drop (lead.toNat + 1)) ++
        rest) =
      some (.float (.ofDecimal negative (Nat.ofDigitChars 10 ds 0) (lead + 1 - ds.length)),
        rest) := by
  have htail : ∀ c ∈ rest.head?, c.isDigit = false := fun c hc => (hrest c hc).1
  have hpower := exponent_of_ends hrest
  by_cases hdrop : ds.drop (lead.toNat + 1) = []
  · -- all digits stand before the point, perhaps with some zeros
    have hlength := List.drop_eq_nil_iff.1 hdrop
    have hwhole : Whole (ds ++ NumberFormat.zeros (lead.toNat + 1 - ds.length)) := by
      refine whole_of_head hhead (by simp [hds.nonempty]) ?_ ?_
      · intro c hc
        obtain hc | hc := List.mem_append.1 hc
        · exact hds.digits c hc
        · rw [List.eq_of_mem_replicate hc]
          decide
      · obtain ⟨c, cs, hcs⟩ := List.exists_cons_of_ne_nil hds.nonempty
        rw [hcs]
        rfl
    have hread : unsigned limits negative _ = _ :=
      unsigned_fraction hlimits hwhole whole_zero.digits (List.cons_ne_nil _ _) htail hpower
    have hvalue : Nat.ofDigitChars 10
          (ds ++ NumberFormat.zeros (lead.toNat + 1 - ds.length) ++ ['0']) 0 =
        Nat.ofDigitChars 10 ds 0 * Nat.pow 10 (lead.toNat + 1 - ds.length + 1) := by
      rw [Nat.ofDigitChars_append, Nat.ofDigitChars_append, NumberFormat.zeros,
        Nat.ofDigitChars_replicate_zero, Nat.ofDigitChars_cons, Nat.ofDigitChars_nil]
      simp only [Nat.pow_eq, Nat.pow_succ, Nat.sub_self, Nat.add_zero]
      ring
    have hexponent : (0 : Int) - ['0'].length =
        lead + 1 - ds.length - (lead.toNat + 1 - ds.length + 1 : Nat) := by
      simp only [List.length_singleton]
      omega
    rw [hvalue, Option.getD_none, hexponent, Binary64.ofDecimal_mul_pow hpos] at hread
    rw [List.take_of_length_le hlength, if_pos hdrop]
    simpa using hread
  · have hlength : lead.toNat + 1 < ds.length := by
      rw [← Nat.not_le, ← List.drop_eq_nil_iff]
      exact hdrop
    have hwhole := whole_take hds hhead lead.toNat
    have hfraction : ∀ c ∈ ds.drop (lead.toNat + 1), c.isDigit = true :=
      fun c hc => hds.digits c (List.mem_of_mem_drop hc)
    have hread : unsigned limits negative _ = _ :=
      unsigned_fraction hlimits hwhole hfraction hdrop htail hpower
    have hzeros : lead.toNat + 1 - ds.length = 0 := by omega
    have hexponent : (0 : Int) - (ds.drop (lead.toNat + 1)).length = lead + 1 - ds.length := by
      rw [List.length_drop]
      omega
    rw [List.take_append_drop, Option.getD_none, hexponent] at hread
    rw [if_neg hdrop, hzeros]
    simpa [NumberFormat.zeros] using hread

theorem unsigned_scientific (hhead : ds.head? ≠ some '0') :
    unsigned limits negative (ds.take 1 ++ (if ds.drop 1 = [] then [] else '.' :: ds.drop 1) ++
        NumberFormat.power lead ++ rest) =
      some (.float (.ofDecimal negative (Nat.ofDigitChars 10 ds 0) (lead + 1 - ds.length)),
        rest) := by
  have hpower := exponent_power lead hrest
  have htail : ∀ c ∈ (NumberFormat.power lead ++ rest).head?, c.isDigit = false ∧ c ≠ '.' := by
    intro c hc
    cases hc
    decide
  by_cases hdrop : ds.drop 1 = []
  · have hlength : ds.length = 1 := by
      have hshort := List.drop_eq_nil_iff.1 hdrop
      have hlong := List.length_pos_iff.2 hds.nonempty
      omega
    have hread : unsigned limits negative _ = _ := unsigned_power hlimits hds htail hpower
    rw [List.take_of_length_le (Nat.le_of_eq hlength), if_pos hdrop, hlength]
    simpa using hread
  · have hwhole := whole_take hds hhead 0
    have hfraction : ∀ c ∈ ds.drop 1, c.isDigit = true :=
      fun c hc => hds.digits c (List.mem_of_mem_drop hc)
    have hread : unsigned limits negative _ = _ :=
      unsigned_fraction hlimits hwhole hfraction hdrop (fun c hc => (htail c hc).1) hpower
    have hexponent : lead - (ds.drop 1).length = lead + 1 - ds.length := by
      have hlong := List.length_pos_iff.2 hds.nonempty
      rw [List.length_drop]
      omega
    rw [List.take_append_drop, Option.getD_some, hexponent] at hread
    rw [if_neg hdrop]
    simpa using hread

end Layouts

/-- The text of a positive number, in any format, stands for its digits. -/
theorem unsigned_positive (hlimits : limits.wholeDigits = none) (format : NumberFormat)
    {d : Decimal} (hdigits : 0 < d.digits) (hrest : Ends rest) :
    unsigned limits negative (format.positive (Nat.toDigits 10 d.digits)
        (d.exponent + (Nat.toDigits 10 d.digits).length - 1) ++ rest) =
      some (.float (.ofDecimal negative d.digits d.exponent), rest) := by
  have hwhole := whole_toDigits d.digits
  have hhead := head?_toDigits_ne hdigits
  have hvalue : Nat.ofDigitChars 10 (Nat.toDigits 10 d.digits) 0 = d.digits :=
    Nat.ofDigitChars_ten_toDigits
  have hexponent : d.exponent + (Nat.toDigits 10 d.digits).length - 1 + 1 -
      (Nat.toDigits 10 d.digits).length = d.exponent := by omega
  generalize d.exponent + (Nat.toDigits 10 d.digits).length - 1 = lead at hexponent ⊢
  generalize Nat.toDigits 10 d.digits = ds at hwhole hvalue hhead hexponent ⊢
  rw [← hvalue, ← hexponent]
  unfold NumberFormat.positive
  simp only
  split
  · split
    next hlead => exact unsigned_below_one hlimits hrest hwhole hlead
    next hlead =>
      exact unsigned_from_one hlimits hrest hwhole hhead (hvalue ▸ hdigits) (Int.not_lt.1 hlead)
  · exact unsigned_scientific hlimits hrest hwhole hhead

/-- An integer is written in digits, perhaps after a sign. -/
theorem exists_unsigned_int (hlimits : limits.intDigits = none) (i : Int) (hrest : Ends rest) :
    ∃ negative ds, (toString i).toList = (if negative then '-' :: ds else ds) ∧
      unsigned limits negative (ds ++ rest) = some (.int i, rest) := by
  have hread (n : Nat) (negative : Bool) : unsigned limits negative (Nat.toDigits 10 n ++ rest) =
      some (.int (if negative then -(n : Int) else n), rest) := by
    have hwhole : unsigned limits negative _ = _ := unsigned_whole hlimits (whole_toDigits n) hrest
    rwa [Nat.ofDigitChars_ten_toDigits] at hwhole
  have hdigits (n : Nat) : n.repr.toList = Nat.toDigits 10 n := String.toList_ofList
  cases i with
  | ofNat n => exact ⟨false, _, hdigits n, hread n false⟩
  | negSucc n =>
      have htext : (toString (Int.negSucc n)).toList = '-' :: Nat.toDigits 10 (n + 1) := by
        change ("-" ++ (n + 1).repr).toList = _
        rw [String.toList_append, hdigits]
        rfl
      exact ⟨true, _, htext, hread (n + 1) true⟩

/-- A finite number is written in digits too, in any format. -/
theorem exists_unsigned_finite (hlimits : limits.wholeDigits = none) (format : NumberFormat)
    (negative : Bool) (units : Nat) (hrest : Ends rest) :
    ∃ ds, (format.write (.finite negative units)).toList = (if negative then '-' :: ds else ds) ∧
      unsigned limits negative (ds ++ rest) =
        some (.float (Binary64.finite negative units).echo, rest) := by
  unfold NumberFormat.write
  refine ⟨_, String.toList_ofList, ?_⟩
  rw [Binary64.echo]
  split
  next =>
    exact unsigned_fraction hlimits whole_zero whole_zero.digits (by decide)
      (fun c hc => (hrest c hc).1) (exponent_of_ends hrest)
  next hunits =>
    exact unsigned_positive hlimits format
      (Decimal.shortest_pos (Nat.pos_of_ne_zero hunits)) hrest

/-! ### Texts -/

/-- A control character is read back from its number. -/
theorem stringUnits_numberEscape {code : Nat} (hcode : code < 0x20) (acc : List Nat)
    (rest : List Char) :
    stringUnits acc (numberEscape code ++ rest) = stringUnits (code :: acc) rest := by
  have hhex : ∀ code < 0x20,
      Text.hex 4 code = ['0', '0', Nat.digitChar (code / 16), Nat.digitChar (code % 16)] := by
    decide
  have hdigit : ∀ d < 16, hexDigit? (Nat.digitChar d) = some d := by decide
  have hzero : hexDigit? '0' = some 0 := rfl
  rw [numberEscape, if_pos (by omega), unitEscape, hhex code hcode]
  simp only [List.cons_append, List.nil_append, stringUnits, hzero,
    hdigit _ (by omega : code / 16 < 16), hdigit _ (by omega : code % 16 < 16)]
  simp [Nat.div_add_mod']

/-- A character is read back from what it is written as. -/
theorem stringUnits_escapeChar (c : Char) (acc : List Nat) (rest : List Char) :
    stringUnits acc (escapeChar false c ++ rest) = stringUnits (c.toNat :: acc) rest := by
  unfold escapeChar
  simp only [Bool.false_and, Bool.or_false, Bool.or_eq_true, decide_eq_true_eq]
  split
  next h =>
    obtain rfl | rfl := h
    · rfl
    · rfl
  next hplain =>
  split
  next h =>
    rw [h]
    rfl
  split
  next h =>
    rw [h]
    rfl
  split
  next h =>
    rw [h]
    rfl
  split
  next h =>
    rw [h]
    rfl
  split
  next h =>
    rw [h]
    rfl
  split
  next hcode => exact stringUnits_numberEscape hcode acc rest
  next hcode =>
    rw [not_or] at hplain
    rw [List.singleton_append, stringUnits.eq_def]
    split
    next heq => cases heq
    next heq =>
      cases heq
      exact absurd rfl hplain.1
    next heq =>
      cases heq
      exact absurd rfl hplain.2
    next heq =>
      cases heq
      exact absurd rfl hplain.2
    next heq =>
      cases heq
      rw [if_neg hcode]

theorem stringUnits_escaped (cs : List Char) (acc : List Nat) (rest : List Char) :
    stringUnits acc (cs.flatMap (escapeChar false) ++ '"' :: rest) =
      some (acc.reverse ++ cs.map Char.toNat, rest) := by
  induction cs generalizing acc with
  | nil => simp [stringUnits]
  | cons c cs ih =>
      rw [List.flatMap_cons, List.append_assoc, stringUnits_escapeChar, ih]
      simp

theorem isHalf_toNat (c : Char) : Text.isHalf c.toNat = false := by
  rw [Text.isHalf, Bool.and_eq_false_iff, decide_eq_false_iff_not, decide_eq_false_iff_not]
  rcases c.valid with hlow | ⟨hhigh, -⟩
  · exact .inl (Nat.not_le.2 hlow)
  · exact .inr (Nat.not_lt.2 hhigh)

/-- No character is half a pair, so none are joined. -/
theorem joinUnits_chars (lone : Text.LoneHalf) (cs : List Char) :
    Text.joinUnits lone (cs.map Char.toNat) = some cs := by
  have hchar (c : Char) : Text.codeChar? lone c.toNat = some c := by
    have hvalid : c.toNat.isValidChar := c.valid
    rw [Text.codeChar?, isHalf_toNat, Text.char?, dif_pos hvalid]
    rfl
  induction cs with
  | nil => rfl
  | cons c cs ih =>
      cases cs with
      | nil => simp [Text.joinUnits, hchar]
      | cons c' cs =>
          have hpair : ¬ (decide (0xd800 ≤ c.toNat) && decide (c.toNat < 0xdc00) &&
              decide (0xdc00 ≤ c'.toNat) && decide (c'.toNat < 0xe000)) = true := by
            have hhalf := isHalf_toNat c
            simp only [Text.isHalf, Bool.and_eq_false_iff, decide_eq_false_iff_not] at hhalf
            simp only [Bool.and_eq_true, decide_eq_true_eq]
            omega
          rw [List.map_cons] at ih
          rw [List.map_cons, List.map_cons, Text.joinUnits, if_neg hpair, ih, hchar]
          rfl

theorem string?_string (lone : Text.LoneHalf) (s : String) (rest : List Char) :
    ∃ inner, (string false s).toList ++ rest = '"' :: inner ∧
      string? lone inner = some (s, rest) := by
  refine ⟨s.toList.flatMap (escapeChar false) ++ '"' :: rest, ?_, ?_⟩
  · simp [string]
  · rw [string?, stringUnits_escaped]
    simp [joinUnits_chars]

/-! ### Values -/

/-- A reader that takes numbers of any length. -/
structure Limits.Ample (limits : Limits) : Prop where
  intDigits : limits.intDigits = none
  wholeDigits : limits.wholeDigits = none

theorem Limits.ample_upTo (length : Nat) : (Limits.upTo length).Ample := ⟨rfl, rfl⟩

theorem skip_skip (cs : List Char) : skip (skip cs) = skip cs := by
  induction cs with
  | nil => rfl
  | cons c cs ih =>
      by_cases hspace : isSpace c = true
      · have hskip : skip (c :: cs) = skip cs := List.dropWhile_cons_of_pos hspace
        rw [hskip, ih]
      · have hskip : skip (c :: cs) = c :: cs := List.dropWhile_cons_of_neg hspace
        rw [hskip, hskip]

theorem value_skip (limits : Limits) (fuel depth : Nat) (cs : List Char) :
    value limits fuel depth (skip cs) = value limits fuel depth cs := by
  cases fuel with
  | zero => rw [value, value]
  | succ fuel => rw [value, skip_skip, value]

theorem items_skip (limits : Limits) (fuel depth : Nat) (acc : List Value) (cs : List Char) :
    items limits fuel depth acc (skip cs) = items limits fuel depth acc cs := by
  cases fuel with
  | zero => rw [items, items]
  | succ fuel => rw [items, value_skip, items]

theorem entries_skip (limits : Limits) (fuel depth : Nat) (acc : List (String × Value))
    (cs : List Char) :
    entries limits fuel depth acc (skip cs) = entries limits fuel depth acc cs := by
  cases fuel with
  | zero => rw [entries, entries]
  | succ fuel => rw [entries, skip_skip, entries]

/-- A number begins with a digit. -/
theorem exists_digit_of_unsigned {cs : List Char} {read : Value × List Char}
    (h : unsigned limits negative cs = some read) :
    ∃ c tail, cs = c :: tail ∧ c.isDigit = true := by
  have hstuck {cs : List Char} (hcs : cs.takeWhile Char.isDigit = []) :
      unsigned limits negative cs = none := by
    simp [unsigned, hcs]
  cases cs with
  | nil =>
      rw [hstuck rfl] at h
      cases h
  | cons c tail =>
      cases hdigit : c.isDigit with
      | true => exact ⟨c, tail, rfl, hdigit⟩
      | false =>
          rw [hstuck (List.takeWhile_cons_of_neg (by simp [hdigit]))] at h
          cases h

theorem value_number {cs : List Char} {read : Value × List Char}
    (h : unsigned limits negative cs = some read) (fuel depth : Nat) :
    value limits (fuel + 1) depth (if negative then '-' :: cs else cs) = .ok read := by
  obtain ⟨c, tail, rfl, hdigit⟩ := exists_digit_of_unsigned h
  have hother {c' : Char} (hc' : c'.isDigit = false) : c ≠ c' := by
    rintro rfl
    exact Bool.noConfusion (hdigit.symm.trans hc')
  have hskip : skip (c :: tail) = c :: tail := by
    refine List.dropWhile_cons_of_neg ?_
    have hblank : c ≠ ' ' := hother rfl
    have htab : c ≠ '\t' := hother rfl
    have hline : c ≠ '\n' := hother rfl
    have hreturn : c ≠ '\r' := hother rfl
    simp [isSpace, hblank, htab, hline, hreturn]
  rw [value]
  cases negative with
  | true =>
      have hskip' : skip ('-' :: c :: tail) = '-' :: c :: tail := rfl
      simp only [if_true, hskip']
      split
      iterate 8
        next heq => cases heq
      next heq =>
        cases heq
        exact absurd hdigit (by decide)
      next heq =>
        cases heq
        rw [h]
        rfl
      next hnot => exact (hnot _ rfl).elim
  | false =>
      simp only [Bool.false_eq_true, if_false, hskip]
      split
      iterate 10
        next heq =>
          cases heq
          exact absurd hdigit (by decide)
      next => rw [h]; rfl

theorem value_int (hlimits : limits.Ample) (i : Int) (hrest : Ends rest) (fuel depth : Nat) :
    value limits (fuel + 1) depth ((toString i).toList ++ rest) = .ok (.int i, rest) := by
  obtain ⟨negative, ds, htext, hread⟩ := exists_unsigned_int hlimits.intDigits i hrest
  have hvalue := value_number hread fuel depth
  rw [htext]
  cases negative with
  | true => exact hvalue
  | false => exact hvalue

theorem value_float (hlimits : limits.Ample) (x : Binary64) (hrest : Ends rest) (fuel depth : Nat) :
    value limits (fuel + 1) depth ((number.write x).toList ++ rest) =
      .ok (.float x.echo, rest) := by
  cases x with
  | nan =>
      rw [value]
      rfl
  | infinite negative =>
      rw [value]
      cases negative <;> rfl
  | finite negative units =>
      obtain ⟨ds, htext, hread⟩ :=
        exists_unsigned_finite hlimits.wholeDigits number negative units hrest
      have hvalue := value_number hread fuel depth
      rw [htext]
      cases negative with
      | true => exact hvalue
      | false => exact hvalue

theorem value_string (s : String) (rest : List Char) (fuel depth : Nat) :
    value limits (fuel + 1) depth ((string false s).toList ++ rest) = .ok (.text s, rest) := by
  obtain ⟨inner, htext, hread⟩ := string?_string limits.lone s rest
  have hskip : skip ('"' :: inner) = '"' :: inner := rfl
  rw [htext, value, hskip]
  simp only [hread]
  rfl

/-- The items of an array, or the entries of an object, on one line. -/
def joined (items : List String) : List Char :=
  (", ".intercalate items).toList

theorem joined_singleton (item : String) : joined [item] = item.toList := by
  rw [joined, String.intercalate_singleton]

theorem joined_cons (item next : String) (rest : List String) :
    joined (item :: next :: rest) = item.toList ++ ',' :: ' ' :: joined (next :: rest) := by
  rw [joined, String.intercalate_cons_of_ne_nil (List.cons_ne_nil _ _), String.toList_append,
    String.toList_append, joined, List.append_assoc]
  rfl

theorem toList_enclose (level : Nat) (left right : String) (items : List String) :
    (Style.line.enclose level left right items).toList =
      left.toList ++ (joined items ++ right.toList) := by
  cases items with
  | nil =>
      rw [Style.enclose, String.toList_append]
      rfl
  | cons item rest =>
      change (left ++ ", ".intercalate (item :: rest) ++ right).toList = _
      rw [String.toList_append, String.toList_append, List.append_assoc]
      rfl

theorem ends_cons {c : Char} (hc : c.isDigit = false ∧ c ≠ '.' ∧ c ≠ 'e' ∧ c ≠ 'E')
    (rest : List Char) : Ends (c :: rest) := by
  intro c' hc'
  cases hc'
  exact hc

/-- What a value begins with is no bracket that closes. -/
theorem skip_ne_of_value_ok {cs : List Char} {fuel depth : Nat} {read : Value × List Char}
    (h : value limits fuel depth cs = .ok read) (tail : List Char) : skip cs ≠ ']' :: tail := by
  intro hskip
  cases fuel with
  | zero =>
      rw [value] at h
      cases h
  | succ fuel =>
      rw [value, hskip] at h
      cases h

theorem value_blank (limits : Limits) (fuel depth : Nat) (cs : List Char) :
    value limits fuel depth (' ' :: cs) = value limits fuel depth cs := by
  rw [← value_skip, ← value_skip limits fuel depth cs]
  rfl

theorem items_blank (limits : Limits) (fuel depth : Nat) (acc : List Value) (cs : List Char) :
    items limits fuel depth acc (' ' :: cs) = items limits fuel depth acc cs := by
  rw [← items_skip, ← items_skip limits fuel depth acc cs]
  rfl

theorem entries_blank (limits : Limits) (fuel depth : Nat) (acc : List (String × Value))
    (cs : List Char) :
    entries limits fuel depth acc (' ' :: cs) = entries limits fuel depth acc cs := by
  rw [← entries_skip, ← entries_skip limits fuel depth acc cs]
  rfl

/-! ### Texts that are read -/

/-- A text is read as a value, if nothing after it goes on with a number. -/
def Reads (limits : Limits) (text : List Char) (v : Value) : Prop :=
  ∀ (fuel depth : Nat) (rest : List Char), 2 * text.length < fuel → text.length ≤ depth →
    Ends rest → value limits fuel depth (text ++ rest) = .ok (v, rest)

/-- A text is read as the items of an array. -/
def ReadsItems (limits : Limits) (text : List Char) (vs : List Value) : Prop :=
  ∀ (fuel depth : Nat) (acc : List Value) (rest : List Char), 2 * text.length + 1 < fuel →
    text.length ≤ depth →
    items limits fuel depth acc (text ++ ']' :: rest) = .ok (.list (acc.reverse ++ vs), rest)

/-- A text is read as the entries of an object. -/
def ReadsEntries (limits : Limits) (text : List Char) (fields : Fields) : Prop :=
  ∀ (fuel depth : Nat) (acc : Fields) (rest : List Char), 2 * text.length + 1 < fuel →
    text.length ≤ depth →
    entries limits fuel depth acc (text ++ '\x7d' :: rest) =
      .ok (.mapping (acc.reverse ++ fields), rest)

section Reading

variable {text more : List Char} {v : Value} {vs : List Value} {key : String} {fields : Fields}

theorem Reads.of_scalar (h : ∀ fuel depth rest, Ends rest →
    value limits (fuel + 1) depth (text ++ rest) = .ok (v, rest)) : Reads limits text v := by
  intro fuel depth rest hfuel _ hrest
  obtain ⟨fuel, rfl⟩ := Nat.exists_eq_add_one_of_ne_zero (Nat.ne_zero_of_lt hfuel)
  exact h fuel depth rest hrest

theorem ReadsItems.singleton (h : Reads limits text v) : ReadsItems limits text [v] := by
  intro fuel depth acc rest hfuel hdepth
  obtain ⟨fuel, rfl⟩ := Nat.exists_eq_add_one_of_ne_zero (Nat.ne_zero_of_lt hfuel)
  have hskip : skip (']' :: rest) = ']' :: rest := rfl
  rw [items, h fuel depth _ (by omega) hdepth (ends_cons (by decide) rest)]
  simp only [bind, Except.bind, hskip, List.reverse_cons]

theorem ReadsItems.cons (h : Reads limits text v) (hmore : ReadsItems limits more vs) :
    ReadsItems limits (text ++ ',' :: ' ' :: more) (v :: vs) := by
  intro fuel depth acc rest hfuel hdepth
  simp only [List.length_append, List.length_cons] at hfuel hdepth
  obtain ⟨fuel, rfl⟩ := Nat.exists_eq_add_one_of_ne_zero (Nat.ne_zero_of_lt hfuel)
  have hskip (cs : List Char) : skip (',' :: cs) = ',' :: cs := rfl
  rw [List.append_assoc, List.cons_append, List.cons_append, items,
    h fuel depth _ (by omega) (by omega) (ends_cons (by decide) _)]
  simp only [bind, Except.bind, hskip]
  rw [items_blank, hmore fuel depth (v :: acc) rest (by omega) (by omega), List.reverse_cons,
    List.append_assoc, List.singleton_append]

theorem toList_entry (key written : String) :
    (Style.line.entry key written).toList =
      (string false key).toList ++ ':' :: ' ' :: written.toList := by
  change (string false key ++ ": " ++ written).toList = _
  rw [String.toList_append, String.toList_append, List.append_assoc]
  rfl

/-- An entry begins with the quote of its name. -/
theorem exists_quote (key written : String) :
    ∃ inner, (Style.line.entry key written).toList = '"' :: inner := by
  rw [toList_entry, string, String.toList_ofList]
  exact ⟨_, rfl⟩

theorem length_lt_length_entry (key written : String) :
    written.toList.length < (Style.line.entry key written).toList.length := by
  rw [toList_entry, List.length_append, List.length_cons, List.length_cons]
  omega

/-- An entry is read up to what follows its value: a comma, and then more entries. -/
theorem entries_entry_comma {fuel depth : Nat} {acc : Fields} {written : String}
    (hvalue : value limits fuel depth (written.toList ++ ',' :: rest) = .ok (v, ',' :: rest)) :
    entries limits (fuel + 1) depth acc ((Style.line.entry key written).toList ++ ',' :: rest) =
      entries limits fuel depth ((key, v) :: acc) rest := by
  obtain ⟨inner, htext, hread⟩ := string?_string limits.lone key
    (':' :: ' ' :: (written.toList ++ ',' :: rest))
  have hskip (cs : List Char) : skip ('"' :: cs) = '"' :: cs := rfl
  have hskip' (cs : List Char) : skip (':' :: cs) = ':' :: cs := rfl
  have hskip'' : skip (',' :: rest) = ',' :: rest := rfl
  rw [toList_entry, List.append_assoc, List.cons_append, List.cons_append, htext, entries, hskip]
  simp only [hread, orMalformed, bind, Except.bind, hskip', value_blank, hvalue, hskip'']

/-- Or the brace that closes the object. -/
theorem entries_entry_brace {fuel depth : Nat} {acc : Fields} {written : String}
    (hvalue : value limits fuel depth (written.toList ++ '\x7d' :: rest) =
      .ok (v, '\x7d' :: rest)) :
    entries limits (fuel + 1) depth acc ((Style.line.entry key written).toList ++ '\x7d' :: rest) =
      .ok (.mapping (acc.reverse ++ [(key, v)]), rest) := by
  obtain ⟨inner, htext, hread⟩ := string?_string limits.lone key
    (':' :: ' ' :: (written.toList ++ '\x7d' :: rest))
  have hskip (cs : List Char) : skip ('"' :: cs) = '"' :: cs := rfl
  have hskip' (cs : List Char) : skip (':' :: cs) = ':' :: cs := rfl
  have hskip'' : skip ('\x7d' :: rest) = '\x7d' :: rest := rfl
  rw [toList_entry, List.append_assoc, List.cons_append, List.cons_append, htext, entries, hskip]
  simp only [hread, orMalformed, bind, Except.bind, hskip', value_blank, hvalue, hskip'',
    List.reverse_cons]

theorem ReadsEntries.singleton {written : String} (h : Reads limits written.toList v) :
    ReadsEntries limits (Style.line.entry key written).toList [(key, v)] := by
  intro fuel depth acc rest hfuel hdepth
  have hlength := length_lt_length_entry key written
  obtain ⟨fuel, rfl⟩ := Nat.exists_eq_add_one_of_ne_zero (Nat.ne_zero_of_lt hfuel)
  exact entries_entry_brace (h fuel depth _ (by omega) (by omega) (ends_cons (by decide) rest))

theorem ReadsEntries.cons {written : String} (h : Reads limits written.toList v)
    (hmore : ReadsEntries limits more fields) :
    ReadsEntries limits ((Style.line.entry key written).toList ++ ',' :: ' ' :: more)
      ((key, v) :: fields) := by
  intro fuel depth acc rest hfuel hdepth
  simp only [List.length_append, List.length_cons] at hfuel hdepth
  have hlength := length_lt_length_entry key written
  obtain ⟨fuel, rfl⟩ := Nat.exists_eq_add_one_of_ne_zero (Nat.ne_zero_of_lt hfuel)
  have hends := ends_cons (c := ',') (by decide) (' ' :: (more ++ '\x7d' :: rest))
  have hentry := h fuel depth _ (by omega) (by omega) hends
  rw [List.append_assoc, List.cons_append, List.cons_append, entries_entry_comma hentry,
    entries_blank, hmore fuel depth ((key, v) :: acc) rest (by omega) (by omega),
    List.reverse_cons, List.append_assoc, List.singleton_append]

theorem Reads.array (h : ReadsItems limits text vs) :
    Reads limits ('[' :: (text ++ [']'])) (.list vs) := by
  intro fuel depth rest hfuel hdepth _
  simp only [List.length_append, List.length_cons, List.length_nil] at hfuel hdepth
  obtain ⟨fuel, rfl⟩ := Nat.exists_eq_add_one_of_ne_zero (Nat.ne_zero_of_lt hfuel)
  obtain ⟨depth, rfl⟩ : ∃ k, depth = k + 1 := ⟨depth - 1, by omega⟩
  have hskip (cs : List Char) : skip ('[' :: cs) = '[' :: cs := rfl
  have hitems := h fuel depth [] rest (by omega) (by omega)
  have hbegins : ∀ tail, skip (text ++ ']' :: rest) ≠ ']' :: tail := by
    obtain ⟨fuel, rfl⟩ : ∃ k, fuel = k + 1 := ⟨fuel - 1, by omega⟩
    rw [items] at hitems
    cases hfirst : value limits fuel depth (text ++ ']' :: rest) with
    | ok read => exact skip_ne_of_value_ok hfirst
    | error e =>
        rw [hfirst] at hitems
        cases hitems
  rw [List.cons_append, List.append_assoc, List.singleton_append, value, hskip]
  simp only [Nat.succ_ne_zero, decide_false, Bool.and_false, Bool.false_eq_true, if_false]
  rw [items_skip, hitems]
  rfl

theorem Reads.array_nil : Reads limits ['[', ']'] (.list []) := by
  intro fuel depth rest hfuel hdepth _
  obtain ⟨fuel, rfl⟩ := Nat.exists_eq_add_one_of_ne_zero (Nat.ne_zero_of_lt hfuel)
  obtain ⟨depth, rfl⟩ := Nat.exists_eq_add_one_of_ne_zero (Nat.ne_zero_of_lt hdepth)
  have hskip (cs : List Char) : skip ('[' :: cs) = '[' :: cs := rfl
  have hskip' (cs : List Char) : skip (']' :: cs) = ']' :: cs := rfl
  rw [List.cons_append, List.singleton_append, value, hskip]
  simp only [Nat.succ_ne_zero, decide_false, Bool.and_false, Bool.false_eq_true, if_false, hskip']

theorem Reads.object (h : ReadsEntries limits text fields)
    (hquote : ∃ inner, text = '"' :: inner) :
    Reads limits ('\x7b' :: (text ++ ['\x7d'])) (.mapping fields) := by
  intro fuel depth rest hfuel hdepth _
  simp only [List.length_append, List.length_cons, List.length_nil] at hfuel hdepth
  obtain ⟨fuel, rfl⟩ := Nat.exists_eq_add_one_of_ne_zero (Nat.ne_zero_of_lt hfuel)
  obtain ⟨depth, rfl⟩ : ∃ k, depth = k + 1 := ⟨depth - 1, by omega⟩
  obtain ⟨inner, rfl⟩ := hquote
  have hskip (cs : List Char) : skip ('\x7b' :: cs) = '\x7b' :: cs := rfl
  have hskip' (cs : List Char) : skip ('"' :: cs) = '"' :: cs := rfl
  have hentries := h fuel depth [] rest (by omega) (by omega)
  rw [List.cons_append] at hentries
  rw [List.cons_append, List.append_assoc, List.singleton_append, List.cons_append, value, hskip]
  simp only [Nat.succ_ne_zero, decide_false, Bool.and_false, Bool.false_eq_true, if_false, hskip']
  exact hentries

theorem Reads.object_nil : Reads limits ['\x7b', '\x7d'] (.mapping []) := by
  intro fuel depth rest hfuel hdepth _
  obtain ⟨fuel, rfl⟩ := Nat.exists_eq_add_one_of_ne_zero (Nat.ne_zero_of_lt hfuel)
  obtain ⟨depth, rfl⟩ := Nat.exists_eq_add_one_of_ne_zero (Nat.ne_zero_of_lt hdepth)
  have hskip (cs : List Char) : skip ('\x7b' :: cs) = '\x7b' :: cs := rfl
  have hskip' (cs : List Char) : skip ('\x7d' :: cs) = '\x7d' :: cs := rfl
  rw [List.cons_append, List.singleton_append, value, hskip]
  simp only [Nat.succ_ne_zero, decide_false, Bool.and_false, Bool.false_eq_true, if_false, hskip']

end Reading

/-- The entries of an object begin with a quote. -/
theorem exists_quote_joined (level : Nat) (field : String × Value) (more : Fields) :
    ∃ inner, joined (Style.line.arrange (renderFields .line level (field :: more))) =
      '"' :: inner := by
  obtain ⟨inner, hinner⟩ := exists_quote field.1 (render .line level field.2)
  change ∃ inner, joined (Style.line.entry field.1 (render .line level field.2) ::
    Style.line.arrange (renderFields .line level more)) = '"' :: inner
  cases Style.line.arrange (renderFields .line level more) with
  | nil => exact ⟨inner, (joined_singleton _).trans hinner⟩
  | cons next rest =>
      rw [joined_cons, hinner]
      exact ⟨_, rfl⟩

mutual

/-- The text of a value on one line is read as what the value comes back as. -/
theorem reads_render (hlimits : limits.Ample) (level : Nat) : (v : Value) →
    Reads limits (render .line level v).toList v.echo
  | .null | .bool true | .bool false => .of_scalar fun fuel depth rest _ => by
      rw [render, value]
      rfl
  | .int i => .of_scalar fun fuel depth rest hrest => value_int hlimits i hrest fuel depth
  | .float x => .of_scalar fun fuel depth rest hrest => value_float hlimits x hrest fuel depth
  | .text s => .of_scalar fun fuel depth rest _ => value_string s rest fuel depth
  | .list [] | .tuple [] => by
      rw [render, toList_enclose]
      exact .array_nil
  | .list (v :: more) | .tuple (v :: more) => by
      rw [render, toList_enclose]
      exact .array (readsItems_render hlimits (level + 1) (v :: more) (List.cons_ne_nil _ _))
  | .mapping [] => by
      rw [render, toList_enclose]
      exact .object_nil
  | .mapping (field :: more) => by
      rw [render, toList_enclose]
      exact .object (readsEntries_render hlimits (level + 1) (field :: more) (List.cons_ne_nil _ _))
        (exists_quote_joined (level + 1) field more)
  | .bytes _ | .date _ | .time _ | .moment _ _ _ | .foreign _ =>
    .of_scalar fun fuel depth rest _ => value_string _ rest fuel depth
termination_by structural v => v

theorem readsItems_render (hlimits : limits.Ample) (level : Nat) : (vs : List Value) → vs ≠ [] →
    ReadsItems limits (joined (renderAll .line level vs)) (Value.echoAll vs)
  | [] => fun hne => absurd rfl hne
  | [v] => fun _ => by
      rw [renderAll, renderAll, joined_singleton]
      exact .singleton (reads_render hlimits level v)
  | v :: w :: more => fun _ => by
      rw [renderAll, renderAll, joined_cons]
      exact .cons (reads_render hlimits level v)
        (readsItems_render hlimits level (w :: more) (List.cons_ne_nil _ _))
termination_by structural vs => vs

theorem readsEntries_render (hlimits : limits.Ample) (level : Nat) :
    (fields : List (String × Value)) → fields ≠ [] →
    ReadsEntries limits (joined (Style.line.arrange (renderFields .line level fields)))
      (Value.echoFields fields)
  | [] => fun hne => absurd rfl hne
  | [(key, v)] => fun _ => by
      change ReadsEntries limits (joined [Style.line.entry key (render .line level v)]) _
      rw [joined_singleton]
      exact .singleton (reads_render hlimits level v)
  | (key, v) :: (key', v') :: more => fun _ => by
      change ReadsEntries limits (joined (Style.line.entry key (render .line level v) ::
        Style.line.entry key' (render .line level v') ::
          Style.line.arrange (renderFields .line level more))) _
      rw [joined_cons]
      exact .cons (reads_render hlimits level v)
        (readsEntries_render hlimits level ((key', v') :: more) (List.cons_ne_nil _ _))
termination_by structural fields => fields

end

/-- A value written on one line is read back. -/
theorem read_render (v : Value) : read (render .line 0 v) = some v.echo := by
  have hends : Ends [] := by
    intro c hc
    cases hc
  have hreads := reads_render (Limits.ample_upTo (render .line 0 v).length) 0 v
    (2 * (render .line 0 v).toList.length + 1) (render .line 0 v).length [] (Nat.lt_add_one _)
    (Nat.le_of_eq String.length_toList) hends
  rw [List.append_nil] at hreads
  have hdepth : (Limits.upTo (render .line 0 v).length).depth = (render .line 0 v).length := rfl
  have hskip : skip [] = [] := rfl
  rw [read, readWithin]
  simp only [hdepth, hreads, bind, Except.bind, hskip, if_true]
  rfl

/-! ### What has been read -/

theorem plain_of_unsigned {cs : List Char} {read : Value × List Char}
    (h : unsigned limits negative cs = some read) : read.1.Plain := by
  rw [unsigned_eq] at h
  simp only at h
  split at h
  · cases h
  obtain ⟨p, -, h⟩ := Option.bind_eq_some_iff.1 h
  obtain ⟨q, -, h⟩ := Option.bind_eq_some_iff.1 h
  simp only at h
  split at h
  · split at h
    · cases h
    · obtain ⟨n, -, rfl⟩ := Option.map_eq_some_iff.1 h
      trivial
  · split at h
    · cases h
    · obtain ⟨n, -, rfl⟩ := Option.map_eq_some_iff.1 h
      exact Binary64.isSound_ofDecimal negative n _

theorem of_orMalformed {α : Type} {o : Option α} {r : α} (h : orMalformed o = .ok r) :
    o = some r := by
  cases o with
  | none => cases h
  | some a => exact congrArg some (Except.ok.inj h)

theorem plain_of_word {v : Value} {letters : String} {cs : List Char} {read : Value × List Char}
    (h : word v letters cs = .ok read) (hv : v.Plain) : read.1.Plain := by
  obtain ⟨rest, -, rfl⟩ := Option.map_eq_some_iff.1 (of_orMalformed h)
  exact hv

/-- A value that is read from a text is plain, and so are its parts. -/
theorem plain_of_read (limits : Limits) (fuel : Nat) :
    (∀ depth cs r, value limits fuel depth cs = .ok r → r.1.Plain) ∧
    (∀ depth acc cs r, (∀ v ∈ acc, v.Plain) → items limits fuel depth acc cs = .ok r → r.1.Plain) ∧
    ∀ depth acc cs r, (∀ entry ∈ acc, entry.2.Plain) →
      entries limits fuel depth acc cs = .ok r → r.1.Plain := by
  induction fuel with
  | zero =>
      refine ⟨?_, ?_, ?_⟩
      · intro depth cs r h
        cases h
      · intro depth acc cs r _ h
        cases h
      · intro depth acc cs r _ h
        cases h
  | succ fuel ih =>
      obtain ⟨hvalue, hitems, hentries⟩ := ih
      refine ⟨?_, ?_, ?_⟩
      · intro depth cs r h
        rw [value] at h
        split at h
        · obtain ⟨⟨s, rest⟩, -, h⟩ := exists_of_bind_eq_ok h
          cases h
          trivial
        · split at h
          · cases h
          · split at h
            · cases h
              trivial
            · cases h
            · exact hitems _ _ _ _ (fun v hv => absurd hv List.not_mem_nil) h
        · split at h
          · cases h
          · split at h
            · cases h
              trivial
            · cases h
            · exact hentries _ _ _ _ (fun v hv => absurd hv List.not_mem_nil) h
        iterate 3
          · exact plain_of_word h trivial
        · exact plain_of_word h .nan
        · exact plain_of_word h (.infinite false)
        · exact plain_of_word h (.infinite true)
        · exact plain_of_unsigned (of_orMalformed h)
        · exact plain_of_unsigned (of_orMalformed h)
      · intro depth acc cs r hacc h
        rw [items] at h
        obtain ⟨⟨v, rest⟩, hv, h⟩ := exists_of_bind_eq_ok h
        have hmore : ∀ u ∈ v :: acc, u.Plain := List.forall_mem_cons.2 ⟨hvalue _ _ _ hv, hacc⟩
        simp only at h
        split at h
        · exact hitems _ _ _ _ hmore h
        · cases h
          exact Value.plainAll_iff.2 fun u hu => hmore u (List.mem_reverse.1 hu)
        · cases h
      · intro depth acc cs r hacc h
        rw [entries] at h
        split at h
        · obtain ⟨⟨key, rest⟩, -, h⟩ := exists_of_bind_eq_ok h
          simp only at h
          split at h
          · obtain ⟨⟨v, rest⟩, hv, h⟩ := exists_of_bind_eq_ok h
            have hmore : ∀ entry ∈ (key, v) :: acc, entry.2.Plain :=
              List.forall_mem_cons.2 ⟨hvalue _ _ _ hv, hacc⟩
            simp only at h
            split at h
            · exact hentries _ _ _ _ hmore h
            · cases h
              exact Value.plainFields_iff.2 fun entry hentry =>
                hmore entry (List.mem_reverse.1 hentry)
            · cases h
          · cases h
        · cases h

/-- What has been read from a text is read again from its line. -/
theorem read_render_of_readWithin {s : String} {v : Value} (h : readWithin limits s = .ok v) :
    read (render .line 0 v) = some v := by
  obtain ⟨⟨w, rest⟩, hvalue, hrest⟩ := exists_of_bind_eq_ok h
  have hplain := (plain_of_read limits _).1 _ _ _ hvalue
  simp only at hrest
  split at hrest
  · cases hrest
    rw [read_render, Value.echo_eq_of_plain v hplain]
  · cases hrest

end Json

end Pagescript
