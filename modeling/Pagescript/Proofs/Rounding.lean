import Mathlib.Tactic.Linarith
import Mathlib.Tactic.Ring
import Pagescript.Number.Decimal
/-!
# Rounding

What a decimal is read as depends on the number it stands for alone, not on the zeros at its end.  And
a number that has been rounded is read back from its decimal text: seventeen digits come so near to
it that no other number is nearer.  Main statement: `Decimal.reads_shortest`.
-/

namespace Pagescript

namespace Binary64

/-! ### Ratios -/

theorem roundDiv_mul (p q : Nat) {c : Nat} (hc : 0 < c) :
    roundDiv (p * c) (q * c) = roundDiv p q := by
  have hbelow : 2 * (p % q * c) < q * c ↔ 2 * (p % q) < q := by
    rw [← Nat.mul_assoc, Nat.mul_lt_mul_right hc]
  have habove : q * c < 2 * (p % q * c) ↔ q < 2 * (p % q) := by
    rw [← Nat.mul_assoc, Nat.mul_lt_mul_right hc]
  simp only [roundDiv, Nat.mul_div_mul_right _ _ hc, Nat.mul_mod_mul_right, hbelow, habove]

theorem roundSteps_mul (p q : Nat) {c : Nat} (hc : 0 < c) :
    roundSteps (p * c) (q * c) = roundSteps p q := by
  simp only [roundSteps, Nat.mul_div_mul_right _ _ hc, Nat.mul_right_comm q c, roundDiv_mul _ _ hc]

theorem roundSteps_eq_of_ratio {p q p' q' : Nat} (hq : 0 < q) (hq' : 0 < q')
    (h : p * q' = p' * q) : roundSteps p q = roundSteps p' q' := by
  calc roundSteps p q = roundSteps (p * q') (q * q') := (roundSteps_mul p q hq').symm
    _ = roundSteps (p' * q) (q' * q) := by rw [h, Nat.mul_comm q q']
    _ = roundSteps p' q' := roundSteps_mul p' q' hq

/-! ### Decimals -/

theorem pow_ten_pos (k : Nat) : 0 < Nat.pow 10 k :=
  Nat.pow_pos (by decide)

theorem length_toDigits_mul_pow {n : Nat} (hn : 0 < n) (k : Nat) :
    (Nat.toDigits 10 (n * Nat.pow 10 k)).length = (Nat.toDigits 10 n).length + k := by
  induction k with
  | zero => rw [Nat.pow_eq, Nat.pow_zero, Nat.mul_one, Nat.add_zero]
  | succ k ih =>
      have hpos : 0 < n * Nat.pow 10 k := Nat.mul_pos hn (pow_ten_pos k)
      have hstep : n * Nat.pow 10 (k + 1) = 10 * (n * Nat.pow 10 k) + 0 := by
        simp only [Nat.pow_eq, Nat.pow_succ]
        ring
      rw [hstep, ← Nat.toDigits_append_toDigits (by decide) hpos (by decide), List.length_append, ih]
      rfl

/-- The exponents that decide nothing by themselves. -/
def Moderate (digits : Nat) (exponent : Int) : Prop :=
  -400 ≤ ((Nat.toDigits 10 digits).length : Int) + exponent ∧
    ((Nat.toDigits 10 digits).length : Int) + exponent ≤ 400

theorem ofDecimal_of_moderate {digits : Nat} {exponent : Int} (negative : Bool)
    (hdigits : 0 < digits) (hexponent : Moderate digits exponent) :
    ofDecimal negative digits exponent =
      ofSteps negative (digits * Nat.pow 10 exponent.toNat * one)
        (Nat.pow 10 (-exponent).toNat) := by
  obtain ⟨hlow, hhigh⟩ := hexponent
  simp only [ofDecimal, Nat.ne_of_gt hdigits, if_false, Int.not_lt.2 hlow, Int.not_lt.2 hhigh]
  split
  next h =>
    have hneg : (-exponent).toNat = 0 := by omega
    rw [hneg]
  next h =>
    have hpos : exponent.toNat = 0 := by omega
    have hone : digits * Nat.pow 10 0 = digits := Nat.mul_one digits
    rw [hpos, hone]

/-- Zeros at the end of the digits can be traded for a higher exponent. -/
theorem ofDecimal_mul_pow {digits : Nat} (hdigits : 0 < digits) (negative : Bool) (exponent : Int)
    (k : Nat) :
    ofDecimal negative (digits * Nat.pow 10 k) (exponent - k) =
      ofDecimal negative digits exponent := by
  have hpos : 0 < digits * Nat.pow 10 k := Nat.mul_pos hdigits (pow_ten_pos k)
  have hmagnitude : ((Nat.toDigits 10 (digits * Nat.pow 10 k)).length : Int) + (exponent - k) =
      (Nat.toDigits 10 digits).length + exponent := by
    rw [length_toDigits_mul_pow hdigits, Nat.cast_add]
    ring
  by_cases hmoderate : Moderate digits exponent
  · have hmoderate' : Moderate (digits * Nat.pow 10 k) (exponent - k) := by
      rw [Moderate, hmagnitude]
      exact hmoderate
    rw [ofDecimal_of_moderate negative hdigits hmoderate,
      ofDecimal_of_moderate negative hpos hmoderate', ofSteps, ofSteps]
    have hratio : digits * Nat.pow 10 k * Nat.pow 10 (exponent - k).toNat * one *
          Nat.pow 10 (-exponent).toNat =
        digits * Nat.pow 10 exponent.toNat * one * Nat.pow 10 (-(exponent - k)).toNat := by
      have hsum : k + (exponent - k).toNat + (-exponent).toNat =
          exponent.toNat + (-(exponent - k)).toNat := by omega
      have hpow := congrArg (fun n => digits * one * 10 ^ n) hsum
      simp only [pow_add] at hpow
      simp only [Nat.pow_eq]
      linarith
    rw [roundSteps_eq_of_ratio (pow_ten_pos _) (pow_ten_pos _) hratio]
  · rw [Moderate, not_and_or, not_le, not_le] at hmoderate
    simp only [ofDecimal, Nat.ne_of_gt hdigits, Nat.ne_of_gt hpos, if_false, hmagnitude]
    obtain hlow | hhigh := hmoderate
    · rw [if_neg (by omega), if_pos hlow, if_neg (by omega), if_pos hlow]
    · rw [if_pos hhigh, if_pos hhigh]

/-! ### Rounded numbers -/

/-- The distance of the counts of steps that have 53 significant bits, at the size of one of them. -/
def grain (units : Nat) : Nat :=
  Nat.pow 2 (units.log2 + 1 - 53)

/-- A count of steps that has at most 53 significant bits. -/
def IsRounded (units : Nat) : Prop :=
  grain units ∣ units

theorem roundSteps_eq (p q : Nat) :
    roundSteps p q = roundDiv p (q * grain (p / q)) * grain (p / q) := rfl

theorem grain_pos (units : Nat) : 0 < grain units :=
  Nat.pow_pos (by decide)

theorem isRounded_of_bits {r j : Nat} (hr : r ≤ Nat.pow 2 53) : IsRounded (r * Nat.pow 2 j) := by
  rcases Nat.eq_zero_or_pos r with rfl | hpos
  · rw [Nat.zero_mul]
    exact Nat.dvd_zero _
  rcases Nat.lt_or_eq_of_le hr with hlt | rfl
  · -- the grain is no larger than the factor
    refine Nat.dvd_trans (Nat.pow_dvd_pow 2 ?_) (Nat.dvd_mul_left _ r)
    have hunits : r * Nat.pow 2 j < Nat.pow 2 (53 + j) := by
      calc r * Nat.pow 2 j < Nat.pow 2 53 * Nat.pow 2 j :=
            Nat.mul_lt_mul_of_pos_right hlt (Nat.pow_pos (by decide))
        _ = Nat.pow 2 (53 + j) := (Nat.pow_add 2 53 j).symm
    have hne : r * Nat.pow 2 j ≠ 0 := Nat.ne_of_gt (Nat.mul_pos hpos (Nat.pow_pos (by decide)))
    have hlog := (Nat.log2_lt hne).2 hunits
    omega
  · have hunits : Nat.pow 2 53 * Nat.pow 2 j = Nat.pow 2 (53 + j) := (Nat.pow_add 2 53 j).symm
    rw [hunits]
    refine Nat.pow_dvd_pow 2 ?_
    have hlog : (Nat.pow 2 (53 + j)).log2 = 53 + j := Nat.log2_two_pow
    omega

theorem isRounded_roundSteps (p q : Nat) : IsRounded (roundSteps p q) := by
  rw [roundSteps_eq]
  refine isRounded_of_bits ?_
  have hsize : p / q < Nat.pow 2 53 * grain (p / q) := by
    calc p / q < 2 ^ ((p / q).log2 + 1) := Nat.lt_log2_self
      _ ≤ 2 ^ (53 + ((p / q).log2 + 1 - 53)) := Nat.pow_le_pow_right (by decide) (by omega)
      _ = Nat.pow 2 53 * grain (p / q) := Nat.pow_add 2 53 _
  have hbelow : p / (q * grain (p / q)) < Nat.pow 2 53 := by
    rw [← Nat.div_div_eq_div_mul]
    exact (Nat.div_lt_iff_lt_mul (grain_pos _)).2 hsize
  simp only [roundDiv]
  split
  · exact Nat.le_of_lt hbelow
  · split
    · exact hbelow
    · split
      · exact Nat.le_of_lt hbelow
      · exact hbelow

/-- A whole number is the nearest one if the distance to it is less than a half. -/
theorem roundDiv_eq_of_near {p q n : Nat} (hbelow : 2 * p < 2 * (n * q) + q)
    (habove : 2 * (n * q) < 2 * p + q) : roundDiv p q = n := by
  have hq : 0 < q := by
    rcases Nat.eq_zero_or_pos q with rfl | hq
    · omega
    · exact hq
  have hsplit := Nat.div_add_mod' p q
  have hrest := Nat.mod_lt p hq
  -- the whole number below is `n` itself or the one before it
  have hupper : p / q < n + 1 := by
    rw [Nat.div_lt_iff_lt_mul hq, Nat.add_mul, Nat.one_mul]
    omega
  have hlower : n < p / q + 2 := by
    by_contra hfar
    have hmul := Nat.mul_le_mul_right q (Nat.not_lt.1 hfar)
    rw [Nat.add_mul] at hmul
    omega
  obtain heq | heq : p / q = n ∨ n = p / q + 1 := by omega
  · rw [heq] at hsplit
    have hnear : 2 * (p % q) < q := by omega
    simp only [roundDiv, hnear, if_true, heq]
  · have hn : n * q = p / q * q + q := by rw [heq, Nat.add_mul, Nat.one_mul]
    have hnear : q < 2 * (p % q) := by omega
    simp only [roundDiv, Nat.lt_asymm hnear, hnear, if_true, if_false, heq]

/-- A multiple of the grain at the size of a ratio that is nearer to it than a half. -/
theorem roundSteps_of_grain {p q g m : Nat} (hgrain : grain (p / q) = g)
    (hbelow : 2 * p < 2 * (m * g * q) + g * q) (habove : 2 * (m * g * q) < 2 * p + g * q) :
    roundSteps p q = m * g := by
  have hcomm : m * g * q = m * (q * g) := by ring
  rw [hcomm, Nat.mul_comm g q] at hbelow habove
  rw [roundSteps_eq, hgrain, roundDiv_eq_of_near hbelow habove]

/-- What stands between two multiples of `g` is a full `g` away from the other one. -/
theorem add_le_of_dvd {g a b : Nat} (ha : g ∣ a) (hb : g ∣ b) (hlt : a < b) : a + g ≤ b := by
  obtain ⟨m, rfl⟩ := ha
  obtain ⟨n, rfl⟩ := hb
  have hmn : m + 1 ≤ n := Nat.lt_of_mul_lt_mul_left hlt
  calc g * m + g = g * (m + 1) := by ring
    _ ≤ g * n := Nat.mul_le_mul_left g hmn

/-- Just below a power of two the grain is half as large as above. -/
theorem roundSteps_below_pow {k p q : Nat} (hq : 0 < q) (hlt : p < Nat.pow 2 (k + 53) * q)
    (hnear : 2 * (Nat.pow 2 (k + 53) * q) < 2 * p + Nat.pow 2 k * q) :
    roundSteps p q = Nat.pow 2 (k + 53) := by
  have hpower : Nat.pow 2 (k + 53) = 9007199254740992 * Nat.pow 2 k := by
    rw [Nat.add_comm]
    exact Nat.pow_add 2 53 k
  have hhalf : Nat.pow 2 (k + 52) = 4503599627370496 * Nat.pow 2 k := by
    rw [Nat.add_comm]
    exact Nat.pow_add 2 52 k
  have hpos : 0 < Nat.pow 2 k * q := Nat.mul_pos (Nat.pow_pos (by decide)) hq
  have hlow : Nat.pow 2 (k + 52) ≤ p / q := by
    rw [Nat.le_div_iff_mul_le hq, hhalf, Nat.mul_assoc]
    rw [hpower, Nat.mul_assoc] at hnear
    omega
  have hhigh : p / q < Nat.pow 2 (k + 53) := (Nat.div_lt_iff_lt_mul hq).2 hlt
  have hlog : (p / q).log2 = k + 52 := by
    refine (Nat.log2_eq_iff ?_).2 ⟨hlow, hhigh⟩
    exact Nat.ne_of_gt (Nat.lt_of_lt_of_le (Nat.pow_pos (by decide)) hlow)
  have hgrain : grain (p / q) = Nat.pow 2 k := by
    rw [grain, hlog]
    rfl
  rw [hpower] at hlt hnear ⊢
  exact roundSteps_of_grain hgrain (by omega) hnear

/-- A ratio that is nearer to a rounded number than to any other is rounded to it. -/
theorem roundSteps_of_near {units p q : Nat} (hunits : 0 < units) (hq : 0 < q)
    (hrounded : IsRounded units)
    (hbelow : Nat.pow 2 54 * p < Nat.pow 2 54 * (units * q) + units * q)
    (habove : Nat.pow 2 54 * (units * q) < Nat.pow 2 54 * p + units * q) :
    roundSteps p q = units := by
  have hlow : 2 ^ units.log2 ≤ units := Nat.log2_self_le (Nat.ne_of_gt hunits)
  have hhigh : units < 2 ^ (units.log2 + 1) := Nat.lt_log2_self
  have hf : p / q * q ≤ p := Nat.div_mul_le_self p q
  -- the distance is less than half the grain
  have hsize : units * q < Nat.pow 2 53 * (grain units * q) := by
    rw [← Nat.mul_assoc]
    refine Nat.mul_lt_mul_of_pos_right ?_ hq
    calc units < 2 ^ (units.log2 + 1) := hhigh
      _ ≤ 2 ^ (53 + (units.log2 + 1 - 53)) := Nat.pow_le_pow_right (by decide) (by omega)
      _ = Nat.pow 2 53 * grain units := Nat.pow_add 2 53 _
  have h53 : Nat.pow 2 53 = 9007199254740992 := rfl
  have h54 : Nat.pow 2 54 = 18014398509481984 := rfl
  rw [h53] at hsize
  rw [h54] at hbelow habove
  have hnear : 2 * p < 2 * (units * q) + grain units * q := by omega
  have hnear' : 2 * (units * q) < 2 * p + grain units * q := by omega
  obtain ⟨m, hm⟩ := id hrounded
  have hmul : m * grain units = units := by rw [Nat.mul_comm, ← hm]
  by_cases hsame : grain (p / q) = grain units
  · have hrounds := roundSteps_of_grain (m := m) hsame (by rwa [hmul]) (by rwa [hmul])
    rwa [hmul] at hrounds
  -- otherwise the ratio is below a power of two, and that is the number itself
  · have hne : (p / q).log2 ≠ units.log2 := fun h => hsame (by rw [grain, h, grain])
    have hdvd (k : Nat) (hk : units.log2 + 1 - 53 ≤ k) : grain units ∣ 2 ^ k :=
      Nat.pow_dvd_pow 2 hk
    have hlt : (p / q).log2 < units.log2 := by
      by_contra hge
      have hgap := add_le_of_dvd hrounded (hdvd (units.log2 + 1) (Nat.sub_le _ _)) hhigh
      have hpos : p / q ≠ 0 := by
        intro hzero
        rw [hzero, Nat.log2_zero] at hne hge
        omega
      have hle : units + grain units ≤ p / q := by
        calc units + grain units ≤ 2 ^ (units.log2 + 1) := hgap
          _ ≤ 2 ^ (p / q).log2 := Nat.pow_le_pow_right (by decide) (by omega)
          _ ≤ p / q := Nat.log2_self_le hpos
      have hfar := Nat.mul_le_mul_right q hle
      rw [Nat.add_mul] at hfar
      omega
    obtain ⟨k, hk⟩ : ∃ k, units.log2 = k + 53 := by
      refine ⟨units.log2 - 53, (Nat.sub_add_cancel ?_).symm⟩
      by_contra hsmall
      have hzero : units.log2 + 1 - 53 = 0 := by omega
      have hzero' : (p / q).log2 + 1 - 53 = 0 := by omega
      exact hsame (by rw [grain, grain, hzero, hzero'])
    have hgrain : grain units = 2 * Nat.pow 2 k := by
      rw [grain, hk, show k + 53 + 1 - 53 = k + 1 by omega]
      exact Nat.pow_succ'
    have hpower : Nat.pow 2 (k + 53) = 9007199254740992 * Nat.pow 2 k := by
      rw [Nat.add_comm]
      exact Nat.pow_add 2 53 k
    rw [hk] at hlow hlt
    have hp : p < Nat.pow 2 (k + 53) * q := by
      refine (Nat.div_lt_iff_lt_mul hq).1 (Nat.lt_of_lt_of_le Nat.lt_log2_self ?_)
      exact Nat.pow_le_pow_right (by decide) hlt
    have hunits : units = Nat.pow 2 (k + 53) := by
      by_contra hother
      have hgap := add_le_of_dvd (hdvd (k + 53) (by omega)) hrounded
        (Nat.lt_of_le_of_ne hlow (Ne.symm hother))
      have hfar := Nat.mul_le_mul_right q hgap
      rw [Nat.add_mul] at hfar
      change Nat.pow 2 (k + 53) * q + _ ≤ _ at hfar
      omega
    rw [hunits] at habove ⊢
    refine roundSteps_below_pow hq hp ?_
    rw [hpower, Nat.mul_assoc] at habove ⊢
    omega

theorem roundDiv_near {p q : Nat} (hq : 0 < q) :
    2 * p ≤ 2 * (roundDiv p q * q) + q ∧ 2 * (roundDiv p q * q) ≤ 2 * p + q := by
  have hsplit := Nat.div_add_mod' p q
  have hrest := Nat.mod_lt p hq
  have hnext : (p / q + 1) * q = p / q * q + q := by rw [Nat.add_mul, Nat.one_mul]
  simp only [roundDiv]
  split
  · omega
  · split
    · omega
    · split <;> omega

end Binary64

/-! ### Seventeen digits -/

namespace Decimal

open Binary64

theorem scaled_eq (units : Nat) (exponent : Int) :
    scaled units exponent =
      (units * Nat.pow 10 (-exponent).toNat, one * Nat.pow 10 exponent.toNat) := by
  have hone (n : Nat) : n * Nat.pow 10 0 = n := Nat.mul_one n
  unfold scaled
  split
  next h =>
    have hneg : (-exponent).toNat = 0 := by omega
    rw [hneg, hone]
  next h =>
    have hpos : exponent.toNat = 0 := by omega
    rw [hpos, hone]

/-- The number of digits by which the first digit of a count of steps is found. -/
theorem exists_leading {units : Nat} (hunits : 0 < units) :
    ∃ size : Nat, leading units = size - 401 ∧ 1 ≤ size ∧ (units < limit → size ≤ 709) ∧
      Nat.pow 10 (size - 1) * one ≤ units * Nat.pow 10 400 ∧
      units * Nat.pow 10 400 < Nat.pow 10 size * one := by
  have hone : 0 < one := by decide +kernel
  have hpos : 0 < units * Nat.pow 10 400 / one := by
    refine Nat.div_pos ?_ hone
    calc one ≤ Nat.pow 10 400 := by decide +kernel
      _ ≤ units * Nat.pow 10 400 := Nat.le_mul_of_pos_left _ hunits
  have hsize : 0 < (Nat.toDigits 10 (units * Nat.pow 10 400 / one)).length :=
    Nat.length_toDigits_pos
  refine ⟨(Nat.toDigits 10 (units * Nat.pow 10 400 / one)).length, rfl, hsize, ?_, ?_, ?_⟩
  · intro hlimit
    refine (Nat.length_toDigits_le_iff (by decide) (by decide)).2 ?_
    calc units * Nat.pow 10 400 / one ≤ limit * Nat.pow 10 400 / one :=
          Nat.div_le_div_right (Nat.mul_le_mul_right _ (Nat.le_of_lt hlimit))
      _ < 10 ^ 709 := by decide +kernel
  · refine (Nat.le_div_iff_mul_le hone).1 (Nat.not_lt.1 fun hlt => ?_)
    obtain hnone | hsome : (Nat.toDigits 10 (units * Nat.pow 10 400 / one)).length - 1 = 0 ∨
        0 < (Nat.toDigits 10 (units * Nat.pow 10 400 / one)).length - 1 := Nat.eq_zero_or_pos _
    · rw [hnone] at hlt
      exact absurd hpos (Nat.not_lt.2 (Nat.lt_succ_iff.1 hlt))
    · have hshort := (Nat.length_toDigits_le_iff (by decide) hsome).2 hlt
      omega
  · refine (Nat.div_lt_iff_lt_mul hone).1 ?_
    exact (Nat.length_toDigits_le_iff (by decide) hsize).1 (Nat.le_refl _)

/-- With seventeen digits a count of steps is between two powers of ten. -/
theorem scaled_bounds {units a b size n : Nat} (hsize : 1 ≤ size) (hexponent : size + b = 17 + n + a)
    (hlow : Nat.pow 10 (size - 1) * one ≤ units * Nat.pow 10 n)
    (hhigh : units * Nat.pow 10 n < Nat.pow 10 size * one) :
    Nat.pow 10 16 * (one * Nat.pow 10 a) ≤ units * Nat.pow 10 b ∧
      units * Nat.pow 10 b < Nat.pow 10 17 * (one * Nat.pow 10 a) := by
  have hfull : 10 ^ size * 10 ^ b = 10 ^ 17 * 10 ^ n * 10 ^ a := by
    rw [← pow_add, hexponent, pow_add, pow_add]
  have hless : 10 ^ (size - 1) * 10 ^ b = 10 ^ 16 * 10 ^ n * 10 ^ a := by
    have hexponent' : size - 1 + b = 16 + n + a := by omega
    rw [← pow_add, hexponent', pow_add, pow_add]
  have hpos : 0 < 10 ^ n := pow_ten_pos n
  have hpos' : 0 < 10 ^ b := pow_ten_pos b
  simp only [Nat.pow_eq] at hlow hhigh ⊢
  constructor
  · refine Nat.le_of_mul_le_mul_right ?_ hpos
    calc 10 ^ 16 * (one * 10 ^ a) * 10 ^ n = 10 ^ 16 * 10 ^ n * 10 ^ a * one := by ring
      _ = 10 ^ (size - 1) * one * 10 ^ b := by rw [← hless]; ring
      _ ≤ units * 10 ^ n * 10 ^ b := Nat.mul_le_mul_right _ hlow
      _ = units * 10 ^ b * 10 ^ n := by ring
  · refine Nat.lt_of_mul_lt_mul_right (a := 10 ^ n) ?_
    calc units * 10 ^ b * 10 ^ n = units * 10 ^ n * 10 ^ b := by ring
      _ < 10 ^ size * one * 10 ^ b := Nat.mul_lt_mul_of_pos_right hhigh hpos'
      _ = 10 ^ 17 * 10 ^ n * 10 ^ a * one := by rw [← hfull]; ring
      _ = 10 ^ 17 * (one * 10 ^ a) * 10 ^ n := by ring

/-- The nearest seventeen digits, and how near they are. -/
theorem seventeen_bounds {units : Nat} (hunits : 0 < units) {p q : Nat}
    (hscaled : scaled units (leading units - 16) = (p, q)) :
    (10000000000000000 ≤ roundDiv p q ∧ roundDiv p q ≤ 100000000000000000) ∧
      Nat.pow 2 54 * (roundDiv p q * q) < Nat.pow 2 54 * p + p ∧
        Nat.pow 2 54 * p < Nat.pow 2 54 * (roundDiv p q * q) + p := by
  obtain ⟨size, hleading, hsize, -, hlow, hhigh⟩ := exists_leading hunits
  rw [scaled_eq, Prod.mk.injEq] at hscaled
  generalize he : leading units - 16 = e at hscaled
  have hexponent : size + (-e).toNat = 17 + 400 + e.toNat := by omega
  obtain ⟨hlow', hhigh'⟩ := scaled_bounds (n := 400) hsize hexponent hlow hhigh
  have hq : 0 < one * Nat.pow 10 e.toNat := Nat.mul_pos (by decide +kernel) (pow_ten_pos _)
  rw [hscaled.1, hscaled.2] at hlow' hhigh'
  rw [hscaled.2] at hq
  obtain ⟨hnear, hnear'⟩ := roundDiv_near (p := p) hq
  generalize roundDiv p q = digits at hnear hnear' ⊢
  have h16 : Nat.pow 10 16 = 10000000000000000 := rfl
  have h17 : Nat.pow 10 17 = 100000000000000000 := rfl
  have h54 : Nat.pow 2 54 = 18014398509481984 := rfl
  rw [h16] at hlow'
  rw [h17] at hhigh'
  rw [h54]
  refine ⟨⟨?_, ?_⟩, by omega, by omega⟩
  · by_contra hfew
    have hmul := Nat.mul_le_mul_right q (Nat.le_of_lt_succ (Nat.not_le.1 hfew))
    omega
  · by_contra hmany
    have hmul := Nat.mul_le_mul_right q (Nat.succ_le_of_lt (Nat.not_le.1 hmany))
    omega

def Reads (units : Nat) (d : Decimal) : Prop :=
  0 < d.digits ∧ ∀ negative, ofDecimal negative d.digits d.exponent = .finite negative units

/-- Seventeen digits of a rounded number are read back as the number. -/
theorem reads_seventeen {units : Nat} (hunits : 0 < units) (hlimit : units < limit)
    (hrounded : IsRounded units) {p q : Nat}
    (hscaled : scaled units (leading units - 16) = (p, q)) :
    Reads units ⟨roundDiv p q, leading units - 16⟩ := by
  obtain ⟨⟨hdigits, hdigits'⟩, hnear, hnear'⟩ := seventeen_bounds hunits hscaled
  obtain ⟨size, hleading, hsize, hsize', -⟩ := exists_leading hunits
  have hsize' := hsize' hlimit
  rw [scaled_eq, Prod.mk.injEq] at hscaled
  obtain ⟨rfl, rfl⟩ := hscaled
  generalize he : leading units - 16 = e at hdigits hdigits' hnear hnear' ⊢
  generalize roundDiv (units * Nat.pow 10 (-e).toNat) (one * Nat.pow 10 e.toNat) = digits
    at hdigits hdigits' hnear hnear' ⊢
  have hmoderate : Moderate digits e := by
    have hlong : ¬ (Nat.toDigits 10 digits).length ≤ 16 := by
      rw [Nat.length_toDigits_le_iff (by decide) (by decide)]
      omega
    have hshort : (Nat.toDigits 10 digits).length ≤ 18 := by
      rw [Nat.length_toDigits_le_iff (by decide) (by decide)]
      omega
    constructor <;> omega
  have hpos : 0 < digits := Nat.lt_of_lt_of_le (by decide) hdigits
  refine ⟨hpos, fun negative => ?_⟩
  have hcomm : digits * Nat.pow 10 e.toNat * one = digits * (one * Nat.pow 10 e.toNat) := by ring
  have hrounds : roundSteps (digits * Nat.pow 10 e.toNat * one) (Nat.pow 10 (-e).toNat) = units := by
    rw [hcomm]
    exact roundSteps_of_near hunits (pow_ten_pos _) hrounded hnear hnear'
  rw [ofDecimal_of_moderate negative hpos hmoderate, ofSteps, hrounds, if_pos hlimit]

theorem ofSteps_of_positive {p q units : Nat} {negative : Bool}
    (h : ofSteps false p q = .finite false units) :
    ofSteps negative p q = .finite negative units := by
  unfold ofSteps at h ⊢
  by_cases hlimit : roundSteps p q < limit
  · rw [if_pos hlimit] at h ⊢
    obtain ⟨-, rfl⟩ := Binary64.finite.inj h
    rfl
  · rw [if_neg hlimit] at h
    cases h

/-- A decimal that reads back without a sign does so with one. -/
theorem reads_of_positive {units : Nat} (hunits : 0 < units) {d : Decimal}
    (h : ofDecimal false d.digits d.exponent = .finite false units) : Reads units d := by
  have hdigits : d.digits ≠ 0 := by
    intro hzero
    rw [hzero, ofDecimal, if_pos rfl] at h
    cases h
    exact Nat.lt_irrefl 0 hunits
  refine ⟨Nat.pos_of_ne_zero hdigits, fun negative => ?_⟩
  have hpos := Nat.pos_of_ne_zero hdigits
  by_cases hmoderate : Moderate d.digits d.exponent
  · rw [ofDecimal_of_moderate _ hpos hmoderate] at h ⊢
    exact ofSteps_of_positive h
  · rw [Moderate, not_and_or, not_le, not_le] at hmoderate
    simp only [ofDecimal, hdigits, if_false] at h
    obtain hlow | hhigh := hmoderate
    · rw [if_neg (by omega), if_pos hlow] at h
      cases h
      exact absurd hunits (Nat.lt_irrefl 0)
    · rw [if_pos hhigh] at h
      cases h

theorem search_zero {units : Nat} {lead : Int} {p q : Nat} (count : Nat)
    (hscaled : scaled units (lead - 16) = (p, q)) :
    search units lead count 0 = ⟨roundDiv p q, lead - 16⟩ := by
  simp only [search, hscaled]

theorem reads_onGrid {units : Nat} (hunits : 0 < units) {exponent : Int} {d : Decimal}
    (hgrid : onGrid units exponent = some d) : Reads units d := by
  have hreads {n : Nat} (h : decide (ofDecimal false n exponent = .finite false units) = true) :
      Reads units ⟨n, exponent⟩ :=
    reads_of_positive hunits (of_decide_eq_true h)
  have hcases {p p' : Prop} [Decidable p] [Decidable p'] {a a' : Decimal}
      (h : (if p then some a else if p' then some a' else none) = some d) :
      p ∧ d = a ∨ p' ∧ d = a' := by
    by_cases hp : p
    · rw [if_pos hp] at h
      exact .inl ⟨hp, (Option.some.inj h).symm⟩
    · rw [if_neg hp] at h
      by_cases hp' : p'
      · rw [if_pos hp'] at h
        exact .inr ⟨hp', (Option.some.inj h).symm⟩
      · rw [if_neg hp'] at h
        cases h
  unfold onGrid at hgrid
  cases hscaled : scaled units exponent with
  | mk p q =>
      simp only [hscaled] at hgrid
      obtain ⟨h, rfl⟩ | ⟨h, rfl⟩ := hcases hgrid
      · exact hreads h
      · exact hreads h

/-- What the search finds is on a grid, or has seventeen digits. -/
theorem of_search {P : Decimal → Prop} {units : Nat} {lead : Int}
    (hgrid : ∀ exponent d, onGrid units exponent = some d → P d)
    (hseventeen : ∀ p q, scaled units (lead - 16) = (p, q) → P ⟨roundDiv p q, lead - 16⟩)
    (count more : Nat) : P (search units lead count more) := by
  induction more generalizing count with
  | zero =>
      cases hscaled : scaled units (lead - 16) with
      | mk p q =>
          rw [search_zero count hscaled]
          exact hseventeen p q hscaled
  | succ more ih =>
      simp only [search]
      cases hfound : onGrid units (lead - count) with
      | some d => exact hgrid _ d hfound
      | none => exact ih (count + 1)

/-- Zeros that are dropped at the end make no difference. -/
theorem of_trim {P : Decimal → Prop}
    (hstep : ∀ digits exponent, digits % 10 = 0 → P ⟨digits, exponent⟩ →
      P ⟨digits / 10, exponent + 1⟩)
    (count : Nat) {digits : Nat} {exponent : Int} (h : P ⟨digits, exponent⟩) :
    P (trim count digits exponent) := by
  induction count generalizing digits exponent with
  | zero => exact h
  | succ count ih =>
      rw [trim]
      split
      next hzero => exact ih (hstep _ _ hzero h)
      next => exact h

theorem of_shortest {P : Decimal → Prop} {units : Nat}
    (hgrid : ∀ exponent d, onGrid units exponent = some d → P d)
    (hseventeen : ∀ p q, scaled units (leading units - 16) = (p, q) →
      P ⟨roundDiv p q, leading units - 16⟩)
    (hstep : ∀ digits exponent, digits % 10 = 0 → P ⟨digits, exponent⟩ →
      P ⟨digits / 10, exponent + 1⟩) :
    P (shortest units) := by
  have hsearch (more : Nat) : P (search units (leading units) 0 more) :=
    of_search hgrid hseventeen 0 more
  have htrim (d : Decimal) (h : P d) : P (trim 20 d.digits d.exponent) := of_trim hstep 20 h
  exact htrim _ (hsearch 17)

theorem shortest_pos {units : Nat} (hunits : 0 < units) : 0 < (shortest units).digits := by
  refine of_shortest (P := fun d => 0 < d.digits) ?_ ?_ ?_
  · exact fun exponent d hd => (reads_onGrid hunits hd).1
  · exact fun p q hscaled => Nat.lt_of_lt_of_le (by decide) (seventeen_bounds hunits hscaled).1.1
  · intro digits exponent hzero hdigits
    change 0 < digits / 10
    change 0 < digits at hdigits
    omega

theorem reads_shortest {units : Nat} (hunits : 0 < units) (hlimit : units < limit)
    (hrounded : IsRounded units) : Reads units (shortest units) := by
  refine of_shortest (fun exponent d hd => reads_onGrid hunits hd)
    (fun p q => reads_seventeen hunits hlimit hrounded) ?_
  intro digits exponent hzero h
  obtain ⟨hdigits, hreads⟩ := h
  change 0 < digits at hdigits
  have hsplit : digits / 10 * Nat.pow 10 1 = digits :=
    Nat.div_mul_cancel (Nat.dvd_of_mod_eq_zero hzero)
  have hpos : 0 < digits / 10 := by omega
  refine ⟨hpos, fun negative => ?_⟩
  have hscale := ofDecimal_mul_pow hpos negative (exponent + 1) 1
  rw [hsplit, Nat.cast_one, add_sub_cancel_right] at hscale
  rw [← hscale]
  exact hreads negative

end Decimal

end Pagescript
