import Mathlib.Data.List.Forall2
import Mathlib.Data.List.TakeWhile
import Pagescript.Key
/-!
# Combinations of keys

A key is the row of its parts with `+` between them, and there is one such row.  A combination, which
is what is normalized part by part, has at least two parts that are not empty.  A key with only one is
taken as it is, also if it ends in `+`, so a modifier with the plus key is left as it was written.
What is normalized is not changed by being normalized again, and the row keeps its shape: each part
is empty exactly if it was.
-/

namespace Pagescript.Key

/-! ### Parts -/

theorem split_eq (part cs : List Char) :
    split part cs = (cs.splitOnPPrepend (· == '+') part).map String.ofList := by
  induction cs generalizing part with
  | nil => rfl
  | cons c rest ih =>
      rw [split, List.splitOnPPrepend_cons_eq_if]
      by_cases hc : c = '+'
      · rw [if_pos hc, if_pos (by simpa using hc), ih, List.splitOnP_eq_splitOnPPrepend]
        rfl
      · rw [if_neg hc, if_neg (by simpa using hc), ih]

theorem parts_eq (key : String) : parts key = (key.toList.splitOn '+').map String.ofList := by
  rw [parts, split_eq, List.splitOn_eq_splitOnP, List.splitOnP_eq_splitOnPPrepend]

theorem parts_ne_nil (key : String) : parts key ≠ [] := by
  rw [parts_eq]
  simp

theorem intercalate_parts (key : String) : "+".intercalate (parts key) = key := by
  apply String.toList_inj.1
  rw [String.toList_intercalate, parts_eq, List.map_map]
  simp only [Function.comp_def, String.toList_ofList, List.map_id']
  exact List.intercalate_splitOn '+'

theorem plus_not_mem_of_mem_split {part cs : List Char} {p : String} (hpart : '+' ∉ part)
    (hp : p ∈ split part cs) : '+' ∉ p.toList := by
  induction cs generalizing part with
  | nil =>
      rw [List.mem_singleton.1 hp]
      simpa using hpart
  | cons c rest ih =>
      rw [split] at hp
      split at hp
      · obtain rfl | hp := List.mem_cons.1 hp
        · simpa using hpart
        · exact ih (by simp) hp
      next hc =>
        apply ih _ hp
        simp only [List.mem_cons, not_or]
        exact ⟨fun h => hc h.symm, hpart⟩

theorem plus_not_mem_of_mem_parts {key p : String} (hp : p ∈ parts key) : '+' ∉ p.toList :=
  plus_not_mem_of_mem_split (by simp) hp

/-- The parts of a row of texts without `+` are these texts. -/
theorem parts_intercalate {ps : List String} (hps : ps ≠ []) (hplus : ∀ p ∈ ps, '+' ∉ p.toList) :
    parts ("+".intercalate ps) = ps := by
  rw [parts_eq, String.toList_intercalate]
  have hsplit : (['+'].intercalate (ps.map String.toList)).splitOn '+' = ps.map String.toList := by
    apply List.splitOn_intercalate
    · simpa using hplus
    · simpa using hps
  rw [show "+".toList = ['+'] from rfl, hsplit, List.map_map]
  simp [Function.comp_def]

theorem parts_of_plus_not_mem {key : String} (hplus : '+' ∉ key.toList) : parts key = [key] := by
  have hrow := parts_intercalate (List.cons_ne_nil key []) (by simpa using hplus)
  rwa [String.intercalate_singleton] at hrow

theorem parts_append_plus_append (left right : String) :
    parts (left ++ "+" ++ right) = parts left ++ parts right := by
  have hrow : left ++ "+" ++ right = "+".intercalate (parts left ++ parts right) := by
    rw [String.intercalate_append_of_ne_nil (parts_ne_nil left) (parts_ne_nil right),
      intercalate_parts, intercalate_parts]
  rw [hrow]
  apply parts_intercalate
  · simp [parts_ne_nil]
  · intro p hp
    obtain hp | hp := List.mem_append.1 hp
    · exact plus_not_mem_of_mem_parts hp
    · exact plus_not_mem_of_mem_parts hp

/-! ### Combinations -/

theorem exists_mem_split_ne_empty_iff (part cs : List Char) :
    (∃ p ∈ split part cs, p ≠ "") ↔ part ≠ [] ∨ ∃ c ∈ cs, c ≠ '+' := by
  induction cs generalizing part with
  | nil => simp [split, String.ofList_eq_empty_iff]
  | cons c rest ih =>
      rw [split]
      by_cases hc : c = '+'
      · rw [if_pos hc]
        simp only [List.mem_cons, exists_eq_or_imp, ih, hc]
        simp [String.ofList_eq_empty_iff]
      · rw [if_neg hc, ih]
        simp [hc]

theorem exists_mem_parts_ne_empty_iff (key : String) :
    (∃ p ∈ parts key, p ≠ "") ↔ ∃ c ∈ key.toList, c ≠ '+' := by
  rw [parts, exists_mem_split_ne_empty_iff]
  simp

theorem exists_ne_plus_of_dropWhile {cs l r : List Char}
    (hdrop : cs.dropWhile (· = '+') = l ++ '+' :: r) : ∃ c ∈ l, c ≠ '+' := by
  have hhead : ∀ c ∈ (cs.dropWhile (· = '+')).head?, c ≠ '+' := by
    intro c hc
    have hfirst := List.head?_dropWhile_not (· = '+') cs
    rw [hc] at hfirst
    simpa using hfirst
  rw [hdrop] at hhead
  cases l with
  | nil => exact absurd rfl (hhead '+' rfl)
  | cons c l => exact ⟨c, List.mem_cons_self, hhead c rfl⟩

theorem dropWhile_append_of_exists {l : List Char} (hl : ∃ c ∈ l, c ≠ '+') (r : List Char) :
    (l ++ r).dropWhile (· = '+') = l.dropWhile (· = '+') ++ r := by
  have hkept : l.dropWhile (· = '+') ≠ [] := by
    intro hnil
    obtain ⟨c, hc, hplus⟩ := hl
    exact hplus (by simpa using List.dropWhile_eq_nil_iff.1 hnil c hc)
  rw [List.dropWhile_append, if_neg (by simpa using hkept)]

/-- A key is a combination if some `+` in it has another character on either side. -/
theorem isCombination_iff_exists (key : String) :
    isCombination key = true ↔ ∃ l r, key.toList = l ++ '+' :: r ∧
      (∃ c ∈ l, c ≠ '+') ∧ ∃ c ∈ r, c ≠ '+' := by
  simp only [isCombination, List.contains_iff_mem, List.mem_reverse]
  constructor
  · intro hplus
    obtain ⟨s, t, hinner⟩ := List.append_of_mem hplus
    obtain ⟨c, hc, hcs⟩ := exists_ne_plus_of_dropWhile hinner
    -- `front` and `back` are the `+` at the two ends; the list in between was reversed meanwhile
    obtain ⟨front, hfront⟩ := List.dropWhile_suffix (· = '+') (l := key.toList)
    obtain ⟨back, hback⟩ := List.dropWhile_suffix (· = '+')
      (l := (key.toList.dropWhile (· = '+')).reverse)
    have hkept : key.toList.dropWhile (· = '+') = t.reverse ++ '+' :: (s.reverse ++ back.reverse) := by
      rw [← List.reverse_inj, ← hback, hinner]
      simp
    obtain ⟨d, hd, hdt⟩ := exists_ne_plus_of_dropWhile hkept
    refine ⟨front ++ t.reverse, s.reverse ++ back.reverse, ?_, ⟨d, ?_, hdt⟩, ⟨c, ?_, hcs⟩⟩
    · rw [List.append_assoc, ← hkept, hfront]
    · exact List.mem_append_right _ hd
    · exact List.mem_append_left _ (List.mem_reverse.2 hc)
  · rintro ⟨l, r, hkey, hl, ⟨c, hc, hcr⟩⟩
    have hr : ∃ c ∈ r.reverse, c ≠ '+' := ⟨c, List.mem_reverse.2 hc, hcr⟩
    rw [hkey, dropWhile_append_of_exists hl, List.reverse_append, List.reverse_cons,
      List.append_assoc, dropWhile_append_of_exists hr]
    simp

theorem exists_append_of_two_le_countP {α : Type} {p : α → Bool} {xs : List α}
    (hcount : 2 ≤ xs.countP p) :
    ∃ ys zs, xs = ys ++ zs ∧ (∃ y ∈ ys, p y) ∧ ∃ z ∈ zs, p z := by
  induction xs with
  | nil => simp at hcount
  | cons x xs ih =>
      by_cases hx : p x
      · rw [List.countP_cons_of_pos hx] at hcount
        exact ⟨[x], xs, rfl, ⟨x, by simp, hx⟩, List.countP_pos_iff.1 (by omega)⟩
      · rw [List.countP_cons_of_neg hx] at hcount
        obtain ⟨ys, zs, rfl, ⟨y, hy, hpy⟩, hz⟩ := ih hcount
        exact ⟨x :: ys, zs, rfl, ⟨y, List.mem_cons_of_mem x hy, hpy⟩, hz⟩

/-- A key is a combination if it has at least two parts that are not empty. -/
theorem isCombination_iff (key : String) :
    isCombination key = true ↔ 2 ≤ (parts key).countP (· ≠ "") := by
  rw [isCombination_iff_exists]
  constructor
  · rintro ⟨l, r, hkey, hl, hr⟩
    have hrow : key = String.ofList l ++ "+" ++ String.ofList r := by
      apply String.toList_inj.1
      simp [hkey]
    have hpos (cs : List Char) (hcs : ∃ c ∈ cs, c ≠ '+') :
        0 < (parts (String.ofList cs)).countP (· ≠ "") := by
      apply List.countP_pos_iff.2
      simpa using (exists_mem_parts_ne_empty_iff (String.ofList cs)).2 (by simpa using hcs)
    have hleft := hpos l hl
    have hright := hpos r hr
    rw [hrow, parts_append_plus_append, List.countP_append]
    omega
  · intro hcount
    obtain ⟨ys, zs, hparts, ⟨y, hy, hyne⟩, ⟨z, hz, hzne⟩⟩ := exists_append_of_two_le_countP hcount
    have hside (ps : List String) (hps : ∀ p ∈ ps, p ∈ parts key) {p : String} (hp : p ∈ ps)
        (hne : p ≠ "") : ∃ c ∈ ("+".intercalate ps).toList, c ≠ '+' := by
      rw [← exists_mem_parts_ne_empty_iff, parts_intercalate (List.ne_nil_of_mem hp)]
      · exact ⟨p, hp, hne⟩
      · exact fun p hp => plus_not_mem_of_mem_parts (hps p hp)
    refine ⟨("+".intercalate ys).toList, ("+".intercalate zs).toList, ?_, ?_, ?_⟩
    · have hkey := intercalate_parts key
      rw [hparts, String.intercalate_append_of_ne_nil (List.ne_nil_of_mem hy)
        (List.ne_nil_of_mem hz)] at hkey
      rw [← hkey]
      simp
    · exact hside ys (by simp +contextual [hparts]) hy (by simpa using hyne)
    · exact hside zs (by simp +contextual [hparts]) hz (by simpa using hzne)

theorem plus_mem_of_isCombination {key : String} (hkey : isCombination key = true) :
    '+' ∈ key.toList ∧ key.length ≠ 1 := by
  obtain ⟨l, r, hrow, ⟨c, hc, -⟩, -⟩ := (isCombination_iff_exists key).1 hkey
  have hl := List.length_pos_of_mem hc
  rw [← String.length_toList, hrow]
  simp only [List.length_append, List.length_cons]
  exact ⟨by simp, by omega⟩

/-! ### Names -/

theorem named_stable : ∀ name ∈ named, '+' ∉ name.toList ∧ name ≠ "" ∧ single name = name := by
  decide +kernel

theorem table_named : ∀ entry ∈ table, '+' ∉ entry.1.toList ∧ entry.1 ≠ "" ∧ entry.2 ∈ named := by
  decide +kernel

theorem lookup_cases (written fallback : String) :
    lookup written fallback = fallback ∨
      '+' ∉ written.toList ∧ written ≠ "" ∧ lookup written fallback ∈ named := by
  unfold lookup
  cases hentry : table.lookup written with
  | none => exact .inl rfl
  | some name =>
      obtain ⟨before, after, htable, -⟩ := List.lookup_eq_some_iff.1 hentry
      exact .inr (table_named (written, name) (by simp [htable]))

theorem plus_mem_lower {s : String} (hs : '+' ∈ s.toList) : '+' ∈ (Text.lower s).toList := by
  rw [Text.lower, String.toList_ofList, List.mem_map]
  exact ⟨'+', hs, by decide⟩

theorem single_cases (key : String) :
    single key = key ∨ '+' ∉ key.toList ∧ key ≠ "" ∧ single key ∈ named := by
  unfold single
  split
  · exact lookup_cases key key
  · obtain hsame | ⟨hplus, hne, hname⟩ := lookup_cases (Text.lower key) key
    · exact .inl hsame
    · refine .inr ⟨fun h => hplus (plus_mem_lower h), ?_, hname⟩
      rintro rfl
      exact hne rfl

theorem single_of_plus_mem {key : String} (hplus : '+' ∈ key.toList) : single key = key := by
  obtain hsame | ⟨hfree, -⟩ := single_cases key
  · exact hsame
  · exact absurd hplus hfree

theorem plus_not_mem_single {key : String} (hplus : '+' ∉ key.toList) :
    '+' ∉ (single key).toList := by
  obtain hsame | ⟨-, -, hname⟩ := single_cases key
  · rwa [hsame]
  · exact (named_stable _ hname).1

@[simp]
theorem single_eq_empty_iff (key : String) : single key = "" ↔ key = "" := by
  obtain hsame | ⟨-, hne, hname⟩ := single_cases key
  · rw [hsame]
  · exact iff_of_false (named_stable _ hname).2.1 hne

@[simp]
theorem single_single (key : String) : single (single key) = single key := by
  obtain hsame | ⟨-, -, hname⟩ := single_cases key
  · rw [hsame, hsame]
  · exact (named_stable _ hname).2.2

/-! ### Normal forms -/

theorem normalize_of_isCombination {key : String} (hkey : isCombination key = true) :
    normalize key = "+".intercalate ((parts key).map single) := by
  have hlength := (plus_mem_of_isCombination hkey).2
  rw [normalize, if_pos (by simp [hkey, hlength])]

theorem normalize_of_not_isCombination {key : String} (hkey : isCombination key = false) :
    normalize key = single key := by
  rw [normalize, if_neg (by simp [hkey])]

theorem normalize_of_plus_not_mem {key : String} (hplus : '+' ∉ key.toList) :
    normalize key = single key := by
  apply normalize_of_not_isCombination
  rw [← Bool.not_eq_true]
  exact fun hkey => hplus (plus_mem_of_isCombination hkey).1

theorem map_normalize_parts (key : String) : (parts key).map normalize = (parts key).map single :=
  List.map_congr_left fun _ hp => normalize_of_plus_not_mem (plus_not_mem_of_mem_parts hp)

theorem parts_intercalate_map_single (key : String) :
    parts ("+".intercalate ((parts key).map single)) = (parts key).map single := by
  apply parts_intercalate
  · simpa using parts_ne_nil key
  · intro p hp
    obtain ⟨q, hq, rfl⟩ := List.mem_map.1 hp
    exact plus_not_mem_single (plus_not_mem_of_mem_parts hq)

/-- Either every part is normalized, or there are no two parts to tell apart and nothing is. -/
theorem parts_normalize_cases (key : String) :
    parts (normalize key) = (parts key).map single ∨
      isCombination key = false ∧ normalize key = key := by
  by_cases hkey : isCombination key = true
  · rw [normalize_of_isCombination hkey]
    exact .inl (parts_intercalate_map_single key)
  · rw [Bool.not_eq_true] at hkey
    rw [normalize_of_not_isCombination hkey]
    by_cases hplus : '+' ∈ key.toList
    · exact .inr ⟨hkey, single_of_plus_mem hplus⟩
    · rw [parts_of_plus_not_mem hplus, parts_of_plus_not_mem (plus_not_mem_single hplus)]
      exact .inl rfl

theorem isCombination_normalize (key : String) :
    isCombination (normalize key) = isCombination key := by
  obtain hparts | ⟨-, hsame⟩ := parts_normalize_cases key
  · apply Bool.eq_iff_iff.2
    rw [isCombination_iff, isCombination_iff, hparts, List.countP_map]
    simp [Function.comp_def]
  · rw [hsame]

/-- Which keys are normalized part by part.

A key in which a `+` stands is normalized part by part exactly if two of its parts at least are not
empty, or if there is nothing to normalize in any part.  With fewer such parts the key is left as it
is written: the name of a modifier is not looked up in front of the plus key, unless another name
comes before it. -/
theorem normalize_part_by_part_iff {key : String} (hplus : '+' ∈ key.toList) :
    (normalize key = "+".intercalate ((parts key).map normalize) ↔
        2 ≤ (parts key).countP (· ≠ "") ∨ ∀ p ∈ parts key, normalize p = p) ∧
      ((parts key).countP (· ≠ "") < 2 → normalize key = key) := by
  have hleft (hkey : isCombination key = false) : normalize key = key := by
    rw [normalize_of_not_isCombination hkey, single_of_plus_mem hplus]
  have hstill : (parts key).map single = parts key ↔ ∀ p ∈ parts key, normalize p = p := by
    rw [← map_normalize_parts, ← List.map_id (parts key)]
    simpa using List.map_inj_left (f := normalize) (g := id)
  rw [map_normalize_parts, ← isCombination_iff, ← hstill]
  constructor
  · constructor
    · intro heq
      by_cases hkey : isCombination key = true
      · exact .inl hkey
      · -- the key is its own normal form, and its parts can be read off it
        rw [hleft (by simpa using hkey)] at heq
        have hparts := parts_intercalate_map_single key
        rw [← heq] at hparts
        exact .inr hparts.symm
    · rintro (hkey | hall)
      · exact normalize_of_isCombination hkey
      · by_cases hkey : isCombination key = true
        · exact normalize_of_isCombination hkey
        · rw [hleft (by simpa using hkey), hall, intercalate_parts]
  · intro hcount
    apply hleft
    rw [← Bool.not_eq_true, isCombination_iff]
    omega

/-- A modifier with the plus key is left as it is written, but two of them are not. -/
theorem normalize_part_by_part_iff_plus :
    (normalize "ctrl++" = "ctrl++" ∧
        normalize "ctrl++" ≠ "+".intercalate ((parts "ctrl++").map normalize)) ∧
      normalize "ctrl+shift++" = "+".intercalate ((parts "ctrl+shift++").map normalize) := by
  obtain ⟨hone, hleft⟩ := @normalize_part_by_part_iff "ctrl++" (by decide)
  obtain ⟨htwo, -⟩ := @normalize_part_by_part_iff "ctrl+shift++" (by decide)
  refine ⟨⟨hleft (by decide), ?_⟩, htwo.2 (.inl (by decide))⟩
  rw [Ne, hone]
  decide +kernel

/-- A normal form is not changed by being normalized, and the row of parts keeps its shape. -/
theorem normalize_keeps_shape (key : String) :
    normalize (normalize key) = normalize key ∧
      List.Forall₂ (fun p q => p = "" ↔ q = "") (parts (normalize key)) (parts key) := by
  obtain hparts | ⟨-, hsame⟩ := parts_normalize_cases key
  · constructor
    · by_cases hkey : isCombination key = true
      · have hagain : isCombination (normalize key) = true := by
          rw [isCombination_normalize, hkey]
        calc normalize (normalize key)
            = "+".intercalate ((parts (normalize key)).map single) :=
              normalize_of_isCombination hagain
          _ = "+".intercalate ((parts key).map single) := by
              rw [hparts, List.map_map]
              simp [Function.comp_def]
          _ = normalize key := (normalize_of_isCombination hkey).symm
      · rw [Bool.not_eq_true] at hkey
        have hagain : isCombination (normalize key) = false := by
          rw [isCombination_normalize, hkey]
        rw [normalize_of_not_isCombination hagain, normalize_of_not_isCombination hkey,
          single_single]
    · rw [hparts, List.forall₂_map_left_iff]
      exact List.forall₂_same.2 fun p _ => single_eq_empty_iff p
  · rw [hsame]
    exact ⟨hsame, List.forall₂_same.2 fun _ _ => Iff.rfl⟩

end Pagescript.Key
