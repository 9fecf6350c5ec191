import Mathlib.Data.List.TakeWhile
import Pagescript.Path
/-!
# Paths and their texts

The parts of a path that was made of a text hold no slash and are neither empty nor a point, so the
text of the path has the same parts and begins with the same slashes: it reads back as the path.
-/

namespace Pagescript

namespace Path

theorem split_of_slash_not_mem {cs : List Char} (hcs : '/' ∉ cs) (part : List Char) :
    split part cs = [String.ofList (part.reverse ++ cs)] := by
  induction cs generalizing part with
  | nil => simp [split]
  | cons c rest ih =>
      simp only [List.mem_cons, not_or] at hcs
      rw [split, if_neg (Ne.symm hcs.1), ih hcs.2]
      simp

theorem split_append_slash {cs : List Char} (hcs : '/' ∉ cs) (part rest : List Char) :
    split part (cs ++ '/' :: rest) = String.ofList (part.reverse ++ cs) :: split [] rest := by
  induction cs generalizing part with
  | nil => simp [split]
  | cons c cs ih =>
      simp only [List.mem_cons, not_or] at hcs
      rw [List.cons_append, split, if_neg (Ne.symm hcs.1), ih hcs.2]
      simp

theorem slash_not_mem_of_mem_split {part cs : List Char} {p : String} (hpart : '/' ∉ part)
    (hp : p ∈ split part cs) : '/' ∉ p.toList := by
  induction cs generalizing part with
  | nil =>
      rw [List.mem_singleton.1 hp]
      simpa using hpart
  | cons c rest ih =>
      rw [split] at hp
      split at hp
      · obtain rfl | hp := List.mem_cons.1 hp
        · simpa using hpart
        · exact ih List.not_mem_nil hp
      next hc =>
        apply ih _ hp
        simp only [List.mem_cons, not_or]
        exact ⟨Ne.symm hc, hpart⟩

/-- The parts that count. -/
def counts (part : String) : Bool :=
  part ≠ "" && part ≠ "."

/-- The parts of a text that count. -/
def partsOf (cs : List Char) : List String :=
  (split [] cs).filter counts

theorem partsOf_intercalate {ps : List String} (hslash : ∀ p ∈ ps, '/' ∉ p.toList)
    (hcounts : ∀ p ∈ ps, counts p) : partsOf ("/".intercalate ps).toList = ps := by
  induction ps with
  | nil => rfl
  | cons p rest ih =>
      have hp : counts p := hcounts p List.mem_cons_self
      have hplain : '/' ∉ p.toList := hslash p List.mem_cons_self
      cases rest with
      | nil =>
          rw [String.intercalate_singleton, partsOf, split_of_slash_not_mem hplain]
          simp [hp]
      | cons q rest =>
          have hrest := ih (fun r hr => hslash r (List.mem_cons_of_mem p hr))
            fun r hr => hcounts r (List.mem_cons_of_mem p hr)
          have hrow : ("/".intercalate (p :: q :: rest)).toList =
              p.toList ++ '/' :: ("/".intercalate (q :: rest)).toList := by
            simp
          rw [hrow, partsOf, split_append_slash hplain, List.filter_cons]
          simp only [List.reverse_nil, List.nil_append, String.ofList_toList, if_pos hp]
          rw [← partsOf, hrest]

/-- The parts of a path are texts between slashes that count, and the slashes it begins with make its
root. -/
structure Normal (path : Path) : Prop where
  slash : ∀ p ∈ path.parts, '/' ∉ p.toList
  counts : ∀ p ∈ path.parts, counts p
  root : path.root = "" ∨ path.root = "/" ∨ path.root = "//"

theorem normal_ofString (s : String) : (ofString s).Normal where
  slash _ hp := slash_not_mem_of_mem_split List.not_mem_nil (List.mem_filter.1 hp).1
  counts _ hp := (List.mem_filter.1 hp).2
  root := by
    simp only [ofString, rootOf]
    split
    · exact .inl rfl
    · split
      · exact .inr (.inr rfl)
      · exact .inr (.inl rfl)

theorem takeWhile_intercalate {ps : List String} (hslash : ∀ p ∈ ps, '/' ∉ p.toList)
    (hcounts : ∀ p ∈ ps, counts p) :
    ("/".intercalate ps).toList.takeWhile (· = '/') = [] := by
  cases ps with
  | nil => rfl
  | cons p rest =>
      have hp : p.toList ≠ [] := by
        intro hnil
        have hempty : p = "" := String.toList_eq_nil_iff.1 hnil
        simpa [counts, hempty] using hcounts p List.mem_cons_self
      obtain ⟨c, cs, hcs⟩ := List.exists_cons_of_ne_nil hp
      have hc : c ≠ '/' := by
        rintro rfl
        exact hslash p List.mem_cons_self (hcs ▸ List.mem_cons_self)
      cases rest with
      | nil => simp [hcs, hc]
      | cons q rest => simp [hcs, hc]

/-- The text of a path reads back as the path. -/
theorem ofString_toString {path : Path} (hpath : path.Normal) : ofString path.toString = path := by
  obtain ⟨root, parts⟩ := path
  obtain ⟨hslash, hcounts, hroot⟩ := hpath
  have hparts := partsOf_intercalate hslash hcounts
  have hfirst := takeWhile_intercalate hslash hcounts
  simp only at hroot hparts hfirst
  obtain rfl | rfl | rfl := hroot
  · cases parts with
    | nil => decide
    | cons p rest =>
        have htext : toString ⟨"", p :: rest⟩ = "/".intercalate (p :: rest) := by
          simp [toString]
        rw [htext, ofString, hfirst]
        exact congrArg (Path.mk "") hparts
  · have htext : (toString ⟨"/", parts⟩).toList = '/' :: ("/".intercalate parts).toList := by
      simp [toString]
    rw [ofString, htext, List.takeWhile_cons_of_pos (by decide), hfirst]
    exact congrArg (Path.mk "/") hparts
  · have htext : (toString ⟨"//", parts⟩).toList = '/' :: '/' :: ("/".intercalate parts).toList := by
      simp [toString]
    rw [ofString, htext, List.takeWhile_cons_of_pos (by decide),
      List.takeWhile_cons_of_pos (by decide), hfirst]
    exact congrArg (Path.mk "//") hparts

end Path

end Pagescript
