import Pagescript.Json.Writer
/-!
# JSON on one line

Without indentation a value is written on one line, whatever texts it holds.
-/

namespace Pagescript

/-- The text has no line feed in it. -/
def OneLine (s : String) : Prop :=
  '\n' ∉ s.toList

instance (s : String) : Decidable (OneLine s) :=
  inferInstanceAs (Decidable ('\n' ∉ s.toList))

namespace OneLine

theorem append {s t : String} (hs : OneLine s) (ht : OneLine t) : OneLine (s ++ t) := by
  unfold OneLine
  rw [String.toList_append, List.mem_append]
  exact not_or.2 ⟨hs, ht⟩

theorem ofList {cs : List Char} (hcs : '\n' ∉ cs) : OneLine (String.ofList cs) := by
  rw [OneLine, String.toList_ofList]
  exact hcs

theorem intercalate {separator : String} (hseparator : OneLine separator) {items : List String}
    (hitems : ∀ s ∈ items, OneLine s) : OneLine (separator.intercalate items) := by
  induction items with
  | nil =>
      rw [String.intercalate_nil]
      exact List.not_mem_nil
  | cons s rest ih =>
      have hs := hitems s List.mem_cons_self
      by_cases hrest : rest = []
      · rw [hrest, String.intercalate_singleton]
        exact hs
      · rw [String.intercalate_cons_of_ne_nil hrest]
        exact (hs.append hseparator).append (ih fun t ht => hitems t (List.mem_cons_of_mem _ ht))

end OneLine

theorem newline_not_mem_toDigits (n : Nat) : '\n' ∉ Nat.toDigits 10 n := by
  intro hmem
  have hdigit := Nat.isDigit_of_mem_toDigits (by decide) (by decide) hmem
  exact absurd hdigit (by decide)

theorem oneLine_toString (i : Int) : OneLine (toString i) := by
  have hrepr (n : Nat) : OneLine n.repr := .ofList (newline_not_mem_toDigits n)
  cases i with
  | ofNat n => exact hrepr n
  | negSucc n => exact OneLine.append (by decide) (hrepr (n + 1))

namespace NumberFormat

theorem newline_not_mem_positive (format : NumberFormat) {ds : List Char} (hds : '\n' ∉ ds)
    (lead : Int) : '\n' ∉ format.positive ds lead := by
  have htake (n : Nat) : '\n' ∉ ds.take n := fun h => hds (List.mem_of_mem_take h)
  have hdrop (n : Nat) : '\n' ∉ ds.drop n := fun h => hds (List.mem_of_mem_drop h)
  have hzeros (n : Nat) : '\n' ∉ zeros n := by simp [zeros]
  have hpower : '\n' ∉ power lead := by
    have hdigits := newline_not_mem_toDigits lead.natAbs
    simp only [power, List.mem_cons, not_or]
    refine ⟨by decide, ?_, ?_⟩
    · split <;> decide
    · split
      · simp [hdigits]
      · exact hdigits
  have hfraction (n : Nat) : '\n' ∉ (if ds.drop n = [] then ['0'] else ds.drop n) := by
    split
    · decide
    · exact hdrop n
  have hpoint : '\n' ∉ (if ds.drop 1 = [] then [] else '.' :: ds.drop 1) := by
    split
    · exact List.not_mem_nil
    · exact List.not_mem_cons_of_ne_of_not_mem (by decide) (hdrop 1)
  simp only [positive]
  split
  · split
    · simp [hzeros, hds]
    · simp only [List.mem_append, List.mem_cons, not_or]
      exact ⟨⟨htake _, hzeros _⟩, by decide, hfraction _⟩
  · simp only [List.mem_append, not_or]
    exact ⟨⟨htake 1, hpoint⟩, hpower⟩

theorem exists_write_finite (format : NumberFormat) (negative : Bool) (units : Nat) :
    ∃ body, ('\n' ∉ body) ∧ format.write (.finite negative units) =
      String.ofList (if negative then '-' :: body else body) := by
  unfold write
  refine ⟨_, ?_, rfl⟩
  split
  · decide
  · exact format.newline_not_mem_positive (newline_not_mem_toDigits _) _

theorem oneLine_write {format : NumberFormat} (hnan : OneLine format.nan)
    (hinfinity : OneLine format.infinity) (x : Binary64) : OneLine (format.write x) := by
  cases x with
  | nan => exact hnan
  | infinite negative =>
      refine OneLine.append ?_ hinfinity
      cases negative <;> decide
  | finite negative units =>
      obtain ⟨body, hbody, heq⟩ := format.exists_write_finite negative units
      rw [heq]
      refine .ofList ?_
      cases negative
      · exact hbody
      · exact List.not_mem_cons_of_ne_of_not_mem (by decide) hbody

end NumberFormat

namespace Json

theorem newline_not_mem_numberEscape {code : Nat} (hcode : code < 0x20) :
    '\n' ∉ numberEscape code := by
  have hall : ∀ code < 0x20, '\n' ∉ numberEscape code := by decide
  exact hall code hcode

theorem newline_not_mem_escapeChar (c : Char) : '\n' ∉ escapeChar false c := by
  by_cases hc : c = '\n'
  · rw [hc]
    decide
  · unfold escapeChar
    simp only [Bool.false_and, Bool.or_false, decide_eq_true_eq, hc, if_false]
    iterate 5
      split
      · simp [Ne.symm hc]
    split
    next hcode => exact newline_not_mem_numberEscape hcode
    · simp [Ne.symm hc]

theorem oneLine_string (s : String) : OneLine (string false s) := by
  refine .ofList ?_
  simp only [List.mem_append, List.mem_cons, List.mem_flatMap, not_or, List.not_mem_nil]
  refine ⟨⟨by decide, ?_⟩, by decide, id⟩
  rintro ⟨c, -, hc⟩
  exact newline_not_mem_escapeChar c hc

theorem oneLine_enclose (level : Nat) {left right : String} (hleft : OneLine left)
    (hright : OneLine right) {items : List String} (hitems : ∀ s ∈ items, OneLine s) :
    OneLine (Style.line.enclose level left right items) := by
  cases items with
  | nil => exact hleft.append hright
  | cons s rest =>
      exact (hleft.append (OneLine.intercalate (by decide) hitems)).append hright

mutual

theorem oneLine_render (level : Nat) : (v : Value) → OneLine (render .line level v)
  | .null => show OneLine "null" by decide
  | .bool true => show OneLine "true" by decide
  | .bool false => show OneLine "false" by decide
  | .int i => oneLine_toString i
  | .float x => NumberFormat.oneLine_write (by decide) (by decide) x
  | .text s => oneLine_string s
  | .list xs | .tuple xs =>
    oneLine_enclose level (by decide) (by decide) (oneLine_renderAll (level + 1) xs)
  | .mapping fields => by
      refine oneLine_enclose level (by decide) (by decide) ?_
      exact oneLine_renderFields (level + 1) fields
  | .bytes bs => oneLine_string _
  | .date _ | .time _ | .moment _ _ _ | .foreign _ => oneLine_string _
termination_by structural v => v

theorem oneLine_renderAll (level : Nat) :
    (vs : List Value) → ∀ s ∈ renderAll .line level vs, OneLine s
  | [] => nofun
  | v :: rest => by
      intro s hs
      obtain rfl | hs := List.mem_cons.1 hs
      · exact oneLine_render level v
      · exact oneLine_renderAll level rest s hs
termination_by structural vs => vs

theorem oneLine_renderFields (level : Nat) : (fields : List (String × Value)) →
    ∀ s ∈ Style.line.arrange (renderFields .line level fields), OneLine s
  | [] => nofun
  | (key, v) :: rest => by
      intro s hs
      obtain rfl | hs := List.mem_cons.1 hs
      · exact ((oneLine_string key).append (by decide)).append (oneLine_render level v)
      · exact oneLine_renderFields level rest s hs
termination_by structural fs => fs

end

end Json

end Pagescript
