import Pagescript.Document
/-!
# Readers with wider limits

A reader of JSON text with wider limits reads whatever a reader with narrower ones reads, as the same
value.  A reader that counts empty containers needs one level more to be the wider one.
-/

namespace Pagescript

namespace Text

theorem codeChar?_replaced {code : Nat} {c : Char} (hcode : codeChar? .refused code = some c) :
    codeChar? .replaced code = some c := by
  unfold codeChar? at hcode ⊢
  split at hcode
  · cases hcode
  next hhalf =>
    rw [if_neg hhalf]
    exact hcode

/-- What is read without halves of pairs is read in the same way if they are let through. -/
theorem joinUnits_replaced {units : List Nat} {cs : List Char}
    (hunits : joinUnits .refused units = some cs) : joinUnits .replaced units = some cs := by
  induction units using joinUnits.induct generalizing cs with
  | case1 => exact hunits
  | case2 unit =>
      obtain ⟨c, hc, rfl⟩ := Option.map_eq_some_iff.1 hunits
      rw [joinUnits, codeChar?_replaced hc]
      rfl
  | case3 unit low rest hpair ih =>
      rw [joinUnits, if_pos hpair] at hunits ⊢
      obtain ⟨c, hc, hrest⟩ := Option.bind_eq_some_iff.1 hunits
      obtain ⟨cs', hcs', hcons⟩ := Option.bind_eq_some_iff.1 hrest
      rw [hc]
      exact Option.bind_eq_some_iff.2 ⟨c, rfl, Option.bind_eq_some_iff.2 ⟨cs', ih hcs', hcons⟩⟩
  | case4 unit low rest hpair ih =>
      rw [joinUnits, if_neg hpair] at hunits ⊢
      obtain ⟨c, hc, hrest⟩ := Option.bind_eq_some_iff.1 hunits
      obtain ⟨cs', hcs', hcons⟩ := Option.bind_eq_some_iff.1 hrest
      rw [codeChar?_replaced hc]
      exact Option.bind_eq_some_iff.2 ⟨c, rfl, Option.bind_eq_some_iff.2 ⟨cs', ih hcs', hcons⟩⟩

end Text

namespace Json

/-- Apart from the nesting, whatever the first limits admit the second ones admit too. -/
structure Limits.Narrower (l l' : Limits) : Prop where
  intDigits : ∀ count, exceeds count l.intDigits = false → exceeds count l'.intDigits = false
  wholeDigits : ∀ count, exceeds count l.wholeDigits = false → exceeds count l'.wholeDigits = false
  lone : ∀ units cs, Text.joinUnits l.lone units = some cs → Text.joinUnits l'.lone units = some cs

variable {l l' : Limits}

theorem Limits.Narrower.string? (hl : l.Narrower l') {cs : List Char} {r : String × List Char}
    (hread : Json.string? l.lone cs = some r) : Json.string? l'.lone cs = some r := by
  obtain ⟨⟨units, rest⟩, hunits, hjoin⟩ := Option.bind_eq_some_iff.1 hread
  obtain ⟨chars, hchars, hr⟩ := Option.bind_eq_some_iff.1 hjoin
  refine Option.bind_eq_some_iff.2 ⟨_, hunits, Option.bind_eq_some_iff.2 ⟨chars, ?_, hr⟩⟩
  exact hl.lone units chars hchars

/-- A number without its sign, once its digits before and after the point are known. -/
def numeral (limits : Limits) (negative : Bool) (whole fraction cs : List Char) :
    Option (Value × List Char) :=
  (exponent cs).bind fun (power, rest) =>
    if fraction = [] && power = none then
      if exceeds whole.length limits.intDigits then none
      else (number? whole).map fun n => (.int (if negative then -(n : Int) else n), rest)
    else if exceeds whole.length limits.wholeDigits then none
    else (number? (whole ++ fraction)).map fun digits =>
      (.float (.ofDecimal negative digits (power.getD 0 - fraction.length)), rest)

/-- The digits after the point of a number, if it has one, and the rest of the text. -/
def fraction? : List Char → Option (List Char × List Char)
  | '.' :: rest =>
    if rest.takeWhile Char.isDigit = [] then none
    else some (rest.takeWhile Char.isDigit, rest.dropWhile Char.isDigit)
  | rest => some ([], rest)

theorem fraction?_of_ne {cs : List Char} (hcs : ∀ rest, cs = '.' :: rest → False) :
    fraction? cs = some ([], cs) := by
  unfold fraction?
  split
  next rest => exact absurd rfl (hcs rest)
  · rfl

theorem unsigned_eq (limits : Limits) (negative : Bool) (cs : List Char) :
    unsigned limits negative cs =
      let whole := cs.takeWhile Char.isDigit
      if whole = [] || (whole.head? = some '0' && 1 < whole.length) then none
      else
        (fraction? (cs.dropWhile Char.isDigit)).bind fun p =>
          numeral limits negative whole p.1 p.2 := by
  have hnumeral (whole fraction rest : List Char) :
      (do
        let (power, rest) ← exponent rest
        if fraction = [] && power = none then
          if exceeds whole.length limits.intDigits then none
          let n ← number? whole
          return (.int (if negative then -(n : Int) else n), rest)
        else
          if exceeds whole.length limits.wholeDigits then none
          let digits ← number? (whole ++ fraction)
          return (.float (.ofDecimal negative digits (power.getD 0 - fraction.length)), rest)) =
        numeral limits negative whole fraction rest := by
    unfold numeral
    cases exponent rest with
    | none => rfl
    | some p =>
        simp only [bind, Option.bind]
        split
        · split
          · rfl
          · cases number? whole <;> rfl
        · split
          · rfl
          · cases number? (whole ++ fraction) <;> rfl
  simp only [unsigned]
  split
  · rfl
  · generalize cs.dropWhile Char.isDigit = rest
    split
    next rest =>
      split
      next hnone =>
        rw [fraction?, if_pos hnone]
        rfl
      next hsome =>
        rw [fraction?, if_neg hsome]
        exact hnumeral _ _ _
    next hother =>
      rw [fraction?_of_ne hother]
      exact hnumeral _ [] _

theorem Limits.Narrower.numeral (hl : l.Narrower l') {negative : Bool} {whole fraction cs : List Char}
    {r : Value × List Char} (hread : Json.numeral l negative whole fraction cs = some r) :
    Json.numeral l' negative whole fraction cs = some r := by
  obtain ⟨⟨power, rest⟩, hpower, hread⟩ := Option.bind_eq_some_iff.1 hread
  refine Option.bind_eq_some_iff.2 ⟨_, hpower, ?_⟩
  simp only at hread ⊢
  split at hread
  next hint =>
    rw [if_pos hint]
    split at hread
    · cases hread
    next hdigits =>
      rw [hl.intDigits _ (eq_false_of_ne_true hdigits)]
      exact hread
  next hint =>
    rw [if_neg hint]
    split at hread
    · cases hread
    next hdigits =>
      rw [hl.wholeDigits _ (eq_false_of_ne_true hdigits)]
      exact hread

theorem Limits.Narrower.unsigned (hl : l.Narrower l') {negative : Bool} {cs : List Char}
    {r : Value × List Char} (hread : Json.unsigned l negative cs = some r) :
    Json.unsigned l' negative cs = some r := by
  rw [unsigned_eq] at hread ⊢
  simp only at hread ⊢
  split at hread
  · cases hread
  next hwhole =>
    rw [if_neg hwhole]
    obtain ⟨p, hfraction, hread⟩ := Option.bind_eq_some_iff.1 hread
    exact Option.bind_eq_some_iff.2 ⟨p, hfraction, hl.numeral hread⟩

theorem exists_of_bind_eq_ok {ε α β : Type} {x : Except ε α} {f : α → Except ε β} {r : β}
    (hbind : x >>= f = .ok r) : ∃ a, x = .ok a ∧ f a = .ok r := by
  cases x with
  | error e => cases hbind
  | ok a => exact ⟨a, rfl, hbind⟩

theorem orMalformed_of_imp {α : Type} {o o' : Option α} {r : α} (ho : ∀ a, o = some a → o' = some a)
    (hread : orMalformed o = .ok r) : orMalformed o' = .ok r := by
  cases o with
  | none => cases hread
  | some a =>
      rw [ho a rfl]
      exact hread

theorem read_of_narrower (hl : l.Narrower l') (fuel : Nat) :
    (∀ depth depth' cs r, depth < depth' →
      value l fuel depth cs = .ok r → value l' fuel depth' cs = .ok r) ∧
    (∀ depth depth' acc cs r, depth < depth' →
      items l fuel depth acc cs = .ok r → items l' fuel depth' acc cs = .ok r) ∧
    ∀ depth depth' acc cs r, depth < depth' →
      entries l fuel depth acc cs = .ok r → entries l' fuel depth' acc cs = .ok r := by
  induction fuel with
  | zero =>
      refine ⟨?_, ?_, ?_⟩
      · intro depth depth' cs r _ hread
        cases hread
      · intro depth depth' acc cs r _ hread
        cases hread
      · intro depth depth' acc cs r _ hread
        cases hread
  | succ fuel ih =>
      obtain ⟨hvalue, hitems, hentries⟩ := ih
      refine ⟨?_, ?_, ?_⟩
      · intro depth depth' cs r hdepth hread
        obtain ⟨left, rfl⟩ : ∃ left, depth' = left + 1 := ⟨depth' - 1, by omega⟩
        have hcount : ¬ (l'.countEmpty && decide (left + 1 = 0)) = true := by simp
        rw [value] at hread ⊢
        generalize skip cs = cs at hread ⊢
        split at hread
        · obtain ⟨⟨s, rest⟩, hs, hr⟩ := exists_of_bind_eq_ok hread
          rw [orMalformed_of_imp (fun _ => hl.string?) hs]
          exact hr
        next rest =>
          split at hread
          · cases hread
          · rw [if_neg hcount]
            generalize skip rest = rest at hread ⊢
            split at hread
            · exact hread
            · cases hread
            · exact hitems _ _ _ _ _ (Nat.lt_of_succ_lt_succ hdepth) hread
        next rest =>
          split at hread
          · cases hread
          · rw [if_neg hcount]
            generalize skip rest = rest at hread ⊢
            split at hread
            · exact hread
            · cases hread
            · exact hentries _ _ _ _ _ (Nat.lt_of_succ_lt_succ hdepth) hread
        · exact hread
        · exact hread
        · exact hread
        · exact hread
        · exact hread
        · exact hread
        · exact orMalformed_of_imp (fun _ => hl.unsigned) hread
        · exact orMalformed_of_imp (fun _ => hl.unsigned) hread
      · intro depth depth' acc cs r hdepth hread
        rw [items] at hread ⊢
        obtain ⟨⟨v, rest⟩, hv, hrest⟩ := exists_of_bind_eq_ok hread
        rw [hvalue _ _ _ _ hdepth hv]
        simp only at hrest
        simp only [bind, Except.bind]
        generalize skip rest = rest at hrest ⊢
        split at hrest
        · exact hitems _ _ _ _ _ hdepth hrest
        · exact hrest
        · cases hrest
      · intro depth depth' acc cs r hdepth hread
        rw [entries] at hread ⊢
        generalize skip cs = cs at hread ⊢
        split at hread
        · obtain ⟨⟨key, rest⟩, hkey, hentry⟩ := exists_of_bind_eq_ok hread
          rw [orMalformed_of_imp (fun _ => hl.string?) hkey]
          simp only [bind, Except.bind] at hentry ⊢
          generalize skip rest = rest at hentry ⊢
          split at hentry
          · obtain ⟨⟨v, rest⟩, hv, hrest⟩ := exists_of_bind_eq_ok hentry
            rw [hvalue _ _ _ _ hdepth hv]
            simp only at hrest ⊢
            generalize skip rest = rest at hrest ⊢
            split at hrest
            · exact hentries _ _ _ _ _ hdepth hrest
            · exact hrest
            · cases hrest
          · cases hentry
        · cases hread

/-- What a reader reads of a whole text a reader with wider limits reads too. -/
theorem readWithin_of_narrower (hl : l.Narrower l') (hdepth : l.depth < l'.depth) {s : String}
    {v : Value} (hread : readWithin l s = .ok v) : readWithin l' s = .ok v := by
  obtain ⟨⟨v', rest⟩, hvalue, hrest⟩ := exists_of_bind_eq_ok hread
  have hwider := (read_of_narrower hl _).1 _ _ _ _ hdepth hvalue
  simp only [readWithin, hwider]
  exact hrest

end Json

namespace Document

theorem narrower_strict_loose : strict.Narrower loose where
  intDigits _ hcount := hcount
  wholeDigits _ _ := rfl
  lone _ _ := Text.joinUnits_replaced

/-- A text that can be read as a document can still be looked at if it is refused. -/
theorem toValue_of_readWithin {s : String} {v : Value} (hread : Json.readWithin strict s = .ok v) :
    (text s).toValue = .ok v.settle := by
  have hdepth : strict.depth < loose.depth := by decide
  rw [toValue, Json.readWithin_of_narrower narrower_strict_loose hdepth hread]
  rfl

end Document

end Pagescript
