import Pagescript.Proofs.ReadBack
/-!
# Literals of values

The literal of a value tells what the value is, whatever follows it, as long as a comma, a bracket
that closes or nothing does.  Main statement: `Value.separates`.  A value may hold things of which
only their literals are known, if those can be told apart.
-/

namespace Pagescript

/-! ### Quoted texts -/

namespace Text

/-- The number that hexadecimal digits stand for. -/
def hexValue (ds : List Char) : Nat :=
  ds.foldl (fun n c => n * 16 + (Json.hexDigit? c).getD 0) 0

theorem hexValue_toDigits (n : Nat) : hexValue (Nat.toDigits 16 n) = n := by
  have hdigit : ∀ d < 16, (Json.hexDigit? (Nat.digitChar d)).getD 0 = d := by decide
  induction n using Nat.strongRecOn with
  | ind n ih =>
      rcases Nat.lt_or_ge n 16 with hsmall | hlarge
      · rw [Nat.toDigits_of_lt_base hsmall, hexValue, List.foldl_cons, List.foldl_nil, hdigit n hsmall,
          Nat.zero_mul, Nat.zero_add]
      · have hrest : hexValue (Nat.toDigits 16 (n / 16)) = n / 16 := ih (n / 16) (by omega)
        rw [hexValue] at hrest
        rw [Nat.toDigits_of_base_le (by decide) hlarge, hexValue, List.foldl_append, hrest,
          List.foldl_cons, List.foldl_nil, hdigit _ (Nat.mod_lt n (by decide))]
        omega

theorem hexValue_hex (width n : Nat) : hexValue (hex width n) = n := by
  have hzeros (count : Nat) (ds : List Char) :
      hexValue (List.replicate count '0' ++ ds) = hexValue ds := by
    induction count with
    | zero => rfl
    | succ count ih => exact ih
  exact (hzeros _ _).trans (hexValue_toDigits n)

theorem length_hex {width n : Nat} (hwidth : 0 < width) (hn : n < 16 ^ width) :
    (hex width n).length = width := by
  have hlength := (Nat.length_toDigits_le_iff (by decide : 1 < 16) hwidth).2 hn
  rw [hex, List.length_append, List.length_replicate]
  omega

/-- The character that the beginning of a quoted text stands for. -/
def unquoteChar : List Char → Option (Char × List Char)
  | '\\' :: 'n' :: rest => some ('\n', rest)
  | '\\' :: 'r' :: rest => some ('\r', rest)
  | '\\' :: 't' :: rest => some ('\t', rest)
  | '\\' :: 'x' :: rest => some (Char.ofNat (hexValue (rest.take 2)), rest.drop 2)
  | '\\' :: 'u' :: rest => some (Char.ofNat (hexValue (rest.take 4)), rest.drop 4)
  | '\\' :: 'U' :: rest => some (Char.ofNat (hexValue (rest.take 8)), rest.drop 8)
  | '\\' :: c :: rest => some (c, rest)
  | c :: rest => some (c, rest)
  | [] => none

theorem unquoteChar_plain {c : Char} (hc : c ≠ '\\') (rest : List Char) :
    unquoteChar (c :: rest) = some (c, rest) := by
  rw [unquoteChar.eq_def]
  split
  iterate 7
    next heq =>
      cases heq
      exact absurd rfl hc
  next heq =>
    cases heq
    rfl
  next heq => cases heq

theorem unquoteChar_quoteChar {mark : Char} (hmark : mark = '\'' ∨ mark = '"') (c : Char)
    (rest : List Char) : unquoteChar (quoteChar mark c ++ rest) = some (c, rest) := by
  have hnumber {width : Nat} (hwidth : 0 < width) (hc : c.toNat < 16 ^ width) :
      Char.ofNat (hexValue ((hex width c.toNat ++ rest).take width)) = c ∧
        (hex width c.toNat ++ rest).drop width = rest := by
    have hlength := length_hex hwidth hc
    rw [List.take_left' hlength, List.drop_left' hlength, hexValue_hex, Char.ofNat_toNat]
    exact ⟨rfl, rfl⟩
  unfold quoteChar
  split
  next hescaped =>
    simp only [Bool.or_eq_true, decide_eq_true_eq] at hescaped
    obtain rfl | rfl := hescaped
    · obtain rfl | rfl := hmark
      · rfl
      · rfl
    · rfl
  next hplain =>
  simp only [Bool.or_eq_true, decide_eq_true_eq, not_or] at hplain
  split
  next h =>
    rw [h]
    rfl
  split
  next h =>
    rw [h]
    rfl
  split
  next h =>
    rw [h]
    rfl
  split
  next => exact unquoteChar_plain hplain.2 rest
  split
  next hc =>
    obtain ⟨hchar, hrest⟩ := hnumber (by decide : 0 < 2) hc
    rw [List.cons_append, List.cons_append, unquoteChar, hchar, hrest]
  split
  next hc =>
    obtain ⟨hchar, hrest⟩ := hnumber (by decide : 0 < 4) hc
    rw [List.cons_append, List.cons_append, unquoteChar, hchar, hrest]
  next =>
    have hc : c.toNat < 16 ^ 8 := by
      rcases c.valid with hlow | ⟨-, hhigh⟩
      · exact Nat.lt_trans hlow (by decide)
      · exact Nat.lt_trans hhigh (by decide)
    obtain ⟨hchar, hrest⟩ := hnumber (by decide : 0 < 8) hc
    rw [List.cons_append, List.cons_append, unquoteChar, hchar, hrest]

theorem quoteMark_eq (s : List Char) : quoteMark s = '\'' ∨ quoteMark s = '"' := by
  unfold quoteMark
  split
  · exact .inr rfl
  · exact .inl rfl

/-- The quote does not stand for itself inside of the text. -/
theorem quoteChar_append_ne {mark : Char} (hmark : mark = '\'' ∨ mark = '"') (c : Char)
    (rest tail : List Char) : quoteChar mark c ++ rest ≠ mark :: tail := by
  intro heq
  have hchar := unquoteChar_quoteChar hmark c rest
  have hslash : mark ≠ '\\' := by
    obtain rfl | rfl := hmark
    · decide
    · decide
  rw [heq, unquoteChar_plain hslash] at hchar
  obtain ⟨rfl, -⟩ := Prod.mk.inj (Option.some.inj hchar)
  rw [quoteChar, if_pos (by simp)] at heq
  exact hslash (List.cons.inj heq).1.symm

theorem flatMap_quoteChar_cancel {mark : Char} (hmark : mark = '\'' ∨ mark = '"')
    {s s' rest rest' : List Char}
    (h : s.flatMap (quoteChar mark) ++ mark :: rest = s'.flatMap (quoteChar mark) ++ mark :: rest') :
    s = s' ∧ rest = rest' := by
  induction s generalizing s' with
  | nil =>
      cases s' with
      | nil => exact ⟨rfl, (List.cons.inj h).2⟩
      | cons c s' =>
          rw [List.flatMap_cons, List.append_assoc] at h
          exact absurd h.symm (quoteChar_append_ne hmark c _ _)
  | cons c s ih =>
      cases s' with
      | nil =>
          rw [List.flatMap_cons, List.append_assoc] at h
          exact absurd h (quoteChar_append_ne hmark c _ _)
      | cons c' s' =>
          rw [List.flatMap_cons, List.flatMap_cons, List.append_assoc, List.append_assoc] at h
          have hread := congrArg unquoteChar h
          rw [unquoteChar_quoteChar hmark, unquoteChar_quoteChar hmark] at hread
          obtain ⟨rfl, hmore⟩ := Prod.mk.inj (Option.some.inj hread)
          obtain ⟨rfl, hrest⟩ := ih hmore
          exact ⟨rfl, hrest⟩

theorem toList_quote_append (s : String) (rest : List Char) : (quote s).toList ++ rest =
    quoteMark s.toList :: (s.toList.flatMap (quoteChar (quoteMark s.toList)) ++
      quoteMark s.toList :: rest) := by
  rw [quote, quoted, String.toList_ofList, List.cons_append, List.cons_append, List.append_assoc]
  rfl

/-- A text can be told from what it is written as, whatever follows. -/
theorem quote_cancel {s s' : String} {rest rest' : List Char}
    (h : (quote s).toList ++ rest = (quote s').toList ++ rest') : s = s' ∧ rest = rest' := by
  rw [toList_quote_append, toList_quote_append] at h
  obtain ⟨hmark, hbody⟩ := List.cons.inj h
  rw [← hmark] at hbody
  obtain ⟨hs, hrest⟩ := flatMap_quoteChar_cancel (quoteMark_eq _) hbody
  exact ⟨String.toList_inj.1 hs, hrest⟩

/-! ### Beginnings -/

/-- The kinds of text that can be told by how they begin. -/
inductive Opening where
  | stop
  | quote
  | bracket (c : Char)
  /-- Letters before a bracket. -/
  | title
  | scalar

def isStop (c : Char) : Bool :=
  c = ',' || c = ')' || c = ']' || c = '\x7d'

def opening : List Char → Opening
  | [] => .stop
  | c :: cs =>
    if isStop c then .stop
    else if c = '\'' || c = '"' then .quote
    else if c = '[' || c = '(' || c = '\x7b' then .bracket c
    else if ((c :: cs).dropWhile Char.isAlpha).head? = some '(' then .title
    else .scalar

/-- What may follow a literal: a comma, a bracket that closes, or nothing. -/
def Stops (rest : List Char) : Prop :=
  opening rest = .stop

theorem stops_iff {rest : List Char} : Stops rest ↔ ∀ c ∈ rest.head?, isStop c = true := by
  cases rest with
  | nil => exact iff_of_true rfl fun c hc => nomatch hc
  | cons c rest =>
      have hhead : (∀ d ∈ (c :: rest).head?, isStop d = true) ↔ isStop c = true := by simp
      rw [hhead, Stops, opening]
      cases hc : isStop c with
      | true => exact iff_of_true rfl rfl
      | false =>
          refine iff_of_false ?_ Bool.false_ne_true
          simp only [Bool.false_eq_true, if_false]
          repeat' split
          iterate 4 exact fun h => nomatch h

theorem stops_cons {c : Char} (hc : isStop c = true) (rest : List Char) : Stops (c :: rest) := by
  refine stops_iff.2 fun d hd => ?_
  cases hd
  exact hc

theorem Stops.cases {c : Char} {rest : List Char} (hrest : Stops (c :: rest)) :
    c = ',' ∨ c = ')' ∨ c = ']' ∨ c = '\x7d' := by
  simpa only [isStop, Bool.or_eq_true, decide_eq_true_eq, or_assoc] using stops_iff.1 hrest c rfl

theorem Stops.not_alpha {rest : List Char} (hrest : Stops rest) :
    ∀ c ∈ rest.head?, c.isAlpha = false ∧ c ≠ '(' := by
  cases rest with
  | nil => exact fun c hc => nomatch hc
  | cons c rest =>
      intro d hd
      cases hd
      obtain rfl | rfl | rfl | rfl := hrest.cases <;> decide

theorem Stops.ends {rest : List Char} (hrest : Stops rest) : Json.Ends rest := by
  cases rest with
  | nil => exact fun c hc => nomatch hc
  | cons c rest =>
      refine Json.ends_cons ?_ rest
      obtain rfl | rfl | rfl | rfl := hrest.cases <;> decide

/-- The characters that tell by themselves what begins with them. -/
def signs : List Char :=
  [',', ')', ']', '\x7d', '\'', '"', '[', '(', '\x7b']

theorem opening_plain {c : Char} (hc : c ∉ signs) (cs : List Char) :
    opening (c :: cs) =
      if ((c :: cs).dropWhile Char.isAlpha).head? = some '(' then .title else .scalar := by
  simp only [signs, List.mem_cons, List.not_mem_nil, or_false, not_or] at hc
  simp [opening, isStop, hc]

/-- Letters begin a title if a bracket follows them, and else a word. -/
theorem opening_letters {letters rest : List Char} (hletters : letters.all Char.isAlpha = true)
    (hne : letters ≠ []) (hrest : ∀ c ∈ rest.head?, c.isAlpha = false) :
    opening (letters ++ rest) = if rest.head? = some '(' then .title else .scalar := by
  have hsigns : signs.all (!·.isAlpha) = true := by decide
  rw [List.all_eq_true] at hletters hsigns
  have hdrop : (letters ++ rest).dropWhile Char.isAlpha = rest := by
    rw [List.dropWhile_append_of_pos hletters]
    cases rest with
    | nil => rfl
    | cons c rest => exact List.dropWhile_cons_of_neg (by simp [hrest c rfl])
  obtain ⟨c, cs, rfl⟩ := List.exists_cons_of_ne_nil hne
  have hc : c ∉ signs := by
    intro hmem
    have hletter := hsigns c hmem
    rw [hletters c List.mem_cons_self] at hletter
    cases hletter
  rw [List.cons_append, opening_plain hc, ← List.cons_append, hdrop]

theorem opening_word {letters rest : List Char} (hletters : letters.all Char.isAlpha = true)
    (hne : letters ≠ []) (hrest : Stops rest) : opening (letters ++ rest) = .scalar := by
  rw [opening_letters hletters hne fun c hc => (hrest.not_alpha c hc).1, if_neg]
  exact fun hhead => (hrest.not_alpha _ hhead).2 rfl

theorem opening_quote (s : String) (rest : List Char) :
    opening ((quote s).toList ++ rest) = .quote := by
  rw [toList_quote_append]
  obtain hmark | hmark := quoteMark_eq s.toList
  · rw [hmark]
    rfl
  · rw [hmark]
    rfl

theorem not_isAlpha_of_isDigit {c : Char} (hc : c.isDigit = true) : c.isAlpha = false := by
  have hlast : c.val ≤ 57 := of_decide_eq_true (Bool.and_eq_true_iff.1 hc).2
  have hpast {first : UInt32} (hfirst : 57 < first) : ¬ first ≤ c.val := fun hle =>
    Nat.lt_irrefl _ (Nat.lt_of_lt_of_le hfirst (Nat.le_trans hle hlast))
  have hupper : c.isUpper = false :=
    decide_eq_false fun h => hpast (by decide : (57 : UInt32) < 65) h.1
  have hlower : c.isLower = false :=
    Bool.and_eq_false_iff.2 (.inl (decide_eq_false (hpast (by decide : (57 : UInt32) < 97))))
  exact Bool.or_eq_false_iff.2 ⟨hupper, hlower⟩

theorem opening_number {negative : Bool} {digits : List Char}
    (hdigits : ∃ c tail, digits = c :: tail ∧ c.isDigit = true) :
    opening (if negative then '-' :: digits else digits) = .scalar := by
  obtain ⟨c, tail, rfl, hc⟩ := hdigits
  have hsigns : signs.all (!·.isDigit) = true := by decide
  have hplain : c ∉ signs := by
    intro hmem
    have hdigit := List.all_eq_true.1 hsigns c hmem
    rw [hc] at hdigit
    cases hdigit
  have hletter : c.isAlpha = false := not_isAlpha_of_isDigit hc
  have hopen : c ≠ '(' := fun h => hplain (h ▸ by decide)
  cases negative with
  | true => rfl
  | false =>
      rw [if_neg Bool.false_ne_true, opening_plain hplain, if_neg]
      simp [hletter, hopen]

/-! ### Texts that can be told apart -/

open Json (joined joined_singleton joined_cons)

variable {α : Type} {f : α → String} {x y : α} {xs ys : List α} {rest rest' : List Char}

/-- A text ends where a character stands for the first time. -/
theorem append_cons_cancel {c : Char} {s s' : List Char} (hs : c ∉ s) (hs' : c ∉ s')
    (h : s ++ c :: rest = s' ++ c :: rest') : s = s' ∧ rest = rest' := by
  induction s generalizing s' with
  | nil =>
      cases s' with
      | nil => exact ⟨rfl, (List.cons.inj h).2⟩
      | cons d s' => exact absurd ((List.cons.inj h).1 ▸ List.mem_cons_self) hs'
  | cons d s ih =>
      cases s' with
      | nil => exact absurd ((List.cons.inj h).1 ▸ List.mem_cons_self) hs
      | cons d' s' =>
          obtain ⟨rfl, hmore⟩ := List.cons.inj h
          obtain ⟨rfl, hrest⟩ := ih (fun hmem => hs (List.mem_cons_of_mem d hmem))
            (fun hmem => hs' (List.mem_cons_of_mem d hmem)) hmore
          exact ⟨rfl, hrest⟩

/-- Two things that are spelled the same are the same, whatever follows them. -/
def Separates (f : α → String) (x y : α) : Prop :=
  ∀ rest rest', Stops rest → Stops rest' → (f x).toList ++ rest = (f y).toList ++ rest' →
    x = y ∧ rest = rest'

/-- A text that does not begin as if nothing were there. -/
def Begins (s : String) : Prop :=
  ∀ rest, Stops rest → ¬ Stops (s.toList ++ rest)

/-- What follows a list of texts, after which no more of them follow. -/
structure Closes (rest : List Char) : Prop where
  stops : Stops rest
  last : ∀ more, rest ≠ ',' :: ' ' :: more

theorem closes_cons {c : Char} (hc : isStop c = true) (hcomma : c ≠ ',') (rest : List Char) :
    Closes (c :: rest) :=
  ⟨stops_cons hc rest, fun _ heq => hcomma (List.cons.inj heq).1⟩

/-- What is left of a list of texts after the first one. -/
def further (f : α → String) (rest : List Char) : List α → List Char
  | [] => rest
  | x :: xs => ',' :: ' ' :: (joined ((x :: xs).map f) ++ rest)

theorem joined_append (f : α → String) (x : α) (xs : List α) (rest : List Char) :
    joined ((x :: xs).map f) ++ rest = (f x).toList ++ further f rest xs := by
  cases xs with
  | nil => rw [List.map_singleton, joined_singleton, further]
  | cons y ys =>
      rw [List.map_cons, List.map_cons, joined_cons, List.append_assoc, List.cons_append,
        List.cons_append, further, List.map_cons]

theorem stops_further (f : α → String) (hrest : Stops rest) (xs : List α) :
    Stops (further f rest xs) := by
  cases xs with
  | nil => exact hrest
  | cons x xs => exact stops_cons rfl _

theorem further_cancel (hseparates : ∀ x ∈ xs, ∀ y ∈ ys, Separates f x y) (hrest : Closes rest)
    (hrest' : Closes rest') (h : further f rest xs = further f rest' ys) :
    xs = ys ∧ rest = rest' := by
  induction xs generalizing ys with
  | nil =>
      cases ys with
      | nil => exact ⟨rfl, h⟩
      | cons y ys => exact absurd h (hrest.last _)
  | cons x xs ih =>
      cases ys with
      | nil => exact absurd h.symm (hrest'.last _)
      | cons y ys =>
          have hjoined := (List.cons.inj (List.cons.inj h).2).2
          rw [joined_append, joined_append] at hjoined
          obtain ⟨rfl, hmore⟩ := hseparates x List.mem_cons_self y List.mem_cons_self _ _
            (stops_further f hrest.stops xs) (stops_further f hrest'.stops ys) hjoined
          obtain ⟨rfl, hend⟩ := ih (fun x' hx' y' hy' => hseparates x' (List.mem_cons_of_mem _ hx') y'
            (List.mem_cons_of_mem _ hy')) hmore
          exact ⟨rfl, hend⟩

/-- Lists are the same if they are spelled the same and their items can be told apart. -/
theorem joined_cancel (hbegins : ∀ x ∈ xs, Begins (f x)) (hbegins' : ∀ y ∈ ys, Begins (f y))
    (hseparates : ∀ x ∈ xs, ∀ y ∈ ys, Separates f x y) (hrest : Closes rest) (hrest' : Closes rest')
    (h : joined (xs.map f) ++ rest = joined (ys.map f) ++ rest') : xs = ys ∧ rest = rest' := by
  cases xs with
  | nil =>
      cases ys with
      | nil => exact ⟨rfl, h⟩
      | cons y ys =>
          rw [joined_append] at h
          exact absurd (h ▸ hrest.stops)
            (hbegins' y List.mem_cons_self _ (stops_further f hrest'.stops ys))
  | cons x xs =>
      cases ys with
      | nil =>
          rw [joined_append] at h
          exact absurd (h ▸ hrest'.stops)
            (hbegins x List.mem_cons_self _ (stops_further f hrest.stops xs))
      | cons y ys =>
          exact further_cancel hseparates hrest hrest' (congrArg (',' :: ' ' :: ·) h)

end Text

/-! ### Numbers and words -/

namespace Value

open Text

/-- The number or the word that a text begins with. -/
def scalar? : List Char → Option (Value × List Char)
  | 'N' :: 'o' :: 'n' :: 'e' :: rest => some (.null, rest)
  | 'T' :: 'r' :: 'u' :: 'e' :: rest => some (.bool true, rest)
  | 'F' :: 'a' :: 'l' :: 's' :: 'e' :: rest => some (.bool false, rest)
  | 'n' :: 'a' :: 'n' :: rest => some (.float .nan, rest)
  | 'i' :: 'n' :: 'f' :: rest => some (.float (.infinite false), rest)
  | '-' :: 'i' :: 'n' :: 'f' :: rest => some (.float (.infinite true), rest)
  | '-' :: cs => Json.unsigned (.upTo 0) true cs
  | cs => Json.unsigned (.upTo 0) false cs

theorem scalar?_number {negative : Bool} {cs : List Char} {read : Value × List Char}
    (h : Json.unsigned (.upTo 0) negative cs = some read) :
    scalar? (if negative then '-' :: cs else cs) = some read := by
  obtain ⟨c, tail, rfl, hdigit⟩ := Json.exists_digit_of_unsigned h
  cases negative with
  | true =>
      rw [if_pos rfl, scalar?.eq_def]
      split
      iterate 5
        next heq => cases heq
      next heq =>
        cases heq
        exact absurd hdigit (by decide)
      next heq =>
        cases heq
        exact h
      next hnot => exact (hnot _ rfl).elim
  | false =>
      rw [if_neg Bool.false_ne_true, scalar?.eq_def]
      split
      iterate 7
        next heq =>
          cases heq
          exact absurd hdigit (by decide)
      next => exact h

variable {rest : List Char}

theorem scalar?_int (i : Int) (hrest : Stops rest) :
    scalar? ((Value.int i).literal.toList ++ rest) = some (.int i, rest) ∧
      opening ((Value.int i).literal.toList ++ rest) = .scalar := by
  have hlimits : (Json.Limits.upTo 0).intDigits = none := rfl
  obtain ⟨negative, ds, htext, hread⟩ := Json.exists_unsigned_int hlimits i hrest.ends
  have happend : (Value.int i).literal.toList ++ rest =
      if negative then '-' :: (ds ++ rest) else ds ++ rest := by
    rw [literal, htext]
    cases negative <;> rfl
  rw [happend]
  exact ⟨scalar?_number hread, opening_number (Json.exists_digit_of_unsigned hread)⟩

theorem scalar?_float {x : Binary64} (hx : x.IsSound) (hrest : Stops rest) :
    scalar? ((Value.float x).literal.toList ++ rest) = some (.float x, rest) ∧
      opening ((Value.float x).literal.toList ++ rest) = .scalar := by
  cases x with
  | nan => exact ⟨rfl, @opening_word ['n', 'a', 'n'] rest (by decide) (by decide) hrest⟩
  | infinite negative =>
      cases negative with
      | true => exact ⟨rfl, rfl⟩
      | false =>
          exact ⟨rfl, @opening_word ['i', 'n', 'f'] rest (by decide) (by decide) hrest⟩
  | finite negative units =>
      have hlimits : (Json.Limits.upTo 0).wholeDigits = none := rfl
      obtain ⟨ds, htext, hread⟩ :=
        Json.exists_unsigned_finite hlimits .plain negative units hrest.ends
      have happend : (Value.float (.finite negative units)).literal.toList ++ rest =
          if negative then '-' :: (ds ++ rest) else ds ++ rest := by
        rw [literal, htext]
        cases negative <;> rfl
      rw [hx.echo_eq] at hread
      rw [happend]
      exact ⟨scalar?_number hread, opening_number (Json.exists_digit_of_unsigned hread)⟩

/-! ### Values -/

open Json (joined joined_singleton)

/-- A value that its literal tells: all numbers in it have been rounded, and the things in it are
known. -/
inductive Legible (known : String → Prop) : Value → Prop where
  | null : Legible known .null
  | bool (b : Bool) : Legible known (.bool b)
  | int (i : Int) : Legible known (.int i)
  | float {x : Binary64} (hx : x.IsSound) : Legible known (.float x)
  | text (s : String) : Legible known (.text s)
  | list {xs : List Value} (hxs : ∀ x ∈ xs, Legible known x) : Legible known (.list xs)
  | tuple {xs : List Value} (hxs : ∀ x ∈ xs, Legible known x) : Legible known (.tuple xs)
  | mapping {fields : List (String × Value)} (hfields : ∀ entry ∈ fields, Legible known entry.2) :
    Legible known (.mapping fields)
  | foreign {shown : String} (hshown : known shown) : Legible known (.foreign shown)

theorem Legible.mono {known known' : String → Prop} {v : Value} (hv : v.Legible known)
    (hle : ∀ shown, known shown → known' shown) : v.Legible known' := by
  induction hv with
  | null => exact .null
  | bool b => exact .bool b
  | int i => exact .int i
  | float hx => exact .float hx
  | text s => exact .text s
  | list _ ih => exact .list ih
  | tuple _ ih => exact .tuple ih
  | mapping _ ih => exact .mapping ih
  | foreign hshown => exact .foreign (hle _ hshown)

/-- Things that begin with a title and can be told apart. -/
structure Recognizable (known : String → Prop) : Prop where
  titled : ∀ shown, known shown → ∀ rest, opening (shown.toList ++ rest) = .title
  separates : ∀ shown shown', known shown → known shown' → Separates id shown shown'

/-- How the literal of a value begins. -/
def opening : Value → Opening
  | .text _ => .quote
  | .list _ => .bracket '['
  | .tuple _ => .bracket '('
  | .mapping _ => .bracket '\x7b'
  | .foreign _ => .title
  | _ => .scalar

variable {known : String → Prop} {u v : Value} {rest : List Char}

theorem scalar?_literal (hv : v.Legible known) (hscalar : v.opening = .scalar)
    (hrest : Stops rest) : scalar? (v.literal.toList ++ rest) = some (v, rest) ∧
      Text.opening (v.literal.toList ++ rest) = .scalar := by
  cases hv with
  | null =>
      exact ⟨rfl, @opening_word ['N', 'o', 'n', 'e'] rest (by decide) (by decide) hrest⟩
  | bool b =>
      cases b with
      | true =>
          exact ⟨rfl, @opening_word ['T', 'r', 'u', 'e'] rest (by decide) (by decide) hrest⟩
      | false =>
          exact ⟨rfl, @opening_word ['F', 'a', 'l', 's', 'e'] rest (by decide) (by decide)
            hrest⟩
  | int i => exact scalar?_int i hrest
  | float hx => exact scalar?_float hx hrest
  | text | list | tuple | mapping | foreign => cases hscalar

def entryLiteral (entry : String × Value) : String :=
  quote entry.1 ++ ": " ++ entry.2.literal

/-- What closes the literal of a tuple; one of a single value has a comma before the bracket. -/
def tupleEnd (xs : List Value) (rest : List Char) : List Char :=
  if xs.length = 1 then ',' :: ')' :: rest else ')' :: rest

theorem literals_eq_map (xs : List Value) : literals xs = xs.map literal := by
  induction xs with
  | nil => rfl
  | cons x xs ih => rw [literals, ih, List.map_cons]

theorem literalFields_eq_map (fields : List (String × Value)) :
    literalFields fields = fields.map entryLiteral := by
  induction fields with
  | nil => rfl
  | cons entry fields ih =>
      rw [literalFields, ih, List.map_cons]
      rfl

theorem toList_list (xs : List Value) (rest : List Char) :
    (Value.list xs).literal.toList ++ rest = '[' :: (joined (xs.map literal) ++ ']' :: rest) := by
  rw [literal, literals_eq_map, String.toList_append, String.toList_append, List.append_assoc,
    List.append_assoc]
  rfl

theorem toList_tuple (xs : List Value) (rest : List Char) :
    (Value.tuple xs).literal.toList ++ rest =
      '(' :: (joined (xs.map literal) ++ tupleEnd xs rest) := by
  have hmany (hxs : xs.length ≠ 1) (hliteral : (Value.tuple xs).literal =
      "(" ++ ", ".intercalate (literals xs) ++ ")") : (Value.tuple xs).literal.toList ++ rest =
        '(' :: (joined (xs.map literal) ++ tupleEnd xs rest) := by
    rw [hliteral, literals_eq_map, String.toList_append, String.toList_append, List.append_assoc,
      List.append_assoc, tupleEnd, if_neg hxs]
    rfl
  cases xs with
  | nil => exact hmany (by decide) rfl
  | cons x xs =>
      cases xs with
      | nil =>
          rw [literal, String.toList_append, String.toList_append, List.append_assoc,
            List.append_assoc, List.map_singleton, joined_singleton]
          rfl
      | cons y ys => exact hmany (by simp) rfl

theorem toList_mapping (fields : List (String × Value)) (rest : List Char) :
    (Value.mapping fields).literal.toList ++ rest =
      '\x7b' :: (joined (fields.map entryLiteral) ++ '\x7d' :: rest) := by
  rw [literal, literalFields_eq_map, String.toList_append, String.toList_append, List.append_assoc,
    List.append_assoc]
  rfl

theorem opening_literal (hknown : Recognizable known) (hv : v.Legible known) (hrest : Stops rest) :
    Text.opening (v.literal.toList ++ rest) = v.opening := by
  have hv' := hv
  cases hv with
  | null | bool | int | float => exact (scalar?_literal hv' rfl hrest).2
  | text s => exact opening_quote s rest
  | list | tuple | mapping =>
      simp only [toList_list, toList_tuple, toList_mapping]
      rfl
  | foreign hshown => exact hknown.titled _ hshown rest

theorem begins_literal (hknown : Recognizable known) (hv : v.Legible known) : Begins v.literal := by
  intro rest hrest hstops
  rw [Stops, opening_literal hknown hv hrest] at hstops
  cases hv <;> cases hstops

theorem begins_entryLiteral (entry : String × Value) : Begins (entryLiteral entry) := by
  intro rest _ hstops
  rw [Stops, entryLiteral, String.toList_append, String.toList_append, List.append_assoc,
    List.append_assoc, opening_quote] at hstops
  cases hstops

theorem separates_entryLiteral {entry entry' : String × Value}
    (h : Separates literal entry.2 entry'.2) : Separates entryLiteral entry entry' := by
  intro rest rest' hrest hrest' heq
  rw [entryLiteral, entryLiteral, String.toList_append, String.toList_append, String.toList_append,
    String.toList_append, List.append_assoc, List.append_assoc, List.append_assoc,
    List.append_assoc] at heq
  obtain ⟨hkey, hvalue⟩ := quote_cancel heq
  obtain ⟨hv, hrests⟩ := h _ _ hrest hrest' (List.append_cancel_left hvalue)
  exact ⟨Prod.ext hkey hv, hrests⟩

/-- Values that can be told apart begin alike, if their literals do. -/
theorem separates_of_opening (hknown : Recognizable known) (hu : u.Legible known)
    (hv : v.Legible known) (h : u.opening = v.opening → Separates literal u v) :
    Separates literal u v := by
  intro rest rest' hrest hrest' heq
  have hopening : u.opening = v.opening := by
    rw [← opening_literal hknown hu hrest, heq, opening_literal hknown hv hrest']
  exact h hopening _ _ hrest hrest' heq

theorem separates_scalar (hknown : Recognizable known) (hu : u.Legible known)
    (hscalar : u.opening = .scalar) (hv : v.Legible known) : Separates literal u v := by
  refine separates_of_opening hknown hu hv fun hopening rest rest' hrest hrest' heq => ?_
  have hread := (scalar?_literal hu hscalar hrest).1
  rw [heq, (scalar?_literal hv (hopening.symm.trans hscalar) hrest').1] at hread
  obtain ⟨rfl, rfl⟩ := Prod.mk.inj (Option.some.inj hread)
  exact ⟨rfl, rfl⟩

theorem closes_tupleEnd (xs : List Value) (rest : List Char) : Closes (tupleEnd xs rest) := by
  rw [tupleEnd]
  split
  · exact ⟨stops_cons rfl _, fun more heq => by cases heq⟩
  · exact closes_cons rfl (by decide) rest

/-- Legible values can be told apart by their literals. -/
theorem separates (hknown : Recognizable known) (hu : u.Legible known) (hv : v.Legible known) :
    Separates literal u v := by
  induction hu generalizing v with
  | null => exact separates_scalar hknown .null rfl hv
  | bool b => exact separates_scalar hknown (.bool b) rfl hv
  | int i => exact separates_scalar hknown (.int i) rfl hv
  | float hx => exact separates_scalar hknown (.float hx) rfl hv
  | text s =>
      refine separates_of_opening hknown (.text s) hv fun hopening rest rest' _ _ heq => ?_
      cases hv with
      | text s' =>
          obtain ⟨rfl, hrests⟩ := quote_cancel heq
          exact ⟨rfl, hrests⟩
      | _ => cases hopening
  | @list xs hxs ih =>
      refine separates_of_opening hknown (.list hxs) hv fun hopening rest rest' _ _ heq => ?_
      cases hv with
      | @list ys hys =>
          rw [toList_list, toList_list] at heq
          obtain ⟨rfl, hrests⟩ := joined_cancel (fun x hx => begins_literal hknown (hxs x hx))
            (fun y hy => begins_literal hknown (hys y hy)) (fun x hx y hy => ih x hx (hys y hy))
            (closes_cons rfl (by decide) rest) (closes_cons rfl (by decide) rest')
            (List.cons.inj heq).2
          exact ⟨rfl, (List.cons.inj hrests).2⟩
      | _ => cases hopening
  | @tuple xs hxs ih =>
      refine separates_of_opening hknown (.tuple hxs) hv fun hopening rest rest' _ _ heq => ?_
      cases hv with
      | @tuple ys hys =>
          rw [toList_tuple, toList_tuple] at heq
          obtain ⟨rfl, hrests⟩ := joined_cancel (fun x hx => begins_literal hknown (hxs x hx))
            (fun y hy => begins_literal hknown (hys y hy)) (fun x hx y hy => ih x hx (hys y hy))
            (closes_tupleEnd xs rest) (closes_tupleEnd ys rest') (List.cons.inj heq).2
          refine ⟨rfl, ?_⟩
          rw [tupleEnd, tupleEnd] at hrests
          split at hrests
          · exact (List.cons.inj (List.cons.inj hrests).2).2
          · exact (List.cons.inj hrests).2
      | _ => cases hopening
  | @mapping fields hfields ih =>
      refine separates_of_opening hknown (.mapping hfields) hv fun hopening rest rest' _ _ heq => ?_
      cases hv with
      | @mapping fields' hfields' =>
          rw [toList_mapping, toList_mapping] at heq
          obtain ⟨rfl, hrests⟩ := joined_cancel (fun x _ => begins_entryLiteral x)
            (fun y _ => begins_entryLiteral y)
            (fun x hx y hy => separates_entryLiteral (ih x hx (hfields' y hy)))
            (closes_cons rfl (by decide) rest) (closes_cons rfl (by decide) rest')
            (List.cons.inj heq).2
          exact ⟨rfl, (List.cons.inj hrests).2⟩
      | _ => cases hopening
  | @foreign shown hshown =>
      refine separates_of_opening hknown (.foreign hshown) hv fun hopening rest rest' hrest hrest'
        heq => ?_
      cases hv with
      | foreign hshown' =>
          obtain ⟨rfl, hrests⟩ := hknown.separates _ _ hshown hshown' _ _ hrest hrest' heq
          exact ⟨rfl, hrests⟩
      | _ => cases hopening

end Value

end Pagescript
