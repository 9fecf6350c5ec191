import Pagescript.Proofs.Evaluation
/-!
# Comparisons of texts

The three comparisons evaluate the same statement at the same frame, so they stop in the same cases
and for the same reason, and otherwise compare the same two texts.  What equality says and what
containment says then goes together, and letter case can only be an obstacle: a comparison that finds
a text still finds it once letter case is ignored.  A folded letter may be longer than the letter,
but a text is folded letter by letter, so what lies inside a text lies inside it after folding.
-/

namespace Pagescript

/-! ### Texts in texts -/

namespace Handler

theorem occursIn_iff (part whole : List Char) : occursIn part whole = true ↔ part <:+: whole := by
  induction whole with
  | nil => simp [occursIn]
  | cons c rest ih =>
      rw [occursIn, Bool.or_eq_true, List.isPrefixOf_iff_prefix, ih, List.infix_cons_iff]

end Handler

theorem Text.fold_append (s t : List Char) : fold (s ++ t) = fold s ++ fold t :=
  List.flatMap_append

theorem Text.fold_isInfix {part whole : List Char} (hpart : part <:+: whole) :
    fold part <:+: fold whole := by
  obtain ⟨before, after, rfl⟩ := hpart
  rw [fold_append, fold_append]
  exact ⟨fold before, fold after, rfl⟩

/-! ### Verdicts -/

namespace Comparison

open Handler

/-- What a comparison says of two texts, of which only the folded forms count if letter case is
ignored. -/
def verdict (c : Comparison) (ignoreCase : Bool) (expected actual : String) : Bool :=
  if ignoreCase then compareTexts c (Text.fold expected.toList) (Text.fold actual.toList)
  else compareTexts c expected.toList actual.toList

/-- How the verdicts of the three comparisons, with and without letter case, go together. -/
structure Consistent (holds : Comparison → Bool → Bool) : Prop where
  notEqual : ∀ ignoreCase, holds .notEqual ignoreCase = !holds .equal ignoreCase
  contains : ∀ ignoreCase, holds .equal ignoreCase = true → holds .contains ignoreCase = true
  equalIgnoringCase : holds .equal false = true → holds .equal true = true
  containsIgnoringCase : holds .contains false = true → holds .contains true = true

theorem compareTexts_notEqual (expected actual : List Char) :
    compareTexts .notEqual expected actual = !compareTexts .equal expected actual := rfl

theorem compareTexts_equal_iff {expected actual : List Char} :
    compareTexts .equal expected actual = true ↔ expected = actual :=
  beq_iff_eq

theorem compareTexts_contains_iff {expected actual : List Char} :
    compareTexts .contains expected actual = true ↔ expected <:+: actual :=
  occursIn_iff expected actual

theorem compareTexts_contains_of_equal {expected actual : List Char}
    (hequal : compareTexts .equal expected actual = true) :
    compareTexts .contains expected actual = true := by
  obtain rfl := compareTexts_equal_iff.1 hequal
  exact compareTexts_contains_iff.2 List.infix_rfl

theorem consistent_verdict (expected actual : String) :
    Consistent fun c ignoreCase => c.verdict ignoreCase expected actual := by
  constructor
  · intro ignoreCase
    cases ignoreCase with
    | false => exact compareTexts_notEqual _ _
    | true => exact compareTexts_notEqual _ _
  · intro ignoreCase hequal
    cases ignoreCase with
    | false => exact compareTexts_contains_of_equal hequal
    | true => exact compareTexts_contains_of_equal hequal
  · intro hequal
    have hsame : expected.toList = actual.toList := compareTexts_equal_iff.1 hequal
    exact compareTexts_equal_iff.2 (congrArg Text.fold hsame)
  · intro hcontains
    exact compareTexts_contains_iff.2 (Text.fold_isInfix (compareTexts_contains_iff.1 hcontains))

/-- Folding can make a text longer, and can find what was not there before. -/
example : contains.verdict false "SS" "Straße" = false ∧ contains.verdict true "SS" "Straße" = true := by
  decide +kernel

end Comparison

/-! ### Handlers -/

/-- Two stops for the same reason, which may be reported for different actions. -/
inductive Stop.Agrees : Stop → Stop → Prop
  | failed {e e' : ActionError} (code : e.code = e'.code) (message : e.message = e'.message)
      (source : e.source = e'.source) (payload : e.payload = e'.payload) :
      Agrees (.failed e) (.failed e')
  | fault (f : Fault) : Agrees (.fault f) (.fault f)

theorem Stop.Agrees.refl (s : Stop) : s.Agrees s := by
  cases s with
  | failed e => exact .failed rfl rfl rfl rfl
  | fault f => exact .fault f

theorem Stop.agrees_failure {frame : Frame Handle} {code : ErrorCode} {message : String}
    {payload : List Value} (action action' : Fields) :
    (Stop.failure frame action code message payload).Agrees
      (.failure frame action' code message payload) :=
  .failed rfl rfl rfl rfl

namespace Handler

variable {written : Option Fields} {expected : String} {statement : Action} {ignoreCase : Bool}

/-- A comparison whose fields are all there evaluates its statement and gives the verdict. -/
theorem comparison_eq (c : Comparison) (frame : Frame Handle) :
    comparison c (.node written (.compare c expected statement ignoreCase)) frame =
      (expectText (.node written (.compare c expected statement ignoreCase)) frame statement
        "statement" >>= fun actual => pure (.bool (c.verdict ignoreCase expected actual))) := by
  cases c <;> cases ignoreCase <;> rfl

theorem run_expectText {σ : Type} (serve : (r : Request) → Evaluation σ r.Answer) (a : Action)
    (frame : Frame Handle) (node : Action) (label : String) (w : World σ) :
    (expectText a frame node label).run serve w =
      match serve (.evaluate node frame) w with
      | (.ok (.text s), w') => (.ok s, w')
      | (.ok v, w') => (mismatch a frame label "str" v : Plan String).run serve w'
      | (.error s, w') => (.error s, w') := by
  rw [expectText, Plan.run_bind, Plan.run_evaluate]
  cases hserve : serve (.evaluate node frame) w with
  | mk result w' =>
      cases result with
      | error s => rfl
      | ok v => cases v <;> rfl

end Handler

namespace Interpreter

open Handler Comparison

variable {σ : Type}

/-- What the handler of a comparison comes to, given an action at the frame that it has entered. -/
def compared (it : Interpreter σ) (c : Comparison) (a : Action) (frame : Frame Handle) :
    Evaluation σ Value :=
  (Handler.plan it.program (.compare c) a frame).run (it.serve it.evaluate)

variable (it : Interpreter σ) (expected : String) (statement : Action) (frame : Frame Handle)
  (w : World σ)

section Compared

variable {it expected statement frame w} {w' : World σ} {written : Option Fields} {c : Comparison}
  {ignoreCase : Bool}

theorem compared_of_stop {s : Stop} (hresult : it.evaluate statement frame w = (.error s, w')) :
    it.compared c (.node written (.compare c expected statement ignoreCase)) frame w =
      (.error s, w') := by
  rw [compared, Handler.plan, comparison_eq, Plan.run_bind, run_expectText, serve, hresult]

theorem compared_of_text {actual : String}
    (hresult : it.evaluate statement frame w = (.ok (.text actual), w')) :
    it.compared c (.node written (.compare c expected statement ignoreCase)) frame w =
      (.ok (.bool (c.verdict ignoreCase expected actual)), w') := by
  rw [compared, Handler.plan, comparison_eq, Plan.run_bind, run_expectText, serve, hresult]
  rfl

theorem compared_of_other {v : Value} (hv : ∀ actual, v ≠ .text actual)
    (hresult : it.evaluate statement frame w = (.ok v, w')) :
    it.compared c (.node written (.compare c expected statement ignoreCase)) frame w =
      (.error (.failure frame
        (Action.payload (.node written (.compare c expected statement ignoreCase))) .typeMismatch
        ("expected statement to return a str type, got " ++ v.typeName) [v]), w') := by
  rw [compared, Handler.plan, comparison_eq, Plan.run_bind, run_expectText, serve, hresult]
  cases v with
  | text actual => exact absurd rfl (hv actual)
  | _ => rfl

end Compared

/-- Comparisons of texts agree with each other.

The handlers of the three comparisons are given the same expected text and the same statement, at the
same frame and in the same world, with letter case ignored or not.  Then either all of them give a
flag, in the same world, and the flags are consistent; or all of them stop, in the same world and for
the same reason. -/
theorem comparisons_agree :
    (∃ holds w', Consistent holds ∧ ∀ written c ignoreCase,
      it.compared c (.node written (.compare c expected statement ignoreCase)) frame w =
        (.ok (.bool (holds c ignoreCase)), w')) ∨
    ∃ s w', ∀ written c ignoreCase, ∃ s', Stop.Agrees s s' ∧
      it.compared c (.node written (.compare c expected statement ignoreCase)) frame w =
        (.error s', w') := by
  cases hresult : it.evaluate statement frame w with
  | mk result w' =>
      cases result with
      | error s =>
          exact .inr ⟨s, w', fun written c ignoreCase => ⟨s, .refl s, compared_of_stop hresult⟩⟩
      | ok v =>
          by_cases htext : ∃ actual, v = .text actual
          · obtain ⟨actual, rfl⟩ := htext
            exact .inl ⟨_, w', consistent_verdict expected actual,
              fun written c ignoreCase => compared_of_text hresult⟩
          · -- each mismatch is reported for the action that compares, and for the rest they are alike
            have hother (actual : String) : v ≠ .text actual := fun hv => htext ⟨actual, hv⟩
            exact .inr ⟨_, w', fun written c ignoreCase =>
              ⟨_, Stop.agrees_failure [] _, compared_of_other hother hresult⟩⟩

end Interpreter

end Pagescript
