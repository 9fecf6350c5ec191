import Mathlib.Tactic.Choose
import Pagescript.Proofs.Literals
/-!
# Dumps that are read back

An action that was made from data, and not read from a document, is shown by the dump of its fields.
Main statement: reading that dump gives the action again, with all the actions in it.  Actions that
lie too deep for the dump stand in it as they are, and reading keeps them; they can be known by their
literals.
-/

namespace Pagescript

namespace Action

theorem fst_dumped (style : DumpStyle) (a : Action) : (dumped style a).1 = a.literal := by
  induction a using induction_parts with
  | hstep a ih =>
      have hparts : (a.form.map (dumped style)).map (·.1) = a.form.map literal := by
        rw [Form.map_map]
        exact Form.map_congr ih
      rw [literal_eq, ← hparts]
      cases a
      rw [dumped, fold_node]
      rfl

theorem snd_dumped (style : DumpStyle) (a : Action) (level : Nat) :
    (dumped style a).2 level =
      if maxDumpLevel < level then .foreign a.literal
      else .mapping (formDump style (a.form.map (dumped style)) level) := by
  rw [← fst_dumped style]
  cases a
  rw [dumped, fold_node]
  rfl

/-- A position in an action lies below the last level of a dump that begins at `level`. -/
def TooDeep (level : Nat) (route : Route) : Prop :=
  maxDumpLevel < level + route.flatten.length

/-- The actions that the dump of an action leaves as they are are known by their literals. -/
def Knows (given : String → Option Action) (a : Action) (level : Nat) : Prop :=
  ∀ route b, a.At route b → TooDeep level route → ∃ b', given b.literal = some b' ∧ b'.bare = b.bare

theorem Knows.part {given : String → Option Action} {a b : Action} {level : Nat} {loc : List Segment}
    (hknows : a.Knows given level) (hpart : a.form.HasPart loc b) :
    b.Knows given (level + loc.length) := by
  intro route c hat hdeep
  refine hknows (loc :: route) c (.part hpart hat) ?_
  rw [TooDeep, List.flatten_cons, List.length_append, ← Nat.add_assoc]
  exact hdeep

/-- There is a table by which the actions are known that are left as they are. -/
theorem exists_knows {a : Action} (hsound : a.Sound) (hlegible : a.Legible) (level : Nat) :
    ∃ given, a.Knows given level := by
  classical
  refine ⟨fun shown =>
    if h : ∃ b route, a.At route b ∧ b.literal = shown then some h.choose else none, ?_⟩
  intro route b hat _
  have hex : ∃ b' route', a.At route' b' ∧ b'.literal = b.literal := ⟨b, route, hat, rfl⟩
  obtain ⟨route', hat', hliteral⟩ := hex.choose_spec
  exact ⟨hex.choose, dif_pos hex, bare_eq_of_literal_eq (hsound.at hat') (hlegible.at hat')
    (hsound.at hat) (hlegible.at hat) hliteral⟩

/-- A dump is seen to be an action, by its shape or because it is known as one. -/
theorem Knows.isAction_dumped {given : String → Option Action} {a : Action} {level : Nat}
    (hknows : a.Knows given level) :
    (∃ fields, (dumped .program a).2 level = .mapping fields) ∨
      ∃ b, ((dumped .program a).2 level).actionAmong? given = some b := by
  rw [snd_dumped]
  split
  next hlevel =>
    obtain ⟨b, hb, -⟩ := hknows [] a (.here a) hlevel
    exact .inr ⟨b, hb⟩
  next => exact .inl ⟨_, rfl⟩

end Action

namespace Registry

open Pagescript.Action

variable {maxDepth : Int} {given : String → Option Action} {budget level : Nat} {m : Action}

/-- A dump is read back if the dumps of the parts are. -/
theorem exists_parseAmong_formDump (hlegal : m.form.Legal) (hknows : m.Knows given level)
    (hparts : ∀ loc b, m.form.HasPart loc b → ∃ a,
      (builtin .initial maxDepth).parseAmong given budget
        ((dumped .program b).2 (level + loc.length)) = .ok a ∧ a.bare = b.bare) :
    ∃ a, (builtin .initial maxDepth).parseAmong given (budget + 1)
        (.mapping (formDump .program (m.form.map (dumped .program)) level)) = .ok a ∧
      a.bare = m.bare := by
  -- all parts lie equally deep, so what one is read as depends on the part alone
  have hgap : ∀ b, (∃ loc, m.form.HasPart loc b) → ∃ a,
      (builtin .initial maxDepth).parseAmong given budget
        ((dumped .program b).2 (level + m.form.gap)) = .ok a ∧ a.bare = b.bare := by
    rintro b ⟨loc, hb⟩
    rw [← hb.length_eq_gap]
    exact hparts loc b hb
  choose! g hg using hgap
  have hread : ∀ loc b, m.form.HasPart loc b →
      Form.ReadBack given ((builtin .initial maxDepth).nodeAmong given budget)
        ((dumped .program b).2 (level + loc.length)) (g b) := by
    intro loc b hb
    obtain ⟨hparse, -⟩ := hg b ⟨loc, hb⟩
    rw [← hb.length_eq_gap] at hparse
    exact ⟨nodeAmong_of_parse hparse, (hknows.part hb).isAction_dumped⟩
  have hkind : Entries.get? (formDump .program (m.form.map (dumped .program)) level) "action" =
      some (.text m.form.name) := by
    rw [Form.get?_action_formDump, Form.name_map]
  obtain ⟨schema, hschema, hform⟩ := Form.exists_schema_reading_dump maxDepth hlegal hread
  have hsame : m.form.map (bare ∘ g) = m.form.map bare :=
    Form.map_congr fun loc b hb => (hg b ⟨loc, hb⟩).2
  refine ⟨_, parseAmong_of_read hkind hschema hform, ?_⟩
  calc (Action.node _ (m.form.map g)).bare
      = .node none ((m.form.map g).map bare) := bare_eq _
    _ = .node none (m.form.map (bare ∘ g)) := by rw [Form.map_map]
    _ = .node none (m.form.map bare) := by rw [hsame]
    _ = m.bare := (bare_eq m).symm

/-- The dump of an action is read back within as many levels as the action nests. -/
theorem exists_parseAmong_dumped (hsound : m.Sound)
    (hnesting : ∀ route b, m.At route b → route.length < budget) (hknows : m.Knows given level) :
    ∃ a, (builtin .initial maxDepth).parseAmong given budget ((dumped .program m).2 level) = .ok a ∧
      a.bare = m.bare := by
  induction budget generalizing m level with
  | zero => exact absurd (hnesting [] m (.here m)) (Nat.not_lt_zero _)
  | succ budget ih =>
      rw [snd_dumped]
      split
      next hlevel =>
        obtain ⟨a, ha, hbare⟩ := hknows [] m (.here m) hlevel
        exact ⟨a, parseAmong_of_given ha, hbare⟩
      next =>
        refine exists_parseAmong_formDump (hsound [] m (.here m)) hknows fun loc b hb => ?_
        refine ih (hsound.part hb) ?_ (hknows.part hb)
        intro route c hat
        exact Nat.lt_of_succ_lt_succ (hnesting (loc :: route) c (.part hb hat))

end Registry

/-! ### Nesting -/

namespace Action

/-- How many actions there are on the longest way down, the action itself among them. -/
def nesting : Action → Nat :=
  fold fun _ form => form.nodes.foldr max 0 + 1

theorem nesting_eq (a : Action) : a.nesting = (a.form.nodes.map nesting).foldr max 0 + 1 := by
  rw [← Form.nodes_map]
  cases a
  exact fold_node _ _ _

theorem nesting_le_iff {a : Action} {n : Nat} :
    a.nesting ≤ n ↔ ∀ route b, a.At route b → route.length < n := by
  have hmax (ns : List Nat) (n : Nat) : ns.foldr max 0 ≤ n ↔ ∀ m ∈ ns, m ≤ n := by
    induction ns with
    | nil => simp
    | cons m rest ih => rw [List.foldr_cons, Nat.max_le, ih, List.forall_mem_cons]
  induction a using induction_parts generalizing n with
  | hstep a ih =>
      cases n with
      | zero =>
          refine iff_of_false (by rw [nesting_eq]; omega) fun hall => ?_
          exact absurd (hall [] a (.here a)) (Nat.not_lt_zero _)
      | succ n =>
          rw [nesting_eq, Nat.add_le_add_iff_right, hmax, List.forall_mem_map]
          constructor
          · intro hparts route b hat
            cases hat with
            | here => exact Nat.succ_pos n
            | part hpart hinner =>
                have hpart' := hparts _ (Form.mem_nodes_iff.2 ⟨_, hpart⟩)
                exact Nat.succ_lt_succ ((ih _ _ hpart).1 hpart' _ _ hinner)
          · intro hall b hb
            obtain ⟨loc, hpart⟩ := Form.mem_nodes_iff.1 hb
            refine (ih loc b hpart).2 fun route c hat => ?_
            exact Nat.lt_of_succ_lt_succ (hall (loc :: route) c (.part hpart hat))

/-- A part lies at most two levels of a dump below the action it is a part of. -/
theorem At.length_flatten_le {a b : Action} {route : Route} (hat : a.At route b) :
    route.flatten.length ≤ 2 * route.length := by
  induction hat with
  | here => exact Nat.le_refl _
  | part hpart _ ih =>
      have hloc := hpart.length_eq_gap ▸ Form.gap_le_two
      rw [List.flatten_cons, List.length_append, List.length_cons]
      omega

theorem mapping_payload {m : Action} (hwritten : m.written = none) :
    .mapping m.payload = (dumped .program m).2 1 := by
  rw [snd_dumped, if_neg (by decide), payload, hwritten]
  rfl

theorem exists_parseAmong_payload {m : Action} {maxDepth : Int} {given : String → Option Action}
    (hmade : m.Made) (hwritten : m.written = none) (hnesting : m.nesting ≤ maxDepth)
    (hknows : m.Knows given 1) :
    ∃ a, (Registry.builtin .initial maxDepth).parseAmong given maxDepth.toNat
        (.mapping m.payload) = .ok a ∧ a.bare = m.bare := by
  rw [mapping_payload hwritten]
  exact Registry.exists_parseAmong_dumped hmade.sound (nesting_le_iff.1 (by omega)) hknows

/-- However deep an action nests, what it is shown as can be read back: the literals of the actions
that the dump leaves as they are tell what they are. -/
theorem exists_given_reading_payload {m : Action} {maxDepth : Int} (hmade : m.Made)
    (hlegible : m.Legible) (hwritten : m.written = none) (hnesting : m.nesting ≤ maxDepth) :
    ∃ given, m.Knows given 1 ∧
      ∃ a, (Registry.builtin .initial maxDepth).parseAmong given maxDepth.toNat
          (.mapping m.payload) = .ok a ∧ a.bare = m.bare := by
  obtain ⟨given, hknows⟩ := exists_knows hmade.sound hlegible 1
  exact ⟨given, hknows, exists_parseAmong_payload hmade hwritten hnesting hknows⟩

/-- An action that was made from data, and does not remember a document, is read back from what it is
shown as: the same form with the same fields, at every depth.  The actions that lie too deep to be
dumped are kept as they are; there are none as long as actions nest no deeper than they may by
default. -/
theorem payload_read_back {m : Action} {maxDepth : Int} (hmade : m.Made)
    (hwritten : m.written = none) (hnesting : m.nesting ≤ maxDepth) :
    (∀ given, m.Knows given 1 →
      ∃ a, (Registry.builtin .initial maxDepth).parseAmong given maxDepth.toNat
          (.mapping m.payload) = .ok a ∧ a.bare = m.bare) ∧
    ((∀ route b, m.At route b → ¬ TooDeep 1 route) ∨ maxDepth ≤ Registry.defaultMaxDepth →
      ∃ a, (Registry.builtin .initial maxDepth).parseAction (.mapping m.payload) = .ok a ∧
        a.bare = m.bare) := by
  have hroutes : ∀ route b, m.At route b → route.length < maxDepth.toNat :=
    nesting_le_iff.1 (by omega)
  have hread (given : String → Option Action) (hknows : m.Knows given 1) :
      ∃ a, (Registry.builtin .initial maxDepth).parseAmong given maxDepth.toNat
          (.mapping m.payload) = .ok a ∧ a.bare = m.bare :=
    exists_parseAmong_payload hmade hwritten hnesting hknows
  refine ⟨hread, fun hshallow => ?_⟩
  have hnone : ∀ route b, m.At route b → ¬ TooDeep 1 route := by
    obtain hnone | hdefault := hshallow
    · exact hnone
    · intro route b hat
      have hlength := hroutes route b hat
      have hflat := hat.length_flatten_le
      rw [Registry.defaultMaxDepth] at hdefault
      rw [TooDeep, maxDumpLevel]
      omega
  obtain ⟨a, ha, hbare⟩ := hread (fun _ => none)
    fun route b hat hdeep => absurd hdeep (hnone route b hat)
  rw [Registry.parseAmong_none] at ha
  refine ⟨a, ?_, hbare⟩
  rw [Registry.parseAction, Registry.maxDepth_builtin]
  exact ha

def comparingText : Action :=
  .node none (.compare .contains "a" (.node none (.inspect .text none)) true)

/-- Stores nothing, a list with nothing in it, and a pause of a second. -/
def storingValues : Action :=
  .node none (.store [("nothing", .literal .null), ("list", .literal (.list [.int 1, .null])),
    ("pause", .node (.node none (.sleep (.finite false Binary64.one))))])

def storingIfText : Action :=
  .node none (.branch comparingText storingValues none)

theorem made_comparingText : comparingText.Made := by
  refine .constructed trivial ?_
  rintro _ _ ⟨⟩
  exact .constructed trivial (by rintro _ _ ⟨⟩)

theorem made_storingValues : storingValues.Made := by
  have hsecond : Binary64.zero.le (.finite false Binary64.one) = true :=
    Binary64.zero_le_finite_iff.2 (Int.natCast_nonneg _)
  refine .constructed ⟨by decide, ?_⟩ ?_
  · intro name v hmem
    simp only [List.mem_cons, Prod.mk.injEq, Item.literal.injEq, reduceCtorEq, and_false,
      List.not_mem_nil, or_false] at hmem
    obtain ⟨-, rfl⟩ | ⟨-, rfl⟩ := hmem <;> exact ⟨rfl, by rintro _ ⟨⟩⟩
  · intro loc b hpart
    cases hpart with
    | item hb =>
        simp only [List.mem_cons, Prod.mk.injEq, Item.node.injEq, reduceCtorEq, and_false,
          List.not_mem_nil, or_false, false_or] at hb
        obtain ⟨-, rfl⟩ := hb
        exact .constructed hsecond (by rintro _ _ ⟨⟩)

/-- So many negations of a message, one in the other. -/
def negations : Nat → Action
  | 0 => .node none (.log "x")
  | n + 1 => .node none (.negate (.node (negations n)))

theorem made_negations (n : Nat) : (negations n).Made := by
  induction n with
  | zero => exact .constructed trivial (by rintro _ _ ⟨⟩)
  | succ n ih =>
      refine .constructed trivial ?_
      rintro _ _ ⟨⟩
      exact ih

theorem nesting_negations (n : Nat) : (negations n).nesting = n + 1 := by
  induction n with
  | zero => rfl
  | succ n ih =>
      rw [nesting_eq]
      change max (negations n).nesting 0 + 1 = _
      rw [ih, Nat.max_zero]

theorem bare_negations (n : Nat) : (negations n).bare = negations n := by
  induction n with
  | zero => rfl
  | succ n ih =>
      rw [bare_eq]
      change node none (.negate (.node (negations n).bare)) = _
      rw [ih]
      rfl

theorem exists_of_at_negations {n : Nat} {route : Route} {b : Action}
    (hat : (negations n).At route b) : ∃ k, b = negations k := by
  induction n generalizing route with
  | zero =>
      cases hat with
      | here => exact ⟨0, rfl⟩
      | part hpart _ => cases hpart
  | succ n ih =>
      cases hat with
      | here => exact ⟨n + 1, rfl⟩
      | part hpart hinner =>
          cases hpart
          exact ih hinner

theorem legible_negations (n : Nat) : (negations n).Legible := by
  intro route b hat
  obtain ⟨k, rfl⟩ := exists_of_at_negations hat
  cases k <;> trivial

/-- An action that is dumped as a whole, and one that nests deeper than a dump goes. -/
theorem payload_read_back_negations :
    (storingIfText.Made ∧ storingIfText.written = none ∧ storingIfText.nesting = 3 ∧
      ∃ a, (Registry.builtin .initial 3).parseAction (.mapping storingIfText.payload) = .ok a ∧
        a.bare = storingIfText) ∧
    (negations 300).Made ∧ (negations 300).nesting = 301 ∧
      ∃ given, (negations 300).Knows given 1 ∧
        ∃ a, (Registry.builtin .initial 301).parseAmong given 301
            (.mapping (negations 300).payload) = .ok a ∧ a.bare = negations 300 := by
  constructor
  · have hmade : storingIfText.Made := by
      refine .constructed trivial ?_
      rintro _ _ ⟨⟩
      · exact made_comparingText
      · exact made_storingValues
    have hnesting : storingIfText.nesting = 3 := rfl
    have hdepth : (storingIfText.nesting : Int) ≤ 3 := by omega
    exact ⟨hmade, rfl, hnesting, (payload_read_back hmade rfl hdepth).2 (.inr (by decide))⟩
  · have hnesting := nesting_negations 300
    have hdepth : ((negations 300).nesting : Int) ≤ 301 := by omega
    obtain ⟨given, hknows⟩ := exists_knows (made_negations 300).sound (legible_negations 300) 1
    obtain ⟨a, ha, hbare⟩ := (payload_read_back (made_negations 300) rfl hdepth).1 given hknows
    rw [bare_negations] at hbare
    exact ⟨made_negations 300, hnesting, given, hknows, a, ha, hbare⟩

end Action

end Pagescript
