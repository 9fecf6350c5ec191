import Pagescript.Proofs.Nesting
import Pagescript.Proofs.Positions
/-!
# Levels of nesting

The levels of an action are counted twice: when it is read, and again when it is evaluated.  An
action that calls nothing is evaluated part by part, and each part is entered as deep as it stands
in the action.  So if both are given the same limit, the second count finds nothing that the first
has let through.
-/

namespace Pagescript

open Handler

/-! ### Actions that call nothing -/

/-- No action in it is a call, and no text in a store action stands for an action of the program. -/
def Action.SelfContained (program : Program) (a : Action) : Prop :=
  ∀ route b, a.At route b → (∀ name, b.form ≠ .call name) ∧
    ∀ items, b.form.items? = some items → ∀ name s, (name, .literal (.text s)) ∈ items →
      ∀ called target, program.resolve s ≠ .action called target

theorem Action.SelfContained.part {program : Program} {a b : Action} {loc : List Segment}
    (ha : a.SelfContained program) (hpart : a.form.HasPart loc b) : b.SelfContained program :=
  fun route c hat => ha (loc :: route) c (.part hpart hat)

/-- Such an action leads to its parts only. -/
theorem Handler.Leads.exists_hasPart {program : Program} {a b : Action} {frame g : Frame Handle}
    (hlead : Leads program a frame b g) (ha : a.SelfContained program) :
    ∃ loc, a.form.HasPart loc b := by
  obtain ⟨hcall, hitems⟩ := ha [] a (.here a)
  obtain hpart | ⟨⟨_, _, _, _, _, hb, hs, hresolve⟩, -⟩ | ⟨name, hform, -⟩ := hlead.cases_hasPart
  · exact hpart
  · exact absurd hresolve (hitems _ hb _ _ hs _ _)
  · exact absurd hform (hcall name)

/-! ### Visits and positions -/

namespace Interpreter

variable {σ : Type} {it : Interpreter σ} {v u : Visit σ}

theorem Nests.exists_hasPart (hnests : it.Nests v u) (hv : v.action.SelfContained it.program) :
    ∃ loc, v.action.form.HasPart loc u.action :=
  (leads_of_mem_requests hnests rfl).exists_hasPart hv

/-- Every visit on the way is one of a position in the action, and the frame is as deep as the route
to this position is long. -/
theorem exists_at_of_reflTransGen (hu : Relation.ReflTransGen it.Nests v u)
    (hv : v.action.SelfContained it.program) :
    ∃ route, v.action.At route u.action ∧ u.frame.depth = v.frame.depth + route.length := by
  induction hu using Relation.ReflTransGen.head_induction_on with
  | refl => exact ⟨[], .here _, by simp⟩
  | head hnests _ ih =>
      obtain ⟨loc, hpart⟩ := hnests.exists_hasPart hv
      obtain ⟨route, hat, hdepth⟩ := ih (hv.part hpart)
      refine ⟨loc :: route, .part hpart hat, ?_⟩
      rw [hdepth, hnests.depth_eq, List.length_cons]
      omega

end Interpreter

/-! ### The two limits -/

/-- An action that is read has no more levels than the registry allows. -/
theorem Registry.length_lt_of_at {registry : Registry} {v : Value} {a b : Action} {route : Route}
    (hparse : registry.parseAction v = .ok a) (hat : a.At route b) :
    route.length + 1 ≤ registry.maxDepth := by
  obtain ⟨u, left, -, hbudget, -⟩ := exists_actionAt_of_at hparse hat
  omega

/-- What is read within a limit is evaluated within it.

An action that is read has at most as many levels as the registry allows.  If it calls nothing, then
an interpreter with the same limit that begins at depth zero, on any page, visits each part at the
depth at which it stands in the action, so never beyond the limit; and if the evaluation fails on
account of a limit, it is because the path has become too long. -/
theorem depth_limits_agree {registry : Registry} {v : Value} {a : Action}
    (hparse : registry.parseAction v = .ok a) :
    (∀ route b, a.At route b → route.length + 1 ≤ registry.maxDepth) ∧
      ∀ (σ : Type) (it : Interpreter σ) (frame : Frame Handle) (w : World σ),
        it.maxDepth = registry.maxDepth → frame.depth = 0 → a.SelfContained it.program →
        (∀ u, Relation.ReflTransGen it.Nests ⟨a, frame, w⟩ u →
          ∃ route, a.At route u.action ∧ u.entered.depth = route.length + 1 ∧
            u.entered.depth ≤ it.maxDepth) ∧
        ∀ e w', it.evaluate a frame w = (.error (.failed e), w') → e.code = .recursionLimit →
          it.maxSourceLength < e.source.length ∧
            e.message = "action chain longer than " ++ toString it.maxSourceLength ++
              " chars, expected to be inside a recursive loop" := by
  refine ⟨fun route b hat => Registry.length_lt_of_at hparse hat, ?_⟩
  intro σ it frame w hlimit hdepth hcontained
  have hvisits (u : Visit σ) (hu : Relation.ReflTransGen it.Nests ⟨a, frame, w⟩ u) :
      ∃ route, a.At route u.action ∧ u.entered.depth = route.length + 1 ∧
        u.entered.depth ≤ it.maxDepth := by
    obtain ⟨route, hat, hroute⟩ := Interpreter.exists_at_of_reflTransGen hu hcontained
    have hlevel := Registry.length_lt_of_at hparse hat
    have hentered : u.entered.depth = route.length + 1 := by
      rw [Visit.entered, Frame.depth_enter, hroute, hdepth]
      omega
    exact ⟨route, hat, hentered, by omega⟩
  refine ⟨hvisits, ?_⟩
  intro e w' hresult hcode
  obtain ⟨u, hu, horigin⟩ := Interpreter.exists_origin hresult
  cases horigin with
  | overlong hlength he =>
      cases he
      exact ⟨hlength, rfl⟩
  | tooDeep hbeyond =>
      obtain ⟨_, -, -, hwithin⟩ := hvisits u hu
      omega
  | own hne _ he =>
      cases he
      exact absurd hcode hne

/-! ### A loop of two levels -/

def writtenLoop : Fields :=
  [("action", .text "forEach"), ("elements", .text "li"), ("execute", .mapping writtenMessage)]

def loopAction : Action :=
  .node (some writtenLoop) (.forEach "li" messageAction)

/-- Two levels are enough for the loop, but the path to its first turn is too long. -/
def shortPaths : Interpreter Script :=
  { Interpreter.ofKinds [.forEach, .log] with
    registry := { (Interpreter.ofKinds [.forEach, .log]).registry with maxDepth := 2 }
    maxDepth := 2
    maxSourceLength := 20 }

theorem parseAction_writtenLoop :
    shortPaths.registry.parseAction (.mapping writtenLoop) = .ok loopAction := by
  have hmessage := Registry.nodeWithin_eq_valid_iff.2
    (@Registry.parseWithin_message shortPaths.registry rfl 0)
  have hexecute : Reader.required writtenLoop "execute" (shortPaths.registry.nodeWithin 1) =
      .valid messageAction :=
    Reader.required_eq_valid_iff.2 ⟨_, rfl, hmessage⟩
  refine Registry.parseWithin_succ_eq_ok_iff.2
    ⟨writtenLoop, "forEach", .kind .forEach, .forEach "li" messageAction, rfl, rfl, rfl, ?_, rfl⟩
  rw [Schema.read, Form.read, hexecute]
  rfl

theorem selfContained_loopAction (program : Program) : loopAction.SelfContained program := by
  intro route b hat
  cases hat with
  | here => exact ⟨fun name h => (by cases h), fun items h => (by cases h)⟩
  | part hpart hinner =>
      cases hpart
      cases hinner with
      | here => exact ⟨fun name h => (by cases h), fun items h => (by cases h)⟩
      | part hpart => cases hpart

theorem depth_limits_agree_loopAction :
    ∃ e w', shortPaths.evaluate loopAction ⟨"root[0]", 0, none, []⟩ Interpreter.onListPage =
        (.error (.failed e), w') ∧
      e.code = .recursionLimit ∧ 20 < e.source.length ∧
      ∀ u, Relation.ReflTransGen shortPaths.Nests
          ⟨loopAction, ⟨"root[0]", 0, none, []⟩, Interpreter.onListPage⟩ u →
        u.entered.depth ≤ 2 := by
  obtain ⟨e, w', hresult, hcode⟩ : ∃ e w', shortPaths.evaluate loopAction
      ⟨"root[0]", 0, none, []⟩ Interpreter.onListPage = (.error (.failed e), w') ∧
        e.code = .recursionLimit := ⟨_, _, rfl, rfl⟩
  obtain ⟨-, hruns⟩ := depth_limits_agree parseAction_writtenLoop
  obtain ⟨hvisits, hlimit⟩ := hruns Script shortPaths ⟨"root[0]", 0, none, []⟩
    Interpreter.onListPage rfl rfl (selfContained_loopAction _)
  have hlength : (20 : Int) < e.source.length := (hlimit e w' hresult hcode).1
  refine ⟨e, w', hresult, hcode, by omega, ?_⟩
  intro u hu
  obtain ⟨_, -, -, hdepth⟩ := hvisits u hu
  exact hdepth

end Pagescript
