import Pagescript.Proofs.Faithful
import Pagescript.Proofs.Run
/-!
# The registry that is given

An interpreter or a runner is made with a registry, or without one.  To go by a registry is to run no
handler that is not registered there, and to refuse every raw step with a name that is unknown there,
before anything is done.  A registry that is given is gone by if it has any entry; an empty one is
taken for none at all.
-/

namespace Pagescript

/-! ### Going by a registry -/

namespace Interpreter

variable {σ : Type} {it : Interpreter σ} {registry : Registry}

/-- Whatever is evaluated, each handler that runs is the one that is registered under the name of the
action; and a raw step whose name is neither registered nor that of a call fails as unknown, in a
world that stays as it is. -/
structure GoesBy (it : Interpreter σ) (registry : Registry) : Prop where
  handlers : ∀ (v u : Visit σ) (k : Kind), Relation.ReflTransGen it.Nests v u →
    it.Admits u.entered → it.dispatch? u.action = some k →
      ∃ registration, registry.get? u.action.name = some registration ∧
        registration.handler = some k
  unknown : ∀ (fields : Fields) (kind : String) (frame : Frame Handle) (w : World σ),
    Entries.get? fields "action" = some (.text kind) → registry.get? kind = none →
      kind.startsWith (String.singleton sigil) = false →
        ∃ e, it.evaluateRaw (.mapping fields) frame w = (.error (.failed e), w) ∧
          e.code = .unknownAction

theorem exists_of_dispatch? {a : Action} {k : Kind} (hdispatch : it.dispatch? a = some k) :
    ∃ registration, it.registry.get? a.name = some registration ∧
      registration.handler = some k := by
  unfold dispatch? at hdispatch
  split at hdispatch
  · cases hdispatch
  · exact Option.bind_eq_some_iff.1 hdispatch

theorem parseAction_of_unknown {fields : Fields} {kind : String}
    (hkind : Entries.get? fields "action" = some (.text kind)) (hget : registry.get? kind = none)
    (hsigil : kind.startsWith (String.singleton sigil) = false) :
    registry.parseAction (.mapping fields) = .error (.unknown kind) := by
  have hschema : registry.schemaOf? kind = none := by
    rw [Registry.schemaOf?, hget, hsigil]
    rfl
  rw [Registry.parseAction, Registry.parseWithin, Registry.rawAction_ok_iff.2 ⟨rfl, hkind⟩]
  simp only [hschema, bind, Except.bind]
  rfl

theorem goesBy_of_registry (hregistry : it.registry = registry) : it.GoesBy registry := by
  subst hregistry
  constructor
  · intro v u k _ _ hdispatch
    exact exists_of_dispatch? hdispatch
  · intro fields kind frame w hkind hget hsigil
    simp only [evaluateRaw, parseAction_of_unknown hkind hget hsigil]
    exact ⟨_, rfl, rfl⟩

/-- An interpreter that knows all kinds never finds a message unknown. -/
theorem code_ne_unknownAction {maxDepth : Int}
    (hregistry : it.registry = .builtin .initial maxDepth)
    {frame : Frame Handle} {w w' : World σ} {e : ActionError}
    (hresult : it.evaluateRaw (.mapping writtenMessage) frame w = (.error (.failed e), w')) :
    e.code ≠ .unknownAction := by
  intro hcode
  have hraw : Registry.rawAction (.mapping writtenMessage) = .ok (writtenMessage, "log") := rfl
  have hschema : it.registry.schemaOf? "log" = some (.kind .log) := by
    rw [hregistry]
    exact Registry.schemaOf?_builtin_kind .log
  cases hbudget : it.registry.maxDepth.toNat with
  | zero =>
      have hparse : it.registry.parseAction (.mapping writtenMessage) =
          .error (.tooDeep it.registry.maxDepth) := by
        rw [Registry.parseAction, hbudget, Registry.parseWithin, hraw]
        simp only [hschema, bind, Except.bind]
        rfl
      simp only [evaluateRaw, hparse] at hresult
      cases hresult
      cases hcode
  | succ budget =>
      have hparse : it.registry.parseAction (.mapping writtenMessage) =
          .ok messageAction := by
        rw [Registry.parseAction, hbudget]
        exact Registry.parseWithin_message hschema budget
      simp only [evaluateRaw, hparse] at hresult
      -- whatever the message leads to has a kind, and all kinds have handlers
      obtain ⟨u, -, -, -, hform, hnone⟩ := exists_of_unknownAction hresult hcode
      have hdispatch : it.dispatch? u.action = none := by
        unfold dispatch?
        split
        · rfl
        · exact hnone
      rw [dispatch?_eq_kind? hregistry] at hdispatch
      obtain ⟨name, hcall⟩ := Form.eq_call_of_kind? hdispatch
      exact hform name hcall

theorem not_goesBy_of_builtin {maxDepth : Int}
    (hregistry : it.registry = .builtin .initial maxDepth) (hget : registry.get? "log" = none)
    (page : σ) : ¬ it.GoesBy registry := by
  intro hgoes
  have hsigil : "log".startsWith (String.singleton sigil) = false := by decide +kernel
  obtain ⟨e, hresult, hcode⟩ := hgoes.unknown writtenMessage "log" ⟨"root[0]", 0, none, []⟩ { page }
    rfl hget hsigil
  exact code_ne_unknownAction hregistry hresult hcode

theorem chooseRegistry_of_size_ne_zero (naming : Naming) (maxDepth : Int)
    (hsize : registry.size ≠ 0) : chooseRegistry naming maxDepth (some registry) = registry :=
  if_neg hsize

theorem chooseRegistry_of_size_eq_zero (naming : Naming) (maxDepth : Int)
    (hsize : registry.size = 0) :
    chooseRegistry naming maxDepth (some registry) = .builtin naming maxDepth :=
  if_pos hsize

end Interpreter

namespace Runner

variable {σ : Type} {r : Runner σ} {registry : Registry}

/-- All programs and steps are evaluated by the registry, and a raw step with an unknown name ends
with this error, unless it cannot be recorded, and leaves the world as it is. -/
structure GoesBy (r : Runner σ) (registry : Registry) : Prop where
  evaluations : ∀ program, (r.interpreter program).GoesBy registry
  steps : ∀ (program : Program) (index : Nat) (fields : Fields) (kind : String) (s : Session σ),
    Entries.get? fields "action" = some (.text kind) → registry.get? kind = none →
      kind.startsWith (String.singleton sigil) = false →
        (runStep (r.interpreter program) index (.raw (.mapping fields)) s).2.world = s.world ∧
          ∃ e, e.code = .unknownAction ∧
            (runStep (r.interpreter program) index (.raw (.mapping fields)) s).1 =
              (s.stepFault? (sourceOf index) (.raw (.mapping fields)) (.error e) s.world.now).elim
                (.ok (.error e)) .error

theorem goesBy_of_interpreter (hgoes : ∀ program, (r.interpreter program).GoesBy registry) :
    r.GoesBy registry := by
  refine ⟨hgoes, ?_⟩
  intro program index fields kind s hkind hget hsigil
  obtain ⟨e, hresult, hcode⟩ := (hgoes program).unknown fields kind
    { source := sourceOf index } s.world hkind hget hsigil
  have hstep : evaluateStep (r.interpreter program) { source := sourceOf index }
      (.raw (.mapping fields)) s.world = (.error (.failed e), s.world) := hresult
  constructor
  · rw [world_runStep, hstep]
  · have happly := runStep_apply (r.interpreter program) index (.raw (.mapping fields)) s
    simp only [Evaluation.outcome, hstep] at happly
    obtain ⟨_, _, hrun⟩ := happly
    rw [hrun]
    exact ⟨e, hcode, rfl⟩

end Runner

/-! ### When a given registry is gone by -/

theorem Registry.get?_of_size_eq_zero {registry : Registry} (hsize : registry.size = 0)
    (name : String) : registry.get? name = none := by
  rw [get?, List.eq_nil_of_length_eq_zero hsize]
  rfl

/-- A registry that is given is the one that is used, unless it is empty.

All interpreters and all runners that are given the registry go by it exactly if it has an entry.  If
it has none they know all kinds instead, under the names that these have; and as long as no kind has
been given another name, not one of them goes by the empty registry. -/
theorem given_registry_iff (registry : Registry) :
    ((∀ (σ : Type) (naming : Naming) (program : Program) (surface : Surface σ) (logger : String)
        (maxDepth maxSourceLength : Int),
        (Interpreter.create naming program surface (some registry) logger maxDepth
          maxSourceLength).GoesBy registry) ↔ registry.size ≠ 0) ∧
    ((∀ (σ : Type) (naming : Naming) (surface : Surface σ) (config : Config) (logger : String),
        (Runner.create naming surface config (some registry) logger).GoesBy registry) ↔
      registry.size ≠ 0) ∧
    (registry.size = 0 →
      ∀ (σ : Type) (naming : Naming) (program : Program) (surface : Surface σ) (config : Config)
        (logger : String) (maxDepth maxSourceLength : Int),
        (Interpreter.create naming program surface (some registry) logger maxDepth
            maxSourceLength).registry = .builtin naming maxDepth ∧
          (Runner.create naming surface config (some registry) logger).registry =
            .builtin naming config.maxDepth ∧
          (naming = .initial → Nonempty σ →
            ¬ (Interpreter.create naming program surface (some registry) logger maxDepth
                maxSourceLength).GoesBy registry ∧
              ¬ (Runner.create naming surface config (some registry) logger).GoesBy registry)) := by
  have hempty (hsize : registry.size = 0) {σ : Type} {it : Interpreter σ} {maxDepth : Int}
      (hit : it.registry = Interpreter.chooseRegistry .initial maxDepth (some registry))
      (page : σ) : ¬ it.GoesBy registry := by
    rw [Interpreter.chooseRegistry_of_size_eq_zero _ _ hsize] at hit
    exact Interpreter.not_goesBy_of_builtin hit (Registry.get?_of_size_eq_zero hsize _) page
  refine ⟨⟨?_, ?_⟩, ⟨?_, ?_⟩, ?_⟩
  · intro hall hsize
    exact hempty hsize rfl () (hall Unit .initial .empty .closed "" 0 0)
  · intro hsize σ naming program surface logger maxDepth maxSourceLength
    have hregistry := Interpreter.chooseRegistry_of_size_ne_zero naming maxDepth hsize
    exact Interpreter.goesBy_of_registry hregistry
  · intro hall hsize
    exact hempty hsize rfl () ((hall Unit .initial .closed .initial "").evaluations .empty)
  · intro hsize σ naming surface config logger
    have hregistry := Interpreter.chooseRegistry_of_size_ne_zero naming config.maxDepth hsize
    exact Runner.goesBy_of_interpreter fun program => Interpreter.goesBy_of_registry hregistry
  · intro hsize σ naming program surface config logger maxDepth maxSourceLength
    refine ⟨Interpreter.chooseRegistry_of_size_eq_zero _ _ hsize,
      Interpreter.chooseRegistry_of_size_eq_zero _ _ hsize, ?_⟩
    rintro rfl ⟨page⟩
    exact ⟨hempty hsize rfl page, fun hgoes => hempty hsize rfl page (hgoes.evaluations program)⟩

end Pagescript
