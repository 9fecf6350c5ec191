import Pagescript.Proofs.Likeness
import Pagescript.Proofs.Nesting
import Pagescript.Proofs.Positions
/-!
# Actions are what was written

However a registry has come about, an action that it reads is at every position what stands there:
its name is the one that is written, its schema is the one under that name, and its payload is the
whole mapping.  So an interpreter with this registry carries each action out by the handler that goes
with the name that was written.
-/

namespace Pagescript

/-! ### How registries come about -/

namespace Registry

variable {registry next : Registry} {naming naming' : Naming} {request : RegistrationRequest}

/-- A registry that was filled by registrations only, whatever the names were before each. -/
inductive Built : Registry → Prop where
  | empty (maxDepth : Int) : Built (.empty maxDepth)
  | register {registry next : Registry} {naming naming' : Naming} {request : RegistrationRequest}
    (hbuilt : Built registry) (hregister : registry.register naming request = .ok (next, naming')) :
    Built next

theorem register_of_name {schema : Schema} {name : String} (hschema : request.schema = some schema)
    (hname : ((nonempty? request.name).or (nonempty? (naming.nameOf? schema))).getD schema.title =
      name) (hsigil : name.startsWith (String.singleton sigil) = false) :
    registry.register naming request =
      .ok ({ registry with
        registrations := Entries.insert registry.registrations name
          ⟨name, schema, request.handler, (nonempty? request.description).getD schema.description⟩ },
        naming.give schema name) := by
  unfold register
  rw [hschema]
  simp only [hname]
  rw [hsigil]
  rfl

/-- A registration binds a name that does not begin with the sigil. -/
theorem get?_of_register (hregister : registry.register naming request = .ok (next, naming')) :
    ∃ name registration, name.startsWith (String.singleton sigil) = false ∧
      ∀ key, next.get? key = if key = name then some registration else registry.get? key := by
  unfold register at hregister
  split at hregister
  · cases hregister
  · simp only at hregister
    split at hregister
    · cases hregister
    next hsigil =>
      cases hregister
      exact ⟨_, _, by simpa using hsigil, fun key => Entries.get?_insert _ _ key _⟩

theorem Built.startsWith_eq_false (hbuilt : registry.Built) {key : String}
    {registration : Registration} (hget : registry.get? key = some registration) :
    key.startsWith (String.singleton sigil) = false := by
  induction hbuilt with
  | empty => cases hget
  | register _ hregister ih =>
      obtain ⟨name, _, hsigil, hnext⟩ := get?_of_register hregister
      rw [hnext] at hget
      split at hget
      next hkey => exact hkey ▸ hsigil
      · exact ih hget

/-! ### What is read from one mapping -/

/-- The action is what the mapping says: it has the name that is written, it is of the kind that is
registered under it (or a call, if nothing is), and it remembers the mapping. -/
structure Faithful (registry : Registry) (fields : Fields) (b : Action) : Prop where
  name : Entries.get? fields "action" = some (.text b.name)
  payload : b.payload = fields
  schema : (∃ k registration, registry.get? b.name = some registration ∧
      registration.schema = .kind k ∧ b.form.kind? = some k) ∨
    ∃ name, registry.get? b.name = none ∧ b.name = reference name ∧ b.form = .call name

theorem Faithful.form_ne_call {fields : Fields} {b : Action} {registration : Registration}
    (hfaithful : registry.Faithful fields b) (hget : registry.get? b.name = some registration)
    (name : String) : b.form ≠ .call name := by
  intro hform
  obtain ⟨k, _, -, -, hkind⟩ | ⟨_, hnone, -⟩ := hfaithful.schema
  · rw [hform] at hkind
    cases hkind
  · rw [hget] at hnone
    cases hnone

theorem exists_registration {kind : String} {k : Kind}
    (hschema : registry.schemaOf? kind = some (.kind k)) :
    ∃ registration, registry.get? kind = some registration ∧ registration.schema = .kind k := by
  unfold schemaOf? at hschema
  split at hschema
  next registration hget => exact ⟨registration, hget, Option.some.inj hschema⟩
  · split at hschema
    · cases hschema
    · cases hschema

theorem faithful_of_parse {left : Nat} {u : Value} {b : Action} (hbuilt : registry.Built)
    (hparse : registry.parseWithin (left + 1) u = .ok b) :
    ∃ fields, u = .mapping fields ∧ registry.Faithful fields b := by
  obtain ⟨fields, kind, schema, form, rfl, hkind, hschema, hread, rfl⟩ :=
    parseWithin_succ_eq_ok_iff.1 hparse
  refine ⟨fields, rfl, ?_⟩
  obtain ⟨k, rfl, hform⟩ | ⟨rfl, name, rfl, hreference⟩ := Schema.read_cases hread
  · -- the name that is written has to be the one of the kind
    obtain ⟨registration, hget, hregistered⟩ := exists_registration hschema
    have hformKind := Form.kind?_of_read hform
    have hwritten := Form.isValid_literalName.1 (Form.isValid_read.1 ⟨form, hform⟩).1 _ hkind
    have hname : (Action.node (some fields) form).name = kind := by
      rw [Value.text.inj hwritten]
      exact Form.name_eq_of_kind? hformKind
    exact ⟨hname ▸ hkind, rfl, .inl ⟨k, registration, hname ▸ hget, hregistered, hformKind⟩⟩
  · -- the name of a call begins with the sigil, so nothing is registered under it
    refine ⟨hreference, rfl, .inr ⟨name, ?_, rfl, rfl⟩⟩
    cases hget : registry.get? (reference name) with
    | none => exact hget
    | some registration =>
        have hsigil := hbuilt.startsWith_eq_false hget
        rw [startsWith_reference] at hsigil
        cases hsigil

end Registry

/-! ### Actions that were read -/

/-- The action stands somewhere in an action that the registry has read. -/
def Registry.HasRead (registry : Registry) (b : Action) : Prop :=
  ∃ v a route, registry.parseAction v = .ok a ∧ a.At route b

theorem Registry.HasRead.exists_faithful {registry : Registry} {b : Action}
    (hread : registry.HasRead b) (hbuilt : registry.Built) :
    ∃ fields, registry.Faithful fields b := by
  obtain ⟨v, a, route, hparse, hat⟩ := hread
  obtain ⟨u, left, -, -, hb⟩ := exists_actionAt_of_at hparse hat
  obtain ⟨fields, -, hfaithful⟩ := faithful_of_parse hbuilt hb
  exact ⟨fields, hfaithful⟩

namespace Interpreter

variable {σ : Type} {it : Interpreter σ} {registry : Registry} {v u : Visit σ}

theorem hasRead_of_nests (hprogram : ∀ entry ∈ it.program.actions, registry.HasRead entry.2)
    (hnests : it.Nests v u) (hv : registry.HasRead v.action ∨ ∃ name, v.action.form = .call name) :
    registry.HasRead u.action ∨ ∃ name, u.action.form = .call name := by
  obtain ⟨loc, hpart⟩ | ⟨-, name, hname⟩ | ⟨name, -, haction⟩ :=
    (leads_of_mem_requests hnests rfl).cases_hasPart
  · obtain ⟨raw, a, route, hparse, hat⟩ | ⟨name, hform⟩ := hv
    · exact .inl ⟨raw, a, route ++ [loc], hparse, hat.snoc hpart⟩
    · rw [hform] at hpart
      cases hpart
  · exact .inr ⟨name, hname ▸ rfl⟩
  · exact .inl (hprogram _ (Entries.mem_of_get? haction))

/-- If the registry has read the action and those of the program, it has read all that is visited but
the calls. -/
theorem hasRead_of_reflTransGen (hprogram : ∀ entry ∈ it.program.actions, registry.HasRead entry.2)
    (hu : Relation.ReflTransGen it.Nests v u) (hv : registry.HasRead v.action) :
    registry.HasRead u.action ∨ ∃ name, u.action.form = .call name := by
  induction hu with
  | refl => exact .inl hv
  | tail _ hnests ih => exact hasRead_of_nests hprogram hnests ih

/-- An action that is unknown to an evaluation has no handler. -/
theorem exists_of_unknownAction {a : Action} {frame : Frame Handle} {w w' : World σ}
    {e : ActionError} (hresult : it.evaluate a frame w = (.error (.failed e), w'))
    (hcode : e.code = .unknownAction) :
    ∃ u, Relation.ReflTransGen it.Nests ⟨a, frame, w⟩ u ∧ e.source = u.entered.source ∧
      e.action = .mapping u.action.payload ∧ (∀ name, u.action.form ≠ .call name) ∧
      (it.registry.get? u.action.name).bind (·.handler) = none := by
  obtain ⟨u, hu, horigin⟩ := exists_origin hresult
  refine ⟨u, hu, ?_⟩
  cases horigin with
  | overlong _ he | tooDeep _ he =>
      cases he
      cases hcode
  | own _ hunknown he =>
      cases he
      obtain ⟨hdispatch, hkind⟩ := hunknown hcode
      have hform (name : String) : u.action.form ≠ .call name := by
        intro hform
        rw [hform] at hkind
        exact hkind rfl
      refine ⟨rfl, rfl, hform, ?_⟩
      unfold dispatch? at hdispatch
      split at hdispatch
      next name hname => exact absurd hname (hform name)
      · exact hdispatch

end Interpreter

/-- What is read is what was written, and it is carried out accordingly.

Every position in an action that is read is one in the value, and the action there is faithful to the
mapping there; if no name is bound twice, there is such an action for every position in the value.
An interpreter with the same registry carries each of them out as the registration under the written
name says.  If an action is unknown to an evaluation then it has no handler in the registry; it is
registered without one, if this registry has read it or has read the whole program. -/
theorem parse_faithful {registry : Registry} {v : Value} {a : Action} (hbuilt : registry.Built)
    (hparse : registry.parseAction v = .ok a) :
    (∀ route b, a.At route b →
      ∃ fields, registry.ActionAt v route (.mapping fields) ∧ registry.Faithful fields b) ∧
    (v.settle = v → ∀ route u, registry.ActionAt v route u →
      ∃ fields b, u = .mapping fields ∧ a.At route b ∧ registry.Faithful fields b) ∧
    ∀ (σ : Type) (it : Interpreter σ), it.registry = registry →
      (∀ route b registration, a.At route b → registry.get? b.name = some registration →
        ∀ frame,
          (∀ k, registration.handler = some k →
            it.plan b frame = Handler.plan it.program k b frame) ∧
          (registration.handler = none → it.plan b frame = Plan.failAt b frame .unknownAction
            ("could not find a defined action with the name " ++ Text.quote b.name) [])) ∧
      ∀ frame w e w', it.evaluate a frame w = (.error (.failed e), w') → e.code = .unknownAction →
        ∃ u, Relation.ReflTransGen it.Nests ⟨a, frame, w⟩ u ∧ e.source = u.entered.source ∧
          e.action = .mapping u.action.payload ∧
          (registry.get? u.action.name).bind (·.handler) = none ∧
          (registry.HasRead u.action ∨ (∀ entry ∈ it.program.actions, registry.HasRead entry.2) →
            ∃ registration, registry.get? u.action.name = some registration ∧
              registration.handler = none) := by
  have hfaithful (route : Route) (b : Action) (hat : a.At route b) :
      ∃ fields, registry.ActionAt v route (.mapping fields) ∧ registry.Faithful fields b := by
    obtain ⟨u, left, hu, -, hb⟩ := Registry.exists_actionAt_of_at hparse hat
    obtain ⟨fields, rfl, hfaithful⟩ := Registry.faithful_of_parse hbuilt hb
    exact ⟨fields, hu, hfaithful⟩
  refine ⟨hfaithful, ?_, ?_⟩
  · intro hsettled route u hu
    obtain ⟨b, left, hat, hb⟩ := Registry.exists_at_of_actionAt hparse hsettled hu
    obtain ⟨fields, rfl, hfaithful⟩ := Registry.faithful_of_parse hbuilt hb
    exact ⟨fields, b, rfl, hat, hfaithful⟩
  · rintro σ it rfl
    constructor
    · intro route b registration hat hget frame
      obtain ⟨fields, -, hb⟩ := hfaithful route b hat
      rw [Interpreter.plan_of_not_call (hb.form_ne_call hget), hget, Option.bind_some]
      constructor
      · intro k hk
        rw [hk]
      · intro hnone
        rw [hnone]
    · intro frame w e w' hresult hcode
      obtain ⟨u, hu, hsource, haction, hform, hnone⟩ :=
        Interpreter.exists_of_unknownAction hresult hcode
      refine ⟨u, hu, hsource, haction, hnone, fun hknown => ?_⟩
      have hvisited : it.registry.HasRead u.action ∨ ∃ name, u.action.form = .call name := by
        obtain hread | hprogram := hknown
        · exact .inl hread
        · exact Interpreter.hasRead_of_reflTransGen hprogram hu ⟨v, a, [], hparse, .here a⟩
      obtain hread | ⟨name, hcall⟩ := hvisited
      · obtain ⟨fields, hu⟩ := hread.exists_faithful hbuilt
        obtain ⟨k, registration, hget, -⟩ | ⟨name, -, -, hcall⟩ := hu.schema
        · rw [hget] at hnone
          exact ⟨registration, hget, hnone⟩
        · exact absurd hcall (hform name)
      · exact absurd hcall (hform name)

/-! ### A name that is taken over -/

namespace Registry

/-- The name of messages was given to errors first, then messages took it over without a handler. -/
def takenOver : Registry :=
  ⟨[("log", ⟨"log", .kind .log, none, ""⟩), ("do", Kind.sequence.registration)], 2⟩

theorem built_takenOver : takenOver.Built := by
  have hsigil : "log".startsWith (String.singleton sigil) = false := by decide +kernel
  have hfirst := @register_of_name (.empty 2) .initial
    ⟨some (.kind .error), some .error, some "log", none⟩ _ _ rfl rfl hsigil
  have hsecond := @register_of_name ⟨[("log", ⟨"log", .kind .error, some .error, ""⟩)], 2⟩
    (Naming.initial.give (.kind .error) "log") ⟨some (.kind .log), none, none, none⟩ _ _ rfl rfl
    hsigil
  have hthird := register_kind ⟨[("log", ⟨"log", .kind .log, none, ""⟩)], 2⟩ .sequence
  exact .register (.register (.register (.empty _) hfirst) hsecond) hthird

end Registry

def writtenSequence : Fields :=
  [("action", .text "do"), ("statements", .list [.mapping writtenMessage])]

def sequenceAction : Action :=
  .node (some writtenSequence) (.sequence [messageAction])

theorem parseAction_writtenSequence :
    Registry.takenOver.parseAction (.mapping writtenSequence) = .ok sequenceAction := by
  have hmessage := Registry.nodeWithin_eq_valid_iff.2
    (@Registry.parseWithin_message .takenOver rfl 0)
  have hstatements : Reader.required writtenSequence "statements"
      (Reader.listOf .value (Registry.takenOver.nodeWithin 1)) = .valid [messageAction] := by
    refine Reader.required_eq_valid_iff.2 ⟨.list [.mapping writtenMessage], rfl, ?_⟩
    simp only [Reader.listOf, Reader.items]
    rw [hmessage]
    rfl
  refine Registry.parseWithin_succ_eq_ok_iff.2
    ⟨writtenSequence, "do", .kind .sequence, .sequence [messageAction], rfl, rfl, rfl, ?_, rfl⟩
  rw [Schema.read, Form.read, hstatements]
  rfl

def takenOver : Interpreter Script :=
  { Interpreter.ofKinds [] with registry := .takenOver }

theorem parse_faithful_takenOver :
    ∃ e w', takenOver.evaluate sequenceAction ⟨"root[0]", 0, none, []⟩ World.onEmptyPage =
        (.error (.failed e), w') ∧
      e.code = .unknownAction ∧ e.source = "root[0].do.log" ∧
      (∀ route b, sequenceAction.At route b → ∃ fields, Registry.takenOver.ActionAt
        (.mapping writtenSequence) route (.mapping fields) ∧
          Registry.takenOver.Faithful fields b) ∧
      ∃ u : Visit Script, e.source = u.entered.source ∧
        ∃ registration, Registry.takenOver.get? u.action.name = some registration ∧
          registration.handler = none := by
  obtain ⟨e, w', hresult, hcode, hsource⟩ :
      ∃ e w', takenOver.evaluate sequenceAction ⟨"root[0]", 0, none, []⟩ World.onEmptyPage =
        (.error (.failed e), w') ∧ e.code = .unknownAction ∧ e.source = "root[0].do.log" :=
    ⟨_, _, rfl, rfl, by decide⟩
  obtain ⟨hfaithful, -, hruns⟩ := parse_faithful Registry.built_takenOver
    parseAction_writtenSequence
  obtain ⟨-, hunknown⟩ := hruns Script takenOver rfl
  obtain ⟨u, -, hu, -, -, hregistered⟩ := hunknown _ _ _ _ hresult hcode
  have hprogram : ∀ entry ∈ takenOver.program.actions, Registry.takenOver.HasRead entry.2 :=
    fun entry hentry => absurd hentry List.not_mem_nil
  exact ⟨e, w', hresult, hcode, hsource, hfaithful, u, hu, hregistered (.inr hprogram)⟩

end Pagescript
