import Pagescript.Proofs.Checks
/-!
# The grammar of actions

What a value has to look like to be an action is said here field by field, without a reader: which
fields a kind has, under which names, what each of them may hold, and how deep actions may lie in
each other.  The registry of all kinds accepts exactly the values that are written so.
-/

namespace Pagescript

/-! ### Well-formed actions -/

/-- What a field of an action may hold. -/
inductive Content where
  | text
  | nonemptyText
  | reference
  | duration
  | flag
  | action
  | actions
  /-- A truth value, or an action that gives one. -/
  | operand
  /-- Names with a value or an action each. -/
  | items
  /-- Null, or something else. -/
  | orNull (content : Content)

/-- What is said of a field: the names it goes by, what it holds, and whether it has to be there. -/
structure FieldRule where
  names : List String
  content : Content
  required : Bool

namespace FieldRule

def need (name : String) (content : Content) : FieldRule :=
  ⟨[name], content, true⟩

def may (name : String) (content : Content) : FieldRule :=
  ⟨[name], content, false⟩

def element : FieldRule :=
  may "element" (.orNull .text)

def ignoreCase : FieldRule :=
  ⟨["ignoreCase", "ignore_case"], .flag, false⟩

end FieldRule

open FieldRule in
/-- The fields of a kind, besides its name. -/
def Kind.rules : Kind → List FieldRule
  | .sequence => [need "statements" .actions]
  | .branch =>
    [need "condition" .action, need "statement" .action, may "otherwise" (.orNull .action)]
  | .negate => [need "statement" .operand]
  | .forEach => [need "elements" .text, need "execute" .action]
  | .has => [need "element" .text]
  | .inspect _ | .gesture _ | .awaitElement _ => [element]
  | .attributeOf => [element, need "name" .text]
  | .compare .equal | .compare .notEqual =>
    [need "expected" .text, need "statement" .action, ignoreCase]
  | .compare .contains => [need "text" .text, need "statement" .action, ignoreCase]
  | .input => [element, need "text" .text]
  | .press => [element, need "key" .nonemptyText]
  | .navigate => [need "link" .text]
  | .eval => [element, need "expression" .text]
  | .sleep => [need "duration" .duration]
  | .awaitPage _ => []
  | .store => [may "items" .items]
  | .logStore => [need "key" .reference]
  | .log | .error => [need "message" .text]

/-- The names of all fields of a kind. -/
def Kind.fieldNames (k : Kind) : List String :=
  "action" :: k.rules.flatMap FieldRule.names

/-- A value is what a field may hold, if its parts that should be actions satisfy `inner`. -/
def Content.Allows (inner : Value → Prop) : Content → Value → Prop
  | .text, v => ∃ s, v = .text s
  | .nonemptyText, v => ∃ s, v = .text s ∧ s ≠ ""
  | .reference, v => ∃ s, v = .text s ∧ IsReference s
  | .duration, v => IsDuration v
  | .flag, v => IsFlag v
  | .action, v => inner v
  | .actions, v => ∃ vs, v = .list vs ∧ ∀ u ∈ vs, inner u
  | .operand, v => (∃ b, v = .bool b) ∨ inner v
  | .items, v => ∃ entries, v = .mapping entries ∧
      ∀ entry ∈ entries, ∀ fields, entry.2 = .mapping fields → inner entry.2
  | .orNull content, v => v = .null ∨ content.Allows inner v

/-- The rule is kept: the field is there if it has to be, under one of its names only, and what it
holds is allowed. -/
structure FieldRule.Kept (inner : Value → Prop) (fields : Fields) (rule : FieldRule) : Prop where
  needed : rule.required = true → ∃ name ∈ rule.names, ∃ v, Entries.get? fields name = some v
  once : ∀ name ∈ rule.names, ∀ name' ∈ rule.names, ∀ v v', Entries.get? fields name = some v →
    Entries.get? fields name' = some v' → name = name'
  allowed : ∀ name ∈ rule.names, ∀ v, Entries.get? fields name = some v →
    rule.content.Allows inner v

/-- A mapping is written as an action of a kind or as a call, if its parts that should be actions
satisfy `inner`. -/
inductive Shaped (inner : Value → Prop) : Value → Prop where
  | kind {k : Kind} {fields : Fields}
    (hname : Entries.get? fields "action" = some (.text k.name))
    (hknown : ∀ entry ∈ fields, entry.1 ∈ k.fieldNames)
    (hrules : ∀ rule ∈ k.rules, rule.Kept inner fields) : Shaped inner (.mapping fields)
  | call {s : String} {fields : Fields} (hname : Entries.get? fields "action" = some (.text s))
    (hs : IsReference s) (hknown : ∀ entry ∈ fields, entry.1 = "action") :
    Shaped inner (.mapping fields)

/-- A value is a well-formed action at a level of nesting, of which there are at most `maxDepth`. -/
def WellFormed (maxDepth : Int) (level : Nat) (v : Value) : Prop :=
  if level ≤ maxDepth then Shaped (fun u => WellFormed maxDepth (level + 1) u) v else False
termination_by (maxDepth + 1 - level).toNat
decreasing_by omega

theorem wellFormed_iff {maxDepth : Int} {level : Nat} {v : Value} :
    WellFormed maxDepth level v ↔ level ≤ maxDepth ∧ Shaped (WellFormed maxDepth (level + 1)) v := by
  rw [WellFormed]
  split
  next hlevel => exact ⟨fun hshaped => ⟨hlevel, hshaped⟩, And.right⟩
  next hlevel => exact ⟨False.elim, fun h => hlevel h.1⟩

/-! ### One level -/

namespace FieldRule

variable {inner : Value → Prop} {fields : Fields} {name : String} {content : Content}

theorem kept_need :
    (need name content).Kept inner fields ↔
      ∃ v, Entries.get? fields name = some v ∧ content.Allows inner v := by
  constructor
  · rintro ⟨hneeded, -, hallowed⟩
    obtain ⟨_, hname, v, hv⟩ := hneeded rfl
    obtain rfl := List.mem_singleton.1 hname
    exact ⟨v, hv, hallowed _ hname v hv⟩
  · rintro ⟨v, hv, hallows⟩
    refine ⟨fun _ => ⟨name, List.mem_singleton_self _, v, hv⟩, ?_, ?_⟩
    · intro name₁ h₁ name₂ h₂ _ _ _ _
      rw [List.mem_singleton.1 h₁, List.mem_singleton.1 h₂]
    · intro name₁ h₁ v₁ hv₁
      rw [List.mem_singleton.1 h₁, hv] at hv₁
      exact Option.some.inj hv₁ ▸ hallows

theorem kept_may :
    (may name content).Kept inner fields ↔
      ∀ v, Entries.get? fields name = some v → content.Allows inner v := by
  constructor
  · intro hkept
    exact hkept.allowed name (List.mem_singleton_self _)
  · intro hallows
    refine ⟨nofun, ?_, ?_⟩
    · intro name₁ h₁ name₂ h₂ _ _ _ _
      rw [List.mem_singleton.1 h₁, List.mem_singleton.1 h₂]
    · intro name₁ h₁
      rw [List.mem_singleton.1 h₁]
      exact hallows

end FieldRule

/-- A reader accepts what a field may hold, where `node` reads its actions. -/
def Reads {α β : Type} (node : Reader α) (reader : Reader β) (content : Content) : Prop :=
  ∀ v, (reader v).IsValid ↔ content.Allows (fun u => (node u).IsValid) v

namespace Reads

open Reader

variable {α β : Type} {node : Reader α} {reader : Reader β} {content : Content}

theorem plainText (node : Reader α) : Reads node text .text := fun _ => isValid_text

theorem nonempty (node : Reader α) : Reads node nonemptyText .nonemptyText :=
  fun _ => isValid_nonemptyText

theorem referring (node : Reader α) : Reads node referenceText .reference :=
  fun _ => isValid_referenceText

theorem seconds (node : Reader α) : Reads node duration .duration := fun _ => isValid_duration

theorem action (node : Reader α) : Reads node node .action := fun _ => Iff.rfl

theorem actions (node : Reader α) : Reads node (listOf .value node) .actions :=
  fun _ => isValid_listOf

theorem operand (node : Reader α) : Reads node (Form.operand node) .operand := by
  intro v
  cases v with
  | bool b => exact iff_of_true (Check.isValid_valid _) (.inl ⟨b, rfl⟩)
  | _ =>
      simp only [Form.operand, Content.Allows, reduceCtorEq, exists_false, false_or]
      exact Check.isValid_map

theorem items (node : Reader α) : Reads node (mappingOf .value (Form.item node)) .items := by
  intro v
  rw [isValid_mappingOf]
  refine exists_congr fun fields => and_congr_right fun _ => ?_
  refine forall₂_congr fun entry _ => ?_
  obtain ⟨name, v⟩ := entry
  cases v with
  | mapping inner =>
      change (Item.node <$> node (.mapping inner)).IsValid ↔ _
      simp
  | _ => simp [Form.item]

theorem orNull (hreads : Reads node reader content) :
    Reads node (nullable reader) (.orNull content) := by
  intro v
  rw [isValid_nullable, hreads v]
  rfl

variable {fields : Fields} {name : String}

theorem isValid_required (hreads : Reads node reader content) :
    (required fields name reader).IsValid ↔
      (FieldRule.need name content).Kept (fun u => (node u).IsValid) fields := by
  rw [Reader.isValid_required, FieldRule.kept_need]
  exact exists_congr fun v => and_congr_right fun _ => hreads v

theorem isValid_withDefault {default : β} (hreads : Reads node reader content) :
    (withDefault fields name default reader).IsValid ↔
      (FieldRule.may name content).Kept (fun u => (node u).IsValid) fields := by
  rw [Reader.isValid_withDefault, FieldRule.kept_may]
  exact forall₂_congr fun v _ => hreads v

end Reads

namespace Form

open Reader

variable {α : Type} {node : Reader α} {k : Kind} {fields : Fields} {own : List String}

theorem isValid_literalName :
    (literalName k fields).IsValid ↔
      ∀ v, Entries.get? fields "action" = some v → v = .text k.name := by
  rw [literalName, isValid_withDefault]
  exact forall₂_congr fun v _ => isValid_literal

/-- The fields of a kind besides its name are read if each keeps its rule and there are no others. -/
def Fits (node : Reader α) (k : Kind) (fields : Fields) : Prop :=
  (∀ rule ∈ k.rules, rule.Kept (fun u => (node u).IsValid) fields) ∧
    ∀ entry ∈ fields, entry.1 ∈ k.fieldNames

theorem isValid_ofKind {body : Check (Form α)} (hown : "action" :: own = k.fieldNames)
    (hbody : body.IsValid ↔ ∀ rule ∈ k.rules, rule.Kept (fun u => (node u).IsValid) fields) :
    (ofKind k fields own body).IsValid ↔ (literalName k fields).IsValid ∧ Fits node k fields := by
  rw [ofKind, Fits, ← hbody, ← hown]
  simp only [Check.isValid_seq, Check.isValid_map, isValid_onlyFields, and_assoc]

theorem isValid_ofElementKind {body : Check (Option String → Form α)}
    (hown : "action" :: "element" :: own = k.fieldNames)
    (hbody : FieldRule.element.Kept (fun u => (node u).IsValid) fields ∧ body.IsValid ↔
      ∀ rule ∈ k.rules, rule.Kept (fun u => (node u).IsValid) fields) :
    (ofElementKind k fields own body).IsValid ↔
      (literalName k fields).IsValid ∧ Fits node k fields := by
  have hfields : (∀ entry ∈ fields, entry.1 ∈ "element" :: "action" :: own) ↔
      ∀ entry ∈ fields, entry.1 ∈ k.fieldNames := by
    rw [← hown]
    simp only [List.mem_cons, or_left_comm]
  have helement : (withDefault fields "element" none (nullable text)).IsValid ↔
      FieldRule.element.Kept (fun u => (node u).IsValid) fields :=
    (Reads.plainText node).orNull.isValid_withDefault
  rw [ofElementKind, Fits, ← hbody]
  simp only [Check.isValid_seq, Check.isValid_map, isValid_onlyFields, helement, hfields]
  tauto

theorem caseField_mem : caseField fields ∈ FieldRule.ignoreCase.names := by
  rw [caseField]
  split
  · exact List.mem_cons_self
  · exact List.mem_cons_of_mem _ List.mem_cons_self

/-- The case of letters is turned off under at most one name: the one that is read. -/
theorem kept_ignoreCase_iff {inner : Value → Prop} :
    FieldRule.ignoreCase.Kept inner fields ↔
      (∀ v, Entries.get? fields (caseField fields) = some v → IsFlag v) ∧
        ∀ name ∈ FieldRule.ignoreCase.names, ∀ v, Entries.get? fields name = some v →
          name = caseField fields := by
  constructor
  · intro hkept
    refine ⟨hkept.allowed _ caseField_mem, fun name hname v hv => ?_⟩
    by_cases hcontains : Entries.contains fields "ignoreCase" = true
    · obtain ⟨v', hv'⟩ := Entries.contains_iff.1 hcontains
      rw [caseField, if_pos hcontains]
      exact hkept.once _ hname _ List.mem_cons_self _ _ hv hv'
    · rw [caseField, if_neg hcontains]
      obtain rfl | hname := List.mem_cons.1 hname
      · exact absurd (Entries.contains_iff.2 ⟨v, hv⟩) hcontains
      · exact List.mem_singleton.1 hname
  · rintro ⟨hflag, hname⟩
    refine ⟨nofun, ?_, ?_⟩
    · intro name₁ h₁ name₂ h₂ v₁ v₂ hv₁ hv₂
      rw [hname _ h₁ _ hv₁, hname _ h₂ _ hv₂]
    · intro name h v hv
      obtain rfl := hname _ h _ hv
      exact hflag v hv

theorem knows_caseField_iff (hown : ∀ name ∈ FieldRule.ignoreCase.names, name ∉ own) :
    (∀ entry ∈ fields, entry.1 ∈ own ++ [caseField fields]) ↔
      (∀ name ∈ FieldRule.ignoreCase.names, ∀ v, Entries.get? fields name = some v →
          name = caseField fields) ∧
        ∀ entry ∈ fields, entry.1 ∈ own ++ FieldRule.ignoreCase.names := by
  simp only [List.mem_append, List.mem_singleton]
  constructor
  · intro hknown
    constructor
    · intro name hname v hv
      obtain ⟨entry, hentry, rfl⟩ := List.mem_map.1 (Entries.mem_keys_iff.2 ⟨v, hv⟩)
      exact (hknown entry hentry).resolve_left (hown _ hname)
    · intro entry hentry
      obtain howned | hcase := hknown entry hentry
      · exact .inl howned
      · exact .inr (hcase ▸ caseField_mem)
  · rintro ⟨hname, hknown⟩ entry hentry
    obtain ⟨v, hv⟩ := Entries.exists_get?_of_mem hentry
    exact (hknown entry hentry).imp_right fun h => hname _ h v hv

theorem isValid_read_compare {comparison : Comparison} :
    (read node (.compare comparison) fields).IsValid ↔
      (literalName (.compare comparison) fields).IsValid ∧
        Fits node (.compare comparison) fields := by
  have hrules : (Kind.compare comparison).rules =
      [.need comparison.expectedField .text, .need "statement" .action, .ignoreCase] := by
    cases comparison <;> rfl
  have hown : ∀ name ∈ FieldRule.ignoreCase.names,
      name ∉ ["action", comparison.expectedField, "statement"] := by
    cases comparison <;> decide
  have hflag : (withDefault fields (caseField fields) false flag).IsValid ↔
      ∀ v, Entries.get? fields (caseField fields) = some v → IsFlag v := by
    rw [isValid_withDefault]
    exact forall₂_congr fun v _ => isValid_flag
  have hknown : (∀ entry ∈ fields, entry.1 ∈
        ["action", comparison.expectedField, "statement", caseField fields]) ↔ _ :=
    knows_caseField_iff hown
  rw [read, ofKind, Fits, Kind.fieldNames, hrules]
  simp only [Check.isValid_seq, Check.isValid_map, isValid_onlyFields, hflag, hknown,
    (Reads.plainText node).isValid_required, (Reads.action node).isValid_required,
    List.forall_mem_cons, kept_ignoreCase_iff]
  constructor
  · rintro ⟨⟨hname, ⟨hexpected, hstatement⟩, hflag⟩, honce, hfields⟩
    exact ⟨hname, ⟨hexpected, hstatement, ⟨hflag, honce⟩,
      fun rule hrule => absurd hrule List.not_mem_nil⟩, hfields⟩
  · rintro ⟨hname, ⟨hexpected, hstatement, ⟨hflag, honce⟩, -⟩, hfields⟩
    exact ⟨⟨hname, ⟨hexpected, hstatement⟩, hflag⟩, honce, hfields⟩

theorem isValid_read :
    (read node k fields).IsValid ↔ (literalName k fields).IsValid ∧ Fits node k fields := by
  have hnone (c : Check (Option String → Form α)) (hc : c.IsValid) :
      FieldRule.element.Kept (fun u => (node u).IsValid) fields ∧ c.IsValid ↔
        ∀ rule ∈ [FieldRule.element], rule.Kept (fun u => (node u).IsValid) fields := by
    simp [hc]
  cases k with
  | compare comparison => exact isValid_read_compare
  | inspect _ | gesture _ | awaitElement _ =>
      exact isValid_ofElementKind rfl (hnone _ (Check.isValid_pure _))
  | attributeOf | input | eval =>
      refine isValid_ofElementKind rfl ?_
      simp [Kind.rules, (Reads.plainText node).isValid_required]
  | press =>
      refine isValid_ofElementKind rfl ?_
      simp [Kind.rules, (Reads.nonempty node).isValid_required]
  | sequence =>
      refine isValid_ofKind rfl ?_
      simp [Kind.rules, (Reads.actions node).isValid_required]
  | branch =>
      refine isValid_ofKind rfl ?_
      simp [Kind.rules, (Reads.action node).isValid_required,
        (Reads.action node).orNull.isValid_withDefault, and_assoc]
  | negate =>
      refine isValid_ofKind rfl ?_
      simp [Kind.rules, (Reads.operand node).isValid_required]
  | forEach =>
      refine isValid_ofKind rfl ?_
      simp [Kind.rules, (Reads.plainText node).isValid_required,
        (Reads.action node).isValid_required]
  | has | navigate | log | error =>
      refine isValid_ofKind rfl ?_
      simp [Kind.rules, (Reads.plainText node).isValid_required]
  | sleep =>
      refine isValid_ofKind rfl ?_
      simp [Kind.rules, (Reads.seconds node).isValid_required]
  | awaitPage _ =>
      refine isValid_ofKind rfl ?_
      simp [Kind.rules]
  | store =>
      refine isValid_ofKind rfl ?_
      simp [Kind.rules, (Reads.items node).isValid_withDefault]
  | logStore =>
      refine isValid_ofKind rfl ?_
      simp [Kind.rules, (Reads.referring node).isValid_required]

end Form

theorem Schema.exists_read_call_iff {α : Type} {node : Reader α} {fields : Fields} :
    (∃ form, read node .call fields = .valid (some form)) ↔
      (∃ s, Entries.get? fields "action" = some (.text s) ∧ IsReference s) ∧
        ∀ entry ∈ fields, entry.1 = "action" := by
  have hname : (Reader.required fields "action" Reader.referenceText).IsValid ↔
      ∃ s, Entries.get? fields "action" = some (.text s) ∧ IsReference s := by
    simp only [Reader.isValid_required, Reader.isValid_referenceText]
    constructor
    · rintro ⟨_, hget, s, rfl, hs⟩
      exact ⟨s, hget, hs⟩
    · rintro ⟨s, hget, hs⟩
      exact ⟨_, hget, s, rfl, hs⟩
  have hknown : (Reader.onlyFields fields ["action"]).IsValid ↔
      ∀ entry ∈ fields, entry.1 = "action" := by
    simp only [Reader.isValid_onlyFields, List.mem_singleton]
  rw [← hname, ← hknown]
  constructor
  · rintro ⟨form, hread⟩
    have hvalid : (read node .call fields).IsValid := ⟨_, hread⟩
    simpa only [read, Check.isValid_seq, Check.isValid_map] using hvalid
  · rintro ⟨⟨name, hname⟩, ⟨_, honly⟩⟩
    refine ⟨.call name, ?_⟩
    rw [read, hname, honly]
    rfl

/-! ### All levels -/

theorem startsWith_reference (name : String) :
    (reference name).startsWith (String.singleton sigil) = true := by
  rw [String.startsWith_string_iff, reference, String.toList_append]
  exact List.prefix_append _ _

theorem IsReference.ne_name {s : String} (hs : IsReference s) (k : Kind) : s ≠ k.name := by
  rintro rfl
  obtain ⟨name, -, hname⟩ := hs
  have hsigil := k.startsWith_sigil_name
  rw [hname, startsWith_reference] at hsigil
  cases hsigil

namespace Registry

variable {maxDepth : Int}

theorem schemaOf?_builtin_kind (k : Kind) :
    (builtin .initial maxDepth).schemaOf? k.name = some (.kind k) := by
  rw [schemaOf?, get?_builtin]
  rfl

theorem get?_builtin_of_ne {s : String} (hs : ∀ k : Kind, s ≠ k.name) :
    (builtin .initial maxDepth).get? s = none := by
  have hfold (ks : List Kind) (registry : Registry) :
      (ks.foldl (fun registry k =>
        { registry with
          registrations := Entries.insert registry.registrations k.name k.registration })
        registry).get? s = registry.get? s := by
    induction ks generalizing registry with
    | nil => rfl
    | cons k rest ih =>
        rw [List.foldl_cons, ih, get?, Entries.get?_insert, if_neg (hs k)]
        rfl
  rw [builtin_initial, hfold]
  rfl

/-- A name stands for the kind that has it; of the others, those that begin with the sigil are
calls. -/
theorem schemaOf?_builtin_cases {s : String} {schema : Schema}
    (hschema : (builtin .initial maxDepth).schemaOf? s = some schema) :
    (∃ k : Kind, s = k.name ∧ schema = .kind k) ∨ schema = .call := by
  by_cases hs : ∃ k : Kind, s = k.name
  · obtain ⟨k, rfl⟩ := hs
    rw [schemaOf?_builtin_kind] at hschema
    exact .inl ⟨k, rfl, (Option.some.inj hschema).symm⟩
  · rw [schemaOf?, get?_builtin_of_ne (not_exists.1 hs)] at hschema
    simp only [Option.ite_none_right_eq_some, Option.some.injEq] at hschema
    exact .inr hschema.2.symm

theorem schemaOf?_builtin_reference {s : String} (hs : IsReference s) :
    (builtin .initial maxDepth).schemaOf? s = some .call := by
  have hsigil : s.startsWith (String.singleton sigil) = true := by
    obtain ⟨name, -, rfl⟩ := hs
    exact startsWith_reference name
  rw [schemaOf?, get?_builtin_of_ne hs.ne_name]
  exact if_pos hsigil

/-- Reads the parts of an action that nests at most one level more than `budget`. -/
def nodeWithin (registry : Registry) (budget : Nat) : Reader Action := fun v =>
  match registry.parseWithin budget v with
  | .ok a => .valid a
  | .error e => .invalid [e.toIssue]

theorem isValid_nodeWithin {registry : Registry} {budget : Nat} {v : Value} :
    (registry.nodeWithin budget v).IsValid ↔ ∃ a, registry.parseWithin budget v = .ok a := by
  rw [nodeWithin]
  cases registry.parseWithin budget v <;> simp

theorem rawAction_ok_iff {v : Value} {fields : Fields} {kind : String} :
    rawAction v = .ok (fields, kind) ↔
      v = .mapping fields ∧ Entries.get? fields "action" = some (.text kind) := by
  unfold rawAction
  split
  next fields' =>
    split
    next kind' hkind =>
      simp only [Except.ok.injEq, Prod.mk.injEq, Value.mapping.injEq]
      constructor
      · rintro ⟨rfl, rfl⟩
        exact ⟨rfl, hkind⟩
      · rintro ⟨rfl, hget⟩
        rw [hkind] at hget
        cases hget
        exact ⟨rfl, rfl⟩
    next hother =>
      simp only [reduceCtorEq, Value.mapping.injEq, false_iff, not_and]
      rintro rfl
      exact hother kind
  next hother =>
    simp only [reduceCtorEq, false_iff, not_and]
    exact fun hmapping => absurd hmapping (hother fields)

theorem parseWithin_zero_ne_ok {registry : Registry} {v : Value} {a : Action} :
    registry.parseWithin 0 v ≠ .ok a := by
  intro hparse
  rw [parseWithin] at hparse
  cases hraw : rawAction v with
  | error e =>
      rw [hraw] at hparse
      cases hparse
  | ok raw =>
      simp only [hraw, bind, Except.bind] at hparse
      cases hschema : registry.schemaOf? raw.2 with
      | none =>
          rw [hschema] at hparse
          cases hparse
      | some schema =>
          rw [hschema] at hparse
          cases hparse

theorem parseWithin_succ {registry : Registry} {budget : Nat} {v : Value} {fields : Fields}
    {kind : String} {schema : Schema} (hraw : rawAction v = .ok (fields, kind))
    (hschema : registry.schemaOf? kind = some schema) :
    registry.parseWithin (budget + 1) v =
      match schema.read (registry.nodeWithin budget) fields with
      | .valid (some form) => .ok (.node (some fields) form)
      | .valid none => .error (.malformed "an 'action' key (type string) is required")
      | .invalid issues => .error (.inAction kind issues) := by
  rw [parseWithin, hraw]
  simp only [hschema, bind, Except.bind]
  rfl

/-- What an accepted action is read from: a mapping that names a schema, whose form it has. -/
theorem parseWithin_succ_eq_ok_iff {registry : Registry} {budget : Nat} {v : Value} {a : Action} :
    registry.parseWithin (budget + 1) v = .ok a ↔
      ∃ fields kind schema form, v = .mapping fields ∧
        Entries.get? fields "action" = some (.text kind) ∧
        registry.schemaOf? kind = some schema ∧
        schema.read (registry.nodeWithin budget) fields = .valid (some form) ∧
        a = .node (some fields) form := by
  constructor
  · intro hparse
    cases hraw : rawAction v with
    | error e =>
        rw [parseWithin, hraw] at hparse
        cases hparse
    | ok raw =>
        obtain ⟨fields, kind⟩ := raw
        obtain ⟨hv, hkind⟩ := rawAction_ok_iff.1 hraw
        cases hschema : registry.schemaOf? kind with
        | none =>
            rw [parseWithin, hraw] at hparse
            simp only [hschema, bind, Except.bind] at hparse
            cases hparse
        | some schema =>
            rw [parseWithin_succ hraw hschema] at hparse
            split at hparse
            next form hread =>
              cases hparse
              exact ⟨fields, kind, schema, form, hv, hkind, hschema, hread, rfl⟩
            · cases hparse
            · cases hparse
  · rintro ⟨fields, kind, schema, form, hv, hkind, hschema, hread, rfl⟩
    rw [parseWithin_succ (rawAction_ok_iff.2 ⟨hv, hkind⟩) hschema, hread]

theorem exists_parseWithin_succ_iff {budget : Nat} {v : Value} :
    (∃ a, (builtin .initial maxDepth).parseWithin (budget + 1) v = .ok a) ↔
      Shaped (fun u => ∃ a, (builtin .initial maxDepth).parseWithin budget u = .ok a) v := by
  simp only [parseWithin_succ_eq_ok_iff, ← isValid_nodeWithin]
  constructor
  · rintro ⟨_, fields, kind, schema, form, rfl, hkind, hschema, hread, -⟩
    obtain ⟨k, rfl, rfl⟩ | rfl := schemaOf?_builtin_cases hschema
    · have hvalid : (Form.read ((builtin .initial maxDepth).nodeWithin budget) k fields).IsValid :=
        Check.isValid_map.1 ⟨_, hread⟩
      obtain ⟨hrules, hknown⟩ := (Form.isValid_read.1 hvalid).2
      exact .kind hkind hknown hrules
    · obtain ⟨⟨s, hget, hs⟩, hknown⟩ := Schema.exists_read_call_iff.1 ⟨_, hread⟩
      exact .call hget hs hknown
  · intro hshaped
    cases hshaped with
    | @kind k fields hname hknown hrules =>
        have hliteral : (Form.literalName k fields).IsValid := by
          rw [Form.isValid_literalName]
          intro v hv
          rw [hname] at hv
          exact (Option.some.inj hv).symm
        obtain ⟨form, hform⟩ := Form.isValid_read.2 ⟨hliteral, hrules, hknown⟩
        refine ⟨_, fields, _, _, form, rfl, hname, schemaOf?_builtin_kind k, ?_, rfl⟩
        rw [Schema.read, hform]
        rfl
    | @call s fields hname hs hknown =>
        obtain ⟨form, hform⟩ := Schema.exists_read_call_iff.2 ⟨⟨s, hname, hs⟩, hknown⟩
        exact ⟨_, fields, s, .call, form, rfl, hname, schemaOf?_builtin_reference hs, hform, rfl⟩

-- a level has as many levels below it as the budget that is left there
theorem exists_parseWithin_iff {budget level : Nat} {v : Value}
    (hbudget : budget = (maxDepth + 1 - level).toNat) :
    (∃ a, (builtin .initial maxDepth).parseWithin budget v = .ok a) ↔
      WellFormed maxDepth level v := by
  induction budget generalizing level v with
  | zero =>
      rw [wellFormed_iff]
      constructor
      · rintro ⟨a, ha⟩
        exact absurd ha parseWithin_zero_ne_ok
      · intro hwell
        omega
  | succ budget ih =>
      have hinner (u : Value) := @ih (level + 1) u (by omega)
      rw [exists_parseWithin_succ_iff, wellFormed_iff, funext fun u => propext (hinner u)]
      exact ⟨fun hshaped => ⟨by omega, hshaped⟩, And.right⟩

/-- The registry of all kinds accepts a value as an action exactly if the value is well formed, the
action itself being the first level of nesting. -/
theorem parseAction_accepts_iff (maxDepth : Int) (v : Value) :
    (∃ a, (builtin .initial maxDepth).parseAction v = .ok a) ↔ WellFormed maxDepth 1 v := by
  rw [parseAction, maxDepth_builtin]
  exact exists_parseWithin_iff (by omega)

end Registry

end Pagescript
