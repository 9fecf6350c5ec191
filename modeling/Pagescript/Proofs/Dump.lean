import Pagescript.Proofs.Likeness
import Pagescript.Proofs.Positions
/-!
# The dump of a form

A form whose fields pass their checks is read back from its dump, with the parts that are read from
the dumps of its parts.  A dump may hold actions as they are, where they lie too deep, so reading is
described for values in which some of the things are actions already.
-/

namespace Pagescript

/-! ### Other parts -/

namespace Item

variable {α β γ : Type}

theorem map_map (f : α → β) (g : β → γ) (item : Item α) :
    (item.map f).map g = item.map (g ∘ f) := by
  cases item <;> rfl

end Item

namespace Form

variable {α β γ : Type} {form : Form α}

theorem map_map (f : α → β) (g : β → γ) (form : Form α) :
    (form.map f).map g = form.map (g ∘ f) := by
  have hoperand (operand : Operand α) : (operand.map f).map g = operand.map (g ∘ f) := by
    cases operand <;> rfl
  cases form <;> simp [map, hoperand, Item.map_map]

/-- A form is mapped by what is done with its parts. -/
theorem map_congr {f g : α → β} (hparts : ∀ loc a, form.HasPart loc a → f a = g a) :
    form.map f = form.map g := by
  cases form with
  | sequence statements =>
      have hall : ∀ a ∈ statements, f a = g a := by
        intro a ha
        obtain ⟨i, hi⟩ := List.mem_iff_getElem?.1 ha
        exact hparts _ a (.statements hi)
      rw [map, map, List.map_congr_left hall]
  | branch condition statement otherwise =>
      rw [map, map, hparts _ _ (.condition _ _ _), hparts _ _ (.statement _ _ _)]
      cases otherwise with
      | none => rfl
      | some a => rw [Option.map_some, Option.map_some, hparts _ _ (.otherwise _ _ _)]
  | negate operand =>
      cases operand with
      | flag b => rfl
      | node a => rw [map, map, Operand.map, Operand.map, hparts _ _ (.operand a)]
  | forEach elements execute => rw [map, map, hparts _ _ (.execute elements execute)]
  | compare c expected statement ignoreCase => rw [map, map, hparts _ _ (.compared _ _ _ _)]
  | store items =>
      have hall : ∀ entry ∈ items, (entry.1, entry.2.map f) = (entry.1, entry.2.map g) := by
        rintro ⟨name, item⟩ hentry
        cases item with
        | literal v => rfl
        | node a =>
            change (name, Item.node (f a)) = (name, Item.node (g a))
            rw [hparts _ _ (.item hentry)]
      rw [map, map, List.map_congr_left hall]
  | _ => rfl

end Form

/-! ### Fields that pass their checks -/

namespace Form

variable {α β : Type} {form : Form α} {loc : List Segment} {a : α}

/-- The fields of a form that are no actions are such as its schema lets through. -/
def Legal : Form α → Prop
  | .call name | .logStore name => Readable name
  | .press _ key => key ≠ ""
  | .sleep duration => Binary64.zero.le duration = true
  | .store items =>
    (items.map (·.1)).Nodup ∧
      ∀ name v, (name, .literal v) ∈ items → v.isJson = true ∧ ∀ fields, v ≠ .mapping fields
  | _ => True

/-- How many levels of a dump lie between a form and its parts. -/
def gap : Form α → Nat
  | .sequence _ | .store _ => 2
  | _ => 1

theorem HasPart.length_eq_gap (hpart : form.HasPart loc a) : loc.length = form.gap := by
  cases hpart <;> rfl

theorem gap_le_two : form.gap ≤ 2 := by
  cases form <;> simp [gap]

end Form

theorem Reader.referenceText_reference {name : String} (hname : Readable name) :
    referenceText (.text (reference name)) = .valid name := by
  obtain ⟨read, hread⟩ := exists_referenceText_iff.2 hname
  rw [hread, reference_inj (eq_reference_of_referenceText hread)]

/-! ### Reading among actions -/

/-- The action that a value is already. -/
def Value.actionAmong? (given : String → Option Action) : Value → Option Action
  | .foreign shown => given shown
  | _ => none

def Form.itemAmong {α : Type} (given : String → Option Action) (node : Reader α) : Reader (Item α) :=
  fun v => if (v.actionAmong? given).isSome then (node v).map .node else item node v

/-- Reads the fields of a schema among which there may be actions already. -/
def Schema.readAmong {α : Type} (given : String → Option Action) (node : Reader α) (schema : Schema)
    (fields : Fields) : Check (Option (Form α)) :=
  match schema with
  | .kind .store =>
    some <$> Form.ofKind .store fields ["items"]
      (Form.store <$>
        Reader.withDefault fields "items" [] (Reader.mappingOf .value (Form.itemAmong given node)))
  | schema => schema.read node fields

/-- Reads a raw value as an action, where things with the literals that are given are actions
already; they are kept as they are. -/
def Registry.parseAmong (registry : Registry) (given : String → Option Action) :
    Nat → Value → Except ParseError Action
  | budget, v =>
    match v.actionAmong? given with
    | some a => .ok a
    | none => do
      let (fields, kind) ← rawAction v
      match registry.schemaOf? kind with
      | none => throw (.unknown kind)
      | some schema =>
        match budget with
        | 0 => throw (.tooDeep registry.maxDepth)
        | budget + 1 =>
          let node (v : Value) : Check Action :=
            match parseAmong registry given budget v with
            | .ok a => .valid a
            | .error e => .invalid [e.toIssue]
          match schema.readAmong given node fields with
          | .valid (some form) => return .node (some fields) form
          | .valid none => throw (.malformed "an 'action' key (type string) is required")
          | .invalid issues => throw (.inAction kind issues)

theorem Value.actionAmong?_none (v : Value) : v.actionAmong? (fun _ => none) = none := by
  cases v <;> rfl

theorem Schema.readAmong_none {α : Type} :
    (readAmong (fun _ => none) : Reader α → Schema → Fields → Check (Option (Form α))) = read := by
  funext node schema fields
  have hitem : Form.itemAmong (fun _ => none) node = Form.item node := by
    funext v
    rw [Form.itemAmong, Value.actionAmong?_none]
    rfl
  unfold readAmong
  split
  · rewrite [hitem]
    rfl
  · rfl

namespace Registry

variable {registry : Registry} {given : String → Option Action} {budget : Nat} {v : Value}

def nodeAmong (registry : Registry) (given : String → Option Action) (budget : Nat) : Reader Action :=
  fun v =>
    match registry.parseAmong given budget v with
    | .ok a => .valid a
    | .error e => .invalid [e.toIssue]

theorem nodeAmong_of_parse {a : Action} (hparse : registry.parseAmong given budget v = .ok a) :
    registry.nodeAmong given budget v = .valid a := by
  rw [nodeAmong, hparse]

theorem parseAmong_of_given {a : Action} (hv : v.actionAmong? given = some a) :
    registry.parseAmong given budget v = .ok a := by
  rw [parseAmong, hv]

theorem parseAmong_succ {fields : Fields} {kind : String} {schema : Schema}
    (hgiven : v.actionAmong? given = none) (hraw : rawAction v = .ok (fields, kind))
    (hschema : registry.schemaOf? kind = some schema) :
    registry.parseAmong given (budget + 1) v =
      match schema.readAmong given (registry.nodeAmong given budget) fields with
      | .valid (some form) => .ok (.node (some fields) form)
      | .valid none => .error (.malformed "an 'action' key (type string) is required")
      | .invalid issues => .error (.inAction kind issues) := by
  rw [parseAmong, hgiven, hraw]
  simp only [hschema, bind, Except.bind]
  rfl

theorem parseAmong_of_read {fields : Fields} {kind : String} {schema : Schema} {form : Form Action}
    (hkind : Entries.get? fields "action" = some (.text kind))
    (hschema : registry.schemaOf? kind = some schema)
    (hread : schema.readAmong given (registry.nodeAmong given budget) fields = .valid (some form)) :
    registry.parseAmong given (budget + 1) (.mapping fields) = .ok (.node (some fields) form) := by
  have hraw : rawAction (.mapping fields) = .ok (fields, kind) := rawAction_ok_iff.2 ⟨rfl, hkind⟩
  rw [parseAmong_succ rfl hraw hschema, hread]

/-- Where no thing is an action already, reading among actions is reading. -/
theorem parseAmong_none (registry : Registry) (budget : Nat) (v : Value) :
    registry.parseAmong (fun _ => none) budget v = registry.parseWithin budget v := by
  have hgiven := v.actionAmong?_none
  cases hraw : rawAction v with
  | error e =>
      rewrite [parseAmong, parseWithin, hgiven, hraw]
      rfl
  | ok raw =>
      obtain ⟨fields, kind⟩ := raw
      cases hschema : registry.schemaOf? kind with
      | none =>
          rewrite [parseAmong, parseWithin, hgiven, hraw]
          simp only [hschema, bind, Except.bind]
      | some schema =>
          cases budget with
          | zero =>
              rewrite [parseAmong, parseWithin, hgiven, hraw]
              simp only [hschema, bind, Except.bind]
          | succ budget =>
              have hnode : registry.nodeAmong (fun _ => none) budget = registry.nodeWithin budget := by
                funext u
                rewrite [nodeAmong, nodeWithin, parseAmong_none registry budget u]
                rfl
              rewrite [parseAmong_succ hgiven hraw hschema, parseWithin_succ hraw hschema, hnode,
                Schema.readAmong_none]
              rfl

end Registry

/-! ### One level -/

namespace Reader

variable {α β : Type} {reader : Reader β} {f : α → Value} {g : α → β}

theorem items_map {as : List α} (start : Nat) (hread : ∀ a ∈ as, reader (f a) = .valid (g a)) :
    items reader start (as.map f) = .valid (as.map g) := by
  induction as generalizing start with
  | nil => rfl
  | cons a rest ih =>
      rw [List.map_cons, items, hread a List.mem_cons_self,
        ih (start + 1) fun b hb => hread b (List.mem_cons_of_mem a hb)]
      rfl

theorem mappingOf_map (form : Notation) {entries : Entries α}
    (hnodup : (entries.map (·.1)).Nodup)
    (hread : ∀ entry ∈ entries, reader (f entry.2) = .valid (g entry.2)) :
    mappingOf form reader (.mapping (entries.map fun entry => (entry.1, f entry.2))) =
      .valid (entries.map fun entry => (entry.1, g entry.2)) := by
  have hentries : Reader.entries reader (entries.map fun entry => (entry.1, f entry.2)) =
      .valid (entries.map fun entry => (entry.1, g entry.2)) := by
    clear hnodup
    induction entries with
    | nil => rfl
    | cons entry rest ih =>
        rw [List.map_cons, Reader.entries, hread entry List.mem_cons_self,
          ih fun other hother => hread other (List.mem_cons_of_mem entry hother)]
        rfl
  have hkeys : (entries.map fun entry => (entry.1, g entry.2)).map (·.1) = entries.map (·.1) := by
    simp [Function.comp_def]
  rw [mappingOf, hentries, Check.map, Entries.ofList_of_nodup (hkeys ▸ hnodup)]

end Reader

namespace Form

open Reader Pagescript.Action

variable {α β : Type} {form : Form α} {given : String → Option Action} {node : Reader β}
  {f : α → Dumped} {g : α → β} {level : Nat}

theorem get?_action_formDump (form : Form Dumped) (level : Nat) :
    Entries.get? (formDump .program form level) "action" = some (.text form.name) := by
  cases form with
  | inspect _ element | attributeOf element _ | gesture _ element | input element _
  | press element _ | eval element _ | awaitElement _ element => cases element <;> rfl
  | _ => rfl

theorem isValid_literalName_formDump {k : Kind} {form : Form Dumped} (hkind : form.kind? = some k) :
    (literalName k (formDump .program form level)).IsValid := by
  rw [isValid_literalName, get?_action_formDump, name_eq_of_kind? hkind]
  intro v hv
  exact (Option.some.inj hv).symm

/-- The dump of a part is read, and is seen to be an action. -/
structure ReadBack (given : String → Option Action) (node : Reader β) (v : Value) (b : β) : Prop where
  read : node v = .valid b
  isAction : (∃ fields, v = .mapping fields) ∨ ∃ a, v.actionAmong? given = some a

namespace ReadBack

variable {v : Value} {b : β}

theorem nullable (hv : ReadBack given node v b) : Reader.nullable node v = .valid (some b) := by
  refine nullable_eq_valid_iff.2 (.inr ⟨?_, b, hv.read, rfl⟩)
  rintro rfl
  obtain ⟨_, h⟩ | ⟨_, h⟩ := hv.isAction <;> cases h

theorem operand (hv : ReadBack given node v b) : Form.operand node v = .valid (.node b) := by
  unfold Form.operand
  split
  next flag =>
    obtain ⟨_, h⟩ | ⟨_, h⟩ := hv.isAction <;> cases h
  next => rw [hv.read, Check.map]

theorem item (hv : ReadBack given node v b) : itemAmong given node v = .valid (.node b) := by
  rw [itemAmong]
  split
  next => rw [hv.read, Check.map]
  next hnone =>
    obtain ⟨fields, rfl⟩ | ⟨a, ha⟩ := hv.isAction
    · rw [Form.item, hv.read, Check.map]
    · rw [ha] at hnone
      exact absurd rfl hnone

end ReadBack

theorem itemAmong_literal {v : Value} (hjson : v.isJson = true) (hv : ∀ fields, v ≠ .mapping fields) :
    itemAmong given node v = .valid (.literal v) := by
  cases v with
  | mapping fields => exact absurd rfl (hv fields)
  | foreign shown => cases hjson
  | _ => rfl

theorem some_ofKind_eq_valid {k : Kind} {fields : Fields} {own : List String} {body : Check (Form β)}
    {read : Form β} (hname : (literalName k fields).IsValid) (hbody : body = .valid read)
    (honly : (onlyFields fields ("action" :: own)).IsValid) :
    some <$> ofKind k fields own body = .valid (some read) :=
  Check.map_eq_valid_iff.2 ⟨read, ofKind_eq_valid_iff.2 ⟨hname, hbody, honly⟩, rfl⟩

theorem read_dump_branch {condition statement : α} {otherwise : Option α}
    (hcondition : node ((f condition).2 (level + 1)) = .valid (g condition))
    (hstatement : node ((f statement).2 (level + 1)) = .valid (g statement))
    (hotherwise : ∀ a, otherwise = some a →
      nullable node ((f a).2 (level + 1)) = .valid (some (g a))) :
    Schema.readAmong given node (.kind .branch)
        (formDump .program (.branch (f condition) (f statement) (otherwise.map f)) level) =
      .valid (some (.branch (g condition) (g statement) (otherwise.map g))) := by
  have hlast : withDefault
      (formDump .program (.branch (f condition) (f statement) (otherwise.map f)) level)
      "otherwise" none (nullable node) = .valid (otherwise.map g) := by
    cases otherwise with
    | none => rfl
    | some a => exact withDefault_eq_valid_iff.2 (.inr ⟨_, rfl, hotherwise a rfl⟩)
  have honly : (onlyFields
      (formDump .program (.branch (f condition) (f statement) (otherwise.map f)) level)
      ["action", "condition", "statement", "otherwise"]).IsValid := by
    cases otherwise <;> exact ⟨(), rfl⟩
  refine some_ofKind_eq_valid (isValid_literalName_formDump rfl) ?_ honly
  exact Check.seq_eq_valid_iff.2 ⟨_, _, Check.seq_eq_valid_iff.2 ⟨_, _,
    Check.map_eq_valid_iff.2 ⟨_, required_eq_valid_iff.2 ⟨_, rfl, hcondition⟩, rfl⟩,
    required_eq_valid_iff.2 ⟨_, rfl, hstatement⟩, rfl⟩, hlast, rfl⟩

/-- What stands for an item in the dump of a store action. -/
def itemDump (level : Nat) : Item Dumped → Value
  | .literal v => v
  | .node d => d.2 level

theorem read_dump_store {items : List (String × Item α)} (hlegal : (Form.store items).Legal)
    (hparts : ∀ name a, (name, .node a) ∈ items →
      ReadBack given node ((f a).2 (level + 2)) (g a)) :
    Schema.readAmong given node (.kind .store) (formDump .program ((Form.store items).map f) level) =
      .valid (some ((Form.store items).map g)) := by
  obtain ⟨hnodup, hliterals⟩ := hlegal
  have hitem : ∀ entry ∈ items, itemAmong given node (itemDump (level + 2) (entry.2.map f)) =
      .valid (entry.2.map g) := by
    rintro ⟨name, item⟩ hentry
    cases item with
    | literal v =>
        obtain ⟨hjson, hv⟩ := hliterals name v hentry
        exact itemAmong_literal hjson hv
    | node a => exact (hparts name a hentry).item
  have hmapping := mappingOf_map .value (f := fun item => itemDump (level + 2) (item.map f))
    (g := Item.map g) hnodup hitem
  refine some_ofKind_eq_valid (isValid_literalName_formDump rfl) ?_ ⟨(), rfl⟩
  refine Check.map_eq_valid_iff.2 ⟨_, withDefault_eq_valid_iff.2 (.inr ⟨_, rfl, ?_⟩), rfl⟩
  rw [List.map_map]
  exact hmapping

theorem read_dump_press {element : Option String} {key : String} (hkey : key ≠ "") :
    Schema.readAmong given node (.kind .press) (formDump .program (.press element key) level) =
      .valid (some (.press element key)) := by
  have hread : nonemptyText (.text key) = .valid key :=
    if_neg fun hempty => hkey (String.isEmpty_iff.1 hempty)
  have hname : (literalName .press (formDump .program (.press element key) level)).IsValid :=
    isValid_literalName_formDump rfl
  cases element <;>
  · refine Check.map_eq_valid_iff.2 ⟨_, ofElementKind_eq_valid_iff.2
      ⟨_, (press · key), rfl, hname, ?_, rfl, ⟨(), rfl⟩⟩, rfl⟩
    exact Check.map_eq_valid_iff.2 ⟨_, required_eq_valid_iff.2 ⟨_, rfl, hread⟩, rfl⟩

/-- A form is read back from its dump, with what is read from the dumps of its parts. -/
theorem read_dump {k : Kind} (hkind : form.kind? = some k) (hlegal : form.Legal)
    (hparts : ∀ loc a, form.HasPart loc a →
      ReadBack given node ((f a).2 (level + loc.length)) (g a)) :
    Schema.readAmong given node (.kind k) (formDump .program (form.map f) level) =
      .valid (some (form.map g)) := by
  have hname : (literalName k (formDump .program (form.map f) level)).IsValid :=
    isValid_literalName_formDump ((kind?_map f form).trans hkind)
  cases form with
  | sequence statements =>
      cases hkind
      have hall : items node 0 ((statements.map f).map fun d => d.2 (level + 2)) =
          .valid (statements.map g) := by
        rw [List.map_map]
        refine items_map 0 fun a ha => ?_
        obtain ⟨i, hi⟩ := List.mem_iff_getElem?.1 ha
        exact (hparts _ a (.statements hi)).read
      refine some_ofKind_eq_valid hname ?_ ⟨(), rfl⟩
      exact Check.map_eq_valid_iff.2 ⟨_, required_eq_valid_iff.2 ⟨_, rfl, hall⟩, rfl⟩
  | branch condition statement otherwise =>
      cases hkind
      refine read_dump_branch (hparts _ _ (.condition _ _ _)).read
        (hparts _ _ (.statement _ _ _)).read ?_
      rintro a rfl
      exact (hparts _ _ (.otherwise _ _ a)).nullable
  | negate operand =>
      cases hkind
      cases operand with
      | flag b => rfl
      | node a =>
          have hoperand := (hparts _ _ (.operand a)).operand
          refine some_ofKind_eq_valid hname ?_ ⟨(), rfl⟩
          exact Check.map_eq_valid_iff.2 ⟨_, required_eq_valid_iff.2 ⟨_, rfl, hoperand⟩, rfl⟩
  | forEach elements execute =>
      cases hkind
      have hexecute := (hparts _ _ (.execute elements execute)).read
      refine some_ofKind_eq_valid hname ?_ ⟨(), rfl⟩
      exact Check.seq_eq_valid_iff.2 ⟨_, _, rfl, required_eq_valid_iff.2 ⟨_, rfl, hexecute⟩, rfl⟩
  | compare c expected statement ignoreCase =>
      cases hkind
      have hstatement := (hparts _ _ (.compared c expected statement ignoreCase)).read
      cases c <;>
      · refine some_ofKind_eq_valid hname ?_ ⟨(), rfl⟩
        exact Check.seq_eq_valid_iff.2 ⟨_, ignoreCase, Check.seq_eq_valid_iff.2 ⟨_, _, rfl,
          required_eq_valid_iff.2 ⟨_, rfl, hstatement⟩, rfl⟩, rfl, rfl⟩
  | store items =>
      cases hkind
      exact read_dump_store hlegal fun name a ha => hparts _ a (.item ha)
  | press element key =>
      cases hkind
      exact read_dump_press hlegal
  | sleep seconds =>
      cases hkind
      have hseconds : duration (.float seconds) = .valid seconds := if_pos hlegal
      refine some_ofKind_eq_valid hname ?_ ⟨(), rfl⟩
      exact Check.map_eq_valid_iff.2 ⟨_, required_eq_valid_iff.2 ⟨_, rfl, hseconds⟩, rfl⟩
  | logStore name =>
      cases hkind
      have hkey := referenceText_reference hlegal
      refine some_ofKind_eq_valid hname ?_ ⟨(), rfl⟩
      exact Check.map_eq_valid_iff.2 ⟨_, required_eq_valid_iff.2 ⟨_, rfl, hkey⟩, rfl⟩
  | call name => cases hkind
  -- every check of the other kinds is decided by the constructors of their fields
  | inspect variety element | gesture variety element | awaitElement variety element =>
      cases hkind
      cases variety <;> cases element <;> rfl
  | attributeOf element _ | input element _ | eval element _ =>
      cases hkind
      cases element <;> rfl
  | awaitPage state =>
      cases hkind
      cases state <;> rfl
  | has _ | navigate _ | log _ | error _ =>
      cases hkind
      rfl

/-- The registry of all kinds has a schema that reads a form back from its dump. -/
theorem exists_schema_reading_dump (maxDepth : Int) (hlegal : form.Legal)
    (hparts : ∀ loc a, form.HasPart loc a →
      ReadBack given node ((f a).2 (level + loc.length)) (g a)) :
    ∃ schema, (Registry.builtin .initial maxDepth).schemaOf? form.name = some schema ∧
      schema.readAmong given node (formDump .program (form.map f) level) =
        .valid (some (form.map g)) := by
  cases hkind : form.kind? with
  | some k =>
      refine ⟨.kind k, ?_, read_dump hkind hlegal hparts⟩
      rw [name_eq_of_kind? hkind]
      exact Registry.schemaOf?_builtin_kind k
  | none =>
      cases form with
      | call name =>
          have hread := referenceText_reference hlegal
          refine ⟨.call, Registry.schemaOf?_builtin_reference ⟨name, hlegal, rfl⟩, ?_⟩
          exact Check.seq_eq_valid_iff.2 ⟨_, (), Check.map_eq_valid_iff.2
            ⟨_, required_eq_valid_iff.2 ⟨_, rfl, hread⟩, rfl⟩, rfl, rfl⟩
      | _ => cases hkind

end Form

end Pagescript
