import Pagescript.Proofs.Grammar
/-!
# Where actions stand

The mapping of an action holds other actions: in fields, in lists and under the names of a store
action.  Which places these are depends on the kind that is registered under its name.  An action
that is read has a part for every such place, read from what stands there, and no other parts.
-/

namespace Pagescript

/-! ### Positions in a value -/

/-- The ways from action to action, the outermost first: there are as many as the last one lies
deep. -/
abbrev Route := List (List Segment)

/-- What a field holds has a value in it that should be an action. -/
inductive Content.Holds : Content → Value → List Segment → Value → Prop where
  | action (v : Value) : Holds .action v [] v
  | actions {vs : List Value} {i : Nat} {u : Value} (hu : vs[i]? = some u) :
    Holds .actions (.list vs) [.index i] u
  | operand {v : Value} (hv : ∀ b, v ≠ .bool b) : Holds .operand v [] v
  | items {entries fields : Fields} {name : String} (hu : (name, .mapping fields) ∈ entries) :
    Holds .items (.mapping entries) [.key name] (.mapping fields)
  | orNull {content : Content} {v u : Value} {loc : List Segment} (hv : v ≠ .null)
    (hu : Holds content v loc u) : Holds (.orNull content) v loc u

/-- There can be actions in what a field holds. -/
def Content.nests : Content → Bool
  | .action | .actions | .operand | .items => true
  | .orNull content => content.nests
  | _ => false

theorem Content.Holds.nests {content : Content} {v u : Value} {loc : List Segment}
    (hu : content.Holds v loc u) : content.nests = true := by
  induction hu with
  | orNull _ _ ih => exact ih
  | _ => rfl

/-- The mapping of a kind has a value in it that should be an action. -/
inductive Kind.Holds (k : Kind) (fields : Fields) : List Segment → Value → Prop where
  | field {rule : FieldRule} {name : String} {v u : Value} {loc : List Segment}
    (hrule : rule ∈ k.rules) (hname : name ∈ rule.names) (hv : Entries.get? fields name = some v)
    (hu : rule.content.Holds v loc u) : Holds k fields (.key name :: loc) u

namespace Kind

variable {k : Kind} {fields : Fields} {name : String} {content : Content} {v u : Value}
  {loc : List Segment}

theorem holds_of_need (hrule : .need name content ∈ k.rules)
    (hv : Entries.get? fields name = some v) (hu : content.Holds v loc u) :
    k.Holds fields (.key name :: loc) u :=
  .field hrule List.mem_cons_self hv hu

theorem holds_of_may (hrule : .may name content ∈ k.rules)
    (hv : Entries.get? fields name = some v) (hu : content.Holds v loc u) :
    k.Holds fields (.key name :: loc) u :=
  .field hrule List.mem_cons_self hv hu

end Kind

/-- The positions of actions in a value that should be an action: the value itself, and whatever
stands at a position in its parts if a kind is registered under its name. -/
inductive Registry.ActionAt (registry : Registry) : Value → Route → Value → Prop where
  | here (v : Value) : ActionAt registry v [] v
  | part {fields : Fields} {kind : String} {k : Kind} {loc : List Segment} {route : Route}
    {u w : Value} (hkind : Entries.get? fields "action" = some (.text kind))
    (hschema : registry.schemaOf? kind = some (.kind k)) (hpart : k.Holds fields loc u)
    (hinner : ActionAt registry u route w) : ActionAt registry (.mapping fields) (loc :: route) w

/-! ### Positions in an action -/

/-- A form has a part, and the way to it in the mapping that the form is read from. -/
inductive Form.HasPart {α : Type} : Form α → List Segment → α → Prop where
  | statements {bs : List α} {i : Nat} {b : α} (hb : bs[i]? = some b) :
    HasPart (.sequence bs) [.key "statements", .index i] b
  | condition (condition statement : α) (otherwise : Option α) :
    HasPart (.branch condition statement otherwise) [.key "condition"] condition
  | statement (condition statement : α) (otherwise : Option α) :
    HasPart (.branch condition statement otherwise) [.key "statement"] statement
  | otherwise (condition statement otherwise : α) :
    HasPart (.branch condition statement (some otherwise)) [.key "otherwise"] otherwise
  | operand (b : α) : HasPart (.negate (.node b)) [.key "statement"] b
  | execute (elements : String) (b : α) : HasPart (.forEach elements b) [.key "execute"] b
  | compared (c : Comparison) (expected : String) (b : α) (ignoreCase : Bool) :
    HasPart (.compare c expected b ignoreCase) [.key "statement"] b
  | item {items : List (String × Item α)} {name : String} {b : α} (hb : (name, .node b) ∈ items) :
    HasPart (.store items) [.key "items", .key name] b

/-- The positions in an action: the action itself, and the positions in its parts. -/
inductive Action.At : Action → Route → Action → Prop where
  | here (a : Action) : At a [] a
  | part {a b c : Action} {loc : List Segment} {route : Route} (hpart : a.form.HasPart loc b)
    (hinner : At b route c) : At a (loc :: route) c

theorem Action.At.snoc {a b c : Action} {route : Route} {loc : List Segment} (hat : a.At route b)
    (hpart : b.form.HasPart loc c) : a.At (route ++ [loc]) c := by
  induction hat with
  | here b => exact .part hpart (.here c)
  | part hfirst _ ih => exact .part hfirst (ih hpart)

/-- An action leads to its parts, to calls that are made up from texts among its items, and to the
action that it calls itself. -/
theorem Handler.Leads.cases_hasPart {program : Program} {a b : Action} {frame g : Frame Handle}
    (hlead : Leads program a frame b g) :
    (∃ loc, a.form.HasPart loc b) ∨
      ((∃ items name s called target, a.form.items? = some items ∧
          (name, .literal (.text s)) ∈ items ∧ program.resolve s = .action called target) ∧
        ∃ name, b = .callOf name) ∨
      ∃ name, a.form = .call name ∧ program.action? name = some b := by
  cases hlead with
  | statements hbs hb =>
      obtain ⟨i, hi⟩ := List.mem_iff_getElem?.1 hb
      cases hform : a.form <;> simp only [hform, Form.statements?, reduceCtorEq] at hbs
      cases hbs
      exact .inl ⟨_, .statements hi⟩
  | condition hb =>
      cases hform : a.form <;> simp only [hform, Form.condition?, reduceCtorEq] at hb
      cases hb
      exact .inl ⟨_, .condition _ _ _⟩
  | statement hb =>
      cases hform : a.form <;> simp only [hform, Form.statement?, reduceCtorEq] at hb
      case branch =>
        cases hb
        exact .inl ⟨_, .statement _ _ _⟩
      case negate =>
        cases hb
        exact .inl ⟨_, .operand _⟩
      case compare =>
        cases hb
        exact .inl ⟨_, .compared _ _ _ _⟩
  | otherwise hb =>
      cases hform : a.form <;> simp only [hform, Form.otherwise?, reduceCtorEq] at hb
      cases hb
      exact .inl ⟨_, .otherwise _ _ _⟩
  | turn hb =>
      cases hform : a.form <;> simp only [hform, Form.execute?, reduceCtorEq] at hb
      cases hb
      exact .inl ⟨_, .execute _ _⟩
  | item hitems hb =>
      cases hform : a.form <;> simp only [hform, Form.items?, reduceCtorEq] at hitems
      cases hitems
      exact .inl ⟨_, .item hb⟩
  | reference hitems hs hresolve =>
      exact .inr (.inl ⟨⟨_, _, _, _, _, hitems, hs, hresolve⟩, _, rfl⟩)
  | call hform hb => exact .inr (.inr ⟨_, hform, hb⟩)

/-! ### Names that are bound once -/

namespace Entries

variable {α : Type}

theorem map_fst_insert (entries : Entries α) (key : String) (v : α) :
    (insert entries key v).map (·.1) =
      if key ∈ entries.map (·.1) then entries.map (·.1) else entries.map (·.1) ++ [key] := by
  induction entries with
  | nil => rfl
  | cons entry rest ih =>
      obtain ⟨k, old⟩ := entry
      by_cases hk : k = key
      · simp [insert, hk]
      · by_cases hrest : key ∈ rest.map (·.1)
        · simp only [insert, if_neg hk, List.map_cons, ih, List.mem_cons, hrest, or_true, if_true]
        · simp only [insert, if_neg hk, List.map_cons, ih, List.mem_cons, hrest, Ne.symm hk,
            or_false, if_false, List.cons_append]

theorem nodup_update {entries : Entries α} (hentries : (entries.map (·.1)).Nodup)
    (batch : Entries α) : ((update entries batch).map (·.1)).Nodup := by
  induction batch generalizing entries with
  | nil => exact hentries
  | cons entry rest ih =>
      refine ih ?_
      rw [map_fst_insert]
      split
      · exact hentries
      next hnew =>
        refine List.nodup_append.2 ⟨hentries, List.pairwise_singleton _ _, ?_⟩
        intro name hname last hlast heq
        exact hnew (List.mem_singleton.1 hlast ▸ heq ▸ hname)

theorem nodup_ofList (entries : Entries α) : ((ofList entries).map (·.1)).Nodup := by
  have hnil : (([] : Entries α).map (·.1)).Nodup := .nil
  exact nodup_update hnil entries

theorem insert_of_not_mem {entries : Entries α} {key : String} (hkey : key ∉ entries.map (·.1))
    (v : α) : insert entries key v = entries ++ [(key, v)] := by
  induction entries with
  | nil => rfl
  | cons entry rest ih =>
      obtain ⟨k, old⟩ := entry
      simp only [List.map_cons, List.mem_cons, not_or] at hkey
      rw [insert, if_neg (Ne.symm hkey.1), ih hkey.2, List.cons_append]

theorem update_of_nodup {entries batch : Entries α}
    (hnodup : ((entries ++ batch).map (·.1)).Nodup) : update entries batch = entries ++ batch := by
  induction batch generalizing entries with
  | nil => exact (List.append_nil entries).symm
  | cons entry rest ih =>
      have hsplit : entries ++ entry :: rest = (entries ++ [entry]) ++ rest := by simp
      have hnew : entry.1 ∉ entries.map (·.1) := by
        rw [List.map_append, List.nodup_append] at hnodup
        intro hmem
        exact hnodup.2.2 _ hmem _ List.mem_cons_self rfl
      calc update entries (entry :: rest)
          = update (entries ++ [entry]) rest := by
            rw [← insert_of_not_mem hnew entry.2]
            rfl
        _ = (entries ++ [entry]) ++ rest := ih (hsplit ▸ hnodup)
        _ = entries ++ entry :: rest := hsplit.symm

theorem ofList_of_nodup {entries : Entries α} (hnodup : (entries.map (·.1)).Nodup) :
    ofList entries = entries :=
  update_of_nodup hnodup

theorem mem_of_get? {entries : Entries α} {key : String} {v : α}
    (hget : get? entries key = some v) : (key, v) ∈ entries := by
  induction entries with
  | nil => cases hget
  | cons entry rest ih =>
      obtain ⟨k, old⟩ := entry
      rw [get?_cons] at hget
      split at hget
      next hk =>
        cases hk
        cases hget
        exact List.mem_cons_self
      · exact List.mem_cons_of_mem _ (ih hget)

theorem mem_of_mem_insert {entries : Entries α} {key : String} {v : α} {entry : String × α}
    (hentry : entry ∈ insert entries key v) : entry ∈ entries ∨ entry = (key, v) := by
  induction entries with
  | nil => exact .inr (List.mem_singleton.1 hentry)
  | cons first rest ih =>
      obtain ⟨k, old⟩ := first
      by_cases hk : k = key
      · rw [insert, if_pos hk, List.mem_cons] at hentry
        obtain rfl | hentry := hentry
        · exact .inr (by rw [hk])
        · exact .inl (List.mem_cons_of_mem _ hentry)
      · rw [insert, if_neg hk, List.mem_cons] at hentry
        obtain rfl | hentry := hentry
        · exact .inl List.mem_cons_self
        · exact (ih hentry).imp_left (List.mem_cons_of_mem _)

theorem mem_of_mem_update {entries batch : Entries α} {entry : String × α}
    (hentry : entry ∈ update entries batch) : entry ∈ entries ∨ entry ∈ batch := by
  induction batch generalizing entries with
  | nil => exact .inl hentry
  | cons first rest ih =>
      obtain hentry | hentry := ih hentry
      · obtain hentry | rfl := mem_of_mem_insert hentry
        · exact .inl hentry
        · exact .inr List.mem_cons_self
      · exact .inr (List.mem_cons_of_mem _ hentry)

theorem mem_of_mem_ofList {entries : Entries α} {entry : String × α}
    (hentry : entry ∈ ofList entries) : entry ∈ entries :=
  (mem_of_mem_update hentry).resolve_left List.not_mem_nil

end Entries

namespace Value

theorem settleAll_eq_map (vs : List Value) : settleAll vs = vs.map settle := by
  induction vs with
  | nil => rfl
  | cons v rest ih => rw [settleAll, ih, List.map_cons]

theorem settleFields_eq_map (fields : Fields) :
    settleFields fields = fields.map fun entry => (entry.1, entry.2.settle) := by
  induction fields with
  | nil => rfl
  | cons entry rest ih =>
      obtain ⟨key, v⟩ := entry
      rw [settleFields, ih, List.map_cons]

theorem settle_of_mem_list {vs : List Value} (hsettled : (Value.list vs).settle = .list vs)
    {u : Value} (hu : u ∈ vs) : u.settle = u := by
  rw [settle, settleAll_eq_map, list.injEq] at hsettled
  have hmap : vs.map settle = vs.map id := by rw [hsettled, List.map_id]
  exact List.map_inj_left.1 hmap u hu

/-- In a mapping that is settled every name is bound once, to a value that is settled. -/
theorem settle_mapping_iff {fields : Fields} :
    (Value.mapping fields).settle = .mapping fields ↔
      (fields.map (·.1)).Nodup ∧ ∀ entry ∈ fields, entry.2.settle = entry.2 := by
  have hkeys : (settleFields fields).map (·.1) = fields.map (·.1) := by
    simp [settleFields_eq_map, Function.comp_def]
  have hvalues : settleFields fields = fields ↔ ∀ entry ∈ fields, entry.2.settle = entry.2 := by
    have hid : fields = fields.map id := (List.map_id fields).symm
    nth_rewrite 2 [hid]
    rw [settleFields_eq_map, List.map_inj_left]
    exact forall₂_congr fun entry _ => by simp [Prod.ext_iff]
  rw [settle, mapping.injEq, ← hvalues]
  constructor
  · intro hsettled
    have hnodup : (fields.map (·.1)).Nodup := by
      rw [← hsettled]
      exact Entries.nodup_ofList (settleFields fields)
    rw [Entries.ofList_of_nodup (hkeys ▸ hnodup)] at hsettled
    exact ⟨hnodup, hsettled⟩
  · rintro ⟨hnodup, hsettled⟩
    rw [hsettled, Entries.ofList_of_nodup hnodup]

theorem settle_of_get? {fields : Fields} (hsettled : (mapping fields).settle = mapping fields)
    {key : String} {v : Value} (hget : Entries.get? fields key = some v) : v.settle = v :=
  (settle_mapping_iff.1 hsettled).2 (key, v) (Entries.mem_of_get? hget)

end Value

theorem Content.Holds.settle {content : Content} {v u : Value} {loc : List Segment}
    (hu : content.Holds v loc u) (hsettled : v.settle = v) : u.settle = u := by
  induction hu with
  | action | operand => exact hsettled
  | actions hu => exact Value.settle_of_mem_list hsettled (List.mem_of_getElem? hu)
  | items hu => exact (Value.settle_mapping_iff.1 hsettled).2 _ hu
  | orNull _ _ ih => exact ih hsettled

theorem Kind.Holds.settle {k : Kind} {fields : Fields} {u : Value} {loc : List Segment}
    (hu : k.Holds fields loc u) (hsettled : (Value.mapping fields).settle = .mapping fields) :
    u.settle = u := by
  cases hu with
  | field _ _ hv hu => exact hu.settle (Value.settle_of_get? hsettled hv)

/-! ### One level -/

theorem exists_getElem?_of_forall₂ {α β : Type} {R : α → β → Prop} {xs : List α} {ys : List β}
    (hall : List.Forall₂ R xs ys) {i : Nat} {x : α} (hx : xs[i]? = some x) :
    ∃ y, ys[i]? = some y ∧ R x y := by
  induction hall generalizing i with
  | nil => cases hx
  | cons hxy _ ih =>
      cases i with
      | zero =>
          cases hx
          exact ⟨_, rfl, hxy⟩
      | succ i => exact ih hx

theorem map_fst_eq_of_forall₂ {α β : Type} {R : String × α → String × β → Prop} {xs : Entries α}
    {ys : Entries β} (hall : List.Forall₂ R xs ys) (hR : ∀ x y, R x y → x.1 = y.1) :
    xs.map (·.1) = ys.map (·.1) := by
  induction hall with
  | nil => rfl
  | cons hxy _ ih => rw [List.map_cons, List.map_cons, hR _ _ hxy, ih]

namespace Form

open Reader

variable {α : Type} {node : Reader α} {k : Kind} {fields : Fields} {own : List String}
  {form : Form α}

theorem ofKind_eq_valid_iff {body : Check (Form α)} :
    ofKind k fields own body = .valid form ↔
      (literalName k fields).IsValid ∧ body = .valid form ∧
        (onlyFields fields ("action" :: own)).IsValid := by
  simp only [ofKind, Check.seq_eq_valid_iff, Check.map_eq_valid_iff]
  constructor
  · rintro ⟨_, only, ⟨_, _, ⟨name, hname, rfl⟩, hbody, rfl⟩, honly, rfl⟩
    exact ⟨⟨name, hname⟩, hbody, only, honly⟩
  · rintro ⟨⟨name, hname⟩, hbody, only, honly⟩
    exact ⟨_, only, ⟨_, form, ⟨name, hname, rfl⟩, hbody, rfl⟩, honly, rfl⟩

theorem ofElementKind_eq_valid_iff {body : Check (Option String → Form α)} :
    ofElementKind k fields own body = .valid form ↔
      ∃ element f, withDefault fields "element" none (nullable text) = .valid element ∧
        (literalName k fields).IsValid ∧ body = .valid f ∧ f element = form ∧
          (onlyFields fields ("element" :: "action" :: own)).IsValid := by
  simp only [ofElementKind, Check.seq_eq_valid_iff, Check.map_eq_valid_iff]
  constructor
  · rintro ⟨_, only, ⟨_, f, ⟨_, name, ⟨element, helement, rfl⟩, hname, rfl⟩, hbody, rfl⟩, honly,
      rfl⟩
    exact ⟨element, f, helement, ⟨name, hname⟩, hbody, rfl, only, honly⟩
  · rintro ⟨element, f, helement, ⟨name, hname⟩, hbody, hform, only, honly⟩
    exact ⟨_, only, ⟨_, f, ⟨_, name, ⟨element, helement, rfl⟩, hname, rfl⟩, hbody, rfl⟩, honly,
      hform⟩

/-! The kinds that have parts are taken apart once, for both directions below. -/

theorem read_sequence (hread : read node .sequence fields = .valid form) :
    ∃ v bs, form = .sequence bs ∧ Entries.get? fields "statements" = some v ∧
      listOf .value node v = .valid bs := by
  obtain ⟨-, hbody, -⟩ := ofKind_eq_valid_iff.1 hread
  obtain ⟨bs, hbs, rfl⟩ := Check.map_eq_valid_iff.1 hbody
  obtain ⟨v, hv, hlist⟩ := required_eq_valid_iff.1 hbs
  exact ⟨v, bs, rfl, hv, hlist⟩

theorem read_branch (hread : read node .branch fields = .valid form) :
    ∃ u v condition statement otherwise, form = .branch condition statement otherwise ∧
      Entries.get? fields "condition" = some u ∧ node u = .valid condition ∧
      Entries.get? fields "statement" = some v ∧ node v = .valid statement ∧
      withDefault fields "otherwise" none (nullable node) = .valid otherwise := by
  obtain ⟨-, hbody, -⟩ := ofKind_eq_valid_iff.1 hread
  simp only [Check.seq_eq_valid_iff, Check.map_eq_valid_iff, required_eq_valid_iff] at hbody
  obtain ⟨_, otherwise, ⟨_, statement, ⟨condition, ⟨u, hu, hcondition⟩, rfl⟩, ⟨v, hv, hstatement⟩,
    rfl⟩, hotherwise, rfl⟩ := hbody
  exact ⟨u, v, condition, statement, otherwise, rfl, hu, hcondition, hv, hstatement, hotherwise⟩

theorem read_negate (hread : read node .negate fields = .valid form) :
    ∃ v o, form = .negate o ∧ Entries.get? fields "statement" = some v ∧
      Form.operand node v = .valid o := by
  obtain ⟨-, hbody, -⟩ := ofKind_eq_valid_iff.1 hread
  obtain ⟨o, ho, rfl⟩ := Check.map_eq_valid_iff.1 hbody
  obtain ⟨v, hv, hoperand⟩ := required_eq_valid_iff.1 ho
  exact ⟨v, o, rfl, hv, hoperand⟩

theorem read_forEach (hread : read node .forEach fields = .valid form) :
    ∃ v elements b, form = .forEach elements b ∧ Entries.get? fields "execute" = some v ∧
      node v = .valid b := by
  obtain ⟨-, hbody, -⟩ := ofKind_eq_valid_iff.1 hread
  simp only [Check.seq_eq_valid_iff, Check.map_eq_valid_iff, required_eq_valid_iff] at hbody
  obtain ⟨_, b, ⟨elements, -, rfl⟩, ⟨v, hv, hb⟩, rfl⟩ := hbody
  exact ⟨v, elements, b, rfl, hv, hb⟩

theorem read_compare {c : Comparison} (hread : read node (.compare c) fields = .valid form) :
    ∃ v expected b ignoreCase, form = .compare c expected b ignoreCase ∧
      Entries.get? fields "statement" = some v ∧ node v = .valid b := by
  obtain ⟨-, hbody, -⟩ := ofKind_eq_valid_iff.1 hread
  simp only [Check.seq_eq_valid_iff, Check.map_eq_valid_iff, required_eq_valid_iff] at hbody
  obtain ⟨_, ignoreCase, ⟨_, b, ⟨expected, -, rfl⟩, ⟨v, hv, hb⟩, rfl⟩, -, rfl⟩ := hbody
  exact ⟨v, expected, b, ignoreCase, rfl, hv, hb⟩

theorem read_store (hread : read node .store fields = .valid form) :
    ∃ items, form = .store items ∧
      withDefault fields "items" [] (mappingOf .value (item node)) = .valid items := by
  obtain ⟨-, hbody, -⟩ := ofKind_eq_valid_iff.1 hread
  obtain ⟨items, hitems, rfl⟩ := Check.map_eq_valid_iff.1 hbody
  exact ⟨items, rfl, hitems⟩

/-- What is read as a kind is of that kind. -/
theorem kind?_of_read (hread : read node k fields = .valid form) : form.kind? = some k := by
  cases k with
  | sequence =>
      obtain ⟨_, _, rfl, -⟩ := read_sequence hread
      rfl
  | branch =>
      obtain ⟨_, _, _, _, _, rfl, -⟩ := read_branch hread
      rfl
  | negate =>
      obtain ⟨_, _, rfl, -⟩ := read_negate hread
      rfl
  | forEach =>
      obtain ⟨_, _, _, rfl, -⟩ := read_forEach hread
      rfl
  | compare c =>
      obtain ⟨_, _, _, _, rfl, -⟩ := read_compare hread
      rfl
  | store =>
      obtain ⟨_, rfl, -⟩ := read_store hread
      rfl
  | awaitPage _ =>
      obtain ⟨-, hbody, -⟩ := ofKind_eq_valid_iff.1 hread
      cases hbody
      rfl
  | inspect _ | gesture _ | awaitElement _ =>
      obtain ⟨element, f, -, -, hbody, rfl, -⟩ := ofElementKind_eq_valid_iff.1 hread
      cases hbody
      rfl
  | attributeOf | input | press | eval =>
      obtain ⟨element, f, -, -, hbody, rfl, -⟩ := ofElementKind_eq_valid_iff.1 hread
      obtain ⟨_, _, rfl⟩ := Check.map_eq_valid_iff.1 hbody
      rfl
  | has | navigate | sleep | logStore | log | error =>
      obtain ⟨-, hbody, -⟩ := ofKind_eq_valid_iff.1 hread
      obtain ⟨_, _, rfl⟩ := Check.map_eq_valid_iff.1 hbody
      rfl

theorem operand_eq_node {v : Value} {b : α} (hread : Form.operand node v = .valid (.node b)) :
    (∀ flag, v ≠ .bool flag) ∧ node v = .valid b := by
  cases v with
  | bool flag => cases hread
  | _ =>
      obtain ⟨b', hb, heq⟩ := Check.map_eq_valid_iff.1 hread
      cases heq
      exact ⟨nofun, hb⟩

theorem exists_of_operand {v : Value} {o : Operand α} (hv : ∀ flag, v ≠ .bool flag)
    (hread : Form.operand node v = .valid o) : ∃ b, o = .node b := by
  cases v with
  | bool flag => exact absurd rfl (hv flag)
  | _ =>
      obtain ⟨b, -, rfl⟩ := Check.map_eq_valid_iff.1 hread
      exact ⟨b, rfl⟩

theorem item_eq_node {v : Value} {b : α} (hread : item node v = .valid (.node b)) :
    ∃ inner, v = .mapping inner ∧ node v = .valid b := by
  cases v with
  | mapping inner =>
      obtain ⟨b', hb, heq⟩ := Check.map_eq_valid_iff.1 hread
      cases heq
      exact ⟨inner, rfl, hb⟩
  | _ => cases hread

/-- Every part of a form that is read stands in the mapping, where it is read from. -/
theorem exists_holds_of_hasPart {loc : List Segment} {b : α}
    (hread : read node k fields = .valid form) (hpart : form.HasPart loc b) :
    ∃ u, k.Holds fields loc u ∧ node u = .valid b := by
  have hkind := kind?_of_read hread
  cases hpart with
  | statements hb =>
      obtain rfl : Kind.sequence = k := Option.some.inj hkind
      obtain ⟨v, _, heq, hv, hlist⟩ := read_sequence hread
      cases heq
      obtain ⟨vs, rfl, hall⟩ := forall₂_of_listOf hlist
      obtain ⟨u, hu, hnode⟩ := exists_getElem?_of_forall₂ hall.flip hb
      exact ⟨u, Kind.holds_of_need (by simp [Kind.rules]) hv (.actions hu), hnode⟩
  | condition =>
      obtain rfl : Kind.branch = k := Option.some.inj hkind
      obtain ⟨u, _, _, _, _, heq, hu, hnode, -⟩ := read_branch hread
      cases heq
      exact ⟨u, Kind.holds_of_need (by simp [Kind.rules]) hu (.action u), hnode⟩
  | statement =>
      obtain rfl : Kind.branch = k := Option.some.inj hkind
      obtain ⟨_, u, _, _, _, heq, -, -, hu, hnode, -⟩ := read_branch hread
      cases heq
      exact ⟨u, Kind.holds_of_need (by simp [Kind.rules]) hu (.action u), hnode⟩
  | otherwise =>
      obtain rfl : Kind.branch = k := Option.some.inj hkind
      obtain ⟨_, _, _, _, _, heq, -, -, -, -, hotherwise⟩ := read_branch hread
      cases heq
      obtain ⟨-, hnone⟩ | ⟨u, hu, hnullable⟩ := withDefault_eq_valid_iff.1 hotherwise
      · cases hnone
      obtain ⟨-, hnone⟩ | ⟨hnull, b, hb, heq⟩ := nullable_eq_valid_iff.1 hnullable
      · cases hnone
      cases heq
      exact ⟨u, Kind.holds_of_may (by simp [Kind.rules]) hu (.orNull hnull (.action u)), hb⟩
  | operand =>
      obtain rfl : Kind.negate = k := Option.some.inj hkind
      obtain ⟨u, _, heq, hu, hoperand⟩ := read_negate hread
      cases heq
      obtain ⟨hflag, hnode⟩ := operand_eq_node hoperand
      exact ⟨u, Kind.holds_of_need (by simp [Kind.rules]) hu (.operand hflag), hnode⟩
  | execute =>
      obtain rfl : Kind.forEach = k := Option.some.inj hkind
      obtain ⟨u, _, _, heq, hu, hnode⟩ := read_forEach hread
      cases heq
      exact ⟨u, Kind.holds_of_need (by simp [Kind.rules]) hu (.action u), hnode⟩
  | compared c =>
      obtain rfl : Kind.compare c = k := Option.some.inj hkind
      obtain ⟨u, _, _, _, heq, hu, hnode⟩ := read_compare hread
      cases heq
      have hrule : .need "statement" .action ∈ (Kind.compare c).rules := by
        cases c <;> simp [Kind.rules]
      exact ⟨u, Kind.holds_of_need hrule hu (.action u), hnode⟩
  | item hb =>
      obtain rfl : Kind.store = k := Option.some.inj hkind
      obtain ⟨_, heq, hitems⟩ := read_store hread
      cases heq
      obtain ⟨-, rfl⟩ | ⟨v, hv, hmapping⟩ := withDefault_eq_valid_iff.1 hitems
      · cases hb
      obtain ⟨entries, read, rfl, rfl, hall⟩ := forall₂_of_mappingOf hmapping
      -- of the entries under one name the last is kept; it stands among the others
      obtain ⟨i, hi⟩ := List.mem_iff_getElem?.1 (Entries.mem_of_mem_ofList hb)
      obtain ⟨⟨name, u⟩, hentry, rfl, hitem⟩ := exists_getElem?_of_forall₂ hall.flip hi
      obtain ⟨inner, rfl, hnode⟩ := item_eq_node hitem
      have hmem := List.mem_of_getElem? hentry
      exact ⟨_, Kind.holds_of_may (by simp [Kind.rules]) hv (.items hmem), hnode⟩

/-- What stands in the mapping where an action should be is read as a part of the form, if no item is
given twice. -/
theorem exists_hasPart_of_holds {loc : List Segment} {u : Value}
    (hread : read node k fields = .valid form) (hholds : k.Holds fields loc u)
    (hitems : ∀ entries, Entries.get? fields "items" = some (.mapping entries) →
      (entries.map (·.1)).Nodup) :
    ∃ b, form.HasPart loc b ∧ node u = .valid b := by
  cases hholds with
  | @field rule name v u loc hrule hname hv hu =>
    -- only fields that can hold actions are left
    have hrule : rule ∈ k.rules.filter (·.content.nests) :=
      List.mem_filter.2 ⟨hrule, hu.nests⟩
    cases k with
    | sequence =>
        obtain rfl := List.mem_singleton.1 hrule
        obtain rfl := List.mem_singleton.1 hname
        obtain ⟨_, bs, rfl, hv', hlist⟩ := read_sequence hread
        obtain rfl := Option.some.inj (hv.symm.trans hv')
        obtain ⟨vs, rfl, hall⟩ := forall₂_of_listOf hlist
        cases hu with
        | actions hu =>
            obtain ⟨b, hb, hnode⟩ := exists_getElem?_of_forall₂ hall hu
            exact ⟨b, .statements hb, hnode⟩
    | branch =>
        obtain ⟨_, _, condition, statement, otherwise, rfl, hu', hcondition, hv', hstatement,
          hotherwise⟩ := read_branch hread
        obtain rfl | hrule := List.mem_cons.1 hrule
        · obtain rfl := List.mem_singleton.1 hname
          obtain rfl := Option.some.inj (hv.symm.trans hu')
          cases hu
          exact ⟨condition, .condition _ _ _, hcondition⟩
        obtain rfl | hrule := List.mem_cons.1 hrule
        · obtain rfl := List.mem_singleton.1 hname
          obtain rfl := Option.some.inj (hv.symm.trans hv')
          cases hu
          exact ⟨statement, .statement _ _ _, hstatement⟩
        · obtain rfl := List.mem_singleton.1 hrule
          obtain rfl := List.mem_singleton.1 hname
          obtain ⟨hnone, -⟩ | ⟨_, hv', hnullable⟩ := withDefault_eq_valid_iff.1 hotherwise
          · rw [hv] at hnone
            cases hnone
          obtain rfl := Option.some.inj (hv.symm.trans hv')
          cases hu with
          | orNull hnull hu =>
              cases hu
              obtain ⟨hv, -⟩ | ⟨-, b, hb, rfl⟩ := nullable_eq_valid_iff.1 hnullable
              · exact absurd hv hnull
              · exact ⟨b, .otherwise _ _ _, hb⟩
    | negate =>
        obtain rfl := List.mem_singleton.1 hrule
        obtain rfl := List.mem_singleton.1 hname
        obtain ⟨_, o, rfl, hv', hoperand⟩ := read_negate hread
        obtain rfl := Option.some.inj (hv.symm.trans hv')
        cases hu with
        | operand hflag =>
            obtain ⟨b, rfl⟩ := exists_of_operand hflag hoperand
            exact ⟨b, .operand b, (operand_eq_node hoperand).2⟩
    | forEach =>
        obtain rfl := List.mem_singleton.1 hrule
        obtain rfl := List.mem_singleton.1 hname
        obtain ⟨_, elements, b, rfl, hv', hnode⟩ := read_forEach hread
        obtain rfl := Option.some.inj (hv.symm.trans hv')
        cases hu
        exact ⟨b, .execute elements b, hnode⟩
    | compare c =>
        have hrule : rule ∈ [FieldRule.need "statement" .action] := by
          cases c <;> exact hrule
        obtain rfl := List.mem_singleton.1 hrule
        obtain rfl := List.mem_singleton.1 hname
        obtain ⟨_, expected, b, ignoreCase, rfl, hv', hnode⟩ := read_compare hread
        obtain rfl := Option.some.inj (hv.symm.trans hv')
        cases hu
        exact ⟨b, .compared c expected b ignoreCase, hnode⟩
    | store =>
        obtain rfl := List.mem_singleton.1 hrule
        obtain rfl := List.mem_singleton.1 hname
        obtain ⟨_, rfl, hstore⟩ := read_store hread
        obtain ⟨hnone, -⟩ | ⟨_, hv', hmapping⟩ := withDefault_eq_valid_iff.1 hstore
        · rw [hv] at hnone
          cases hnone
        obtain rfl := Option.some.inj (hv.symm.trans hv')
        obtain ⟨entries, items, rfl, rfl, hall⟩ := forall₂_of_mappingOf hmapping
        have hnodup : (items.map (·.1)).Nodup := by
          rw [← map_fst_eq_of_forall₂ hall fun _ _ h => h.1]
          exact hitems entries hv
        cases hu with
        | items hmem =>
            obtain ⟨i, hi⟩ := List.mem_iff_getElem?.1 hmem
            obtain ⟨⟨name, item⟩, hitem, rfl, hread⟩ := exists_getElem?_of_forall₂ hall hi
            obtain ⟨b, hb, rfl⟩ := Check.map_eq_valid_iff.1 hread
            refine ⟨b, .item ?_, hb⟩
            rw [Entries.ofList_of_nodup hnodup]
            exact List.mem_of_getElem? hitem
    | _ => cases hrule

end Form

/-- Whatever is allowed in a field has actions where actions should be. -/
theorem Content.Allows.of_holds {inner : Value → Prop} {content : Content} {v u : Value}
    {loc : List Segment} (hallows : content.Allows inner v) (hu : content.Holds v loc u) :
    inner u := by
  induction hu with
  | action v => exact hallows
  | actions hu =>
      obtain ⟨vs, hvs, hall⟩ := hallows
      cases hvs
      exact hall _ (List.mem_of_getElem? hu)
  | operand hv =>
      obtain ⟨b, hb⟩ | hinner := hallows
      · exact absurd hb (hv b)
      · exact hinner
  | items hu =>
      obtain ⟨entries, hentries, hall⟩ := hallows
      cases hentries
      exact hall _ hu _ rfl
  | orNull hv _ ih =>
      obtain hnull | hallows := hallows
      · exact absurd hnull hv
      · exact ih hallows

theorem Form.isValid_of_holds {α : Type} {node : Reader α} {k : Kind} {fields : Fields} {u : Value}
    {loc : List Segment} (hread : (Form.read node k fields).IsValid) (hu : k.Holds fields loc u) :
    (node u).IsValid := by
  obtain ⟨-, hrules, -⟩ := isValid_read.1 hread
  cases hu with
  | field hrule hname hv hu => exact ((hrules _ hrule).allowed _ hname _ hv).of_holds hu

/-- An action is read as one of a kind or as a call of the name that it gives. -/
theorem Schema.read_cases {α : Type} {node : Reader α} {schema : Schema} {fields : Fields}
    {form : Form α} (hread : schema.read node fields = .valid (some form)) :
    (∃ k, schema = .kind k ∧ Form.read node k fields = .valid form) ∨
      schema = .call ∧ ∃ name, form = .call name ∧
        Entries.get? fields "action" = some (.text (reference name)) := by
  cases schema with
  | kind k =>
      obtain ⟨_, hform, heq⟩ := Check.map_eq_valid_iff.1 hread
      cases heq
      exact .inl ⟨k, rfl, hform⟩
  | call =>
      obtain ⟨_, _, hcall, -, heq⟩ := Check.seq_eq_valid_iff.1 hread
      obtain ⟨name, hname, rfl⟩ := Check.map_eq_valid_iff.1 hcall
      cases heq
      obtain ⟨v, hv, href⟩ := Reader.required_eq_valid_iff.1 hname
      obtain ⟨s, rfl, -⟩ := Reader.isValid_referenceText.1 ⟨name, href⟩
      obtain rfl := Reader.eq_reference_of_referenceText href
      exact .inr ⟨rfl, name, rfl, hv⟩
  | base =>
      obtain ⟨_, -, heq⟩ := Check.map_eq_valid_iff.1 hread
      cases heq
  | element =>
      obtain ⟨_, _, hnone, -, heq⟩ := Check.seq_eq_valid_iff.1 hread
      obtain ⟨_, -, rfl⟩ := Check.map_eq_valid_iff.1 hnone
      cases heq

/-! ### All levels -/

namespace Registry

variable {registry : Registry} {budget : Nat} {v u : Value} {a b : Action} {route : Route}

theorem nodeWithin_eq_valid_iff : registry.nodeWithin budget v = .valid a ↔
    registry.parseWithin budget v = .ok a := by
  rw [nodeWithin]
  cases registry.parseWithin budget v <;> simp

/-- A part of an action that is read is read from what stands at its place, with one level less. -/
theorem exists_holds_of_parse {loc : List Segment}
    (hparse : registry.parseWithin (budget + 1) v = .ok a) (hpart : a.form.HasPart loc b) :
    ∃ fields kind k u, v = .mapping fields ∧ Entries.get? fields "action" = some (.text kind) ∧
      registry.schemaOf? kind = some (.kind k) ∧ k.Holds fields loc u ∧
        registry.parseWithin budget u = .ok b := by
  obtain ⟨fields, kind, schema, form, rfl, hkind, hschema, hread, rfl⟩ :=
    parseWithin_succ_eq_ok_iff.1 hparse
  obtain ⟨k, rfl, hform⟩ | ⟨-, name, rfl, -⟩ := Schema.read_cases hread
  · obtain ⟨u, hu, hnode⟩ := Form.exists_holds_of_hasPart hform hpart
    exact ⟨fields, kind, k, u, rfl, hkind, hschema, hu, nodeWithin_eq_valid_iff.1 hnode⟩
  · cases hpart

/-- Every position in an action that is read is one in the value, and the action there is what the
value there is read as, with the levels that are left. -/
theorem exists_actionAt_of_at (hparse : registry.parseWithin budget v = .ok a)
    (hat : a.At route b) :
    ∃ u left, registry.ActionAt v route u ∧ budget = route.length + left + 1 ∧
      registry.parseWithin (left + 1) u = .ok b := by
  induction hat generalizing budget v with
  | here a =>
      cases budget with
      | zero => exact absurd hparse parseWithin_zero_ne_ok
      | succ budget => exact ⟨v, budget, .here v, by simp, hparse⟩
  | part hpart _ ih =>
      cases budget with
      | zero => exact absurd hparse parseWithin_zero_ne_ok
      | succ budget =>
          obtain ⟨fields, kind, k, u, rfl, hkind, hschema, hu, hinner⟩ :=
            exists_holds_of_parse hparse hpart
          obtain ⟨w, left, hw, hleft, hparse⟩ := ih hinner
          refine ⟨w, left, .part hkind hschema hu hw, ?_, hparse⟩
          rw [List.length_cons]
          omega

/-- A mapping that is registered as one of a kind is read as one. -/
theorem read_of_parse {fields : Fields} {kind : String} {k : Kind}
    (hparse : registry.parseWithin (budget + 1) (.mapping fields) = .ok a)
    (hkind : Entries.get? fields "action" = some (.text kind))
    (hschema : registry.schemaOf? kind = some (.kind k)) :
    ∃ form, Form.read (registry.nodeWithin budget) k fields = .valid form ∧
      a = .node (some fields) form := by
  obtain ⟨fields', kind', schema, form, hv, hkind', hschema', hread, rfl⟩ :=
    parseWithin_succ_eq_ok_iff.1 hparse
  cases hv
  cases hkind.symm.trans hkind'
  cases hschema.symm.trans hschema'
  obtain ⟨_, hform, heq⟩ := Check.map_eq_valid_iff.1 hread
  cases heq
  exact ⟨form, hform, rfl⟩

/-- What stands at a position in a value that is read is read too. -/
theorem exists_parse_of_actionAt (hparse : registry.parseWithin budget v = .ok a)
    (hat : registry.ActionAt v route u) :
    ∃ b left, budget = route.length + left + 1 ∧ registry.parseWithin (left + 1) u = .ok b := by
  induction hat generalizing budget a with
  | here v =>
      cases budget with
      | zero => exact absurd hparse parseWithin_zero_ne_ok
      | succ budget => exact ⟨a, budget, by simp, hparse⟩
  | part hkind hschema hpart _ ih =>
      cases budget with
      | zero => exact absurd hparse parseWithin_zero_ne_ok
      | succ budget =>
          obtain ⟨form, hform, -⟩ := read_of_parse hparse hkind hschema
          obtain ⟨b, hb⟩ := isValid_nodeWithin.1 (Form.isValid_of_holds ⟨form, hform⟩ hpart)
          obtain ⟨c, left, hleft, hc⟩ := ih hb
          refine ⟨c, left, ?_, hc⟩
          rw [List.length_cons]
          omega

/-- Every position in a value that is read is one in the action, if no name is bound twice, and the
action there is what the value there is read as. -/
theorem exists_at_of_actionAt (hparse : registry.parseWithin budget v = .ok a)
    (hsettled : v.settle = v) (hat : registry.ActionAt v route u) :
    ∃ b left, a.At route b ∧ registry.parseWithin (left + 1) u = .ok b := by
  induction hat generalizing budget a with
  | here v =>
      cases budget with
      | zero => exact absurd hparse parseWithin_zero_ne_ok
      | succ budget => exact ⟨a, budget, .here a, hparse⟩
  | part hkind hschema hpart _ ih =>
      cases budget with
      | zero => exact absurd hparse parseWithin_zero_ne_ok
      | succ budget =>
          obtain ⟨form, hform, rfl⟩ := read_of_parse hparse hkind hschema
          obtain ⟨b, hb, hnode⟩ := Form.exists_hasPart_of_holds hform hpart fun entries hentries =>
            (Value.settle_mapping_iff.1 (Value.settle_of_get? hsettled hentries)).1
          have hinner := nodeWithin_eq_valid_iff.1 hnode
          obtain ⟨c, left, hc, hleft⟩ := ih hinner (hpart.settle hsettled)
          exact ⟨c, left, .part hb hc, hleft⟩

end Registry

/-! ### A message -/

/-- An action without parts, as it is written. -/
def writtenMessage : Fields :=
  [("action", .text "log"), ("message", .text "x")]

def messageAction : Action :=
  .node (some writtenMessage) (.log "x")

theorem Registry.parseWithin_message {registry : Registry}
    (hschema : registry.schemaOf? "log" = some (.kind .log)) (budget : Nat) :
    registry.parseWithin (budget + 1) (.mapping writtenMessage) = .ok messageAction :=
  parseWithin_succ_eq_ok_iff.2
    ⟨writtenMessage, "log", .kind .log, .log "x", rfl, rfl, hschema, rfl, rfl⟩

end Pagescript
