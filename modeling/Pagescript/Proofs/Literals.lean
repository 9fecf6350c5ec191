import Mathlib.Tactic.Choose
import Pagescript.Proofs.Made
import Pagescript.Proofs.Spelling
/-!
# Literals of actions

The literal of an action tells what the action is, but for what it and its parts remember of the
documents that they were read from.  Main statement: `Action.bare_eq_of_literal_eq`.
-/

namespace Pagescript

/-! ### Induction over the parts -/

theorem Form.HasPart.sizeOf_lt {α : Type} [SizeOf α] {form : Form α} {loc : List Segment} {b : α}
    (hpart : form.HasPart loc b) : sizeOf b < sizeOf form := by
  cases hpart with
  | statements hb =>
      have hlt := List.sizeOf_lt_of_mem (List.mem_of_getElem? hb)
      simp only [sequence.sizeOf_spec]
      omega
  | item hb =>
      have hlt := List.sizeOf_lt_of_mem hb
      simp only [Prod.mk.sizeOf_spec, Item.node.sizeOf_spec] at hlt
      simp only [store.sizeOf_spec]
      omega
  | _ =>
      simp only [branch.sizeOf_spec, negate.sizeOf_spec, forEach.sizeOf_spec, compare.sizeOf_spec,
        Operand.node.sizeOf_spec, Option.some.sizeOf_spec]
      omega

namespace Action

theorem sizeOf_form_lt (a : Action) : sizeOf a.form < sizeOf a := by
  cases a
  simp only [form, node.sizeOf_spec]
  omega

/-- What holds of an action if it holds of its parts holds of all actions. -/
@[elab_as_elim]
theorem induction_parts {P : Action → Prop}
    (hstep : ∀ a, (∀ loc b, a.form.HasPart loc b → P b) → P a) (a : Action) : P a :=
  hstep a fun _ b hpart =>
    have : sizeOf b < sizeOf a := Nat.lt_trans hpart.sizeOf_lt a.sizeOf_form_lt
    induction_parts hstep b
termination_by sizeOf a

/-- The action without what it remembers of the documents that it and its parts were read from. -/
def bare : Action → Action :=
  fold fun _ form => .node none form

theorem bare_eq (a : Action) : a.bare = .node none (a.form.map bare) := by
  cases a
  exact fold_node _ _ _

theorem literal_eq (a : Action) : a.literal = formLiteral (a.form.map literal) := by
  cases a
  exact fold_node _ _ _

/-- An action that stands in a dump as its literal. -/
def shown (a : Action) : Dumped :=
  (a.literal, fun _ => .foreign a.literal)

end Action

/-- The parts of a form, in order. -/
def Form.nodes {α : Type} : Form α → List α
  | .sequence statements => statements
  | .branch condition statement otherwise => condition :: statement :: otherwise.toList
  | .negate (.node a) => [a]
  | .forEach _ execute => [execute]
  | .compare _ _ statement _ => [statement]
  | .store items => items.filterMap fun entry =>
    match entry.2 with
    | .literal _ => none
    | .node a => some a
  | _ => []

theorem Form.mem_nodes_iff {α : Type} {form : Form α} {a : α} :
    a ∈ form.nodes ↔ ∃ loc, form.HasPart loc a := by
  constructor
  · intro ha
    cases form with
    | sequence statements =>
        obtain ⟨i, hi⟩ := List.mem_iff_getElem?.1 ha
        exact ⟨_, .statements hi⟩
    | branch condition statement otherwise =>
        obtain rfl | ha := List.mem_cons.1 ha
        · exact ⟨_, .condition _ _ _⟩
        obtain rfl | ha := List.mem_cons.1 ha
        · exact ⟨_, .statement _ _ _⟩
        obtain rfl := Option.mem_toList.1 ha
        exact ⟨_, .otherwise _ _ _⟩
    | negate operand =>
        cases operand with
        | flag b => cases ha
        | node b =>
            obtain rfl := List.mem_singleton.1 ha
            exact ⟨_, .operand a⟩
    | forEach elements execute =>
        obtain rfl := List.mem_singleton.1 ha
        exact ⟨_, .execute elements a⟩
    | compare c expected statement ignoreCase =>
        obtain rfl := List.mem_singleton.1 ha
        exact ⟨_, .compared c expected a ignoreCase⟩
    | store items =>
        obtain ⟨⟨name, item⟩, hentry, hitem⟩ := List.mem_filterMap.1 ha
        cases item with
        | literal v => cases hitem
        | node b =>
            cases hitem
            exact ⟨_, .item hentry⟩
    | _ => cases ha
  · rintro ⟨loc, hpart⟩
    cases hpart with
    | statements hb => exact List.mem_of_getElem? hb
    | item hb => exact List.mem_filterMap.2 ⟨_, hb, rfl⟩
    | _ => simp [nodes]

theorem Form.nodes_map {α β : Type} (f : α → β) (form : Form α) :
    (form.map f).nodes = form.nodes.map f := by
  cases form with
  | branch condition statement otherwise => cases otherwise <;> rfl
  | negate operand => cases operand <;> rfl
  | store items =>
      simp only [map, nodes, List.filterMap_map, List.map_filterMap]
      congr 1
      funext entry
      obtain ⟨name, item⟩ := entry
      cases item <;> rfl
  | _ => rfl

/-- Two forms that are mapped alike are mapped alike by all that the map tells. -/
theorem Form.map_eq_of_map_eq {α β γ : Type} [Nonempty γ] {f : α → β} {g : α → γ}
    {form form' : Form α} (hforms : form.map f = form'.map f)
    (htells : ∀ x ∈ form.nodes, ∀ y, y ∈ form.nodes ∨ y ∈ form'.nodes → f x = f y → g x = g y) :
    form.map g = form'.map g := by
  have htold (b : β) : ∃ c, ∀ x ∈ form.nodes, f x = b → g x = c := by
    by_cases hb : ∃ x ∈ form.nodes, f x = b
    · obtain ⟨x, hx, rfl⟩ := hb
      exact ⟨g x, fun y hy heq => (htells x hx y (.inl hy) heq.symm).symm⟩
    · exact ⟨Classical.ofNonempty, fun x hx heq => absurd ⟨x, hx, heq⟩ hb⟩
  choose told htold using htold
  have hpart : ∀ x ∈ form.nodes, g x = told (f x) := fun x hx => htold _ x hx rfl
  have hpart' : ∀ y ∈ form'.nodes, g y = told (f y) := by
    intro y hy
    have hmem : f y ∈ (form.map f).nodes := by
      rw [hforms, nodes_map]
      exact List.mem_map_of_mem hy
    rw [nodes_map] at hmem
    obtain ⟨x, hx, heq⟩ := List.mem_map.1 hmem
    rw [← htold _ x hx heq]
    exact (htells x hx y (.inr hy) heq).symm
  calc form.map g = (form.map f).map told := by
        rw [map_map]
        exact map_congr fun loc x hx => hpart x (mem_nodes_iff.2 ⟨loc, hx⟩)
    _ = (form'.map f).map told := by rw [hforms]
    _ = form'.map g := by
        rw [map_map]
        exact (map_congr fun loc y hy => hpart' y (mem_nodes_iff.2 ⟨loc, hy⟩)).symm

/-! ### Forms -/

/-- The literal of an action, read as the literal. -/
def Reader.shown : Reader String
  | .foreign shown => .valid shown
  | _ => .invalid []

namespace Form

open Text Json Pagescript.Action

/-- The fields of a form whose parts stand as their literals. -/
def spelled (form : Form Action) : Fields :=
  formDump .full (form.map shown) 0

def fieldLiteral (field : String × Value) : String :=
  field.1 ++ "=" ++ field.2.literal

/-- A field as a program would have it. -/
def programField? (field : String × Value) : Option (String × Value) :=
  match field.2 with
  | .null => none
  | v => some (fieldName .program field.1, v)

variable {form form' : Form Action}

/-- The literal of a list of actions is that of a list of things. -/
theorem literal_statements (statements : List Action) :
    (Value.list ((statements.map shown).map fun a => a.2 2)).literal =
      partLiteral (.nodes (statements.map literal)) := by
  rw [Value.literal, Value.literals_eq_map, List.map_map, List.map_map]
  rfl

theorem literal_items (items : List (String × Item Action)) :
    (Value.mapping ((items.map fun entry => (entry.1, entry.2.map shown)).map
        fun (key, item) => (key, itemDump 2 item))).literal =
      partLiteral (.items (items.map fun entry => (entry.1, entry.2.map literal))) := by
  rw [Value.literal, Value.literalFields_eq_map, partLiteral, List.map_map, List.map_map,
    List.map_map]
  congr 3
  refine List.map_congr_left fun entry _ => ?_
  obtain ⟨name, item⟩ := entry
  cases item <;> rfl

/-- The literal of an action spells its fields. -/
theorem formLiteral_map (form : Form Action) : formLiteral (form.map literal) =
    form.title ++ "(" ++ ", ".intercalate (form.spelled.map fieldLiteral) ++ ")" := by
  cases form with
  | sequence statements =>
      exact congrArg (fun text => (sequence statements).title ++ "(" ++ ", ".intercalate
        [fieldLiteral ("action", .text "do"), "statements" ++ "=" ++ text] ++ ")")
        (literal_statements statements).symm
  | store items =>
      exact congrArg (fun text => (store items).title ++ "(" ++ ", ".intercalate
        [fieldLiteral ("action", .text "store"), "items" ++ "=" ++ text] ++ ")")
        (literal_items items).symm
  | branch condition statement otherwise => cases otherwise <;> rfl
  | negate operand => cases operand <;> rfl
  | inspect _ element | attributeOf element _ | gesture _ element | input element _
  | press element _ | eval element _ | awaitElement _ element => cases element <;> rfl
  | _ => rfl

theorem formDump_program (form : Form Action) :
    formDump .program (form.map shown) 0 = form.spelled.filterMap programField? := by
  cases form with
  | branch condition statement otherwise => cases otherwise <;> rfl
  | negate operand => cases operand <;> rfl
  | compare c => cases c <;> rfl
  | inspect _ element | attributeOf element _ | gesture _ element | input element _
  | press element _ | eval element _ | awaitElement _ element => cases element <;> rfl
  | _ => rfl

theorem exists_schema_reading_shown (hlegal : form.Legal) :
    ∃ schema, (Registry.builtin .initial 0).schemaOf? form.name = some schema ∧
      schema.readAmong (fun _ => some (callOf "")) Reader.shown
        (formDump .program (form.map shown) 0) = .valid (some (form.map literal)) :=
  exists_schema_reading_dump 0 hlegal fun _ _ _ => ⟨rfl, .inr ⟨_, rfl⟩⟩

/-- Forms with the same fields have the same parts. -/
theorem map_literal_eq_of_spelled_eq (hlegal : form.Legal) (hlegal' : form'.Legal)
    (h : form.spelled = form'.spelled) : form.map literal = form'.map literal := by
  have hdump : formDump .program (form.map shown) 0 = formDump .program (form'.map shown) 0 := by
    rw [formDump_program, h, formDump_program]
  have hname : form.name = form'.name := by
    have haction := get?_action_formDump (form.map shown) 0
    rw [hdump, get?_action_formDump, name_map, name_map] at haction
    exact (Value.text.inj (Option.some.inj haction)).symm
  obtain ⟨schema, hschema, hform⟩ := exists_schema_reading_shown hlegal
  obtain ⟨schema', hschema', hform'⟩ := exists_schema_reading_shown hlegal'
  rw [hname, hschema'] at hschema
  cases hschema
  rw [hdump, hform'] at hform
  exact (Option.some.inj (Check.valid.inj hform)).symm

/-! ### Titles and names of fields -/

theorem title_letters (form : Form Action) :
    form.title.toList.all Char.isAlpha = true ∧ form.title.toList ≠ [] := by
  have hall : ∀ k ∈ Kind.all, k.title.toList.all Char.isAlpha = true ∧ k.title.toList ≠ [] := by
    decide +kernel
  rw [title]
  cases form.kind? with
  | none => decide +kernel
  | some k => exact hall k k.mem_all

def fieldNames : List String :=
  ["action", "statements", "condition", "statement", "otherwise", "elements", "execute", "element",
    "name", "expected", "text", "ignore_case", "key", "link", "expression", "duration", "items",
    "message"]

theorem mem_fieldNames {field : String × Value} (hfield : field ∈ form.spelled) :
    field.1 ∈ fieldNames := by
  have hparts : (form.map shown).parts.all (fun field => fieldNames.contains field.1) = true := by
    cases form with
    | compare c => cases c <;> rfl
    | _ => rfl
  obtain ⟨⟨key, part⟩, hpart, hvalue⟩ := List.mem_filterMap.1 hfield
  obtain ⟨v, -, rfl⟩ := Option.map_eq_some_iff.1 hvalue
  exact List.contains_iff_mem.1 (List.all_eq_true.1 hparts _ hpart)

theorem begins_fieldLiteral {field : String × Value} (hkey : field.1 ∈ fieldNames) :
    Begins (fieldLiteral field) := by
  have hall : ∀ key ∈ fieldNames, key.toList.head?.any Char.isAlpha = true := by decide +kernel
  obtain ⟨c, hc, halpha⟩ := (Option.any_eq_true _ _).1 (hall _ hkey)
  intro rest _ hstops
  obtain ⟨more, hmore⟩ : ∃ more, field.1.toList = c :: more := List.head?_eq_some_iff.1 hc
  rw [fieldLiteral, String.toList_append, String.toList_append, hmore] at hstops
  exact Bool.noConfusion ((hstops.not_alpha c rfl).1.symm.trans halpha)

theorem separates_fieldLiteral {field field' : String × Value} (hkey : field.1 ∈ fieldNames)
    (hkey' : field'.1 ∈ fieldNames) (h : Separates Value.literal field.2 field'.2) :
    Separates fieldLiteral field field' := by
  have hall : ∀ key ∈ fieldNames, '=' ∉ key.toList := by decide +kernel
  intro rest rest' hrest hrest' heq
  have hfield (field : String × Value) (rest : List Char) : (fieldLiteral field).toList ++ rest =
      field.1.toList ++ '=' :: (field.2.literal.toList ++ rest) := by
    rw [fieldLiteral, String.toList_append, String.toList_append, List.append_assoc,
      List.append_assoc]
    rfl
  rw [hfield, hfield] at heq
  obtain ⟨hname, hvalue⟩ := append_cons_cancel (hall _ hkey) (hall _ hkey') heq
  obtain ⟨hv, hrests⟩ := h _ _ hrest hrest' hvalue
  exact ⟨Prod.ext (String.toList_inj.1 hname) hv, hrests⟩

/-! ### Legible forms -/

/-- The values in a form can be told from their literals. -/
def Legible : Form Action → Prop
  | .sleep duration => duration.IsSound
  | .store items => ∀ name v, (name, .literal v) ∈ items → v.Legible fun _ => False
  | _ => True

/-- Texts, flags and what is absent. -/
def isSimple : Value → Bool
  | .null | .bool _ | .text _ => true
  | _ => false

variable {known : String → Prop}

theorem legible_of_simple {fields : Fields} (h : fields.all (fun field => isSimple field.2) = true) :
    ∀ field ∈ fields, field.2.Legible known := by
  intro field hfield
  have hsimple := List.all_eq_true.1 h field hfield
  cases hvalue : field.2 with
  | null => exact .null
  | bool b => exact .bool b
  | text s => exact .text s
  | _ =>
      rw [hvalue] at hsimple
      cases hsimple

theorem legible_spelled (hlegible : form.Legible)
    (hparts : ∀ loc a, form.HasPart loc a → known a.literal) :
    ∀ field ∈ form.spelled, field.2.Legible known := by
  cases form with
  | sequence statements =>
      refine List.forall_mem_cons.2 ⟨.text _, List.forall_mem_singleton.2 (.list fun x hx => ?_)⟩
      rw [List.map_map] at hx
      obtain ⟨a, ha, rfl⟩ := List.mem_map.1 hx
      obtain ⟨i, hi⟩ := List.mem_iff_getElem?.1 ha
      exact .foreign (hparts _ a (.statements hi))
  | branch condition statement otherwise =>
      refine List.forall_mem_cons.2 ⟨.text _, List.forall_mem_cons.2
        ⟨.foreign (hparts _ _ (.condition _ _ _)), List.forall_mem_cons.2
          ⟨.foreign (hparts _ _ (.statement _ _ _)), ?_⟩⟩⟩
      cases otherwise with
      | none => exact legible_of_simple rfl
      | some a => exact List.forall_mem_singleton.2 (.foreign (hparts _ _ (.otherwise _ _ a)))
  | negate operand =>
      cases operand with
      | flag b => exact legible_of_simple rfl
      | node a =>
          exact List.forall_mem_cons.2
            ⟨.text _, List.forall_mem_singleton.2 (.foreign (hparts _ _ (.operand a)))⟩
  | forEach elements execute =>
      exact List.forall_mem_cons.2 ⟨.text _, List.forall_mem_cons.2 ⟨.text _,
        List.forall_mem_singleton.2 (.foreign (hparts _ _ (.execute elements execute)))⟩⟩
  | compare c expected statement ignoreCase =>
      exact List.forall_mem_cons.2 ⟨.text _, List.forall_mem_cons.2 ⟨.text _,
        List.forall_mem_cons.2 ⟨.foreign (hparts _ _ (.compared _ _ _ _)),
          List.forall_mem_singleton.2 (.bool ignoreCase)⟩⟩⟩
  | sleep duration =>
      exact List.forall_mem_cons.2 ⟨.text _, List.forall_mem_singleton.2 (.float hlegible)⟩
  | store items =>
      refine List.forall_mem_cons.2
        ⟨.text _, List.forall_mem_singleton.2 (.mapping fun entry hentry => ?_)⟩
      rw [List.map_map] at hentry
      obtain ⟨⟨name, item⟩, hitem, rfl⟩ := List.mem_map.1 hentry
      cases item with
      | literal v => exact (hlegible name v hitem).mono nofun
      | node a => exact .foreign (hparts _ a (.item hitem))
  | inspect _ element | attributeOf element _ | gesture _ element | input element _
  | press element _ | eval element _ | awaitElement _ element =>
      cases element <;> exact legible_of_simple rfl
  | _ => exact legible_of_simple rfl

/-! ### Literals of forms -/

theorem toList_formLiteral (form : Form Action) (rest : List Char) :
    (formLiteral (form.map literal)).toList ++ rest =
      form.title.toList ++ '(' :: (joined (form.spelled.map fieldLiteral) ++ ')' :: rest) := by
  rw [formLiteral_map, String.toList_append, String.toList_append, String.toList_append,
    List.append_assoc, List.append_assoc, List.append_assoc]
  rfl

theorem opening_formLiteral (form : Form Action) (rest : List Char) :
    Text.opening ((formLiteral (form.map literal)).toList ++ rest) = .title := by
  obtain ⟨hletters, hne⟩ := title_letters form
  rw [toList_formLiteral, opening_letters hletters hne fun c hc => by cases hc; rfl]
  exact if_pos rfl

/-- What holds of the forms that are told by their literals. -/
structure Tellable (known : String → Prop) (form : Form Action) : Prop where
  legal : form.Legal
  legible : form.Legible
  parts : ∀ loc a, form.HasPart loc a → known a.literal

/-- Forms with the same literal are made up alike, as far as the literals of their parts tell. -/
theorem formLiteral_cancel (hknown : Value.Recognizable known) (hform : form.Tellable known)
    (hform' : form'.Tellable known) {rest rest' : List Char}
    (h : (formLiteral (form.map literal)).toList ++ rest =
      (formLiteral (form'.map literal)).toList ++ rest') :
    form.map literal = form'.map literal ∧ rest = rest' := by
  have hbracket (form : Form Action) : '(' ∉ form.title.toList := fun hmem =>
    absurd (List.all_eq_true.1 (title_letters form).1 _ hmem) (by decide)
  have hvalues := legible_spelled hform.legible hform.parts
  have hvalues' := legible_spelled hform'.legible hform'.parts
  rw [toList_formLiteral, toList_formLiteral] at h
  obtain ⟨-, hfields⟩ := append_cons_cancel (hbracket form) (hbracket form') h
  obtain ⟨hspelled, hrests⟩ := joined_cancel
    (fun _ hfield => begins_fieldLiteral (mem_fieldNames hfield))
    (fun _ hfield => begins_fieldLiteral (mem_fieldNames hfield))
    (fun field hfield field' hfield' => separates_fieldLiteral (mem_fieldNames hfield)
      (mem_fieldNames hfield')
      (Value.separates hknown (hvalues field hfield) (hvalues' field' hfield')))
    (closes_cons rfl (by decide) rest) (closes_cons rfl (by decide) rest') hfields
  exact ⟨map_literal_eq_of_spelled_eq hform.legal hform'.legal hspelled, (List.cons.inj hrests).2⟩

end Form

/-! ### Literals of actions -/

namespace Action

open Text

variable {a b : Action}

/-- The values at every position in an action can be told from their literals. -/
def Legible (a : Action) : Prop :=
  ∀ route b, a.At route b → b.form.Legible

theorem Legible.part {loc : List Segment} (hlegible : a.Legible) (hpart : a.form.HasPart loc b) :
    b.Legible :=
  fun route c hat => hlegible (loc :: route) c (.part hpart hat)

theorem Legible.at {route : Route} (hlegible : a.Legible) (hat : a.At route b) : b.Legible := by
  induction hat with
  | here => exact hlegible
  | part hpart _ ih => exact ih (hlegible.part hpart)

/-- The literals of actions below some size. -/
def LiteralBelow (size : Nat) (shown : String) : Prop :=
  ∃ a : Action, a.Sound ∧ a.Legible ∧ sizeOf a < size ∧ a.literal = shown

theorem tellable_below {size : Nat} (hsound : a.Sound) (hlegible : a.Legible)
    (hsize : sizeOf a < size + 1) : a.form.Tellable (LiteralBelow size) where
  legal := hsound [] a (.here a)
  legible := hlegible [] a (.here a)
  parts _ b hpart := by
    have hlt := Nat.lt_trans hpart.sizeOf_lt a.sizeOf_form_lt
    exact ⟨b, hsound.part hpart, hlegible.part hpart, by omega, rfl⟩

/-- Literals of actions can be told apart, by what is known of those of their parts. -/
theorem recognizable_below (size : Nat) : Value.Recognizable (LiteralBelow size) := by
  induction size with
  | zero =>
      have hnone (shown : String) : ¬ LiteralBelow 0 shown :=
        fun ⟨_, _, _, hsize, _⟩ => absurd hsize (Nat.not_lt_zero _)
      exact ⟨fun shown h => absurd h (hnone shown), fun shown _ h => absurd h (hnone shown)⟩
  | succ size ih =>
      refine ⟨?_, ?_⟩
      · rintro _ ⟨a, _, _, _, rfl⟩ rest
        rw [literal_eq]
        exact Form.opening_formLiteral a.form rest
      · rintro _ _ ⟨a, hsound, hlegible, hsize, rfl⟩ ⟨b, hsound', hlegible', hsize', rfl⟩ rest rest'
          _ _ heq
        rw [literal_eq a, literal_eq b] at heq
        obtain ⟨hforms, hrests⟩ := Form.formLiteral_cancel ih (tellable_below hsound hlegible hsize)
          (tellable_below hsound' hlegible' hsize') heq
        rw [literal_eq a, literal_eq b, hforms]
        exact ⟨rfl, hrests⟩

theorem map_literal_eq_of_literal_eq (hsound : a.Sound) (hlegible : a.Legible) (hsound' : b.Sound)
    (hlegible' : b.Legible) (h : a.literal = b.literal) :
    a.form.map literal = b.form.map literal := by
  have hsize : sizeOf a < max (sizeOf a) (sizeOf b) + 1 := by omega
  have hsize' : sizeOf b < max (sizeOf a) (sizeOf b) + 1 := by omega
  rw [literal_eq a, literal_eq b] at h
  exact (Form.formLiteral_cancel (recognizable_below _) (tellable_below hsound hlegible hsize)
    (tellable_below hsound' hlegible' hsize') (congrArg (·.toList ++ []) h)).1

/-- The literal of an action tells what the action is. -/
theorem bare_eq_of_literal_eq (hsound : a.Sound) (hlegible : a.Legible) (hsound' : b.Sound)
    (hlegible' : b.Legible) (h : a.literal = b.literal) : a.bare = b.bare := by
  induction a using induction_parts generalizing b with
  | hstep a ih =>
      have hforms := map_literal_eq_of_literal_eq hsound hlegible hsound' hlegible' h
      have hnonempty : Nonempty Action := ⟨a⟩
      have hbare : a.form.map bare = b.form.map bare := by
        refine Form.map_eq_of_map_eq hforms fun x hx y hy hliteral => ?_
        obtain ⟨loc, hx⟩ := Form.mem_nodes_iff.1 hx
        obtain hy | hy := hy
        · obtain ⟨loc', hy⟩ := Form.mem_nodes_iff.1 hy
          exact ih loc x hx (hsound.part hx) (hlegible.part hx) (hsound.part hy) (hlegible.part hy)
            hliteral
        · obtain ⟨loc', hy⟩ := Form.mem_nodes_iff.1 hy
          exact ih loc x hx (hsound.part hx) (hlegible.part hx) (hsound'.part hy)
            (hlegible'.part hy) hliteral
      rw [bare_eq a, bare_eq b, hbare]

end Action

end Pagescript
