import Pagescript.Proofs.Dump
/-!
# Actions made from data

An action is read from a document, validated by a schema, or put together from fields and actions
that are there already.  Whichever way it was made from data that can be written as JSON, the fields
of every action in it are such as its schema lets through.
-/

namespace Pagescript

/-! ### Values that can be written as JSON -/

namespace Value

theorem isJson_of_mem_list {vs : List Value} (hjson : (Value.list vs).isJson = true) {u : Value}
    (hu : u ∈ vs) : u.isJson = true := by
  rw [isJson] at hjson
  induction vs with
  | nil => cases hu
  | cons v rest ih =>
      rw [allJson, Bool.and_eq_true] at hjson
      obtain rfl | hu := List.mem_cons.1 hu
      · exact hjson.1
      · exact ih hjson.2 hu

theorem isJson_of_mem_mapping {fields : Fields} (hjson : (Value.mapping fields).isJson = true)
    {entry : String × Value} (hentry : entry ∈ fields) : entry.2.isJson = true := by
  rw [isJson] at hjson
  induction fields with
  | nil => cases hentry
  | cons first rest ih =>
      rw [allJsonFields, Bool.and_eq_true] at hjson
      obtain rfl | hentry := List.mem_cons.1 hentry
      · exact hjson.1
      · exact ih hjson.2 hentry

theorem isJson_of_get? {fields : Fields} (hjson : (Value.mapping fields).isJson = true)
    {key : String} {v : Value} (hget : Entries.get? fields key = some v) : v.isJson = true :=
  isJson_of_mem_mapping hjson (Entries.mem_of_get? hget)

end Value

theorem Content.Holds.isJson {content : Content} {v u : Value} {loc : List Segment}
    (hu : content.Holds v loc u) (hjson : v.isJson = true) : u.isJson = true := by
  induction hu with
  | action | operand => exact hjson
  | actions hu => exact Value.isJson_of_mem_list hjson (List.mem_of_getElem? hu)
  | items hu => exact Value.isJson_of_mem_mapping hjson hu
  | orNull _ _ ih => exact ih hjson

theorem Kind.Holds.isJson {k : Kind} {fields : Fields} {u : Value} {loc : List Segment}
    (hu : k.Holds fields loc u) (hjson : (Value.mapping fields).isJson = true) :
    u.isJson = true := by
  cases hu with
  | field _ _ hv hu => exact hu.isJson (Value.isJson_of_get? hjson hv)

theorem Registry.ActionAt.isJson {registry : Registry} {v u : Value} {route : Route}
    (hat : registry.ActionAt v route u) (hjson : v.isJson = true) : u.isJson = true := by
  induction hat with
  | here v => exact hjson
  | part _ _ hpart _ ih => exact ih (hpart.isJson hjson)

/-! ### What is read is legal -/

namespace Reader

variable {v : Value}

theorem readable_of_referenceText {name : String} (hread : referenceText v = .valid name) :
    Readable name := by
  obtain ⟨s, rfl, named, hnamed, rfl⟩ := isValid_referenceText.1 ⟨name, hread⟩
  obtain rfl := reference_inj (eq_reference_of_referenceText hread)
  exact hnamed

theorem zero_le_of_notBelowZero {o : Option Binary64} {x : Binary64}
    (hread : notBelowZero o = .valid x) : Binary64.zero.le x = true := by
  unfold notBelowZero at hread
  split at hread
  next y =>
    split at hread
    next hle =>
      cases hread
      exact hle
    next => cases hread
  next => cases hread

theorem zero_le_of_duration {x : Binary64} (hread : duration v = .valid x) :
    Binary64.zero.le x = true := by
  cases v with
  | int _ | float _ =>
      rw [duration] at hread
      exact zero_le_of_notBelowZero hread
  | _ => cases hread

theorem ne_empty_of_nonemptyText {s : String} (hread : nonemptyText v = .valid s) : s ≠ "" := by
  obtain ⟨s', rfl, hs⟩ := isValid_nonemptyText.1 ⟨s, hread⟩
  simp only [nonemptyText] at hread
  split at hread
  · cases hread
  · cases hread
    exact hs

end Reader

namespace Form

open Reader

variable {α : Type} {node : Reader α} {k : Kind} {fields : Fields} {form : Form α}

theorem item_eq_literal {u v : Value} (hread : item node u = .valid (.literal v)) :
    u = v ∧ ∀ inner, v ≠ .mapping inner := by
  cases u with
  | mapping inner =>
      obtain ⟨b, -, heq⟩ := Check.map_eq_valid_iff.1 hread
      cases heq
  | _ =>
      cases hread
      exact ⟨rfl, nofun⟩

theorem legal_of_read_store {items : List (String × Item α)}
    (hread : read node .store fields = .valid (.store items))
    (hjson : (Value.mapping fields).isJson = true) : (Form.store items).Legal := by
  obtain ⟨_, heq, hitems⟩ := read_store hread
  cases heq
  obtain ⟨-, rfl⟩ | ⟨v, hv, hmapping⟩ := withDefault_eq_valid_iff.1 hitems
  · exact ⟨.nil, fun _ _ hmem => absurd hmem List.not_mem_nil⟩
  obtain ⟨entries, items, rfl, rfl, hall⟩ := forall₂_of_mappingOf hmapping
  refine ⟨Entries.nodup_ofList items, fun name v hmem => ?_⟩
  obtain ⟨i, hi⟩ := List.mem_iff_getElem?.1 (Entries.mem_of_mem_ofList hmem)
  obtain ⟨⟨name, u⟩, hentry, rfl, hitem⟩ := exists_getElem?_of_forall₂ hall.flip hi
  obtain ⟨rfl, hplain⟩ := item_eq_literal hitem
  have hentries := Value.isJson_of_get? hjson hv
  exact ⟨Value.isJson_of_mem_mapping hentries (List.mem_of_getElem? hentry), hplain⟩

theorem legal_of_read (hread : read node k fields = .valid form)
    (hjson : (Value.mapping fields).isJson = true) : form.Legal := by
  have hkind := kind?_of_read hread
  cases form with
  | call name => cases hkind
  | press element key =>
      cases hkind
      obtain ⟨_, _, -, -, hbody, heq, -⟩ := ofElementKind_eq_valid_iff.1 hread
      obtain ⟨_, hkey, rfl⟩ := Check.map_eq_valid_iff.1 hbody
      cases heq
      obtain ⟨v, -, hkey⟩ := required_eq_valid_iff.1 hkey
      exact ne_empty_of_nonemptyText hkey
  | sleep seconds =>
      cases hkind
      obtain ⟨-, hbody, -⟩ := ofKind_eq_valid_iff.1 hread
      obtain ⟨_, hseconds, heq⟩ := Check.map_eq_valid_iff.1 hbody
      cases heq
      obtain ⟨v, -, hseconds⟩ := required_eq_valid_iff.1 hseconds
      exact zero_le_of_duration hseconds
  | logStore name =>
      cases hkind
      obtain ⟨-, hbody, -⟩ := ofKind_eq_valid_iff.1 hread
      obtain ⟨_, hname, heq⟩ := Check.map_eq_valid_iff.1 hbody
      cases heq
      obtain ⟨v, -, hname⟩ := required_eq_valid_iff.1 hname
      exact readable_of_referenceText hname
  | store items =>
      cases hkind
      exact legal_of_read_store hread hjson
  | _ => trivial

end Form

theorem Schema.legal_of_read {α : Type} {node : Reader α} {schema : Schema} {fields : Fields}
    {form : Form α} (hread : schema.read node fields = .valid (some form))
    (hjson : (Value.mapping fields).isJson = true) : form.Legal := by
  obtain ⟨k, rfl, hform⟩ | ⟨rfl, name, rfl, hname⟩ := read_cases hread
  · exact Form.legal_of_read hform hjson
  · obtain ⟨_, _, hcall, -, -⟩ := Check.seq_eq_valid_iff.1 hread
    obtain ⟨read, href, -⟩ := Check.map_eq_valid_iff.1 hcall
    obtain ⟨v, hv, href⟩ := Reader.required_eq_valid_iff.1 href
    cases hname.symm.trans hv
    obtain rfl := reference_inj (Reader.eq_reference_of_referenceText href)
    exact Reader.readable_of_referenceText href

/-! ### Actions made from data -/

/-- An action is read or validated from a value that can be written as JSON, or put together from
fields that pass their checks and actions that are made so. -/
inductive Action.Made : Action → Prop where
  | parsed {registry : Registry} {v : Value} {a : Action} (hjson : v.isJson = true)
    (hparse : registry.parseAction v = .ok a) : Made a
  | validated {registry : Registry} {schema : Schema} {v : Value} {a : Action}
    (hjson : v.isJson = true) (hvalid : schema.validate registry v = .ok a) : Made a
  | constructed {form : Form Action} (hlegal : form.Legal)
    (hparts : ∀ loc b, form.HasPart loc b → Made b) : Made (.node none form)

namespace Action

variable {a : Action}

/-- The fields at every position in an action pass their checks. -/
def Sound (a : Action) : Prop :=
  ∀ route b, a.At route b → b.form.Legal

theorem Sound.part {b : Action} {loc : List Segment} (hsound : a.Sound)
    (hpart : a.form.HasPart loc b) : b.Sound :=
  fun route c hat => hsound (loc :: route) c (.part hpart hat)

theorem Sound.at {b : Action} {route : Route} (hsound : a.Sound) (hat : a.At route b) : b.Sound := by
  induction hat with
  | here => exact hsound
  | part hpart _ ih => exact ih (hsound.part hpart)

theorem sound_of_parts (hlegal : a.form.Legal) (hparts : ∀ loc b, a.form.HasPart loc b → b.Sound) :
    a.Sound := by
  intro route b hat
  cases hat with
  | here => exact hlegal
  | part hpart hinner => exact hparts _ _ hpart _ _ hinner

theorem sound_of_parse {registry : Registry} {v : Value} (hjson : v.isJson = true)
    (hparse : registry.parseAction v = .ok a) : a.Sound := by
  intro route b hat
  obtain ⟨u, left, hu, -, hread⟩ := Registry.exists_actionAt_of_at hparse hat
  obtain ⟨fields, _, schema, form, rfl, -, -, hform, rfl⟩ :=
    Registry.parseWithin_succ_eq_ok_iff.1 hread
  exact Schema.legal_of_read hform (hu.isJson hjson)

theorem sound_of_validate {registry : Registry} {schema : Schema} {v : Value}
    (hjson : v.isJson = true) (hvalid : schema.validate registry v = .ok a) : a.Sound := by
  obtain ⟨fields, form, rfl, hread, rfl⟩ : ∃ fields form, v = .mapping fields ∧
      schema.read registry.node fields = .valid (some form) ∧ a = .node none form := by
    unfold Schema.validate at hvalid
    split at hvalid
    next fields =>
      split at hvalid
      next form hread =>
        cases hvalid
        exact ⟨fields, form, rfl, hread, rfl⟩
      · cases hvalid
      · cases hvalid
    next => cases hvalid
  refine sound_of_parts (Schema.legal_of_read hread hjson) fun loc b hpart => ?_
  obtain ⟨k, rfl, hform⟩ | ⟨-, name, rfl, -⟩ := Schema.read_cases hread
  · obtain ⟨u, hu, hnode⟩ := Form.exists_holds_of_hasPart hform hpart
    exact sound_of_parse (hu.isJson hjson) (Registry.nodeWithin_eq_valid_iff.1 hnode)
  · cases hpart

theorem Made.sound (hmade : a.Made) : a.Sound := by
  induction hmade with
  | parsed hjson hparse => exact sound_of_parse hjson hparse
  | validated hjson hvalid => exact sound_of_validate hjson hvalid
  | constructed hlegal _ ih => exact sound_of_parts hlegal ih

end Action

end Pagescript
