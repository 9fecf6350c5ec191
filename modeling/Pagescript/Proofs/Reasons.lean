import Pagescript.Proofs.Positions
/-!
# Reasons of complaints

All that is found wrong with the mapping of an action has a reason: the mapping does not have the
fields that its schema asks for, or one of its parts is refused.  So what a refusal speaks of can be
followed from the outermost action to the place where it comes from.
-/

namespace Pagescript

/-- The mapping has the fields that the schema asks for.  What its parts are does not matter. -/
inductive Schema.Fits (fields : Fields) : Schema → Prop where
  | kind {k : Kind} (hname : Entries.get? fields "action" = some (.text k.name))
    (hknown : ∀ entry ∈ fields, entry.1 ∈ k.fieldNames)
    (hrules : ∀ rule ∈ k.rules, rule.Kept (fun _ => True) fields) : Fits fields (.kind k)
  | call {s : String} (hname : Entries.get? fields "action" = some (.text s)) (hs : IsReference s)
    (hknown : ∀ entry ∈ fields, entry.1 = "action") : Fits fields .call

theorem Content.Allows.mono {inner inner' : Value → Prop} {content : Content} {v : Value}
    (hallows : content.Allows inner v) (hinner : ∀ u, inner u → inner' u) :
    content.Allows inner' v := by
  induction content with
  | text | nonemptyText | reference | duration | flag => exact hallows
  | action => exact hinner v hallows
  | actions =>
      obtain ⟨vs, rfl, hall⟩ := hallows
      exact ⟨vs, rfl, fun u hu => hinner u (hall u hu)⟩
  | operand => exact hallows.imp_right (hinner v)
  | items =>
      obtain ⟨entries, rfl, hall⟩ := hallows
      exact ⟨entries, rfl, fun entry hentry fields hfields =>
        hinner _ (hall entry hentry fields hfields)⟩
  | orNull content ih => exact hallows.imp_right ih

theorem Schema.fits_of_read {α : Type} {node : Reader α} {schema : Schema} {fields : Fields}
    {kind : String} {form : Form α} (hkind : Entries.get? fields "action" = some (.text kind))
    (hread : schema.read node fields = .valid (some form)) : schema.Fits fields := by
  obtain ⟨k, rfl, hform⟩ | ⟨rfl, name, rfl, -⟩ := read_cases hread
  · obtain ⟨hname, hrules, hknown⟩ := Form.isValid_read.1 ⟨form, hform⟩
    refine .kind ?_ hknown fun rule hrule => ?_
    · rw [hkind, Form.isValid_literalName.1 hname _ hkind]
    · obtain ⟨hneeded, honce, hallowed⟩ := hrules rule hrule
      exact ⟨hneeded, honce,
        fun name hname v hv => (hallowed name hname v hv).mono fun _ _ => trivial⟩
  · obtain ⟨⟨s, hs, href⟩, hknown⟩ := exists_read_call_iff.1 ⟨_, hread⟩
    exact .call hs href hknown

/-! ### Checks that fail -/

namespace Check

variable {α β : Type} {P Q : Complaint → Prop} {c : Check α}

/-- If the check fails it finds something, and all that it finds is of one sort. -/
def Explained (P : Complaint → Prop) (c : Check α) : Prop :=
  ∀ issues, c = .invalid issues → issues ≠ [] ∧ ∀ issue ∈ issues, P issue.complaint

theorem explained_of_isValid (hc : c.IsValid) : c.Explained P := by
  rintro issues rfl
  exact absurd hc (not_isValid_invalid issues)

theorem explained_fail {complaint : Complaint} (hP : P complaint) :
    (fail complaint : Check α).Explained P := by
  intro issues hfail
  cases hfail
  refine ⟨List.cons_ne_nil _ _, ?_⟩
  intro issue hissue
  rw [List.mem_singleton.1 hissue]
  exact hP

theorem Explained.mono (hc : c.Explained P) (hPQ : ∀ complaint, P complaint → Q complaint) :
    c.Explained Q := by
  intro issues hinvalid
  obtain ⟨hnil, hissues⟩ := hc issues hinvalid
  exact ⟨hnil, fun issue hissue => hPQ _ (hissues issue hissue)⟩

theorem Explained.map (hc : c.Explained P) (f : α → β) : (f <$> c).Explained P := by
  intro issues hinvalid
  cases c with
  | valid a => cases hinvalid
  | invalid found =>
      cases hinvalid
      exact hc issues rfl

theorem Explained.seq {f : Check (α → β)} (hf : f.Explained P) (hc : c.Explained P) :
    (f <*> c).Explained P := by
  intro issues hinvalid
  cases f with
  | valid g => exact hc.map g issues hinvalid
  | invalid found =>
      obtain ⟨hnil, hfound⟩ := hf found rfl
      cases c with
      | valid a =>
          cases hinvalid
          exact ⟨hnil, hfound⟩
      | invalid more =>
          cases hinvalid
          refine ⟨List.append_ne_nil_of_left_ne_nil hnil _, ?_⟩
          intro issue hissue
          obtain hissue | hissue := List.mem_append.1 hissue
          · exact hfound issue hissue
          · exact (hc more rfl).2 issue hissue

theorem Explained.seqLeft {d : Check β} (hc : c.Explained P) (hd : d.Explained P) :
    (c <* d).Explained P :=
  (hc.map (Function.const β)).seq hd

theorem Explained.under (hc : c.Explained P) (segment : Segment) :
    (c.under segment).Explained P := by
  intro issues hinvalid
  cases c with
  | valid a => cases hinvalid
  | invalid found =>
      cases hinvalid
      obtain ⟨hnil, hfound⟩ := hc found rfl
      refine ⟨fun hmap => hnil (List.map_eq_nil_iff.1 hmap), ?_⟩
      intro issue hissue
      obtain ⟨inner, hinner, rfl⟩ := List.mem_map.1 hissue
      exact hfound inner hinner

end Check

namespace Reader

open Check

variable {α : Type} {reader : Reader α} {P : Complaint → Prop} {v : Value} {fields : Fields}

theorem explained_items {vs : List Value} (hvs : ∀ v ∈ vs, (reader v).Explained P) (start : Nat) :
    (items reader start vs).Explained P := by
  induction vs generalizing start with
  | nil => exact explained_of_isValid (isValid_valid _)
  | cons v rest ih =>
      have hhead := (hvs v List.mem_cons_self).under (.index start)
      have hrest := ih (fun u hu => hvs u (List.mem_cons_of_mem _ hu)) (start + 1)
      exact (hhead.map List.cons).seq hrest

theorem explained_entries (hfields : ∀ entry ∈ fields, (reader entry.2).Explained P) :
    (entries reader fields).Explained P := by
  induction fields with
  | nil => exact explained_of_isValid (isValid_valid _)
  | cons entry rest ih =>
      obtain ⟨key, v⟩ := entry
      have hhead := ((hfields (key, v) List.mem_cons_self).under (.key key)).map (key, ·)
      have hrest := ih fun entry hentry => hfields entry (List.mem_cons_of_mem _ hentry)
      exact (hhead.map List.cons).seq hrest

theorem explained_listOf {form : Notation} (hother : (∀ vs, v ≠ .list vs) → P (.notList form))
    (hlist : ∀ vs, v = .list vs → ∀ u ∈ vs, (reader u).Explained P) :
    (listOf form reader v).Explained P := by
  cases v with
  | list vs => exact explained_items (hlist vs rfl) 0
  | _ => exact explained_fail (hother fun vs hvs => by cases hvs)

theorem explained_mappingOf {form : Notation}
    (hother : (∀ entries, v ≠ .mapping entries) → P (.notMapping form))
    (hmapping : ∀ entries, v = .mapping entries →
      ∀ entry ∈ entries, (reader entry.2).Explained P) :
    (mappingOf form reader v).Explained P := by
  cases v with
  | mapping entries => exact (explained_entries (hmapping entries rfl)).map Entries.ofList
  | _ => exact explained_fail (hother fun entries hentries => by cases hentries)

theorem explained_withDefault {key : String} {default : α}
    (hread : ∀ v, Entries.get? fields key = some v → (reader v).Explained P) :
    (withDefault fields key default reader).Explained P := by
  unfold withDefault
  split
  next v hv => exact (hread v hv).under (.key key)
  · exact explained_of_isValid (isValid_valid _)

theorem explained_required {key : String} (hmissing : Entries.get? fields key = none → P .missing)
    (hread : ∀ v, Entries.get? fields key = some v → (reader v).Explained P) :
    (required fields key reader).Explained P := by
  unfold required
  split
  next v hv => exact (hread v hv).under (.key key)
  next hnone => exact (explained_fail (hmissing hnone)).under (.key key)

theorem explained_onlyFields {known : List String}
    (hextra : (∃ entry ∈ fields, entry.1 ∉ known) → P .unexpected) :
    (onlyFields fields known).Explained P := by
  intro issues hinvalid
  have hunknown : ∃ entry ∈ fields, entry.1 ∉ known := by
    by_contra hnone
    push Not at hnone
    exact not_isValid_invalid issues (hinvalid ▸ isValid_onlyFields.2 hnone)
  unfold onlyFields at hinvalid
  split at hinvalid
  · cases hinvalid
  next hfilter =>
    cases hinvalid
    refine ⟨fun hmap => hfilter (List.map_eq_nil_iff.1 hmap), ?_⟩
    intro issue hissue
    obtain ⟨entry, -, rfl⟩ := List.mem_map.1 hissue
    exact hextra hunknown

end Reader

/-! ### Reasons -/

/-- Reads an action where `parse` does; a refusal is the only issue. -/
def Reader.ofParse {α : Type} (parse : Value → Except ParseError α) : Reader α := fun v =>
  match parse v with
  | .ok a => .valid a
  | .error e => .invalid [e.toIssue]

/-- Why there is a complaint: something is not as it should be, or a part is refused. -/
inductive Reason {α : Type} (parse : Value → Except ParseError α) (fits : Prop)
    (part : Value → Prop) : Complaint → Prop where
  | own {complaint : Complaint} (hfits : ¬ fits)
    (hcode : ParseError.codeOf complaint = .malformedAction) : Reason parse fits part complaint
  | part {u : Value} {e : ParseError} (hu : part u) (hparse : parse u = .error e) :
    Reason parse fits part (.nested e.code e.message)

section Reasons

open Check Reader

variable {α β : Type} {parse : Value → Except ParseError α} {fits fits' : Prop}
  {part part' : Value → Prop} {fields : Fields}

theorem Reason.mono {complaint : Complaint} (hreason : Reason parse fits part complaint)
    (hfits : fits' → fits) (hpart : ∀ u, part u → part' u) :
    Reason parse fits' part' complaint := by
  cases hreason with
  | own hnot hcode => exact .own (fun hfits' => hnot (hfits hfits')) hcode
  | part hu hparse => exact .part (hpart _ hu) hparse

theorem explained_ofParse {u : Value} (hu : part u) :
    (ofParse parse u).Explained (Reason parse fits part) := by
  intro issues hinvalid
  unfold ofParse at hinvalid
  split at hinvalid
  · cases hinvalid
  next e hparse =>
    cases hinvalid
    refine ⟨List.cons_ne_nil _ _, ?_⟩
    intro issue hissue
    rw [List.mem_singleton.1 hissue]
    exact .part hu hparse

/-- All that a reader finds wrong with what a field holds has a reason. -/
def Explains (parse : Value → Except ParseError α) (reader : Reader β) (content : Content) : Prop :=
  ∀ v, (reader v).Explained
    (Reason parse (content.Allows (fun _ => True) v) fun u => ∃ loc, content.Holds v loc u)

namespace Explains

variable {reader : Reader β} {content : Content}

/-- A reader that reads no actions only has complaints of its own. -/
theorem of_plain (hplain : ∀ v, (reader v).Explained (ParseError.codeOf · = .malformedAction))
    (hvalid : ∀ v, content.Allows (fun _ => True) v → (reader v).IsValid) :
    Explains parse reader content := by
  intro v issues hinvalid
  obtain ⟨hnil, hissues⟩ := hplain v issues hinvalid
  have hnot : ¬ content.Allows (fun _ => True) v := fun hallows =>
    not_isValid_invalid issues (hinvalid ▸ hvalid v hallows)
  exact ⟨hnil, fun issue hissue => .own hnot (hissues issue hissue)⟩

theorem plainText (parse : Value → Except ParseError α) : Explains parse text .text := by
  refine of_plain (fun v => ?_) fun v => isValid_text.2
  cases v with
  | text s => exact explained_of_isValid (isValid_valid s)
  | _ => exact explained_fail rfl

theorem nonempty (parse : Value → Except ParseError α) :
    Explains parse nonemptyText .nonemptyText := by
  refine of_plain (fun v => ?_) fun v => isValid_nonemptyText.2
  cases v with
  | text s =>
      simp only [nonemptyText]
      split
      · exact explained_fail rfl
      · exact explained_of_isValid (isValid_valid s)
  | _ => exact explained_fail rfl

theorem referring (parse : Value → Except ParseError α) :
    Explains parse referenceText .reference := by
  refine of_plain (fun v => ?_) fun v => isValid_referenceText.2
  cases v with
  | text s =>
      simp only [referenceText]
      split
      · split
        · exact explained_fail rfl
        · exact explained_of_isValid (isValid_valid _)
      · exact explained_fail rfl
  | _ => exact explained_fail rfl

theorem seconds (parse : Value → Except ParseError α) : Explains parse duration .duration := by
  have hnumber (x : Option Binary64) :
      (notBelowZero x).Explained (ParseError.codeOf · = .malformedAction) := by
    cases x with
    | none => exact explained_fail rfl
    | some x =>
        simp only [notBelowZero]
        split
        · exact explained_of_isValid (isValid_valid x)
        · exact explained_fail rfl
  refine of_plain (fun v => ?_) fun v => isValid_duration.2
  cases v with
  | int i => exact hnumber (Binary64.ofInt? i)
  | float x => exact hnumber (some x)
  | _ => exact explained_fail rfl

theorem truth (parse : Value → Except ParseError α) : Explains parse flag .flag := by
  have hnumber (i : Int) :
      (numberFlag i).Explained (ParseError.codeOf · = .malformedAction) := by
    unfold numberFlag
    split
    · exact explained_of_isValid (isValid_valid false)
    · split
      · exact explained_of_isValid (isValid_valid true)
      · exact explained_fail rfl
  refine of_plain (fun v => ?_) fun v => isValid_flag.2
  cases v with
  | bool b => exact explained_of_isValid (isValid_valid b)
  | int i =>
      simp only [flag]
      split
      · exact hnumber i
      · exact explained_fail rfl
  | float x =>
      cases x with
      | finite negative units =>
          simp only [flag]
          split
          · exact hnumber _
          · exact explained_fail rfl
      | _ => exact explained_fail rfl
  | text s =>
      simp only [flag]
      split
      · exact explained_of_isValid (isValid_valid _)
      · exact explained_fail rfl
  | _ => exact explained_fail rfl

theorem action (parse : Value → Except ParseError α) : Explains parse (ofParse parse) .action :=
  fun v => explained_ofParse ⟨[], .action v⟩

theorem actions (parse : Value → Except ParseError α) :
    Explains parse (listOf .value (ofParse parse)) .actions := by
  intro v
  apply explained_listOf
  · intro hother
    refine .own ?_ rfl
    rintro ⟨vs, hvs, -⟩
    exact hother vs hvs
  · rintro vs rfl u hu
    obtain ⟨i, hi⟩ := List.mem_iff_getElem?.1 hu
    exact explained_ofParse ⟨_, .actions hi⟩

theorem operand (parse : Value → Except ParseError α) :
    Explains parse (Form.operand (ofParse parse)) .operand := by
  intro v
  have hnode (hv : ∀ b, v ≠ .bool b) :
      (Operand.node <$> ofParse parse v).Explained
        (Reason parse (Content.operand.Allows (fun _ => True) v)
          fun u => ∃ loc, Content.operand.Holds v loc u) :=
    (explained_ofParse ⟨[], .operand hv⟩).map Operand.node
  cases v with
  | bool b => exact explained_of_isValid (isValid_valid _)
  | _ => exact hnode fun b hb => by cases hb

theorem items (parse : Value → Except ParseError α) :
    Explains parse (mappingOf .value (Form.item (ofParse parse))) .items := by
  intro v
  apply explained_mappingOf
  · intro hother
    refine .own ?_ rfl
    rintro ⟨entries, hentries, -⟩
    exact hother entries hentries
  · rintro entries rfl ⟨name, v⟩ hentry
    cases v with
    | mapping inner => exact (explained_ofParse ⟨_, .items hentry⟩).map Item.node
    | _ => exact explained_of_isValid (isValid_valid _)

theorem orNull (hreader : Explains parse reader content) :
    Explains parse (nullable reader) (.orNull content) := by
  intro v
  by_cases hv : v = .null
  · subst hv
    exact explained_of_isValid (isValid_valid none)
  · have hsome : nullable reader v = some <$> reader v := by
      unfold nullable
      split
      · exact absurd rfl hv
      · rfl
    rw [hsome]
    refine ((hreader v).mono fun complaint hreason => ?_).map some
    refine hreason.mono (fun hallows => hallows.resolve_left hv) ?_
    rintro u ⟨loc, hu⟩
    exact ⟨loc, .orNull hv hu⟩

end Explains

/-- A complaint about the fields of a kind has a reason. -/
abbrev Kind.Cause (parse : Value → Except ParseError α) (k : Kind) (fields : Fields) :
    Complaint → Prop :=
  Reason parse ((Schema.kind k).Fits fields) fun u => ∃ loc, k.Holds fields loc u

namespace Kind

variable {k : Kind} {name : String} {content : Content} {reader : Reader β}

theorem explained_field {rule : FieldRule} {v : Value} (hrule : rule ∈ k.rules)
    (hname : name ∈ rule.names) (hreader : Explains parse reader rule.content)
    (hv : Entries.get? fields name = some v) : (reader v).Explained (k.Cause parse fields) := by
  refine (hreader v).mono fun complaint hreason => hreason.mono ?_ ?_
  · intro hfits
    cases hfits with
    | kind _ _ hrules => exact (hrules rule hrule).allowed name hname v hv
  · rintro u ⟨loc, hu⟩
    exact ⟨_, .field hrule hname hv hu⟩

theorem explained_may {rule : FieldRule} {default : β} (hrule : rule ∈ k.rules)
    (hname : name ∈ rule.names) (hreader : Explains parse reader rule.content) :
    (withDefault fields name default reader).Explained (k.Cause parse fields) :=
  explained_withDefault fun _ hv => explained_field hrule hname hreader hv

theorem explained_need (hrule : .need name content ∈ k.rules)
    (hreader : Explains parse reader content) :
    (required fields name reader).Explained (k.Cause parse fields) := by
  apply explained_required
  · intro hnone
    refine .own ?_ rfl
    intro hfits
    cases hfits with
    | kind _ _ hrules =>
        obtain ⟨v, hv, -⟩ := FieldRule.kept_need.1 (hrules _ hrule)
        rw [hnone] at hv
        cases hv
  · intro v hv
    exact explained_field hrule List.mem_cons_self hreader hv

theorem explained_literalName :
    (Form.literalName k fields).Explained (k.Cause parse fields) := by
  apply explained_withDefault
  intro v hv
  by_cases hname : v = .text k.name
  · exact explained_of_isValid (isValid_literal.2 hname)
  · have hnot : ¬ (Schema.kind k).Fits fields := by
      intro hfits
      cases hfits with
      | kind hkind => exact hname (Option.some.inj (hv.symm.trans hkind))
    cases v with
    | text s =>
        have hs : s ≠ k.name := fun hs => hname (hs ▸ rfl)
        simp only [literal, if_neg hs]
        exact explained_fail (.own hnot rfl)
    | _ => exact explained_fail (.own hnot rfl)

theorem explained_known {known : List String}
    (hknown : (Schema.kind k).Fits fields → ∀ entry ∈ fields, entry.1 ∈ known) :
    (onlyFields fields known).Explained (k.Cause parse fields) := by
  apply explained_onlyFields
  rintro ⟨entry, hentry, hextra⟩
  exact .own (fun hfits => hextra (hknown hfits entry hentry)) rfl

theorem explained_ofKind {own : List String} {body : Check (Form α)}
    (hknown : (Schema.kind k).Fits fields → ∀ entry ∈ fields, entry.1 ∈ "action" :: own)
    (hbody : body.Explained (k.Cause parse fields)) :
    (Form.ofKind k fields own body).Explained (k.Cause parse fields) :=
  ((explained_literalName.map _).seq hbody).seq (explained_known hknown)

theorem explained_ofElementKind {own : List String} {body : Check (Option String → Form α)}
    (hrule : .element ∈ k.rules) (hown : "action" :: "element" :: own = k.fieldNames)
    (hbody : body.Explained (k.Cause parse fields)) :
    (Form.ofElementKind k fields own body).Explained (k.Cause parse fields) := by
  have helement : (withDefault fields "element" none (nullable text)).Explained
      (k.Cause parse fields) :=
    explained_may hrule List.mem_cons_self (Explains.plainText parse).orNull
  refine (((helement.map _).seq explained_literalName).seq hbody).seq (explained_known ?_)
  intro hfits entry hentry
  cases hfits with
  | kind _ hknown =>
      have hmem := hknown entry hentry
      rw [← hown] at hmem
      simpa only [List.mem_cons, or_left_comm] using hmem

theorem known_of_fits {known : List String} (hknown : known = k.fieldNames)
    (hfits : (Schema.kind k).Fits fields) : ∀ entry ∈ fields, entry.1 ∈ known := by
  cases hfits with
  | kind _ hfields => exact hknown ▸ hfields

end Kind

open Kind in
/-- All that is found wrong when the fields of a kind are read has a reason. -/
theorem Form.explained_read (parse : Value → Except ParseError α) (k : Kind) (fields : Fields) :
    (read (ofParse parse) k fields).Explained (k.Cause parse fields) := by
  have htext {k : Kind} {name : String} (hrule : .need name .text ∈ k.rules) :
      (required fields name text).Explained (k.Cause parse fields) :=
    explained_need hrule (.plainText parse)
  have haction {k : Kind} {name : String} (hrule : .need name .action ∈ k.rules) :
      (required fields name (ofParse parse)).Explained (k.Cause parse fields) :=
    explained_need hrule (.action parse)
  have hnone {k : Kind} {form : Option String → Form α} :
      (pure form : Check _).Explained (k.Cause parse fields) :=
    explained_of_isValid (isValid_pure form)
  cases k with
  | inspect | gesture | awaitElement =>
      exact explained_ofElementKind (by simp [Kind.rules]) rfl hnone
  | attributeOf | input | eval =>
      refine explained_ofElementKind (by simp [Kind.rules]) rfl (Explained.map ?_ _)
      exact htext (by simp [Kind.rules])
  | press =>
      refine explained_ofElementKind (by simp [Kind.rules]) rfl (Explained.map ?_ _)
      exact explained_need (by simp [Kind.rules]) (.nonempty parse)
  | has | navigate | log | error =>
      refine explained_ofKind (known_of_fits rfl) (Explained.map ?_ _)
      exact htext (by simp [Kind.rules])
  | sequence =>
      refine explained_ofKind (known_of_fits rfl) (Explained.map ?_ _)
      exact explained_need (by simp [Kind.rules]) (.actions parse)
  | branch =>
      refine explained_ofKind (known_of_fits rfl) (((Explained.map ?_ _).seq ?_).seq ?_)
      · exact haction (by simp [Kind.rules])
      · exact haction (by simp [Kind.rules])
      · have hrule : .may "otherwise" (.orNull .action) ∈ Kind.branch.rules := by simp [Kind.rules]
        exact explained_may hrule List.mem_cons_self (Explains.action parse).orNull
  | negate =>
      refine explained_ofKind (known_of_fits rfl) (Explained.map ?_ _)
      exact explained_need (by simp [Kind.rules]) (.operand parse)
  | forEach =>
      refine explained_ofKind (known_of_fits rfl) ((Explained.map ?_ _).seq ?_)
      · exact htext (by simp [Kind.rules])
      · exact haction (by simp [Kind.rules])
  | compare c =>
      have hrules : (Kind.compare c).rules =
          [.need c.expectedField .text, .need "statement" .action, .ignoreCase] := by
        cases c <;> rfl
      have hcase : .ignoreCase ∈ (Kind.compare c).rules := by simp [hrules]
      refine explained_ofKind ?_ (((Explained.map ?_ _).seq ?_).seq ?_)
      · -- of the two names of the flag only the one that is read is known
        intro hfits
        cases hfits with
        | kind _ hknown hkept =>
            have hown : ∀ name ∈ FieldRule.ignoreCase.names,
                name ∉ ["action", c.expectedField, "statement"] := by
              cases c <;> decide
            have hnames : (Kind.compare c).fieldNames =
                ["action", c.expectedField, "statement"] ++ FieldRule.ignoreCase.names := by
              cases c <;> rfl
            exact (knows_caseField_iff hown).2
              ⟨(kept_ignoreCase_iff.1 (hkept _ hcase)).2, hnames ▸ hknown⟩
      · exact htext (by simp [hrules])
      · exact haction (by simp [hrules])
      · exact explained_may hcase caseField_mem (.truth parse)
  | sleep =>
      refine explained_ofKind (known_of_fits rfl) (Explained.map ?_ _)
      exact explained_need (by simp [Kind.rules]) (.seconds parse)
  | awaitPage =>
      exact explained_ofKind (known_of_fits rfl) (explained_of_isValid (isValid_pure _))
  | store =>
      refine explained_ofKind (known_of_fits rfl) (Explained.map ?_ _)
      have hrule : .may "items" .items ∈ Kind.store.rules := by simp [Kind.rules]
      exact explained_may hrule List.mem_cons_self (.items parse)
  | logStore =>
      refine explained_ofKind (known_of_fits rfl) (Explained.map ?_ _)
      exact explained_need (by simp [Kind.rules]) (.referring parse)

/-- The parts of a mapping that is read by a schema. -/
def Schema.Part (schema : Schema) (fields : Fields) (u : Value) : Prop :=
  ∃ k loc, schema = .kind k ∧ k.Holds fields loc u

theorem Schema.explained_read (parse : Value → Except ParseError α) (schema : Schema)
    (fields : Fields) :
    (schema.read (ofParse parse) fields).Explained
      (Reason parse (schema.Fits fields) (schema.Part fields)) := by
  cases schema with
  | kind k =>
      refine ((Form.explained_read parse k fields).mono fun complaint hreason => ?_).map some
      exact hreason.mono id fun u ⟨loc, hu⟩ => ⟨k, loc, rfl, hu⟩
  | call =>
      refine (Explained.map (explained_required ?_ ?_) _).seq (explained_onlyFields ?_)
      · intro hnone
        refine .own (fun hfits => ?_) rfl
        cases hfits with
        | call hname =>
            rw [hnone] at hname
            cases hname
      · intro v hv
        refine (Explains.referring parse v).mono fun complaint hreason => hreason.mono ?_ ?_
        · intro hfits
          cases hfits with
          | call hname hs => exact ⟨_, Option.some.inj (hv.symm.trans hname), hs⟩
        · rintro u ⟨loc, hu⟩
          cases hu
      · rintro ⟨entry, hentry, hextra⟩
        refine .own (fun hfits => ?_) rfl
        cases hfits with
        | call _ _ hknown => exact hextra (List.mem_singleton.2 (hknown entry hentry))
  | base =>
      have hnot : ¬ Schema.base.Fits fields := by rintro ⟨⟩
      exact (explained_onlyFields fun _ => .own hnot rfl).map _
  | element =>
      have hnot : ¬ Schema.element.Fits fields := by rintro ⟨⟩
      refine (Explained.map (explained_withDefault fun v hv => ?_) _).seq
        (explained_onlyFields fun _ => .own hnot rfl)
      refine ((Explains.plainText parse).orNull v).mono fun complaint hreason =>
        hreason.mono (fun hfits => absurd hfits hnot) ?_
      rintro u ⟨loc, hu⟩
      cases hu with
      | orNull _ hu => cases hu

end Reasons

/-! ### Refusals -/

namespace ParseError

/-- The refusal has the code of a complaint, and its message if actions are nested too deep. -/
structure SpeaksOf (e : ParseError) (complaint : Complaint) : Prop where
  code : e.code = codeOf complaint
  message : e.code = .recursionLimit → e.message = complaint.message

theorem exists_speaksOf_ofIssues {issues : List Issue} (hnil : issues ≠ []) :
    ∃ issue ∈ issues, (ofIssues issues).SpeaksOf issue.complaint := by
  cases issues with
  | nil => exact absurd rfl hnil
  | cons first rest =>
      refine ⟨first, List.mem_cons_self, rfl, ?_⟩
      intro hcode
      have hcode : codeOf first.complaint = .recursionLimit := hcode
      simp [ofIssues, hcode]

theorem exists_speaksOf_inAction {issues : List Issue} (hnil : issues ≠ []) (kind : String) :
    ∃ issue ∈ issues, (inAction kind issues).SpeaksOf issue.complaint := by
  obtain ⟨issue, hissue, hspeaks⟩ := exists_speaksOf_ofIssues hnil
  refine ⟨issue, hissue, ?_⟩
  unfold inAction
  by_cases hcode : (ofIssues issues).code = .recursionLimit
  · simpa only [hcode, if_true] using hspeaks
  · simp only [hcode, if_false]
    exact ⟨hspeaks.code, fun hlimit => absurd hlimit hcode⟩

end ParseError

end Pagescript
