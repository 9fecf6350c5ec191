import Mathlib
import Pagescript.Proofs.Flaws
import Pagescript.Proofs.Journal
import Pagescript.Proofs.Limits
/-!
# The same document as text and as a value

A JSON text and the value that it stands for are the same document.  They are read as the same
program; if they are refused it is for the same reason at the same place, and only the wording of
complaints about containers differs.  A value that is a text is not meant here: it would be read as
JSON text itself.
-/

namespace Pagescript

/-! ### Complaints in another wording -/

/-- The complaint as it is worded for documents of the given form. -/
def Complaint.inForm (form : Notation) : Complaint → Complaint
  | notList _ => notList form
  | notMapping _ => notMapping form
  | notInstance _ title => notInstance form title
  | complaint => complaint

def Issue.inForm (form : Notation) (issue : Issue) : Issue :=
  { issue with complaint := issue.complaint.inForm form }

theorem ParseError.codeOf_inForm (form : Notation) (complaint : Complaint) :
    codeOf (complaint.inForm form) = codeOf complaint := by
  cases complaint with
  | nested code reason => rfl
  | _ => rfl

namespace Check

variable {α β : Type}

def inForm (form : Notation) : Check α → Check α
  | valid a => valid a
  | invalid issues => invalid (issues.map (Issue.inForm form))

variable (form : Notation)

@[simp]
theorem inForm_map (f : α → β) (c : Check α) : (f <$> c).inForm form = f <$> c.inForm form := by
  cases c <;> rfl

@[simp]
theorem inForm_seq (f : Check (α → β)) (c : Check α) :
    (f <*> c).inForm form = f.inForm form <*> c.inForm form := by
  cases f with
  | valid f => exact inForm_map form f c
  | invalid issues =>
      cases c with
      | valid a => rfl
      | invalid more => exact congrArg invalid List.map_append

@[simp]
theorem inForm_seqLeft (c : Check α) (d : Check β) :
    (c <* d).inForm form = c.inForm form <* d.inForm form := by
  change (Function.const β <$> c <*> d).inForm form = _
  rw [inForm_seq, inForm_map]
  rfl

theorem inForm_under (segment : Segment) (c : Check α) :
    (c.under segment).inForm form = (c.inForm form).under segment := by
  cases c with
  | valid a => rfl
  | invalid issues =>
      simp only [under, inForm, List.map_map]
      rfl

end Check

namespace Reader

variable {α : Type} (form form' : Notation)

/-- A reader that never complains about a container. -/
def Unworded (reader : Reader α) : Prop :=
  ∀ v, (reader v).inForm form = reader v

theorem unworded_text : Unworded form text := by
  intro v
  cases v with
  | text s => rfl
  | _ => rfl

theorem unworded_node (registry : Registry) : Unworded form fun v => registry.node v.settle := by
  intro v
  simp only [Registry.node]
  cases registry.parseAction v.settle with
  | ok a => rfl
  | error e => rfl

variable {form} {reader : Reader α}

theorem inForm_items (hreader : Unworded form reader) (start : Nat) (vs : List Value) :
    (items reader start vs).inForm form = items reader start vs := by
  induction vs generalizing start with
  | nil => rfl
  | cons v rest ih =>
      rw [items, Check.inForm_seq, Check.inForm_map, Check.inForm_under, hreader, ih]

theorem inForm_entries (hreader : Unworded form reader) (fields : Fields) :
    (entries reader fields).inForm form = entries reader fields := by
  induction fields with
  | nil => rfl
  | cons entry rest ih =>
      obtain ⟨key, v⟩ := entry
      have hentry : (((reader v).under (.key key)).map (key, ·)).inForm form =
          ((reader v).under (.key key)).map (key, ·) := by
        refine (Check.inForm_map form (key, ·) _).trans ?_
        rw [Check.inForm_under, hreader]
        rfl
      rw [entries, Check.inForm_seq, Check.inForm_map, hentry, ih]

theorem inForm_listOf (hreader : Unworded form reader) (v : Value) :
    (listOf form' reader v).inForm form = listOf form reader v := by
  cases v with
  | list vs => exact inForm_items hreader 0 vs
  | _ => rfl

theorem inForm_mappingOf (hreader : Unworded form reader) (v : Value) :
    (mappingOf form' reader v).inForm form = mappingOf form reader v := by
  cases v with
  | mapping fields =>
      refine (Check.inForm_map form Entries.ofList (entries reader fields)).trans ?_
      rw [inForm_entries hreader]
      rfl
  | _ => rfl

theorem inForm_withDefault {reader' : Reader α} (hreader : ∀ v, (reader v).inForm form = reader' v)
    (fields : Fields) (key : String) (default : α) :
    (withDefault fields key default reader).inForm form = withDefault fields key default reader' := by
  unfold withDefault
  cases Entries.get? fields key with
  | none => rfl
  | some v => exact (Check.inForm_under form (.key key) (reader v)).trans (by rw [hreader])

theorem inForm_onlyFields (fields : Fields) (known : List String) :
    (onlyFields fields known).inForm form = onlyFields fields known := by
  unfold onlyFields
  split
  · rfl
  next extra _ =>
    refine congrArg Check.invalid ?_
    rw [List.map_map]
    rfl

end Reader

/-- In whichever form a document came it is read in the same way but for the wording. -/
theorem Program.inForm_ofValue (registry : Registry) (form form' : Notation) (v : Value) :
    (ofValue registry form' v).inForm form = ofValue registry form v := by
  cases v with
  | mapping fields =>
      have hselectors := Reader.inForm_withDefault
        (Reader.inForm_mappingOf form' (Reader.unworded_text form)) (Entries.ofList fields) "selectors" []
      have hactions := Reader.inForm_withDefault
        (Reader.inForm_mappingOf form' (Reader.unworded_node form registry)) (Entries.ofList fields)
        "actions" []
      have hsteps := Reader.inForm_withDefault
        (Reader.inForm_listOf form' (Reader.unworded_node form registry)) (Entries.ofList fields)
        "steps" []
      simp only [ofValue, ofFields, Check.inForm_seqLeft, Check.inForm_seq, Check.inForm_map,
        hselectors, hactions, hsteps, Reader.inForm_onlyFields]
  | _ => rfl

/-! ### Documents that are read from text -/

theorem ParseError.ofIssues_inForm (form : Notation) (issues : List Issue) :
    (ofIssues (issues.map (Issue.inForm form))).code = (ofIssues issues).code ∧
      (ofIssues (issues.map (Issue.inForm form))).location = (ofIssues issues).location ∧
      (ofIssues (issues.map (Issue.inForm form))).details =
        (ofIssues issues).details.map (Issue.inForm form) := by
  cases issues with
  | nil => exact ⟨rfl, rfl, rfl⟩
  | cons first rest => exact ⟨codeOf_inForm form first.complaint, rfl, rfl⟩

namespace Document

variable {document : Document} {v : Value}

theorem parse_value_eq (registry : Registry) (hwritten : document.written? = some v) :
    (value v).parse registry =
      match document.check registry with
      | .valid p => .ok p
      | .invalid issues => .error (.ofIssues (issues.map (Issue.inForm .value))) := by
  obtain ⟨form, hform⟩ := exists_check_of_written registry hwritten
  have hcheck : (value v).check registry = (document.check registry).inForm .value := by
    rw [hform, Program.inForm_ofValue]
    rfl
  rw [parse, hcheck]
  cases document.check registry with
  | valid p => rfl
  | invalid issues => rfl

/-- Both readers give the same value if no name is bound twice in it. -/
theorem toValue_of_written (hwritten : document.written? = some v) (hsettled : v.settle = v)
    (hbytes : ∀ bs, document = .bytes bs → document.toValue = .ok v) : document.toValue = .ok v := by
  cases document with
  | value w =>
      cases hwritten
      rfl
  | text s =>
      have hread : Json.readWithin strict s = .ok v := by
        rw [written?] at hwritten
        cases hresult : Json.readWithin strict s with
        | ok w =>
            rw [hresult] at hwritten
            cases hwritten
            rfl
        | error e =>
            rw [hresult] at hwritten
            cases hwritten
      rw [toValue_of_readWithin hread, hsettled]
  | bytes bs => exact hbytes bs rfl
  | program p => cases hwritten

/-- The mapping that a refusal is about does not depend on the wording. -/
theorem offending_inForm (htoValue : document.toValue = .ok v) (issues : List Issue)
    (form : Notation) :
    (value v).offending (issues.map (Issue.inForm form)) = document.offending issues ∧
      ∃ action, document.offending issues = .ok action := by
  have hloc : ((issues.map (Issue.inForm form)).head?.map Issue.loc).getD [] =
      (issues.head?.map Issue.loc).getD [] := by
    cases issues with
    | nil => rfl
    | cons first rest => rfl
  unfold offending
  rw [htoValue, hloc]
  exact ⟨rfl, _, rfl⟩

end Document

/-- A document and the value that it is written as agree, unless this value is a text.

If the document is read as a program then so is the value, as the same one, and runs of the two do
the same.  If it is refused so is the value, with the same code, the same location and the same
details but for the wording; then a run only reports the refusal, and its errors have the same code,
source and action.  (That the second reader of documents reads the value too is assumed for bytes
only.) -/
theorem text_agrees_with_value {document : Document} {v : Value}
    (hwritten : document.written? = some v) (hsettled : v.settle = v)
    (hvalue : Document.ofValue v = .value v)
    (hbytes : ∀ bs, document = .bytes bs → document.toValue = .ok v) :
    (∀ registry,
      (∀ p, document.parse registry = .ok p ↔ (Document.ofValue v).parse registry = .ok p) ∧
      ∀ e, document.parse registry = .error e →
        ∃ e', (Document.ofValue v).parse registry = .error e' ∧ e'.code = e.code ∧
          e'.location = e.location ∧ e'.details = e.details.map (Issue.inForm .value)) ∧
    ∀ (σ : Type) (r : Runner σ) (s : Session σ),
      (∀ p, document.parse r.registry = .ok p →
        r.run document s = r.run (Document.ofValue v) s) ∧
      ∀ e, document.parse r.registry = .error e →
        ∃ err err', r.run document s = (.ok (.error err), Runner.reporting s err) ∧
          r.run (Document.ofValue v) s = (.ok (.error err'), Runner.reporting s err') ∧
          err'.code = err.code ∧ err'.source = err.source ∧ err'.action = err.action := by
  rw [hvalue]
  have hparses (registry : Registry) :
      (∀ p, document.parse registry = .ok p ↔ (Document.value v).parse registry = .ok p) ∧
      ∀ e, document.parse registry = .error e →
        ∃ e', (Document.value v).parse registry = .error e' ∧ e'.code = e.code ∧
          e'.location = e.location ∧ e'.details = e.details.map (Issue.inForm .value) := by
    rw [Document.parse_value_eq registry hwritten, Document.parse]
    cases document.check registry with
    | valid p =>
        refine ⟨fun p' => Iff.rfl, fun e he => ?_⟩
        cases he
    | invalid issues =>
        constructor
        · intro p
          constructor
          · intro hp
            cases hp
          · intro hp
            cases hp
        · intro e he
          cases he
          exact ⟨_, rfl, ParseError.ofIssues_inForm .value issues⟩
  refine ⟨hparses, fun σ r s => ⟨?_, ?_⟩⟩
  · intro p hp
    rw [Runner.run_of_parsed hp, Runner.run_of_parsed (((hparses _).1 p).1 hp)]
  · intro e he
    obtain ⟨e', he', hcode, hlocation, hdetails⟩ := (hparses r.registry).2 e he
    have htoValue := Document.toValue_of_written hwritten hsettled hbytes
    obtain ⟨hsame, action, haction⟩ := Document.offending_inForm htoValue e.details .value
    rw [Runner.run_of_refused_eq he, Runner.run_of_refused_eq he', hdetails, hsame, haction]
    refine ⟨_, _, rfl, rfl, hcode, ?_, rfl⟩
    simp only [Runner.refusal, hlocation]

/-- Texts that stand for texts are refused, but such a text may be read as a document in turn. -/
theorem Document.parse_text_of_text (registry : Registry) :
    (∃ e, (text "\"\x7b\x7d\"").parse registry = .error e) ∧
      (ofValue (.text "\x7b\x7d")).parse registry = .ok .empty :=
  ⟨⟨_, rfl⟩, rfl⟩

theorem text_differs_from_text :
    (Document.text "\"\x7b\x7d\"").written? = some (.text "\x7b\x7d") ∧
      (Value.text "\x7b\x7d").settle = .text "\x7b\x7d" ∧
      (∃ e, (Document.text "\"\x7b\x7d\"").parse (.builtin .initial Registry.defaultMaxDepth) =
        .error e) ∧
      (Document.ofValue (.text "\x7b\x7d")).parse (.builtin .initial Registry.defaultMaxDepth) =
        .ok .empty :=
  ⟨rfl, rfl, Document.parse_text_of_text _⟩

/-- A document whose steps are not a list. -/
def countedSteps : Document :=
  .text "\x7b\"steps\": 5\x7d"

theorem readWithin_countedSteps :
    Json.readWithin Document.strict "\x7b\"steps\": 5\x7d" = .ok (.mapping [("steps", .int 5)]) := by
  cbv

theorem text_agrees_with_value_countedSteps :
    (∃ e e', countedSteps.parse .flat = .error e ∧
      (Document.value (.mapping [("steps", .int 5)])).parse .flat = .error e' ∧
      e'.code = e.code ∧ e'.location = "steps" ∧
      e.details.map (·.complaint) = [.notList .text] ∧
      e'.details.map (·.complaint) = [.notList .value]) ∧
    ∀ (r : Runner Script) (s : Session Script), r.registry = .flat →
      ∃ err err', r.run countedSteps s = (.ok (.error err), Runner.reporting s err) ∧
        r.run (.value (.mapping [("steps", .int 5)])) s =
          (.ok (.error err'), Runner.reporting s err') ∧ err'.action = err.action := by
  have hwritten : countedSteps.written? = some (.mapping [("steps", .int 5)]) := by
    rw [countedSteps, Document.written?, readWithin_countedSteps]
    rfl
  have hbytes (bs : List UInt8) (h : countedSteps = .bytes bs) :
      countedSteps.toValue = .ok (.mapping [("steps", .int 5)]) := by
    cases h
  obtain ⟨hparses, hruns⟩ := text_agrees_with_value hwritten rfl rfl hbytes
  have hrefused : countedSteps.parse .flat =
      .error (.ofIssues [⟨.notList .text, [.key "steps"]⟩]) := by
    rw [countedSteps, Document.parse, Document.check, Document.checkText, Option.map_some,
      readWithin_countedSteps]
    rfl
  constructor
  · obtain ⟨e', he', hcode, hlocation, hdetails⟩ := (hparses .flat).2 _ hrefused
    refine ⟨_, e', hrefused, he', hcode, hlocation, rfl, ?_⟩
    rw [hdetails]
    rfl
  · intro r s hregistry
    obtain ⟨err, err', hrun, hrun', -, -, haction⟩ := (hruns _ r s).2 _ (hregistry ▸ hrefused)
    exact ⟨err, err', hrun, hrun', haction⟩

end Pagescript
