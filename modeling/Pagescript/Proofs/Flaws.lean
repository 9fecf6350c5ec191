import Pagescript.Document
import Pagescript.Proofs.Reasons
/-!
# What a refusal says

A value that should be an action can be wrong in four ways at each position: it names no action, it
names an unknown one, it lies too deep, or its own fields are not what its schema asks for.  Which of
them are there is said without reading the value.  A refusal has the code of one of them, however
deep it lies; and if all that is wrong has one code, this is the code of the refusal.
-/

namespace Pagescript

/-! ### Flaws -/

/-- What can be wrong with a value that stands where an action should be, at a level of nesting, and
the code for it. -/
inductive Registry.Flaw (registry : Registry) (level : Nat) : Value → ErrorCode → Prop where
  | nameless {v : Value}
    (hv : ∀ fields kind, v = .mapping fields → Entries.get? fields "action" ≠ some (.text kind)) :
    Flaw registry level v .malformedAction
  | unknown {fields : Fields} {kind : String}
    (hkind : Entries.get? fields "action" = some (.text kind)) (hget : registry.get? kind = none)
    (hsigil : kind.startsWith (String.singleton sigil) = false) :
    Flaw registry level (.mapping fields) .unknownAction
  | tooDeep {fields : Fields} {kind : String} {schema : Schema}
    (hkind : Entries.get? fields "action" = some (.text kind))
    (hschema : registry.schemaOf? kind = some schema) (hlevel : registry.maxDepth < level) :
    Flaw registry level (.mapping fields) .recursionLimit
  | misshapen {fields : Fields} {kind : String} {schema : Schema}
    (hkind : Entries.get? fields "action" = some (.text kind))
    (hschema : registry.schemaOf? kind = some schema) (hfits : ¬ schema.Fits fields) :
    Flaw registry level (.mapping fields) .malformedAction

/-- A value stands at a level of nesting where an action should be. -/
def Registry.AtLevel (registry : Registry) (v : Value) (level : Nat) (u : Value) : Prop :=
  ∃ route, registry.ActionAt v route u ∧ level = route.length + 1

def Registry.HasFlaw (registry : Registry) (v : Value) (code : ErrorCode) : Prop :=
  ∃ level u, registry.AtLevel v level u ∧ registry.Flaw level u code

/-- The fields of a document, apart from its actions, are those of a program. -/
structure Program.Fits (fields : Fields) : Prop where
  selectors : ∀ v, Entries.get? (Entries.ofList fields) "selectors" = some v →
    ∃ entries, v = .mapping entries ∧ ∀ entry ∈ entries, ∃ s, entry.2 = .text s
  actions : ∀ v, Entries.get? (Entries.ofList fields) "actions" = some v →
    ∃ entries, v = .mapping entries
  steps : ∀ v, Entries.get? (Entries.ofList fields) "steps" = some v → ∃ vs, v = .list vs
  known : ∀ entry ∈ Entries.ofList fields, entry.1 ∈ ["selectors", "actions", "steps"]

/-- The fields of a document have a value in them that should be an action. -/
inductive Program.Holds (fields : Fields) : Value → Prop where
  | action {entries : Fields} {entry : String × Value}
    (hentries : Entries.get? (Entries.ofList fields) "actions" = some (.mapping entries))
    (hentry : entry ∈ entries) : Holds fields entry.2
  | step {vs : List Value} {v : Value}
    (hvs : Entries.get? (Entries.ofList fields) "steps" = some (.list vs)) (hv : v ∈ vs) :
    Holds fields v

namespace Document

/-- The value that a document is written as, if it can be read. -/
def written? : Document → Option Value
  | value v => some v
  | text s => (Json.readWithin strict s).toOption
  | bytes bs => (Text.utf8? .refused bs).bind fun s => (Json.readWithin strict s).toOption
  | program _ => none

def AtLevel (registry : Registry) (document : Document) (level : Nat) (u : Value) : Prop :=
  ∃ fields v, document.written? = some (.mapping fields) ∧ Program.Holds fields v ∧
    registry.AtLevel v.settle level u

/-- What can be wrong with a document: it cannot be read, it does not have the fields of a program,
or an action in it is wrong. -/
inductive HasFlaw (registry : Registry) (document : Document) : ErrorCode → Prop where
  | unreadable (hwritten : document.written? = none) (hraw : ∀ p, document ≠ .program p) :
    HasFlaw registry document .malformedAction
  | misshapen {v : Value} (hwritten : document.written? = some v)
    (hfits : ∀ fields, v = .mapping fields → ¬ Program.Fits fields) :
    HasFlaw registry document .malformedAction
  | action {level : Nat} {u : Value} {code : ErrorCode} (hat : document.AtLevel registry level u)
    (hflaw : registry.Flaw level u code) : HasFlaw registry document code

end Document

/-! ### Refused actions -/

namespace Registry

variable {registry : Registry} {budget level : Nat} {v u : Value} {e e' : ParseError}
  {place place' : Nat → Value → Prop}

/-- A refusal has the code of a flaw at one of the places.  If this is the nesting, then the place is
the first level that is too deep, and the message is about the limit. -/
def Blames (registry : Registry) (place : Nat → Value → Prop) (e : ParseError) : Prop :=
  ∃ level u, place level u ∧ registry.Flaw level u e.code ∧
    (e.code = .recursionLimit →
      level = registry.maxDepth.toNat + 1 ∧
        e.message = (ParseError.tooDeep registry.maxDepth).message)

theorem Blames.mono (hblames : registry.Blames place e)
    (hplace : ∀ level u, place level u → place' level u) : registry.Blames place' e := by
  obtain ⟨level, u, hu, hflaw, hlimit⟩ := hblames
  exact ⟨level, u, hplace level u hu, hflaw, hlimit⟩

theorem Flaw.code_cases {code : ErrorCode} (hflaw : registry.Flaw level u code) :
    code = .malformedAction ∨ code = .unknownAction ∨ code = .recursionLimit := by
  cases hflaw with
  | nameless | misshapen => exact .inl rfl
  | unknown => exact .inr (.inl rfl)
  | tooDeep => exact .inr (.inr rfl)

/-- A refusal that speaks of another one blames the same flaw. -/
theorem Blames.speaksOf (hblames : registry.Blames place e')
    (hspeaks : e.SpeaksOf (.nested e'.code e'.message)) : registry.Blames place e := by
  obtain ⟨level, u, hu, hflaw, hlimit⟩ := hblames
  have hcode : e.code = e'.code := by
    rw [hspeaks.code]
    obtain hcode | hcode | hcode := hflaw.code_cases
    · rw [hcode]
      rfl
    · rw [hcode]
      rfl
    · rw [hcode]
      rfl
  refine ⟨level, u, hu, hcode ▸ hflaw, fun h => ?_⟩
  obtain ⟨hlevel, hmessage⟩ := hlimit (hcode ▸ h)
  exact ⟨hlevel, (hspeaks.message h).trans hmessage⟩

theorem nodeWithin_eq_ofParse (registry : Registry) (budget : Nat) :
    registry.nodeWithin budget = Reader.ofParse (registry.parseWithin budget) := by
  funext v
  unfold nodeWithin Reader.ofParse
  cases registry.parseWithin budget v <;> rfl

theorem flaw_of_rawAction (registry : Registry) (level : Nat) (hraw : rawAction v = .error e) :
    registry.Flaw level v e.code ∧ e.code ≠ .recursionLimit := by
  have hcode : e.code = .malformedAction := by
    unfold rawAction at hraw
    split at hraw
    · split at hraw
      · cases hraw
      · cases hraw
        rfl
    · cases hraw
      rfl
  rw [hcode]
  refine ⟨.nameless fun fields kind hv hkind => ?_, nofun⟩
  rw [rawAction_ok_iff.2 ⟨hv, hkind⟩] at hraw
  cases hraw

/-- One level of a refusal: the value itself has a flaw, or one of its parts is refused. -/
theorem parseWithin_error_cases (hparse : registry.parseWithin budget v = .error e)
    (hbudget : budget + level = registry.maxDepth.toNat + 1) :
    (registry.Flaw level v e.code ∧ (e.code = .recursionLimit →
        budget = 0 ∧ e.message = (ParseError.tooDeep registry.maxDepth).message)) ∨
      ∃ fields kind k loc u left e', v = .mapping fields ∧
        Entries.get? fields "action" = some (.text kind) ∧
        registry.schemaOf? kind = some (.kind k) ∧ k.Holds fields loc u ∧ budget = left + 1 ∧
        registry.parseWithin left u = .error e' ∧ e.SpeaksOf (.nested e'.code e'.message) := by
  cases hraw : rawAction v with
  | error e' =>
      have heq : e' = e := by
        rw [parseWithin, hraw] at hparse
        exact Except.error.inj hparse
      obtain ⟨hflaw, hcode⟩ := registry.flaw_of_rawAction level (heq ▸ hraw)
      exact .inl ⟨hflaw, fun hlimit => absurd hlimit hcode⟩
  | ok raw =>
      obtain ⟨fields, kind⟩ := raw
      obtain ⟨rfl, hkind⟩ := rawAction_ok_iff.1 hraw
      cases hschema : registry.schemaOf? kind with
      | none =>
          rw [parseWithin, hraw] at hparse
          simp only [hschema, bind, Except.bind] at hparse
          cases hparse
          have hget : registry.get? kind = none ∧
              kind.startsWith (String.singleton sigil) = false := by
            unfold schemaOf? at hschema
            cases hget : registry.get? kind with
            | none => simpa [hget] using hschema
            | some registration => simp [hget] at hschema
          exact .inl ⟨.unknown hkind hget.1 hget.2, fun hlimit => (by cases hlimit)⟩
      | some schema =>
          cases budget with
          | zero =>
              rw [parseWithin, hraw] at hparse
              simp only [hschema, bind, Except.bind] at hparse
              cases hparse
              exact .inl ⟨.tooDeep hkind hschema (by omega), fun _ => ⟨rfl, rfl⟩⟩
          | succ left =>
              rw [parseWithin_succ hraw hschema, nodeWithin_eq_ofParse] at hparse
              have hexplained := schema.explained_read (registry.parseWithin left) fields
              split at hparse
              · cases hparse
              next hread =>
                -- only the two schemas that are no action are read as nothing
                cases hparse
                have hfits : ¬ schema.Fits fields := by
                  intro hfits
                  cases hfits with
                  | kind =>
                      obtain ⟨_, -, hform⟩ := Check.map_eq_valid_iff.1 hread
                      cases hform
                  | call =>
                      obtain ⟨_, _, hcall, -, hform⟩ := Check.seq_eq_valid_iff.1 hread
                      obtain ⟨_, -, rfl⟩ := Check.map_eq_valid_iff.1 hcall
                      cases hform
                exact .inl ⟨.misshapen hkind hschema hfits, fun hlimit => (by cases hlimit)⟩
              next issues hread =>
                cases hparse
                obtain ⟨hnil, hissues⟩ := hexplained issues hread
                obtain ⟨issue, hissue, hspeaks⟩ := ParseError.exists_speaksOf_inAction hnil kind
                have hreason := hissues issue hissue
                generalize issue.complaint = complaint at hspeaks hreason
                cases hreason with
                | own hfits hcode =>
                    rw [hspeaks.code, hcode]
                    exact .inl ⟨.misshapen hkind hschema hfits, fun hlimit => (by cases hlimit)⟩
                | part hu hinner =>
                    obtain ⟨k, loc, rfl, hu⟩ := hu
                    exact .inr ⟨fields, kind, k, loc, _, left, _, rfl, hkind, hschema, hu, rfl,
                      hinner, hspeaks⟩

/-- A refusal blames a flaw.  The induction is on the levels that are left below the value, which
stands at `level` itself. -/
theorem blames_of_parseWithin (hparse : registry.parseWithin budget v = .error e)
    (hbudget : budget + level = registry.maxDepth.toNat + 1) :
    registry.Blames (fun n u => ∃ route, registry.ActionAt v route u ∧ n = level + route.length)
      e := by
  induction budget generalizing level v e with
  | zero =>
      obtain ⟨hflaw, hlimit⟩ | ⟨_, _, _, _, _, left, _, _, _, _, _, hleft, _⟩ :=
        parseWithin_error_cases hparse hbudget
      · exact ⟨level, v, ⟨[], .here v, rfl⟩, hflaw, fun h => ⟨by omega, (hlimit h).2⟩⟩
      · cases hleft
  | succ budget ih =>
      obtain ⟨hflaw, hlimit⟩ | ⟨fields, kind, k, loc, u, left, e', rfl, hkind, hschema, hu, hleft,
        hinner, hspeaks⟩ := parseWithin_error_cases hparse hbudget
      · refine ⟨level, v, ⟨[], .here v, rfl⟩, hflaw, fun h => ?_⟩
        cases (hlimit h).1
      · cases hleft
        have hblames := @ih (level + 1) u e' hinner (by omega)
        refine (hblames.mono fun n w hw => ?_).speaksOf hspeaks
        obtain ⟨route, hat, hn⟩ := hw
        refine ⟨loc :: route, .part hkind hschema hu hat, ?_⟩
        rw [List.length_cons]
        omega

theorem blames_of_parseAction (hparse : registry.parseAction v = .error e) :
    registry.Blames (registry.AtLevel v) e := by
  refine (blames_of_parseWithin hparse rfl).mono fun n u hu => ?_
  obtain ⟨route, hat, rfl⟩ := hu
  exact ⟨route, hat, Nat.add_comm _ _⟩

/-- A value with a flaw at any level is no action. -/
theorem parseAction_ne_ok_of_hasFlaw {code : ErrorCode} (hflaw : registry.HasFlaw v code)
    (a : Action) : registry.parseAction v ≠ .ok a := by
  intro hparse
  obtain ⟨_, u, ⟨route, hat, rfl⟩, hflaw⟩ := hflaw
  obtain ⟨b, left, hleft, hb⟩ := exists_parse_of_actionAt hparse hat
  obtain ⟨fields, kind, schema, form, rfl, hkind, hschema, hread, -⟩ :=
    parseWithin_succ_eq_ok_iff.1 hb
  cases hflaw with
  | nameless hv => exact hv fields kind rfl hkind
  | unknown hkind' hget hsigil =>
      cases hkind.symm.trans hkind'
      rw [schemaOf?, hget, hsigil] at hschema
      cases hschema
  | tooDeep _ _ hlevel => omega
  | misshapen hkind' hschema' hfits =>
      cases hkind.symm.trans hkind'
      cases hschema.symm.trans hschema'
      exact hfits (Schema.fits_of_read hkind hread)

end Registry

/-! ### Refused documents -/

namespace Program

open Reader Check

variable {registry : Registry} {form : Notation} {fields : Fields} {v : Value}

theorem explained_ofFields (registry : Registry) (form : Notation) (fields : Fields) :
    (ofFields registry form fields).Explained
      (Reason (fun v => registry.parseAction v.settle) (Fits fields) (Holds fields)) := by
  have hnode : (fun v => registry.node v.settle) =
      ofParse fun v => registry.parseAction v.settle := by
    funext v
    simp only [Registry.node, ofParse]
    cases registry.parseAction v.settle <;> rfl
  unfold ofFields
  rw [hnode]
  refine ((Explained.map (explained_withDefault fun v hv => explained_mappingOf ?_ ?_) _
    |>.seq (explained_withDefault fun v hv => explained_mappingOf ?_ ?_)).seq
    (explained_withDefault fun v hv => explained_listOf ?_ ?_)).seqLeft (explained_onlyFields ?_)
  · intro hother
    refine .own (fun hfits => ?_) rfl
    obtain ⟨entries, hentries, -⟩ := hfits.selectors v hv
    exact hother entries hentries
  · rintro entries rfl entry hentry
    refine (Explains.plainText _ entry.2).mono fun complaint hreason => hreason.mono ?_ ?_
    · intro hfits
      obtain ⟨entries', heq, htext⟩ := hfits.selectors _ hv
      cases heq
      exact htext entry hentry
    · rintro u ⟨loc, hu⟩
      cases hu
  · intro hother
    refine .own (fun hfits => ?_) rfl
    obtain ⟨entries, hentries⟩ := hfits.actions v hv
    exact hother entries hentries
  · rintro entries rfl entry hentry
    exact explained_ofParse (.action hv hentry)
  · intro hother
    refine .own (fun hfits => ?_) rfl
    obtain ⟨vs, hvs⟩ := hfits.steps v hv
    exact hother vs hvs
  · rintro vs rfl u hu
    exact explained_ofParse (.step hv hu)
  · rintro ⟨entry, hentry, hextra⟩
    exact .own (fun hfits => hextra (hfits.known entry hentry)) rfl

theorem isValid_node {registry : Registry} :
    (registry.node v).IsValid ↔ ∃ a, registry.parseAction v = .ok a := by
  unfold Registry.node
  cases registry.parseAction v <;> simp

/-- What is read as a program has the fields of one, and all actions in it are read. -/
theorem fits_of_ofFields (hread : (ofFields registry form fields).IsValid) :
    Fits fields ∧ ∀ v, Holds fields v → ∃ a, registry.parseAction v.settle = .ok a := by
  simp only [ofFields, isValid_seqLeft, isValid_seq, isValid_map, isValid_withDefault,
    isValid_mappingOf, isValid_listOf, isValid_text, isValid_onlyFields, isValid_node] at hread
  obtain ⟨⟨⟨hselectors, hactions⟩, hsteps⟩, hknown⟩ := hread
  constructor
  · refine ⟨hselectors, fun v hv => ?_, fun v hv => ?_, hknown⟩
    · obtain ⟨entries, hentries, -⟩ := hactions v hv
      exact ⟨entries, hentries⟩
    · obtain ⟨vs, hvs, -⟩ := hsteps v hv
      exact ⟨vs, hvs⟩
  · intro v hv
    cases hv with
    | action hentries hentry =>
        obtain ⟨_, heq, hall⟩ := hactions _ hentries
        cases heq
        exact hall _ hentry
    | step hvs hv =>
        obtain ⟨_, heq, hall⟩ := hsteps _ hvs
        cases heq
        exact hall _ hv

end Program

namespace Document

variable {registry : Registry} {document : Document} {v : Value} {e : ParseError}

theorem checkText_eq (registry : Registry) (s : Option String) :
    checkText registry s =
      match s.bind fun s => (Json.readWithin strict s).toOption with
      | some v => Program.ofValue registry .text v
      | none => .fail .invalidJson := by
  cases s with
  | none => rfl
  | some s =>
      rw [checkText, Option.map_some, Option.bind_some]
      cases Json.readWithin strict s <;> rfl

theorem exists_check_of_written (registry : Registry) (hwritten : document.written? = some v) :
    ∃ form, document.check registry = Program.ofValue registry form v := by
  cases document with
  | value w =>
      cases hwritten
      exact ⟨.value, rfl⟩
  | text s =>
      have hread : ((some s).bind fun s => (Json.readWithin strict s).toOption) = some v := hwritten
      exact ⟨.text, by rw [check, checkText_eq, hread]⟩
  | bytes bs =>
      rw [written?] at hwritten
      exact ⟨.text, by rw [check, checkText_eq, hwritten]⟩
  | program p => cases hwritten

theorem check_of_not_written (registry : Registry) (hwritten : document.written? = none)
    (hraw : ∀ p, document ≠ .program p) : document.check registry = .fail .invalidJson := by
  cases document with
  | value w => cases hwritten
  | text s =>
      have hread : ((some s).bind fun s => (Json.readWithin strict s).toOption) = none := hwritten
      rw [check, checkText_eq, hread]
  | bytes bs =>
      rw [written?] at hwritten
      rw [check, checkText_eq, hwritten]
  | program p => exact absurd rfl (hraw p)

/-- A document is refused for what it is itself, or for an action in it. -/
theorem parse_error_cases (hparse : document.parse registry = .error e) :
    (document.HasFlaw registry .malformedAction ∧ e.code = .malformedAction) ∨
      registry.Blames (document.AtLevel registry) e := by
  have hcheck : ∃ issues, document.check registry = .invalid issues ∧ e = .ofIssues issues := by
    unfold parse at hparse
    split at hparse
    · cases hparse
    next issues hcheck => exact ⟨issues, hcheck, (Except.error.inj hparse).symm⟩
  obtain ⟨issues, hcheck, rfl⟩ := hcheck
  cases hwritten : document.written? with
  | none =>
      have hraw (p : Program) (hp : document = .program p) : False := by
        rw [hp] at hcheck
        cases hcheck
      rw [check_of_not_written registry hwritten hraw] at hcheck
      cases hcheck
      exact .inl ⟨.unreadable hwritten hraw, rfl⟩
  | some v =>
      obtain ⟨form, hform⟩ := exists_check_of_written registry hwritten
      rw [hform] at hcheck
      cases v with
      | mapping fields =>
          obtain ⟨hnil, hissues⟩ := Program.explained_ofFields registry form fields issues hcheck
          obtain ⟨issue, hissue, hspeaks⟩ := ParseError.exists_speaksOf_ofIssues hnil
          have hreason := hissues issue hissue
          generalize issue.complaint = complaint at hspeaks hreason
          cases hreason with
          | own hfits hcode =>
              refine .inl ⟨.misshapen hwritten ?_, hspeaks.code.trans hcode⟩
              rintro _ ⟨rfl⟩
              exact hfits
          | part hu hinner =>
              refine .inr ((Registry.blames_of_parseAction hinner).mono ?_ |>.speaksOf hspeaks)
              intro level w hw
              exact ⟨fields, _, hwritten, hu, hw⟩
      | _ =>
          cases hcheck
          exact .inl ⟨.misshapen hwritten nofun, rfl⟩

theorem parse_ne_ok_of_hasFlaw {code : ErrorCode} (hflaw : document.HasFlaw registry code)
    (program : Program) : document.parse registry ≠ .ok program := by
  intro hparse
  have hvalid : (document.check registry).IsValid := by
    unfold parse at hparse
    split at hparse
    next p hp => exact ⟨p, hp⟩
    · cases hparse
  have hwhole {fields : Fields} (hwritten : document.written? = some (.mapping fields)) :
      Program.Fits fields ∧
        ∀ v, Program.Holds fields v → ∃ a, registry.parseAction v.settle = .ok a := by
    obtain ⟨form, hform⟩ := exists_check_of_written registry hwritten
    rw [hform] at hvalid
    exact Program.fits_of_ofFields hvalid
  cases hflaw with
  | unreadable hwritten hraw =>
      rw [check_of_not_written registry hwritten hraw] at hvalid
      exact Check.not_isValid_fail _ hvalid
  | @misshapen v hwritten hfits =>
      cases v with
      | mapping fields => exact hfits fields rfl (hwhole hwritten).1
      | _ =>
          obtain ⟨form, hform⟩ := exists_check_of_written registry hwritten
          rw [hform] at hvalid
          exact Check.not_isValid_fail _ hvalid
  | action hat hflaw =>
      obtain ⟨fields, v, hwritten, hholds, hat⟩ := hat
      obtain ⟨a, ha⟩ := (hwhole hwritten).2 v hholds
      exact Registry.parseAction_ne_ok_of_hasFlaw ⟨_, _, hat, hflaw⟩ a ha

end Document

/-! ### What a refusal says -/

/-- A refusal says what is wrong at one of the places. -/
structure ParseError.Truthful (registry : Registry) (place : Nat → Value → Prop)
    (e : ParseError) : Prop where
  code : e.code = .malformedAction ∨ e.code = .unknownAction ∨ e.code = .recursionLimit
  unknown : e.code = .unknownAction →
    ∃ level fields kind, place level (.mapping fields) ∧
      Entries.get? fields "action" = some (.text kind) ∧ registry.get? kind = none ∧
      kind.startsWith (String.singleton sigil) = false
  tooDeep : e.code = .recursionLimit →
    (∃ (level : Nat) (u : Value), place level u ∧ level = max registry.maxDepth 0 + 1) ∧
      e.message = "actions nested deeper than " ++ toString registry.maxDepth ++ " levels"

theorem Registry.Blames.truthful {registry : Registry} {place : Nat → Value → Prop} {e : ParseError}
    (hblames : registry.Blames place e) : e.Truthful registry place := by
  obtain ⟨level, u, hu, hflaw, hlimit⟩ := hblames
  refine ⟨hflaw.code_cases, ?_, ?_⟩
  · intro hcode
    rw [hcode] at hflaw
    cases hflaw with
    | unknown hkind hget hsigil => exact ⟨level, _, _, hu, hkind, hget, hsigil⟩
  · intro hcode
    obtain ⟨hlevel, hmessage⟩ := hlimit hcode
    exact ⟨⟨level, u, hu, by omega⟩, hmessage⟩

theorem ParseError.truthful_of_malformed {registry : Registry} {place : Nat → Value → Prop}
    {e : ParseError} (hcode : e.code = .malformedAction) : e.Truthful registry place := by
  refine ⟨.inl hcode, ?_, ?_⟩
  · intro hunknown
    rw [hcode] at hunknown
    cases hunknown
  · intro hdeep
    rw [hcode] at hdeep
    cases hdeep

/-- Refusals tell the truth, at every level.

A value or a document that is refused gets one of three codes.  A name is called unknown only if
some action is written with an unknown name, and nesting is refused only if some action stands on
the first level beyond the limit, in the words that the limit alone gives.  And if all that is wrong,
anywhere, has one code, then so has the refusal. -/
theorem refusals_truthful (registry : Registry) :
    (∀ v e, registry.parseAction v = .error e → e.Truthful registry (registry.AtLevel v)) ∧
    (∀ document e, Document.parse registry document = .error e →
      e.Truthful registry (document.AtLevel registry)) ∧
    (∀ v code, registry.HasFlaw v code → (∀ code', registry.HasFlaw v code' → code' = code) →
      ∃ e, registry.parseAction v = .error e ∧ e.code = code) ∧
    ∀ document code, Document.HasFlaw registry document code →
      (∀ code', document.HasFlaw registry code' → code' = code) →
      ∃ e, document.parse registry = .error e ∧ e.code = code := by
  refine ⟨?_, ?_, ?_, ?_⟩
  · intro v e hparse
    exact (Registry.blames_of_parseAction hparse).truthful
  · intro document e hparse
    obtain ⟨-, hcode⟩ | hblames := Document.parse_error_cases hparse
    · exact ParseError.truthful_of_malformed hcode
    · exact hblames.truthful
  · intro v code hflaw honly
    cases hparse : registry.parseAction v with
    | ok a => exact absurd hparse (Registry.parseAction_ne_ok_of_hasFlaw hflaw a)
    | error e =>
        obtain ⟨level, u, hu, hblamed, -⟩ := Registry.blames_of_parseAction hparse
        exact ⟨e, rfl, honly _ ⟨level, u, hu, hblamed⟩⟩
  · intro document code hflaw honly
    cases hparse : document.parse registry with
    | ok p => exact absurd hparse (Document.parse_ne_ok_of_hasFlaw hflaw p)
    | error e =>
        refine ⟨e, rfl, ?_⟩
        obtain ⟨hown, hcode⟩ | ⟨level, u, hu, hblamed, -⟩ := Document.parse_error_cases hparse
        · exact hcode.trans (honly _ hown)
        · exact honly _ (.action hu hblamed)

/-! ### Sequences that are wrong -/

/-- A registry of nothing but sequences, which may not lie in each other. -/
def Registry.flat : Registry :=
  ⟨[("do", Kind.sequence.registration)], 1⟩

def Value.sequenceOf (vs : List Value) : Value :=
  .mapping [("action", .text "do"), ("statements", .list vs)]

namespace Registry

theorem actionAt_sequenceOf {vs : List Value} {route : Route} {u : Value}
    (hat : flat.ActionAt (.sequenceOf vs) route u) :
    route = [] ∧ u = .sequenceOf vs ∨
      ∃ w ∈ vs, ∃ loc rest, route = loc :: rest ∧ flat.ActionAt w rest u := by
  cases hat with
  | here => exact .inl ⟨rfl, rfl⟩
  | part hkind hschema hpart hinner =>
      cases hkind
      cases hschema
      cases hpart with
      | field hrule hname hv hu =>
          obtain rfl := List.mem_singleton.1 hrule
          obtain rfl := List.mem_singleton.1 hname
          cases hv
          cases hu with
          | actions hu => exact .inr ⟨_, List.mem_of_getElem? hu, _, _, rfl, hinner⟩

theorem flaw_sequenceOf_iff {level : Nat} {vs : List Value} {code : ErrorCode} :
    flat.Flaw level (.sequenceOf vs) code ↔ 1 < level ∧ code = .recursionLimit := by
  have hlimit : flat.maxDepth < level ↔ 1 < level := by
    change (1 : Int) < level ↔ _
    omega
  have hfits : (Schema.kind .sequence).Fits [("action", .text "do"), ("statements", .list vs)] := by
    refine .kind rfl (by simp [Kind.fieldNames, Kind.rules, FieldRule.need]) fun rule hrule => ?_
    obtain rfl := List.mem_singleton.1 hrule
    exact FieldRule.kept_need.2 ⟨_, rfl, vs, rfl, fun _ _ => trivial⟩
  constructor
  · intro hflaw
    cases hflaw with
    | nameless hv => exact absurd rfl (hv _ _ rfl)
    | unknown hkind hget =>
        cases hkind
        cases hget
    | tooDeep _ _ hlevel => exact ⟨hlimit.1 hlevel, rfl⟩
    | misshapen hkind hschema hnot =>
        cases hkind
        cases hschema
        exact absurd hfits hnot
  · rintro ⟨hlevel, rfl⟩
    exact .tooDeep rfl rfl (hlimit.2 hlevel)

/-- What is wrong in a sequence of one action without parts is wrong with this action. -/
theorem hasFlaw_sequenceOf_iff {w : Value} {code : ErrorCode}
    (hw : ∀ route u, flat.ActionAt w route u → route = [] ∧ u = w) :
    flat.HasFlaw (.sequenceOf [w]) code ↔ flat.Flaw 2 w code := by
  constructor
  · rintro ⟨_, u, ⟨route, hat, rfl⟩, hflaw⟩
    obtain ⟨rfl, rfl⟩ | ⟨w', hw', loc, rest, rfl, hinner⟩ := actionAt_sequenceOf hat
    · exact absurd (flaw_sequenceOf_iff.1 hflaw).1 (Nat.lt_irrefl 1)
    · obtain rfl := List.mem_singleton.1 hw'
      obtain ⟨rfl, rfl⟩ := hw rest u hinner
      exact hflaw
  · intro hflaw
    have hpart : Kind.sequence.Holds [("action", .text "do"), ("statements", .list [w])]
        [.key "statements", .index 0] w :=
      Kind.holds_of_need List.mem_cons_self rfl (.actions rfl)
    exact ⟨2, w, ⟨_, .part rfl rfl hpart (.here w), rfl⟩, hflaw⟩

end Registry

theorem refusals_truthful_flat :
    (∃ e, Registry.flat.parseAction (.sequenceOf [.mapping [("action", .text "nap")]]) = .error e ∧
      e.code = .unknownAction) ∧
    ∃ e, Registry.flat.parseAction (.sequenceOf [.sequenceOf []]) = .error e ∧
      e.code = .recursionLimit ∧ e.message = "actions nested deeper than 1 levels" := by
  obtain ⟨htruthful, -, honly, -⟩ := refusals_truthful .flat
  have hunknown : Registry.flat.schemaOf? "nap" = none := by decide +kernel
  constructor
  · -- the unknown name lies too deep as well, but only names that are known are refused for that
    have hflaw (code : ErrorCode) :
        Registry.flat.HasFlaw (.sequenceOf [.mapping [("action", .text "nap")]]) code ↔
          code = .unknownAction := by
      rw [Registry.hasFlaw_sequenceOf_iff]
      · constructor
        · intro hflaw
          cases hflaw with
          | nameless hv => exact absurd rfl (hv _ _ rfl)
          | unknown => rfl
          | tooDeep hkind hschema =>
              cases hkind
              cases hunknown.symm.trans hschema
          | misshapen hkind hschema =>
              cases hkind
              cases hunknown.symm.trans hschema
        · rintro rfl
          exact .unknown rfl rfl (by decide +kernel)
      · intro route u hat
        cases hat with
        | here => exact ⟨rfl, rfl⟩
        | part hkind hschema =>
            cases hkind
            cases hunknown.symm.trans hschema
    exact honly _ _ ((hflaw _).2 rfl) fun code hcode => (hflaw code).1 hcode
  · have hflaw (code : ErrorCode) :
        Registry.flat.HasFlaw (.sequenceOf [.sequenceOf []]) code ↔ code = .recursionLimit := by
      rw [Registry.hasFlaw_sequenceOf_iff]
      · simp [Registry.flaw_sequenceOf_iff]
      · intro route u hat
        obtain hhere | ⟨w, hw, -⟩ := Registry.actionAt_sequenceOf hat
        · exact hhere
        · cases hw
    obtain ⟨e, hparse, hcode⟩ := honly _ _ ((hflaw _).2 rfl) fun code hcode => (hflaw code).1 hcode
    exact ⟨e, hparse, hcode, ((htruthful _ e hparse).tooDeep hcode).2⟩

end Pagescript
