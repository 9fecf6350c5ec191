import Pagescript.Proofs.Flaws
import Pagescript.Proofs.Refusal
/-!
# The action that a refusal shows

The error for a document that is refused shows a part of the document.  It is the innermost mapping
on the way to the first issue: the way is followed as far as the document goes, and the last mapping
that was met is shown as it is written.
-/

namespace Pagescript

/-! ### Ways into a document -/

/-- One step into a value: to an item of a row by its position, or to what stands under a name. -/
inductive Value.Into : Value → Segment → Value → Prop
  | item {xs : List Value} {i : Nat} {v : Value} (hitem : xs[i]? = some v) :
      Into (.list xs) (.index i) v
  | place {xs : List Value} {i : Nat} {v : Value} (hplace : xs[i]? = some v) :
      Into (.tuple xs) (.index i) v
  | entry {fields : Fields} {name : String} {v : Value} (hentry : Entries.get? fields name = some v) :
      Into (.mapping fields) (.key name) v

/-- A location leads from a value to one of its parts: every step of it can be taken. -/
inductive Value.Reaches : Value → List Segment → Value → Prop
  | here (v : Value) : Reaches v [] v
  | step {v u w : Value} {segment : Segment} {rest : List Segment} (hinto : v.Into segment u)
      (hrest : u.Reaches rest w) : Reaches v (segment :: rest) w

/-- The longest beginning of a location that leads to a mapping is `taken`, and the mapping is
`found`. -/
structure Value.Innermost (v : Value) (loc taken : List Segment) (found : Fields) : Prop where
  isPrefix : taken <+: loc
  reaches : v.Reaches taken (.mapping found)
  longest : ∀ longer, longer <+: loc → taken.length < longer.length →
    ∀ fields, ¬ v.Reaches longer (.mapping fields)

namespace Value

variable {v u w : Value} {segment : Segment} {loc rest taken : List Segment} {found : Fields}

theorem Into.eq (hu : v.Into segment u) (hw : v.Into segment w) : u = w := by
  cases hu with
  | item hu =>
      cases hw with
      | item hw => exact Option.some.inj (hu.symm.trans hw)
  | place hu =>
      cases hw with
      | place hw => exact Option.some.inj (hu.symm.trans hw)
  | entry hu =>
      cases hw with
      | entry hw => exact Option.some.inj (hu.symm.trans hw)

theorem Reaches.eq (hu : v.Reaches loc u) (hw : v.Reaches loc w) : u = w := by
  induction hu with
  | here v =>
      cases hw with
      | here => rfl
  | step hinto _ ih =>
      cases hw with
      | step hinto' hrest' => exact ih (hinto'.eq hinto ▸ hrest')

theorem reaches_cons_iff (hinto : v.Into segment u) :
    v.Reaches (segment :: rest) w ↔ u.Reaches rest w := by
  constructor
  · intro hreaches
    cases hreaches with
    | step hinto' hrest => exact hinto'.eq hinto ▸ hrest
  · exact .step hinto

theorem Innermost.cons (hinto : v.Into segment u) (hinner : u.Innermost loc taken found) :
    v.Innermost (segment :: loc) (segment :: taken) found := by
  constructor
  · exact List.prefix_cons_inj segment |>.2 hinner.isPrefix
  · exact .step hinto hinner.reaches
  · intro longer hlonger hlength fields hreaches
    cases longer with
    | nil => exact absurd hlength (Nat.not_lt_zero _)
    | cons first more =>
        obtain ⟨rfl, hmore⟩ := List.cons_prefix_cons.1 hlonger
        have hlength' : taken.length < more.length := Nat.lt_of_succ_lt_succ hlength
        exact hinner.longest more hmore hlength' fields ((reaches_cons_iff hinto).1 hreaches)

/-- A mapping is the innermost if none lies behind it. -/
theorem Innermost.of_none_behind
    (hnone : ∀ segment rest, segment :: rest <+: loc →
      ∀ fields, ¬ (mapping found).Reaches (segment :: rest) (.mapping fields)) :
    (mapping found).Innermost loc [] found := by
  constructor
  · exact List.nil_prefix
  · exact .here _
  · intro longer hlonger hlength
    cases longer with
    | nil => exact absurd hlength (Nat.lt_irrefl 0)
    | cons segment rest => exact hnone segment rest hlonger

theorem innermost_of_reaches (hreaches : v.Reaches loc (.mapping found)) :
    v.Innermost loc loc found :=
  ⟨List.prefix_rfl, hreaches, fun _ hlonger hlength =>
    absurd hlonger.length_le (Nat.not_le_of_lt hlength)⟩

/-- There is one innermost mapping at most. -/
theorem Innermost.eq {taken' : List Segment} {found' : Fields} (h : v.Innermost loc taken found)
    (h' : v.Innermost loc taken' found') : found = found' := by
  have hle : taken.length ≤ taken'.length := by
    by_contra hlt
    exact h'.longest taken h.isPrefix (Nat.lt_of_not_le hlt) found h.reaches
  have hge : taken'.length ≤ taken.length := by
    by_contra hlt
    exact h.longest taken' h'.isPrefix (Nat.lt_of_not_le hlt) found' h'.reaches
  have htaken : taken = taken' :=
    (List.prefix_of_prefix_length_le h.isPrefix h'.isPrefix hle).eq_of_length_le hge
  exact mapping.inj (h.reaches.eq (htaken ▸ h'.reaches))

end Value

/-! ### The innermost mapping -/

namespace Document

theorem descend?_eq_some_iff {v u : Value} {segment : Segment} :
    descend? v segment = some u ↔ v.Into segment u := by
  constructor
  · intro hdescend
    cases segment with
    | key name =>
        cases v with
        | mapping fields => exact .entry hdescend
        | _ => cases hdescend
    | index i =>
        have hitem {xs : List Value}
            (hxs : (if i < 0 then none else xs[i.toNat]?) = some u) :
            xs[i.toNat]? = some u ∧ i = i.toNat := by
          by_cases hi : i < 0
          · rw [if_pos hi] at hxs
            cases hxs
          · rw [if_neg hi] at hxs
            exact ⟨hxs, by omega⟩
        cases v with
        | list xs =>
            obtain ⟨hu, hi⟩ := hitem hdescend
            rw [hi]
            exact .item hu
        | tuple xs =>
            obtain ⟨hu, hi⟩ := hitem hdescend
            rw [hi]
            exact .place hu
        | _ => cases hdescend
  · intro hinto
    cases hinto with
    | item hu | place hu => simpa [descend?] using hu
    | entry hu => exact hu

/-- What is found on the way from a value on: the innermost mapping behind it, or what was found
before if there is none. -/
theorem innermost_cases (found : Fields) (v : Value) (loc : List Segment) :
    (∃ segment rest, v.Innermost loc (segment :: rest) (innermost found v loc)) ∨
      innermost found v loc = found ∧
        ∀ segment rest, segment :: rest <+: loc →
          ∀ fields, ¬ v.Reaches (segment :: rest) (.mapping fields) := by
  induction loc generalizing found v with
  | nil => exact .inr ⟨rfl, fun segment rest hbegins => absurd hbegins (by simp)⟩
  | cons segment loc ih =>
      rw [innermost]
      cases hnext : descend? v segment with
      | none =>
          refine .inr ⟨rfl, fun first rest hbegins fields hreaches => ?_⟩
          obtain ⟨rfl, -⟩ := List.cons_prefix_cons.1 hbegins
          cases hreaches with
          | step hinto => exact absurd (hnext.symm.trans (descend?_eq_some_iff.2 hinto)) (by simp)
      | some next =>
          have hinto : v.Into segment next := descend?_eq_some_iff.1 hnext
          obtain ⟨first, rest, hinner⟩ | ⟨hfound, hnone⟩ := ih (mappingOr found next) next
          · exact .inl ⟨segment, first :: rest, hinner.cons hinto⟩
          · -- nothing lies behind `next`, so it depends on `next` itself
            simp only [hfound]
            cases next with
            | mapping fields =>
                refine .inl ⟨segment, [], .cons hinto (.of_none_behind fun first more => ?_)⟩
                exact hnone first more
            | _ =>
                refine .inr ⟨rfl, fun first more hbegins fields hreaches => ?_⟩
                obtain ⟨rfl, hmore⟩ := List.cons_prefix_cons.1 hbegins
                have hrest := (Value.reaches_cons_iff hinto).1 hreaches
                cases more with
                | nil => cases hrest
                | cons second more => exact hnone second more hmore fields hrest

theorem exists_innermost (fields : Fields) (loc : List Segment) :
    ∃ taken, (Value.mapping fields).Innermost loc taken (innermost fields (.mapping fields) loc) := by
  obtain ⟨segment, rest, hinner⟩ | ⟨hfound, hnone⟩ := innermost_cases fields (.mapping fields) loc
  · exact ⟨segment :: rest, hinner⟩
  · rw [hfound]
    exact ⟨[], .of_none_behind hnone⟩

/-! ### Refusals -/

theorem explained_check (registry : Registry) (document : Document) :
    (document.check registry).Explained fun _ => True := by
  have hvalue (form : Notation) (v : Value) :
      (Program.ofValue registry form v).Explained fun _ => True := by
    cases v with
    | mapping fields => exact (Program.explained_ofFields registry form fields).mono fun _ _ => trivial
    | _ => exact Check.explained_fail trivial
  have htext (s : Option String) : (checkText registry s).Explained fun _ => True := by
    unfold checkText
    split
    · exact hvalue _ _
    · exact Check.explained_fail trivial
  cases document with
  | value v => exact hvalue _ v
  | text s => exact htext _
  | bytes bs => exact htext _
  | program p => exact Check.explained_of_isValid ⟨p, rfl⟩

/-- A refusal has a first issue. -/
theorem exists_details_eq_cons {document : Document} {registry : Registry} {e : ParseError}
    (hparse : document.parse registry = .error e) :
    ∃ first rest, e.details = first :: rest := by
  unfold parse at hparse
  split at hparse
  · cases hparse
  next issues hcheck =>
    cases hparse
    cases issues with
    | nil => exact absurd rfl (explained_check registry document [] hcheck).1
    | cons first rest => exact ⟨first, rest, rfl⟩

end Document

namespace Runner

variable {σ : Type} {r : Runner σ} {document : Document} {fields : Fields} {e : ParseError}

/-- The action that a refusal shows.

A run whose document is a mapping and is refused returns an error, and the action of this error is
the mapping at the end of the longest beginning of the first issue's location that leads to a
mapping.  So a step or an action of the program at which the first issue lies is shown as it is
written. -/
theorem refused_action_innermost (hvalue : document.toValue = .ok (.mapping fields))
    (hparse : document.parse r.registry = .error e) (s : Session σ) :
    ∃ first rest action taken,
      e.details = first :: rest ∧
      r.run document s = (.ok (.error (refusal e action)), reporting s (refusal e action)) ∧
      (Value.mapping fields).Innermost first.loc taken action ∧
      (∀ i entry, first.loc = [.key "steps", .index i] →
        (Value.mapping fields).Reaches [.key "steps", .index i] (.mapping entry) →
        (refusal e action).action = .mapping entry) ∧
      ∀ name entry, first.loc = [.key "actions", .key name] →
        (Value.mapping fields).Reaches [.key "actions", .key name] (.mapping entry) →
        (refusal e action).action = .mapping entry := by
  obtain ⟨first, rest, hdetails⟩ := Document.exists_details_eq_cons hparse
  obtain ⟨taken, hinner⟩ := Document.exists_innermost fields first.loc
  have hshown {entry : Fields} (hentry : (Value.mapping fields).Reaches first.loc (.mapping entry)) :
      (refusal e (Document.innermost fields (.mapping fields) first.loc)).action =
        .mapping entry :=
    congrArg Value.mapping (hinner.eq (Value.innermost_of_reaches hentry))
  refine ⟨first, rest, _, taken, hdetails, ?_, hinner, ?_, ?_⟩
  · rw [run_of_refused_eq hparse, Document.offending, hvalue, hdetails]
    rfl
  · intro i entry hloc hentry
    exact hshown (hloc ▸ hentry)
  · intro name entry hloc hentry
    exact hshown (hloc ▸ hentry)

/-- A step that has a number for a message, as it is written. -/
def numberedRemark : Fields :=
  [("action", .text "log"), ("message", .int 5)]

/-- A document of steps. -/
def stepsOnly (steps : List Value) : Fields :=
  [("steps", .list steps)]

/-- The first issue of a document of steps is the one of its first step. -/
theorem parse_stepsOnly {registry : Registry} {v : Value} {e : ParseError}
    (hparse : registry.parseAction v.settle = .error e) (rest : List Value) :
    ∃ issues, (Document.value (.mapping (stepsOnly (v :: rest)))).parse registry =
      .error (.ofIssues (⟨.nested e.code e.message, [.key "steps", .index 0]⟩ :: issues)) := by
  have hnode : registry.node v.settle = .invalid [e.toIssue] := by
    rw [Registry.node, hparse]
  have hsteps : ∃ issues, Reader.withDefault (Entries.ofList (stepsOnly (v :: rest))) "steps" []
      (Reader.listOf .value fun v => registry.node v.settle) =
        .invalid (⟨.nested e.code e.message, [.key "steps", .index 0]⟩ :: issues) := by
    have hget : Entries.get? (Entries.ofList (stepsOnly (v :: rest))) "steps" =
        some (.list (v :: rest)) := rfl
    rw [Reader.withDefault, hget]
    simp only [Reader.listOf, Reader.items, hnode]
    cases Reader.items (fun v => registry.node v.settle) 1 rest with
    | valid as => exact ⟨[], rfl⟩
    | invalid issues => exact ⟨_, rfl⟩
  obtain ⟨issues, hsteps⟩ := hsteps
  have hread : (Document.value (.mapping (stepsOnly (v :: rest)))).check registry =
      .invalid (⟨.nested e.code e.message, [.key "steps", .index 0]⟩ :: issues) := by
    rw [Document.check, Program.ofValue, Program.ofFields]
    simp only [hsteps]
    rfl
  exact ⟨issues, by rw [Document.parse, hread]⟩

theorem refused_action_innermost_numbered :
    (∃ e, remarking.run (.value (.mapping (stepsOnly [.mapping numberedRemark]))) remarkingSession =
        (.ok (.error e), reporting remarkingSession e) ∧ e.action = .mapping numberedRemark) ∧
    ∃ e, remarking.run (.value (.mapping (stepsOnly [.int 5, .mapping numberedRemark])))
        remarkingSession = (.ok (.error e), reporting remarkingSession e) ∧
      e.action = .mapping (stepsOnly [.int 5, .mapping numberedRemark]) := by
  constructor
  · have hstep : remarking.registry.parseAction (Value.settle (.mapping numberedRemark)) =
        .error (.inAction "log" [⟨.notText, [.key "message"]⟩]) :=
      @Registry.parseWithin_succ remarking.registry 127 _ numberedRemark "log" (.kind .log) rfl rfl
    obtain ⟨issues, hparse⟩ := parse_stepsOnly hstep []
    obtain ⟨first, rest, action, taken, hdetails, hrun, -, hshown, -⟩ :=
      refused_action_innermost rfl hparse remarkingSession
    obtain ⟨rfl, rfl⟩ := List.cons.inj hdetails
    exact ⟨_, hrun, hshown 0 numberedRemark rfl (.step (.entry rfl) (.step (.item rfl) (.here _)))⟩
  · have hstep : remarking.registry.parseAction (Value.settle (.int 5)) =
        .error (.malformed "expected an action mapping, got int") := by
      rw [Registry.parseAction, Registry.parseWithin]
      rfl
    obtain ⟨issues, hparse⟩ := parse_stepsOnly hstep [.mapping numberedRemark]
    obtain ⟨first, rest, action, taken, hdetails, hrun, hinner, -, -⟩ :=
      refused_action_innermost rfl hparse remarkingSession
    obtain ⟨rfl, rfl⟩ := List.cons.inj hdetails
    refine ⟨_, hrun, ?_⟩
    cases hinner.reaches with
    | here => rfl
    | step hfirst hrest =>
        -- the way leads to the row of steps and from there to the number, neither of which is a mapping
        obtain ⟨rfl, hbegins⟩ := List.cons_prefix_cons.1 hinner.isPrefix
        cases hfirst with
        | entry hsteps =>
            cases hsteps
            cases hrest with
            | step hsecond hrest =>
                obtain ⟨rfl, hbegins⟩ := List.cons_prefix_cons.1 hbegins
                cases hsecond with
                | item hitem =>
                    cases hitem
                    cases hrest with
                    | step hthird => cases hthird

end Runner

end Pagescript
