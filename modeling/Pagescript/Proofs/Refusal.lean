import Pagescript.Proofs.Journal
/-!
# Documents that are refused

A run whose document is refused leaves nothing behind but what it logs, and no operation looks at
what was logged before.  So such runs can be left out of any sequence of operations, and all other
operations come to the same.
-/

namespace Pagescript

variable {σ α : Type}

def Session.withRecords (s : Session σ) (records : List LogRecord) : Session σ :=
  { s with world := s.world.withRecords records }

/-- Whatever was logged before, an activity comes to the same and adds the same records. -/
abbrev Activity.Oblivious (x : Activity σ α) : Prop :=
  Adds Session.withRecords (fun _ => True) x

namespace Activity

theorem oblivious_ofInteraction {x : Interaction σ α} (hx : Reports x) :
    Oblivious (ofInteraction x) := by
  intro s
  obtain ⟨new, -, hsame⟩ := hx s.world
  refine ⟨new, fun _ _ => trivial, fun earlier => ?_⟩
  have hworld : (s.withRecords earlier).world = s.world.withRecords earlier := rfl
  simp only [ofInteraction, hworld, hsame earlier]
  rfl

theorem oblivious_changeWorld {f : World σ → World σ}
    (hf : ∀ w earlier, f (World.withRecords w earlier) = (f w).withRecords earlier) :
    Oblivious (changeWorld f) := by
  refine .modify fun s earlier => ?_
  change { s with world := f (s.world.withRecords earlier) } = _
  rw [hf]
  rfl

theorem Oblivious.andThenAlways {x : Activity σ α} {last : Activity σ Unit} (hx : Oblivious x)
    (hlast : Oblivious last) : Oblivious (x.andThenAlways last) := by
  refine ((hx.map Except.ok).tryCatch fun f => .pure _).bind fun result => hlast.bind fun _ => ?_
  cases result with
  | ok v => exact .pure v
  | error f => exact .throw f

end Activity

theorem Evaluation.reports_outcome {x : Evaluation σ Value} (hx : Reports x) :
    Reports x.outcome := by
  intro w
  obtain ⟨new, hnew, hsame⟩ := hx w
  refine ⟨new, hnew, fun earlier => ?_⟩
  unfold outcome
  rw [hsame earlier]
  cases hresult : x w with
  | mk result w' =>
      cases result with
      | ok v => rfl
      | error s =>
          cases s with
          | failed e => rfl
          | fault f => rfl

namespace Runner

open Activity

/-! ### Operations -/

theorem oblivious_record (source : String) (step : Step) (outcome : Outcome)
    (started : Binary64) : Oblivious (record source step outcome started : Activity σ Unit) := by
  refine .of_silent fun s earlier => ?_
  obtain ⟨n, archive, hrecord⟩ := record_retarget source step outcome started s
  have hself : record source step outcome started s = _ := hrecord s.world s.program rfl
  rw [hself]
  exact hrecord (s.world.withRecords earlier) s.program rfl

theorem oblivious_failed (e : ActionError) : Oblivious (failed e : Activity σ Outcome) := by
  intro s
  refine ⟨Outcome.warnings (.error e), fun _ _ => trivial, fun earlier => rfl⟩

theorem oblivious_runStep (it : Interpreter σ) (index : Nat) (step : Step) :
    Oblivious (runStep it index step) := by
  refine .get_bind (fun s => ?_) fun s earlier => rfl
  have hevaluate := Evaluation.reports_outcome
    (reports_evaluateStep it { source := sourceOf index } step)
  refine (oblivious_ofInteraction hevaluate).bind fun outcome => ?_
  exact (oblivious_record _ step outcome _).bind fun _ => .pure outcome

theorem oblivious_runFrom (it : Interpreter σ) (index : Nat) (v : Value) (steps : List Step) :
    Oblivious (runFrom it index v steps) := by
  induction steps generalizing index v with
  | nil => exact .pure _
  | cons step rest ih =>
      refine (oblivious_runStep it index step).bind fun outcome => ?_
      cases outcome with
      | ok v => exact ih (index + 1) v
      | error e => exact oblivious_failed e

variable (r : Runner σ)

theorem oblivious_runSteps (steps : List Step) : Oblivious (r.runSteps steps) := by
  refine (oblivious_changeWorld fun w earlier => rfl).bind fun _ => ?_
  exact .get_bind (fun s => oblivious_runFrom _ 0 .null steps) fun s earlier => rfl

theorem oblivious_run (document : Document) : Oblivious (r.run document) := by
  unfold run
  split
  · unfold refuse
    split
    · exact oblivious_failed _
    · exact .throw _
  · exact Adds.bind (.modify fun s earlier => rfl) fun _ => r.oblivious_runSteps _

theorem oblivious_close : Oblivious r.close := by
  refine .get_bind (fun s => ?_) fun s earlier => rfl
  split
  · exact .pure ()
  · refine Adds.bind (.modify fun s earlier => rfl) fun _ => ?_
    refine (oblivious_changeWorld fun w earlier => rfl).bind fun _ => ?_
    exact (oblivious_ofInteraction (Surface.reports_close r.surface.page)).andThenAlways
      (.modify fun s earlier => rfl)

theorem oblivious_perform (op : Operation) : Oblivious (r.perform op) := by
  cases op with
  | run document => exact (r.oblivious_run document).map _
  | runSteps steps => exact (r.oblivious_runSteps steps).map _
  | cancel => exact (oblivious_changeWorld fun w earlier => rfl).bind fun _ => .pure _
  | cancelAfter seconds => exact (oblivious_changeWorld fun w earlier => rfl).bind fun _ => .pure _
  | advance seconds =>
      refine (oblivious_changeWorld fun w earlier => ?_).bind fun _ => .pure _
      exact w.sleep_withRecords earlier seconds
  | close => exact r.oblivious_close.bind fun _ => .pure _
  | runAndClose document =>
      exact ((r.oblivious_run document).andThenAlways r.oblivious_close).map _

/-! ### Answers -/

/-- Whether an operation is a run whose document is refused. -/
def Operation.refused (registry : Registry) : Operation → Bool
  | .run document => !(document.parse registry).isOk
  | _ => false

/-- What can be seen of an operation: what it comes to, the session it leaves, but for the records,
and the records that it adds. -/
structure Answer (σ : Type) where
  result : Except Fault (Option Outcome)
  session : Session σ
  records : List LogRecord

def answer (r : Runner σ) (s : Session σ) (op : Operation) : Answer σ where
  result := (r.perform op s).1
  session := (r.perform op s).2.withRecords []
  records := (r.perform op s).2.world.records.drop s.world.records.length

/-- The operations of a sequence, each with its answer. -/
def answers (r : Runner σ) (s : Session σ) : List Operation → List (Operation × Answer σ)
  | [] => []
  | op :: ops => (op, r.answer s op) :: r.answers (r.perform op s).2 ops

theorem perform_withRecords (op : Operation) (s : Session σ) (earlier : List LogRecord) :
    ∃ new, (r.perform op s).2.world.records = s.world.records ++ new ∧
      r.perform op (s.withRecords earlier) =
        ((r.perform op s).1, (r.perform op s).2.withRecords (earlier ++ new)) := by
  obtain ⟨new, -, hsame⟩ := r.oblivious_perform op s
  refine ⟨new, ?_, hsame earlier⟩
  have hself : r.perform op s =
      ((r.perform op s).1, (r.perform op s).2.withRecords (s.world.records ++ new)) :=
    hsame s.world.records
  rw [hself]
  rfl

theorem answers_withRecords (s : Session σ) (earlier : List LogRecord) (ops : List Operation) :
    r.answers (s.withRecords earlier) ops = r.answers s ops := by
  induction ops generalizing s earlier with
  | nil => rfl
  | cons op ops ih =>
      obtain ⟨new, hrecords, hsame⟩ := r.perform_withRecords op s earlier
      have hnew : (earlier ++ new).drop earlier.length =
          (s.world.records ++ new).drop s.world.records.length := by
        calc (earlier ++ new).drop earlier.length = new := List.drop_left
          _ = (s.world.records ++ new).drop s.world.records.length := List.drop_left.symm
      have hanswer : r.answer (s.withRecords earlier) op = r.answer s op := by
        rw [answer, answer, hsame, hrecords, ← hnew]
        rfl
      rw [answers, answers, hanswer, hsame, ih]

variable {r} {op : Operation}

theorem exists_perform_of_refused (hop : op.refused r.registry = true) (s : Session σ) :
    ∃ records, (r.perform op s).2 = s.withRecords records := by
  cases op with
  | run document =>
      cases hparse : document.parse r.registry with
      | ok program =>
          rw [Operation.refused, hparse] at hop
          cases hop
      | error e =>
          rw [perform, map_apply, run_of_refused_eq hparse]
          cases document.offending e.details with
          | ok action => exact ⟨_, rfl⟩
          | error container => exact ⟨s.world.records, rfl⟩
  | _ => cases hop

/-- Runs whose documents are refused can be left out. -/
theorem answers_filter (r : Runner σ) (s : Session σ) (ops : List Operation) :
    (r.answers s ops).filter (fun answered => !answered.1.refused r.registry) =
      r.answers s (ops.filter fun op => !op.refused r.registry) := by
  induction ops generalizing s with
  | nil => rfl
  | cons op ops ih =>
      by_cases hop : op.refused r.registry = true
      · obtain ⟨records, hsession⟩ := exists_perform_of_refused hop s
        have hrest : r.answers (r.perform op s).2 ops = r.answers s ops := by
          rw [hsession, answers_withRecords]
        rw [answers, List.filter_cons_of_neg (by simp [hop]),
          List.filter_cons_of_neg (by simp [hop]), hrest, ih]
      · rw [answers, List.filter_cons_of_pos (by simp [hop]),
          List.filter_cons_of_pos (by simp [hop]), answers, ih]

/-! ### Refusals -/

/-- What a run comes to whose document is refused.  Only a document that is nested too deep to be
looked into is not reported; and a run that closes the runner afterwards does only that. -/
structure Refuses (r : Runner σ) (s : Session σ) (document : Document) (e : ParseError) : Prop where
  code : e.code = .malformedAction ∨ e.code = .unknownAction ∨ e.code = .recursionLimit
  reported : (∀ container, document.toValue ≠ .error (.tooDeep container)) →
    ∃ action, r.run document s = (.ok (.error (refusal e action)), reporting s (refusal e action))
  tooDeep : ∀ container, document.toValue = .error (.tooDeep container) →
    r.run document s = (.error (.nestedTooDeep container), s)
  closing : (r.runAndClose document s).2.withRecords [] = (r.close s).2.withRecords []

end Runner

theorem ParseError.code_ofIssues (issues : List Issue) :
    (ofIssues issues).code = .malformedAction ∨ (ofIssues issues).code = .unknownAction ∨
      (ofIssues issues).code = .recursionLimit := by
  have hcodeOf (complaint : Complaint) : codeOf complaint = .malformedAction ∨
      codeOf complaint = .unknownAction ∨ codeOf complaint = .recursionLimit := by
    unfold codeOf
    split
    · exact .inr (.inl rfl)
    · exact .inr (.inr rfl)
    · exact .inl rfl
  cases issues with
  | nil => exact .inl rfl
  | cons first rest => exact hcodeOf first.complaint

theorem Document.code_of_parse_error {document : Document} {registry : Registry} {e : ParseError}
    (hparse : document.parse registry = .error e) :
    e.code = .malformedAction ∨ e.code = .unknownAction ∨ e.code = .recursionLimit := by
  unfold parse at hparse
  split at hparse
  · cases hparse
  next issues _ =>
    cases hparse
    exact ParseError.code_ofIssues issues

theorem Document.exists_offending {document : Document}
    (hdepth : ∀ container, document.toValue ≠ .error (.tooDeep container)) (issues : List Issue) :
    ∃ action, document.offending issues = .ok action := by
  unfold offending
  split
  · exact ⟨_, rfl⟩
  · exact ⟨[], rfl⟩
  next container hread => exact absurd hread (hdepth container)

namespace Runner

variable {r : Runner σ}

theorem refuses_of_parse_error {document : Document} {e : ParseError}
    (hparse : document.parse r.registry = .error e) (s : Session σ) : r.Refuses s document e := by
  constructor
  · exact document.code_of_parse_error hparse
  · intro hdepth
    obtain ⟨action, haction⟩ := document.exists_offending hdepth e.details
    use action
    rw [run_of_refused_eq hparse, haction]
  · intro container hread
    rw [run_of_refused_eq hparse, Document.offending, hread]
  · have hrefused : (Operation.run document).refused r.registry = true := by
      rw [Operation.refused, hparse]
      rfl
    obtain ⟨records, hrun⟩ := exists_perform_of_refused hrefused s
    rw [perform, map_apply] at hrun
    obtain ⟨new, -, hclose⟩ := r.oblivious_close s
    rw [runAndClose, andThenAlways_apply, hrun, hclose]
    rfl

/-- Documents that are refused leave no trace.

In any sequence of operations those runs whose documents are refused can be left out: all other
operations have the same answers, in whichever session the sequence begins.  And such a run, wherever
it stands, gives one of three errors and reports it by one warning, unless its document is nested too
deep. -/
theorem refused_runs (r : Runner σ) (s : Session σ) (ops : List Operation) :
    (r.answers s ops).filter (fun answered => !answered.1.refused r.registry) =
        r.answers s (ops.filter fun op => !op.refused r.registry) ∧
      ∀ document e, document.parse r.registry = .error e →
        r.Refuses (r.after s ops) document e := by
  constructor
  · exact answers_filter r s ops
  · intro document e hparse
    exact refuses_of_parse_error hparse (r.after s ops)

end Runner

/-! ### Brackets -/

/-- However it goes on, a text that opens too many brackets is not read. -/
theorem Json.value_brackets (limits : Limits) {fuel depth n : Nat} (hfuel : 2 * depth < fuel)
    (hn : depth + 1 < n) (rest : List Char) :
    value limits fuel depth (List.replicate n '[' ++ rest) = .error (.tooDeep .array) := by
  have hskip (cs : List Char) : skip ('[' :: cs) = '[' :: cs := rfl
  obtain ⟨n, rfl⟩ : ∃ k, n = k + 1 + 1 := ⟨n - 2, by omega⟩
  induction depth generalizing fuel n with
  | zero =>
      obtain ⟨fuel, rfl⟩ : ∃ k, fuel = k + 1 := ⟨fuel - 1, by omega⟩
      rw [List.replicate_succ, List.replicate_succ, List.cons_append, List.cons_append, value, hskip]
      simp only [hskip]
      split
      · rfl
      · rfl
  | succ depth ih =>
      -- Each bracket takes a step into the array and a step to its first item.
      obtain ⟨fuel, rfl⟩ : ∃ k, fuel = k + 1 + 1 := ⟨fuel - 2, by omega⟩
      obtain ⟨n, rfl⟩ : ∃ k, n = k + 1 := ⟨n - 1, by omega⟩
      have hinner := @ih fuel (by omega) n (by omega)
      rw [List.replicate_succ, List.cons_append] at hinner
      rw [List.replicate_succ, List.replicate_succ, List.cons_append, List.cons_append, value, hskip]
      simp only [hskip, Nat.succ_ne_zero, decide_false, Bool.and_false, Bool.false_eq_true, if_false]
      change items limits (fuel + 1) depth [] ('[' :: (List.replicate (n + 1) '[' ++ rest)) = _
      rw [items, hinner]
      rfl

theorem Json.readWithin_brackets {limits : Limits} {n : Nat} (hn : limits.depth + 1 < n)
    (rest : List Char) :
    readWithin limits (String.ofList (List.replicate n '[' ++ rest)) = .error (.tooDeep .array) := by
  have hfuel : 2 * limits.depth < 2 * (List.replicate n '[' ++ rest).length + 1 := by
    rw [List.length_append, List.length_replicate]
    omega
  simp only [readWithin, String.toList_ofList, value_brackets limits hfuel hn]
  rfl

def Document.brackets (n : Nat) : Document :=
  .text (String.ofList (List.replicate n '[' ++ List.replicate n ']'))

theorem Document.toValue_brackets {n : Nat} (hn : loose.depth + 1 < n) :
    (brackets n).toValue = .error (.tooDeep .array) := by
  rw [brackets, toValue, Json.readWithin_brackets hn]
  rfl

theorem Document.parse_brackets {n : Nat} (hn : strict.depth + 1 < n) (registry : Registry) :
    (brackets n).parse registry = .error (.ofIssues [.here .invalidJson]) := by
  rw [parse, brackets, check, checkText, Option.map_some, Json.readWithin_brackets hn]
  rfl

namespace Runner

def vainRuns : List Operation :=
  [.run (.value .null), .run (.brackets 982), .runSteps [.action remark]]

theorem refused_runs_vain :
    (remarking.answers journaledSession vainRuns).filter
        (fun answered => !answered.1.refused remarking.registry) =
      remarking.answers journaledSession [.runSteps [.action remark]] ∧
    (∃ e, remarking.run (.value .null) journaledSession =
      (.ok (.error e), reporting journaledSession e)) ∧
    remarking.run (.brackets 982) journaledSession =
      (.error (.nestedTooDeep .array), journaledSession) := by
  have hbrackets := Document.parse_brackets (n := 982) (by decide) remarking.registry
  have hkept : vainRuns.filter (fun op => !op.refused remarking.registry) =
      [.runSteps [.action remark]] := by
    have hrefused : (Operation.run (.brackets 982)).refused remarking.registry = true := by
      rw [Operation.refused, hbrackets]
      rfl
    rw [vainRuns, List.filter_cons_of_neg (by decide), List.filter_cons_of_neg (by simp [hrefused])]
    rfl
  obtain ⟨hfilter, -⟩ := refused_runs remarking journaledSession vainRuns
  have hrefuses := (refused_runs remarking journaledSession []).2
  refine ⟨hkept ▸ hfilter, ?_, ?_⟩
  · obtain ⟨action, hrun⟩ := (hrefuses (.value .null) _ rfl).reported nofun
    exact ⟨_, hrun⟩
  · exact (hrefuses (.brackets 982) _ hbrackets).tooDeep .array
      (Document.toValue_brackets (by decide))

end Runner

end Pagescript
