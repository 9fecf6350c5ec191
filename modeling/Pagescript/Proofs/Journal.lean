import Pagescript.Proofs.Flaws
import Pagescript.Proofs.Lines
import Pagescript.Proofs.ReadBack
import Pagescript.Proofs.Records
import Pagescript.Proofs.Stepwise
/-!
# The journal of a session

What a runner returns, reports and records is told from the steps that its runs evaluate.  A run
evaluates its steps in order, up to the first that fails, and the last one that it evaluates decides
how it ends.  The event log has a line for each of them, over all runs of the session, and what the
line says can be read from it.
-/

namespace Pagescript

variable {σ : Type}

/-- What a runner reports of the end of a run. -/
def Outcome.warnings : Outcome → List LogRecord
  | .ok _ => []
  | .error e => [⟨LogRecord.runnerLogger, Level.warning, e.summary⟩]

namespace EventLog

/-- What a line says under a name. -/
def told (line name : String) : Option Value :=
  match Json.read line with
  | some (.mapping fields) => Entries.get? fields name
  | _ => none

end EventLog

namespace Runner

variable {it : Interpreter σ} {index : Nat} {s : Session σ} {log : EventLog} {texts : List String}

/-! ### One run -/

theorem reports_evaluateStep (it : Interpreter σ) (frame : Frame Handle) (step : Step) :
    Reports (evaluateStep it frame step) := by
  cases step with
  | action a => exact it.reports_evaluate a frame
  | raw v =>
      change Reports (it.evaluateRaw v frame)
      unfold Interpreter.evaluateRaw
      split
      · exact it.reports_evaluate _ frame
      · exact .throw _

namespace Evaluates

variable {steps : List Step} {w : World σ} {stages : List (Stage σ)}

/-- No stage logs a warning. -/
theorem exists_records (hstages : Evaluates it index steps w stages) :
    ∃ quiet, (endWorld w stages).records = w.records ++ quiet ∧
      ∀ record ∈ quiet, record.level ≠ Level.warning := by
  have hone {index : Nat} {step : Step} {w w' : World σ} {outcome : Outcome}
      (hstep : (evaluateStep it { source := sourceOf index } step).outcome w = (.ok outcome, w')) :
      ∃ quiet, w'.records = w.records ++ quiet ∧ ∀ record ∈ quiet, record.level ≠ Level.warning := by
    have hworld : w' = (evaluateStep it { source := sourceOf index } step w).2 := by
      rw [← Evaluation.world_outcome, hstep]
    rw [hworld]
    exact (reports_evaluateStep it _ step).exists_records w
  induction hstages with
  | done index w => exact ⟨[], (List.append_nil _).symm, nofun⟩
  | failed hstep rest => exact hone hstep
  | next hstep hrest ih =>
      obtain ⟨first, hfirst, hquiet⟩ := hone hstep
      obtain ⟨second, hsecond, hquiet'⟩ := ih
      refine ⟨first ++ second, ?_, fun record hrecord => ?_⟩
      · rw [endWorld_cons, hsecond, hfirst, List.append_assoc]
      · exact (List.mem_append.1 hrecord).elim (hquiet record) (hquiet' record)

end Evaluates

/-! ### One operation -/

end Runner

namespace Runner

variable {r : Runner σ} {s : Session σ} {log : EventLog} {op : Operation}

/-- The session after the error that ends a run has been reported. -/
def reporting (s : Session σ) (e : ActionError) : Session σ :=
  { s with world := s.world.withRecords (s.world.records ++ Outcome.warnings (.error e)) }

theorem run_of_refused_eq {document : Document} {e : ParseError}
    (hparse : document.parse r.registry = .error e) (s : Session σ) :
    r.run document s = match document.offending e.details with
      | .ok action => (.ok (.error (refusal e action)), reporting s (refusal e action))
      | .error container => (.error (.nestedTooDeep container), s) := by
  rw [run, hparse]
  simp only [refuse]
  cases document.offending e.details with
  | ok action => rfl
  | error container => rfl

end Runner

/-! ### The file -/

/-- The text of the file under a name, empty if there is none. -/
def Archive.textOf (archive : Archive) (name : String) : String :=
  (Entries.get? archive.files name).getD ""

namespace EventLog

variable {log : EventLog}

end EventLog

namespace Runner

variable {r : Runner σ} {s : Session σ} {log : EventLog}

/-! ### A whole session -/

/-- A session whose log is kept. -/
def journaledSession : Session Script :=
  { pausingSession with
    events := some
      { runId := "c", base := ⟨"", ["runs", "c"]⟩, name := some "runs/c/events.jsonl" } }

end Runner

end Pagescript
