import Pagescript.Proofs.Registry
/-!
# Failures are passed on

An evaluation that comes upon a failing action fails in the same way and at once: whatever encloses
the failing action has nothing left to do.
-/

namespace Pagescript

open Plan

namespace Interpreter

variable {σ : Type} {it : Interpreter σ} {a : Action} {frame : Frame Handle} {w w' : World σ}

theorem evaluate_of_request_failed {own : Occurrence σ} {earlier later : List (Occurrence σ)}
    {e : ActionError}
    (hrequests : it.requests a frame w = earlier ++ own :: later)
    (hserve : it.serve it.evaluate own.request own.world = (.error (.failed e), w')) :
    it.evaluate a frame w = (.error (.failed e), w') ∧ later = [] := by
  have hown : own ∈ it.requests a frame w := by
    rw [hrequests]
    exact List.mem_append_cons_self
  have hadmits := (asks_of_mem_requests hown).1
  rw [requests_of_admits hadmits] at hrequests
  obtain ⟨hrun, hlater⟩ := run_of_unanswered hrequests hserve
  rw [evaluate_of_admits hadmits]
  exact ⟨step_of_error nofun hrun, hlater⟩

/-- The failure of an action that is evaluated on the way, at whatever level, is the failure of the
whole evaluation: it is the same error, in the world that the failing action has left behind, and
no request is made but those of the failing action. -/
theorem evaluate_of_inner_failed {before after : List (Occurrence σ)} {b : Action}
    {g : Frame Handle} {w₁ w₂ : World σ} {e : ActionError}
    (hcourse : it.course a frame w = before ++ ⟨.evaluate b g, w₁⟩ :: after)
    (hfails : it.evaluate b g w₁ = (.error (.failed e), w₂)) :
    it.evaluate a frame w = (.error (.failed e), w₂) ∧ after = it.course b g w₁ := by
  induction a, frame using it.evaluation_induction generalizing w before after with
  | hstep a frame ih =>
      obtain ⟨earlier, own, later, rest, hrequests, rfl, hrest⟩ :=
        exists_of_course_eq_append hcourse
      -- either way the request that the action makes itself fails
      have hown : it.serve it.evaluate own.request own.world = (.error (.failed e), w₂) ∧
          rest = it.course b g w₁ := by
        obtain ⟨rfl, rfl⟩ | ⟨inner, hinner⟩ := hrest
        · exact ⟨hfails, rfl⟩
        · have hmem : own ∈ it.requests a frame w := by
            rw [hrequests]
            exact List.mem_append_cons_self
          obtain ⟨c, h, w₀, rfl, hh⟩ | hother := cases_of_mem_requests hmem
          · exact ih (asks_of_mem_requests hmem).1 c h hh hinner
          · rw [innerCourse_eq_nil hother] at hinner
            simp at hinner
      obtain ⟨hresult, rfl⟩ := evaluate_of_request_failed hrequests hown.1
      refine ⟨hresult, ?_⟩
      rw [hown.2, List.flatMap_nil, List.append_nil]

/-! ### A failure inside a sequence -/

def failing : Action := .node none (.error "stop")

/-- A sequence that fails before its second action. -/
def failingAtFirst : Action := .node none (.sequence [failing, .node none (.log "late")])

def rootFrame : Frame Handle := { source := "root[0]" }

/-- Neither a sequence nor its negation changes the failure, and nothing is logged after it. -/
theorem evaluate_of_inner_failed_negation :
    ∃ e w', (ofKinds [.negate, .sequence, .error, .log]).evaluate
        (.node none (.negate (.node failingAtFirst))) rootFrame .onEmptyPage =
        (.error (.failed e), w') ∧
      e.code = .userRaised ∧ e.source = "root[0].not.do.error" ∧
        w'.records.map (·.message) = ["stop"] := by
  have hcourse : (ofKinds [.negate, .sequence, .error, .log]).course
      (.node none (.negate (.node failingAtFirst))) rootFrame .onEmptyPage =
        [⟨.evaluate failingAtFirst (rootFrame.enter "not"), .onEmptyPage⟩] ++
          ⟨.evaluate failing ((rootFrame.enter "not").enter "do"), .onEmptyPage⟩ ::
            [⟨.log Level.error "stop", .onEmptyPage⟩] := rfl
  exact ⟨_, _, (evaluate_of_inner_failed hcourse rfl).1, rfl, rfl, rfl⟩

end Interpreter

end Pagescript
