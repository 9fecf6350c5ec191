import Pagescript.Proofs.Evaluation
/-!
# What evaluation cannot undo

A relation between worlds that nothing done with a page breaks, and no write to the store, holds
between the worlds before and after an evaluation, and along its course.  So an evaluation never turns
the clock back, never takes back a cancellation or moves a deadline, and calls that were made stay
made.
-/

namespace Pagescript

open Plan

/-- A relation between an earlier and a later world that no evaluation breaks. -/
structure World.Trend {σ : Type} (R : World σ → World σ → Prop) : Prop extends World.Change R where
  store : ∀ (w : World σ) (store : Store), R w { w with store }

section Plans

variable {σ α : Type} {R : World σ → World σ → Prop}
  {serve : (r : Request) → Evaluation σ r.Answer}

/-- What holds of each request in the course of a plan holds of all that comes before and after any of
them. -/
theorem Plan.keeps_run (hR : World.Change R) (p : Plan α) (w : World σ)
    (hserve : ∀ e ∈ p.course serve w, R e.world (serve e.request e.world).2) :
    R w (p.run serve w).2 ∧ ∀ e ∈ p.course serve w,
      R w e.world ∧ R (serve e.request e.world).2 (p.run serve w).2 := by
  induction p generalizing w with
  | done v => exact ⟨hR.refl w, fun e he => (List.not_mem_nil he).elim⟩
  | stop s => exact ⟨hR.refl w, fun e he => (List.not_mem_nil he).elim⟩
  | request r next ih =>
      cases hr : serve r w with
      | mk result w₁ =>
          cases result with
          | error s =>
              rw [course_request_of_error hr] at hserve ⊢
              rw [run_request_of_error hr]
              have hfirst := hserve ⟨r, w⟩ List.mem_cons_self
              rw [hr] at hfirst
              refine ⟨hfirst, ?_⟩
              intro e he
              obtain rfl := List.mem_singleton.1 he
              rw [hr]
              exact ⟨hR.refl w, hR.refl w₁⟩
          | ok v =>
              rw [course_request_of_ok hr] at hserve ⊢
              rw [run_request_of_ok hr]
              have hfirst := hserve ⟨r, w⟩ List.mem_cons_self
              rw [hr] at hfirst
              obtain ⟨hrest, hcourse⟩ := ih v w₁ fun e he => hserve e (List.mem_cons_of_mem _ he)
              refine ⟨hR.trans hfirst hrest, ?_⟩
              intro e he
              obtain rfl | he := List.mem_cons.1 he
              · rw [hr]
                exact ⟨hR.refl w, hrest⟩
              · exact ⟨hR.trans hfirst (hcourse e he).1, (hcourse e he).2⟩

end Plans

namespace Interpreter

variable {σ : Type} {it : Interpreter σ} {R : World σ → World σ → Prop}

theorem keeps_serve (hR : World.Trend R) {ev : Evaluator σ} {r : Request}
    (hr : ∀ b g, r ≠ .evaluate b g) (w : World σ) : R w (it.serve ev r w).2 := by
  cases r with
  | evaluate b g => exact absurd rfl (hr b g)
  | carryOut task => exact it.surface.keeps_carryOut hR.toChange task w
  | wait awaited => exact (it.surface.keeps_work hR.toChange awaited).race hR.toChange w
  | timeout | lookUp => exact hR.refl w
  | commit batch => exact hR.store w _
  | log level message => exact hR.records w _

theorem keeps_step (it : Interpreter σ) (hR : World.Trend R) (ev : Evaluator σ) (a : Action)
    (frame : Frame Handle) (w : World σ) :
    R ((it.plan a frame).run (it.serve ev) w).2 (it.step ev a frame w).2 := by
  obtain hstep | ⟨e, w₁, hrun, _, _, _, records, -, hstep⟩ := it.step_eq_run_or ev a frame w
  · rw [hstep]
    exact hR.refl _
  · rw [hstep, hrun]
    exact hR.records w₁ records

theorem keeps_evaluate (hR : World.Trend R) (a : Action) (frame : Frame Handle) (w : World σ) :
    R w (it.evaluate a frame w).2 ∧ ∀ e ∈ it.requests a frame w,
      R w e.world ∧
        R (it.serve it.evaluate e.request e.world).2 (it.evaluate a frame w).2 := by
  induction a, frame using it.evaluation_induction generalizing w with
  | hstep a frame ih =>
      by_cases hadmits : it.Admits (frame.enter a.name)
      · have hserve : ∀ e ∈ (it.plan a (frame.enter a.name)).course (it.serve it.evaluate) w,
            R e.world (it.serve it.evaluate e.request e.world).2 := by
          intro e he
          rw [← requests_of_admits hadmits] at he
          obtain ⟨b, g, w₁, rfl, hg⟩ | hother := cases_of_mem_requests he
          · exact (ih hadmits b g hg w₁).1
          · exact keeps_serve hR hother e.world
        obtain ⟨hrun, hcourse⟩ := Plan.keeps_run hR.toChange _ w hserve
        have hstep := it.keeps_step hR it.evaluate a (frame.enter a.name) w
        rw [requests_of_admits hadmits, evaluate_of_admits hadmits]
        refine ⟨hR.trans hrun hstep, ?_⟩
        intro e he
        exact ⟨(hcourse e he).1, hR.trans (hcourse e he).2 hstep⟩
      · obtain ⟨message, hevaluate⟩ := evaluate_of_not_admits hadmits
        rw [hevaluate, requests_of_not_admits hadmits]
        exact ⟨hR.refl w, fun e he => (List.not_mem_nil he).elim⟩

/-- The course of an evaluation lies between its beginning and its end. -/
theorem keeps_course (hR : World.Trend R) {a : Action} {frame : Frame Handle} {w : World σ}
    {e : Occurrence σ} (he : e ∈ it.course a frame w) :
    R w e.world ∧ R (it.serve it.evaluate e.request e.world).2 (it.evaluate a frame w).2 := by
  induction a, frame using it.evaluation_induction generalizing w with
  | hstep a frame ih =>
      rw [course_eq] at he
      obtain ⟨own, hown, he⟩ := List.mem_flatMap.1 he
      obtain ⟨hbefore, hafter⟩ := (keeps_evaluate hR a frame w).2 own hown
      obtain rfl | he := List.mem_cons.1 he
      · exact ⟨hbefore, hafter⟩
      · obtain ⟨b, g, w₁, rfl, hg⟩ | hother := cases_of_mem_requests hown
        · obtain ⟨hbefore', hafter'⟩ := ih (asks_of_mem_requests hown).1 b g hg he
          exact ⟨hR.trans hbefore hbefore', hR.trans hafter' hafter⟩
        · rw [innerCourse_eq_nil hother] at he
          cases he

end Interpreter

/-! ### Trends -/

namespace World

variable {σ : Type}

/-- The clock has not gone back, and the token is the same, unless it has been cancelled meanwhile. -/
structure Onward (w w' : World σ) : Prop where
  timeout : w'.token.timeout = w.token.timeout
  deadline : w'.token.deadline = w.token.deadline
  cancelled : w.token.cancelled = true → w'.token.cancelled = true
  now : w.now.NoLater w'.now
  quiet : w.Quiet → w'.Quiet

theorem Onward.refl (w : World σ) : w.Onward w :=
  ⟨rfl, rfl, id, .inl rfl, id⟩

theorem Onward.trans {w w' w'' : World σ} (h : w.Onward w') (h' : w'.Onward w'') : w.Onward w'' where
  timeout := h'.timeout.trans h.timeout
  deadline := h'.deadline.trans h.deadline
  cancelled hcancelled := h'.cancelled (h.cancelled hcancelled)
  now := h.now.trans h'.now
  quiet hquiet := h'.quiet (h.quiet hquiet)

theorem Passes.onward {w w' : World σ} (h : w.Passes w') : w.Onward w' := by
  refine ⟨?_, ?_, h.cancelled, h.now, h.quiet⟩
  · obtain ⟨_, _, _, _, _, rfl⟩ := h.rest
    rfl
  · obtain ⟨_, _, _, _, _, rfl⟩ := h.rest
    rfl

theorem trend_onward : Trend (Onward (σ := σ)) where
  refl := .refl
  trans := .trans
  page _ _ := ⟨rfl, rfl, id, .inl rfl, fun h => ⟨h.1, h.2, h.3⟩⟩
  records _ _ := ⟨rfl, rfl, id, .inl rfl, fun h => ⟨h.1, h.2, h.3⟩⟩
  call _ _ _ := ⟨rfl, rfl, id, .inl rfl, fun h => ⟨h.1, h.2, h.3⟩⟩
  pass := Passes.onward
  store _ _ := ⟨rfl, rfl, id, .inl rfl, fun h => ⟨h.1, h.2, h.3⟩⟩

theorem trend_calls : Trend fun w w' : World σ => w.calls <+: w'.calls where
  refl _ := List.prefix_rfl
  trans := List.IsPrefix.trans
  page _ _ := List.prefix_rfl
  records _ _ := List.prefix_rfl
  call w c _ := List.prefix_append w.calls [c]
  pass hpasses := by
    obtain ⟨_, _, _, _, _, rfl⟩ := hpasses.rest
    exact List.prefix_rfl
  store _ _ := List.prefix_rfl

/-- How often the driver of the browser was stopped. -/
def stops (w : World σ) : Nat :=
  w.calls.count .stopDriver

theorem stops_addCall (w : World σ) {c : Call} (hc : c ≠ .stopDriver) :
    (w.addCall c).stops = w.stops := by
  rw [stops, addCall, List.count_append, List.count_singleton, if_neg (by simpa using hc)]
  rfl

/-- No evaluation opens or closes a browser. -/
theorem trend_resources : Trend fun w w' : World σ =>
    w'.resources = w.resources ∧ w'.stops = w.stops where
  refl _ := ⟨rfl, rfl⟩
  trans hfirst hsecond := ⟨hsecond.1.trans hfirst.1, hsecond.2.trans hfirst.2⟩
  page _ _ := ⟨rfl, rfl⟩
  records _ _ := ⟨rfl, rfl⟩
  call w c hc := by
    refine ⟨rfl, w.stops_addCall fun hstop => ?_⟩
    rw [hstop] at hc
    cases hc
  pass hpasses := by
    obtain ⟨_, _, _, _, _, rfl⟩ := hpasses.rest
    exact ⟨rfl, rfl⟩
  store _ _ := ⟨rfl, rfl⟩

end World

end Pagescript
