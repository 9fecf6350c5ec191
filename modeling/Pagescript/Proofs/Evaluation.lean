import Mathlib.Data.List.Basic
import Pagescript.Proofs.Handler
/-!
# Evaluation as a recursion

Evaluation solves the equation of the recursive evaluator, in which no budget occurs: an action that
may be entered is carried out by its plan, and the actions it leads to are evaluated in the same
way.  From this come an induction over evaluations and the course of a whole evaluation, which holds
the requests of all actions that are evaluated on the way.
-/

namespace Pagescript

open Plan Handler

/-! ### Frames -/

@[simp]
theorem Frame.depth_enter {ε : Type} (frame : Frame ε) (kind : String) :
    (frame.enter kind).depth = frame.depth + 1 := rfl

theorem Frame.length_source_enter {ε : Type} (frame : Frame ε) (kind : String) :
    (frame.enter kind).source.length = frame.source.length + 1 + kind.length := by
  simp only [enter, String.length_append]
  rfl

theorem Kind.length_name_pos (k : Kind) : 0 < k.name.length := by
  unfold name
  split <;> decide

theorem Form.name_eq_of_kind? {α : Type} {form : Form α} {k : Kind} (hkind : form.kind? = some k) :
    form.name = k.name := by
  unfold name
  split
  · cases hkind
  · rw [hkind]
    rfl

theorem Form.eq_call_of_kind? {α : Type} {form : Form α} (hkind : form.kind? = none) :
    ∃ name, form = .call name := by
  cases form <;> simp_all [kind?]

theorem Action.length_name_pos (a : Action) : 0 < a.name.length := by
  rw [name]
  cases hkind : a.form.kind? with
  | none =>
      obtain ⟨name, hform⟩ := Form.eq_call_of_kind? hkind
      rw [hform]
      simp only [Form.name, reference, String.length_append, String.length_singleton]
      omega
  | some k =>
      rw [Form.name_eq_of_kind? hkind]
      exact k.length_name_pos

theorem Handler.Leads.depth_eq {program : Program} {a b : Action} {frame g : Frame Handle}
    (hlead : Leads program a frame b g) : g.depth = frame.depth := by
  cases hlead <;> rfl

theorem Handler.Leads.length_source_le {program : Program} {a b : Action} {frame g : Frame Handle}
    (hlead : Leads program a frame b g) : frame.source.length ≤ g.source.length := by
  cases hlead with
  | turn | item | reference =>
      simp only [Frame.item, Frame.bind, Frame.field, String.length_append]
      omega
  | _ => exact Nat.le_refl _

theorem Evaluation.of_ofInteraction_fault {σ α : Type} {x : Interaction σ α} {f : Fault}
    {w w' : World σ} (hx : ofInteraction x w = (.error (.fault f), w')) : x w = (.error f, w') := by
  cases hresult : x w with
  | mk result next =>
      rw [ofInteraction, hresult] at hx
      cases result with
      | ok v => cases hx
      | error f' =>
          cases hx
          rfl

namespace Interpreter

variable {σ : Type} {it : Interpreter σ} {a : Action} {frame : Frame Handle} {w w' : World σ}

/-! ### One step -/

/-- What stops a handler is passed on, unless it is a failure of the surface: that becomes a failure
of the action, and only the log can change. -/
theorem rescue_cases (a : Action) (frame : Frame Handle) (s : Stop) (w : World σ) :
    ((∀ e, s ≠ .fault (.surface e)) ∧ rescue a frame s w = (.error s, w)) ∨
      (∃ e, s = .fault (.surface e)) ∧ ∃ code message payload records,
        rescue a frame s w =
          (.error (.failure frame a.payload code message payload), { w with records }) ∧
            (code = .elementNotFound ∨ code = .surfaceError) := by
  cases s with
  | failed e => exact .inl ⟨nofun, rfl⟩
  | fault f =>
      cases f with
      | surface e =>
          refine .inr ⟨⟨e, rfl⟩, ?_⟩
          cases e with
          | failed message operation details => exact ⟨_, _, _, _, rfl, .inr rfl⟩
          | notFound selector => exact ⟨_, _, _, w.records, rfl, .inl rfl⟩
      | _ => exact .inl ⟨nofun, rfl⟩

theorem of_tryCatch_rescue {x : Evaluation σ Value} {f : Fault}
    (hresult : tryCatch x (rescue a frame) w = (.error (.fault f), w')) :
    x w = (.error (.fault f), w') ∧ ∀ e, f ≠ .surface e := by
  cases hx : x w with
  | mk result w₁ =>
      cases result with
      | ok v =>
          rw [Fallible.tryCatch_of_ok hx] at hresult
          cases hresult
      | error s =>
          rw [Fallible.tryCatch_of_error hx] at hresult
          obtain ⟨hs, hpass⟩ | ⟨-, _, _, _, _, hrescue, -⟩ := rescue_cases a frame s w₁
          · rw [hpass] at hresult
            refine ⟨hresult, fun e hf => ?_⟩
            obtain ⟨hstop, -⟩ := Prod.mk.inj hresult
            exact hs e (hf ▸ Except.error.inj hstop)
          · rw [hrescue] at hresult
            cases hresult

theorem serve_ne_failed {ev : Evaluator σ} {r : Request} (hr : ∀ b g, r ≠ .evaluate b g)
    (e : ActionError) : it.serve ev r w ≠ (.error (.failed e), w') := by
  have hinteraction {α : Type} (x : Interaction σ α) :
      Evaluation.ofInteraction x w ≠ (.error (.failed e), w') := by
    rw [Evaluation.ofInteraction]
    cases x w with
    | mk result next =>
        cases result with
        | ok v => exact nofun
        | error f => exact nofun
  cases r with
  | evaluate b g => exact absurd rfl (hr b g)
  | carryOut task => exact hinteraction _
  | wait awaited => exact hinteraction _
  | timeout | lookUp | commit | log => exact nofun

section Step

variable {ev ev' : Evaluator σ}

theorem step_of_not_call (hform : ∀ name, a.form ≠ .call name) :
    it.step ev a frame = tryCatch ((it.plan a frame).run (it.serve ev)) (rescue a frame) := by
  unfold step
  cases h : a.form with
  | call name => exact absurd h (hform name)
  | _ => rfl

/-- A step is what the plan of the action comes to, but for failures of the surface; these only a
call passes on. -/
theorem step_cases (it : Interpreter σ) (ev : Evaluator σ) (a : Action) (frame : Frame Handle) :
    ((∃ name, a.form = .call name) ∧
        it.step ev a frame = (it.plan a frame).run (it.serve ev)) ∨
      it.step ev a frame = tryCatch ((it.plan a frame).run (it.serve ev)) (rescue a frame) := by
  unfold step
  cases a.form with
  | call name => exact .inl ⟨⟨name, rfl⟩, rfl⟩
  | _ => exact .inr rfl

/-- A step comes to what the plan of the action comes to, unless that is a failure of the surface. -/
theorem step_eq_run_or (it : Interpreter σ) (ev : Evaluator σ) (a : Action) (frame : Frame Handle)
    (w : World σ) :
    it.step ev a frame w = (it.plan a frame).run (it.serve ev) w ∨
      ∃ e w₁, (it.plan a frame).run (it.serve ev) w = (.error (.fault (.surface e)), w₁) ∧
        ∃ code message payload records, (code = .elementNotFound ∨ code = .surfaceError) ∧
          it.step ev a frame w =
            (.error (.failure frame a.payload code message payload), { w₁ with records }) := by
  obtain ⟨-, hstep⟩ | hstep := it.step_cases ev a frame
  · exact .inl (congrFun hstep w)
  · rw [hstep]
    cases hrun : (it.plan a frame).run (it.serve ev) w with
    | mk result w₁ =>
        cases result with
        | ok v => exact .inl (Fallible.tryCatch_of_ok hrun)
        | error s =>
            rw [Fallible.tryCatch_of_error hrun]
            obtain ⟨-, hpass⟩ | ⟨⟨e, rfl⟩, code, message, payload, records, hrescue, hcode⟩ :=
              rescue_cases a frame s w₁
            · exact .inl hpass
            · exact .inr ⟨e, w₁, rfl, code, message, payload, records, hcode, hrescue⟩

theorem step_eq_ok_iff {v : Value} :
    it.step ev a frame w = (.ok v, w') ↔
      (it.plan a frame).run (it.serve ev) w = (.ok v, w') := by
  obtain hstep | ⟨e, w₁, hrun, code, message, payload, records, -, hstep⟩ :=
    it.step_eq_run_or ev a frame w
  · rw [hstep]
  · rw [hstep, hrun]
    constructor <;> exact nofun

theorem step_of_error {s : Stop} (hs : ∀ e, s ≠ .fault (.surface e))
    (hrun : (it.plan a frame).run (it.serve ev) w = (.error s, w')) :
    it.step ev a frame w = (.error s, w') := by
  obtain hstep | ⟨e, w₁, hsurface, -⟩ := it.step_eq_run_or ev a frame w
  · exact hstep.trans hrun
  · rw [hrun] at hsurface
    obtain ⟨hstop, -⟩ := Prod.mk.inj hsurface
    exact absurd (Except.error.inj hstop) (hs e)

theorem run_of_step_fault {f : Fault} (hstep : it.step ev a frame w = (.error (.fault f), w')) :
    (it.plan a frame).run (it.serve ev) w = (.error (.fault f), w') := by
  obtain heq | ⟨e, w₁, -, code, message, payload, records, -, heq⟩ := it.step_eq_run_or ev a frame w
  · exact heq.symm.trans hstep
  · rw [heq] at hstep
    cases hstep

/-- A step fails as its plan does, or with an error of the action on account of the surface. -/
theorem step_failed_cases {e : ActionError}
    (hstep : it.step ev a frame w = (.error (.failed e), w')) :
    (it.plan a frame).run (it.serve ev) w = (.error (.failed e), w') ∨
      ∃ code message payload, (code = .elementNotFound ∨ code = .surfaceError) ∧
        Stop.failed e = .failure frame a.payload code message payload := by
  obtain heq | ⟨_, w₁, -, code, message, payload, records, hcode, heq⟩ :=
    it.step_eq_run_or ev a frame w
  · exact .inl (heq.symm.trans hstep)
  · rw [heq] at hstep
    obtain ⟨hfailure, -⟩ := Prod.mk.inj hstep
    exact .inr ⟨code, message, payload, hcode, (Except.error.inj hfailure).symm⟩

/-- A failure of the surface that gets out of a step has got out of an action it leads to. -/
theorem exists_of_step_surface {e : SurfaceError}
    (hstep : it.step ev a frame w = (.error (.fault (.surface e)), w')) :
    ∃ b g, Leads it.program a frame b g ∧ ev b g w = (.error (.fault (.surface e)), w') := by
  obtain ⟨⟨name, hform⟩, heq⟩ | heq := it.step_cases ev a frame
  · have hplan : it.plan a frame = Handler.call it.program name a frame := by
      rw [plan, hform]
    rw [heq, hplan, Handler.call] at hstep
    split at hstep
    next b hb =>
      refine ⟨b, frame.calling name, .call hform hb, ?_⟩
      cases hev : ev b (frame.calling name) w with
      | mk result w₁ =>
          cases result with
          | ok v =>
              rw [Plan.evaluate, ask, run_request_of_ok hev] at hstep
              cases hstep
          | error s =>
              rw [Plan.evaluate, ask, run_request_of_error hev] at hstep
              exact hstep
    · cases hstep
  · rw [heq] at hstep
    exact absurd rfl ((of_tryCatch_rescue hstep).2 e)

/-- Only the evaluation of the actions that an action leads to matters to its step. -/
theorem step_congr (hev : ∀ b g, Leads it.program a frame b g → ev b g = ev' b g) :
    it.step ev a frame = it.step ev' a frame := by
  have hrun : (it.plan a frame).run (it.serve ev) = (it.plan a frame).run (it.serve ev') := by
    refine (it.proper_plan a frame).run_congr fun r hr => ?_
    cases hr with
    | evaluate hlead => exact hev _ _ hlead
    | _ => rfl
  unfold step
  rw [hrun]

end Step

/-! ### The equation of evaluation -/

/-- The limits let an action be carried out at the frame that it has entered. -/
def Admits (it : Interpreter σ) (frame : Frame Handle) : Prop :=
  frame.source.length ≤ it.maxSourceLength ∧ frame.depth ≤ it.maxDepth

instance (it : Interpreter σ) (frame : Frame Handle) : Decidable (it.Admits frame) :=
  inferInstanceAs (Decidable (_ ∧ _))

/-- How an action is evaluated, given how the actions that it leads to are evaluated. -/
def unfolding (it : Interpreter σ) (ev : Evaluator σ) : Evaluator σ := fun a frame =>
  let entered := frame.enter a.name
  if it.maxSourceLength < entered.source.length then throw (it.overlong a entered)
  else if it.maxDepth < entered.depth then throw (it.tooDeep a entered)
  else it.step ev a entered

theorem unfolding_of_admits {ev : Evaluator σ} (hadmits : it.Admits (frame.enter a.name)) :
    it.unfolding ev a frame = it.step ev a (frame.enter a.name) := by
  obtain ⟨hlength, hdepth⟩ := hadmits
  simp only [unfolding]
  rw [if_neg (by omega), if_neg (by omega)]

theorem unfolding_of_not_admits (hadmits : ¬ it.Admits (frame.enter a.name)) :
    ∃ message, ∀ ev : Evaluator σ, it.unfolding ev a frame =
      throw (recursionFailure a (frame.enter a.name) message) := by
  by_cases hlength : it.maxSourceLength < (frame.enter a.name).source.length
  · have hfails (ev : Evaluator σ) :
        it.unfolding ev a frame = throw (it.overlong a (frame.enter a.name)) := by
      simp only [unfolding]
      rw [if_pos hlength]
    exact ⟨_, hfails⟩
  · have hdepth : it.maxDepth < (frame.enter a.name).depth := by
      refine Int.not_le.1 fun hdepth => hadmits ⟨?_, hdepth⟩
      exact Int.not_lt.1 hlength
    have hfails (ev : Evaluator σ) :
        it.unfolding ev a frame = throw (it.tooDeep a (frame.enter a.name)) := by
      simp only [unfolding]
      rw [if_neg hlength, if_pos hdepth]
    exact ⟨_, hfails⟩

theorem evaluate_eq_unfolding (it : Interpreter σ) : it.evaluate = it.unfolding it.evaluate := by
  funext a frame
  rw [evaluate]
  cases hbudget : (it.maxDepth - frame.depth).toNat with
  | zero =>
      have hdepth : it.maxDepth < (frame.enter a.name).depth := by
        rw [Frame.depth_enter]
        omega
      simp only [unfolding]
      rw [if_pos hdepth]
      rfl
  | succ budget =>
      have hdepth : ¬ it.maxDepth < (frame.enter a.name).depth := by
        rw [Frame.depth_enter]
        omega
      -- the budget that is left is the one that belongs to the frames the action leads to
      have hstep : it.step (it.evaluateWithin budget) a (frame.enter a.name) =
          it.step it.evaluate a (frame.enter a.name) := by
        refine step_congr fun b g hlead => ?_
        have hg : g.depth = frame.depth + 1 := hlead.depth_eq
        have hleft : budget = (it.maxDepth - g.depth).toNat := by omega
        rw [evaluate, hleft]
      simp only [unfolding]
      rw [evaluateWithin, if_neg hdepth, hstep]

theorem evaluate_of_admits (hadmits : it.Admits (frame.enter a.name)) :
    it.evaluate a frame = it.step it.evaluate a (frame.enter a.name) := by
  rw [← unfolding_of_admits hadmits, ← evaluate_eq_unfolding]

theorem evaluate_of_not_admits (hadmits : ¬ it.Admits (frame.enter a.name)) :
    ∃ message, it.evaluate a frame =
      throw (recursionFailure a (frame.enter a.name) message) := by
  obtain ⟨message, hunfolding⟩ := unfolding_of_not_admits hadmits
  rw [evaluate_eq_unfolding]
  exact ⟨message, hunfolding it.evaluate⟩

theorem of_evaluate_ok {v : Value} (hresult : it.evaluate a frame w = (.ok v, w')) :
    it.Admits (frame.enter a.name) ∧
      (it.plan a (frame.enter a.name)).run (it.serve it.evaluate) w = (.ok v, w') := by
  by_cases hadmits : it.Admits (frame.enter a.name)
  · rw [evaluate_of_admits hadmits] at hresult
    exact ⟨hadmits, step_eq_ok_iff.1 hresult⟩
  · obtain ⟨message, hevaluate⟩ := evaluate_of_not_admits hadmits
    rw [hevaluate] at hresult
    cases hresult

/-- What holds of an action as soon as it holds of all actions one level deeper, holds of all: at
the limit nothing is left to show. -/
theorem evaluation_induction (it : Interpreter σ) {motive : Action → Frame Handle → Prop}
    (hstep : ∀ a frame,
      (it.Admits (frame.enter a.name) → ∀ b g, g.depth = frame.depth + 1 → motive b g) →
        motive a frame)
    (a : Action) (frame : Frame Handle) : motive a frame := by
  induction hbudget : (it.maxDepth - frame.depth).toNat generalizing a frame with
  | zero =>
      refine hstep a frame fun hadmits => ?_
      have hdepth := hadmits.2
      rw [Frame.depth_enter] at hdepth
      omega
  | succ budget ih =>
      refine hstep a frame fun _ b g hg => ih b g ?_
      omega

theorem eq_evaluate_of_eq_unfolding {ev : Evaluator σ} (hev : ev = it.unfolding ev) :
    ev = it.evaluate := by
  funext a frame
  induction a, frame using it.evaluation_induction with
  | hstep a frame ih =>
      rw [hev, it.evaluate_eq_unfolding]
      by_cases hadmits : it.Admits (frame.enter a.name)
      · rw [unfolding_of_admits hadmits, unfolding_of_admits hadmits]
        exact step_congr fun b g hlead => ih hadmits b g hlead.depth_eq
      · obtain ⟨message, hunfolding⟩ := unfolding_of_not_admits hadmits
        rw [hunfolding, hunfolding]

/-! ### The course of an evaluation -/

/-- The requests that an action makes itself when it is evaluated. -/
def requests (it : Interpreter σ) (a : Action) (frame : Frame Handle) (w : World σ) :
    List (Occurrence σ) :=
  if it.Admits (frame.enter a.name) then
    (it.plan a (frame.enter a.name)).course (it.serve it.evaluate) w
  else []

/-- The requests of an action and of all actions that are evaluated on the way, `budget` levels
deep. -/
def courseWithin (it : Interpreter σ) : Nat → Action → Frame Handle → World σ → List (Occurrence σ)
  | 0, _, _, _ => []
  | budget + 1, a, frame, w =>
    (it.requests a frame w).flatMap fun e =>
      e :: match e.request with
        | .evaluate b g => courseWithin it budget b g e.world
        | _ => []

/-- The requests that are made while an action is evaluated, by itself or by an action that is
evaluated on the way, in the order in which they are made. -/
def course (it : Interpreter σ) (a : Action) (frame : Frame Handle) (w : World σ) :
    List (Occurrence σ) :=
  it.courseWithin (it.maxDepth - frame.depth).toNat a frame w

/-- The requests that are made while a request is served. -/
def innerCourse (it : Interpreter σ) (e : Occurrence σ) : List (Occurrence σ) :=
  match e.request with
  | .evaluate b g => it.course b g e.world
  | _ => []

theorem requests_of_admits (hadmits : it.Admits (frame.enter a.name)) (w : World σ) :
    it.requests a frame w =
      (it.plan a (frame.enter a.name)).course (it.serve it.evaluate) w :=
  if_pos hadmits

theorem requests_of_not_admits (hadmits : ¬ it.Admits (frame.enter a.name)) (w : World σ) :
    it.requests a frame w = [] :=
  if_neg hadmits

/-- An action asks for nothing but what its handler asks for at the frame that it has entered. -/
theorem asks_of_mem_requests {e : Occurrence σ} (he : e ∈ it.requests a frame w) :
    it.Admits (frame.enter a.name) ∧
      Asks it.program (it.dispatch? a) a (frame.enter a.name) e.request := by
  by_cases hadmits : it.Admits (frame.enter a.name)
  · rw [requests_of_admits hadmits] at he
    exact ⟨hadmits, (it.proper_plan a _).of_mem_course he⟩
  · rw [requests_of_not_admits hadmits] at he
    cases he

theorem leads_of_mem_requests {e : Occurrence σ} {b : Action} {g : Frame Handle}
    (he : e ∈ it.requests a frame w) (hrequest : e.request = .evaluate b g) :
    Leads it.program a (frame.enter a.name) b g := by
  have hasks := (asks_of_mem_requests he).2
  rw [hrequest] at hasks
  cases hasks with
  | evaluate hlead => exact hlead

theorem cases_of_mem_requests {e : Occurrence σ} (he : e ∈ it.requests a frame w) :
    (∃ b g w₁, e = ⟨.evaluate b g, w₁⟩ ∧ g.depth = frame.depth + 1) ∨
      ∀ b g, e.request ≠ .evaluate b g := by
  obtain ⟨request, w₁⟩ := e
  cases request with
  | evaluate b g => exact .inl ⟨b, g, w₁, rfl, (leads_of_mem_requests he rfl).depth_eq⟩
  | _ => exact .inr nofun

/-- Within the limits an action fails of its own, though not on account of a limit, and as unknown
only without a handler; or it passes on the failure of an evaluation that it asks for. -/
theorem failed_of_admits (hadmits : it.Admits (frame.enter a.name)) {e : ActionError}
    (hresult : it.evaluate a frame w = (.error (.failed e), w')) :
    (∃ code message payload, code ≠ .recursionLimit ∧
        (code = .unknownAction → it.dispatch? a = none ∧ a.form.kind? ≠ none) ∧
        Stop.failed e = .failure (frame.enter a.name) a.payload code message payload) ∨
      ∃ b g w₁, ⟨.evaluate b g, w₁⟩ ∈ it.requests a frame w ∧
        it.evaluate b g w₁ = (.error (.failed e), w') := by
  rw [evaluate_of_admits hadmits] at hresult
  obtain hrun | ⟨code, message, payload, hsurface, he⟩ := step_failed_cases hresult
  · obtain hhalts | ⟨own, hown, hserve⟩ := (it.proper_plan a _).stops_or_unanswered hrun
    · generalize hs : Stop.failed e = s at hhalts
      cases hhalts with
      | failure hcode hunknown message payload =>
          exact .inl ⟨_, message, payload, hcode, hunknown, rfl⟩
      | missingField | missingSelector | badReference => cases hs
    · rw [← requests_of_admits hadmits] at hown
      obtain ⟨b, g, w₁, rfl, -⟩ | hother := cases_of_mem_requests hown
      · exact .inr ⟨b, g, w₁, hown, hserve⟩
      · exact absurd hserve (serve_ne_failed hother e)
  · have hcode : code ≠ .recursionLimit ∧ code ≠ .unknownAction := by
      obtain rfl | rfl := hsurface <;> decide
    exact .inl ⟨code, message, payload, hcode.1, fun hunknown => absurd hunknown hcode.2, he⟩

theorem course_eq (it : Interpreter σ) (a : Action) (frame : Frame Handle) (w : World σ) :
    it.course a frame w = (it.requests a frame w).flatMap fun e => e :: it.innerCourse e := by
  rw [course]
  cases hbudget : (it.maxDepth - frame.depth).toNat with
  | zero =>
      have hadmits : ¬ it.Admits (frame.enter a.name) := by
        intro hadmits
        have hdepth := hadmits.2
        rw [Frame.depth_enter] at hdepth
        omega
      rw [requests_of_not_admits hadmits]
      rfl
  | succ budget =>
      rw [courseWithin]
      refine List.flatMap_congr fun e he => ?_
      rw [innerCourse]
      split
      next b g hrequest =>
        have hg : g.depth = frame.depth + 1 := (leads_of_mem_requests he hrequest).depth_eq
        have hleft : budget = (it.maxDepth - g.depth).toNat := by omega
        rw [course, hleft]
      · rfl

theorem mem_course_of_mem_requests {e : Occurrence σ} (he : e ∈ it.requests a frame w) :
    e ∈ it.course a frame w := by
  rw [course_eq]
  exact List.mem_flatMap.2 ⟨e, he, List.mem_cons_self⟩

theorem mem_course_of_mem_innerCourse {e e' : Occurrence σ} (he : e ∈ it.requests a frame w)
    (he' : e' ∈ it.innerCourse e) : e' ∈ it.course a frame w := by
  rw [course_eq]
  exact List.mem_flatMap.2 ⟨e, he, List.mem_cons_of_mem _ he'⟩

theorem innerCourse_eq_nil {e : Occurrence σ} (he : ∀ b g, e.request ≠ .evaluate b g) :
    it.innerCourse e = [] := by
  rw [innerCourse]
  split
  next b g hrequest => exact absurd hrequest (he b g)
  · rfl

theorem exists_of_flatMap_eq_append {α β : Type} {f : α → List β} {xs : List α} {y : β}
    {before after : List β} (heq : xs.flatMap f = before ++ y :: after) :
    ∃ earlier x later inner rest, xs = earlier ++ x :: later ∧ f x = inner ++ y :: rest ∧
      after = rest ++ later.flatMap f := by
  induction xs generalizing before with
  | nil => simp at heq
  | cons x later ih =>
      rw [List.flatMap_cons] at heq
      obtain ⟨skipped, -, hskipped⟩ | ⟨rest, hinner, hrest⟩ := List.append_eq_append_iff.1 heq
      · obtain ⟨earlier, x', later', inner, rest, rfl, hx'⟩ := ih hskipped
        exact ⟨x :: earlier, x', later', inner, rest, rfl, hx'⟩
      · obtain _ | ⟨_, rest⟩ := rest
        · have hskipped : later.flatMap f = [] ++ y :: after := hrest.symm
          obtain ⟨earlier, x', later', inner, rest, rfl, hx'⟩ := ih hskipped
          exact ⟨x :: earlier, x', later', inner, rest, rfl, hx'⟩
        · obtain ⟨rfl, rfl⟩ := List.cons.inj hrest
          exact ⟨[], x, later, before, rest, rfl, hinner, rfl⟩

/-- A request in the course of an evaluation is one that the action makes itself, or one that is
made while such a request is served. -/
theorem exists_of_course_eq_append {e : Occurrence σ} {before after : List (Occurrence σ)}
    (hcourse : it.course a frame w = before ++ e :: after) :
    ∃ earlier own later rest,
      it.requests a frame w = earlier ++ own :: later ∧
        after = rest ++ later.flatMap (fun e => e :: it.innerCourse e) ∧
          (e = own ∧ rest = it.innerCourse own ∨
            ∃ inner, it.innerCourse own = inner ++ e :: rest) := by
  rw [course_eq] at hcourse
  obtain ⟨earlier, own, later, inner, rest, hrequests, hinner, hafter⟩ :=
    exists_of_flatMap_eq_append hcourse
  refine ⟨earlier, own, later, rest, hrequests, hafter, ?_⟩
  obtain _ | ⟨_, inner⟩ := inner
  · obtain ⟨rfl, rfl⟩ := List.cons.inj hinner
    exact .inl ⟨rfl, rfl⟩
  · exact .inr ⟨inner, (List.cons.inj hinner).2⟩

/-! ### Faults -/

/-- A request that never ends. -/
def Stalls (it : Interpreter σ) (e : Occurrence σ) : Prop :=
  (∀ b g, e.request ≠ .evaluate b g) ∧
    ∃ w', it.serve it.evaluate e.request e.world = (.error (.fault .hung), w')

theorem Stalls.isFinite_eq_false {e : Occurrence σ} {seconds : Binary64} (hstalls : it.Stalls e)
    (hpause : e.request = .wait (.pause seconds)) : (e.world.now.add seconds).isFinite = false := by
  obtain ⟨-, w', hserve⟩ := hstalls
  rw [hpause] at hserve
  exact (Interaction.race_sleep_error (Evaluation.of_ofInteraction_fault hserve)).2

theorem evaluate_ne_surface (it : Interpreter σ) (a : Action) (frame : Frame Handle)
    (e : SurfaceError) (w w' : World σ) :
    it.evaluate a frame w ≠ (.error (.fault (.surface e)), w') := by
  induction a, frame using it.evaluation_induction generalizing w with
  | hstep a frame ih =>
      intro hresult
      by_cases hadmits : it.Admits (frame.enter a.name)
      · rw [evaluate_of_admits hadmits] at hresult
        obtain ⟨b, g, hlead, hinner⟩ := exists_of_step_surface hresult
        exact ih hadmits b g hlead.depth_eq w hinner
      · obtain ⟨message, hevaluate⟩ := evaluate_of_not_admits hadmits
        rw [hevaluate] at hresult
        cases hresult

/-- Where a fault comes from: a handler stops with it of its own, at a frame within the limits, or a
request is served with it. -/
theorem fault_origin {f : Fault} (hresult : it.evaluate a frame w = (.error (.fault f), w')) :
    (∃ (b : Action) (g : Frame Handle), it.Admits (g.enter b.name) ∧
        Halts it.program (it.dispatch? b) b (g.enter b.name) (.fault f)) ∨
      ∃ e ∈ it.course a frame w, (∀ b g, e.request ≠ .evaluate b g) ∧
        it.serve it.evaluate e.request e.world = (.error (.fault f), w') := by
  induction a, frame using it.evaluation_induction generalizing w with
  | hstep a frame ih =>
      by_cases hadmits : it.Admits (frame.enter a.name)
      · rw [evaluate_of_admits hadmits] at hresult
        have hrun := run_of_step_fault hresult
        obtain hhalts | ⟨e, he, hserve⟩ := (it.proper_plan a _).stops_or_unanswered hrun
        · exact .inl ⟨a, frame, hadmits, hhalts⟩
        rw [← requests_of_admits hadmits] at he
        obtain ⟨b, g, w₁, rfl, hg⟩ | hother := cases_of_mem_requests he
        · obtain hhalts | ⟨e, hinner, hserved⟩ := ih hadmits b g hg hserve
          · exact .inl hhalts
          · exact .inr ⟨e, mem_course_of_mem_innerCourse he hinner, hserved⟩
        · exact .inr ⟨e, mem_course_of_mem_requests he, hother, hserve⟩
      · obtain ⟨message, hevaluate⟩ := evaluate_of_not_admits hadmits
        rw [hevaluate] at hresult
        cases hresult

end Interpreter

end Pagescript
