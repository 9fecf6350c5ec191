import Pagescript.Proofs.Lockstep
import Pagescript.Proofs.Recording
/-!
# Interrupted runs

A run with limits goes as the same run without limits, up to the first wait that a limit cuts off: one
that would begin after a limit has come, or that would not be over when the first of them comes.  There
the run fails, with all that was done before it.  Nothing else that a run does is cut off.
-/

namespace Pagescript

open Plan Handler World Binary64

variable {σ α : Type} {limits : Limits} {w w' : World σ}

/-! ### Limits that matter -/

theorem Limits.eq_or_stops_ne_nil (limits : Limits) :
    limits = {} ∨ ∀ now, limits.stops now ≠ [] := by
  obtain ⟨cancelAt, deadline⟩ := limits
  cases cancelAt with
  | some c =>
      right
      intro now hnil
      simp [stops] at hnil
  | none =>
      cases deadline with
      | some d =>
          right
          intro now hnil
          simp [stops] at hnil
      | none => exact .inl rfl

theorem World.unlimited_eq_self (hquiet : w.Quiet) (htimeout : w.token.timeout = none)
    (hdeadline : w.token.deadline = none) : w.unlimited = w := by
  obtain ⟨page, now, alarms, ringing, unsettled, ⟨timeout, deadline, cancelled⟩, store, calls,
    records, resources⟩ := w
  obtain ⟨halarms, hringing, hcancelled⟩ := hquiet
  cases halarms
  cases hringing
  cases hcancelled
  cases htimeout
  cases hdeadline
  rfl

/-- Without limits there is nothing to leave out, neither now nor later. -/
theorem World.Limited.unlimited_eq (hw : w.Limited {}) (honward : w.Onward w') :
    w'.unlimited = w' := by
  have hquiet : w.Quiet := by
    obtain ⟨hcancelled, halarms, -⟩ | ⟨-, -, c, hc, -⟩ := hw.alarm
    · exact ⟨halarms, hw.ringing, hcancelled⟩
    · cases hc
  exact unlimited_eq_self (honward.quiet hquiet) (honward.timeout.trans (hw.timeout rfl))
    (honward.deadline.trans hw.deadline)

theorem World.InStep.ofInteraction {x : Interaction σ α} (hx : InStep limits x w) :
    InStep limits (Evaluation.ofInteraction x) w := by
  obtain ⟨hsame, hlimited⟩ := hx
  have hx : Evaluation.ofInteraction x w = ((x w).1.mapError .fault, (x w).2) := rfl
  refine of_eq hx ?_ hlimited
  simp only [Evaluation.ofInteraction, hsame]

theorem Evaluation.eq_ok_of_ofInteraction {x : Interaction σ α} {v : α}
    (hx : (ofInteraction x w).1 = .ok v) : (x w).1 = .ok v := by
  cases hresult : x w with
  | mk result w' =>
      rw [ofInteraction, hresult] at hx
      cases result with
      | ok v' =>
          cases hx
          rfl
      | error f => cases hx

namespace Interpreter

variable {it : Interpreter σ}

/-- A limit cuts off the wait that a request is for. -/
def Cuts (it : Interpreter σ) (limits : Limits) (o : Occurrence σ) (t : Binary64)
    (calls : List Call) : Prop :=
  ∃ awaited, o.request = .wait awaited ∧
    Interaction.Cuts limits (it.surface.work awaited) o.world t calls

def CutOff (it : Interpreter σ) (limits : Limits) (o : Occurrence σ) : Prop :=
  ∃ t calls, it.Cuts limits o t calls

/-- Of all waits in the course it is the first one that a limit cuts off. -/
def IsFirstCut (it : Interpreter σ) (limits : Limits) (course : List (Occurrence σ))
    (o : Occurrence σ) : Prop :=
  ∃ before after, course = before ++ o :: after ∧ (∀ o' ∈ before, ¬ it.CutOff limits o') ∧
    it.CutOff limits o

/-- While a request is served the clock can tell the limits from the times at which it stops. -/
def Spaced (it : Interpreter σ) (limits : Limits) (o : Occurrence σ) : Prop :=
  match o.request with
  | .carryOut task => ∀ c ∈ limits.cancelAt,
      c.le o.world.now = true ∨ ∀ t ∈ it.surface.instants task o.world, Apart c t
  | .wait awaited => Interaction.Spaced limits (it.surface.work awaited) o.world
  | _ => True

/-- The wait that an action asks for is cut off, and the action, which is one of those that wait,
fails for that reason.  In the final world it is the time at which the wait is over, and what was
stored before is still there. -/
structure Interrupts (it : Interpreter σ) (limits : Limits) (u : Visit σ) (o : Occurrence σ)
    (e : ActionError) (w' : World σ) : Prop where
  own : o ∈ it.requests u.action u.frame u.world
  waits : (it.dispatch? u.action).any Kind.waits = true
  cuts : it.Cuts limits o w'.now w'.calls
  error : e = (limits.reason w'.now).error u.action u.entered w'.token.timeout
  store : w'.store = o.world.store

/-- An evaluation goes as it does without limits up to the first wait that is cut off, where it
fails; the course is the one without limits. -/
def UpToCut (it : Interpreter σ) (limits : Limits) (within : Visit σ → Prop)
    (course : List (Occurrence σ)) (x : Evaluation σ α) (w : World σ) : Prop :=
  (InStep limits x w ∧ ∀ o ∈ course, ¬ it.CutOff limits o) ∨
    ∃ o u e w', it.IsFirstCut limits course o ∧ within u ∧ x w = (.error (.failed e), w') ∧
      it.Interrupts limits u o e w'

theorem not_cutOff_of_not_waits {o : Occurrence σ} (ho : o.request.waits = false) :
    ¬ it.CutOff limits o := by
  rintro ⟨t, calls, awaited, hrequest, -⟩
  rw [hrequest] at ho
  cases ho

theorem IsFirstCut.append_right {course : List (Occurrence σ)} {o : Occurrence σ}
    (h : it.IsFirstCut limits course o) (rest : List (Occurrence σ)) :
    it.IsFirstCut limits (course ++ rest) o := by
  obtain ⟨before, after, rfl, hbefore, ho⟩ := h
  exact ⟨before, after ++ rest, by simp, hbefore, ho⟩

theorem IsFirstCut.append_left {course first : List (Occurrence σ)} {o : Occurrence σ}
    (h : it.IsFirstCut limits course o) (hfirst : ∀ o' ∈ first, ¬ it.CutOff limits o') :
    it.IsFirstCut limits (first ++ course) o := by
  obtain ⟨before, after, rfl, hbefore, ho⟩ := h
  refine ⟨first ++ before, after, by simp, fun o' ho' => ?_, ho⟩
  obtain ho' | ho' := List.mem_append.1 ho'
  · exact hfirst o' ho'
  · exact hbefore o' ho'

/-! ### Plans -/

/-- A request and all that is asked for while it is served. -/
def extent (it : Interpreter σ) (o : Occurrence σ) : List (Occurrence σ) :=
  o :: it.innerCourse o

section Plans

variable {within : Visit σ → Prop} {r : Request} {next : r.Answer → Plan α}

theorem UpToCut.request
    (hserve : it.UpToCut limits within (it.extent ⟨r, w.unlimited⟩) (it.serve it.evaluate r) w)
    (hnext : ∀ v w', it.serve it.evaluate r w = (.ok v, w') → w'.Limited limits →
      it.serve it.evaluate r w.unlimited = (.ok v, w'.unlimited) →
      it.UpToCut limits within
        (((next v).course (it.serve it.evaluate) w'.unlimited).flatMap it.extent)
        ((next v).run (it.serve it.evaluate)) w') :
    it.UpToCut limits within
      (((Plan.request r next).course (it.serve it.evaluate) w.unlimited).flatMap it.extent)
      ((Plan.request r next).run (it.serve it.evaluate)) w := by
  obtain ⟨⟨hsame, hlimited⟩, hnot⟩ | ⟨o, u, e, w', hfirst, hu, heq, hinterrupts⟩ := hserve
  · cases hresult : it.serve it.evaluate r w with
    | mk result w' =>
        rw [hresult] at hsame hlimited
        cases result with
        | error s =>
            left
            rw [course_request_of_error hsame, List.flatMap_singleton]
            refine ⟨?_, hnot⟩
            exact .of_eq (run_request_of_error hresult) (run_request_of_error hsame) hlimited
        | ok v =>
            rw [course_request_of_ok hsame, List.flatMap_cons]
            obtain ⟨⟨hsame', hlimited'⟩, hnot'⟩ | ⟨o, u, e, w'', hfirst, hu, heq, hinterrupts⟩ :=
              hnext v w' hresult hlimited hsame
            · left
              refine ⟨.of_eq (run_request_of_ok hresult) ?_ hlimited', fun o ho => ?_⟩
              · rw [run_request_of_ok hsame]
                exact hsame'
              · obtain ho | ho := List.mem_append.1 ho
                · exact hnot o ho
                · exact hnot' o ho
            · right
              refine ⟨o, u, e, w'', hfirst.append_left hnot, hu, ?_, hinterrupts⟩
              rw [run_request_of_ok hresult, heq]
  · right
    refine ⟨o, u, e, w', ?_, hu, run_request_of_error heq, hinterrupts⟩
    rw [Plan.course, List.flatMap_cons]
    exact hfirst.append_right _

theorem UpToCut.mono {within' : Visit σ → Prop} {course : List (Occurrence σ)}
    {x : Evaluation σ α} (hx : it.UpToCut limits within course x w)
    (hwithin : ∀ u, within u → within' u) : it.UpToCut limits within' course x w := by
  obtain hstep | ⟨o, u, e, w', hfirst, hu, hrest⟩ := hx
  · exact .inl hstep
  · exact .inr ⟨o, u, e, w', hfirst, hwithin u hu, hrest⟩

/-- No limit disturbs what is neither a wait nor the evaluation of another action. -/
theorem inStep_serve {ev : Evaluator σ} (hr : ∀ b g, r ≠ .evaluate b g) (hwaits : r.waits = false)
    (hw : w.Limited limits) (hspaced : it.Spaced limits ⟨r, w.unlimited⟩) :
    InStep limits (it.serve ev r) w := by
  cases r with
  | evaluate b g => exact absurd rfl (hr b g)
  | wait awaited => cases hwaits
  | timeout => cases hwaits
  | carryOut task => exact (it.surface.inStep_carryOut task hw hspaced).ofInteraction
  | lookUp name => exact .of_eq rfl rfl hw
  | commit batch => exact .of_eq rfl rfl (hw.of_eq rfl rfl rfl rfl)
  | log level message => exact .of_eq rfl rfl (hw.of_eq rfl rfl rfl rfl)

theorem extent_of_not_evaluate {o : Occurrence σ} (ho : ∀ b g, o.request ≠ .evaluate b g) :
    it.extent o = [o] := by
  rw [extent, innerCourse_eq_nil ho]

theorem head_mem_course (r : Request) (next : r.Answer → Plan α) (w : World σ) :
    ⟨r, w⟩ ∈ (Plan.request r next).course (it.serve it.evaluate) w := by
  rw [Plan.course]
  exact List.mem_cons_self

section Requests

variable {v : Visit σ}
  (hspaced : ∀ o ∈ it.course v.action v.frame v.world, it.Spaced limits o)
  (hinner : ∀ b g w₁, it.Nests v ⟨b, g, w₁.unlimited⟩ → w₁.Limited limits →
    it.UpToCut limits (Relation.ReflTransGen it.Nests ⟨b, g, w₁.unlimited⟩)
      (it.course b g w₁.unlimited) (it.evaluate b g) w₁)

include hspaced hinner

theorem upToCut_serve (hr : r.waits = false) (hw : w.Limited limits)
    (hrequest : ⟨r, w.unlimited⟩ ∈ it.requests v.action v.frame v.world) :
    it.UpToCut limits (Relation.ReflTransGen it.Nests v) (it.extent ⟨r, w.unlimited⟩)
      (it.serve it.evaluate r) w := by
  have hown : ∀ o ∈ [(⟨r, w.unlimited⟩ : Occurrence σ)], ¬ it.CutOff limits o := by
    simpa using not_cutOff_of_not_waits hr
  obtain ⟨b, g, w₁, heq, -⟩ | hother := cases_of_mem_requests hrequest
  · cases heq
    obtain ⟨hstep, hnot⟩ | ⟨o, u, e, w', hfirst, hu, hrest⟩ := hinner b g w hrequest hw
    · refine .inl ⟨hstep, fun o ho => ?_⟩
      obtain rfl | ho := List.mem_cons.1 ho
      · exact hown _ (List.mem_singleton_self _)
      · exact hnot o ho
    · have hnests : it.Nests v ⟨b, g, w.unlimited⟩ := hrequest
      refine .inr ⟨o, u, e, w', ?_, .head hnests hu, hrest⟩
      exact hfirst.append_left hown
  · rw [extent_of_not_evaluate hother]
    refine .inl ⟨inStep_serve hother hr hw ?_, hown⟩
    exact hspaced _ (mem_course_of_mem_requests hrequest)

/-- What the plan of an action comes to, if that is known of the actions that it leads to. -/
theorem upToCut_run (hlimits : ∀ now, limits.stops now ≠ []) {p : Plan α}
    (hp : Heeds (it.dispatch? v.action) v.action v.entered p) (hw : w.Limited limits)
    (hown : ∀ o ∈ p.course (it.serve it.evaluate) w.unlimited,
      o ∈ it.requests v.action v.frame v.world) :
    it.UpToCut limits (Relation.ReflTransGen it.Nests v)
      ((p.course (it.serve it.evaluate) w.unlimited).flatMap it.extent)
      (p.run (it.serve it.evaluate)) w := by
  induction hp generalizing w with
  | done v => exact .inl ⟨.of_eq rfl rfl hw, fun o ho => (List.not_mem_nil ho).elim⟩
  | stop s => exact .inl ⟨.of_eq rfl rfl hw, fun o ho => (List.not_mem_nil ho).elim⟩
  | @other r next hr hnext ih =>
      have hrequest := hown _ (head_mem_course r next _)
      refine UpToCut.request (upToCut_serve hspaced hinner hr hw hrequest) ?_
      intro answer w' hresult hw' hfree
      refine ih answer hw' fun o ho => hown o ?_
      rw [course_request_of_ok hfree]
      exact List.mem_cons_of_mem _ ho
  | @wait awaited next hk hok hcancelled htimeout ih =>
      have hrequest := hown _ (head_mem_course (.wait awaited) next w.unlimited)
      have hextent : it.extent ⟨.wait awaited, w.unlimited⟩ = [⟨.wait awaited, w.unlimited⟩] :=
        extent_of_not_evaluate (by intro b g h; cases h)
      obtain ⟨hstep, hanswer, hnot⟩ | ⟨w', hcuts, hrace, hstore⟩ :=
        Interaction.race_cases hlimits (it.surface.onPage_work awaited) hw
          (hspaced _ (mem_course_of_mem_requests hrequest))
      · have hown' : ¬ it.CutOff limits ⟨.wait awaited, w.unlimited⟩ := by
          rintro ⟨t, calls, _, hsame, hcuts⟩
          cases hsame
          exact hnot t calls hcuts
        refine UpToCut.request (.inl ⟨hstep.ofInteraction, ?_⟩) ?_
        · rw [hextent]
          simpa using hown'
        · intro answer w' hresult hw' hfree
          cases answer with
          | ok =>
              refine ih hw' fun o ho => hown o ?_
              rw [course_request_of_ok hfree]
              exact List.mem_cons_of_mem _ ho
          | error reason =>
              have hrace : (Interaction.race (it.surface.work awaited) w).1 = .ok (.error reason) :=
                Evaluation.eq_ok_of_ofInteraction (congrArg Prod.fst hresult)
              exact absurd hrace (hanswer reason)
      · have hserve : it.serve it.evaluate (.wait awaited) w =
            (.ok (.error (limits.reason w'.now)), w') := by
          simp only [serve, Evaluation.ofInteraction, hrace]
          rfl
        have hcuts' : it.Cuts limits ⟨.wait awaited, w.unlimited⟩ w'.now w'.calls :=
          ⟨awaited, rfl, hcuts⟩
        obtain ⟨-, hrun⟩ := (Heeds.wait hk hok hcancelled htimeout).run_of_stopped (fun _ => rfl)
          (head_mem_course (.wait awaited) next w) rfl hserve
        have hfirst : it.IsFirstCut limits [⟨.wait awaited, w.unlimited⟩]
            ⟨.wait awaited, w.unlimited⟩ := ⟨[], [], rfl, by simp, _, _, hcuts'⟩
        refine .inr ⟨_, v, _, w', ?_, .refl, hrun, hrequest, hk, hcuts', rfl, hstore⟩
        rw [Plan.course, List.flatMap_cons, hextent]
        exact hfirst.append_right _

end Requests

end Plans

/-! ### Evaluations -/

theorem inStep_rescue (a : Action) (frame : Frame Handle) (s : Stop) (hw : w.Limited limits) :
    InStep limits (rescue a frame s) w := by
  cases s with
  | failed e => exact .of_eq rfl rfl hw
  | fault f =>
      cases f with
      | surface e =>
          cases e with
          | notFound selector => exact .of_eq rfl rfl hw
          | failed message operation details =>
              exact .of_eq rfl rfl (hw.of_eq rfl rfl rfl rfl)
      | _ => exact .of_eq rfl rfl hw

theorem upToCut_step {within : Visit σ → Prop} {course : List (Occurrence σ)} {a : Action}
    {frame : Frame Handle}
    (hrun : it.UpToCut limits within course ((it.plan a frame).run (it.serve it.evaluate)) w) :
    it.UpToCut limits within course (it.step it.evaluate a frame) w := by
  obtain ⟨-, heq⟩ | heq := it.step_cases it.evaluate a frame
  · rw [heq]
    exact hrun
  · rw [heq]
    obtain ⟨hstep, hnot⟩ | ⟨o, u, e, w', hfirst, hu, hfails, hinterrupts⟩ := hrun
    · refine .inl ⟨hstep.tryCatch fun s w' _ hw' => ?_, hnot⟩
      exact inStep_rescue a frame s hw'
    · refine .inr ⟨o, u, e, w', hfirst, hu, ?_, hinterrupts⟩
      rw [Fallible.tryCatch_of_error hfails]
      rfl

/-- An evaluation with limits goes as without, up to the first wait that a limit cuts off. -/
theorem upToCut_evaluate (hlimits : ∀ now, limits.stops now ≠ []) (a : Action)
    (frame : Frame Handle) (hw : w.Limited limits)
    (hspaced : ∀ o ∈ it.course a frame w.unlimited, it.Spaced limits o) :
    it.UpToCut limits (Relation.ReflTransGen it.Nests ⟨a, frame, w.unlimited⟩)
      (it.course a frame w.unlimited) (it.evaluate a frame) w := by
  induction a, frame using it.evaluation_induction generalizing w with
  | hstep a frame ih =>
      by_cases hadmits : it.Admits (frame.enter a.name)
      · have hrequests := requests_of_admits hadmits w.unlimited
        rw [evaluate_of_admits hadmits]
        refine upToCut_step ?_
        have hcourse : it.course a frame w.unlimited =
            ((it.plan a (frame.enter a.name)).course (it.serve it.evaluate) w.unlimited).flatMap
              it.extent := by
          rw [course_eq, hrequests]
          rfl
        rw [hcourse]
        refine upToCut_run (v := ⟨a, frame, w.unlimited⟩) hspaced ?_ hlimits
          (it.heeds_plan a _) hw ?_
        · intro b g w₁ hnests hw₁
          refine ih hadmits b g hnests.depth_eq hw₁ fun o ho => hspaced o ?_
          exact mem_course_of_mem_innerCourse hnests ho
        · intro o ho
          rw [hrequests]
          exact ho
      · obtain ⟨message, hevaluate⟩ := evaluate_of_not_admits hadmits
        rw [hevaluate, course_eq, requests_of_not_admits hadmits]
        exact .inl ⟨.of_eq rfl rfl hw, fun o ho => (List.not_mem_nil ho).elim⟩

/-- The requests in the course of a visit. -/
def courseAt (it : Interpreter σ) (v : Visit σ) : List (Occurrence σ) :=
  it.course v.action v.frame v.world

end Interpreter

/-! ### Runs -/

/-- The same session with a token that never fires. -/
def Session.unlimited (s : Session σ) : Session σ :=
  { s with world := s.world.unlimited }

def Run.unlimited (run : Run σ) : Run σ :=
  { run with session := run.session.unlimited }

theorem Handler.cases_of_mem_course_wait {serve : (r : Request) → Evaluation σ r.Answer}
    {a : Action} {frame : Frame Handle} {awaited : Surface.Awaited} {o : Occurrence σ}
    (ho : o ∈ (wait a frame awaited).course serve w) :
    o = ⟨.wait awaited, w⟩ ∨ o.request = .timeout := by
  change o ∈ (Plan.request (.wait awaited) _).course serve w at ho
  cases hserve : serve (.wait awaited) w with
  | mk result w' =>
      cases result with
      | error s =>
          rw [course_request_of_error hserve] at ho
          exact .inl (List.mem_singleton.1 ho)
      | ok ending =>
          rw [course_request_of_ok hserve] at ho
          refine (List.mem_cons.1 ho).imp_right fun ho => ?_
          cases ending with
          | ok => cases ho
          | error reason =>
              cases reason with
              | cancelled => cases ho
              | timeout =>
                  change o ∈ (Plan.request .timeout _).course serve w' at ho
                  rw [Plan.course] at ho
                  obtain rfl | ho := List.mem_cons.1 ho
                  · rfl
                  · split at ho
                    · cases ho
                    · cases ho

namespace Runner

variable {it : Interpreter σ} {index : Nat} {step : Step} {s : Session σ}

theorem outcome_unlimited {x : Evaluation σ Value} (hx : InStep limits x w) :
    x.outcome w.unlimited = ((x.outcome w).1, (x.outcome w).2.unlimited) := by
  have hsame := hx.same
  unfold Evaluation.outcome
  rw [hsame]
  cases x w with
  | mk result w' =>
      cases result with
      | ok v => rfl
      | error stop =>
          cases stop with
          | failed e => rfl
          | fault f => rfl

/-- If a step goes as without limits then so does what is recorded of it. -/
theorem runStep_unlimited
    (hstep : InStep limits (evaluateStep it { source := sourceOf index } step) s.world) :
    runStep it index step s.unlimited =
      ((runStep it index step s).1, (runStep it index step s).2.unlimited) := by
  have hfree := outcome_unlimited hstep
  cases houtcome : (evaluateStep it { source := sourceOf index } step).outcome s.world with
  | mk result w' =>
      rw [houtcome] at hfree
      cases result with
      | error f =>
          rw [runStep_of_faulty houtcome, runStep_of_faulty (s := s.unlimited) hfree]
          rfl
      | ok outcome =>
          obtain ⟨n, archive, hrecord⟩ := record_retarget (sourceOf index) step outcome s.world.now
            { s with world := w' }
          rw [runStep_of_outcome houtcome, hrecord w' s.program rfl,
            runStep_of_outcome (s := s.unlimited) hfree]
          exact congrArg (fun p : Except Fault Unit × Session σ =>
            (p.1.map fun _ => outcome, p.2)) (hrecord w'.unlimited s.program rfl)

theorem upToCut_evaluateStep (hlimits : ∀ now, limits.stops now ≠ []) (frame : Frame Handle)
    {visits : List (Visit σ)}
    (hvisits : visits = (step.action? it.registry).toList.map (⟨·, frame, w.unlimited⟩))
    (hw : w.Limited limits)
    (hspaced : ∀ o ∈ visits.flatMap it.courseAt, it.Spaced limits o) :
    it.UpToCut limits (fun u => ∃ v ∈ visits, Relation.ReflTransGen it.Nests v u)
      (visits.flatMap it.courseAt) (evaluateStep it frame step) w := by
  cases haction : step.action? it.registry with
  | none =>
      rw [haction] at hvisits
      obtain rfl : visits = [] := hvisits
      refine .inl ⟨?_, fun o ho => (List.not_mem_nil ho).elim⟩
      cases step with
      | action a => cases haction
      | raw v =>
          simp only [Step.action?] at haction
          cases hparse : it.registry.parseAction v with
          | ok a =>
              rw [hparse] at haction
              cases haction
          | error e =>
              simp only [evaluateStep, Interpreter.evaluateRaw, hparse]
              exact .of_eq rfl rfl hw
  | some a =>
      rw [haction] at hvisits
      obtain rfl : visits = [⟨a, frame, w.unlimited⟩] := hvisits
      rw [List.flatMap_singleton] at hspaced ⊢
      rw [evaluateStep_of_read haction]
      refine (Interpreter.upToCut_evaluate hlimits a frame hw hspaced).mono fun u hu => ?_
      exact ⟨_, List.mem_singleton_self _, hu⟩

/-- A run whose first step stands at some index ends with an error at one of its steps, unless that
cannot be recorded. -/
def EndsWith (s : Session σ) (index : Nat) (steps : List Step) (e : ActionError) (now : Binary64)
    (result : Except Fault Outcome) : Prop :=
  ∃ i step started, steps[i]? = some step ∧
    result = (s.events.bind fun log =>
      (log.count i).stepFault? (sourceOf (index + i)) step (.error e) started now).elim
        (.ok (.error e)) .error

/-- If a wait is cut off in a step then the run ends there. -/
theorem runFrom_of_interrupts (value : Value) (rest : List Step) {o : Occurrence σ} {u : Visit σ}
    {e : ActionError}
    (hfails : evaluateStep it { source := sourceOf index } step s.world = (.error (.failed e), w'))
    (hinterrupts : it.Interrupts limits u o e w') :
    EndsWith s index (step :: rest) e (runFrom it index value (step :: rest) s).2.world.now
        (runFrom it index value (step :: rest) s).1 ∧
      it.Interrupts limits u o e (runFrom it index value (step :: rest) s).2.world := by
  have houtcome : (evaluateStep it { source := sourceOf index } step).outcome s.world =
      (.ok (.error e), w') := by
    rw [Evaluation.outcome, hfails]
  have hstep := runStep_apply it index step s
  rw [houtcome] at hstep
  obtain ⟨n, archive, hstep⟩ := hstep
  have hends {result : Except Fault Outcome}
      (hresult : result = (({ s with world := w' } : Session σ).stepFault? (sourceOf index) step
        (.error e) s.world.now).elim (.ok (.error e)) .error) :
      EndsWith s index (step :: rest) e w'.now result :=
    ⟨0, step, s.world.now, rfl, hresult⟩
  cases hfault : ({ s with world := w' } : Session σ).stepFault? (sourceOf index) step (.error e)
      s.world.now with
  | some f =>
      rw [hfault] at hstep hends
      rw [runFrom_of_fault hstep]
      exact ⟨hends rfl, hinterrupts⟩
  | none =>
      rw [hfault] at hstep hends
      obtain ⟨records, hrun⟩ := runFrom_of_failed value rest hstep
      rw [hrun]
      exact ⟨hends rfl, hinterrupts.own, hinterrupts.waits, hinterrupts.cuts, hinterrupts.error,
        hinterrupts.store⟩

theorem EndsWith.cons {s' : Session σ} {steps : List Step} {e : ActionError} {now : Binary64}
    {result : Except Fault Outcome} (h : EndsWith s' (index + 1) steps e now result)
    (hevents : s'.events = s.events.map (·.count 1)) (first : Step) :
    EndsWith s index (first :: steps) e now result := by
  obtain ⟨i, step, started, hstep, hresult⟩ := h
  refine ⟨i + 1, step, started, hstep, ?_⟩
  have hcount (log : EventLog) : (log.count 1).count i = log.count (i + 1) := by
    rw [EventLog.count_count, Nat.add_comm]
  rw [hresult, hevents, Option.bind_map, Nat.add_assoc, Nat.add_comm 1 i]
  simp only [Function.comp_def, hcount]

/-- A run with limits goes as without, up to the first wait that a limit cuts off. -/
theorem upToCut_runFrom (hlimits : ∀ now, limits.stops now ≠ []) (it : Interpreter σ)
    (index : Nat) (value : Value) (steps : List Step) (hw : s.world.Limited limits)
    (hspaced : ∀ o ∈ (visitsFrom it index steps s.unlimited).flatMap it.courseAt,
      it.Spaced limits o) :
    (runFrom it index value steps s.unlimited =
          ((runFrom it index value steps s).1, (runFrom it index value steps s).2.unlimited) ∧
        ∀ o ∈ (visitsFrom it index steps s.unlimited).flatMap it.courseAt, ¬ it.CutOff limits o) ∨
      ∃ o u e,
        it.IsFirstCut limits ((visitsFrom it index steps s.unlimited).flatMap it.courseAt) o ∧
          (∃ v ∈ visitsFrom it index steps s.unlimited, Relation.ReflTransGen it.Nests v u) ∧
          EndsWith s index steps e (runFrom it index value steps s).2.world.now
            (runFrom it index value steps s).1 ∧
          it.Interrupts limits u o e (runFrom it index value steps s).2.world := by
  induction steps generalizing index value s with
  | nil => exact .inl ⟨rfl, fun o ho => (List.not_mem_nil ho).elim⟩
  | cons step rest ih =>
      rw [visitsFrom] at hspaced ⊢
      generalize hvisits : (step.action? it.registry).toList.map (fun a =>
        (⟨a, { source := sourceOf index }, s.unlimited.world⟩ : Visit σ)) = visits at hspaced ⊢
      rw [List.flatMap_append] at hspaced ⊢
      obtain ⟨hstep, hnot⟩ | ⟨o, u, e, w', hfirst, ⟨v, hv, hu⟩, hfails, hinterrupts⟩ :=
        upToCut_evaluateStep hlimits { source := sourceOf index } hvisits.symm hw
          fun o ho => hspaced o (List.mem_append_left _ ho)
      · have hfree := runStep_unlimited hstep
        have hw' : (runStep it index step s).2.world.Limited limits := by
          rw [world_runStep]
          exact hstep.limited
        cases hresult : runStep it index step s with
        | mk result s' =>
            rw [hresult] at hfree hw'
            rw [hfree] at hspaced ⊢
            cases result with
            | error f =>
                left
                rw [runFrom_of_fault hresult, runFrom_of_fault hfree]
                simpa only [List.flatMap_nil, List.append_nil, true_and] using hnot
            | ok outcome =>
                cases outcome with
                | error e =>
                    have hrun {s s' : Session σ} (h : runStep it index step s = (.ok (.error e), s')) :
                        runFrom it index value (step :: rest) s = failed e s' :=
                      Fallible.bind_of_ok h
                    left
                    rw [hrun hresult, hrun hfree]
                    simp only [List.flatMap_nil, List.append_nil]
                    exact ⟨rfl, hnot⟩
                | ok value' =>
                    rw [runFrom_of_ok hresult, runFrom_of_ok hfree]
                    simp only at hspaced ⊢
                    obtain ⟨hsame, hnot'⟩ | ⟨o, u, e, hfirst, ⟨v, hv, hu⟩, hends, hinterrupts⟩ :=
                      ih (index + 1) value' hw' fun o ho => hspaced o (List.mem_append_right _ ho)
                    · refine .inl ⟨hsame, fun o ho => ?_⟩
                      obtain ho | ho := List.mem_append.1 ho
                      · exact hnot o ho
                      · exact hnot' o ho
                    · exact .inr ⟨o, u, e, hfirst.append_left hnot,
                        ⟨v, List.mem_append_right _ hv, hu⟩,
                        hends.cons (events_of_runStep_ok hresult) step, hinterrupts⟩
      · exact .inr ⟨o, u, e, hfirst.append_right _, ⟨v, List.mem_append_left _ hv, hu⟩,
          runFrom_of_interrupts value rest hfails hinterrupts⟩

/-- The requests in the course of a run. -/
def course (r : Runner σ) (run : Run σ) : List (Occurrence σ) :=
  (r.visits run).flatMap (r.interpreter run.session.program).courseAt

theorem begun?_unlimited {r : Runner σ} {op : Operation} {run : Run σ}
    (hrun : r.begun? s op = some run) : r.begun? s.unlimited op = some run.unlimited := by
  have harm : s.unlimited.world.arm = s.world.arm.unlimited := rfl
  cases op with
  | run document | runAndClose document =>
      cases hparse : document.parse r.registry with
      | ok program =>
          simp only [begun?, hparse] at hrun ⊢
          cases hrun
          rw [harm]
          rfl
      | error e =>
          simp only [begun?, hparse] at hrun
          cases hrun
  | runSteps steps =>
      cases hrun
      rw [begun?, harm]
      rfl
  | _ => cases hrun

/-- In a run without limits nothing is cancelled, and no time runs out. -/
theorem reason?_of_mem_course {r : Runner σ} {run : Run σ} {v : Visit σ} {o : Occurrence σ}
    (hv : v ∈ r.visits run.unlimited)
    (ho : o ∈ (r.interpreter run.session.program).course v.action v.frame v.world) :
    o.world.token.reason? o.world.now = none ∧ o.world.ringing = false := by
  have honward := ((carries_proceed trend_onward r run.unlimited).2 v hv).1.trans
    (Interpreter.keeps_course trend_onward ho).1
  have hquiet := honward.quiet ⟨rfl, rfl, rfl⟩
  have hdeadline : o.world.token.deadline = none := honward.deadline
  refine ⟨?_, hquiet.ringing⟩
  rw [Token.reason?, hquiet.cancelled, Token.expired, Token.remaining, hdeadline]
  rfl

/-- The calls by the time at which a wait is cut off are among those of the run without limits. -/
theorem calls_prefix_of_cuts {r : Runner σ} {run : Run σ} {v : Visit σ} {o : Occurrence σ}
    {t : Binary64} {calls : List Call} (hv : v ∈ r.visits run.unlimited)
    (ho : o ∈ (r.interpreter run.session.program).course v.action v.frame v.world)
    (hcuts : (r.interpreter run.session.program).Cuts limits o t calls) :
    calls <+: (r.proceed run.unlimited).2.world.calls := by
  have hlast := ((carries_proceed trend_calls r run.unlimited).2 v hv).2
  have hrest := (Interpreter.keeps_course trend_calls ho).2.trans hlast
  refine List.IsPrefix.trans ?_ hrest
  obtain ⟨awaited, hrequest, hcuts⟩ := hcuts
  have hwork := r.surface.keeps_work trend_calls.toChange awaited
  rw [hrequest]
  cases hcuts with
  | late hpassed => exact hwork.race trend_calls.toChange o.world
  | short hpassed hfirst hunfinished =>
      obtain ⟨hreason, hringing⟩ := reason?_of_mem_course hv ho
      exact Interaction.keeps_race_begun hreason hringing trend_calls.toChange hwork

/-- A run with limits beside the same run with a token that never fires.

The calls of the one are the first calls of the other.  Either the two runs come to the same, which
is so if no wait of the second one is cut off, or the first fails at the first wait that is cut off:
one which would begin when a limit has come, and then is not begun at all, or would not be over when
the first of them comes, and then is over at that time.  A failure that cannot be recorded is not
returned. -/
theorem interrupted_run (r : Runner σ) {op : Operation} {run : Run σ}
    (hrun : r.begun? s op = some run) (hop : op.closes = false)
    (hlimited : run.session.world.Limited limits)
    (hspaced : ∀ o ∈ r.course run.unlimited,
      (r.interpreter run.session.program).Spaced limits o) :
    (r.perform op s).2.world.calls <+: (r.perform op s.unlimited).2.world.calls ∧
      ((r.perform op s.unlimited = ((r.perform op s).1, (r.perform op s).2.unlimited) ∧
          ∀ o ∈ r.course run.unlimited,
            ¬ (r.interpreter run.session.program).CutOff limits o) ∨
        ∃ o u e,
          (r.interpreter run.session.program).IsFirstCut limits (r.course run.unlimited) o ∧
            (∃ v ∈ r.visits run.unlimited,
              Relation.ReflTransGen (r.interpreter run.session.program).Nests v u) ∧
            (∃ result, EndsWith s 0 run.steps e (r.perform op s).2.world.now result ∧
              (r.perform op s).1 = result.map some) ∧
            (r.interpreter run.session.program).Interrupts limits u o e
              (r.perform op s).2.world) := by
  have hevents : run.session.events = s.events := by
    obtain ⟨program, hsession⟩ := session_of_begun? hrun
    rw [hsession]
  rw [perform_of_begun? hrun hop, perform_of_begun? (begun?_unlimited hrun) hop]
  obtain rfl | hlimits := limits.eq_or_stops_ne_nil
  · -- without limits it is the same run
    have hsame : run.unlimited = run := by
      rw [Run.unlimited, Session.unlimited, hlimited.unlimited_eq (.refl _)]
    have hend : (r.proceed run).2.unlimited = (r.proceed run).2 := by
      rw [Session.unlimited, hlimited.unlimited_eq (carries_proceed trend_onward r run).1.world]
    rw [hsame]
    refine ⟨List.prefix_rfl, .inl ⟨?_, ?_⟩⟩
    · rw [hend]
    · rintro o - ⟨t, calls, awaited, -, hcuts⟩
      cases hcuts with
      | late hpassed => cases hpassed
      | short _ hfirst _ => cases hfirst
  · have hcases := upToCut_runFrom hlimits (r.interpreter run.session.program) 0 .null run.steps
      hlimited hspaced
    obtain ⟨hsame, hnot⟩ | ⟨o, u, e, hfirst, ⟨v, hv, hu⟩, hends, hinterrupts⟩ := hcases
    · have hproceed : r.proceed run.unlimited =
          ((r.proceed run).1, (r.proceed run).2.unlimited) := hsame
      rw [hproceed]
      exact ⟨List.prefix_rfl, .inl ⟨rfl, hnot⟩⟩
    · have ho := Interpreter.mem_course_of_reflTransGen hu hinterrupts.own
      rw [EndsWith, hevents] at hends
      exact ⟨calls_prefix_of_cuts hv ho hinterrupts.cuts, .inr ⟨o, u, e, hfirst, ⟨v, hv, hu⟩,
        ⟨_, hends, rfl⟩, hinterrupts⟩⟩

def half : Binary64 := .ofDecimal false 5 (-1)

/-- The session of the runner that pauses, which is to be cancelled after half a second. -/
def cancelledSession : Session Script :=
  { pausingSession with world := pausingSession.world.cancelAfter half }

/-- The limits of its first run. -/
def halfAndOne : Limits where
  cancelAt := some (Binary64.zero.add half)
  deadline := some (Binary64.zero.add (.ofInt 1))

def cancelledRun : Run Script :=
  ⟨[.action pause], { cancelledSession with world := cancelledSession.world.arm }⟩

/-- The wait that the run asks for, as it would be without limits. -/
def freeWait : Occurrence Script :=
  ⟨.wait (.pause (.ofInt 2)), cancelledRun.unlimited.session.world⟩

theorem admits_pause : (pausing.interpreter cancelledRun.unlimited.session.program).Admits
    (({ source := sourceOf 0 } : Frame Handle).enter pause.name) := by
  change (_ : Int) ≤ 1000 ∧ (_ : Int) ≤ 50
  decide

theorem freeWait_mem_course : freeWait ∈ pausing.course cancelledRun.unlimited := by
  refine List.mem_flatMap.2 ⟨⟨pause, { source := sourceOf 0 },
    cancelledRun.unlimited.session.world⟩, ?_, Interpreter.mem_course_of_mem_requests ?_⟩
  · exact List.mem_append_left _ (List.mem_singleton_self _)
  · rw [Interpreter.requests_of_admits admits_pause]
    exact Handler.mem_course_wait pause _ (.pause (.ofInt 2)) _

theorem cases_of_mem_course_cancelledRun {o : Occurrence Script}
    (ho : o ∈ pausing.course cancelledRun.unlimited) : o = freeWait ∨ o.request = .timeout := by
  obtain ⟨v, hv, ho⟩ := List.mem_flatMap.1 ho
  have hvisit : v = ⟨pause, { source := sourceOf 0 }, cancelledRun.unlimited.session.world⟩ := by
    obtain hv | hv := List.mem_append.1 hv
    · exact List.mem_singleton.1 hv
    · split at hv
      · cases hv
      · cases hv
  subst hvisit
  rw [Interpreter.courseAt, Interpreter.course_eq,
    Interpreter.requests_of_admits admits_pause] at ho
  obtain ⟨own, hown, ho⟩ := List.mem_flatMap.1 ho
  have hcases : own = freeWait ∨ own.request = .timeout :=
    Handler.cases_of_mem_course_wait hown
  have hother : ∀ b g, own.request ≠ .evaluate b g := by
    intro b g hevaluate
    obtain rfl | htimeout := hcases
    · cases hevaluate
    · rw [htimeout] at hevaluate
      cases hevaluate
  rw [Interpreter.innerCourse_eq_nil hother] at ho
  obtain rfl := List.mem_singleton.1 ho
  exact hcases

/-- A pause of two seconds, with a limit of one second, ends after half a second if it is cancelled
then. -/
theorem interrupted_run_cancelled :
    ∃ e, (pausing.perform (.runSteps [.action pause]) cancelledSession).1 = .ok (some (.error e)) ∧
      e.code = .cancelled ∧
        (pausing.perform (.runSteps [.action pause]) cancelledSession).2.world.now =
          Binary64.zero.add half := by
  have hbegun : pausing.begun? cancelledSession (.runSteps [.action pause]) = some cancelledRun :=
    rfl
  have hlimited : cancelledRun.session.world.Limited halfAndOne := by
    refine ⟨by decide +kernel, rfl, (by intro h; cases h), rfl, .inl ⟨rfl, rfl, fun c hc => ?_⟩⟩
    obtain rfl : Binary64.zero.add half = c := Option.some.inj hc
    decide +kernel
  have hspaced : ∀ o ∈ pausing.course cancelledRun.unlimited,
      (pausing.interpreter cancelledRun.session.program).Spaced halfAndOne o := by
    intro o ho
    obtain rfl | htimeout := cases_of_mem_course_cancelledRun ho
    · have hwait : Interaction.Spaced halfAndOne (Work.sleep (.ofInt 2)) freeWait.world := by
        decide +kernel
      exact hwait
    · rw [Interpreter.Spaced, htimeout]
      trivial
  have hnotPassed : halfAndOne.passed freeWait.world.now = false := by decide +kernel
  have hfirstStop : halfAndOne.firstStop? freeWait.world.now = some (Binary64.zero.add half) := by
    decide +kernel
  obtain ⟨-, ⟨-, hnot⟩ | ⟨o, u, e, ⟨before, after, hcourse, -⟩, -,
      ⟨_, ⟨_, _, _, _, rfl⟩, hresult⟩, hinterrupts⟩⟩ :=
    interrupted_run pausing hbegun rfl hlimited hspaced
  · refine absurd ?_ (hnot freeWait freeWait_mem_course)
    exact ⟨_, _, _, rfl, .short hnotPassed hfirstStop (.inr (by decide +kernel))⟩
  · have ho : o ∈ pausing.course cancelledRun.unlimited := by
      rw [hcourse]
      exact List.mem_append_cons_self
    obtain ⟨awaited, hrequest, hcuts⟩ := hinterrupts.cuts
    obtain rfl | htimeout := cases_of_mem_course_cancelledRun ho
    · have hnow := hfirstStop.symm.trans (hcuts.firstStop?_eq hnotPassed)
      have hend := (Option.some.inj hnow).symm
      have hreason : halfAndOne.reason (Binary64.zero.add half) = .cancelled := by decide +kernel
      have herror := hinterrupts.error
      rw [hend, hreason] at herror
      refine ⟨e, hresult, ?_, hend⟩
      rw [herror]
      rfl
    · rw [htimeout] at hrequest
      cases hrequest

end Runner

end Pagescript
