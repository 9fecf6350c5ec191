import Pagescript.Proofs.Calls
import Pagescript.Proofs.Lifecycle
import Pagescript.Proofs.Translation
/-!
# What a loop binds

A loop asks once for its elements and then takes a turn for each of them.  A turn binds its element,
and the binding goes along with the frame into every action that is evaluated on the way, whatever
lies between, until another loop binds its own.  An action without an element of its own acts on the
one that is bound.
-/

namespace Pagescript

open Plan Handler

theorem Interaction.snd_map {σ α β : Type} (f : α → β) (x : Interaction σ α) (w : World σ) :
    ((f <$> x) w).2 = (x w).2 := by
  rw [map_eq_pure_bind]
  cases hx : x w with
  | mk result w' =>
      cases result with
      | ok v => exact congrArg Prod.snd (Fallible.bind_of_ok hx)
      | error f => exact congrArg Prod.snd (Fallible.bind_of_error hx)

namespace Evaluation

variable {σ α : Type} {x : Interaction σ α} {w w' : World σ}

theorem ofInteraction_of_ok {v : α} (hx : x w = (.ok v, w')) :
    ofInteraction x w = (.ok v, w') := by
  rw [ofInteraction, hx]
  rfl

theorem ofInteraction_of_error {f : Fault} (hx : x w = (.error f, w')) :
    ofInteraction x w = (.error (.fault f), w') := by
  rw [ofInteraction, hx]
  rfl

end Evaluation

/-! ### The calls of a task and of a wait -/

namespace Surface

variable {σ α β : Type} {s : Surface σ}

/-- The interaction makes some calls in order, the first one in any case, and leaves out none before
the last one that it makes. -/
def Makes (ops : List Operation) (x : Interaction σ α) : Prop :=
  ∀ w, ∃ made, made ≠ [] ∧ made <+: ops.map (·.call) ∧ (x w).2.calls = w.calls ++ made

theorem calls_perform (s : Surface σ) (o : Operation) (w : World σ) :
    (s.perform o.name o.details o.call w).2.calls = w.calls ++ [o.call] := by
  rw [perform_eq_mapFault]
  exact calls_plainly s.page o.call w

theorem makes_perform (s : Surface σ) (o : Operation) :
    Makes [o] (s.perform o.name o.details o.call) := by
  intro w
  exact ⟨[o.call], List.cons_ne_nil _ _, List.prefix_rfl, s.calls_perform o w⟩

theorem Makes.map {ops : List Operation} {x : Interaction σ α} (hx : Makes ops x) (f : α → β) :
    Makes ops (f <$> x) := by
  intro w
  rw [Interaction.snd_map]
  exact hx w

theorem makes_bind (o : Operation) {rest : List Operation} {y : Interaction σ α}
    (hy : Makes rest y) : Makes (o :: rest) (s.perform o.name o.details o.call >>= fun _ => y) := by
  intro w
  have hcalls := s.calls_perform o w
  cases hfirst : s.perform o.name o.details o.call w with
  | mk result w₁ =>
      rw [hfirst] at hcalls
      cases result with
      | error f =>
          rw [Fallible.bind_of_error hfirst]
          exact ⟨[o.call], List.cons_ne_nil _ _, List.prefix_append _ _, hcalls⟩
      | ok v =>
          obtain ⟨made, -, hinitial, hmade⟩ := hy w₁
          rw [Fallible.bind_of_ok hfirst]
          refine ⟨o.call :: made, List.cons_ne_nil _ _, ?_, ?_⟩
          · exact List.cons_prefix_cons.2 ⟨rfl, hinitial⟩
          · rw [hmade, hcalls, List.append_assoc]
            rfl

theorem makes_carryOut (s : Surface σ) {task : Task} (htask : ∀ selector, task ≠ .queryOne selector) :
    Makes (operations s.timeouts task) (s.carryOut task) := by
  cases task with
  | queryOne selector => exact absurd rfl (htask selector)
  | inspect h inspection => cases inspection <;> exact makes_perform s _
  | gesture h g =>
      cases g with
      | blur => exact (makes_perform s _).map _
      | clear => exact makes_bind _ (makes_perform s _)
      | _ => exact makes_perform s _
  | _ => exact makes_perform s _

theorem calls_race_call (page : Page σ) (c : Call) (w : World σ) :
    (Interaction.race (Work.call page c) w).2.calls =
      w.calls ++ if (w.token.reason? w.now).isSome then [] else [c] := by
  rw [Interaction.race_apply]
  cases w.token.reason? w.now with
  | some reason => exact (List.append_nil _).symm
  | none =>
      have hbegun : (Work.call page c w.ring).2.calls = w.calls ++ [c] :=
        congrArg (· ++ [c]) w.passes_ring.calls_eq
      have houtlast := (Work.call page c w.ring).2.passes_outlast
        (Work.call page c w.ring).1.delay
      simp only
      cases hending : (Work.call page c w.ring).2.outlast (Work.call page c w.ring).1.delay with
      | mk ending w₁ =>
          rw [hending] at houtlast
          have hended : (w₁.endWait ending).calls = w.calls ++ [c] :=
            (w₁.passes_endWait ending).calls_eq.trans (houtlast.calls_eq.trans hbegun)
          cases ending with
          | finished =>
              simp only [Interaction.snd_map]
              rw [calls_finish]
              exact hended
          | stopped =>
              simp only [Interaction.snd_map]
              exact hended
          | never => exact hended

theorem calls_race_work (s : Surface σ) {awaited : Awaited} {o : Operation}
    (ho : waitOperation? s.timeouts awaited = some o) (w : World σ) :
    (Interaction.race (s.work awaited) w).2.calls =
      w.calls ++ if (w.token.reason? w.now).isSome then [] else [o.call] := by
  have hoperation (p : Operation) : (Interaction.race (s.operation p.name p.details p.call) w).2.calls =
      w.calls ++ if (w.token.reason? w.now).isSome then [] else [p.call] := by
    rw [race_operation_eq_mapFault]
    exact calls_race_call s.page p.call w
  cases awaited with
  | pause seconds => cases ho
  | page state => cases state <;> cases ho <;> exact hoperation ⟨_, _, _⟩
  | element h state => cases state <;> cases ho <;> exact hoperation ⟨_, _, _⟩

theorem calls_carryOut_on (s : Surface σ) {task : Task} {h : Handle}
    (htask : ∀ selector, task ≠ .queryOne selector)
    (hon : ∀ o ∈ operations s.timeouts task, ∃ call, o.call = .element h call) (w : World σ) :
    ∃ made, made ≠ [] ∧ (s.carryOut task w).2.calls = w.calls ++ made ∧
      ∀ c ∈ made, ∃ call, c = .element h call := by
  obtain ⟨made, hmade, hinitial, hcalls⟩ := s.makes_carryOut htask w
  refine ⟨made, hmade, hcalls, fun c hc => ?_⟩
  obtain ⟨o, ho, rfl⟩ := List.mem_map.1 (hinitial.subset hc)
  exact hon o ho

theorem exists_waitOperation? (t : Timeouts) (h : Handle) (state : ElementState) :
    ∃ o call, waitOperation? t (.element h state) = some o ∧ o.call = .element h call := by
  cases state <;> exact ⟨_, _, rfl, rfl⟩

end Surface

/-! ### What an action asks for on an element -/

namespace Form

variable {α : Type}

/-- What an element action asks for on the element that it acts on. -/
def requestOn? (h : Handle) : Form α → Option Request
  | .inspect inspection _ => some (.carryOut (.inspect h inspection))
  | .attributeOf _ name => some (.carryOut (.readAttribute h name))
  | .gesture g _ => some (.carryOut (.gesture h g))
  | .input _ text => some (.carryOut (.input h text))
  | .press _ key => some (.carryOut (.press h (Key.normalize key)))
  | .eval _ expression => some (.carryOut (.evaluateOn h expression))
  | .awaitElement state _ => some (.wait (.element h state))
  | _ => none

theorem requestOn?_cases {form : Form α} {h : Handle} {r : Request}
    (hr : form.requestOn? h = some r) :
    (∃ task, r = .carryOut task ∧ (∀ selector, task ≠ .queryOne selector) ∧
        ∀ t, ∀ o ∈ Surface.operations t task, ∃ call, o.call = .element h call) ∨
      ∃ state, r = .wait (.element h state) ∧ form.kind? = some (.awaitElement state) := by
  cases form with
  | inspect inspection =>
      cases hr
      exact .inl ⟨_, rfl, by simp, by cases inspection <;> simp [Surface.operations]⟩
  | gesture g =>
      cases hr
      exact .inl ⟨_, rfl, by simp, by cases g <;> simp [Surface.operations]⟩
  | attributeOf | input | press | eval =>
      cases hr
      exact .inl ⟨_, rfl, by simp, by simp [Surface.operations]⟩
  | awaitElement state =>
      cases hr
      exact .inr ⟨state, rfl, rfl⟩
  | _ => cases hr

theorem eq_forEach_of_kind? {form : Form α} (hkind : form.kind? = some .forEach) :
    ∃ elements execute, form = .forEach elements execute := by
  cases form <;> simp_all [kind?]

theorem eq_forEach_of_execute? {form : Form α} {execute : α} (hexecute : form.execute? = some execute) :
    ∃ elements, form = .forEach elements execute := by
  cases form <;> simp_all [execute?]

/-- What an action without an element does instead on the keyboard or the page, if it can do without
one. -/
def looseTask? : Form α → Option Surface.Task
  | .input none text => some (.insertText text)
  | .press none key => some (.pressKey (Key.normalize key))
  | .eval none expression => some (.evaluate expression)
  | _ => none

theorem element?_of_looseTask? {form : Form α} {task : Surface.Task}
    (htask : form.looseTask? = some task) : form.element? = some none := by
  cases form with
  | input element | press element | eval element =>
      cases element with
      | none => rfl
      | some expression => cases htask
  | _ => cases htask

theorem calls_of_looseTask? {σ : Type} {form : Form α} {task : Surface.Task}
    (htask : form.looseTask? = some task) (s : Surface σ) (w : World σ) :
    (s.carryOut task w).2.calls =
      w.calls ++ (Surface.operations s.timeouts task).map (·.call) := by
  cases form with
  | input element | press element | eval element =>
      cases element with
      | none =>
          cases htask
          exact s.calls_perform ⟨_, _, _⟩ w
      | some expression => cases htask
  | _ => cases htask

end Form

/-! ### Bindings of frames -/

namespace Handler.Leads

variable {program : Program} {a b : Action} {frame g : Frame Handle}

/-- Only a loop changes what is bound. -/
theorem element_eq (hlead : Leads program a frame b g) (hkind : a.form.kind? ≠ some .forEach) :
    g.element = frame.element := by
  cases hlead with
  | turn hb index handle =>
      obtain ⟨elements, hform⟩ := Form.eq_forEach_of_execute? hb
      exact absurd (congrArg Form.kind? hform) hkind
  | _ => rfl

theorem exists_element (hlead : Leads program a frame b g) (hkind : a.form.kind? = some .forEach) :
    ∃ h, g.element = some h := by
  obtain ⟨elements, execute, hform⟩ := Form.eq_forEach_of_kind? hkind
  cases hlead with
  | turn hb index handle => exact ⟨handle, rfl⟩
  | statements h | condition h | statement h | otherwise h | item h | reference h | call h =>
      rw [hform] at h
      cases h

end Handler.Leads

/-- The request for a visit. -/
def Visit.asked {σ : Type} (v : Visit σ) : Occurrence σ :=
  ⟨.evaluate v.action v.frame, v.world⟩

/-- A turn of a loop, in which an element is bound. -/
def Visit.turn {σ : Type} (execute : Action) (frame : Frame Handle) (index : Nat) (h : Handle)
    (w : World σ) : Visit σ :=
  ⟨execute, (frame.item index).bind (some h), w⟩

namespace Interpreter

variable {σ : Type} {it : Interpreter σ} {v u : Visit σ} {a : Action} {frame : Frame Handle}
  {h : Handle}

/-- An action makes one request, after which it at most looks at the time limit. -/
def AsksOnly (it : Interpreter σ) (u : Visit σ) (r : Request) : Prop :=
  ∃ rest, it.requests u.action u.frame u.world = ⟨r, u.world⟩ :: rest ∧
    ∀ e ∈ rest, e.request = .timeout

/-- The action of a visit acts on an element and on nothing else.  Only a wait that the token has
stopped before it begins makes no call at all. -/
structure ActsOn (it : Interpreter σ) (u : Visit σ) (h : Handle) : Prop where
  asks : ∃ r, u.action.form.requestOn? h = some r ∧ it.AsksOnly u r
  calls : ∃ made, (it.evaluate u.action u.frame u.world).2.calls = u.world.calls ++ made ∧
    (∀ c ∈ made, ∃ call, c = .element h call) ∧
    (made = [] → (u.world.token.reason? u.world.now).isSome ∧
      ∃ state, u.action.form.kind? = some (.awaitElement state))

/-- The action of a visit does something on the keyboard or the page. -/
structure ActsLoosely (it : Interpreter σ) (u : Visit σ) (task : Surface.Task) : Prop where
  asks : it.AsksOnly u (.carryOut task)
  calls : (it.evaluate u.action u.frame u.world).2.calls =
    u.world.calls ++ (Surface.operations it.surface.timeouts task).map (·.call)

/-- The action of a visit stops before it asks for anything. -/
def StopsAtOnce (it : Interpreter σ) (u : Visit σ) (s : Stop) : Prop :=
  it.requests u.action u.frame u.world = [] ∧
    it.evaluate u.action u.frame u.world = (.error s, u.world)

/-- The action of a visit fails because it has no element to act on. -/
def LacksElement (it : Interpreter σ) (u : Visit σ) : Prop :=
  it.StopsAtOnce u (.failure u.entered u.action.payload .malformedAction
    "an 'element' key (type string) is required" [])

theorem stopsAtOnce_of_plan {s : Stop} (hadmits : it.Admits u.entered)
    (hplan : it.plan u.action u.entered = .stop s) (hs : ∀ e, s ≠ .fault (.surface e)) :
    it.StopsAtOnce u s := by
  change it.Admits (u.frame.enter u.action.name) at hadmits
  change it.plan u.action (u.frame.enter u.action.name) = _ at hplan
  rw [StopsAtOnce, requests_of_admits hadmits, evaluate_of_admits hadmits]
  constructor
  · rw [hplan, course_stop]
  · apply step_of_error hs
    rw [hplan, run_stop]

/-- A plan that can only ask for the time limit changes nothing. -/
theorem run_of_abides_timeout {α : Type} {p : Plan α} {ev : Evaluator σ}
    (hp : p.Abides (· = .timeout) (fun _ => True) (fun _ => True)) (w : World σ) :
    (p.run (it.serve ev) w).2 = w := by
  have hserve : ∀ e ∈ p.course (it.serve ev) w, (it.serve ev e.request e.world).2 = e.world := by
    intro e he
    rw [hp.of_mem_course he]
    rfl
  have hrun := run_view id (fun w _ => w) p w hserve
  rw [id, id, List.foldl_fixed] at hrun
  exact hrun

theorem calls_step (it : Interpreter σ) (ev : Evaluator σ) (a : Action) (frame : Frame Handle)
    (w : World σ) : (it.step ev a frame w).2.calls =
      ((it.plan a frame).run (it.serve ev) w).2.calls := by
  obtain hstep | ⟨e, w₁, hrun, _, _, _, records, -, hstep⟩ := it.step_eq_run_or ev a frame w
  · rw [hstep]
  · rw [hstep, hrun]

theorem calls_serve_on {r : Request} (hr : a.form.requestOn? h = some r) (ev : Evaluator σ)
    (w : World σ) :
    ∃ made, (it.serve ev r w).2.calls = w.calls ++ made ∧
      (∀ c ∈ made, ∃ call, c = .element h call) ∧
      (made = [] → (w.token.reason? w.now).isSome ∧
        ∃ state, a.form.kind? = some (.awaitElement state)) := by
  obtain ⟨task, rfl, htask, hon⟩ | ⟨state, rfl, hkind⟩ := Form.requestOn?_cases hr
  · obtain ⟨made, hmade, hcalls, hmadeOn⟩ := it.surface.calls_carryOut_on htask (hon _) w
    exact ⟨made, hcalls, hmadeOn, fun hnil => absurd hnil hmade⟩
  · obtain ⟨o, call, ho, hcall⟩ := Surface.exists_waitOperation? it.surface.timeouts h state
    have hcalls := it.surface.calls_race_work ho w
    cases hreason : w.token.reason? w.now with
    | some reason =>
        rw [hreason] at hcalls
        exact ⟨[], hcalls, List.forall_mem_nil _, fun _ => ⟨rfl, state, hkind⟩⟩
    | none =>
        rw [hreason] at hcalls
        refine ⟨[o.call], hcalls, ?_, fun hnil => absurd hnil (List.cons_ne_nil _ _)⟩
        exact List.forall_mem_singleton.2 ⟨call, hcall⟩

theorem asksOnly_of_plan {r : Request} {next : r.Answer → Plan Value}
    (hadmits : it.Admits u.entered) (hplan : it.plan u.action u.entered = .request r next)
    (hnext : ∀ answer, (next answer).Abides (· = .timeout) (fun _ => True) (fun _ => True)) :
    it.AsksOnly u r ∧ (it.evaluate u.action u.frame u.world).2.calls =
      (it.serve it.evaluate r u.world).2.calls := by
  change it.Admits (u.frame.enter u.action.name) at hadmits
  change it.plan u.action (u.frame.enter u.action.name) = _ at hplan
  rw [AsksOnly, requests_of_admits hadmits, evaluate_of_admits hadmits, calls_step, hplan]
  cases hserve : it.serve it.evaluate r u.world with
  | mk result w₁ =>
      cases result with
      | error s =>
          rw [course_request_of_error hserve, run_request_of_error hserve]
          exact ⟨⟨[], rfl, List.forall_mem_nil _⟩, rfl⟩
      | ok answer =>
          rw [course_request_of_ok hserve, run_request_of_ok hserve,
            run_of_abides_timeout (hnext answer)]
          exact ⟨⟨_, rfl, fun e he => (hnext answer).of_mem_course he⟩, rfl⟩

theorem target_of_bound {program : Program} (htarget : a.form.target? = none)
    (hframe : frame.element = some h) : target program a frame = pure h := by
  rw [target, htarget, hframe]

theorem hasTarget_of_target? (htarget : a.form.target? = none) :
    hasTarget a frame = frame.element.isSome := by
  rw [hasTarget, htarget]
  rfl

theorem plan_of_bound (hdispatch : it.dispatch? a = a.form.kind?)
    (helement : a.form.element? = some none) (hframe : frame.element = some h) :
    ∃ r next, a.form.requestOn? h = some r ∧ it.plan a frame = .request r next ∧
      ∀ answer, (next answer).Abides (· = .timeout) (fun _ => True) (fun _ => True) := by
  have htarget : a.form.target? = none := by rw [Form.target?, helement]; rfl
  have hhas : hasTarget a frame = true := by rw [hasTarget_of_target? htarget, hframe]; rfl
  cases hform : a.form with
  | inspect | attributeOf | gesture | input | press | eval =>
      rw [hform] at hdispatch
      rw [plan_of_dispatch? hdispatch]
      simp only [Handler.plan, target_of_bound htarget hframe, hhas, hform]
      exact ⟨_, _, rfl, rfl, fun _ => trivial⟩
  | awaitElement state element =>
      rw [hform] at hdispatch
      rw [plan_of_dispatch? hdispatch]
      simp only [Handler.plan, target_of_bound htarget hframe]
      refine ⟨_, _, rfl, rfl, fun answer => ?_⟩
      rcases answer with reason | _
      · cases reason with
        | cancelled => trivial
        | timeout => exact ⟨rfl, fun _ => trivial⟩
      · trivial
  | _ =>
      rw [hform] at helement
      cases helement

theorem plan_of_unbound (hdispatch : it.dispatch? a = a.form.kind?) {task : Surface.Task}
    (htask : a.form.looseTask? = some task) (hframe : frame.element = none) :
    ∃ next, it.plan a frame = .request (.carryOut task) next ∧
      ∀ answer, (next answer).Abides (· = .timeout) (fun _ => True) (fun _ => True) := by
  have htarget : a.form.target? = none := by
    rw [Form.target?, Form.element?_of_looseTask? htask]
    rfl
  have hhas : hasTarget a frame = false := by rw [hasTarget_of_target? htarget, hframe]; rfl
  cases hform : a.form with
  | input element | press element | eval element =>
      rw [hform] at hdispatch htask
      cases element with
      | some expression => cases htask
      | none =>
          cases htask
          rw [plan_of_dispatch? hdispatch]
          simp only [Handler.plan, hhas, hform]
          exact ⟨_, rfl, fun _ => trivial⟩
  | _ =>
      rw [hform] at htask
      cases htask

theorem plan_of_missing (hdispatch : it.dispatch? a = a.form.kind?)
    (helement : a.form.element? = some none) (htask : a.form.looseTask? = none)
    (hframe : frame.element = none) :
    it.plan a frame = failAt a frame .malformedAction "an 'element' key (type string) is required"
      [] := by
  have htarget : target it.program a frame = failAt a frame .malformedAction
      "an 'element' key (type string) is required" [] := by
    rw [target, Form.target?, helement, hframe]
    rfl
  cases hform : a.form with
  | inspect | attributeOf | gesture | awaitElement =>
      rw [hform] at hdispatch
      rw [plan_of_dispatch? hdispatch]
      simp only [Handler.plan, htarget]
      rfl
  | input element | press element | eval element =>
      rw [hform] at helement htask
      cases helement
      cases htask
  | _ =>
      rw [hform] at helement
      cases helement

theorem actsOn_of_bound (hdispatch : it.dispatch? u.action = u.action.form.kind?)
    (helement : u.action.form.element? = some none) (hframe : u.frame.element = some h)
    (hadmits : it.Admits u.entered) : it.ActsOn u h := by
  have hentered : u.entered.element = some h := hframe
  obtain ⟨r, next, hr, hplan, hnext⟩ := plan_of_bound hdispatch helement hentered
  obtain ⟨hasks, hcalls⟩ := asksOnly_of_plan hadmits hplan hnext
  refine ⟨⟨r, hr, hasks⟩, ?_⟩
  rw [hcalls]
  exact calls_serve_on hr it.evaluate u.world

theorem actsLoosely_of_unbound (hdispatch : it.dispatch? u.action = u.action.form.kind?)
    {task : Surface.Task} (htask : u.action.form.looseTask? = some task)
    (hframe : u.frame.element = none) (hadmits : it.Admits u.entered) : it.ActsLoosely u task := by
  have hentered : u.entered.element = none := hframe
  obtain ⟨next, hplan, hnext⟩ := plan_of_unbound hdispatch htask hentered
  obtain ⟨hasks, hcalls⟩ := asksOnly_of_plan hadmits hplan hnext
  exact ⟨hasks, hcalls.trans (Form.calls_of_looseTask? htask it.surface u.world)⟩

theorem lacksElement_of_unbound (hdispatch : it.dispatch? u.action = u.action.form.kind?)
    (helement : u.action.form.element? = some none) (htask : u.action.form.looseTask? = none)
    (hframe : u.frame.element = none) (hadmits : it.Admits u.entered) : it.LacksElement u := by
  have hentered : u.entered.element = none := hframe
  have hplan := plan_of_missing hdispatch helement htask hentered
  exact stopsAtOnce_of_plan hadmits hplan nofun

/-! ### The turns of a loop -/

/-- How a loop goes through its elements from some position on: it evaluates its action for one after
the other, in the world that the turn before has left, and stops as soon as a turn does. -/
inductive Turns (it : Interpreter σ) (execute : Action) (frame : Frame Handle) :
    Nat → List Handle → World σ → List (Visit σ) → Except Stop Value × World σ → Prop where
  | done {index : Nat} {w : World σ} : Turns it execute frame index [] w [] (.ok .null, w)
  | stopped {index : Nat} {h : Handle} {rest : List Handle} {w w' : World σ} {s : Stop}
    (hturn : it.evaluate execute ((frame.item index).bind (some h)) w = (.error s, w')) :
    Turns it execute frame index (h :: rest) w [.turn execute frame index h w] (.error s, w')
  | next {index : Nat} {h : Handle} {rest : List Handle} {w w₁ : World σ} {v : Value}
    {visits : List (Visit σ)} {result : Except Stop Value × World σ}
    (hturn : it.evaluate execute ((frame.item index).bind (some h)) w = (.ok v, w₁))
    (hrest : Turns it execute frame (index + 1) rest w₁ visits result) :
    Turns it execute frame index (h :: rest) w (.turn execute frame index h w :: visits) result

theorem turns_cons (execute : Action) (frame : Frame Handle) (index : Nat) (h : Handle)
    (rest : List Handle) :
    turns execute frame index (h :: rest) =
      .request (.evaluate execute ((frame.item index).bind (some h))) fun _ =>
        turns execute frame (index + 1) rest := rfl

section Turns

variable {execute : Action} {index : Nat} {handles : List Handle} {w w' : World σ}
  {visits : List (Visit σ)}

theorem exists_turns (it : Interpreter σ) (execute : Action) (frame : Frame Handle) (index : Nat)
    (handles : List Handle) (w : World σ) :
    ∃ visits, it.Turns execute frame index handles w visits
        ((turns execute frame index handles).run (it.serve it.evaluate) w) ∧
      (turns execute frame index handles).course (it.serve it.evaluate) w =
        visits.map Visit.asked := by
  induction handles generalizing index w with
  | nil => exact ⟨[], .done, rfl⟩
  | cons h rest ih =>
      rw [turns_cons]
      cases hturn : it.evaluate execute ((frame.item index).bind (some h)) w with
      | mk result w₁ =>
          cases result with
          | error s =>
              rw [run_request_of_error hturn, course_request_of_error hturn]
              exact ⟨_, .stopped hturn, rfl⟩
          | ok v =>
              obtain ⟨visits, hvisits, hcourse⟩ := ih (index + 1) w₁
              rw [run_request_of_ok hturn, course_request_of_ok hturn, hcourse]
              exact ⟨_, .next hturn hvisits, rfl⟩

theorem Turns.exists_eq_turn {result : Except Stop Value × World σ}
    (hturns : it.Turns execute frame index handles w visits result) {i : Nat} {t : Visit σ}
    (ht : visits[i]? = some t) :
    ∃ h w₁, handles[i]? = some h ∧ t = .turn execute frame (index + i) h w₁ := by
  induction hturns generalizing i with
  | done => cases ht
  | stopped hturn =>
      cases i with
      | zero =>
          cases ht
          exact ⟨_, _, rfl, rfl⟩
      | succ i => cases ht
  | next hturn hrest ih =>
      cases i with
      | zero =>
          cases ht
          exact ⟨_, _, rfl, rfl⟩
      | succ i =>
          obtain ⟨h, w₁, hh, rfl⟩ := ih ht
          refine ⟨h, w₁, hh, ?_⟩
          rw [Nat.add_right_comm, Nat.add_assoc]

/-- A failure of the surface has become one of the action before a turn is over. -/
theorem Turns.ne_surface {result : Except Stop Value}
    (hturns : it.Turns execute frame index handles w visits (result, w')) (e : SurfaceError) :
    result ≠ .error (.fault (.surface e)) := by
  generalize hpair : (result, w') = pair at hturns
  induction hturns with
  | done =>
      cases hpair
      exact nofun
  | stopped hturn =>
      cases hpair
      intro hsurface
      cases hsurface
      exact evaluate_ne_surface _ _ _ e _ _ hturn
  | next hturn hrest ih => exact ih hpair

end Turns

/-! ### Where a binding holds -/

/-- The second visit is reached from the first through actions of any kind but loops.  A loop may
stand at the end. -/
def Inherits (it : Interpreter σ) : Visit σ → Visit σ → Prop :=
  Relation.ReflTransGen fun v u => it.Nests v u ∧ v.action.form.kind? ≠ some .forEach

theorem Nests.element_eq (hnests : it.Nests v u) (hkind : v.action.form.kind? ≠ some .forEach) :
    u.frame.element = v.frame.element :=
  (leads_of_mem_requests hnests rfl).element_eq hkind

theorem Inherits.element_eq (hu : it.Inherits v u) : u.frame.element = v.frame.element := by
  induction hu with
  | refl => rfl
  | tail _ hlast ih => exact (hlast.1.element_eq hlast.2).trans ih

theorem Nests.exists_element (hnests : it.Nests v u) (hkind : v.action.form.kind? = some .forEach) :
    ∃ h, u.frame.element = some h :=
  (leads_of_mem_requests hnests rfl).exists_element hkind

/-- Between a visit and one that is nested in it there is no loop, or there is an innermost one. -/
theorem inherits_or_exists_loop (hu : Relation.ReflTransGen it.Nests v u) :
    it.Inherits v u ∨ ∃ loop turn, Relation.ReflTransGen it.Nests v loop ∧
      loop.action.form.kind? = some .forEach ∧ it.Nests loop turn ∧ it.Inherits turn u := by
  induction hu with
  | refl => exact .inl .refl
  | @tail u u' hu hnests ih =>
      by_cases hkind : u.action.form.kind? = some .forEach
      · exact .inr ⟨u, u', hu, hkind, hnests, .refl⟩
      · obtain hinherits | ⟨loop, turn, hloop, hforEach, hturn, hinherits⟩ := ih
        · exact .inl (hinherits.tail ⟨hnests, hkind⟩)
        · exact .inr ⟨loop, turn, hloop, hforEach, hturn, hinherits.tail ⟨hnests, hkind⟩⟩

/-- Nothing is bound at a visit exactly if nothing was bound at the first one and no loop lies
between. -/
theorem element_eq_none_iff (hu : Relation.ReflTransGen it.Nests v u) :
    u.frame.element = none ↔ it.Inherits v u ∧ v.frame.element = none := by
  constructor
  · intro hnone
    obtain hinherits | ⟨loop, turn, -, hforEach, hturn, hinherits⟩ := inherits_or_exists_loop hu
    · exact ⟨hinherits, hinherits.element_eq.symm.trans hnone⟩
    · obtain ⟨h, hh⟩ := hturn.exists_element hforEach
      rw [hinherits.element_eq, hh] at hnone
      cases hnone
  · rintro ⟨hinherits, hnone⟩
    exact hinherits.element_eq.trans hnone

/-! ### Loops -/

section Loops

variable {elements selector : String} {execute : Action}

theorem plan_forEach (hdispatch : it.dispatch? a = a.form.kind?)
    (hform : a.form = .forEach elements execute) (frame : Frame Handle) :
    it.plan a frame = (do
      let selector ← Handler.selector it.program a frame elements
      .request (.carryOut (.queryAll selector)) fun handles => turns execute frame 0 handles) := by
  rw [hform] at hdispatch
  rw [plan_of_dispatch? hdispatch]
  simp only [Handler.plan, hform, Form.elements?, Form.execute?, need]
  rfl

/-- How a loop goes whose selector is known.  It makes one query.  If that fails the loop fails, and
else it takes its turns; what is evaluated in a turn, short of another loop, has the element of the
turn bound, and acts on it if it names none. -/
structure Loops (it : Interpreter σ) (v : Visit σ) (selector : String) (execute : Action) : Prop where
  query : (it.surface.queryAll selector v.world).2.calls = v.world.calls ++ [.queryAll selector]
  failed : ∀ f w₁, it.surface.queryAll selector v.world = (.error f, w₁) →
    it.requests v.action v.frame v.world = [⟨.carryOut (.queryAll selector), v.world⟩] ∧
      ∃ s records, it.evaluate v.action v.frame v.world = (.error s, { w₁ with records })
  found : ∀ handles w₁, it.surface.queryAll selector v.world = (.ok handles, w₁) →
    ∃ visits,
      it.requests v.action v.frame v.world =
        ⟨.carryOut (.queryAll selector), v.world⟩ :: visits.map Visit.asked ∧
      it.Turns execute v.entered 0 handles w₁ visits (it.evaluate v.action v.frame v.world) ∧
      ∀ (i : Nat) t, visits[i]? = some t → ∃ h, handles[i]? = some h ∧
        ∀ u, it.Inherits t u → u.frame.element = some h ∧
          (u.action.form.element? = some none → it.Admits u.entered → it.ActsOn u h)

theorem plan_forEach_of_known (hdispatch : it.dispatch? a = a.form.kind?)
    (hform : a.form = .forEach elements execute)
    (hselector : it.program.selector? elements = some selector) (frame : Frame Handle) :
    it.plan a frame = .request (.carryOut (.queryAll selector)) fun handles =>
      turns execute frame 0 handles := by
  rw [plan_forEach hdispatch hform, Handler.selector, hselector]
  rfl

theorem fails_of_failed_query {f : Fault} {w₁ : World σ} {next : List Handle → Plan Value}
    (hadmits : it.Admits v.entered)
    (hplan : it.plan v.action v.entered = .request (.carryOut (.queryAll selector)) next)
    (hquery : it.surface.queryAll selector v.world = (.error f, w₁)) :
    it.requests v.action v.frame v.world = [⟨.carryOut (.queryAll selector), v.world⟩] ∧
      ∃ s records, it.evaluate v.action v.frame v.world = (.error s, { w₁ with records }) := by
  have hserve : it.serve it.evaluate (.carryOut (.queryAll selector)) v.world =
      (.error (.fault f), w₁) :=
    Evaluation.ofInteraction_of_error hquery
  change it.Admits (v.frame.enter v.action.name) at hadmits
  change it.plan v.action (v.frame.enter v.action.name) = _ at hplan
  rw [requests_of_admits hadmits, evaluate_of_admits hadmits]
  constructor
  · rw [hplan, course_request_of_error hserve]
  · obtain hstep | ⟨e, w₂, hrun, _, _, _, records, -, hstep⟩ :=
      it.step_eq_run_or it.evaluate v.action (v.frame.enter v.action.name) v.world
    · rw [hstep, hplan, run_request_of_error hserve]
      exact ⟨.fault f, w₁.records, rfl⟩
    · rw [hplan, run_request_of_error hserve] at hrun
      cases hrun
      exact ⟨_, records, hstep⟩

theorem turns_of_found {handles : List Handle} {w₁ : World σ} (hadmits : it.Admits v.entered)
    (hplan : it.plan v.action v.entered = .request (.carryOut (.queryAll selector)) fun handles =>
      turns execute v.entered 0 handles)
    (hquery : it.surface.queryAll selector v.world = (.ok handles, w₁)) :
    ∃ visits,
      it.requests v.action v.frame v.world =
        ⟨.carryOut (.queryAll selector), v.world⟩ :: visits.map Visit.asked ∧
      it.Turns execute v.entered 0 handles w₁ visits (it.evaluate v.action v.frame v.world) := by
  have hserve : it.serve it.evaluate (.carryOut (.queryAll selector)) v.world = (.ok handles, w₁) :=
    Evaluation.ofInteraction_of_ok hquery
  change it.Admits (v.frame.enter v.action.name) at hadmits
  change it.plan v.action (v.frame.enter v.action.name) = _ at hplan
  obtain ⟨visits, hturns, hcourse⟩ := it.exists_turns execute v.entered 0 handles w₁
  have hrun : (it.plan v.action (v.frame.enter v.action.name)).run (it.serve it.evaluate) v.world =
      (turns execute v.entered 0 handles).run (it.serve it.evaluate) w₁ := by
    rw [hplan, run_request_of_ok hserve]
  rw [← hrun] at hturns
  rw [requests_of_admits hadmits, evaluate_of_admits hadmits]
  refine ⟨visits, ?_, ?_⟩
  · rw [hplan, course_request_of_ok hserve, hcourse]
  · obtain hstep | ⟨e, w₂, hsurface, -⟩ :=
      it.step_eq_run_or it.evaluate v.action (v.frame.enter v.action.name) v.world
    · rw [hstep]
      exact hturns
    · rw [hsurface] at hturns
      exact absurd rfl (hturns.ne_surface e)

theorem loops_of_known (hdispatch : ∀ a, it.dispatch? a = a.form.kind?)
    (hform : v.action.form = .forEach elements execute)
    (hselector : it.program.selector? elements = some selector) (hadmits : it.Admits v.entered) :
    it.Loops v selector execute := by
  have hplan := plan_forEach_of_known (hdispatch v.action) hform hselector v.entered
  refine ⟨it.surface.calls_perform ⟨_, _, _⟩ v.world, ?_, ?_⟩
  · intro f w₁ hquery
    exact fails_of_failed_query hadmits hplan hquery
  · intro handles w₁ hquery
    obtain ⟨visits, hrequests, hturns⟩ := turns_of_found hadmits hplan hquery
    refine ⟨visits, hrequests, hturns, fun i t ht => ?_⟩
    obtain ⟨h, w₂, hh, rfl⟩ := hturns.exists_eq_turn ht
    refine ⟨h, hh, fun u hu => ?_⟩
    have hbound : u.frame.element = some h := hu.element_eq
    exact ⟨hbound, fun helement hadmits => actsOn_of_bound (hdispatch _) helement hbound hadmits⟩

/-- The action of a visit fails because the program does not know its selector. -/
def LacksSelector (it : Interpreter σ) (v : Visit σ) (expression : String) : Prop :=
  it.StopsAtOnce v (.failure v.entered v.action.payload .unknownSelector
    ("could not find a custom selector named " ++ Text.quote expression) [.text expression])

theorem lacksSelector_of_unknown (hdispatch : it.dispatch? v.action = v.action.form.kind?)
    (hform : v.action.form = .forEach elements execute)
    (hselector : it.program.selector? elements = none) (hadmits : it.Admits v.entered) :
    it.LacksSelector v elements := by
  refine stopsAtOnce_of_plan hadmits ?_ nofun
  rw [plan_forEach hdispatch hform, Handler.selector, hselector]
  rfl

end Loops

/-- What a loop binds and where the binding holds, if every action goes to the handler of its own kind.

A loop whose selector is known makes one query and takes its turns, one for each element; one whose
selector is unknown fails at once.  Whatever an action asks for besides a loop, before it and after it
alike, has the binding that the loop itself was met with, and only the innermost loop around an action
counts.  So an action that names no element has none exactly if nothing was bound at first and no loop
lies between: then it acts on the keyboard or the page, or fails if it cannot.  Else it acts on the
element that is bound. -/
theorem loop_binding (hdispatch : ∀ a, it.dispatch? a = a.form.kind?) :
    (∀ v elements execute, v.action.form = .forEach elements execute → it.Admits v.entered →
      (∀ selector, it.program.selector? elements = some selector → it.Loops v selector execute) ∧
      (it.program.selector? elements = none → it.LacksSelector v elements)) ∧
    (∀ v loop next u, v.action.form.kind? ≠ some .forEach → it.Nests v loop → it.Nests v next →
      it.Inherits next u → u.frame.element = loop.frame.element) ∧
    (∀ v u, Relation.ReflTransGen it.Nests v u →
      it.Inherits v u ∧ u.frame.element = v.frame.element ∨
        ∃ loop turn h, Relation.ReflTransGen it.Nests v loop ∧
          loop.action.form.kind? = some .forEach ∧ it.Nests loop turn ∧
            turn.frame.element = some h ∧ it.Inherits turn u ∧ u.frame.element = some h) ∧
    (∀ v u, Relation.ReflTransGen it.Nests v u → u.action.form.element? = some none →
      it.Admits u.entered →
        (it.Inherits v u ∧ v.frame.element = none →
          (∀ task, u.action.form.looseTask? = some task → it.ActsLoosely u task) ∧
          (u.action.form.looseTask? = none → it.LacksElement u)) ∧
        (¬ (it.Inherits v u ∧ v.frame.element = none) →
          ∃ h, u.frame.element = some h ∧ it.ActsOn u h)) := by
  refine ⟨?_, ?_, ?_, ?_⟩
  · intro v elements execute hform hadmits
    constructor
    · intro selector hselector
      exact loops_of_known hdispatch hform hselector hadmits
    · intro hselector
      exact lacksSelector_of_unknown (hdispatch _) hform hselector hadmits
  · intro v loop next u hkind hloop hnext hu
    calc u.frame.element = next.frame.element := hu.element_eq
      _ = v.frame.element := hnext.element_eq hkind
      _ = loop.frame.element := (hloop.element_eq hkind).symm
  · intro v u hu
    obtain hinherits | ⟨loop, turn, hloop, hkind, hturn, hinherits⟩ := inherits_or_exists_loop hu
    · exact .inl ⟨hinherits, hinherits.element_eq⟩
    · obtain ⟨h, hh⟩ := hturn.exists_element hkind
      exact .inr ⟨loop, turn, h, hloop, hkind, hturn, hh, hinherits,
        hinherits.element_eq.trans hh⟩
  · intro v u hu helement hadmits
    rw [← element_eq_none_iff hu]
    constructor
    · intro hnone
      constructor
      · intro task htask
        exact actsLoosely_of_unbound (hdispatch _) htask hnone hadmits
      · intro htask
        exact lacksElement_of_unbound (hdispatch _) helement htask hnone hadmits
    · intro hsome
      obtain ⟨h, hh⟩ := Option.ne_none_iff_exists'.1 hsome
      exact ⟨h, hh, actsOn_of_bound (hdispatch _) helement hh hadmits⟩

/-! ### A list of two -/

def pressEnter : Action := .node none (.press none "enter")

/-- An interpreter that knows all kinds, of a program with an action that presses a key. -/
def pressing : Interpreter Script where
  program := ⟨[], [("go", pressEnter)], []⟩
  surface := { page := Script.page }
  registry := .builtin .initial Registry.defaultMaxDepth

/-- A loop over a selector, on a page with a list of two elements. -/
def overList (elements : String) : Visit Script where
  action := .node none (.forEach elements (.callOf "go"))
  frame := { source := "root[0]" }
  world := { page := ⟨[("li", some [⟨.null, .null, [], .null, []⟩, ⟨.null, .null, [], .null, []⟩])],
    [], [], [], []⟩ }

def secondTurn (w : World Script) : Visit Script :=
  .turn (.callOf "go") (overList "li").entered 1 ⟨"li", 1⟩ w

def calledInSecond (w : World Script) : Visit Script :=
  ⟨pressEnter, (secondTurn w).entered.calling "go", w⟩

theorem nests_calledInSecond (w : World Script) :
    pressing.Nests (secondTurn w) (calledInSecond w) := by
  have hfirst : pressing.Admits (secondTurn (overList "li").world).entered := by decide
  have hadmits : pressing.Admits ((secondTurn w).frame.enter (secondTurn w).action.name) := hfirst
  rw [Nests, requests_of_admits hadmits]
  exact mem_course_evaluate _ _ _

/-- The second turn presses the key on the second element, although a call lies between. -/
theorem loop_binding_pressing :
    (∀ a, pressing.dispatch? a = a.form.kind?) ∧
    pressing.Loops (overList "li") "li" (.callOf "go") ∧
    ∃ w, Relation.ReflTransGen pressing.Nests (overList "li") (calledInSecond w) ∧
      pressing.ActsOn (calledInSecond w) ⟨"li", 1⟩ := by
  have hdispatch : ∀ a, pressing.dispatch? a = a.form.kind? := dispatch?_eq_kind? rfl
  obtain ⟨hloops, -, -, -⟩ := loop_binding hdispatch
  have hloop := (hloops (overList "li") "li" _ rfl (by decide)).1 "li" rfl
  refine ⟨hdispatch, hloop, ?_⟩
  obtain ⟨visits, hrequests, hturns, hbound⟩ := hloop.found [⟨"li", 0⟩, ⟨"li", 1⟩] _ rfl
  -- the first turn succeeds, so that there is a second one
  obtain ⟨turn, hturn⟩ : ∃ turn, visits[1]? = some turn := by
    generalize pressing.evaluate _ _ _ = result at hturns
    cases hturns with
    | stopped hfirst =>
        rw [evaluate_call_of_some (b := pressEnter) rfl (by decide) rfl,
          evaluate_of_admits (by decide), step_of_not_call (a := pressEnter) nofun,
          plan_of_dispatch? (hdispatch pressEnter)] at hfirst
        cases hfirst
    | next hfirst hrest =>
        cases hrest with
        | stopped hsecond => exact ⟨_, rfl⟩
        | next hsecond hrest => exact ⟨_, rfl⟩
  obtain ⟨h, w, hh, rfl⟩ := hturns.exists_eq_turn hturn
  obtain ⟨h', hh', hscope⟩ := hbound 1 _ hturn
  cases hh
  cases hh'
  have hnests : pressing.Nests (overList "li") (secondTurn w) := by
    rw [Nests, hrequests]
    exact List.mem_cons_of_mem _ (List.mem_map_of_mem (List.mem_of_getElem? hturn))
  have hadmits : pressing.Admits (calledInSecond (overList "li").world).entered := by decide
  refine ⟨w, .tail (.single hnests) (nests_calledInSecond w), ?_⟩
  exact (hscope _ (.single ⟨nests_calledInSecond w, nofun⟩)).2 rfl hadmits

/-- A loop over a name that the program does not know is entered and makes no query. -/
theorem loop_without_query :
    (overList "$nope").action.form.kind? = some .forEach ∧
      pressing.Admits (overList "$nope").entered ∧
      ∀ selector, .queryAll selector ∉ (pressing.evaluate (overList "$nope").action
        (overList "$nope").frame (overList "$nope").world).2.calls := by
  have hdispatch := dispatch?_eq_kind? (rfl : pressing.registry = _) (overList "$nope").action
  have hadmits : pressing.Admits (overList "$nope").entered := by decide
  obtain ⟨-, hevaluate⟩ := lacksSelector_of_unknown hdispatch rfl rfl hadmits
  refine ⟨rfl, hadmits, fun selector => ?_⟩
  rw [hevaluate]
  exact List.not_mem_nil

end Interpreter

end Pagescript
