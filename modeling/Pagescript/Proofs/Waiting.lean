import Pagescript.Proofs.Propagation
import Pagescript.Proofs.Nesting
/-!
# Waits that are stopped

Of all handlers only those that pause or wait ask for a wait.  If the token stops the wait the action
has failed, and so has the evaluation that it is part of.
-/

namespace Pagescript

open Plan

/-- The kinds of actions that wait. -/
def Kind.waits : Kind → Bool
  | .sleep | .awaitPage _ | .awaitElement _ => true
  | _ => false

/-- Whether a request is for a wait, or about one that was stopped. -/
def Request.waits : Request → Bool
  | .wait _ | .timeout => true
  | _ => false

/-- The code of the failure when a wait is stopped. -/
def Interruption.code : Interruption → ErrorCode
  | .cancelled => .cancelled
  | .timeout => .timeout

/-- The error of an action whose wait was stopped; a deadline is reported with the time limit. -/
def Interruption.error (a : Action) (frame : Frame Handle) (limit : Option Binary64)
    (reason : Interruption) : ActionError where
  code := reason.code
  message := match reason with
    | .cancelled => "run was cancelled before the wait completed"
    | .timeout => "run deadline exceeded before the wait completed"
  source := frame.source
  action := .mapping a.payload
  payload := match reason with
    | .cancelled => []
    | .timeout => [(limit.map .float).getD .null]

namespace Handler

variable {α β : Type}

/-- A plan for an action, by the handler of some kind, that waits only if the kind does, and fails as
soon as a wait is stopped. -/
inductive Heeds (k : Option Kind) (a : Action) (frame : Frame Handle) : Plan α → Prop where
  | done (v : α) : Heeds k a frame (.done v)
  | stop (s : Stop) : Heeds k a frame (.stop s)
  | wait {awaited : Surface.Awaited} {next : Except Interruption Unit → Plan α}
    (hk : k.any Kind.waits = true) (hok : Heeds k a frame (next (.ok ())))
    (hcancelled : next (.error .cancelled) =
      .stop (.failed (Interruption.error a frame none .cancelled)))
    (htimeout : next (.error .timeout) = .request .timeout fun limit =>
      .stop (.failed (Interruption.error a frame limit .timeout))) :
    Heeds k a frame (.request (.wait awaited) next)
  | other {r : Request} {next : r.Answer → Plan α} (hr : r.waits = false)
    (hnext : ∀ v, Heeds k a frame (next v)) : Heeds k a frame (.request r next)

section Parts

variable {k : Option Kind} {a : Action} {frame : Frame Handle} {program : Program}

theorem Heeds.bind {p : Plan α} {f : α → Plan β} (hp : Heeds k a frame p)
    (hf : ∀ v, Heeds k a frame (f v)) : Heeds k a frame (p >>= f) := by
  induction hp with
  | done v => exact hf v
  | stop s => exact .stop s
  | wait hk _ hcancelled htimeout ih =>
      refine .wait hk ih ?_ ?_
      · rw [hcancelled]
        rfl
      · rw [htimeout]
        rfl
  | other hr _ ih => exact .other hr ih

theorem heeds_ask {r : Request} (hr : r.waits = false) : Heeds k a frame (ask r) :=
  .other hr .done

theorem heeds_evaluate (b : Action) (g : Frame Handle) : Heeds k a frame (evaluate b g) :=
  heeds_ask rfl

theorem heeds_carryOut (task : Surface.Task) : Heeds k a frame (carryOut task) :=
  heeds_ask rfl

theorem heeds_log (level : Level) (message : String) : Heeds k a frame (log level message) :=
  heeds_ask rfl

theorem heeds_need (field : String) (o : Option α) : Heeds k a frame (need a field o) := by
  cases o with
  | none => exact .stop _
  | some v => exact .done v

theorem heeds_selector (expression : String) :
    Heeds k a frame (selector program a frame expression) := by
  unfold selector
  split
  · exact .done _
  · exact .stop _

theorem heeds_target : Heeds k a frame (target program a frame) := by
  unfold target
  split
  · exact (heeds_selector _).bind fun selector => heeds_carryOut (.queryOne selector)
  · exact .done _
  · exact .stop _

theorem heeds_expectFlag (b : Action) (label : String) :
    Heeds k a frame (expectFlag a frame b label) := by
  refine (heeds_evaluate b frame).bind fun v => ?_
  split
  · exact .done _
  · exact .stop _

theorem heeds_expectText (b : Action) (label : String) :
    Heeds k a frame (expectText a frame b label) := by
  refine (heeds_evaluate b frame).bind fun v => ?_
  split
  · exact .done _
  · exact .stop _

theorem heeds_wait (hk : k.any Kind.waits = true) (awaited : Surface.Awaited) :
    Heeds k a frame (wait a frame awaited) :=
  .wait hk (.done _) rfl rfl

theorem heeds_evaluateAll (bs : List Action) (v : Value) :
    Heeds k a frame (evaluateAll frame v bs) := by
  induction bs generalizing v with
  | nil => exact .done v
  | cons b rest ih => exact (heeds_evaluate b frame).bind ih

theorem heeds_turns (b : Action) (index : Nat) (handles : List Handle) :
    Heeds k a frame (turns b frame index handles) := by
  induction handles generalizing index with
  | nil => exact .done _
  | cons handle rest ih => exact (heeds_evaluate b _).bind fun _ => ih (index + 1)

theorem heeds_itemValue (g : Frame Handle) (item : Item Action) :
    Heeds k a frame (itemValue program g item) := by
  unfold itemValue
  split
  · exact heeds_evaluate _ g
  · split
    · split
      · exact heeds_evaluate _ g
      · exact .stop _
    · exact .done _
    · exact .done _
  · exact .done _

theorem heeds_itemValues (items : List (String × Item Action)) :
    Heeds k a frame (itemValues program frame items) := by
  induction items with
  | nil => exact .done _
  | cons entry rest ih =>
      refine (heeds_itemValue _ entry.2).bind fun v => ?_
      exact ih.bind fun batch => .done _

theorem heeds_statementOf : Heeds k a frame (statementOf a) := by
  refine (heeds_need _ _).bind fun operand => ?_
  split
  · exact .done _
  · exact .stop _

theorem heeds_comparison (c : Comparison) : Heeds k a frame (comparison c a frame) := by
  have hexpected : Heeds k a frame (expectedOf a c) := by
    cases c with
    | equal | notEqual | contains => exact heeds_need _ _
  refine hexpected.bind fun expected => heeds_statementOf.bind fun statement => ?_
  refine (heeds_expectText statement _).bind fun actual => (heeds_need _ _).bind fun ignoreCase => ?_
  split
  · exact .done _
  · exact .done _

end Parts

theorem heeds_plan (program : Program) (k : Kind) (a : Action) (frame : Frame Handle) :
    Heeds (some k) a frame (plan program k a frame) := by
  cases k with
  | sequence => exact (heeds_need _ _).bind fun bs => heeds_evaluateAll bs _
  | branch =>
      refine (heeds_need _ _).bind fun condition => (heeds_expectFlag condition _).bind fun holds => ?_
      split
      · exact heeds_statementOf.bind fun statement => heeds_evaluate statement frame
      · refine (heeds_need _ _).bind fun otherwise => ?_
        split
        · exact heeds_evaluate _ frame
        · exact .done _
  | negate =>
      refine (heeds_need _ _).bind fun operand => ?_
      split
      · exact .done _
      · exact (heeds_expectFlag _ _).bind fun b => .done _
  | forEach =>
      refine (heeds_need _ _).bind fun elements => (heeds_selector elements).bind fun selector => ?_
      refine (heeds_carryOut (.queryAll selector)).bind fun handles => ?_
      exact (heeds_need _ _).bind fun execute => heeds_turns execute 0 handles
  | has =>
      refine (heeds_need _ _).bind fun element => ?_
      split
      · refine (heeds_selector _).bind fun selector => ?_
        exact (heeds_carryOut (.queryAll selector)).bind fun handles => .done _
      · exact .stop _
  | inspect inspection =>
      exact heeds_target.bind fun handle => heeds_carryOut (.inspect handle inspection)
  | attributeOf =>
      refine heeds_target.bind fun handle => (heeds_need _ _).bind fun name => ?_
      exact heeds_carryOut (.readAttribute handle name)
  | compare c => exact heeds_comparison c
  | gesture g =>
      refine heeds_target.bind fun handle => ?_
      exact (heeds_carryOut (.gesture handle g)).bind fun _ => .done _
  | input =>
      simp only [plan]
      split
      · refine heeds_target.bind fun handle => (heeds_need _ _).bind fun text => ?_
        exact (heeds_carryOut (.input handle text)).bind fun _ => .done _
      · refine (heeds_need _ _).bind fun text => ?_
        exact (heeds_carryOut (.insertText text)).bind fun _ => .done _
  | press =>
      refine (heeds_need _ _).bind fun key => ?_
      split
      · refine heeds_target.bind fun handle => ?_
        exact (heeds_carryOut (.press handle _)).bind fun _ => .done _
      · exact (heeds_carryOut (.pressKey _)).bind fun _ => .done _
  | navigate =>
      refine (heeds_need _ _).bind fun link => ?_
      exact (heeds_carryOut (.navigate link)).bind fun _ => .done _
  | eval =>
      simp only [plan]
      split
      · refine heeds_target.bind fun handle => (heeds_need _ _).bind fun expression => ?_
        exact heeds_carryOut (.evaluateOn handle expression)
      · refine (heeds_need _ _).bind fun expression => ?_
        exact heeds_carryOut (.evaluate expression)
  | sleep => exact (heeds_need _ _).bind fun duration => heeds_wait rfl (.pause duration)
  | awaitPage state => exact heeds_wait rfl (.page state)
  | awaitElement state =>
      exact heeds_target.bind fun handle => heeds_wait rfl (.element handle state)
  | store =>
      refine (heeds_need _ _).bind fun items => (heeds_itemValues items).bind fun batch => ?_
      exact (heeds_ask (r := .commit batch) rfl).bind fun _ => .done _
  | logStore =>
      refine (heeds_need _ _).bind fun name => ?_
      refine (heeds_ask (r := .lookUp name) rfl).bind fun stored => ?_
      cases stored with
      | none => exact .stop _
      | some v => exact (heeds_log _ _).bind fun _ => .done _
  | log => exact (heeds_need _ _).bind fun message => (heeds_log _ message).bind fun _ => .done _
  | error => exact (heeds_need _ _).bind fun message => (heeds_log _ message).bind fun _ => .stop _

theorem mem_course_wait {σ : Type} {serve : (r : Request) → Evaluation σ r.Answer} (a : Action)
    (frame : Frame Handle) (awaited : Surface.Awaited) (w : World σ) :
    ⟨.wait awaited, w⟩ ∈ (wait a frame awaited).course serve w := by
  change _ ∈ (Plan.request (.wait awaited) _).course serve w
  rw [course]
  exact List.mem_cons_self

/-- A plan whose wait is stopped fails there. -/
theorem Heeds.run_of_stopped {σ : Type} {k : Option Kind} {a : Action} {frame : Frame Handle}
    {p : Plan α} (hp : Heeds k a frame p) {serve : (r : Request) → Evaluation σ r.Answer}
    (hlimit : ∀ w, serve .timeout w = (.ok w.token.timeout, w)) {o : Occurrence σ}
    {awaited : Surface.Awaited} {reason : Interruption} {w w' : World σ}
    (ho : o ∈ p.course serve w) (hwait : o.request = .wait awaited)
    (hserve : serve (.wait awaited) o.world = (.ok (.error reason), w')) :
    k.any Kind.waits = true ∧ p.run serve w =
      (.error (.failed (Interruption.error a frame w'.token.timeout reason)), w') := by
  induction hp generalizing w with
  | done v => cases ho
  | stop s => cases ho
  | @wait asked next hk _ hcancelled htimeout ih =>
      cases hfirst : serve (.wait asked) w with
      | mk result w₁ =>
          cases result with
          | error s =>
              rw [course_request_of_error hfirst, List.mem_singleton] at ho
              subst ho
              cases hwait
              cases hfirst.symm.trans hserve
          | ok ending =>
              rw [run_request_of_ok hfirst]
              rw [course_request_of_ok hfirst, List.mem_cons] at ho
              obtain rfl | ho := ho
              · cases hwait
                cases hfirst.symm.trans hserve
                refine ⟨hk, ?_⟩
                cases reason with
                | cancelled =>
                    rw [hcancelled]
                    rfl
                | timeout => rw [htimeout, run_request_of_ok (hlimit _), run_stop]
              · -- after a wait that was stopped the plan waits no more
                cases ending with
                | ok => exact ih ho
                | error earlier =>
                    cases earlier with
                    | cancelled =>
                        rw [hcancelled] at ho
                        cases ho
                    | timeout =>
                        rw [htimeout, course_request_of_ok (hlimit w₁)] at ho
                        obtain rfl := List.mem_singleton.1 ho
                        cases hwait
  | @other r next hr _ ih =>
      cases hfirst : serve r w with
      | mk result w₁ =>
          cases result with
          | error s =>
              rw [course_request_of_error hfirst, List.mem_singleton] at ho
              subst ho
              cases hwait
              cases hr
          | ok v =>
              rw [course_request_of_ok hfirst, List.mem_cons] at ho
              obtain rfl | ho := ho
              · cases hwait
                cases hr
              · rw [run_request_of_ok hfirst]
                exact ih v ho

end Handler

theorem Interaction.race_of_reason {σ α : Type} {w : World σ} {reason : Interruption}
    (hreason : w.token.reason? w.now = some reason) (work : Work σ α) :
    race work w = (.ok (.error reason), w) := by
  rw [race_apply, hreason]

namespace Interpreter

open Handler

variable {σ : Type} {it : Interpreter σ} {a : Action} {frame : Frame Handle} {w w' : World σ}

theorem heeds_plan (it : Interpreter σ) (a : Action) (frame : Frame Handle) :
    Heeds (it.dispatch? a) a frame (it.plan a frame) := by
  unfold plan dispatch?
  cases a.form with
  | call name =>
      simp only [Handler.call]
      split
      · exact heeds_evaluate _ _
      · exact .stop _
  | _ =>
      simp only
      split
      next k hk =>
        rw [hk]
        exact Handler.heeds_plan it.program k a frame
      · exact .stop _

/-- An action whose wait is stopped is one of those that wait, and fails where it stands. -/
theorem evaluate_of_stopped {o : Occurrence σ} {awaited : Surface.Awaited} {reason : Interruption}
    (ho : o ∈ it.requests a frame w) (hwait : o.request = .wait awaited)
    (hrace : Interaction.race (it.surface.work awaited) o.world = (.ok (.error reason), w')) :
    (it.dispatch? a).any Kind.waits = true ∧ it.evaluate a frame w =
      (.error (.failed (reason.error a (frame.enter a.name) w'.token.timeout)), w') := by
  have hadmits := (asks_of_mem_requests ho).1
  rw [requests_of_admits hadmits] at ho
  have hserve : it.serve it.evaluate (.wait awaited) o.world = (.ok (.error reason), w') := by
    simp only [serve, Evaluation.ofInteraction, hrace]
    rfl
  obtain ⟨hk, hrun⟩ := (it.heeds_plan a _).run_of_stopped (fun _ => rfl) ho hwait hserve
  rw [evaluate_of_admits hadmits]
  refine ⟨hk, step_of_error (fun e he => ?_) hrun⟩
  cases he

theorem evaluate_failed_of_nested {v u : Visit σ} {e : ActionError}
    (hu : Relation.ReflTransGen it.Nests v u)
    (hfails : it.evaluate u.action u.frame u.world = (.error (.failed e), w')) :
    it.evaluate v.action v.frame v.world = (.error (.failed e), w') := by
  induction hu using Relation.ReflTransGen.head_induction_on with
  | refl => exact hfails
  | head hnests _ ih =>
      obtain ⟨earlier, later, hrequests⟩ := List.append_of_mem hnests
      exact (evaluate_of_request_failed hrequests ih).1

/-- The wait that an action asks for, at some visit in the course of another one, is not begun: the
action is one that waits, it fails for the reason given, and so does the visit it is part of. -/
structure Stopped (it : Interpreter σ) (v u : Visit σ) (o : Occurrence σ) (reason : Interruption) :
    Prop where
  waits : (it.dispatch? u.action).any Kind.waits = true
  fails : it.evaluate u.action u.frame u.world =
    (.error (.failed (reason.error u.action u.entered o.world.token.timeout)), o.world)
  fails_outer : it.evaluate v.action v.frame v.world =
    (.error (.failed (reason.error u.action u.entered o.world.token.timeout)), o.world)

theorem stopped_of_reason {v u : Visit σ} {o : Occurrence σ} {awaited : Surface.Awaited}
    {reason : Interruption} (hu : Relation.ReflTransGen it.Nests v u)
    (ho : o ∈ it.requests u.action u.frame u.world) (hwait : o.request = .wait awaited)
    (hreason : o.world.token.reason? o.world.now = some reason) : it.Stopped v u o reason := by
  have hrace := Interaction.race_of_reason hreason (it.surface.work awaited)
  obtain ⟨hwaits, hfails⟩ := evaluate_of_stopped ho hwait hrace
  exact ⟨hwaits, hfails, evaluate_failed_of_nested hu hfails⟩

end Interpreter

end Pagescript
