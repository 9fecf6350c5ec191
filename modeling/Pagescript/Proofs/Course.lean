import Pagescript.Interpreter
import Pagescript.Proofs.Interaction
/-!
# Courses of plans

Carrying a plan out makes a sequence of requests, each in the world that the answers so far have
left behind.  This is the course of the plan.  What is shown of a run is shown along its course: a
request that is not answered is the last one, and the final world is the first one after the effects
of all requests.
-/

namespace Pagescript

variable {σ α β : Type}

namespace Plan

/-- A request as it is made, in some world. -/
structure Occurrence (σ : Type) where
  request : Request
  world : World σ

/-- The requests that are made while a plan is carried out from some world on, in order. -/
def course (serve : (r : Request) → Evaluation σ r.Answer) : Plan α → World σ → List (Occurrence σ)
  | .done _, _ => []
  | .stop _, _ => []
  | .request r next, w =>
    ⟨r, w⟩ :: match serve r w with
      | (.ok v, w') => (next v).course serve w'
      | (.error _, _) => []

/-! ### One request after the other -/

section Run

variable {serve : (r : Request) → Evaluation σ r.Answer} {r : Request} {next : r.Answer → Plan α}
  {w w' : World σ}

@[simp]
theorem run_done (v : α) (w : World σ) : (Plan.done v).run serve w = (.ok v, w) := rfl

@[simp]
theorem run_stop (s : Stop) (w : World σ) :
    (Plan.stop s : Plan α).run serve w = (.error s, w) := rfl

theorem run_request_of_ok {v : r.Answer} (hserve : serve r w = (.ok v, w')) :
    (Plan.request r next).run serve w = (next v).run serve w' :=
  Fallible.bind_of_ok hserve

theorem run_request_of_error {s : Stop} (hserve : serve r w = (.error s, w')) :
    (Plan.request r next).run serve w = (.error s, w') :=
  Fallible.bind_of_error hserve

@[simp]
theorem course_done (v : α) (w : World σ) : (Plan.done v).course serve w = [] := rfl

@[simp]
theorem course_stop (s : Stop) (w : World σ) : (Plan.stop s : Plan α).course serve w = [] := rfl

theorem course_request_of_ok {v : r.Answer} (hserve : serve r w = (.ok v, w')) :
    (Plan.request r next).course serve w = ⟨r, w⟩ :: (next v).course serve w' := by
  rw [course, hserve]

theorem course_request_of_error {s : Stop} (hserve : serve r w = (.error s, w')) :
    (Plan.request r next).course serve w = [⟨r, w⟩] := by
  rw [course, hserve]

/-- A request that is not answered is the last one, and the plan stops for the same reason in the
world that the request has left behind. -/
theorem run_of_unanswered {p : Plan α} {before after : List (Occurrence σ)} {e : Occurrence σ}
    {s : Stop}
    (hcourse : p.course serve w = before ++ e :: after)
    (hserve : serve e.request e.world = (.error s, w')) :
    p.run serve w = (.error s, w') ∧ after = [] := by
  induction p generalizing before w with
  | done v => simp at hcourse
  | stop s => simp at hcourse
  | request r next ih =>
      obtain ⟨rest, hfirst⟩ : ∃ rest, (Plan.request r next).course serve w = ⟨r, w⟩ :: rest := by
        rw [course]
        exact ⟨_, rfl⟩
      cases before with
      | nil =>
          -- this very request is not answered
          obtain ⟨rfl, rfl⟩ := List.cons.inj (hfirst.symm.trans hcourse)
          rw [course_request_of_error hserve] at hfirst
          exact ⟨run_request_of_error hserve, (List.cons.inj hfirst).2.symm⟩
      | cons first before =>
          cases hr : serve r w with
          | mk result w₁ =>
              cases result with
              | error t =>
                  rw [course_request_of_error hr] at hcourse
                  simp at hcourse
              | ok v =>
                  rw [course_request_of_ok hr] at hcourse
                  rw [run_request_of_ok hr]
                  exact ih v (List.cons.inj hcourse).2

/-- What can be read off a world at the end of a run is what could be read off it at the beginning,
changed by one request after the other. -/
theorem run_view {γ : Type} (view : World σ → γ) (effect : γ → Occurrence σ → γ) (p : Plan α)
    (w : World σ)
    (hserve : ∀ e ∈ p.course serve w,
      view (serve e.request e.world).2 = effect (view e.world) e) :
    view (p.run serve w).2 = (p.course serve w).foldl effect (view w) := by
  induction p generalizing w with
  | done v => rfl
  | stop s => rfl
  | request r next ih =>
      cases hr : serve r w with
      | mk result w₁ =>
          cases result with
          | error s =>
              rw [course_request_of_error hr] at hserve ⊢
              have hfirst := hserve ⟨r, w⟩ List.mem_cons_self
              rw [hr] at hfirst
              rw [run_request_of_error hr]
              exact hfirst
          | ok v =>
              rw [course_request_of_ok hr] at hserve ⊢
              have hfirst := hserve ⟨r, w⟩ List.mem_cons_self
              rw [hr] at hfirst
              rw [run_request_of_ok hr, List.foldl_cons, ← hfirst]
              exact ih v w₁ fun e he => hserve e (List.mem_cons_of_mem _ he)

theorem course_bind (p : Plan α) (f : α → Plan β) (w : World σ) :
    (p >>= f).course serve w = p.course serve w ++
      match p.run serve w with
      | (.ok v, w') => (f v).course serve w'
      | (.error _, _) => [] := by
  induction p generalizing w with
  | done v => rfl
  | stop s => rfl
  | request r next ih =>
      change (Plan.request r fun v => next v >>= f).course serve w = _
      cases hr : serve r w with
      | mk result w₁ =>
          cases result with
          | error s =>
              rw [course_request_of_error hr, course_request_of_error hr, run_request_of_error hr]
              rfl
          | ok v =>
              rw [course_request_of_ok hr, course_request_of_ok hr, run_request_of_ok hr, ih]
              rfl

theorem run_bind (p : Plan α) (f : α → Plan β) (w : World σ) :
    (p >>= f).run serve w =
      match p.run serve w with
      | (.ok v, w') => (f v).run serve w'
      | (.error s, w') => (.error s, w') := by
  induction p generalizing w with
  | done v => rfl
  | stop s => rfl
  | request r next ih =>
      change (Plan.request r fun v => next v >>= f).run serve w = _
      cases hr : serve r w with
      | mk result w₁ =>
          cases result with
          | error s => rw [run_request_of_error hr, run_request_of_error hr]
          | ok v => rw [run_request_of_ok hr, run_request_of_ok hr, ih]

theorem exists_of_run_bind_ok {p : Plan α} {f : α → Plan β} {y : β}
    (hrun : (p >>= f).run serve w = (.ok y, w')) :
    ∃ x w₁, p.run serve w = (.ok x, w₁) ∧ (f x).run serve w₁ = (.ok y, w') ∧
      (p >>= f).course serve w = p.course serve w ++ (f x).course serve w₁ := by
  rw [run_bind] at hrun
  rw [course_bind]
  cases hp : p.run serve w with
  | mk result w₁ =>
      rw [hp] at hrun
      cases result with
      | ok x => exact ⟨x, w₁, rfl, hrun, rfl⟩
      | error s => cases hrun

theorem run_evaluate (b : Action) (g : Frame Handle) (w : World σ) :
    (Plan.evaluate b g).run serve w = serve (.evaluate b g) w := by
  rw [Plan.evaluate, ask]
  cases hserve : serve (.evaluate b g) w with
  | mk result w' =>
      cases result with
      | ok v => rw [run_request_of_ok hserve, run_done]
      | error s => rw [run_request_of_error hserve]

theorem mem_course_evaluate (b : Action) (g : Frame Handle) (w : World σ) :
    ⟨.evaluate b g, w⟩ ∈ (Plan.evaluate b g).course serve w := by
  rw [Plan.evaluate, ask, course]
  exact List.mem_cons_self

end Run

/-! ### What a plan keeps to

A plan is looked at apart from how its requests are served: which requests it can come to make, for
which reasons it can stop of its own, and which values it can end with. -/

/-- Whatever the answers are, the plan makes only certain requests, stops only for certain reasons,
and gives only certain values. -/
def Abides (asks : Request → Prop) (stops : Stop → Prop) (gives : α → Prop) : Plan α → Prop
  | .done v => gives v
  | .stop s => stops s
  | .request r next => asks r ∧ ∀ v, (next v).Abides asks stops gives

section Abides

variable {asks : Request → Prop} {stops : Stop → Prop} {gives : α → Prop} {p : Plan α}
  {serve serve' : (r : Request) → Evaluation σ r.Answer} {w w' : World σ}

theorem abides_pure {v : α} (hv : gives v) : (pure v : Plan α).Abides asks stops gives := hv

theorem abides_stop {s : Stop} (hs : stops s) : (stop s : Plan α).Abides asks stops gives := hs

theorem abides_ask {r : Request} (hr : asks r) :
    (ask r).Abides asks stops fun _ => True :=
  ⟨hr, fun _ => trivial⟩

theorem Abides.bind {gives' : β → Prop} {f : α → Plan β} (hp : p.Abides asks stops gives)
    (hf : ∀ v, gives v → (f v).Abides asks stops gives') :
    (p >>= f).Abides asks stops gives' := by
  induction p with
  | done v => exact hf v hp
  | stop s => exact hp
  | request r next ih => exact ⟨hp.1, fun v => ih v (hp.2 v)⟩

theorem Abides.mono {asks' : Request → Prop} {stops' : Stop → Prop} {gives' : α → Prop}
    (hp : p.Abides asks stops gives) (hasks : ∀ r, asks r → asks' r)
    (hstops : ∀ s, stops s → stops' s) (hgives : ∀ v, gives v → gives' v) :
    p.Abides asks' stops' gives' := by
  induction p with
  | done v => exact hgives v hp
  | stop s => exact hstops s hp
  | request r next ih => exact ⟨hasks r hp.1, fun v => ih v (hp.2 v)⟩

theorem Abides.of_mem_course (hp : p.Abides asks stops gives) {e : Occurrence σ}
    (he : e ∈ p.course serve w) : asks e.request := by
  induction p generalizing w with
  | done v => simp at he
  | stop s => simp at he
  | request r next ih =>
      cases hr : serve r w with
      | mk result w₁ =>
          cases result with
          | error s =>
              rw [course_request_of_error hr, List.mem_singleton] at he
              exact he ▸ hp.1
          | ok v =>
              rw [course_request_of_ok hr, List.mem_cons] at he
              obtain rfl | he := he
              · exact hp.1
              · exact ih v (hp.2 v) he

theorem Abides.stops_or_unanswered (hp : p.Abides asks stops gives) {s : Stop}
    (hrun : p.run serve w = (.error s, w')) :
    stops s ∨ ∃ e ∈ p.course serve w, serve e.request e.world = (.error s, w') := by
  induction p generalizing w with
  | done v => cases hrun
  | stop t =>
      obtain ⟨hst, -⟩ := Prod.mk.inj hrun
      exact .inl (Except.error.inj hst ▸ hp)
  | request r next ih =>
      cases hr : serve r w with
      | mk result w₁ =>
          cases result with
          | error t =>
              rw [run_request_of_error hr] at hrun
              obtain ⟨hst, rfl⟩ := Prod.mk.inj hrun
              obtain rfl := Except.error.inj hst
              refine .inr ⟨⟨r, w⟩, ?_, hr⟩
              rw [course_request_of_error hr]
              exact List.mem_singleton_self _
          | ok v =>
              rw [run_request_of_ok hr] at hrun
              rw [course_request_of_ok hr]
              obtain hs | ⟨e, he, hserve⟩ := ih v (hp.2 v) hrun
              · exact .inl hs
              · exact .inr ⟨e, List.mem_cons_of_mem _ he, hserve⟩

/-- Only the answers to the requests that a plan can make matter to its run. -/
theorem Abides.run_congr (hp : p.Abides asks stops gives)
    (hserve : ∀ r, asks r → serve r = serve' r) : p.run serve = p.run serve' := by
  induction p with
  | done v => rfl
  | stop s => rfl
  | request r next ih =>
      rw [run, run, hserve r hp.1]
      have hnext : (fun v => (next v).run serve) = fun v => (next v).run serve' := by
        funext v
        exact ih v (hp.2 v)
      rw [hnext]

end Abides

end Plan

end Pagescript
