import Mathlib.Data.List.Forall2
import Pagescript.Proofs.Likeness
import Pagescript.Proofs.Registry
/-!
# Evaluation at another place

What an action does depends neither on the path at which it is evaluated nor on how deep it lies, nor
on the limits, as long as it does not come upon them.  Main statement: two evaluations of an action,
the second at a place where there is no less room, make the same requests in the same worlds and
come to the same value, or to errors that differ in their paths only.
-/

namespace Pagescript

open Plan Handler

variable {σ : Type}

/-! ### Results that mirror each other -/

/-- What is logged of a failure of the surface. -/
def surfaceRecord (e : ActionError) : String :=
  "Surface failure at " ++ e.source ++ ": " ++ e.message

/-- The worlds that two failures leave behind: the same one, but for what is logged of them. -/
inductive World.AfterFailures (e e' : ActionError) : World σ → World σ → Prop where
  | same (w : World σ) : AfterFailures e e' w w
  | recorded (w : World σ) :
    AfterFailures e e' (w.log LogRecord.interpreterLogger Level.debug (surfaceRecord e))
      (w.log LogRecord.interpreterLogger Level.debug (surfaceRecord e'))

/-- Two evaluations give the same value, stop with the same fault, or fail with like errors. -/
inductive Mirrors (errors : ActionError → ActionError → Prop) :
    Except Stop Value × World σ → Except Stop Value × World σ → Prop where
  | value (v : Value) (w : World σ) : Mirrors errors (.ok v, w) (.ok v, w)
  | fault (f : Fault) (w : World σ) :
    Mirrors errors (.error (.fault f), w) (.error (.fault f), w)
  | failed {e e' : ActionError} {w w' : World σ} (he : errors e e')
    (hw : World.AfterFailures e e' w w') :
    Mirrors errors (.error (.failed e), w) (.error (.failed e'), w')

/-- The evaluation has come upon the limits. -/
def EndsAtLimit (result : Except Stop Value × World σ) : Prop :=
  ∃ e w, result = (.error (.failed e), w) ∧ e.code = .recursionLimit

theorem Mirrors.exists_failed {errors : ActionError → ActionError → Prop}
    {r r' : Except Stop Value × World σ} {e : ActionError} {w : World σ} (h : Mirrors errors r r')
    (hr : r = (.error (.failed e), w)) :
    ∃ e' w', r' = (.error (.failed e'), w') ∧ errors e e' := by
  subst hr
  cases h with
  | failed he hw => exact ⟨_, _, rfl, he⟩

/-- All that the second world can have of its own is a record of the interpreter. -/
theorem Mirrors.exists_records {errors : ActionError → ActionError → Prop}
    {r r' : Except Stop Value × World σ} (h : Mirrors errors r r') :
    ∃ records, r'.2 = { r.2 with records } ∧ ∀ logger, logger ≠ LogRecord.interpreterLogger →
      records.filter (·.logger = logger) = r.2.records.filter (·.logger = logger) := by
  cases h with
  | value v w => exact ⟨w.records, rfl, fun _ _ => rfl⟩
  | fault f w => exact ⟨w.records, rfl, fun _ _ => rfl⟩
  | failed he hw =>
      cases hw with
      | same => exact ⟨_, rfl, fun _ _ => rfl⟩
      | recorded w =>
          refine ⟨_, rfl, fun logger hlogger => ?_⟩
          simp [World.log, List.filter_append, hlogger.symm]

namespace Interpreter

/-- An interpreter that differs from another one in its limits only, and gives no less room. -/
structure Widens (it it' : Interpreter σ) : Prop where
  program : it'.program = it.program
  surface : it'.surface = it.surface
  logger : it'.logger = it.logger
  get? : ∀ name, it'.registry.get? name = it.registry.get? name
  maxDepth : it.maxDepth ≤ it'.maxDepth
  maxSourceLength : it.maxSourceLength ≤ it'.maxSourceLength

/-- The requests of both sides: each is made on both, in the same world. -/
inductive RequestsAlike (ev : Evaluator σ)
    (evaluations : Action → Frame Handle → Action → Frame Handle → Prop) :
    Occurrence σ → Occurrence σ → Prop where
  | same (o : Occurrence σ) (ho : ∀ b g, o.request ≠ .evaluate b g) :
    RequestsAlike ev evaluations o o
  | evaluate {b b' : Action} {g g' : Frame Handle} {w : World σ} (hb : evaluations b g b' g')
    (hlimit : ¬ EndsAtLimit (ev b g w)) :
    RequestsAlike ev evaluations ⟨.evaluate b g, w⟩ ⟨.evaluate b' g', w⟩

section Step

variable {it it' : Interpreter σ} (hwidens : it.Widens it') {ev ev' : Evaluator σ}
  {evaluations : Action → Frame Handle → Action → Frame Handle → Prop}
  {errors : ActionError → ActionError → Prop}
  (hev : ∀ b g b' g', evaluations b g b' g' → ∀ w,
    EndsAtLimit (ev b g w) ∨ Mirrors errors (ev b g w) (ev' b' g' w))

include hwidens

theorem Widens.serve_eq {r : Request} (hr : ∀ b g, r ≠ .evaluate b g) :
    it'.serve ev' r = it.serve ev r := by
  cases r with
  | evaluate b g => exact absurd rfl (hr b g)
  | _ => simp only [serve, hwidens.surface, hwidens.logger]

include hev

/-- Plans that are alike come to the same by the same requests, unless the first one comes upon the
limits. -/
theorem mirrors_run {p p' : Plan Value} (hp : Alike evaluations errors Eq p p') (w : World σ) :
    EndsAtLimit (p.run (it.serve ev) w) ∨
      Mirrors errors (p.run (it.serve ev) w) (p'.run (it'.serve ev') w) ∧
        List.Forall₂ (RequestsAlike ev evaluations) (p.course (it.serve ev) w)
          (p'.course (it'.serve ev') w) := by
  induction hp generalizing w with
  | done hv =>
      subst hv
      exact .inr ⟨.value _ w, .nil⟩
  | failed he => exact .inr ⟨.failed he (.same w), .nil⟩
  | fault f => exact .inr ⟨.fault f w, .nil⟩
  | @evaluate b b' g g' next next' hb _ ih =>
      -- what ends an evaluation on the way ends the plan
      by_cases hinner : EndsAtLimit (ev b g w)
      · obtain ⟨e, w₁, hleft, hcode⟩ := hinner
        exact .inl ⟨e, w₁, run_request_of_error hleft, hcode⟩
      have hfirst := RequestsAlike.evaluate hb hinner
      have hmirrors := (hev b g b' g' hb w).resolve_left hinner
      generalize hleft : ev b g w = x, hright : ev' b' g' w = x' at hmirrors
      cases hmirrors with
      | value v w₁ =>
          rw [run_request_of_ok hleft, run_request_of_ok hright, course_request_of_ok hleft,
            course_request_of_ok hright]
          exact (ih v w₁).imp_right fun hrest => ⟨hrest.1, .cons hfirst hrest.2⟩
      | fault f w₁ =>
          rw [run_request_of_error hleft, run_request_of_error hright,
            course_request_of_error hleft, course_request_of_error hright]
          exact .inr ⟨.fault f w₁, .cons hfirst .nil⟩
      | failed he hw =>
          rw [run_request_of_error hleft, run_request_of_error hright,
            course_request_of_error hleft, course_request_of_error hright]
          exact .inr ⟨.failed he hw, .cons hfirst .nil⟩
  | @same r next next' hr _ ih =>
      have hserve : it'.serve ev' r w = it.serve ev r w := congrFun (hwidens.serve_eq hr) w
      have hfirst : RequestsAlike ev evaluations ⟨r, w⟩ ⟨r, w⟩ := .same _ hr
      cases hleft : it.serve ev r w with
      | mk result w₁ =>
          rw [hleft] at hserve
          cases result with
          | ok v =>
              rw [run_request_of_ok hleft, run_request_of_ok hserve, course_request_of_ok hleft,
                course_request_of_ok hserve]
              exact (ih v w₁).imp_right fun hrest => ⟨hrest.1, .cons hfirst hrest.2⟩
          | error s =>
              rw [run_request_of_error hleft, run_request_of_error hserve,
                course_request_of_error hleft, course_request_of_error hserve]
              cases s with
              | failed e => exact absurd hleft (serve_ne_failed hr e)
              | fault f => exact .inr ⟨.fault f w₁, .cons hfirst .nil⟩

omit hwidens hev in
theorem mirrors_rescue {ι : Type} {left right : ι → Action} {form : Form ι} {a a' : Action}
    {frame frame' : Frame Handle}
    (h : Counterparts left right form evaluations errors a a' frame frame')
    {x x' : Evaluation σ Value} {w : World σ}
    (hx : EndsAtLimit (x w) ∨ Mirrors errors (x w) (x' w)) :
    EndsAtLimit (tryCatch x (rescue a frame) w) ∨
      Mirrors errors (tryCatch x (rescue a frame) w) (tryCatch x' (rescue a' frame') w) := by
  obtain ⟨e, w₁, hleft, hcode⟩ | hmirrors := hx
  · exact .inl ⟨e, w₁, Fallible.tryCatch_of_error hleft, hcode⟩
  refine .inr ?_
  generalize hleft : x w = r, hright : x' w = r' at hmirrors
  cases hmirrors with
  | value v w₁ =>
      rw [Fallible.tryCatch_of_ok hleft, Fallible.tryCatch_of_ok hright]
      exact .value v w₁
  | failed he hw =>
      rw [Fallible.tryCatch_of_error hleft, Fallible.tryCatch_of_error hright]
      exact .failed he hw
  | fault f w₁ =>
      rw [Fallible.tryCatch_of_error hleft, Fallible.tryCatch_of_error hright]
      -- only here do the worlds come apart: what is logged of the failure shows its path
      cases f with
      | surface e =>
          cases e with
          | failed message operation details => exact .failed (h.failure _ _ _) (.recorded w₁)
          | notFound selector => exact .failed (h.failure _ _ _) (.same w₁)
      | _ => exact .fault _ w₁

theorem mirrors_step {ι : Type} {left right : ι → Action} {form : Form ι} {a a' : Action}
    {frame frame' : Frame Handle}
    (h : Counterparts left right form evaluations errors a a' frame frame') (w : World σ) :
    EndsAtLimit (it.step ev a frame w) ∨
      Mirrors errors (it.step ev a frame w) (it'.step ev' a' frame' w) := by
  have hrun := (mirrors_run hwidens hev (alike_plan h hwidens.program hwidens.get?) w).imp_right
    And.left
  obtain ⟨name, hleft, hright⟩ | ⟨hleft, hright⟩ := h.call_or
  · simp only [step, hleft, hright]
    exact hrun
  · rw [step_of_not_call hleft, step_of_not_call hright]
    exact mirrors_rescue h hrun

end Step

end Interpreter

/-! ### Another place -/

/-- A frame that was reached from one path, and the one that is reached from another path in the same
way; it lies no deeper and binds the same element. -/
structure Frame.Relocated (source source' : String) (frame frame' : Frame Handle) : Prop where
  path : ∃ path, frame.source = source ++ path ∧ frame'.source = source' ++ path
  element : frame'.element = frame.element
  depth_le : frame'.depth ≤ frame.depth

/-- The same error with another path in front. -/
def ActionError.Relocated (source source' : String) (e e' : ActionError) : Prop :=
  ∃ path, e.source = source ++ path ∧ e' = { e with source := source' ++ path }

namespace Frame.Relocated

variable {source source' : String} {frame frame' g g' : Frame Handle}

theorem extend (h : Relocated source source' frame frame') (suffix : String)
    (hsource : g.source = frame.source ++ suffix) (hsource' : g'.source = frame'.source ++ suffix)
    (helement : g'.element = g.element) (hdepth : g'.depth ≤ g.depth) :
    Relocated source source' g g' := by
  obtain ⟨path, hpath, hpath'⟩ := h.path
  refine ⟨⟨path ++ suffix, ?_, ?_⟩, helement, hdepth⟩
  · rw [hsource, hpath, String.append_assoc]
  · rw [hsource', hpath', String.append_assoc]

theorem enter (h : Relocated source source' frame frame') (kind : String) :
    Relocated source source' (frame.enter kind) (frame'.enter kind) := by
  refine h.extend ("." ++ kind) (String.append_assoc ..) (String.append_assoc ..) h.element ?_
  have hdepth := h.depth_le
  rw [Frame.depth_enter, Frame.depth_enter]
  omega

theorem turn (h : Relocated source source' frame frame') (index : Nat) (handle : Handle) :
    Relocated source source' ((frame.item index).bind (some handle))
      ((frame'.item index).bind (some handle)) := by
  refine h.extend ("[" ++ toString (index : Int) ++ "]") ?_ ?_ rfl h.depth_le <;>
    simp only [item, bind, String.append_assoc]

theorem field (h : Relocated source source' frame frame') (name : String) :
    Relocated source source' (frame.field name) (frame'.field name) := by
  refine h.extend (".field[" ++ name ++ "]") ?_ ?_ h.element h.depth_le <;>
    simp only [Frame.field, String.append_assoc]

theorem calling (h : Relocated source source' frame frame') (name : String) :
    Relocated source source' (frame.calling name) (frame'.calling name) :=
  ⟨h.path, h.element, h.depth_le⟩

theorem length_le (h : Relocated source source' frame frame')
    (hlength : source'.length ≤ source.length) : frame'.source.length ≤ frame.source.length := by
  obtain ⟨path, hpath, hpath'⟩ := h.path
  rw [hpath, hpath', String.length_append, String.length_append]
  omega

/-- An action at a frame and the same action at the other frame are counterparts. -/
theorem counterparts (h : Relocated source source' frame frame') (a : Action) :
    Counterparts id id a.form
      (fun b g b' g' => b' = b ∧ g.depth = frame.depth ∧ Relocated source source' g g')
      (ActionError.Relocated source source') a a frame frame' where
  form_left := a.form.map_id.symm
  form_right := a.form.map_id.symm
  element := h.element
  failure code message payload := by
    obtain ⟨path, hpath, hpath'⟩ := h.path
    exact ⟨path, hpath, by rw [hpath']⟩
  part i := ⟨rfl, rfl, h⟩
  turn i index handle := ⟨rfl, rfl, h.turn index handle⟩
  item i name := ⟨rfl, rfl, h.field name⟩
  reference name target := ⟨rfl, rfl, h.field name⟩
  call b name := ⟨rfl, rfl, h.calling name⟩

end Frame.Relocated

namespace Interpreter

variable {it it' : Interpreter σ} {a : Action} {frame frame' : Frame Handle} {w : World σ}
  {source source' : String}

theorem Widens.admits (hwidens : it.Widens it') (hlength : source'.length ≤ source.length)
    (h : Frame.Relocated source source' frame frame') (hadmits : it.Admits frame) :
    it'.Admits frame' := by
  have hlength' := h.length_le hlength
  have hdepth := h.depth_le
  obtain ⟨hsource, hdepth'⟩ := hadmits
  have hmaxLength := hwidens.maxSourceLength
  have hmaxDepth := hwidens.maxDepth
  constructor <;> omega

theorem endsAtLimit_of_not_admits (hadmits : ¬ it.Admits (frame.enter a.name)) (w : World σ) :
    EndsAtLimit (it.evaluate a frame w) := by
  obtain ⟨message, hevaluate⟩ := evaluate_of_not_admits hadmits
  rw [hevaluate]
  exact ⟨_, w, rfl, rfl⟩

theorem mirrors_evaluate (hwidens : it.Widens it') (hlength : source'.length ≤ source.length)
    (h : Frame.Relocated source source' frame frame') (w : World σ) :
    EndsAtLimit (it.evaluate a frame w) ∨
      Mirrors (ActionError.Relocated source source') (it.evaluate a frame w)
        (it'.evaluate a frame' w) := by
  induction a, frame using it.evaluation_induction generalizing frame' w with
  | hstep a frame ih =>
      by_cases hadmits : it.Admits (frame.enter a.name)
      · have hentered := h.enter a.name
        have hadmits' := hwidens.admits hlength hentered hadmits
        rw [evaluate_of_admits hadmits, evaluate_of_admits hadmits']
        refine mirrors_step hwidens ?_ (hentered.counterparts a) w
        rintro _ g b g' ⟨rfl, hdepth, hg⟩ w
        exact ih hadmits b g hdepth hg w
      · exact .inl (endsAtLimit_of_not_admits hadmits w)

/-! ### Effects -/

/-- Whether a request is for something else than the evaluation of another action. -/
def isEffect (o : Occurrence σ) : Bool :=
  match o.request with
  | .evaluate .. => false
  | _ => true

/-- All that is done with the surface, the store, the token and the log while an action is evaluated,
in order, and in which world each is done. -/
def effects (it : Interpreter σ) (a : Action) (frame : Frame Handle) (w : World σ) :
    List (Occurrence σ) :=
  (it.course a frame w).filter isEffect

theorem effects_eq (it : Interpreter σ) (a : Action) (frame : Frame Handle) (w : World σ) :
    it.effects a frame w =
      (it.requests a frame w).flatMap fun o => (o :: it.innerCourse o).filter isEffect := by
  rw [effects, course_eq, List.filter_flatMap]

theorem flatMap_eq_of_forall₂ {α α' β : Type} {R : α → α' → Prop} {xs : List α} {ys : List α'}
    {f : α → List β} {f' : α' → List β} (hxs : List.Forall₂ R xs ys)
    (hf : ∀ x y, R x y → f' y = f x) : ys.flatMap f' = xs.flatMap f := by
  induction hxs with
  | nil => rfl
  | cons hxy _ ih => rw [List.flatMap_cons, List.flatMap_cons, hf _ _ hxy, ih]

section Counterparts

variable {ι : Type} {left right : ι → Action} {form : Form ι} {a' : Action}
  {evaluations : Action → Frame Handle → Action → Frame Handle → Prop}
  {errors : ActionError → ActionError → Prop}

/-- Counterparts have the same effects if the actions that they lead to have. -/
theorem effects_eq_of_counterparts (hwidens : it.Widens it')
    (h : Counterparts left right form evaluations errors a a' (frame.enter a.name)
      (frame'.enter a'.name))
    (hadmits : it.Admits (frame.enter a.name)) (hadmits' : it'.Admits (frame'.enter a'.name))
    (hev : ∀ b g b' g', evaluations b g b' g' → ∀ w,
      EndsAtLimit (it.evaluate b g w) ∨ Mirrors errors (it.evaluate b g w) (it'.evaluate b' g' w))
    (heffects : ∀ b g b' g', evaluations b g b' g' → ∀ w, ¬ EndsAtLimit (it.evaluate b g w) →
      it'.effects b' g' w = it.effects b g w)
    (hlimit : ¬ EndsAtLimit (it.evaluate a frame w)) :
    it'.effects a' frame' w = it.effects a frame w := by
  have hplan := alike_plan h hwidens.program hwidens.get?
  have hrun : ¬ EndsAtLimit ((it.plan a (frame.enter a.name)).run (it.serve it.evaluate) w) := by
    rintro ⟨e, w₁, hrun, hcode⟩
    apply hlimit
    rw [evaluate_of_admits hadmits]
    exact ⟨e, w₁, step_of_error nofun hrun, hcode⟩
  rw [effects_eq, effects_eq, requests_of_admits hadmits, requests_of_admits hadmits']
  refine flatMap_eq_of_forall₂ ((mirrors_run hwidens hev hplan w).resolve_left hrun).2 ?_
  intro o o' ho
  cases ho with
  | same o hother => rw [innerCourse_eq_nil hother, innerCourse_eq_nil hother]
  | evaluate hb hinner => exact heffects _ _ _ _ hb _ hinner

end Counterparts

theorem admits_of_not_endsAtLimit (hlimit : ¬ EndsAtLimit (it.evaluate a frame w)) :
    it.Admits (frame.enter a.name) := by
  by_contra hadmits
  exact hlimit (endsAtLimit_of_not_admits hadmits w)

theorem effects_relocated (hwidens : it.Widens it') (hlength : source'.length ≤ source.length)
    (h : Frame.Relocated source source' frame frame')
    (hlimit : ¬ EndsAtLimit (it.evaluate a frame w)) :
    it'.effects a frame' w = it.effects a frame w := by
  induction a, frame using it.evaluation_induction generalizing frame' w with
  | hstep a frame ih =>
      have hadmits := admits_of_not_endsAtLimit hlimit
      have hentered := h.enter a.name
      have hadmits' := hwidens.admits hlength hentered hadmits
      refine effects_eq_of_counterparts hwidens (hentered.counterparts a) hadmits hadmits' ?_ ?_
        hlimit
      · rintro _ g b g' ⟨rfl, -, hg⟩ w
        exact mirrors_evaluate hwidens hlength hg w
      · rintro _ g b g' ⟨rfl, hdepth, hg⟩ w hinner
        exact ih hadmits b g hdepth hg hinner

/-- An action that is evaluated at another frame, which binds the same element, lies no deeper and
has no longer a path, under limits that are no lower, does the same and comes to the same, unless it
comes upon the limits at the first frame.

The effects are the same, each in the same world.  The value, or the fault, is the same, or both
fail: then the errors agree in all but their paths, where the path of one frame stands in the place
of that of the other.  The worlds at the end agree in all but the log, and there in the records of all
loggers but that of the interpreter. -/
theorem evaluate_relocated (hwidens : it.Widens it') (helement : frame'.element = frame.element)
    (hdepth : frame'.depth ≤ frame.depth) (hlength : frame'.source.length ≤ frame.source.length)
    (hlimit : ¬ EndsAtLimit (it.evaluate a frame w)) :
    Mirrors (ActionError.Relocated frame.source frame'.source) (it.evaluate a frame w)
        (it'.evaluate a frame' w) ∧
      it'.effects a frame' w = it.effects a frame w ∧
      ∃ records, (it'.evaluate a frame' w).2 = { (it.evaluate a frame w).2 with records } ∧
        ∀ logger, logger ≠ LogRecord.interpreterLogger →
          records.filter (·.logger = logger) =
            (it.evaluate a frame w).2.records.filter (·.logger = logger) := by
  have hrelocated : Frame.Relocated frame.source frame'.source frame frame' :=
    ⟨⟨"", String.append_empty.symm, String.append_empty.symm⟩, helement, hdepth⟩
  have hmirrors := (mirrors_evaluate hwidens hlength hrelocated w).resolve_left hlimit
  exact ⟨hmirrors, effects_relocated hwidens hlength hrelocated hlimit, hmirrors.exists_records⟩

/-! ### A loop that fails -/

/-- An action that clicks on each element of a list. -/
def clickingEach : Action :=
  .node none (.forEach "li" (.node none (.gesture .click none)))

def clicker : Interpreter Script :=
  ofKinds [.forEach, .gesture .click]

/-- A page with one element in a list, which cannot be clicked on. -/
def onStiffPage : World Script where
  page := ⟨[("li", some [⟨.null, .null, [], .null, []⟩])], [], [], [⟨.click, none, .error "gone"⟩], []⟩

/-- The limits just leave room for the loop and its turn at the first frame. -/
def narrowClicker : Interpreter Script :=
  { clicker with maxDepth := 3, maxSourceLength := 26 }

def farFrame : Frame Handle := { source := "root[12]", depth := 1 }

def nearFrame : Frame Handle := { source := "root[0]" }

theorem evaluate_relocated_clickingEach :
    ∃ e w₁ e' w₂,
      narrowClicker.evaluate clickingEach farFrame onStiffPage = (.error (.failed e), w₁) ∧
      e.code = .surfaceError ∧ e.source = "root[12].forEach[0].click" ∧
      clicker.evaluate clickingEach nearFrame onStiffPage = (.error (.failed e'), w₂) ∧
      ActionError.Relocated "root[12]" "root[0]" e e' ∧
      clicker.effects clickingEach nearFrame onStiffPage =
        narrowClicker.effects clickingEach farFrame onStiffPage := by
  obtain ⟨e, w₁, hleft, hcode, hsource⟩ : ∃ e w₁,
      narrowClicker.evaluate clickingEach farFrame onStiffPage = (.error (.failed e), w₁) ∧
        e.code = .surfaceError ∧ e.source = "root[12].forEach[0].click" :=
    ⟨_, _, rfl, rfl, by decide⟩
  have hwidens : narrowClicker.Widens clicker :=
    ⟨rfl, rfl, rfl, fun _ => rfl, by decide, by decide⟩
  have hlimit : ¬ EndsAtLimit (narrowClicker.evaluate clickingEach farFrame onStiffPage) := by
    rintro ⟨e', w', hresult, hlimit⟩
    cases hleft.symm.trans hresult
    rw [hcode] at hlimit
    cases hlimit
  have helement : nearFrame.element = farFrame.element := rfl
  obtain ⟨hmirrors, heffects, -⟩ :=
    evaluate_relocated hwidens helement (by decide) (by decide) hlimit
  obtain ⟨e', w₂, hright, he⟩ := hmirrors.exists_failed hleft
  exact ⟨e, w₁, e', w₂, hleft, hcode, hsource, hright, he, heffects⟩

end Interpreter

end Pagescript
