import Pagescript.Proofs.Run
import Pagescript.Proofs.Waiting
/-!
# The life of a runner

A runner is armed by its first run, may be cancelled, and is closed once.  None of this is ever taken
back: each operation is looked at by itself, and what it does to a session is then followed along any
sequence of operations.
-/

namespace Pagescript

open Plan

/-- What comes after something whose failure is only noted goes on from the world it has left. -/
theorem Interaction.of_caught {σ α β : Type} {R : World σ → World σ → Prop}
    {x : Interaction σ (Except Fault α)} {rest : Except Fault α → Interaction σ β} {w : World σ}
    {P : Except Fault β × World σ → Prop} (hx : x.Keeps R)
    (hrest : ∀ result w₁, R w w₁ → P (rest result w₁)) :
    P ((tryCatch x (fun f => pure (.error f)) >>= rest) w) := by
  have hfirst := hx w
  cases hresult : x w with
  | mk result w₁ =>
      rw [hresult] at hfirst
      cases result with
      | ok v =>
          rw [Fallible.bind_of_ok (Fallible.tryCatch_of_ok hresult)]
          exact hrest v w₁ hfirst
      | error f =>
          rw [Fallible.bind_of_ok (Fallible.tryCatch_of_error hresult)]
          exact hrest (.error f) w₁ hfirst

/-! ### Closing a surface -/

namespace Surface

variable {σ : Type} {R : World σ → World σ → Prop}

/-- A call is recorded as it begins, and not again at its end. -/
theorem calls_finish (page : Page σ) (c : Call) (w w' : World σ) :
    ((Work.call page c w).1.finish w').2.calls = w'.calls := by
  simp only [Work.call]
  cases (page.start c w.page).1.fault with
  | some f => rfl
  | none => rfl

theorem calls_plainly (page : Page σ) (c : Call) (w : World σ) :
    (plainly page c w).2.calls = w.calls ++ [c] := by
  have hbegun : Interaction.begin (Work.call page c) w =
      (.ok (Work.call page c w).1, (Work.call page c w).2) := rfl
  rw [plainly, Interaction.await, Fallible.bind_of_ok hbegun]
  cases (Work.call page c w).1.delay with
  | none => exact calls_finish page c w _
  | after seconds =>
      have hslept : (modify (·.sleep seconds) : Interaction σ Unit) (Work.call page c w).2 =
          (.ok (), (Work.call page c w).2.sleep seconds) := rfl
      simp only
      rw [Fallible.bind_of_ok hslept, calls_finish]
      exact ((Work.call page c w).2.passes_sleep seconds).calls_eq
  | never => rfl

theorem keeps_plainly (hR : World.Change R) (page : Page σ) {c : Call}
    (hcall : ∀ w : World σ, R w (w.addCall c)) : (plainly page c).Keeps R :=
  (Work.keeps_call hR page hcall).await hR

/-- Whatever goes wrong while a surface is closed, its driver is stopped, and that comes last. -/
theorem exists_close_eq (hR : World.Change R) (page : Page σ)
    (hcall : ∀ (w : World σ) (c : Call), c ≠ .stopDriver → R w (w.addCall c)) (w : World σ) :
    ∃ w₁ resources, R w w₁ ∧ (close page w).2 =
      { (if w.resources.driver then (plainly page .stopDriver w₁).2 else w₁) with resources } := by
  have hcontext : (plainly page .closeContext).Keeps R :=
    keeps_plainly hR page (hcall · _ (by simp))
  have hbrowser : (plainly page .closeBrowser).Keeps R :=
    keeps_plainly hR page (hcall · _ (by simp))
  have hget : (get : Interaction σ (World σ)) w = (.ok w, w) := rfl
  rw [close, Fallible.bind_of_ok hget]
  refine Interaction.of_caught (R := R) (P := fun p => ∃ w₁ resources, R w w₁ ∧ p.2 =
    { (if w.resources.driver then (plainly page .stopDriver w₁).2 else w₁) with resources })
    ?_ fun result w₁ hw₁ => ?_
  · have hpure : (pure (Except.ok ()) : Interaction σ (Except Fault Unit)).Keeps R :=
      Interaction.keeps_pure hR _
    have hrest : (if w.resources.browser then plainly page .closeBrowser >>= fun _ => pure (.ok ())
        else pure (.ok ()) : Interaction σ (Except Fault Unit)).Keeps R := by
      split
      · exact hbrowser.bind hR fun _ => hpure
      · exact hpure
    simp only
    split
    · exact hcontext.bind hR fun _ => hrest
    · exact hrest
  · have hlast (last : Interaction σ Unit) (hlast : ∀ w, (last w).2 = w) (w' : World σ) :
        ((modify (fun w => { w with resources := {} }) >>= fun _ => last : Interaction σ Unit) w').2 =
          { w' with resources := {} } :=
      hlast _
    simp only
    split
    · cases hstop : plainly page .stopDriver w₁ with
      | mk stopped w₂ =>
          cases stopped with
          | error f =>
              rw [Fallible.bind_of_error hstop]
              exact ⟨w₁, w₂.resources, hw₁, by rw [hstop]⟩
          | ok =>
              rw [Fallible.bind_of_ok hstop]
              refine ⟨w₁, {}, hw₁, ?_⟩
              rw [hstop]
              exact hlast _ (fun w => by cases result <;> rfl) w₂
    · exact ⟨w₁, {}, hw₁, hlast _ (fun w => by cases result <;> rfl) w₁⟩

theorem onward_close (page : Page σ) (w : World σ) : w.Onward (close page w).2 := by
  have hcall (w : World σ) (c : Call) : w.Onward (w.addCall c) :=
    ⟨rfl, rfl, id, .inl rfl, fun h => ⟨h.1, h.2, h.3⟩⟩
  obtain ⟨w₁, resources, hw₁, heq⟩ := exists_close_eq World.trend_onward.toChange page
    (fun w c _ => hcall w c) w
  have hlast : w₁.Onward (if w.resources.driver then (plainly page .stopDriver w₁).2 else w₁) := by
    split
    · exact keeps_plainly World.trend_onward.toChange page (hcall · _) w₁
    · exact .refl w₁
  rw [heq]
  refine (hw₁.trans hlast).trans ⟨rfl, rfl, id, .inl rfl, fun h => ⟨h.1, h.2, h.3⟩⟩

end Surface

theorem Surface.stops_close {σ : Type} (page : Page σ) (w : World σ) :
    (close page w).2.stops = w.stops + w.resources.driver.toNat := by
  obtain ⟨w₁, resources, ⟨-, hw₁⟩, heq⟩ := exists_close_eq World.trend_resources.toChange page
    (fun w c hc => ⟨rfl, w.stops_addCall hc⟩) w
  rw [heq, ← hw₁]
  cases w.resources.driver with
  | true =>
      have hcalls := calls_plainly page .stopDriver w₁
      simp only [if_true, World.stops, hcalls, List.count_append, List.count_singleton_self,
        Bool.toNat_true]
  | false => rfl

theorem Token.arm_eq (token : Token) (now : Binary64) :
    token.arm now = { token with deadline := token.deadline.or (token.timeout.map now.add) } := by
  obtain ⟨timeout, deadline, cancelled⟩ := token
  cases deadline with
  | some d => rfl
  | none =>
      cases timeout with
      | none => rfl
      | some limit => rfl

theorem World.token_arm {σ : Type} (w : World σ) :
    w.arm.token = { w.token with
      deadline := w.token.deadline.or (w.token.timeout.map w.now.add) } :=
  w.token.arm_eq w.now

/-! ### Operations -/

namespace Runner

variable {σ : Type}

/-- Whether an operation begins a run. -/
def Operation.begins (registry : Registry) : Operation → Bool
  | .run document | .runAndClose document => (document.parse registry).isOk
  | .runSteps _ => true
  | _ => false

def Operation.closes : Operation → Bool
  | .close | .runAndClose _ => true
  | _ => false

/-- Whether an operation cancels the runs before it ends. -/
def Operation.cancels : Operation → Bool
  | .cancel => true
  | op => op.closes

/-- Whether an operation cancels the runs, be it at some later time. -/
def Operation.dooms : Operation → Bool
  | .cancelAfter _ => true
  | op => op.cancels

theorem Operation.cancels_of_closes {op : Operation} (hop : op.closes = true) :
    op.cancels = true := by
  cases op with
  | cancel => rfl
  | _ => exact hop

/-- A runner that is closed has been cancelled. -/
def Sealed (s : Session σ) : Prop :=
  s.closed = true → s.world.token.cancelled = true

/-- What a sequence of operations makes of a session. -/
def after (r : Runner σ) (s : Session σ) (ops : List Operation) : Session σ :=
  ops.foldl (fun s op => (r.perform op s).2) s

/-- What no sequence of operations can take back, and what it takes to bring it about. -/
structure Follows (r : Runner σ) (ops : List Operation) (s s' : Session σ) : Prop where
  timeout : s'.world.token.timeout = s.world.token.timeout
  armed : ∀ d, s.world.token.deadline = some d → s'.world.token.deadline = some d
  unarmed : s.world.token.timeout = none ∨ ops.any (·.begins r.registry) = false →
    s'.world.token.deadline = s.world.token.deadline
  now : s.world.now.NoLater s'.world.now
  cancelled : s.world.token.cancelled = true ∨ ops.any Operation.cancels = true →
    s'.world.token.cancelled = true
  quiet : ops.any Operation.dooms = false → s.world.Quiet → s'.world.Quiet
  closed : s'.closed = (s.closed || ops.any Operation.closes)
  log : s'.events.map (·.closed) =
    s.events.map fun log => log.closed || (!s.closed && ops.any Operation.closes)
  resources : ops.any Operation.closes = false → s'.world.resources = s.world.resources
  stops : s'.world.stops = s.world.stops +
    (!s.closed && ops.any Operation.closes && s.world.resources.driver).toNat

namespace Follows

variable {r : Runner σ} {ops ops' : List Operation} {s s' s'' : Session σ}

theorem trans (h : r.Follows ops s s') (h' : r.Follows ops' s' s'') :
    r.Follows (ops ++ ops') s s'' where
  timeout := h'.timeout.trans h.timeout
  armed d hd := h'.armed d (h.armed d hd)
  unarmed hops := by
    rw [List.any_append, Bool.or_eq_false_iff, or_and_left] at hops
    rw [h'.unarmed (h.timeout ▸ hops.2), h.unarmed hops.1]
  now := h.now.trans h'.now
  cancelled hcancelled := by
    rw [List.any_append, Bool.or_eq_true, ← or_assoc] at hcancelled
    exact h'.cancelled (hcancelled.imp_left h.cancelled)
  quiet hops hs := by
    rw [List.any_append, Bool.or_eq_false_iff] at hops
    exact h'.quiet hops.2 (h.quiet hops.1 hs)
  closed := by rw [h'.closed, h.closed, List.any_append, Bool.or_assoc]
  log := by
    have hlog := congrArg (Option.map (· || (!s'.closed && ops'.any Operation.closes))) h.log
    rw [Option.map_map, Option.map_map] at hlog
    rw [h'.log]
    refine hlog.trans (congrArg (Option.map · s.events) (funext fun log => ?_))
    simp only [Function.comp, h.closed, List.any_append]
    cases s.closed <;> cases ops.any Operation.closes <;> simp
  resources hops := by
    rw [List.any_append, Bool.or_eq_false_iff] at hops
    exact (h'.resources hops.2).trans (h.resources hops.1)
  stops := by
    rw [h'.stops, h.stops, h.closed, List.any_append]
    cases hclosed : s.closed with
    | true => simp
    | false =>
        cases hops : ops.any Operation.closes with
        | true => simp
        | false => simp [h.resources hops]

theorem isSealed (h : r.Follows ops s s') (hs : Sealed s) : Sealed s' := by
  intro hclosed
  rw [h.closed, Bool.or_eq_true] at hclosed
  refine h.cancelled (hclosed.imp hs fun hops => ?_)
  obtain ⟨op, hop, hcloses⟩ := List.any_eq_true.1 hops
  exact List.any_eq_true.2 ⟨op, hop, Operation.cancels_of_closes hcloses⟩

end Follows

section Perform

variable {r : Runner σ} {op : Operation} {s s' : Session σ}

theorem follows_of_onward (hcancels : op.cancels = false) (hcloses : op.closes = false)
    (honward : s.Carries World.Onward s')
    (hresources : s'.world.resources = s.world.resources ∧ s'.world.stops = s.world.stops) :
    r.Follows [op] s s' where
  timeout := honward.world.timeout
  armed _ hd := honward.world.deadline.trans hd
  unarmed _ := honward.world.deadline
  now := honward.world.now
  cancelled hcancelled := by
    rw [List.any_cons, List.any_nil, Bool.or_false, hcancels] at hcancelled
    exact honward.world.cancelled (hcancelled.resolve_right Bool.false_ne_true)
  quiet _ := honward.world.quiet
  closed := by simp [honward.closed, hcloses]
  log := by simp [honward.log_closed, hcloses]
  resources _ := hresources.1
  stops := by simp [hresources.2, hcloses]

theorem follows_proceed (hbegins : op.begins r.registry = true) (hcancels : op.cancels = false)
    (hcloses : op.closes = false) (steps : List Step) (program : Program) (s : Session σ) :
    r.Follows [op] s (r.proceed ⟨steps, { s with program, world := s.world.arm }⟩).2 := by
  have honward := (carries_proceed World.trend_onward r
    ⟨steps, { s with program, world := s.world.arm }⟩).1
  have hresources := (carries_proceed World.trend_resources r
    ⟨steps, { s with program, world := s.world.arm }⟩).1
  constructor
  · rw [honward.world.timeout, World.token_arm]
  · intro d hd
    rw [honward.world.deadline, World.token_arm, hd]
    rfl
  · intro hops
    rw [honward.world.deadline, World.token_arm, hops.resolve_right (by simp [hbegins])]
    exact Option.or_none
  · exact honward.world.now
  · intro hcancelled
    rw [List.any_cons, List.any_nil, Bool.or_false, hcancels] at hcancelled
    refine honward.world.cancelled ?_
    rw [World.token_arm]
    exact hcancelled.resolve_right Bool.false_ne_true
  · intro _ hs
    exact honward.world.quiet ⟨hs.alarms, hs.ringing, by rw [World.token_arm, hs.cancelled]⟩
  · simp [honward.closed, hcloses]
  · simp [honward.log_closed, hcloses]
  · exact fun _ => hresources.world.1
  · rw [hresources.world.2]
    simp [hcloses, World.stops, World.arm]

theorem follows_run (r : Runner σ) (document : Document) (s : Session σ) :
    r.Follows [.run document] s (r.run document s).2 := by
  cases hparse : document.parse r.registry with
  | ok program =>
      rw [run_of_parsed hparse]
      have hbegins : (Operation.run document).begins r.registry = true := by
        rw [Operation.begins, hparse]
        rfl
      exact follows_proceed hbegins rfl rfl _ program s
  | error e =>
      obtain ⟨records, heq, -⟩ := run_of_refused hparse s
      rw [heq]
      exact follows_of_onward rfl rfl
        (.ofWorld (World.trend_onward.records s.world records)) ⟨rfl, rfl⟩

theorem follows_close (r : Runner σ) (hs : Sealed s) : r.Follows [.close] s (r.close s).2 := by
  cases hclosed : s.closed with
  | true =>
      rw [close_of_closed r hclosed]
      refine ⟨rfl, fun _ hd => hd, fun _ => rfl, .inl rfl, fun _ => hs hclosed, fun _ => id, ?_, ?_,
        fun _ => rfl, ?_⟩
      · simp [hclosed]
      · simp [hclosed]
      · simp [hclosed]
  | false =>
      have honward := Surface.onward_close r.surface.page s.world.cancel
      have hstops := Surface.stops_close r.surface.page s.world.cancel
      rw [close_of_not_closed r hclosed]
      constructor
      · exact honward.timeout
      · exact fun d hd => honward.deadline.trans hd
      · exact fun _ => honward.deadline
      · exact honward.now
      · exact fun _ => honward.cancelled rfl
      · exact fun hops => absurd hops (by decide)
      · simp [Operation.closes]
      · simp [hclosed, Operation.closes, EventLog.close, Function.comp_def]
      · exact fun hops => absurd hops (by decide)
      · rw [hstops]
        simp [hclosed, Operation.closes, World.stops, World.cancel]

theorem follows_runAndClose (r : Runner σ) (document : Document) (hs : Sealed s) :
    r.Follows [.runAndClose document] s (r.close (r.run document s).2).2 := by
  have hrun := follows_run r document s
  have hboth := hrun.trans (follows_close r (hrun.isSealed hs))
  exact ⟨hboth.timeout, hboth.armed, hboth.unarmed, hboth.now, hboth.cancelled, hboth.quiet,
    hboth.closed, hboth.log, hboth.resources, hboth.stops⟩

/-- What one operation does. -/
theorem follows_perform (r : Runner σ) (op : Operation) (hs : Sealed s) :
    r.Follows [op] s (r.perform op s).2 := by
  cases op with
  | run document =>
      rw [perform, map_apply]
      exact follows_run r document s
  | runSteps steps =>
      rw [perform, map_apply, runSteps_apply]
      exact follows_proceed rfl rfl rfl steps s.program s
  | cancel =>
      change r.Follows [.cancel] s { s with world := s.world.cancel }
      refine ⟨rfl, fun _ hd => hd, fun _ => rfl, .inl rfl, fun _ => rfl, ?_, ?_, ?_, fun _ => rfl, ?_⟩
      · exact fun hops => absurd hops (by decide)
      · exact (Bool.or_false _).symm
      · simp [Operation.closes]
      · simp [Operation.closes, World.stops, World.cancel]
  | cancelAfter seconds =>
      change r.Follows [.cancelAfter seconds] s { s with world := s.world.cancelAfter seconds }
      refine ⟨rfl, fun _ hd => hd, fun _ => rfl, .inl rfl, ?_, ?_, ?_, ?_, fun _ => rfl, ?_⟩
      · exact fun hcancelled => hcancelled.resolve_right Bool.false_ne_true
      · exact fun hops => absurd hops (by simp [Operation.dooms])
      · exact (Bool.or_false _).symm
      · simp [Operation.closes]
      · simp [Operation.closes, World.stops, World.cancelAfter]
  | advance seconds =>
      have hpasses := s.world.passes_sleep seconds
      refine follows_of_onward rfl rfl (.ofWorld hpasses.onward) ?_
      exact World.trend_resources.pass hpasses
  | close =>
      have heq : (r.perform .close s).2 = (r.close s).2 := by
        cases hclose : r.close s with
        | mk result s' =>
            cases result with
            | ok => exact congrArg Prod.snd (Fallible.bind_of_ok hclose)
            | error f => exact congrArg Prod.snd (Fallible.bind_of_error hclose)
      rw [heq]
      exact follows_close r hs
  | runAndClose document =>
      rw [perform, map_apply, runAndClose, andThenAlways_apply]
      exact follows_runAndClose r document hs

/-- What a sequence of operations does. -/
theorem follows_after (r : Runner σ) (ops : List Operation) (hs : Sealed s) :
    r.Follows ops s (r.after s ops) := by
  induction ops generalizing s with
  | nil =>
      refine ⟨rfl, fun _ hd => hd, fun _ => rfl, .inl rfl, ?_, fun _ => id, ?_, ?_, fun _ => rfl, ?_⟩
      · exact fun hcancelled => hcancelled.resolve_right Bool.false_ne_true
      · exact (Bool.or_false _).symm
      · simp [after]
      · simp [after]
  | cons op rest ih =>
      have hfirst := follows_perform r op hs
      exact hfirst.trans (ih (hfirst.isSealed hs))

theorem after_append (r : Runner σ) (s : Session σ) (ops ops' : List Operation) :
    r.after s (ops ++ ops') = r.after (r.after s ops) ops' :=
  List.foldl_append

/-! ### The first run -/

theorem deadline_proceed (r : Runner σ) (steps : List Step) (program : Program) (s : Session σ) :
    (r.proceed ⟨steps, { s with program, world := s.world.arm }⟩).2.world.token.deadline =
      s.world.token.deadline.or (s.world.token.timeout.map s.world.now.add) := by
  have honward := (carries_proceed World.trend_onward r
    ⟨steps, { s with program, world := s.world.arm }⟩).1
  rw [honward.world.deadline, World.token_arm]

theorem deadline_run {document : Document} {program : Program}
    (hparse : document.parse r.registry = .ok program) :
    (r.run document s).2.world.token.deadline =
      s.world.token.deadline.or (s.world.token.timeout.map s.world.now.add) := by
  rw [run_of_parsed hparse]
  exact r.deadline_proceed _ program s

theorem deadline_perform (hs : Sealed s) (hop : op.begins r.registry = true) :
    (r.perform op s).2.world.token.deadline =
      s.world.token.deadline.or (s.world.token.timeout.map s.world.now.add) := by
  cases op with
  | run document =>
      rw [perform, map_apply]
      cases hparse : document.parse r.registry with
      | ok program => exact deadline_run hparse
      | error e => simp [Operation.begins, hparse, Except.isOk, Except.toBool] at hop
  | runSteps steps =>
      rw [perform, map_apply, runSteps_apply]
      exact r.deadline_proceed steps s.program s
  | runAndClose document =>
      rw [perform, map_apply, runAndClose, andThenAlways_apply]
      have hclose := follows_close r ((follows_run r document s).isSealed hs)
      rw [hclose.unarmed (.inr rfl)]
      cases hparse : document.parse r.registry with
      | ok program => exact deadline_run hparse
      | error e => simp [Operation.begins, hparse, Except.isOk, Except.toBool] at hop
  | _ => cases hop

theorem session_of_begun? {run : Run σ} (hrun : r.begun? s op = some run) :
    ∃ program, run.session = { s with program, world := s.world.arm } := by
  cases op with
  | run document | runAndClose document =>
      cases hparse : document.parse r.registry with
      | ok program =>
          simp only [begun?, hparse] at hrun
          cases hrun
          exact ⟨program, rfl⟩
      | error e =>
          simp only [begun?, hparse] at hrun
          cases hrun
  | runSteps steps =>
      cases hrun
      exact ⟨s.program, rfl⟩
  | _ => cases hrun

end Perform

/-- A session in which nothing has been done yet. -/
structure Fresh (r : Runner σ) (s : Session σ) : Prop where
  timeout : s.world.token.timeout = r.config.timeout
  deadline : s.world.token.deadline = none
  quiet : s.world.Quiet
  closed : s.closed = false

section Waits

variable {r : Runner σ} {s : Session σ} {ops : List Operation} {op : Operation} {run : Run σ}
  {v u : Visit σ} {o : Plan.Occurrence σ}

/-- All that is asked for in a run is asked for after it has begun. -/
theorem onward_of_nested (hrun : r.begun? s op = some run) (hv : v ∈ r.visits run)
    (hu : Relation.ReflTransGen (r.interpreter run.session.program).Nests v u)
    (ho : o ∈ (r.interpreter run.session.program).requests u.action u.frame u.world) :
    s.world.arm.Onward o.world := by
  obtain ⟨program, hsession⟩ := session_of_begun? hrun
  have hvisit := ((carries_proceed World.trend_onward r run).2 v hv).1
  rw [hsession] at hvisit
  exact hvisit.trans
    (Interpreter.keeps_course World.trend_onward (Interpreter.mem_course_of_reflTransGen hu ho)).1

theorem Follows.expired {s' : Session σ} (h : r.Follows ops s s')
    (hexpired : s.world.token.expired s.world.now = true) :
    s'.world.token.expired s'.world.now = true :=
  Token.expired_of_noLater h.armed h.now hexpired

end Waits

/-- What becomes of a runner is settled once.

The first run sets the deadline, and no later operation moves it.  After a cancellation, and after the
runner was closed, every wait that a run asks for fails as cancelled; once the deadline has passed,
and if nothing was cancelled, it fails because of the deadline.  In either case the wait is not begun:
the run ends in the very world in which the wait was asked for.  The surface is closed the first time
that the runner is, whatever comes of it, and never again. -/
theorem lifecycle (r : Runner σ) {s : Session σ} (hs : r.Fresh s) :
    (∀ ops, (∀ op ∈ ops, op.begins r.registry = false) →
      (r.after s ops).world.token.deadline = none) ∧
    (∀ earlier op later, (∀ op ∈ earlier, op.begins r.registry = false) →
      op.begins r.registry = true →
        (r.after s (earlier ++ op :: later)).world.token.deadline =
          r.config.timeout.map (r.after s earlier).world.now.add) ∧
    (∀ ops op run, r.begun? (r.after s ops) op = some run → ∀ v ∈ r.visits run, ∀ u o awaited,
      Relation.ReflTransGen (r.interpreter run.session.program).Nests v u →
      o ∈ (r.interpreter run.session.program).requests u.action u.frame u.world →
      o.request = .wait awaited →
        ((∃ op ∈ ops, op.cancels = true) →
          (r.interpreter run.session.program).Stopped v u o .cancelled) ∧
        ((∀ op ∈ ops, op.dooms = false) →
          (o.world.token.expired o.world.now = true ∨ ∃ earlier, earlier <+: ops ∧
            (r.after s earlier).world.token.expired (r.after s earlier).world.now = true) →
          (r.interpreter run.session.program).Stopped v u o .timeout)) ∧
    (∀ ops, (r.after s ops).closed = ops.any Operation.closes ∧
      (r.after s ops).world.stops =
        s.world.stops + (ops.any Operation.closes && s.world.resources.driver).toNat ∧
      r.close (r.after s ops) =
        if ops.any Operation.closes then (.ok (), r.after s ops)
        else ((Surface.close r.surface.page (r.after s ops).world.cancel).1,
          { r.after s ops with
            world := (Surface.close r.surface.page (r.after s ops).world.cancel).2
            closed := true
            events := (r.after s ops).events.map EventLog.close })) := by
  have hsealed : Sealed s := fun hclosed => absurd (hs.closed.symm.trans hclosed) (by decide)
  have hfollows (ops : List Operation) := follows_after r ops hsealed
  refine ⟨?_, ?_, ?_, ?_⟩
  · intro ops hops
    have hnone := List.any_eq_false.2 fun op hop => Bool.eq_false_iff.1 (hops op hop)
    exact ((hfollows ops).unarmed (.inr hnone)).trans hs.deadline
  · intro earlier op later hearlier hop
    have hnone := List.any_eq_false.2 fun op hop => Bool.eq_false_iff.1 (hearlier op hop)
    have hfirst := hfollows earlier
    have hsealed' := hfirst.isSealed hsealed
    have hset := deadline_perform hsealed' hop
    rw [hfirst.unarmed (.inr hnone), hs.deadline, hfirst.timeout, hs.timeout, Option.none_or] at hset
    have hop' := follows_perform r op hsealed'
    have hlater := follows_after r later (hop'.isSealed hsealed')
    rw [after_append]
    change (r.after (r.perform op (r.after s earlier)).2 later).world.token.deadline = _
    cases htimeout : r.config.timeout with
    | none =>
        rw [htimeout] at hset
        refine (hlater.unarmed (.inl ?_)).trans hset
        rw [hop'.timeout, hfirst.timeout, hs.timeout, htimeout]
    | some limit =>
        rw [htimeout] at hset
        exact hlater.armed _ hset
  · intro ops op run hrun v hv u o awaited hu ho hwait
    have honward := onward_of_nested hrun hv hu ho
    have hfirst := hfollows ops
    constructor
    · rintro ⟨c, hc, hcancels⟩
      refine Interpreter.stopped_of_reason hu ho hwait ?_
      have hcancelled := hfirst.cancelled (.inr (List.any_eq_true.2 ⟨c, hc, hcancels⟩))
      have hstays := honward.cancelled (by rw [World.token_arm, hcancelled])
      rw [Token.reason?, hstays, if_pos rfl]
    · intro hops hexpired
      refine Interpreter.stopped_of_reason hu ho hwait ?_
      have hnone := List.any_eq_false.2 fun op hop => Bool.eq_false_iff.1 (hops op hop)
      have hquiet := hfirst.quiet hnone hs.quiet
      have hquiet' := honward.quiet ⟨hquiet.alarms, hquiet.ringing,
        by rw [World.token_arm, hquiet.cancelled]⟩
      have hpassed : o.world.token.expired o.world.now = true := by
        obtain hpassed | ⟨earlier, ⟨rest, rfl⟩, hpassed⟩ := hexpired
        · exact hpassed
        · have hsince := follows_after r rest ((hfollows earlier).isSealed hsealed)
          rw [← after_append] at hsince
          refine Token.expired_of_noLater (fun d hd => ?_) honward.now (hsince.expired hpassed)
          rw [honward.deadline, World.token_arm, hd]
          rfl
      rw [Token.reason?, hquiet'.cancelled, hpassed]
      rfl
  · intro ops
    have hclosed := (hfollows ops).closed
    have hstops := (hfollows ops).stops
    rw [hs.closed, Bool.false_or] at hclosed
    rw [hs.closed, Bool.not_false, Bool.true_and] at hstops
    refine ⟨hclosed, hstops, ?_⟩
    split
    next hany => exact close_of_closed r (hclosed.trans hany)
    next hany => exact close_of_not_closed r (hclosed.trans (Bool.eq_false_iff.2 hany))

/-- A runner with a time limit of one second, which knows how to pause. -/
def pausing : Runner Script where
  surface := { page := Script.page }
  config :=
    { timeout := some (.ofInt 1), actionTimeout := 10000, navigationTimeout := 30000
      waitTimeout := 30000, maxDepth := 50, maxSourceLength := 1000, headless := true
      address := none, logRoot := ⟨"", ["runs"]⟩ }
  registry := ⟨[(Kind.sleep.name, Kind.sleep.registration)], Registry.defaultMaxDepth⟩

/-- A session of it, with a browser that is open. -/
def pausingSession : Session Script where
  world :=
    { World.onEmptyPage with
      token := { timeout := some (.ofInt 1) }
      resources := ⟨true, true, true⟩ }

/-- A pause of two seconds. -/
def pause : Action := .node none (.sleep (.ofInt 2))

/-- The visit of a run that pauses after some operations. -/
def pausingAfter (ops : List Operation) : Visit Script :=
  ⟨pause, { source := sourceOf 0 }, (pausing.after pausingSession ops).world.arm⟩

/-- The run that pauses is stopped by the deadline of the first run, and then by the cancellation; of
the two times that the runner is closed only one stops the driver. -/
theorem lifecycle_pausing :
    pausing.Fresh pausingSession ∧
      (pausing.after pausingSession [.runSteps [], .advance (.ofInt 2)]).world.token.deadline =
        some (.ofInt 1) ∧
      (∃ e w', (pausing.interpreter .empty).evaluate pause { source := sourceOf 0 }
          (pausingAfter [.runSteps [], .advance (.ofInt 2)]).world = (.error (.failed e), w') ∧
        e.code = .timeout) ∧
      (∃ e w', (pausing.interpreter .empty).evaluate pause { source := sourceOf 0 }
          (pausingAfter [.runSteps [], .advance (.ofInt 2), .cancel]).world =
            (.error (.failed e), w') ∧
        e.code = .cancelled) ∧
      (pausing.after pausingSession [.cancel, .close, .close]).world.stops = 1 := by
  have hfresh : pausing.Fresh pausingSession := ⟨rfl, rfl, ⟨rfl, rfl, rfl⟩, rfl⟩
  obtain ⟨-, hdeadline, hwaits, hcloses⟩ := lifecycle pausing hfresh
  -- each of these runs evaluates the pause, which asks for its wait at once
  have hvisit (ops : List Operation) : pausingAfter ops ∈ pausing.visits
      ⟨[.action pause], { pausing.after pausingSession ops with
        world := (pausing.after pausingSession ops).world.arm }⟩ :=
    List.mem_append_left _ (List.mem_singleton_self _)
  have hwait (ops : List Operation) (program : Program) :
      ⟨.wait (.pause (.ofInt 2)), (pausingAfter ops).world⟩ ∈ (pausing.interpreter program).requests
        pause { source := sourceOf 0 } (pausingAfter ops).world := by
    have hadmits : (pausing.interpreter program).Admits
        (({ source := sourceOf 0 } : Frame Handle).enter pause.name) := by
      change (_ : Int) ≤ 1000 ∧ (_ : Int) ≤ 50
      decide
    rw [Interpreter.requests_of_admits hadmits]
    exact Handler.mem_course_wait pause _ (.pause (.ofInt 2)) _
  have htimeout := (hwaits [.runSteps [], .advance (.ofInt 2)] (.runSteps [.action pause]) _ rfl
    _ (hvisit _) _ _ _ .refl (hwait _ _) rfl).2
      (by simp [Operation.dooms, Operation.cancels, Operation.closes])
      (.inr ⟨_, List.prefix_rfl, by decide +kernel⟩)
  have hcancelled := (hwaits [.runSteps [], .advance (.ofInt 2), .cancel]
    (.runSteps [.action pause]) _ rfl _ (hvisit _) _ _ _ .refl (hwait _ _) rfl).1
      ⟨.cancel, by simp, rfl⟩
  refine ⟨hfresh, ?_, ⟨_, _, htimeout.fails, rfl⟩, ⟨_, _, hcancelled.fails, rfl⟩, ?_⟩
  · have hfirst := hdeadline [] (.runSteps []) [.advance (.ofInt 2)] (by simp) rfl
    rw [List.nil_append] at hfirst
    rw [hfirst]
    decide +kernel
  · exact (hcloses [.cancel, .close, .close]).2.1

end Runner

end Pagescript
