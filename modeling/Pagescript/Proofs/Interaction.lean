import Pagescript.Proofs.Time
import Pagescript.Surface
/-!
# What interactions do to a world

How computations that change a world and may stop are composed, how a race with the token ends, and
how an interaction with a browser can change a world: whatever holds of each of the few things that
it can do holds of all of it.
-/

namespace Pagescript

/-! ### Computations that may stop -/

namespace Fallible

variable {ε ω α β : Type} {x : ExceptT ε (StateM ω) α} {w w' : ω}

theorem bind_of_ok {f : α → ExceptT ε (StateM ω) β} {v : α} (hx : x w = (.ok v, w')) :
    (x >>= f) w = f v w' := by
  change (ExceptT.bindCont f (x w).1) (x w).2 = _
  rw [hx]
  rfl

theorem bind_of_error {f : α → ExceptT ε (StateM ω) β} {s : ε} (hx : x w = (.error s, w')) :
    (x >>= f) w = (.error s, w') := by
  change (ExceptT.bindCont f (x w).1) (x w).2 = _
  rw [hx]
  rfl

theorem tryCatch_of_ok {f : ε → ExceptT ε (StateM ω) α} {v : α} (hx : x w = (.ok v, w')) :
    tryCatch x f w = (.ok v, w') := by
  simp only [tryCatch, tryCatchThe, MonadExceptOf.tryCatch, ExceptT.tryCatch, ExceptT.mk, bind,
    StateT.bind, hx]
  rfl

theorem tryCatch_of_error {f : ε → ExceptT ε (StateM ω) α} {s : ε} (hx : x w = (.error s, w')) :
    tryCatch x f w = f s w' := by
  simp only [tryCatch, tryCatchThe, MonadExceptOf.tryCatch, ExceptT.tryCatch, ExceptT.mk, bind,
    StateT.bind, hx]

end Fallible

/-! ### Races -/

namespace World

variable {σ : Type} {w w' : World σ}

theorem now_ring (w : World σ) : w.ring.now = w.now := by
  unfold ring
  split
  · rfl
  · rfl

/-- A wait for a time that comes is not endless. -/
theorem isFinite_eq_false_of_contend {time : Binary64}
    (hcontend : w.contend (some time) = (.never, w')) : time.isFinite = false := by
  simp only [contend] at hcontend
  split at hcontend
  · cases hcontend
  · split at hcontend
    · split at hcontend
      · cases hcontend
      · cases hcontend
    · split at hcontend
      next hearliest =>
        rw [earliest?] at hearliest
        split at hearliest
        next hnone => simpa using List.filter_eq_nil_iff.1 hnone time (by simp)
        · cases hearliest
      · split at hcontend
        · cases hcontend
        · cases hcontend

end World

namespace Interaction

variable {σ α : Type}

/-- How a race goes: not at all if the token has fired, else to the end of the wait. -/
theorem race_apply (work : Work σ α) (w : World σ) :
    race work w =
      match w.token.reason? w.now with
      | some reason => (.ok (.error reason), w)
      | none =>
        let (pending, next) := work w.ring
        let (ending, next) := next.outlast pending.delay
        let rest : Interaction σ (Except Interruption α) :=
          match ending with
          | .finished => Except.ok <$> pending.finish
          | .stopped => Except.error <$> interrupted
          | .never => throw .hung
        rest (next.endWait ending) := by
  have hget : (get : Interaction σ (World σ)) w = (.ok w, w) := rfl
  rw [race, Fallible.bind_of_ok hget]
  cases hreason : w.token.reason? w.now with
  | some reason => rfl
  | none => rfl

/-- A pause goes wrong only if it never ends, because its time never comes. -/
theorem race_sleep_error {seconds : Binary64} {f : Fault} {w w' : World σ}
    (hrace : race (Work.sleep seconds) w = (.error f, w')) :
    f = .hung ∧ (w.now.add seconds).isFinite = false := by
  rw [race_apply] at hrace
  split at hrace
  · cases hrace
  · cases houtlast : w.ring.outlast (.after seconds) with
    | mk ending next =>
        simp only [Work.sleep, houtlast] at hrace
        cases ending with
        | finished => cases hrace
        | stopped => cases hrace
        | never =>
            cases hrace
            rw [World.outlast] at houtlast
            split at houtlast
            · cases houtlast
            · rw [World.now_ring] at houtlast
              exact ⟨rfl, World.isFinite_eq_false_of_contend houtlast⟩

end Interaction

/-! ### How interactions change a world -/

/-- A call that opens or closes a browser. -/
def Call.manages : Call → Bool
  | .startDriver | .launchBrowser _ | .connectBrowser _ | .newContext | .newPage | .closeContext
  | .closeBrowser | .stopDriver => true
  | _ => false

/-- A relation between an earlier and a later world that nothing done with a page breaks. -/
structure World.Change {σ : Type} (R : World σ → World σ → Prop) : Prop where
  refl : ∀ w, R w w
  trans : ∀ {w w' w''}, R w w' → R w' w'' → R w w''
  page : ∀ (w : World σ) (page : σ), R w { w with page }
  records : ∀ (w : World σ) (records : List LogRecord), R w { w with records }
  call : ∀ (w : World σ) (c : Call), c.manages = false → R w (w.addCall c)
  pass : ∀ {w w' : World σ}, w.Passes w' → R w w'

namespace Interaction

variable {σ α β : Type} {R : World σ → World σ → Prop} {x : Interaction σ α}

/-- Whatever comes of it, the worlds before and after are related. -/
def Keeps (R : World σ → World σ → Prop) (x : Interaction σ α) : Prop :=
  ∀ w, R w (x w).2

theorem keeps_pure (hR : World.Change R) (v : α) : Keeps R (pure v : Interaction σ α) := hR.refl

theorem keeps_throw (hR : World.Change R) (f : Fault) : Keeps R (throw f : Interaction σ α) :=
  hR.refl

theorem Keeps.bind {f : α → Interaction σ β} (hR : World.Change R) (hx : Keeps R x)
    (hf : ∀ v, Keeps R (f v)) : Keeps R (x >>= f) := by
  intro w
  have hfirst := hx w
  cases hresult : x w with
  | mk result w' =>
      rw [hresult] at hfirst
      cases result with
      | ok v =>
          rw [Fallible.bind_of_ok hresult]
          exact hR.trans hfirst (hf v w')
      | error s =>
          rw [Fallible.bind_of_error hresult]
          exact hfirst

theorem Keeps.map {f : α → β} (hR : World.Change R) (hx : Keeps R x) : Keeps R (f <$> x) := by
  rw [map_eq_pure_bind]
  exact hx.bind hR fun v => keeps_pure hR (f v)

theorem Keeps.tryCatch {f : Fault → Interaction σ α} (hR : World.Change R) (hx : Keeps R x)
    (hf : ∀ s, Keeps R (f s)) : Keeps R (tryCatch x f) := by
  intro w
  have hfirst := hx w
  cases hresult : x w with
  | mk result w' =>
      rw [hresult] at hfirst
      cases result with
      | ok v =>
          rw [Fallible.tryCatch_of_ok hresult]
          exact hfirst
      | error s =>
          rw [Fallible.tryCatch_of_error hresult]
          exact hR.trans hfirst (hf s w')

end Interaction

/-- A piece of work that keeps to a relation at its beginning and at its end. -/
def Work.Keeps {σ α : Type} (R : World σ → World σ → Prop) (work : Work σ α) : Prop :=
  ∀ w, R w (work w).2 ∧ (work w).1.finish.Keeps R

namespace Work

variable {σ α : Type} {R : World σ → World σ → Prop}

theorem keeps_sleep (hR : World.Change R) (seconds : Binary64) :
    Keeps R (sleep seconds : Work σ Unit) := by
  intro w
  exact ⟨hR.refl w, Interaction.keeps_pure hR ()⟩

theorem keeps_call (hR : World.Change R) (page : Page σ) {c : Call}
    (hcall : ∀ w : World σ, R w (w.addCall c)) : Keeps R (call page c) := by
  intro w
  refine ⟨hR.trans (hcall w) (hR.page _ _), ?_⟩
  simp only [call]
  split
  · exact Interaction.keeps_throw hR _
  · intro w'
    exact hR.page w' _

theorem Keeps.await {work : Work σ α} (hR : World.Change R) (hwork : work.Keeps R) :
    (Interaction.await work).Keeps R := by
  intro w
  obtain ⟨hbegin, hfinish⟩ := hwork w
  have hbegun : Interaction.begin work w = (.ok (work w).1, (work w).2) := rfl
  rw [Interaction.await, Fallible.bind_of_ok hbegun]
  cases (work w).1.delay with
  | none => exact hR.trans hbegin (hfinish _)
  | after seconds =>
      have hslept : (modify (·.sleep seconds) : Interaction σ Unit) (work w).2 =
          (.ok (), (work w).2.sleep seconds) := rfl
      simp only
      rw [Fallible.bind_of_ok hslept]
      exact hR.trans hbegin (hR.trans (hR.pass (World.passes_sleep _ seconds)) (hfinish _))
  | never => exact hbegin

theorem Keeps.race {work : Work σ α} (hR : World.Change R) (hwork : work.Keeps R) :
    (Interaction.race work).Keeps R := by
  intro w
  rw [Interaction.race_apply]
  split
  · exact hR.refl w
  · obtain ⟨hbegin, hfinish⟩ := hwork w.ring
    have houtlasted := ((work w.ring).2.passes_outlast (work w.ring).1.delay).trans
      (World.passes_endWait _ ((work w.ring).2.outlast (work w.ring).1.delay).1)
    have hwaited := hR.trans (hR.trans (hR.pass w.passes_ring) hbegin) (hR.pass houtlasted)
    cases hending : (work w.ring).2.outlast (work w.ring).1.delay with
    | mk ending next =>
        rw [hending] at hwaited
        simp only [hending]
        cases ending with
        | finished => exact hR.trans hwaited (hfinish.map hR _)
        | stopped => exact hR.trans hwaited (hR.records _ _)
        | never => exact hwaited

end Work

namespace Surface

variable {σ α : Type} {R : World σ → World σ → Prop}

theorem keeps_reportAs (hR : World.Change R) {operation : String} {details : Fields}
    {x : Interaction σ α} (hx : x.Keeps R) : (reportAs operation details x).Keeps R := by
  refine hx.tryCatch hR fun f => ?_
  split
  · exact Interaction.keeps_throw hR _
  · exact Interaction.keeps_throw hR _
  · exact Interaction.keeps_throw hR _

theorem keeps_operation (hR : World.Change R) (s : Surface σ) (name : String) (details : Fields)
    {c : Call} (hc : c.manages = false) : (s.operation name details c).Keeps R := by
  intro w
  obtain ⟨hbegin, hfinish⟩ := Work.keeps_call hR s.page (hR.call · c hc) w
  exact ⟨hbegin, keeps_reportAs hR hfinish⟩

theorem keeps_perform (hR : World.Change R) (s : Surface σ) (name : String) (details : Fields)
    {c : Call} (hc : c.manages = false) : (s.perform name details c).Keeps R :=
  (s.keeps_operation hR name details hc).await hR

theorem keeps_queryOne (hR : World.Change R) (s : Surface σ) (selector : String) :
    (s.queryOne selector).Keeps R := by
  have hcall := Work.keeps_call hR s.page (hR.call · (.waitForSelector selector s.timeouts.action) rfl)
  refine ((hcall.await hR).tryCatch hR fun f => ?_).bind hR fun found => ?_
  · split
    · exact Interaction.keeps_throw hR _
    · split
      · exact Interaction.keeps_throw hR _
      · exact Interaction.keeps_throw hR _
    · exact Interaction.keeps_throw hR _
  · split
    · exact Interaction.keeps_pure hR _
    · exact Interaction.keeps_throw hR _

theorem keeps_gesture (hR : World.Change R) (s : Surface σ) (h : Handle) (g : Gesture) :
    (s.gesture h g).Keeps R := by
  cases g with
  | blur => exact (s.keeps_perform hR _ _ rfl).map hR
  | clear => exact (s.keeps_perform hR _ _ rfl).bind hR fun _ => s.keeps_perform hR _ _ rfl
  | _ => exact s.keeps_perform hR _ _ rfl

theorem keeps_carryOut (hR : World.Change R) (s : Surface σ) (task : Task) :
    (s.carryOut task).Keeps R := by
  cases task with
  | queryOne selector => exact s.keeps_queryOne hR selector
  | inspect h inspection =>
      cases inspection with
      | html | text | visible => exact s.keeps_perform hR _ _ rfl
  | gesture h g => exact s.keeps_gesture hR h g
  | _ => exact s.keeps_perform hR _ _ rfl

theorem keeps_work (hR : World.Change R) (s : Surface σ) (awaited : Awaited) :
    (s.work awaited).Keeps R := by
  cases awaited with
  | pause seconds => exact Work.keeps_sleep hR seconds
  | page state => exact s.keeps_operation hR _ _ rfl
  | element h state => exact s.keeps_operation hR _ _ rfl

end Surface

/-- Nothing that is done with a page touches the store. -/
theorem World.change_store {σ : Type} : Change fun w w' : World σ => w'.store = w.store where
  refl _ := rfl
  trans hfirst hsecond := hsecond.trans hfirst
  page _ _ := rfl
  records _ _ := rfl
  call _ _ _ := rfl
  pass hpasses := by
    obtain ⟨_, _, _, _, _, rfl⟩ := hpasses.rest
    rfl

end Pagescript
