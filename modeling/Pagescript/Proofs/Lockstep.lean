import Pagescript.Proofs.Clock
import Pagescript.Proofs.Waiting
/-!
# Interactions with limits and without

Whatever is done with a page looks at the token only where it races with it.  So an interaction that
is awaited to its end comes to the same with limits and without, and a race does so unless a limit has
come as it begins, or comes before it would end.
-/

namespace Pagescript

open Binary64

variable {σ α β : Type} {limits : Limits} {w w' : World σ}

/-- With limits and without, a computation comes to the same. -/
structure World.InStep {σ ε α : Type} (limits : Limits) (x : ExceptT ε (StateM (World σ)) α)
    (w : World σ) : Prop where
  same : x w.unlimited = ((x w).1, (x w).2.unlimited)
  limited : (x w).2.Limited limits

namespace World.InStep

variable {ε : Type} {x : ExceptT ε (StateM (World σ)) α}

theorem of_eq {result : Except ε α} (hx : x w = (result, w'))
    (hfree : x w.unlimited = (result, w'.unlimited)) (hw' : w'.Limited limits) :
    InStep limits x w := by
  constructor
  · rw [hx]
    exact hfree
  · rw [hx]
    exact hw'

theorem bind {f : α → ExceptT ε (StateM (World σ)) β} (hx : InStep limits x w)
    (hf : ∀ v w', x w = (.ok v, w') → w'.Limited limits → InStep limits (f v) w') :
    InStep limits (x >>= f) w := by
  obtain ⟨hsame, hlimited⟩ := hx
  cases hresult : x w with
  | mk result w' =>
      rw [hresult] at hsame hlimited
      cases result with
      | ok v =>
          obtain ⟨hsame', hlimited'⟩ := hf v w' hresult hlimited
          refine of_eq (Fallible.bind_of_ok hresult) ?_ hlimited'
          rw [Fallible.bind_of_ok hsame]
          exact hsame'
      | error s =>
          exact of_eq (Fallible.bind_of_error hresult) (Fallible.bind_of_error hsame) hlimited

theorem tryCatch {f : ε → ExceptT ε (StateM (World σ)) α} (hx : InStep limits x w)
    (hf : ∀ s w', x w = (.error s, w') → w'.Limited limits → InStep limits (f s) w') :
    InStep limits (tryCatch x f) w := by
  obtain ⟨hsame, hlimited⟩ := hx
  cases hresult : x w with
  | mk result w' =>
      rw [hresult] at hsame hlimited
      cases result with
      | ok v =>
          exact of_eq (Fallible.tryCatch_of_ok hresult) (Fallible.tryCatch_of_ok hsame) hlimited
      | error s =>
          obtain ⟨hsame', hlimited'⟩ := hf s w' hresult hlimited
          refine of_eq (Fallible.tryCatch_of_error hresult) ?_ hlimited'
          rw [Fallible.tryCatch_of_error hsame]
          exact hsame'

end World.InStep

open World

theorem Binary64.NoLater.le_of_le {c x y : Binary64} (hxy : x.NoLater y) (hc : c.le x = true) :
    c.le y = true := by
  obtain rfl | hlt := hxy
  · exact hc
  · exact le_of_lt (lt_of_le_of_lt hc hlt)

theorem World.change_now : Change fun w w' : World σ => w.now.NoLater w'.now where
  refl _ := .inl rfl
  trans := .trans
  page _ _ := .inl rfl
  records _ _ := .inl rfl
  call _ _ _ := .inl rfl
  pass := Passes.now

/-! ### What is done with the page alone -/

namespace Interaction

variable {x : Interaction σ α}

/-- The interaction looks at the page alone, and changes nothing else. -/
def OnPage (x : Interaction σ α) : Prop :=
  ∀ w w' : World σ, w'.page = w.page → x w' = ((x w).1, { w' with page := (x w).2.page })

theorem onPage_pure (v : α) : OnPage (pure v : Interaction σ α) := by
  intro w w' hpage
  rw [show (pure v : Interaction σ α) w = (.ok v, w) from rfl, ← hpage]
  rfl

theorem onPage_throw (f : Fault) : OnPage (throw f : Interaction σ α) := by
  intro w w' hpage
  rw [show (throw f : Interaction σ α) w = (.error f, w) from rfl, ← hpage]
  rfl

theorem OnPage.bind {f : α → Interaction σ β} (hx : x.OnPage) (hf : ∀ v, (f v).OnPage) :
    OnPage (x >>= f) := by
  intro w w' hpage
  have hsame := hx w w' hpage
  cases hresult : x w with
  | mk result w₁ =>
      rw [hresult] at hsame
      cases result with
      | ok v =>
          rw [Fallible.bind_of_ok hsame, Fallible.bind_of_ok hresult]
          exact hf v w₁ _ rfl
      | error s => rw [Fallible.bind_of_error hsame, Fallible.bind_of_error hresult]

theorem OnPage.map (f : α → β) (hx : x.OnPage) : OnPage (f <$> x) := by
  rw [map_eq_pure_bind]
  exact hx.bind fun v => onPage_pure (f v)

theorem OnPage.tryCatch {f : Fault → Interaction σ α} (hx : x.OnPage) (hf : ∀ s, (f s).OnPage) :
    OnPage (tryCatch x f) := by
  intro w w' hpage
  have hsame := hx w w' hpage
  cases hresult : x w with
  | mk result w₁ =>
      rw [hresult] at hsame
      cases result with
      | ok v => rw [Fallible.tryCatch_of_ok hsame, Fallible.tryCatch_of_ok hresult]
      | error s =>
          rw [Fallible.tryCatch_of_error hsame, Fallible.tryCatch_of_error hresult]
          exact hf s w₁ _ rfl

theorem OnPage.world_eq (hx : x.OnPage) (w : World σ) :
    (x w).2 = { w with page := (x w).2.page } :=
  congrArg Prod.snd (hx w w rfl)

theorem OnPage.now_eq (hx : x.OnPage) (w : World σ) : (x w).2.now = w.now := by
  rw [hx.world_eq]

theorem OnPage.inStep (hx : x.OnPage) (hw : w.Limited limits) : InStep limits x w := by
  have hworld := hx.world_eq w
  constructor
  · rw [hx w w.unlimited rfl, hworld]
    rfl
  · rw [hworld]
    exact hw.of_eq rfl rfl rfl rfl

end Interaction

/-- The work looks at the page alone, and changes nothing else, except that it may record calls. -/
def Work.OnPage (work : Work σ α) : Prop :=
  ∀ w : World σ, (work w).1.finish.OnPage ∧ ∃ page calls, ∀ w' : World σ, w'.page = w.page →
    work w' = ((work w).1, { w' with page, calls := w'.calls ++ calls })

namespace Work

theorem onPage_sleep (seconds : Binary64) : OnPage (sleep seconds : Work σ Unit) := by
  intro w
  refine ⟨Interaction.onPage_pure (), w.page, [], fun w' hpage => ?_⟩
  rw [← hpage, List.append_nil]
  rfl

theorem onPage_call (page : Page σ) (c : Call) : OnPage (call page c) := by
  intro w
  refine ⟨?_, (page.start c w.page).2, [c], fun w' hpage => ?_⟩
  · simp only [call]
    split
    · exact Interaction.onPage_throw _
    · intro w₁ w₂ hpage
      simp only [act, hpage]
  · simp only [call, hpage]
    rfl

theorem OnPage.unlimited {work : Work σ α} (hwork : work.OnPage) (w : World σ) :
    work w.unlimited = ((work w).1, (work w).2.unlimited) := by
  obtain ⟨-, page, calls, heq⟩ := hwork w
  rw [heq w.unlimited rfl, heq w rfl]
  rfl

theorem OnPage.limited {work : Work σ α} (hwork : work.OnPage) (hw : w.Limited limits) :
    (work w).2.Limited limits := by
  obtain ⟨-, page, calls, heq⟩ := hwork w
  rw [heq w rfl]
  exact hw.of_eq rfl rfl rfl rfl

theorem OnPage.now_eq {work : Work σ α} (hwork : work.OnPage) (w : World σ) :
    (work w).2.now = w.now := by
  obtain ⟨-, page, calls, heq⟩ := hwork w
  rw [heq w rfl]

theorem OnPage.store_eq {work : Work σ α} (hwork : work.OnPage) (w : World σ) :
    (work w).2.store = w.store := by
  obtain ⟨-, page, calls, heq⟩ := hwork w
  rw [heq w rfl]

theorem OnPage.token_eq {work : Work σ α} (hwork : work.OnPage) (w : World σ) :
    (work w).2.token = w.token := by
  obtain ⟨-, page, calls, heq⟩ := hwork w
  rw [heq w rfl]

end Work

/-! ### Waits to the end -/

namespace Interaction

variable {x : Interaction σ α} {work : Work σ α}

/-- The interaction comes to the same with limits and without, if a cancellation cannot be taken to
come at the time at which it ends. -/
def Steady (x : Interaction σ α) : Prop :=
  ∀ (limits : Limits) (w : World σ), w.Limited limits →
    (∀ c ∈ limits.cancelAt, c.le w.now = true ∨ Apart c (x w.unlimited).2.now) → InStep limits x w

theorem Steady.bind {f : α → Interaction σ β} (hx : x.Steady) (hf : ∀ v, (f v).OnPage) :
    Steady (x >>= f) := by
  intro limits w hw hapart
  have hnow : ((x >>= f) w.unlimited).2.now = (x w.unlimited).2.now := by
    cases hresult : x w.unlimited with
    | mk result w₁ =>
        cases result with
        | ok v =>
            rw [Fallible.bind_of_ok hresult]
            exact (hf v).now_eq w₁
        | error s => rw [Fallible.bind_of_error hresult]
  rw [hnow] at hapart
  exact (hx limits w hw hapart).bind fun v w' _ hw' => (hf v).inStep hw'

theorem Steady.tryCatch {f : Fault → Interaction σ α} (hx : x.Steady) (hf : ∀ s, (f s).OnPage) :
    Steady (tryCatch x f) := by
  intro limits w hw hapart
  have hnow : (MonadExcept.tryCatch x f w.unlimited).2.now = (x w.unlimited).2.now := by
    cases hresult : x w.unlimited with
    | mk result w₁ =>
        cases result with
        | ok v => rw [Fallible.tryCatch_of_ok hresult]
        | error s =>
            rw [Fallible.tryCatch_of_error hresult]
            exact (hf s).now_eq w₁
  rw [hnow] at hapart
  exact (hx limits w hw hapart).tryCatch fun s w' _ hw' => (hf s).inStep hw'

section Await

variable {seconds : Binary64}

theorem await_of_none (hdelay : (work w).1.delay = .none) :
    await work w = (work w).1.finish (work w).2 := by
  have hbegun : begin work w = (.ok (work w).1, (work w).2) := rfl
  rw [await, Fallible.bind_of_ok hbegun, hdelay]

theorem await_of_after (hdelay : (work w).1.delay = .after seconds) :
    await work w = (work w).1.finish ((work w).2.sleep seconds) := by
  have hbegun : begin work w = (.ok (work w).1, (work w).2) := rfl
  rw [await, Fallible.bind_of_ok hbegun, hdelay]
  rfl

theorem await_of_never (hdelay : (work w).1.delay = .never) :
    await work w = (.error .hung, (work w).2) := by
  have hbegun : begin work w = (.ok (work w).1, (work w).2) := rfl
  rw [await, Fallible.bind_of_ok hbegun, hdelay]
  rfl

theorem steady_await (hwork : work.OnPage) : Steady (await work) := by
  intro limits w hw hapart
  have hfree := hwork.unlimited w
  have hpending : (work w.unlimited).1 = (work w).1 := by rw [hfree]
  have hbegun : (work w.unlimited).2 = (work w).2.unlimited := by rw [hfree]
  have hlimited := hwork.limited hw
  have hfinish := (hwork w).1
  cases hdelay : (work w).1.delay with
  | none =>
      obtain ⟨hsame, hlimited'⟩ := hfinish.inStep hlimited
      refine .of_eq (await_of_none hdelay) ?_ hlimited'
      rw [await_of_none (by rw [hpending, hdelay]), hpending, hbegun]
      exact hsame
  | after seconds =>
      have hfree' : await work w.unlimited =
          (work w).1.finish ((work w).2.unlimited.sleep seconds) := by
        rw [await_of_after (by rw [hpending, hdelay]), hpending, hbegun]
      have hapart' : ∀ c ∈ limits.cancelAt, c.le (work w).2.now = true ∨
          Apart c ((work w).2.unlimited.sleep seconds).now := by
        rw [hwork.now_eq]
        rw [hfree', hfinish.now_eq] at hapart
        exact hapart
      obtain ⟨hslept, hlimited'⟩ := hlimited.sleep seconds hapart'
      obtain ⟨hsame, hlimited''⟩ := hfinish.inStep hlimited'
      refine .of_eq (await_of_after hdelay) ?_ hlimited''
      rw [hfree', ← hslept]
      exact hsame
  | never =>
      refine .of_eq (await_of_never hdelay) ?_ hlimited
      rw [await_of_never (by rw [hpending, hdelay]), hbegun]

end Await

end Interaction

/-! ### Tasks -/

namespace Surface

open Interaction

theorem onPage_operation (s : Surface σ) (name : String) (details : Fields) (c : Call) :
    (s.operation name details c).OnPage := by
  intro w
  obtain ⟨hfinish, hbegin⟩ := Work.onPage_call s.page c w
  constructor
  · refine hfinish.tryCatch fun f => ?_
    split
    · exact onPage_throw _
    · exact onPage_throw _
    · exact onPage_throw _
  · obtain ⟨page, calls, heq⟩ := hbegin
    refine ⟨page, calls, fun w' hpage => ?_⟩
    simp only [operation, Work.mapFinish, heq w' hpage]

theorem onPage_work (s : Surface σ) (awaited : Awaited) : (s.work awaited).OnPage := by
  cases awaited with
  | pause seconds => exact Work.onPage_sleep seconds
  | page state => exact s.onPage_operation _ _ _
  | element h state => exact s.onPage_operation _ _ _

theorem steady_perform (s : Surface σ) (name : String) (details : Fields) (c : Call) :
    (s.perform name details c).Steady :=
  steady_await (s.onPage_operation name details c)

theorem steady_queryOne (s : Surface σ) (selector : String) : (s.queryOne selector).Steady := by
  have hcall := Work.onPage_call s.page (.waitForSelector selector s.timeouts.action)
  refine ((steady_await hcall).tryCatch fun f => ?_).bind fun found => ?_
  · split
    · exact onPage_throw _
    · split
      · exact onPage_throw _
      · exact onPage_throw _
    · exact onPage_throw _
  · split
    · exact onPage_pure _
    · exact onPage_throw _

/-- The times at which the calls of a task end. -/
def instants (s : Surface σ) (task : Task) (w : World σ) : List Binary64 :=
  match task with
  | .gesture h .clear => [(s.selectAll h w).2.now, (s.carryOut task w).2.now]
  | task => [(s.carryOut task w).2.now]

/-- Whatever task is carried out, no limit disturbs it. -/
theorem inStep_carryOut (s : Surface σ) (task : Task) (hw : w.Limited limits)
    (hapart : ∀ c ∈ limits.cancelAt,
      c.le w.now = true ∨ ∀ t ∈ s.instants task w.unlimited, Apart c t) :
    InStep limits (s.carryOut task) w := by
  have hsteady (hx : (s.carryOut task).Steady)
      (hmem : (s.carryOut task w.unlimited).2.now ∈ s.instants task w.unlimited) :
      InStep limits (s.carryOut task) w :=
    hx limits w hw fun c hc => (hapart c hc).imp_right fun h => h _ hmem
  cases task with
  | queryOne selector => exact hsteady (s.steady_queryOne selector) List.mem_cons_self
  | inspect h inspection =>
      cases inspection with
      | html | text | visible => exact hsteady (s.steady_perform _ _ _) List.mem_cons_self
  | gesture h g =>
      cases g with
      | blur =>
          refine hsteady ?_ List.mem_cons_self
          exact (s.steady_perform _ _ _).bind fun _ => onPage_pure ()
      | clear =>
          -- between the two calls there may be time for a cancellation
          have hfirst : InStep limits (s.selectAll h) w :=
            s.steady_perform _ _ _ limits w hw fun c hc =>
              (hapart c hc).imp_right fun h => h _ List.mem_cons_self
          refine hfirst.bind fun v w' hresult hw' => ?_
          refine s.steady_perform _ _ _ limits w' hw' fun c hc => ?_
          have hsame := hfirst.same
          rw [hresult] at hsame
          have hend : s.carryOut (.gesture h .clear) w.unlimited = s.input h "" w'.unlimited :=
            Fallible.bind_of_ok hsame
          obtain hpassed | hcomes := hapart c hc
          · have hlater := s.keeps_perform change_now "select_all_text" []
              (c := .element h (.selectText s.timeouts.action)) rfl w
            change w.now.NoLater (s.selectAll h w).2.now at hlater
            rw [hresult] at hlater
            exact .inl (hlater.le_of_le hpassed)
          · right
            have hlast := hcomes _ (List.mem_cons_of_mem _ (List.mem_singleton_self _))
            rw [hend] at hlast
            exact hlast
      | _ => exact hsteady (s.steady_perform _ _ _) List.mem_cons_self
  | _ => exact hsteady (s.steady_perform _ _ _) List.mem_cons_self

end Surface

/-! ### Races with the token -/

namespace Interaction

variable {work : Work σ α}

/-- How the wait for a piece of work ends once it has begun, and in which world. -/
def waiting (work : Work σ α) (w : World σ) : World.Ending × World σ :=
  (work w).2.outlast (work w).1.delay

section Race

variable (hreason : w.token.reason? w.now = none) (hringing : w.ringing = false)

include hreason hringing

theorem race_of_finished (hending : (waiting work w).1 = .finished) :
    race work w =
      (Except.ok <$> (work w).1.finish) ((waiting work w).2.endWait .finished) := by
  have hring : w.ring = w := by
    rw [ring, hringing]
    rfl
  unfold waiting at hending ⊢
  rw [race_apply, hreason]
  simp only [hring, hending]

theorem race_of_stopped (hending : (waiting work w).1 = .stopped) :
    ∃ records, race work w =
      (.ok (.error (if (waiting work w).2.token.cancelled then .cancelled else .timeout)),
        { (waiting work w).2.endWait .stopped with records }) := by
  have hring : w.ring = w := by
    rw [ring, hringing]
    rfl
  unfold waiting at hending ⊢
  rw [race_apply, hreason]
  simp only [hring, hending]
  exact ⟨_, rfl⟩

theorem race_of_never (hending : (waiting work w).1 = .never) :
    race work w = (.error .hung, (waiting work w).2.endWait .never) := by
  have hring : w.ring = w := by
    rw [ring, hringing]
    rfl
  unfold waiting at hending ⊢
  rw [race_apply, hreason]
  simp only [hring, hending]
  rfl

theorem keeps_race_begun {R : World σ → World σ → Prop} (hR : World.Change R)
    (hwork : work.Keeps R) : R (work w).2 (race work w).2 := by
  have hwaited (ending : Ending) : R (work w).2 ((waiting work w).2.endWait ending) :=
    hR.pass ((passes_outlast _ _).trans (passes_endWait _ ending))
  cases hending : (waiting work w).1 with
  | finished =>
      rw [race_of_finished hreason hringing hending]
      exact hR.trans (hwaited _) ((hwork w).2.map hR _)
  | stopped =>
      obtain ⟨records, heq⟩ := race_of_stopped hreason hringing hending
      rw [heq]
      exact hR.trans (hwaited _) (hR.records _ records)
  | never =>
      rw [race_of_never hreason hringing hending]
      exact hwaited _

end Race

/-- A limit cuts off a wait for a piece of work, as it would go on without limits.  Either it has
come as the wait would begin, and then the work is not begun at all, or it comes before the wait
would end.  The wait is over at the time given, and by then the calls given have been made. -/
inductive Cuts (limits : Limits) (work : Work σ α) (w : World σ) : Binary64 → List Call → Prop where
  | late (hpassed : limits.passed w.now = true) : Cuts limits work w w.now w.calls
  | short {t : Binary64} (hpassed : limits.passed w.now = false)
    (hfirst : limits.firstStop? w.now = some t)
    (hunfinished : (waiting work w).1 = .never ∨ t.lt (waiting work w).2.now = true) :
    Cuts limits work w t (work w).2.calls

theorem Cuts.firstStop?_eq {t : Binary64} {calls : List Call} (hcuts : Cuts limits work w t calls)
    (hpassed : limits.passed w.now = false) : limits.firstStop? w.now = some t := by
  cases hcuts with
  | late hlate =>
      rw [hpassed] at hlate
      cases hlate
  | short _ hfirst _ => exact hfirst

/-- If a wait is begun the clock can tell the limits from the times at which it begins and ends. -/
def Spaced (limits : Limits) (work : Work σ α) (w : World σ) : Prop :=
  limits.passed w.now = true ∨
    limits.Clear w.now ∧ ∀ t ∈ limits.stops w.now, Apart t (waiting work w).2.now

instance (limits : Limits) (work : Work σ α) (w : World σ) : Decidable (Spaced limits work w) :=
  inferInstanceAs (Decidable (_ ∨ _ ∧ _))

theorem waiting_unlimited (hwork : work.OnPage) (w : World σ) :
    waiting work w.unlimited = (work w).2.unlimited.outlast (work w).1.delay := by
  rw [waiting, hwork.unlimited]

theorem ok_map_ne_error (x : Interaction σ α) (w : World σ) (reason : Interruption) :
    ((Except.ok <$> x : Interaction σ (Except Interruption α)) w).1 ≠ .ok (.error reason) := by
  rw [map_eq_pure_bind]
  cases hx : x w with
  | mk result w' =>
      cases result with
      | ok v =>
          rw [Fallible.bind_of_ok hx]
          intro h
          cases h
      | error f =>
          rw [Fallible.bind_of_error hx]
          intro h
          cases h

theorem inStep_race_of_undisturbed (hwork : work.OnPage) (hw : w.Limited limits)
    (hreason : w.token.reason? w.now = none)
    (hundisturbed : Undisturbed limits (work w).2 (waiting work w) (waiting work w.unlimited)) :
    InStep limits (race work) w ∧ ∀ reason, (race work w).1 ≠ .ok (.error reason) := by
  have hfree : w.unlimited.token.reason? w.unlimited.now = none := rfl
  obtain ⟨hlimited, hunlimited⟩ :=
    hundisturbed.limited.endWait_eq hundisturbed.active (waiting work w).1
  rw [hundisturbed.world] at hunlimited
  cases hending : (waiting work w).1 with
  | stopped => exact absurd hending hundisturbed.ends
  | finished =>
      rw [hending] at hlimited hunlimited
      have hrace := race_of_finished hreason hw.ringing hending
      have hraceFree := race_of_finished hfree rfl (hundisturbed.ending.symm.trans hending)
      have hpending : (work w.unlimited).1 = (work w).1 := by rw [hwork.unlimited]
      obtain ⟨hsame, hlimited'⟩ := ((hwork w).1.map Except.ok).inStep hlimited
      rw [hunlimited] at hsame
      refine ⟨.of_eq hrace ?_ hlimited', ?_⟩
      · rw [hraceFree, hpending]
        exact hsame
      · rw [hrace]
        exact ok_map_ne_error _ _
  | never =>
      rw [hending] at hlimited hunlimited
      have hrace := race_of_never hreason hw.ringing hending
      have hraceFree := race_of_never hfree rfl (hundisturbed.ending.symm.trans hending)
      refine ⟨.of_eq hrace ?_ hlimited, ?_⟩
      · rw [hraceFree, hunlimited]
      · rw [hrace]
        intro reason h
        cases h

/-- A race comes to the same with limits and without, or it is cut off. -/
theorem race_cases (hlimits : ∀ now, limits.stops now ≠ []) (hwork : work.OnPage)
    (hw : w.Limited limits) (hspaced : Spaced limits work w.unlimited) :
    (InStep limits (race work) w ∧ (∀ reason, (race work w).1 ≠ .ok (.error reason)) ∧
        ∀ t calls, ¬ Cuts limits work w.unlimited t calls) ∨
      ∃ w', Cuts limits work w.unlimited w'.now w'.calls ∧
        race work w = (.ok (.error (limits.reason w'.now)), w') ∧ w'.store = w.store := by
  have hreason? := hw.reason?_eq
  cases hpassed : limits.passed w.now with
  | true =>
      rw [hpassed, if_pos rfl] at hreason?
      exact .inr ⟨w, .late hpassed, race_of_reason hreason? work, rfl⟩
  | false =>
      rw [hpassed, if_neg Bool.false_ne_true] at hreason?
      have hpassed' : limits.passed w.unlimited.now = false := hpassed
      have hactive : (work w).2.token.cancelled = false := by
        rw [hwork.token_eq, hw.cancelled_eq]
        exact (Bool.or_eq_false_iff.1 hpassed).1
      obtain ⟨hclear, hapart⟩ := hspaced.resolve_left (by simp [hpassed'])
      rw [waiting_unlimited hwork] at hapart
      change limits.Clear w.now at hclear
      change ∀ t ∈ limits.stops w.now, _ at hapart
      rw [← hwork.now_eq w] at hclear hapart
      have hcases : Undisturbed limits (work w).2 (waiting work w) (waiting work w.unlimited) ∨
          ∃ t, Disturbed limits (work w).2 t (waiting work w) (waiting work w.unlimited) := by
        rw [waiting_unlimited hwork]
        exact (hwork.limited hw).outlast_cases hactive hclear (hlimits _) (work w).1.delay hapart
      obtain hundisturbed | ⟨t, hdisturbed⟩ := hcases
      · left
        obtain ⟨hstep, hanswer⟩ := inStep_race_of_undisturbed hwork hw hreason? hundisturbed
        refine ⟨hstep, hanswer, fun t calls hcuts => ?_⟩
        cases hcuts with
        | late hlate =>
            rw [hpassed'] at hlate
            cases hlate
        | short _ hfirst hunfinished =>
            change limits.firstStop? w.now = some t at hfirst
            rw [← hwork.now_eq w] at hfirst
            obtain ⟨hfinished, hnotLater⟩ := hundisturbed.before t hfirst
            rw [← hundisturbed.ending, ← hundisturbed.world, hfinished] at hunfinished
            obtain hnever | hlater := hunfinished
            · cases hnever
            · change t.lt (waiting work w).2.now = true at hlater
              rw [hnotLater] at hlater
              cases hlater
      · right
        obtain ⟨records, heq⟩ := race_of_stopped hreason? hw.ringing hdisturbed.stopped
        have hnow := hdisturbed.now
        have hreason : limits.reason (waiting work w).2.now =
            if (waiting work w).2.token.cancelled then .cancelled else .timeout := by
          rw [hnow, hdisturbed.cancelled, Limits.reason]
        obtain ⟨hcalls, hstore⟩ : (waiting work w).2.calls = (work w.unlimited).2.calls ∧
            (waiting work w).2.store = w.store := by
          obtain ⟨_, _, _, _, _, hrest⟩ := hdisturbed.passes.rest
          rw [hrest, hwork.unlimited, ← hwork.store_eq w]
          exact ⟨rfl, rfl⟩
        refine ⟨{ (waiting work w).2.endWait .stopped with records }, ?_, ?_, hstore⟩
        · change Cuts limits work w.unlimited (waiting work w).2.now (waiting work w).2.calls
          rw [hnow, hcalls]
          refine .short hpassed' ?_ hdisturbed.outlasts
          rw [← hdisturbed.firstStop, hwork.now_eq]
          rfl
        · rw [heq, ← hreason]
          rfl

end Interaction

end Pagescript
