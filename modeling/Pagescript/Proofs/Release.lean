import Pagescript.Proofs.Lifecycle
/-!
# Giving back what was opened

A surface that holds a context, a browser and a driver may be closed any number of times, and any of
the calls this makes may fail.  What it holds it gives up all at once, as soon as the driver stops
without failure, and from then on there is nothing left to do.  The context is closed and the driver
is stopped on every attempt, but the browser only where the context has closed before it.  So if the
context never does, the browser is given up without having been closed.
-/

namespace Pagescript

/-- What is done with a page neither opens nor gives back anything. -/
theorem World.change_resources {σ : Type} :
    Change fun w w' : World σ => w'.resources = w.resources where
  refl _ := rfl
  trans hfirst hsecond := hsecond.trans hfirst
  page _ _ := rfl
  records _ _ := rfl
  call _ _ _ := rfl
  pass hpasses := by
    obtain ⟨_, _, _, _, _, rfl⟩ := hpasses.rest
    rfl

namespace Surface

variable {σ : Type} {page : Page σ} {w : World σ}

/-! ### One attempt -/

/-- Whether the context closes without failure. -/
def contextCloses (page : Page σ) (w : World σ) : Bool :=
  (plainly page .closeContext w).1.isOk

/-- The calls that are made to close a surface that holds everything. -/
def attempt (page : Page σ) (w : World σ) : List Call :=
  .closeContext :: if contextCloses page w then [.closeBrowser, .stopDriver] else [.stopDriver]

/-- The world in which the driver is stopped. -/
def beforeStop (page : Page σ) (w : World σ) : World σ :=
  match plainly page .closeContext w with
  | (.ok (), w') => (plainly page .closeBrowser w').2
  | (.error _, w') => w'

theorem stopDriver_mem_attempt (page : Page σ) (w : World σ) : .stopDriver ∈ attempt page w := by
  unfold attempt
  cases contextCloses page w <;> simp

theorem closeBrowser_mem_attempt_iff :
    .closeBrowser ∈ attempt page w ↔ contextCloses page w = true := by
  unfold attempt
  cases contextCloses page w <;> simp

theorem beforeStop_of_ok {w₁ : World σ} (hcontext : plainly page .closeContext w = (.ok (), w₁)) :
    beforeStop page w = (plainly page .closeBrowser w₁).2 := by
  rw [beforeStop, hcontext]

theorem beforeStop_of_error {f : Fault} {w₁ : World σ}
    (hcontext : plainly page .closeContext w = (.error f, w₁)) : beforeStop page w = w₁ := by
  rw [beforeStop, hcontext]

theorem resources_plainly (page : Page σ) (c : Call) (w : World σ) :
    (plainly page c w).2.resources = w.resources :=
  keeps_plainly World.change_resources page (fun _ => rfl) w

theorem resources_beforeStop (page : Page σ) (w : World σ) :
    (beforeStop page w).resources = w.resources := by
  have hcontext := resources_plainly page .closeContext w
  unfold beforeStop
  split
  next w' hclosed =>
    rw [hclosed] at hcontext
    rw [resources_plainly, hcontext]
  next hfailed =>
    rw [hfailed] at hcontext
    exact hcontext

theorem calls_beforeStop (page : Page σ) (w : World σ) :
    (beforeStop page w).calls ++ [.stopDriver] = w.calls ++ attempt page w := by
  have hcontext := calls_plainly page .closeContext w
  unfold beforeStop attempt contextCloses
  split
  next w' hclosed =>
    rw [hclosed] at hcontext
    rw [calls_plainly, hcontext, hclosed]
    simp [Except.isOk, Except.toBool]
  next hfailed =>
    rw [hfailed] at hcontext
    rw [hcontext, hfailed]
    simp [Except.isOk, Except.toBool]

/-- A failure to close the context or the browser is kept for later. -/
theorem exists_caught (page : Page σ) (w : World σ) :
    ∃ result : Except Fault Unit, (tryCatch
      (do
        plainly page .closeContext
        plainly page .closeBrowser
        return .ok ())
      fun fault => return .error fault : Interaction σ (Except Fault Unit)) w =
        (.ok result, beforeStop page w) := by
  cases hcontext : plainly page .closeContext w with
  | mk result w₁ =>
      cases result with
      | error f =>
          rw [beforeStop_of_error hcontext]
          exact ⟨_, Fallible.tryCatch_of_error (Fallible.bind_of_error hcontext)⟩
      | ok =>
          have hsecond := Fallible.bind_of_ok (f := fun _ => plainly page .closeBrowser >>=
            fun _ => pure (Except.ok () : Except Fault Unit)) hcontext
          rw [beforeStop_of_ok hcontext]
          cases hbrowser : plainly page .closeBrowser w₁ with
          | mk result w₂ =>
              cases result with
              | error f =>
                  rw [Fallible.bind_of_error hbrowser] at hsecond
                  exact ⟨_, Fallible.tryCatch_of_error hsecond⟩
              | ok =>
                  rw [Fallible.bind_of_ok hbrowser] at hsecond
                  exact ⟨_, Fallible.tryCatch_of_ok hsecond⟩

/-- Whatever fails before, the driver is stopped, and if that succeeds everything is given up. -/
theorem close_of_held (hheld : w.resources = ⟨true, true, true⟩) :
    (close page w).2 =
      match plainly page .stopDriver (beforeStop page w) with
      | (.ok (), w') => { w' with resources := {} }
      | (.error _, w') => w' := by
  have hget : (get : Interaction σ (World σ)) w = (.ok w, w) := rfl
  obtain ⟨result, hcaught⟩ := exists_caught page w
  rw [close, Fallible.bind_of_ok hget]
  simp only [hheld, if_true]
  rw [Fallible.bind_of_ok hcaught]
  cases hstop : plainly page .stopDriver (beforeStop page w) with
  | mk stopped w₂ =>
      cases stopped with
      | error f => rw [Fallible.bind_of_error hstop]
      | ok =>
          rw [Fallible.bind_of_ok hstop]
          cases result <;> rfl

theorem calls_close_of_held (hheld : w.resources = ⟨true, true, true⟩) :
    (close page w).2.calls = w.calls ++ attempt page w := by
  have hcalls := calls_plainly page .stopDriver (beforeStop page w)
  rw [calls_beforeStop] at hcalls
  rw [close_of_held hheld]
  split
  next w' hstop =>
    rw [hstop] at hcalls
    exact hcalls
  next w' hstop =>
    rw [hstop] at hcalls
    exact hcalls

theorem resources_close_of_held (hheld : w.resources = ⟨true, true, true⟩) :
    (close page w).2.resources = ⟨true, true, true⟩ ∨ (close page w).2.resources = {} := by
  have hresources := resources_plainly page .stopDriver (beforeStop page w)
  rw [resources_beforeStop, hheld] at hresources
  rw [close_of_held hheld]
  split
  · exact .inr rfl
  next w' hstop =>
    rw [hstop] at hresources
    exact .inl hresources

/-- With nothing left to give back, closing does nothing at all. -/
theorem close_of_given_up (hgiven : w.resources = {}) : close page w = (.ok (), w) := by
  have hget : (get : Interaction σ (World σ)) w = (.ok w, w) := rfl
  have hsame : { w with resources := {} } = w := by
    rw [← hgiven]
  rw [close, Fallible.bind_of_ok hget]
  simp only [hgiven]
  change (Except.ok (), { w with resources := {} }) = _
  rw [hsame]

/-! ### Many attempts -/

/-- The world after the surface has been closed some times. -/
def afterClosing (page : Page σ) (w : World σ) : Nat → World σ
  | 0 => w
  | n + 1 => (close page (afterClosing page w n)).2

theorem afterClosing_add (page : Page σ) (w : World σ) (n m : Nat) :
    afterClosing page w (n + m) = afterClosing page (afterClosing page w n) m := by
  induction m with
  | zero => rfl
  | succ m ih => rw [← Nat.add_assoc, afterClosing, ih, afterClosing]

theorem afterClosing_of_given_up (hgiven : w.resources = {}) (n : Nat) :
    afterClosing page w n = w := by
  induction n with
  | zero => rfl
  | succ n ih => rw [afterClosing, ih, close_of_given_up hgiven]

/-- Everything is held until everything is given up. -/
theorem resources_afterClosing (page : Page σ) (hheld : w.resources = ⟨true, true, true⟩) (n : Nat) :
    (afterClosing page w n).resources = ⟨true, true, true⟩ ∨
      (afterClosing page w n).resources = {} := by
  induction n with
  | zero => exact .inl hheld
  | succ n ih =>
      obtain hstill | hgiven := ih
      · exact resources_close_of_held hstill
      · rw [afterClosing, close_of_given_up hgiven]
        exact .inr hgiven

/-- The calls of all attempts up to the one that gives everything up. -/
theorem calls_afterClosing (hheld : w.resources = ⟨true, true, true⟩) (n : Nat) :
    (afterClosing page w n).calls = w.calls ++ (List.range n).flatMap fun i =>
      if (afterClosing page w i).resources.driver then attempt page (afterClosing page w i)
      else [] := by
  induction n with
  | zero => simp [afterClosing]
  | succ n ih =>
      rw [List.range_succ, List.flatMap_append, ← List.append_assoc, ← ih, afterClosing]
      obtain hstill | hgiven := resources_afterClosing page hheld n
      · simp [calls_close_of_held hstill, hstill]
      · simp [close_of_given_up hgiven, hgiven]

/-- What has been called when everything is given up.

However the calls fail, by the time that nothing is held any more the context has been closed and the
driver has been stopped at least once, and closing goes on to do nothing.  The browser has been closed
at least once exactly if the context closed without failure in one of the attempts. -/
theorem closed_when_given_up (page : Page σ) {w : World σ}
    (hheld : w.resources = ⟨true, true, true⟩) {n : Nat}
    (hgiven : (afterClosing page w n).resources = {}) :
    (∃ made, (afterClosing page w n).calls = w.calls ++ made ∧
        .closeContext ∈ made ∧ .stopDriver ∈ made ∧
        (.closeBrowser ∈ made ↔ ∃ i < n, (afterClosing page w i).resources = ⟨true, true, true⟩ ∧
          contextCloses page (afterClosing page w i) = true)) ∧
      ∀ m, close page (afterClosing page w (n + m)) = (.ok (), afterClosing page w n) := by
  have hn : 0 < n := by
    apply Nat.pos_of_ne_zero
    rintro rfl
    rw [afterClosing, hheld] at hgiven
    cases hgiven
  constructor
  · refine ⟨_, calls_afterClosing hheld n, ?_, ?_, ?_⟩
    · refine List.mem_flatMap.2 ⟨0, List.mem_range.2 hn, ?_⟩
      simp [afterClosing, hheld, attempt]
    · refine List.mem_flatMap.2 ⟨0, List.mem_range.2 hn, ?_⟩
      simpa [afterClosing, hheld] using stopDriver_mem_attempt page w
    · rw [List.mem_flatMap]
      simp only [List.mem_range]
      refine exists_congr fun i => and_congr_right fun _ => ?_
      obtain hstill | hnone := resources_afterClosing page hheld i
      · simp [hstill, closeBrowser_mem_attempt_iff]
      · simp [hnone]
  · intro m
    rw [afterClosing_add, afterClosing_of_given_up hgiven, close_of_given_up hgiven]

/-- A browser that has been opened on a page whose context does not close. -/
def launchedStuck : World Script :=
  (launch Script.page true none
    { page := ⟨[], [], [], [⟨.closeContext, none, .error "Target closed"⟩], []⟩ }).2

/-- One attempt is enough to give up a browser that has not been closed. -/
theorem closed_when_given_up_stuck :
    launchedStuck.resources = ⟨true, true, true⟩ ∧
      (afterClosing Script.page launchedStuck 1).resources = {} ∧
      .closeBrowser ∉ (afterClosing Script.page launchedStuck 1).calls := by
  obtain ⟨⟨made, hcalls, -, -, hbrowser⟩, -⟩ :=
    @closed_when_given_up _ Script.page launchedStuck rfl 1 rfl
  refine ⟨rfl, rfl, ?_⟩
  rw [hcalls, List.mem_append, hbrowser]
  rintro (hearlier | ⟨i, hi, -, hcloses⟩)
  · exact absurd hearlier (by decide)
  · obtain rfl : i = 0 := by omega
    cases hcloses

end Surface

end Pagescript
