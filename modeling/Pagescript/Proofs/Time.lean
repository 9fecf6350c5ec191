import Pagescript.World.Time
/-!
# The passing of time

Whatever waits can move the clock on and let alarms go off, which cancels the token.  It can do
nothing else to a world: the clock never goes back, a token that is cancelled stays so, and a deadline
that has come has come for good.
-/

namespace Pagescript

/-! ### The order of times -/

namespace Binary64

variable {x y z : Binary64}

theorem lt_trans (hxy : x.lt y = true) (hyz : y.lt z = true) : x.lt z = true := by
  cases x <;> cases y <;> cases z <;> simp_all [lt]
  all_goals grind

theorem roundSteps_pos {p : Nat} (hp : 0 < p) : 0 < roundSteps p 1 := by
  simp only [roundSteps, Nat.div_one, Nat.one_mul]
  generalize hgrain : Nat.pow 2 (p.log2 + 1 - 53) = grain
  have hgrain_pos : 0 < grain := hgrain ▸ Nat.pow_pos (by decide)
  have hgrain_le : grain ≤ p := by
    calc grain = 2 ^ (p.log2 + 1 - 53) := hgrain.symm
      _ ≤ 2 ^ p.log2 := Nat.pow_le_pow_right (by decide) (by omega)
      _ ≤ p := Nat.log2_self_le (by omega)
  have hquotient : 0 < p / grain := Nat.div_pos hgrain_le hgrain_pos
  have hround : p / grain ≤ roundDiv p grain := by
    simp only [roundDiv]
    grind
  exact Nat.mul_pos (by omega) hgrain_pos

theorem ofSteps_le_zero_iff {negative : Bool} {p : Nat} (hp : 0 < p) :
    (ofSteps negative p 1).le zero = true ↔ negative = true := by
  have hunits := roundSteps_pos hp
  simp only [ofSteps]
  split <;> cases negative <;> simp [le, lt, same, zero, signed] <;> omega

theorem sub_le_zero_iff {s t : Bool} {a b : Nat} :
    ((finite s a).sub (finite t b)).le zero = true ↔ signed s a ≤ signed t b := by
  have hneg : signed (!t) b = -signed t b := by
    cases t <;> simp [signed]
  simp only [sub, neg, add, hneg]
  split
  next hsum =>
    have hle : (finite (s && !t) 0).le zero = true := by
      cases s <;> cases t <;> decide
    simp only [hle, true_iff]
    omega
  next hsum =>
    rw [ofSteps_le_zero_iff (by omega), decide_eq_true_iff]
    omega

/-- A time that has come at some moment has come at every later one. -/
theorem sub_le_zero_of_lt (hx : (x.sub y).le zero = true) (hyz : y.lt z = true) :
    (x.sub z).le zero = true := by
  cases y with
  | nan => cases hyz
  | infinite t =>
      cases t with
      | false => cases z <;> simp [lt] at hyz
      | true =>
          cases x with
          | infinite s => cases s <;> simp [sub, neg, add, le, lt, same, zero] at hx
          | _ => simp [sub, neg, add, le, lt, same, zero] at hx
  | finite t b =>
      cases z with
      | nan => cases hyz
      | infinite u =>
          obtain rfl : u = false := by simpa [lt] using hyz
          cases x with
          | nan => simp [sub, add, le, lt, same] at hx
          | infinite s =>
              obtain rfl : s = true := by simpa [sub, neg, add, le, lt, same, zero] using hx
              rfl
          | finite s a => rfl
      | finite u c =>
          cases x with
          | nan => simp [sub, add, le, lt, same] at hx
          | infinite s => exact hx
          | finite s a =>
              rw [sub_le_zero_iff] at hx ⊢
              simp only [lt, decide_eq_true_iff] at hyz
              omega

end Binary64

/-- The second moment is not before the first. -/
def Binary64.NoLater (x y : Binary64) : Prop :=
  y = x ∨ x.lt y = true

namespace Binary64.NoLater

variable {x y z : Binary64}

theorem trans (hxy : NoLater x y) (hyz : NoLater y z) : NoLater x z := by
  obtain rfl | hxy := hxy
  · exact hyz
  · obtain rfl | hyz := hyz
    · exact .inr hxy
    · exact .inr (lt_trans hxy hyz)

theorem self_max (x y : Binary64) : NoLater x (x.max y) := by
  unfold Binary64.max
  split
  next hlt => exact .inr hlt
  · exact .inl rfl

end Binary64.NoLater

/-- A deadline that has passed has passed for good. -/
theorem Token.expired_of_noLater {token token' : Token} {now later : Binary64}
    (hdeadline : ∀ d, token.deadline = some d → token'.deadline = some d)
    (hlater : now.NoLater later) (hexpired : token.expired now = true) :
    token'.expired later = true := by
  unfold expired remaining at hexpired ⊢
  cases hd : token.deadline with
  | none =>
      rw [hd] at hexpired
      cases hexpired
  | some d =>
      rw [hd] at hexpired
      rw [hdeadline d hd]
      obtain rfl | hlt := hlater
      · exact hexpired
      · exact Binary64.sub_le_zero_of_lt hexpired hlt

/-! ### What waiting does -/

namespace World

variable {σ : Type}

/-- The token is not cancelled and no alarm is set. -/
structure Quiet (w : World σ) : Prop where
  alarms : w.alarms = []
  ringing : w.ringing = false
  cancelled : w.token.cancelled = false

/-- Between the two worlds nothing has happened but that time has passed, in which alarms may have
gone off. -/
structure Passes (w w' : World σ) : Prop where
  rest : ∃ now alarms ringing unsettled cancelled,
    w' = { w with now, alarms, ringing, unsettled, token := { w.token with cancelled } }
  cancelled : w.token.cancelled = true → w'.token.cancelled = true
  now : w.now.NoLater w'.now
  /-- Only an alarm cancels the token. -/
  quiet : w.Quiet → w'.Quiet

namespace Passes

variable {w w' w'' : World σ}

theorem refl (w : World σ) : Passes w w :=
  ⟨⟨_, _, _, _, _, rfl⟩, id, .inl rfl, id⟩

theorem trans (h : Passes w w') (h' : Passes w' w'') : Passes w w'' := by
  refine ⟨?_, fun hcancelled => h'.cancelled (h.cancelled hcancelled), h.now.trans h'.now,
    fun hquiet => h'.quiet (h.quiet hquiet)⟩
  obtain ⟨now, alarms, ringing, unsettled, cancelled, rfl⟩ := h.rest
  obtain ⟨now', alarms', ringing', unsettled', cancelled', rfl⟩ := h'.rest
  exact ⟨now', alarms', ringing', unsettled', cancelled', rfl⟩

theorem calls_eq (h : Passes w w') : w'.calls = w.calls := by
  obtain ⟨_, _, _, _, _, rfl⟩ := h.rest
  rfl

end Passes

theorem passes_moveTo (w : World σ) (time : Binary64) : w.Passes (w.moveTo time) :=
  ⟨⟨_, _, _, _, _, rfl⟩, id, .self_max w.now time, fun h => ⟨h.alarms, h.ringing, h.cancelled⟩⟩

theorem passes_ring (w : World σ) : w.Passes w.ring := by
  unfold ring
  split
  next hringing =>
    refine ⟨⟨_, _, _, _, _, rfl⟩, fun _ => rfl, .inl rfl, fun h => ?_⟩
    rw [h.ringing] at hringing
    cases hringing
  · exact .refl w

theorem passes_fireDue (w : World σ) : w.Passes w.fireDue := by
  simp only [fireDue]
  split
  · exact ⟨⟨_, _, _, _, _, rfl⟩, id, .inl rfl, fun h => ⟨by simp [h.alarms], h.ringing, h.cancelled⟩⟩
  next hdue =>
    refine ⟨⟨_, _, _, _, _, rfl⟩, fun _ => rfl, .inl rfl, fun h => ?_⟩
    simp [h.alarms] at hdue

theorem passes_unsettled (w : World σ) (unsettled : Bool) : w.Passes { w with unsettled } :=
  ⟨⟨_, _, _, _, _, rfl⟩, id, .inl rfl, fun h => ⟨h.alarms, h.ringing, h.cancelled⟩⟩

theorem passes_giveWay (w : World σ) : w.Passes w.giveWay := by
  refine w.passes_ring.trans ⟨⟨_, _, _, _, _, rfl⟩, id, .inl rfl, fun h => ?_⟩
  exact ⟨by simp [giveWay, h.alarms], by simp [giveWay, h.alarms], h.cancelled⟩

theorem passes_sleepUntil (time : Binary64) (steps : Nat) (w : World σ) :
    w.Passes (w.sleepUntil time steps) := by
  induction steps generalizing w with
  | zero => exact .refl w
  | succ steps ih =>
      have hfirst := (w.passes_moveTo (w.alarms.foldl Binary64.min time)).trans (passes_fireDue _)
      simp only [sleepUntil]
      split
      · exact hfirst
      · exact hfirst.trans (ih _)

theorem passes_settle (w : World σ) : w.Passes w.settle := by
  unfold settle
  split
  · exact w.passes_fireDue.trans (passes_unsettled _ false)
  · exact .refl w

theorem passes_sleep (w : World σ) (seconds : Binary64) : w.Passes (w.sleep seconds) := by
  have hsettled := w.passes_ring.trans w.ring.passes_settle
  unfold sleep
  split
  · exact w.passes_giveWay
  · simp only
    split
    · exact hsettled
    · exact hsettled.trans (passes_sleepUntil _ _ _)

theorem passes_contend (w : World σ) (time : Option Binary64) : w.Passes (w.contend time).2 := by
  simp only [contend]
  split
  · exact w.passes_fireDue
  · split
    · exact w.passes_fireDue
    · split
      · exact .refl w
      · exact (w.passes_moveTo _).trans (passes_fireDue _)

theorem passes_outlast (w : World σ) (delay : Delay) : w.Passes (w.outlast delay).2 := by
  cases delay with
  | none => exact w.passes_fireDue
  | after seconds =>
      simp only [outlast]
      split
      · exact w.passes_fireDue
      · exact w.passes_contend _
  | never => exact w.passes_contend none

theorem passes_endWait (w : World σ) (ending : Ending) : w.Passes (w.endWait ending) :=
  w.passes_unsettled _

end World

end Pagescript
