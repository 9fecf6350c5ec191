import Pagescript.Proofs.Time
/-!
# Worlds with limits

A world in which the token can fire beside the same world in which it never does.  As long as nothing
waits for what the token can stop, the two clocks go the same way: a limit that comes meanwhile is
only noted.  A wait that the token can stop either ends before the limit, and then the two clocks
again go the same way, or it ends at the limit.

The clock tells two times apart only if they differ by its resolution, so times that are close are
kept apart by assumption.
-/

namespace Pagescript

namespace Binary64

variable {x y z : Binary64}

theorem lt_irrefl (x : Binary64) : x.lt x = false := by
  cases x <;> simp [lt]

theorem lt_of_lt_of_le (hxy : x.lt y = true) (hyz : y.le z = true) : x.lt z = true := by
  cases x <;> cases y <;> cases z <;> simp_all [lt, le, same]
  all_goals grind

theorem lt_of_le_of_lt (hxy : x.le y = true) (hyz : y.lt z = true) : x.lt z = true := by
  cases x <;> cases y <;> cases z <;> simp_all [lt, le, same]
  all_goals grind

theorem not_lt_of_le (hxy : x.le y = true) : y.lt x = false := by
  cases x <;> cases y <;> simp_all [lt, le, same]
  all_goals grind

theorem le_of_lt (hxy : x.lt y = true) : x.le y = true := by
  rw [le, hxy, Bool.true_or]

theorem not_lt_of_lt (hxy : x.lt y = true) : y.lt x = false :=
  not_lt_of_le (le_of_lt hxy)

theorem le_of_not_lt (hx : x.isFinite = true) (hy : y.isFinite = true) (hyx : y.lt x = false) :
    x.le y = true := by
  cases x <;> cases y <;> simp_all [lt, le, same, isFinite]
  all_goals grind

theorem le_refl (hx : x.isFinite = true) : x.le x = true := by
  cases x <;> simp_all [lt, le, same, isFinite]

/-- The second time comes after the first, by the resolution of the clock at least. -/
def Before (x y : Binary64) : Prop :=
  x.lt (x.add World.resolution) = true ∧ (x.add World.resolution).le y = true

/-- The clock can tell the two times apart. -/
def Apart (x y : Binary64) : Prop :=
  Before x y ∨ Before y x

instance (x y : Binary64) : Decidable (Before x y) :=
  inferInstanceAs (Decidable (_ ∧ _))

instance (x y : Binary64) : Decidable (Apart x y) :=
  inferInstanceAs (Decidable (_ ∨ _))

theorem Before.lt (h : Before x y) : x.lt y = true :=
  lt_of_lt_of_le h.1 h.2

theorem Before.not_le (h : Before x y) : ¬ y.le x = true := by
  intro hle
  have hlt := h.lt
  rw [not_lt_of_le hle] at hlt
  cases hlt

theorem isFinite_of_lt_add (hx : x.lt (x.add World.resolution) = true) : x.isFinite = true := by
  have hresolution : World.resolution.isFinite = true := by decide +kernel
  generalize World.resolution = step at hx hresolution
  cases x <;> cases step <;> simp_all [lt, add, isFinite]

theorem Before.isFinite (h : Before x y) : x.isFinite = true :=
  isFinite_of_lt_add h.1

/-- A later time that is not finite never comes. -/
theorem add_lt_eq_false (hx : zero.le x = true) (hy : y.le zero = false)
    (hadd : (x.add y).isFinite = false) (t : Binary64) : (x.add y).lt t = false := by
  have hnan (t : Binary64) : nan.lt t = false := by cases t <;> rfl
  have hinfinite (t : Binary64) : (infinite false).lt t = false := by cases t <;> rfl
  cases x with
  | nan => cases hx
  | infinite s =>
      obtain rfl : s = false := by simpa [zero, le, lt, same] using hx
      cases y with
      | nan => exact hnan t
      | infinite u =>
          cases u with
          | false => exact hinfinite t
          | true => exact hnan t
      | finite u b => exact hinfinite t
  | finite s a =>
      cases y with
      | nan => exact hnan t
      | infinite u =>
          obtain rfl : u = false := by simpa [zero, le, lt, same] using hy
          exact hinfinite t
      | finite u b =>
          have hsum : 0 < signed s a + signed u b := by
            simp [zero, le, lt, same, signed] at hx hy
            grind [signed]
          simp only [add, if_neg (Int.ne_of_gt hsum), ofSteps] at hadd ⊢
          split at hadd
          · cases hadd
          next hlarge =>
            rw [if_neg hlarge, decide_eq_false (Int.not_lt.2 (Int.le_of_lt hsum))]
            exact hinfinite t

end Binary64

open Binary64

namespace World

variable {σ : Type} {w : World σ}

/-! ### The earliest of some times -/

theorem foldl_min_eq {times : List Binary64} {first m : Binary64}
    (hfirst : first = m ∨ m.lt first = true) (htimes : ∀ t ∈ times, t = m ∨ m.lt t = true)
    (hm : first = m ∨ m ∈ times) : times.foldl Binary64.min first = m := by
  induction times generalizing first with
  | nil => simpa using hm
  | cons t rest ih =>
      have ht := htimes t List.mem_cons_self
      have hrest : ∀ t ∈ rest, t = m ∨ m.lt t = true :=
        fun t ht => htimes t (List.mem_cons_of_mem _ ht)
      rw [List.foldl_cons]
      refine ih ?_ hrest ?_
      · unfold Binary64.min
        split
        · exact ht
        · exact hfirst
      · unfold Binary64.min
        obtain rfl | hfirst := hfirst
        · left
          obtain rfl | ht := ht
          · rw [if_neg (by simp [lt_irrefl])]
          · rw [if_neg (by simp [not_lt_of_lt ht])]
        · obtain rfl | hm := hm
          · simp [lt_irrefl] at hfirst
          · obtain rfl | hm := List.mem_cons.1 hm
            · left
              rw [if_pos hfirst]
            · exact .inr hm

theorem earliest?_eq_some {times : List Binary64} {m : Binary64} (hm : m ∈ times)
    (hfinite : m.isFinite = true) (htimes : ∀ t ∈ times, t = m ∨ m.lt t = true) :
    earliest? times = some m := by
  have hmem : m ∈ times.filter isFinite := List.mem_filter.2 ⟨hm, hfinite⟩
  have hleast : ∀ t ∈ times.filter isFinite, t = m ∨ m.lt t = true :=
    fun t ht => htimes t (List.mem_filter.1 ht).1
  unfold earliest?
  cases hfilter : times.filter isFinite with
  | nil =>
      rw [hfilter] at hmem
      cases hmem
  | cons first rest =>
      rw [hfilter] at hmem hleast
      refine congrArg some (foldl_min_eq (hleast first List.mem_cons_self) ?_ ?_)
      · exact fun t ht => hleast t (List.mem_cons_of_mem _ ht)
      · exact (List.mem_cons.1 hmem).imp_left Eq.symm

theorem earliest?_append_left {times later : List Binary64}
    (htimes : ∀ t ∈ times, t.isFinite = false) :
    earliest? (times ++ later) = earliest? later := by
  have hnone : times.filter isFinite = [] :=
    List.filter_eq_nil_iff.2 fun t ht => by simp [htimes t ht]
  rw [earliest?, List.filter_append, hnone, List.nil_append, earliest?]

end World

/-! ### Limits -/

/-- When a run is to be stopped. -/
structure Limits where
  /-- The time at which it is cancelled. -/
  cancelAt : Option Binary64 := none
  deadline : Option Binary64 := none

namespace Limits

/-- When a wait that begins at some time will be stopped, if nothing ends it before.  How long it is
to the deadline is reckoned as the wait begins. -/
def stops (limits : Limits) (now : Binary64) : List Binary64 :=
  (limits.deadline.map fun d => now.add (d.sub now)).toList ++ limits.cancelAt.toList

def firstStop? (limits : Limits) (now : Binary64) : Option Binary64 :=
  World.earliest? (limits.stops now)

/-- Whether one of the limits has come. -/
def passed (limits : Limits) (now : Binary64) : Bool :=
  limits.cancelAt.any (·.le now) || limits.deadline.any fun d => (d.sub now).le .zero

/-- Why a wait is stopped at some time. -/
def reason (limits : Limits) (now : Binary64) : Interruption :=
  if limits.cancelAt.any (·.le now) then .cancelled else .timeout

/-- The clock can tell the limits from the time it is, and from each other. -/
structure Clear (limits : Limits) (now : Binary64) : Prop where
  ahead : ∀ t ∈ limits.stops now, Before now t
  apart : ∀ c ∈ limits.cancelAt, ∀ d ∈ limits.deadline, Apart c (now.add (d.sub now))
  fine : ∀ c ∈ limits.cancelAt, c.lt (c.add World.resolution) = true

instance (limits : Limits) (now : Binary64) : Decidable (limits.Clear now) :=
  decidable_of_iff ((∀ t ∈ limits.stops now, Before now t) ∧
      (∀ c ∈ limits.cancelAt, ∀ d ∈ limits.deadline, Apart c (now.add (d.sub now))) ∧
      ∀ c ∈ limits.cancelAt, c.lt (c.add World.resolution) = true)
    ⟨fun ⟨ahead, apart, fine⟩ => ⟨ahead, apart, fine⟩,
      fun ⟨ahead, apart, fine⟩ => ⟨ahead, apart, fine⟩⟩

variable {limits : Limits} {now : Binary64}

theorem firstStop?_eq_none (hstops : ∀ t ∈ limits.stops now, t.isFinite = false) :
    limits.firstStop? now = none := by
  have hnone : (limits.stops now).filter Binary64.isFinite = [] :=
    List.filter_eq_nil_iff.2 fun t ht => by simp [hstops t ht]
  rw [firstStop?, World.earliest?, hnone]

theorem firstStop?_eq_some {first : Binary64} (hfirst : first ∈ limits.stops now)
    (hfinite : first.isFinite = true)
    (hleast : ∀ t ∈ limits.stops now, t = first ∨ Before first t) :
    limits.firstStop? now = some first :=
  World.earliest?_eq_some hfirst hfinite fun t ht => (hleast t ht).imp_right Before.lt

/-- Of the times at which a wait would be stopped the first one is before all others, unless none of
them ever comes. -/
theorem Clear.firstStop?_cases (hclear : limits.Clear now) :
    (limits.firstStop? now = none ∧ ∀ t ∈ limits.stops now, t.isFinite = false) ∨
      ∃ first ∈ limits.stops now, limits.firstStop? now = some first ∧ first.isFinite = true ∧
        ∀ t ∈ limits.stops now, t = first ∨ Before first t := by
  have hsingle (t : Binary64) (hstops : limits.stops now = [t]) :
      (∀ t ∈ limits.stops now, t.isFinite = false) ∨
        ∃ first ∈ limits.stops now, first.isFinite = true ∧
          ∀ t ∈ limits.stops now, t = first ∨ Before first t := by
    rw [hstops]
    cases hfinite : t.isFinite with
    | false => exact .inl (by simpa using hfinite)
    | true => exact .inr ⟨t, List.mem_singleton_self t, hfinite, by simp⟩
  have hfirst : (∀ t ∈ limits.stops now, t.isFinite = false) ∨
      ∃ first ∈ limits.stops now, first.isFinite = true ∧
        ∀ t ∈ limits.stops now, t = first ∨ Before first t := by
    cases hdeadline : limits.deadline with
    | none =>
        cases hcancelAt : limits.cancelAt with
        | none => exact .inl (by simp [stops, hdeadline, hcancelAt])
        | some c => exact hsingle c (by simp [stops, hdeadline, hcancelAt])
    | some d =>
        cases hcancelAt : limits.cancelAt with
        | none => exact hsingle (now.add (d.sub now)) (by simp [stops, hdeadline, hcancelAt])
        | some c =>
            have hstops : limits.stops now = [now.add (d.sub now), c] := by
              simp [stops, hdeadline, hcancelAt]
            right
            rw [hstops]
            obtain hc | hd := hclear.apart c hcancelAt d hdeadline
            · exact ⟨c, by simp, hc.isFinite, by simp [hc]⟩
            · exact ⟨now.add (d.sub now), by simp, hd.isFinite, by simp [hd]⟩
  obtain hnever | ⟨first, hmem, hfinite, hleast⟩ := hfirst
  · exact .inl ⟨firstStop?_eq_none hnever, hnever⟩
  · exact .inr ⟨first, hmem, firstStop?_eq_some hmem hfinite hleast, hfinite, hleast⟩

theorem Clear.mem_stops {t : Binary64} (hclear : limits.Clear now)
    (ht : limits.firstStop? now = some t) : t ∈ limits.stops now := by
  obtain ⟨hnone, -⟩ | ⟨first, hmem, hfirst, -⟩ := hclear.firstStop?_cases
  · rw [hnone] at ht
    cases ht
  · rw [hfirst] at ht
    cases ht
    exact hmem

end Limits

namespace World

variable {σ : Type} {limits : Limits} {w w' : World σ}

/-- The same world with a token that never fires. -/
def unlimited (w : World σ) : World σ :=
  { w with token := {}, alarms := [], ringing := false }

/-- The token has these limits, and has been cancelled if and only if the time for it has come. -/
structure Limited (limits : Limits) (w : World σ) : Prop where
  begun : Binary64.zero.le w.now = true
  deadline : w.token.deadline = limits.deadline
  timeout : limits.deadline = none → w.token.timeout = none
  ringing : w.ringing = false
  alarm : (w.token.cancelled = false ∧ w.alarms = limits.cancelAt.toList ∧
      ∀ c ∈ limits.cancelAt, Before w.now c) ∨
    (w.token.cancelled = true ∧ w.alarms = [] ∧ ∃ c ∈ limits.cancelAt, c.le w.now = true)

theorem fireDue_eq_self (hdue : ∀ c ∈ w.alarms, w.isDue c = false) : w.fireDue = w := by
  have hnone : w.alarms.filter w.isDue = [] :=
    List.filter_eq_nil_iff.2 fun c hc => by simp [hdue c hc]
  have hall : w.alarms.filter (!w.isDue ·) = w.alarms :=
    List.filter_eq_self.2 fun c hc => by simp [hdue c hc]
  rw [fireDue, hnone, hall]
  rfl

theorem fireDue_of_isDue {c : Binary64} (halarms : w.alarms = [c]) (hdue : w.isDue c = true) :
    w.fireDue = { w with alarms := [], token := w.token.cancel } := by
  have hfired : w.alarms.filter w.isDue = [c] := by
    rw [halarms, List.filter_cons_of_pos hdue, List.filter_nil]
  have hleft : w.alarms.filter (!w.isDue ·) = [] := by
    rw [halarms, List.filter_cons_of_neg (by simp [hdue]), List.filter_nil]
  rw [fireDue, hfired, hleft]
  rfl

theorem isDue_eq_false_of_before {t : Binary64} (ht : Before w.now t) : w.isDue t = false :=
  not_lt_of_le ht.2

theorem Limited.isDue_eq_false (hw : w.Limited limits) : ∀ c ∈ w.alarms, w.isDue c = false := by
  intro c hc
  obtain ⟨-, halarms, hbefore⟩ | ⟨-, halarms, -⟩ := hw.alarm
  · rw [halarms] at hc
    exact isDue_eq_false_of_before (hbefore c (Option.mem_toList.1 hc))
  · rw [halarms] at hc
    cases hc

theorem Limited.fireDue_eq (hw : w.Limited limits) : w.fireDue = w :=
  fireDue_eq_self hw.isDue_eq_false

theorem Limited.ring_eq (hw : w.Limited limits) : w.ring = w := by
  rw [ring, hw.ringing]
  rfl

theorem Limited.settle_eq (hw : w.Limited limits) : w.settle = { w with unsettled := false } := by
  unfold settle
  split
  · rw [hw.fireDue_eq]
  next hsettled => rw [← Bool.eq_false_iff.2 hsettled]

/-- The limits are looked at only through the clock and the token. -/
theorem Limited.of_eq (hw : w.Limited limits) (hnow : w'.now = w.now) (htoken : w'.token = w.token)
    (halarms : w'.alarms = w.alarms) (hringing : w'.ringing = w.ringing) : w'.Limited limits := by
  obtain ⟨hbegun, hdeadline, htimeout, hquiet, halarm⟩ := hw
  constructor
  · rw [hnow]
    exact hbegun
  · rw [htoken]
    exact hdeadline
  · rw [htoken]
    exact htimeout
  · rw [hringing]
    exact hquiet
  · rw [hnow, htoken, halarms]
    exact halarm

theorem limited_unlimited (hw : w.Limited limits) : w.unlimited.Limited {} where
  begun := hw.begun
  deadline := rfl
  timeout _ := rfl
  ringing := rfl
  alarm := .inl ⟨rfl, rfl, fun c hc => by cases hc⟩

/-! ### Waits that go on whatever the token says -/

theorem le_max_left {x : Binary64} (y : Binary64) (hx : Binary64.zero.le x = true) :
    Binary64.zero.le (x.max y) = true := by
  unfold Binary64.max
  split
  next hlt => exact le_of_lt (lt_of_le_of_lt hx hlt)
  · exact hx

theorem le_max_of_le {c x : Binary64} (y : Binary64) (hc : c.le x = true) : c.le (x.max y) = true := by
  unfold Binary64.max
  split
  next hlt => exact le_of_lt (lt_of_le_of_lt hc hlt)
  · exact hc

theorem moveTo_of_lt {time : Binary64} (hlt : w.now.lt time = true) :
    w.moveTo time = { w with now := time } := by
  rw [moveTo, Binary64.max, if_pos hlt]

theorem moveTo_of_not_lt {time : Binary64} (hlt : w.now.lt time = false) : w.moveTo time = w := by
  rw [moveTo, Binary64.max, if_neg (by simp [hlt])]

/-- Without alarms the clock moves to the time in one step. -/
theorem sleepUntil_of_no_alarm (time : Binary64) (halarms : w.alarms = []) :
    w.sleepUntil time (w.alarms.length + 1) = { w with now := w.now.max time } := by
  have hfire : (w.moveTo time).fireDue = w.moveTo time := by
    refine fireDue_eq_self fun c hc => ?_
    rw [moveTo, halarms] at hc
    cases hc
  simp only [sleepUntil, halarms, List.length_nil, List.foldl_nil, hfire, ite_self]
  rw [moveTo, halarms]

theorem sleepUntil_succ (time : Binary64) (steps : Nat) (w : World σ) :
    w.sleepUntil time (steps + 1) =
      if (w.moveTo (w.alarms.foldl Binary64.min time)).fireDue.isDue time then
        (w.moveTo (w.alarms.foldl Binary64.min time)).fireDue
      else (w.moveTo (w.alarms.foldl Binary64.min time)).fireDue.sleepUntil time steps := rfl

/-- The alarm goes off on the way to a later time. -/
theorem sleepUntil_of_alarm_before {time c : Binary64} (halarms : w.alarms = [c])
    (hnow : w.now.lt c = true) (hc : Before c time) :
    w.sleepUntil time (w.alarms.length + 1) =
      { w with now := time, alarms := [], token := w.token.cancel } := by
  have hmin : w.alarms.foldl Binary64.min time = c := by
    rw [halarms]
    exact if_pos hc.lt
  have hfire : (w.moveTo c).fireDue =
      { w with now := c, alarms := [], token := w.token.cancel } := by
    rw [moveTo_of_lt hnow]
    exact fireDue_of_isDue halarms hc.1
  have hrest : ({ w with now := c, alarms := [], token := w.token.cancel } : World σ).isDue time =
      false := isDue_eq_false_of_before hc
  have hlast := sleepUntil_of_no_alarm (w := ({ w with
    now := c, alarms := [], token := w.token.cancel } : World σ)) time rfl
  have hmax : c.max time = time := if_pos hc.lt
  rw [hmax] at hlast
  rw [sleepUntil_succ, hmin, hfire, if_neg (by simp [hrest]), halarms]
  exact hlast

/-- The time comes before the alarm, or has come already. -/
theorem sleepUntil_of_before_alarm {time c : Binary64} (halarms : w.alarms = [c])
    (hnow : Before w.now c) (htime : w.now.lt time = true → Before time c) :
    w.sleepUntil time (w.alarms.length + 1) = { w with now := w.now.max time } := by
  have hnotBefore : c.lt time = false := by
    cases hlt : c.lt time with
    | false => rfl
    | true =>
        have htime' := htime (lt_trans hnow.lt hlt)
        rw [not_lt_of_lt htime'.lt] at hlt
        cases hlt
  have hmin : w.alarms.foldl Binary64.min time = time := by
    rw [halarms]
    exact if_neg (by simp [hnotBefore])
  have hmoved : (w.moveTo time).fireDue = w.moveTo time := by
    refine fireDue_eq_self fun c' hc' => isDue_eq_false_of_before ?_
    rw [moveTo, halarms] at hc'
    obtain rfl := List.mem_singleton.1 hc'
    rw [moveTo, Binary64.max]
    split
    next hlt => exact htime hlt
    · exact hnow
  rw [sleepUntil_succ, hmin, hmoved]
  split
  · rfl
  next hdue =>
    -- the second step changes nothing
    have hagain : (w.moveTo time).moveTo time = w.moveTo time := by
      cases hlt : w.now.lt time with
      | true =>
          rw [moveTo_of_lt hlt]
          exact moveTo_of_not_lt (lt_irrefl time)
      | false => rw [moveTo_of_not_lt hlt, moveTo_of_not_lt hlt]
    have hmin' : (w.moveTo time).alarms.foldl Binary64.min time = time := hmin
    have hlength : w.alarms.length = 1 := by rw [halarms, List.length_singleton]
    rw [hlength, sleepUntil_succ, hmin', hagain, hmoved]
    split
    · rfl
    · rfl

theorem Limited.sleepUntil {time : Binary64} (hw : w.Limited limits)
    (hapart : ∀ c ∈ limits.cancelAt, c.le w.now = true ∨ Apart c (w.now.max time)) :
    ∃ alarms cancelled, w.sleepUntil time (w.alarms.length + 1) =
        { w with now := w.now.max time, alarms, token := { w.token with cancelled } } ∧
      (w.sleepUntil time (w.alarms.length + 1)).Limited limits := by
  obtain ⟨hcancelled, halarms, hbefore⟩ | ⟨hcancelled, halarms, c, hc, hpassed⟩ := hw.alarm
  · cases hcancelAt : limits.cancelAt with
    | none =>
        rw [hcancelAt] at halarms
        rw [sleepUntil_of_no_alarm time halarms]
        refine ⟨w.alarms, w.token.cancelled, rfl, le_max_left time hw.begun, hw.deadline, hw.timeout,
          hw.ringing, .inl ⟨hcancelled, ?_, fun c hc => ?_⟩⟩
        · rw [hcancelAt]
          exact halarms
        · rw [hcancelAt] at hc
          cases hc
    | some c =>
        have hc : c ∈ limits.cancelAt := hcancelAt
        have hnow := hbefore c hc
        rw [hcancelAt] at halarms
        have hahead := (hapart c hc).resolve_left hnow.not_le
        by_cases hfirst : Before c (w.now.max time)
        · -- the alarm is on the way
          have hlt : w.now.lt time = true := by
            cases hlt : w.now.lt time with
            | true => rfl
            | false =>
                rw [Binary64.max, if_neg (by simp [hlt])] at hfirst
                exact absurd (le_of_lt hfirst.lt) hnow.not_le
          have hmax : w.now.max time = time := if_pos hlt
          rw [hmax] at hfirst ⊢
          rw [sleepUntil_of_alarm_before halarms hnow.lt hfirst]
          refine ⟨[], true, rfl, ?_, hw.deadline, hw.timeout, hw.ringing,
            .inr ⟨rfl, rfl, c, hc, le_of_lt hfirst.lt⟩⟩
          exact le_of_lt (lt_of_le_of_lt hw.begun hlt)
        · have hlast := hahead.resolve_left hfirst
          have htime : w.now.lt time = true → Before time c := by
            intro hlt
            rw [Binary64.max, if_pos hlt] at hlast
            exact hlast
          rw [sleepUntil_of_before_alarm halarms hnow htime]
          refine ⟨w.alarms, w.token.cancelled, rfl, le_max_left time hw.begun, hw.deadline,
            hw.timeout, hw.ringing, .inl ⟨hcancelled, ?_, ?_⟩⟩
          · rw [hcancelAt]
            exact halarms
          · intro c' hc'
            obtain rfl := Option.mem_unique hc hc'
            exact hlast
  · rw [sleepUntil_of_no_alarm time halarms]
    exact ⟨w.alarms, w.token.cancelled, rfl, le_max_left time hw.begun, hw.deadline, hw.timeout,
      hw.ringing, .inr ⟨hcancelled, halarms, c, hc, le_max_of_le time hpassed⟩⟩

theorem Limited.giveWay_eq (hw : w.Limited limits) :
    w.giveWay = { w with unsettled := false } := by
  have hnone : w.alarms.any w.isDue = false :=
    List.any_eq_false.2 fun c hc => by simp [hw.isDue_eq_false c hc]
  have hall : w.alarms.filter (!w.isDue ·) = w.alarms :=
    List.filter_eq_self.2 fun c hc => by simp [hw.isDue_eq_false c hc]
  rw [giveWay, hw.ring_eq]
  simp only [hnone, hall]
  rw [← hw.ringing]

theorem Limited.settled (hw : w.Limited limits) :
    ({ w with unsettled := false } : World σ).Limited limits :=
  hw.of_eq rfl rfl rfl rfl

/-- What sleeping comes to, apart from the alarms. -/
theorem Limited.sleep_eq (hw : w.Limited limits) (seconds : Binary64) :
    w.sleep seconds =
      if seconds.le .zero || (w.unsettled && w.isDue (w.now.add seconds)) then
        { w with unsettled := false }
      else ({ w with unsettled := false } : World σ).sleepUntil (w.now.add seconds)
        (w.alarms.length + 1) := by
  unfold sleep
  cases seconds.le .zero with
  | true => exact hw.giveWay_eq
  | false =>
      simp only [hw.ring_eq, hw.settle_eq, Bool.false_or, Bool.false_eq_true, if_false]

/-- The clock goes the same way with limits and without. -/
theorem Limited.sleep (hw : w.Limited limits) (seconds : Binary64)
    (hapart : ∀ c ∈ limits.cancelAt,
      c.le w.now = true ∨ Apart c (w.unlimited.sleep seconds).now) :
    (w.sleep seconds).unlimited = w.unlimited.sleep seconds ∧
      (w.sleep seconds).Limited limits := by
  have hfree := (limited_unlimited hw).sleep_eq seconds
  have hslept := hw.sleep_eq seconds
  have hdue : w.unlimited.isDue (w.unlimited.now.add seconds) = w.isDue (w.now.add seconds) := rfl
  have hunsettled : w.unlimited.unsettled = w.unsettled := rfl
  rw [hdue, hunsettled] at hfree
  cases hearly : seconds.le .zero || (w.unsettled && w.isDue (w.now.add seconds)) with
  | true =>
      rw [hearly, if_pos rfl] at hfree hslept
      rw [hfree, hslept]
      exact ⟨rfl, hw.settled⟩
  | false =>
      have hnone := sleepUntil_of_no_alarm (w := { w.unlimited with unsettled := false })
        (w.now.add seconds) rfl
      rw [hearly, if_neg Bool.false_ne_true] at hfree hslept
      have hfree' := hfree.trans hnone
      rw [hfree'] at hapart
      obtain ⟨alarms, cancelled, heq, hlimited⟩ := hw.settled.sleepUntil hapart
      rw [hfree', hslept]
      exact ⟨congrArg unlimited heq, hlimited⟩

/-! ### Waits that the token can stop -/

theorem Limited.cancelled_eq (hw : w.Limited limits) :
    w.token.cancelled = limits.cancelAt.any (·.le w.now) := by
  obtain ⟨hcancelled, -, hbefore⟩ | ⟨hcancelled, -, c, hc, hpassed⟩ := hw.alarm
  · rw [hcancelled]
    cases hcancelAt : limits.cancelAt with
    | none => rfl
    | some c => simpa using (hbefore c hcancelAt).not_le
  · rw [hcancelled, Option.mem_def.1 hc, Option.any_some, hpassed]

theorem Limited.reason?_eq (hw : w.Limited limits) :
    w.token.reason? w.now =
      if limits.passed w.now then some (limits.reason w.now) else none := by
  have hexpired : w.token.expired w.now =
      limits.deadline.any fun d => (d.sub w.now).le .zero := by
    rw [Token.expired, Token.remaining, hw.deadline]
    cases limits.deadline with
    | none => rfl
    | some d => rfl
  rw [Token.reason?, hw.cancelled_eq, hexpired, Limits.passed, Limits.reason]
  cases limits.cancelAt.any (·.le w.now) with
  | true => rfl
  | false => rfl

theorem Limited.alarms_eq (hw : w.Limited limits) (hcancelled : w.token.cancelled = false) :
    w.alarms = limits.cancelAt.toList := by
  obtain ⟨-, halarms, -⟩ | ⟨hcancelled', -⟩ := hw.alarm
  · exact halarms
  · rw [hcancelled] at hcancelled'
    cases hcancelled'

theorem Limited.stops_eq (hw : w.Limited limits) (hcancelled : w.token.cancelled = false) :
    w.deadline?.toList ++ w.alarms = limits.stops w.now := by
  rw [deadline?, Token.remaining, hw.deadline, hw.alarms_eq hcancelled, Option.map_map]
  rfl

/-- How a wait goes if nothing is there to stop it at once. -/
theorem contend_of_ahead (time : Option Binary64) (hcancelled : w.token.cancelled = false)
    (hahead : ∀ t ∈ w.deadline?.toList ++ w.alarms, Before w.now t) :
    (earliest? (time.toList ++ (w.deadline?.toList ++ w.alarms)) = none →
      w.contend time = (.never, w)) ∧
    ∀ first, earliest? (time.toList ++ (w.deadline?.toList ++ w.alarms)) = some first →
      w.contend time =
        (if time.any (fun t => (w.moveTo first).isDue t &&
            !w.deadline?.any fun d => (w.moveTo first).isDue d && d.le t)
          then .finished else .stopped, (w.moveTo first).fireDue) := by
  have hdeadline : w.deadline?.any w.isDue = false := by
    cases hd : w.deadline? with
    | none => rfl
    | some d =>
        refine isDue_eq_false_of_before (hahead d ?_)
        simp [hd]
  have halarms : w.alarms.any w.isDue = false := by
    refine List.any_eq_false.2 fun c hc => ?_
    rw [isDue_eq_false_of_before (hahead c (List.mem_append_right _ hc))]
    exact Bool.false_ne_true
  constructor
  · intro hnone
    simp only [contend, hcancelled, hdeadline, halarms, Bool.or_false, Bool.false_eq_true, if_false,
      List.append_assoc, hnone]
  · intro first hfirst
    simp only [contend, hcancelled, hdeadline, halarms, Bool.or_false, Bool.false_eq_true, if_false,
      List.append_assoc, hfirst]

/-- A wait that ends in the same way with limits and without, before the first of them comes. -/
structure Undisturbed (limits : Limits) (w : World σ) (p q : Ending × World σ) : Prop where
  ending : p.1 = q.1
  world : p.2.unlimited = q.2
  limited : p.2.Limited limits
  active : p.2.token.cancelled = false
  ends : p.1 ≠ .stopped
  before : ∀ t, limits.firstStop? w.now = some t → p.1 = .finished ∧ t.lt p.2.now = false

/-- A wait that the first limit stops before it would end. -/
structure Disturbed (limits : Limits) (w : World σ) (t : Binary64) (p q : Ending × World σ) :
    Prop where
  firstStop : limits.firstStop? w.now = some t
  outlasts : q.1 = .never ∨ t.lt q.2.now = true
  stopped : p.1 = .stopped
  passes : w.Passes p.2
  now : p.2.now = t
  cancelled : p.2.token.cancelled = limits.cancelAt.any (·.le t)

/-- At the first limit the token is cancelled, if that is what the limit is. -/
theorem Limited.cancelled_fireDue (hw : w.Limited limits) (hcancelled : w.token.cancelled = false)
    (hclear : limits.Clear w.now) {t : Binary64} (ht : w.now.lt t = true)
    (hleast : ∀ c ∈ limits.cancelAt, c = t ∨ Before t c) :
    (w.moveTo t).fireDue.token.cancelled = limits.cancelAt.any (·.le t) := by
  have halarms := hw.alarms_eq hcancelled
  rw [moveTo_of_lt ht]
  cases hcancelAt : limits.cancelAt with
  | none =>
      rw [hcancelAt] at halarms
      rw [fireDue_eq_self (w := { w with now := t }) (by simp [halarms])]
      exact hcancelled
  | some c =>
      rw [hcancelAt] at halarms
      obtain rfl | hbefore := hleast c hcancelAt
      · have hfine := hclear.fine c hcancelAt
        rw [fireDue_of_isDue (w := { w with now := c }) halarms hfine]
        exact (le_refl (isFinite_of_lt_add hfine)).symm
      · rw [fireDue_eq_self (w := { w with now := t }) ?_]
        · rw [Option.any_some, Bool.eq_false_iff.2 hbefore.not_le]
          exact hcancelled
        · intro c' hc'
          simp only [halarms, Option.toList_some, List.mem_singleton] at hc'
          rw [hc']
          exact isDue_eq_false_of_before hbefore

/-- Without limits the clock moves to the time. -/
theorem contend_unlimited (w : World σ) {e : Binary64} (he : e.isFinite = true) :
    (w.unlimited.contend (some e)).2 = w.unlimited.moveTo e ∧
      ((w.moveTo e).isDue e = true → (w.unlimited.contend (some e)).1 = .finished) := by
  have hearliest : earliest? ((some e).toList ++ []) = some e :=
    earliest?_eq_some List.mem_cons_self he (by simp)
  have hfire : (w.unlimited.moveTo e).fireDue = w.unlimited.moveTo e :=
    fireDue_eq_self (by intro c hc; cases hc)
  rw [(contend_of_ahead (w := w.unlimited) (some e) rfl (by intro t ht; cases ht)).2 e hearliest]
  refine ⟨hfire, fun hdue => if_pos ?_⟩
  have hdue' : (w.unlimited.moveTo e).isDue e = true := hdue
  rw [Option.any_some, hdue']
  rfl

section Contend

variable (hw : w.Limited limits) (hcancelled : w.token.cancelled = false)
  (hclear : limits.Clear w.now)

include hw hcancelled hclear

theorem Limited.contend_apply (time : Option Binary64) :
    (earliest? (time.toList ++ limits.stops w.now) = none → w.contend time = (.never, w)) ∧
    ∀ first, earliest? (time.toList ++ limits.stops w.now) = some first →
      w.contend time =
        (if time.any (fun t => (w.moveTo first).isDue t &&
            !w.deadline?.any fun d => (w.moveTo first).isDue d && d.le t)
          then .finished else .stopped, (w.moveTo first).fireDue) := by
  have hstops := hw.stops_eq hcancelled
  rw [← hstops]
  refine contend_of_ahead time hcancelled ?_
  rw [hstops]
  exact hclear.ahead

theorem Limited.disturbed {time : Option Binary64} {q : Ending × World σ} {first : Binary64}
    (hmem : first ∈ limits.stops w.now) (hfirst : limits.firstStop? w.now = some first)
    (hleast : ∀ t ∈ limits.stops w.now, t = first ∨ Before first t)
    (houtlasts : q.1 = .never ∨ first.lt q.2.now = true)
    (hcontend : w.contend time = (.stopped, (w.moveTo first).fireDue)) :
    Disturbed limits w first (w.contend time) q := by
  have hlt := (hclear.ahead first hmem).lt
  rw [hcontend]
  refine ⟨hfirst, houtlasts, rfl, (w.passes_moveTo first).trans (passes_fireDue _), ?_, ?_⟩
  · rw [moveTo_of_lt hlt]
    rfl
  · refine hw.cancelled_fireDue hcancelled hclear hlt fun c hc => hleast c ?_
    exact List.mem_append_right _ (Option.mem_toList.2 hc)

/-- A wait for what never comes is stopped by the first limit, if there is one. -/
theorem Limited.contend_of_never {time : Option Binary64}
    (htime : ∀ e ∈ time, e.isFinite = false ∧ ∀ t, e.lt t = false) :
    Undisturbed limits w (w.contend time) (w.unlimited.contend time) ∨
      ∃ first, Disturbed limits w first (w.contend time) (w.unlimited.contend time) := by
  have hnotFinite : ∀ e ∈ time.toList, e.isFinite = false :=
    fun e he => (htime e (Option.mem_toList.1 he)).1
  have hfree : w.unlimited.contend time = (.never, w.unlimited) :=
    (contend_of_ahead time rfl (by intro t ht; cases ht)).1 (earliest?_append_left hnotFinite)
  have hstops : earliest? (time.toList ++ limits.stops w.now) = limits.firstStop? w.now :=
    earliest?_append_left hnotFinite
  obtain ⟨hnever, hcomes⟩ := hw.contend_apply hcancelled hclear time
  rw [hstops] at hnever hcomes
  rw [hfree]
  obtain ⟨hnone, -⟩ | ⟨first, hmem, hfirst, -, hleast⟩ := hclear.firstStop?_cases
  · left
    rw [hnever hnone]
    refine ⟨rfl, rfl, hw, hcancelled, by simp, fun t ht => ?_⟩
    rw [hnone] at ht
    cases ht
  · right
    refine ⟨first, hw.disturbed hcancelled hclear hmem hfirst hleast (.inl rfl) ?_⟩
    have hopen : time.any (fun t => (w.moveTo first).isDue t &&
        !w.deadline?.any fun d => (w.moveTo first).isDue d && d.le t) = false := by
      cases time with
      | none => rfl
      | some e =>
          have hdue : (w.moveTo first).isDue e = false := (htime e rfl).2 _
          simp [hdue]
    rw [hcomes first hfirst, hopen]
    rfl

section Time

variable {e : Binary64} (he : e.isFinite = true)

include he

/-- A wait for a time that comes before all limits ends then. -/
theorem Limited.undisturbed_of_before (hlimits : limits.stops w.now ≠ [])
    (hall : ∀ t ∈ limits.stops w.now, Before (w.now.max e) t) :
    Undisturbed limits w (w.contend (some e)) (w.unlimited.contend (some e)) := by
  obtain ⟨hfreeWorld, hfreeEnding⟩ := w.contend_unlimited he
  obtain ⟨-, hcomes⟩ := hw.contend_apply hcancelled hclear (some e)
  obtain ⟨t₀, ht₀⟩ := List.exists_mem_of_ne_nil _ hlimits
  have hle : e.le (w.now.max e) = true := by
    unfold Binary64.max
    split
    · exact le_refl he
    next hlt => exact le_of_not_lt he (hclear.ahead t₀ ht₀).isFinite (Bool.eq_false_iff.2 hlt)
  have hearliest : earliest? ((some e).toList ++ limits.stops w.now) = some e := by
    refine earliest?_eq_some List.mem_cons_self he fun t ht => ?_
    obtain rfl | ht := List.mem_cons.1 ht
    · exact .inl rfl
    · exact .inr (lt_of_le_of_lt hle (hall t ht).lt)
  have hdue : (w.moveTo e).isDue e = true := lt_of_le_of_lt hle (hall t₀ ht₀).1
  -- neither the deadline nor an alarm is due by then
  have hstops := hw.stops_eq hcancelled
  have hdeadline : (w.deadline?.any fun d => (w.moveTo e).isDue d && d.le e) = false := by
    cases hd : w.deadline? with
    | none => rfl
    | some d =>
        have hmem : d ∈ limits.stops w.now := by
          rw [← hstops, hd]
          exact List.mem_cons_self
        rw [Option.any_some, isDue_eq_false_of_before (w := w.moveTo e) (hall d hmem),
          Bool.false_and]
  have hfire : (w.moveTo e).fireDue = w.moveTo e := by
    refine fireDue_eq_self fun c hc => isDue_eq_false_of_before (hall c ?_)
    rw [← hstops]
    exact List.mem_append_right _ hc
  have hcontend : w.contend (some e) = (.finished, w.moveTo e) := by
    rw [hcomes e hearliest, Option.any_some, hdue, hdeadline, hfire]
    rfl
  rw [hcontend]
  refine ⟨(hfreeEnding hdue).symm, hfreeWorld.symm, ⟨le_max_left e hw.begun, hw.deadline,
    hw.timeout, hw.ringing, .inl ⟨hcancelled, hw.alarms_eq hcancelled, ?_⟩⟩, hcancelled, by simp, ?_⟩
  · intro c hc
    exact hall c (List.mem_append_right _ (Option.mem_toList.2 hc))
  · intro t ht
    exact ⟨rfl, not_lt_of_lt (hall t (hclear.mem_stops ht)).lt⟩

/-- A wait for a time is stopped if one of the limits comes before. -/
theorem Limited.disturbed_of_before (hapart : ∀ t ∈ limits.stops w.now, Apart t (w.now.max e))
    {t : Binary64} (ht : t ∈ limits.stops w.now) (htBefore : Before t (w.now.max e)) :
    ∃ first, Disturbed limits w first (w.contend (some e)) (w.unlimited.contend (some e)) := by
  obtain ⟨hfreeWorld, -⟩ := w.contend_unlimited he
  obtain ⟨-, hcomes⟩ := hw.contend_apply hcancelled hclear (some e)
  obtain ⟨-, hnever⟩ | ⟨first, hmem, hfirst, hfinite, hleast⟩ := hclear.firstStop?_cases
  · have hfinite := htBefore.isFinite
    rw [hnever t ht] at hfinite
    cases hfinite
  have hlt : first.lt (w.now.max e) = true := by
    obtain rfl | hbefore := hleast t ht
    · exact htBefore.lt
    · exact lt_trans hbefore.lt htBefore.lt
  have hbefore : Before first (w.now.max e) := by
    refine (hapart first hmem).resolve_right fun hlater => ?_
    rw [not_lt_of_lt hlater.lt] at hlt
    cases hlt
  have hmax : w.now.max e = e := by
    unfold Binary64.max at hlt ⊢
    split at hlt
    next hlater => exact if_pos hlater
    · rw [not_lt_of_lt (hclear.ahead first hmem).lt] at hlt
      cases hlt
  have hearliest : earliest? ((some e).toList ++ limits.stops w.now) = some first := by
    refine earliest?_eq_some (List.mem_cons_of_mem _ hmem) hfinite fun t ht => ?_
    obtain rfl | ht := List.mem_cons.1 ht
    · exact .inr (hmax ▸ hlt)
    · exact (hleast t ht).imp_right Before.lt
  have hdue : (w.moveTo first).isDue e = false := by
    rw [moveTo_of_lt (hclear.ahead first hmem).lt]
    exact isDue_eq_false_of_before (w := { w with now := first }) (hmax ▸ hbefore)
  refine ⟨first, hw.disturbed hcancelled hclear hmem hfirst hleast (.inr ?_) ?_⟩
  · rw [hfreeWorld]
    exact hlt
  · rw [hcomes first hearliest, Option.any_some, hdue]
    rfl

theorem Limited.contend_of_time (hlimits : limits.stops w.now ≠ [])
    (hapart : ∀ t ∈ limits.stops w.now, Apart t (w.now.max e)) :
    Undisturbed limits w (w.contend (some e)) (w.unlimited.contend (some e)) ∨
      ∃ first, Disturbed limits w first (w.contend (some e)) (w.unlimited.contend (some e)) := by
  by_cases hall : ∀ t ∈ limits.stops w.now, Before (w.now.max e) t
  · exact .inl (hw.undisturbed_of_before hcancelled hclear he hlimits hall)
  · obtain ⟨t, ht, hnotBefore⟩ : ∃ t ∈ limits.stops w.now, ¬ Before (w.now.max e) t := by
      simpa using hall
    have htBefore : Before t (w.now.max e) := (hapart t ht).resolve_right hnotBefore
    exact .inr (hw.disturbed_of_before hcancelled hclear he hapart ht htBefore)

end Time

/-- A wait that has begun ends in the same way with limits and without, or at the first limit. -/
theorem Limited.outlast_cases (hlimits : limits.stops w.now ≠ []) (delay : Delay)
    (hapart : ∀ t ∈ limits.stops w.now, Apart t (w.unlimited.outlast delay).2.now) :
    Undisturbed limits w (w.outlast delay) (w.unlimited.outlast delay) ∨
      ∃ first, Disturbed limits w first (w.outlast delay) (w.unlimited.outlast delay) := by
  have hatOnce : Undisturbed limits w (.finished, w.fireDue) (.finished, w.unlimited.fireDue) := by
    rw [hw.fireDue_eq, (limited_unlimited hw).fireDue_eq]
    refine ⟨rfl, rfl, hw, hcancelled, by simp, fun t ht => ⟨rfl, ?_⟩⟩
    exact not_lt_of_lt (hclear.ahead t (hclear.mem_stops ht)).lt
  cases delay with
  | none => exact .inl hatOnce
  | never => exact hw.contend_of_never hcancelled hclear (by intro e he; cases he)
  | after seconds =>
      cases hseconds : seconds.le .zero with
      | true =>
          simp only [outlast, hseconds, if_true]
          exact .inl hatOnce
      | false =>
          simp only [outlast, hseconds, Bool.false_eq_true, if_false] at hapart ⊢
          change Undisturbed limits w _ (w.unlimited.contend (some (w.now.add seconds))) ∨
            ∃ first, Disturbed limits w first _ (w.unlimited.contend (some (w.now.add seconds)))
          cases hfinite : (w.now.add seconds).isFinite with
          | true =>
              refine hw.contend_of_time hcancelled hclear hfinite hlimits fun t ht => ?_
              have hend := hapart t ht
              rw [show w.unlimited.now = w.now from rfl, (w.contend_unlimited hfinite).1] at hend
              exact hend
          | false =>
              refine hw.contend_of_never hcancelled hclear fun e he => ?_
              cases he
              exact ⟨hfinite, add_lt_eq_false hw.begun hseconds hfinite⟩

end Contend

theorem Limited.endWait_eq (hw : w.Limited limits) (hactive : w.token.cancelled = false)
    (ending : Ending) :
    (w.endWait ending).Limited limits ∧
      (w.endWait ending).unlimited = w.unlimited.endWait ending := by
  refine ⟨hw.of_eq rfl rfl rfl rfl, ?_⟩
  simp only [endWait, unlimited, hactive]

end World

end Pagescript
