import Pagescript.ActionError
/-!
# Values that are written

Whether a value is written depends on how deep it nests and on its integers alone, and in an order
that shows only in which complaint comes first.  Main statements: `Json.write_eq_ok_iff` for JSON and
`ActionError.reported_eq_ok_iff` for the values in the report of an error.
-/

namespace Pagescript

/-- No integer in the value has too many digits. -/
def Value.Short (v : Value) : Prop :=
  v.fits Numeral.bound = true

theorem Numeral.maxDigits_lt_bound : maxDigits < bound := by
  have hlt (n : Nat) : n < Nat.pow 10 n := Nat.lt_pow_self (by decide)
  unfold bound
  exact hlt maxDigits

theorem Value.short_of_le {n : Nat} (hn : n ≤ Numeral.maxDigits) : (int n).Short := by
  rw [Short, fits, Int.natAbs_natCast, decide_eq_true_iff]
  exact Nat.lt_of_le_of_lt hn Numeral.maxDigits_lt_bound

theorem shortage?_eq_none_iff {task : WriteTask} {room needed : Nat} :
    shortage? task room needed = none ↔ needed ≤ room := by
  unfold shortage?
  split
  · simp only [reduceCtorEq, false_iff]
    omega
  · simp only [true_iff]
    omega

/-- What needs a level of its own leaves one less to its parts. -/
theorem room_iff {room levels : Nat} {p : Prop} :
    (1 ≤ room ∧ levels ≤ room - 1 ∧ p) ↔ 1 + levels ≤ room ∧ p := by
  constructor
  · rintro ⟨hroom, hlevels, hp⟩
    exact ⟨by omega, hp⟩
  · rintro ⟨hlevels, hp⟩
    exact ⟨by omega, by omega, hp⟩

namespace Value

theorem digitHindrance?_eq_none_iff {i : Int} :
    digitHindrance? i = none ↔ (int i).Short := by
  rw [digitHindrance?, Short, fits, decide_eq_true_iff]
  split
  next h => simp only [h]
  next h => simp only [h, reduceCtorEq]

/-! ### Levels -/

mutual

/-- How much room the literal of a value takes. -/
def literalLevels : Value → Nat
  | .moment _ _ offset => 1 + zoneRoom offset
  | .list xs | .tuple xs => 1 + literalLevelsAll xs
  | .mapping fields => 1 + literalLevelsFields fields
  | _ => 1
termination_by structural v => v

def literalLevelsAll : List Value → Nat
  | [] => 0
  | v :: rest => max v.literalLevels (literalLevelsAll rest)
termination_by structural vs => vs

def literalLevelsFields : List (String × Value) → Nat
  | [] => 0
  | (_, v) :: rest => max v.literalLevels (literalLevelsFields rest)
termination_by structural fs => fs

end

mutual

/-- How much room a value takes as JSON: as much as its containers nest, and some for the literal of
what has no form of its own. -/
def levels : Value → Nat
  | .null | .bool _ | .int _ | .float _ | .text _ => 0
  | .list xs | .tuple xs => 1 + levelsAll xs
  | .mapping fields => 1 + levelsFields fields
  | v => 1 + v.literalLevels
termination_by structural v => v

def levelsAll : List Value → Nat
  | [] => 0
  | v :: rest => max v.levels (levelsAll rest)
termination_by structural vs => vs

def levelsFields : List (String × Value) → Nat
  | [] => 0
  | (_, v) :: rest => max v.levels (levelsFields rest)
termination_by structural fs => fs

end

theorem one_le_literalLevels (v : Value) : 1 ≤ v.literalLevels := by
  cases v <;> simp only [literalLevels] <;> omega

/-! ### Literals -/

mutual

theorem literalHindrance?_eq_none_iff (room : Nat) : (v : Value) →
    (v.literalHindrance? room = none ↔ v.literalLevels ≤ room ∧ v.Short)
  | .int i => by
      rw [literalHindrance?, Option.or_eq_none_iff, shortage?_eq_none_iff,
        digitHindrance?_eq_none_iff]
      rfl
  | .list xs => by
      rw [literalHindrance?, Option.or_eq_none_iff, shortage?_eq_none_iff,
        literalsHindrance?_eq_none_iff (room - 1) xs, literalLevels]
      exact room_iff
  | .tuple xs => by
      rw [literalHindrance?, Option.or_eq_none_iff, shortage?_eq_none_iff,
        literalsHindrance?_eq_none_iff (room - 1) xs, literalLevels]
      exact room_iff
  | .mapping fields => by
      rw [literalHindrance?, Option.or_eq_none_iff, shortage?_eq_none_iff,
        literalFieldsHindrance?_eq_none_iff (room - 1) fields, literalLevels]
      exact room_iff
  | .moment _ _ _ | .null | .bool _ | .float _ | .text _ | .bytes _ | .date _ | .time _
  | .foreign _ => shortage?_eq_none_iff.trans (and_iff_left rfl).symm
termination_by structural v => v

theorem literalsHindrance?_eq_none_iff (room : Nat) : (vs : List Value) →
    (literalsHindrance? room vs = none ↔
      literalLevelsAll vs ≤ room ∧ allFit Numeral.bound vs = true)
  | [] => by simp [literalsHindrance?, literalLevelsAll, allFit]
  | v :: rest => by
      rw [literalsHindrance?, Option.or_eq_none_iff, literalHindrance?_eq_none_iff room v,
        literalsHindrance?_eq_none_iff room rest, literalLevelsAll, allFit, Bool.and_eq_true,
        Nat.max_le]
      exact and_and_and_comm
termination_by structural vs => vs

theorem literalFieldsHindrance?_eq_none_iff (room : Nat) : (fields : List (String × Value)) →
    (literalFieldsHindrance? room fields = none ↔
      literalLevelsFields fields ≤ room ∧
        allFitFields Numeral.bound fields = true)
  | [] => by simp [literalFieldsHindrance?, literalLevelsFields, allFitFields]
  | (key, v) :: rest => by
      rw [literalFieldsHindrance?, Option.or_eq_none_iff, literalHindrance?_eq_none_iff room v,
        literalFieldsHindrance?_eq_none_iff room rest, literalLevelsFields, allFitFields,
        Bool.and_eq_true, Nat.max_le]
      exact and_and_and_comm
termination_by structural fs => fs

end

end Value

namespace Json

open Value

variable {style : Style}

/-- A value has the form that a style asks for. -/
def Style.Admits (style : Style) (v : Value) : Prop :=
  style.literals = true ∨ v.isJson = true

theorem mem_order_iff {α : Type} {entry : String × α} {entries : List (String × α)} :
    entry ∈ style.order entries ↔ entry ∈ entries := by
  unfold Style.order
  split
  · exact List.mem_mergeSort
  · rfl

theorem foreignHindrance?_eq_none_iff {room : Nat} {v : Value} (hform : v.isJson = false) :
    style.foreignHindrance? room v = none ↔
      style.Admits v ∧ 1 + v.literalLevels ≤ room ∧ v.Short := by
  unfold Style.foreignHindrance? Style.Admits
  rw [hform]
  cases style.literals with
  | true =>
      simp only [if_true, Option.or_eq_none_iff, shortage?_eq_none_iff,
        literalHindrance?_eq_none_iff, true_or, true_and]
      exact room_iff
  | false => simp

mutual

/-- What keeps a value from being written: its form, its depth or an integer in it. -/
theorem hindrance?_eq_none_iff (style : Style) (room : Nat) : (v : Value) →
    (hindrance? style room v = none ↔ style.Admits v ∧ v.levels ≤ room ∧ v.Short)
  | .null | .bool _ | .float _ | .text _ =>
    iff_of_true rfl ⟨.inr rfl, Nat.zero_le room, rfl⟩
  | .int i =>
    digitHindrance?_eq_none_iff.trans
      ⟨fun h => ⟨.inr rfl, Nat.zero_le room, h⟩, fun h => h.2.2⟩
  | .list xs => by
      rw [hindrance?, Option.or_eq_none_iff, shortage?_eq_none_iff,
        hindranceAll?_eq_none_iff style (room - 1) xs, levels, and_left_comm, room_iff]
      rfl
  | .tuple xs => by
      rw [hindrance?, Option.or_eq_none_iff, shortage?_eq_none_iff,
        hindranceAll?_eq_none_iff style (room - 1) xs, levels, and_left_comm, room_iff]
      rfl
  | .mapping fields => by
      have hfirst : (style.order (hindrances style (room - 1) fields)).findSome? (·.2) = none ↔
          ∀ entry ∈ hindrances style (room - 1) fields, entry.2 = none := by
        rw [List.findSome?_eq_none_iff]
        exact forall_congr' fun entry => imp_congr_left mem_order_iff
      rw [hindrance?, Option.or_eq_none_iff, shortage?_eq_none_iff, hfirst,
        hindrances_eq_none_iff style (room - 1) fields, levels, and_left_comm, room_iff]
      rfl
  | .bytes _ | .date _ | .time _ | .moment _ _ _ | .foreign _ =>
    foreignHindrance?_eq_none_iff rfl
termination_by structural v => v

theorem hindranceAll?_eq_none_iff (style : Style) (room : Nat) : (vs : List Value) →
    (hindranceAll? style room vs = none ↔ (style.literals = true ∨ allJson vs = true) ∧
      levelsAll vs ≤ room ∧ allFit Numeral.bound vs = true)
  | [] => by simp [hindranceAll?, levelsAll, allFit, allJson]
  | v :: rest => by
      rw [hindranceAll?, Option.or_eq_none_iff, hindrance?_eq_none_iff style room v,
        hindranceAll?_eq_none_iff style room rest, levelsAll, allFit, allJson, Nat.max_le]
      simp only [Style.Admits, Short, Bool.and_eq_true]
      grind
termination_by structural vs => vs

theorem hindrances_eq_none_iff (style : Style) (room : Nat) : (fields : List (String × Value)) →
    ((∀ entry ∈ hindrances style room fields, entry.2 = none) ↔
      (style.literals = true ∨ allJsonFields fields = true) ∧
        levelsFields fields ≤ room ∧
          allFitFields Numeral.bound fields = true)
  | [] => by simp [hindrances, levelsFields, allFitFields, allJsonFields]
  | (key, v) :: rest => by
      rw [hindrances, List.forall_mem_cons, hindrance?_eq_none_iff style room v,
        hindrances_eq_none_iff style room rest, levelsFields, allFitFields, allJsonFields,
        Nat.max_le]
      simp only [Style.Admits, Short, Bool.and_eq_true]
      grind
termination_by structural fs => fs

end

/-- A value is written if and only if it has a form, there is room for all its levels, and none of
its integers has too many digits. -/
theorem write_eq_ok_iff {room : Nat} {v : Value} {text : String} :
    write style room v = .ok text ↔
      (style.Admits v ∧ v.levels ≤ room ∧ v.Short) ∧ text = render style 0 v := by
  rw [← hindrance?_eq_none_iff, write]
  cases hindrance? style room v with
  | some e => simp
  | none => simp [eq_comm]

/-! ### Complaints -/

/-- A complaint about what has so many levels, with short integers or not, and in JSON or not. -/
def Holds (room levels : Nat) (short json : Bool) : WriteError → Prop
  | .tooDeep _ => room < levels
  | .tooManyDigits => short = false
  | .noForm _ => json = false

theorem Holds.mono {room levels levels' : Nat} {short short' json json' : Bool} {e : WriteError}
    (h : Holds room levels short json e) (hlevels : levels ≤ levels')
    (hshort : short = false → short' = false) (hjson : json = false → json' = false) :
    Holds room levels' short' json' e := by
  cases e with
  | tooDeep task => exact Nat.lt_of_lt_of_le h hlevels
  | tooManyDigits => exact hshort h
  | noForm type => exact hjson h

theorem Holds.inner {room levels : Nat} {short json : Bool} {e : WriteError}
    (h : Holds (room - 1) levels short json e) : Holds room (1 + levels) short json e := by
  cases e with
  | tooDeep task =>
      change room - 1 < levels at h
      change room < 1 + levels
      omega
  | tooManyDigits => exact h
  | noForm type => exact h

theorem holds_of_shortage? {task : WriteTask} {room needed levels : Nat} {short json : Bool}
    {e : WriteError} (h : shortage? task room needed = some e) (hneeded : needed ≤ levels) :
    Holds room levels short json e := by
  unfold shortage? at h
  split at h
  next hroom =>
    cases h
    exact Nat.lt_of_lt_of_le hroom hneeded
  next => cases h

theorem holds_of_container {task : WriteTask} {room levels : Nat} {short json : Bool}
    {parts : Option WriteError} {e : WriteError} (h : (shortage? task room 1).or parts = some e)
    (hparts : parts = some e → Holds (room - 1) levels short json e) :
    Holds room (1 + levels) short json e := by
  obtain h | ⟨-, h⟩ := Option.or_eq_some_iff.1 h
  · exact holds_of_shortage? h (Nat.le_add_right 1 levels)
  · exact (hparts h).inner

theorem holds_of_foreignHindrance? {room : Nat} {v : Value} {e : WriteError} {short : Bool}
    (hlevels : ∀ room, v.literalHindrance? room = shortage? .spell room v.literalLevels)
    (h : style.foreignHindrance? room v = some e) :
    Holds room (1 + v.literalLevels) short false e := by
  unfold Style.foreignHindrance? at h
  split at h
  · refine holds_of_container h fun h => ?_
    rw [hlevels] at h
    exact holds_of_shortage? h (Nat.le_refl _)
  · obtain h | ⟨-, h⟩ := Option.or_eq_some_iff.1 h
    · exact holds_of_shortage? h (Nat.add_le_add_left v.one_le_literalLevels 1)
    · cases h
      rfl

mutual

/-- What is complained of is so. -/
theorem holds_of_hindrance? {style : Style} {room : Nat} {e : WriteError} : (v : Value) →
    (hindrance? style room v = some e →
      Holds room v.levels (v.fits Numeral.bound) v.isJson e)
  | .null | .bool _ | .float _ | .text _ => by
      intro h
      cases h
  | .int i => by
      intro h
      rw [hindrance?, digitHindrance?] at h
      split at h
      next => cases h
      next hlong =>
        cases h
        rw [Holds, fits, decide_eq_false_iff_not]
        exact hlong
  | .list xs | .tuple xs => fun h => by
      rw [levels, fits, isJson]
      exact holds_of_container h (holds_of_hindranceAll? xs)
  | .mapping fields => by
      intro h
      rw [levels, fits, isJson]
      refine holds_of_container h fun h => ?_
      obtain ⟨entry, hentry, hfound⟩ := List.exists_of_findSome?_eq_some h
      exact holds_of_mem_hindrances fields entry (mem_order_iff.1 hentry) hfound
  | .bytes _ | .date _ | .time _ | .moment _ _ _ | .foreign _ =>
    holds_of_foreignHindrance? fun _ => rfl
termination_by structural v => v

theorem holds_of_hindranceAll? {style : Style} {room : Nat} {e : WriteError} :
    (vs : List Value) → (hindranceAll? style room vs = some e →
      Holds room (levelsAll vs) (allFit Numeral.bound vs) (allJson vs) e)
  | [] => by
      intro h
      cases h
  | v :: rest => by
      intro h
      obtain h | ⟨-, h⟩ := Option.or_eq_some_iff.1 h
      · refine (holds_of_hindrance? v h).mono (Nat.le_max_left _ _) ?_ ?_
        · intro hv
          rw [allFit, hv, Bool.false_and]
        · intro hv
          rw [allJson, hv, Bool.false_and]
      · refine (holds_of_hindranceAll? rest h).mono (Nat.le_max_right _ _) ?_ ?_
        · intro hrest
          rw [allFit, hrest, Bool.and_false]
        · intro hrest
          rw [allJson, hrest, Bool.and_false]
termination_by structural vs => vs

theorem holds_of_mem_hindrances {style : Style} {room : Nat} {e : WriteError} :
    (fields : List (String × Value)) → (∀ entry ∈ hindrances style room fields,
      entry.2 = some e → Holds room (levelsFields fields)
        (allFitFields Numeral.bound fields) (allJsonFields fields) e)
  | [] => by
      intro entry hentry
      exact absurd hentry List.not_mem_nil
  | (key, v) :: rest => by
      intro entry hentry h
      obtain rfl | hentry := List.mem_cons.1 hentry
      · refine (holds_of_hindrance? v h).mono (Nat.le_max_left _ _) ?_ ?_
        · intro hv
          rw [allFitFields, hv, Bool.false_and]
        · intro hv
          rw [allJsonFields, hv, Bool.false_and]
      · refine (holds_of_mem_hindrances rest entry hentry h).mono (Nat.le_max_right _ _) ?_ ?_
        · intro hrest
          rw [allFitFields, hrest, Bool.and_false]
        · intro hrest
          rw [allJsonFields, hrest, Bool.and_false]
termination_by structural fs => fs

end

/-- A value is written, or what is complained of is so. -/
theorem holds_of_write {style : Style} {room : Nat} {v : Value} {e : WriteError}
    (h : write style room v = .error e) :
    Holds room v.levels (v.fits Numeral.bound) v.isJson e := by
  unfold write at h
  split at h
  next hfound =>
    cases h
    exact holds_of_hindrance? v hfound
  next => cases h

end Json

/-! ### Reports -/

/-- A value as it stands in the report of an error. -/
def Value.inReport (v : Value) : Value :=
  if v.isJson then v else .text v.literal

/-- A value can be put into a report: there is room for it as JSON, or for its literal if it has no
form in JSON and that shows before the room runs out. -/
def Value.Reportable (room : Nat) (v : Value) : Prop :=
  v.Short ∧ if v.isJson then v.levels ≤ room else
    v.literalLevels ≤ room + ActionError.literalMargin ∧
      ∀ task, Json.hindrance? .strict room v ≠ some (.tooDeep task)

/-- The error as a mapping, whatever its values are. -/
def ActionError.inReport (e : ActionError) : Fields :=
  [("code", .text e.code.name), ("message", .text e.message), ("source", .text e.source),
    ("action", e.action), ("payload", .list (e.payload.map Value.inReport))]

namespace ActionError

open Json

theorem spelled_eq_ok_iff {room : Nat} {v : Value} {text : String} :
    spelled room v = .ok text ↔ (v.literalLevels ≤ room ∧ v.Short) ∧ text = v.literal := by
  rw [← Value.literalHindrance?_eq_none_iff, spelled]
  cases v.literalHindrance? room with
  | some e => simp
  | none => simp [eq_comm]

/-- A value is reported if and only if it can be, and then as itself or as its literal. -/
theorem reported_eq_ok_iff {room : Nat} {v w : Value} :
    reported room v = .ok w ↔ v.Reportable room ∧ w = v.inReport := by
  unfold reported Value.Reportable Value.inReport
  split
  next hnone =>
    obtain ⟨hform | hform, hlevels, hshort⟩ := (hindrance?_eq_none_iff .strict room v).1 hnone
    · cases hform
    · simp [hform, hlevels, hshort, eq_comm]
  next task hdeep =>
    have hlevels : room < v.levels := holds_of_hindrance? v hdeep
    cases hform : v.isJson with
    | true => simp [Nat.not_le.2 hlevels]
    | false => simp [hdeep]
  next e hshallow hsome =>
    have hholds := holds_of_hindrance? v hsome
    have hspelled : (spelled (room + literalMargin) v).map Value.text = .ok w ↔
        (v.literalLevels ≤ room + literalMargin ∧ v.Short) ∧ w = .text v.literal := by
      cases htext : spelled (room + literalMargin) v with
      | error e =>
          have hnot (h : v.literalLevels ≤ room + literalMargin ∧ v.Short) : False := by
            have := spelled_eq_ok_iff.2 ⟨h, rfl⟩
            rw [htext] at this
            cases this
          simp only [Except.map, reduceCtorEq, false_iff]
          exact fun h => hnot h.1
      | ok text =>
          obtain ⟨h, rfl⟩ := spelled_eq_ok_iff.1 htext
          simp [Except.map, h, eq_comm]
    rw [hspelled]
    cases e with
    | tooDeep task => exact absurd rfl (hshallow task)
    | tooManyDigits =>
        have hlong : ¬ v.Short := fun hshort => by
          rw [Value.Short, show v.fits Numeral.bound = false from hholds] at hshort
          cases hshort
        simp [hlong]
    | noForm type =>
        have hform : v.isJson = false := hholds
        simp [hform, hsome, and_comm]

theorem mapM_reported_eq_ok_iff {room : Nat} {vs ws : List Value} :
    vs.mapM (reported room) = .ok ws ↔
      (∀ v ∈ vs, v.Reportable room) ∧ ws = vs.map Value.inReport := by
  induction vs generalizing ws with
  | nil => simp [pure, Except.pure, eq_comm]
  | cons v rest ih =>
      have hcons : (v :: rest).mapM (reported room) = .ok ws ↔
          ∃ w more, reported room v = .ok w ∧ rest.mapM (reported room) = .ok more ∧
            ws = w :: more := by
        rw [List.mapM_cons]
        cases reported room v with
        | error e => simp [bind, Except.bind]
        | ok w =>
            cases rest.mapM (reported room) with
            | error e => simp [bind, Except.bind]
            | ok more => simp [bind, Except.bind, pure, Except.pure, eq_comm]
      rw [hcons, List.forall_mem_cons, List.map_cons]
      constructor
      · rintro ⟨w, more, hw, hmore, rfl⟩
        obtain ⟨hv, rfl⟩ := reported_eq_ok_iff.1 hw
        obtain ⟨hrest, rfl⟩ := ih.1 hmore
        exact ⟨⟨hv, hrest⟩, rfl⟩
      · rintro ⟨⟨hv, hrest⟩, rfl⟩
        exact ⟨_, _, reported_eq_ok_iff.2 ⟨hv, rfl⟩, ih.2 ⟨hrest, rfl⟩, rfl⟩

theorem report_eq_ok_iff {e : ActionError} {room : Nat} {fields : Fields} :
    e.report room = .ok fields ↔ (∀ v ∈ e.payload, v.Reportable room) ∧ fields = e.inReport := by
  unfold report
  cases hpayload : e.payload.mapM (reported room) with
  | error failure =>
      have hnot : ¬ ∀ v ∈ e.payload, v.Reportable room := fun hall => by
        rw [mapM_reported_eq_ok_iff.2 ⟨hall, rfl⟩] at hpayload
        cases hpayload
      simp [bind, Except.bind, hnot]
  | ok ws =>
      obtain ⟨hall, rfl⟩ := mapM_reported_eq_ok_iff.1 hpayload
      simp only [bind, Except.bind, pure, Except.pure, Except.ok.injEq, inReport]
      exact ⟨fun heq => ⟨hall, heq.symm⟩, fun h => h.2.symm⟩

end ActionError

end Pagescript
