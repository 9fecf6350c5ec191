import Pagescript.Proofs.Lockstep
/-!
# What is logged

Nothing that an interpreter does looks at the records of the log: whatever was logged before, an
evaluation comes to the same and logs the same.  And it never logs a warning, which is how a runner
reports the error of a run.
-/

namespace Pagescript

open Plan Handler

variable {σ ω α β ε : Type}

/-- The world with other records. -/
def World.withRecords (w : World σ) (records : List LogRecord) : World σ :=
  { w with records }

@[simp]
theorem World.withRecords_self (w : World σ) : w.withRecords w.records = w := rfl

/-- Whatever was logged before, a computation comes to the same and adds the same records, all of
which are as said.  Its state may be any that keeps the records. -/
def Adds (withRecords : ω → List LogRecord → ω) (P : LogRecord → Prop)
    (x : ExceptT ε (StateM ω) α) : Prop :=
  ∀ w, ∃ new, (∀ record ∈ new, P record) ∧
    ∀ earlier, x (withRecords w earlier) = ((x w).1, withRecords (x w).2 (earlier ++ new))

namespace Adds

variable {withRecords : ω → List LogRecord → ω} {P : LogRecord → Prop} {x : ExceptT ε (StateM ω) α}

/-- A computation that comes to the same and adds no record. -/
theorem of_silent (hx : ∀ w earlier, x (withRecords w earlier) =
    ((x w).1, withRecords (x w).2 earlier)) : Adds withRecords P x := by
  intro w
  refine ⟨[], nofun, fun earlier => ?_⟩
  rw [hx, List.append_nil]

theorem pure (v : α) : Adds withRecords P (pure v : ExceptT ε (StateM ω) α) :=
  of_silent fun _ _ => rfl

theorem throw (s : ε) : Adds withRecords P (throw s : ExceptT ε (StateM ω) α) :=
  of_silent fun _ _ => rfl

theorem modify {f : ω → ω}
    (hf : ∀ w earlier, f (withRecords w earlier) = withRecords (f w) earlier) :
    Adds withRecords P (modify f : ExceptT ε (StateM ω) PUnit) := by
  refine of_silent fun w earlier => ?_
  change (_, f (withRecords w earlier)) = (_, withRecords (f w) earlier)
  rw [hf]
  rfl

/-- What comes next need only be so for what the first computation can give. -/
theorem bind_of_gives {f : α → ExceptT ε (StateM ω) β} (hx : Adds withRecords P x)
    (hf : ∀ w v w', x w = (.ok v, w') → Adds withRecords P (f v)) :
    Adds withRecords P (x >>= f) := by
  intro w
  obtain ⟨first, hfirst, hsame⟩ := hx w
  cases hresult : x w with
  | mk result w' =>
      rw [hresult] at hsame
      cases result with
      | error s =>
          refine ⟨first, hfirst, fun earlier => ?_⟩
          rw [Fallible.bind_of_error (hsame earlier), Fallible.bind_of_error hresult]
      | ok v =>
          obtain ⟨second, hsecond, hsame'⟩ := hf w v w' hresult w'
          refine ⟨first ++ second, ?_, fun earlier => ?_⟩
          · intro record hrecord
            exact (List.mem_append.1 hrecord).elim (hfirst record) (hsecond record)
          · rw [Fallible.bind_of_ok (hsame earlier), Fallible.bind_of_ok hresult, hsame',
              List.append_assoc]

theorem bind {f : α → ExceptT ε (StateM ω) β} (hx : Adds withRecords P x)
    (hf : ∀ v, Adds withRecords P (f v)) : Adds withRecords P (x >>= f) :=
  hx.bind_of_gives fun _ v _ _ => hf v

theorem map (f : α → β) (hx : Adds withRecords P x) : Adds withRecords P (f <$> x) := by
  rw [map_eq_pure_bind]
  exact hx.bind fun v => .pure (f v)

theorem tryCatch {f : ε → ExceptT ε (StateM ω) α} (hx : Adds withRecords P x)
    (hf : ∀ s, Adds withRecords P (f s)) : Adds withRecords P (tryCatch x f) := by
  intro w
  obtain ⟨first, hfirst, hsame⟩ := hx w
  cases hresult : x w with
  | mk result w' =>
      rw [hresult] at hsame
      cases result with
      | ok v =>
          refine ⟨first, hfirst, fun earlier => ?_⟩
          rw [Fallible.tryCatch_of_ok (hsame earlier), Fallible.tryCatch_of_ok hresult]
      | error s =>
          obtain ⟨second, hsecond, hsame'⟩ := hf s w'
          refine ⟨first ++ second, ?_, fun earlier => ?_⟩
          · intro record hrecord
            exact (List.mem_append.1 hrecord).elim (hfirst record) (hsecond record)
          · rw [Fallible.tryCatch_of_error (hsame earlier), Fallible.tryCatch_of_error hresult,
              hsame', List.append_assoc]

theorem ite_bind {x : ExceptT ε (StateM ω) Unit} {f : Unit → ExceptT ε (StateM ω) β} {c : Prop}
    [Decidable c] (hx : Adds withRecords P x) (hf : ∀ v, Adds withRecords P (f v)) :
    Adds withRecords P (if c then x >>= f else f ()) := by
  split
  · exact hx.bind hf
  · exact hf ()

/-- What comes after reading the state may depend on all but its records. -/
theorem get_bind {f : ω → ExceptT ε (StateM ω) β} (hf : ∀ w, Adds withRecords P (f w))
    (hsame : ∀ w earlier, f (withRecords w earlier) = f w) : Adds withRecords P (get >>= f) := by
  intro w
  obtain ⟨new, hnew, heq⟩ := hf w w
  refine ⟨new, hnew, fun earlier => ?_⟩
  change f (withRecords w earlier) (withRecords w earlier) = ((f w w).1, withRecords (f w w).2 _)
  rw [hsame, heq]

end Adds

/-- A computation that reports what it does, but never by a warning. -/
abbrev Reports (x : ExceptT ε (StateM (World σ)) α) : Prop :=
  Adds World.withRecords (·.level ≠ Level.warning) x

theorem Reports.log (logger : String) {level : Level} (hlevel : level ≠ Level.warning)
    (message : String) :
    Reports (modify (·.log logger level message) : ExceptT ε (StateM (World σ)) Unit) := by
  intro w
  refine ⟨[⟨logger, level, message⟩], ?_, fun earlier => rfl⟩
  intro record hrecord
  obtain rfl := List.mem_singleton.1 hrecord
  exact hlevel

/-- The records after a computation are those before it and what it has added. -/
theorem Reports.exists_records {x : ExceptT ε (StateM (World σ)) α} (hx : Reports x) (w : World σ) :
    ∃ new, (x w).2.records = w.records ++ new ∧ ∀ record ∈ new, record.level ≠ Level.warning := by
  obtain ⟨new, hnew, hsame⟩ := hx w
  refine ⟨new, ?_, hnew⟩
  have hself := hsame w.records
  rw [World.withRecords_self] at hself
  rw [hself]
  rfl

/-! ### Time -/

namespace World

variable (w : World σ) (records : List LogRecord)

theorem ring_withRecords : (w.withRecords records).ring = w.ring.withRecords records := by
  change (if w.ringing then _ else _) = _
  unfold ring
  split
  · rfl
  · rfl

theorem giveWay_withRecords : (w.withRecords records).giveWay = w.giveWay.withRecords records := by
  unfold giveWay
  rw [ring_withRecords]
  rfl

theorem settle_withRecords : (w.withRecords records).settle = w.settle.withRecords records := by
  change (if w.unsettled then _ else _) = _
  unfold settle
  split
  · rfl
  · rfl

theorem sleepUntil_withRecords (time : Binary64) (steps : Nat) :
    (w.withRecords records).sleepUntil time steps =
      (w.sleepUntil time steps).withRecords records := by
  induction steps generalizing w with
  | zero => rfl
  | succ steps ih =>
      have hmoved : ((w.withRecords records).moveTo
          ((w.withRecords records).alarms.foldl Binary64.min time)).fireDue =
            ((w.moveTo (w.alarms.foldl Binary64.min time)).fireDue).withRecords records := rfl
      simp only [sleepUntil]
      rw [hmoved]
      generalize (w.moveTo (w.alarms.foldl Binary64.min time)).fireDue = next
      change (if next.isDue time then _ else _) = _
      split
      · rfl
      · exact ih next

theorem sleep_withRecords (seconds : Binary64) :
    (w.withRecords records).sleep seconds = (w.sleep seconds).withRecords records := by
  unfold sleep
  split
  · exact w.giveWay_withRecords records
  · simp only [ring_withRecords, settle_withRecords, sleepUntil_withRecords]
    change (if w.unsettled && w.isDue (w.now.add seconds) then _ else _) = _
    split
    · rfl
    · rfl

theorem contend_withRecords (time : Option Binary64) :
    (w.withRecords records).contend time =
      ((w.contend time).1, (w.contend time).2.withRecords records) := by
  have hdeadline : (w.withRecords records).deadline? = w.deadline? := rfl
  have hdue : (w.withRecords records).isDue = w.isDue := rfl
  have halarms : (w.withRecords records).alarms = w.alarms := rfl
  have htoken : (w.withRecords records).token = w.token := rfl
  unfold contend
  simp only [hdeadline, hdue, halarms, htoken]
  split
  · rfl
  · split
    · rfl
    · split
      · rfl
      · rfl

theorem outlast_withRecords (delay : Delay) :
    (w.withRecords records).outlast delay =
      ((w.outlast delay).1, (w.outlast delay).2.withRecords records) := by
  cases delay with
  | none => rfl
  | after seconds =>
      simp only [outlast]
      split
      · rfl
      · exact w.contend_withRecords records _
  | never => exact w.contend_withRecords records none

end World

/-! ### Interactions -/

namespace Interaction

variable {x : Interaction σ α} {work : Work σ α}

theorem OnPage.reports (hx : x.OnPage) : Reports x := by
  refine .of_silent fun w earlier => ?_
  have hsame : x (w.withRecords earlier) = _ := hx w (w.withRecords earlier) rfl
  rw [hsame, hx.world_eq w]
  rfl

theorem reports_begin (hwork : work.OnPage) : Reports (begin work) := by
  refine .of_silent fun w earlier => ?_
  obtain ⟨-, page, calls, hbegin⟩ := hwork w
  unfold begin
  rw [hbegin (w.withRecords earlier) rfl, hbegin w rfl]
  rfl

theorem onPage_of_begin (hwork : work.OnPage) {w w' : World σ} {pending : Pending σ α}
    (hbegin : begin work w = (.ok pending, w')) : pending.finish.OnPage := by
  cases hbegin
  exact (hwork w).1

theorem reports_await (hwork : work.OnPage) : Reports (await work) := by
  refine (reports_begin hwork).bind_of_gives fun w pending w' hbegin => ?_
  have hfinish := (onPage_of_begin hwork hbegin).reports
  split
  · exact hfinish
  · exact Adds.bind (.modify fun w earlier => w.sleep_withRecords earlier _) fun _ => hfinish
  · exact .throw _

theorem reports_interrupted : Reports (interrupted : Interaction σ Interruption) := by
  refine .get_bind (fun w => ?_) fun w earlier => rfl
  exact (Reports.log _ (by decide) _).bind fun _ => .pure _

theorem reports_outlast (delay : Delay) : Reports (outlast delay : Interaction σ World.Ending) := by
  refine .of_silent fun w earlier => ?_
  simp only [outlast, World.outlast_withRecords]
  rfl

theorem reports_race (hwork : work.OnPage) : Reports (race work) := by
  refine .get_bind (fun w => ?_) fun w earlier => rfl
  split
  · exact .pure _
  · refine Adds.bind (.modify fun w earlier => w.ring_withRecords earlier) fun _ => ?_
    refine (reports_begin hwork).bind_of_gives fun w pending w' hbegin => ?_
    refine (reports_outlast pending.delay).bind fun ending => ?_
    cases ending with
    | finished => exact (onPage_of_begin hwork hbegin).reports.map _
    | stopped => exact reports_interrupted.map _
    | never => exact .throw _

end Interaction

namespace Surface

open Interaction

theorem reports_queryOne (s : Surface σ) (selector : String) : Reports (s.queryOne selector) := by
  have hcall := Work.onPage_call s.page (.waitForSelector selector s.timeouts.action)
  refine ((reports_await hcall).tryCatch fun f => ?_).bind fun found => ?_
  · split
    · exact .throw _
    · split
      · exact .throw _
      · exact .throw _
    · exact .throw _
  · split
    · exact .pure _
    · exact .throw _

theorem reports_carryOut (s : Surface σ) (task : Task) : Reports (s.carryOut task) := by
  have hperform (name : String) (details : Fields) (c : Call) :
      Reports (s.perform name details c) :=
    reports_await (s.onPage_operation name details c)
  cases task with
  | queryOne selector => exact s.reports_queryOne selector
  | inspect h inspection =>
      cases inspection with
      | html | text | visible => exact hperform _ _ _
  | gesture h g =>
      cases g with
      | blur => exact (hperform _ _ _).map _
      | clear => exact (hperform _ _ _).bind fun _ => hperform _ _ _
      | _ => exact hperform _ _ _
  | _ => exact hperform _ _ _

theorem reports_close (page : Page σ) : Reports (close page) := by
  have hplainly (c : Call) : Reports (plainly page c) := reports_await (Work.onPage_call page c)
  have hgiveBack : Reports (modify fun w => { w with resources := {} } : Interaction σ Unit) :=
    .modify fun _ _ => rfl
  refine .get_bind (fun w => ?_) fun w earlier => rfl
  refine Adds.bind (Adds.tryCatch ?_ fun f => .pure _) fun result => ?_
  · refine (hplainly .closeContext).ite_bind fun _ => ?_
    exact (hplainly .closeBrowser).ite_bind fun _ => .pure _
  · refine (hplainly .stopDriver).ite_bind fun _ => ?_
    refine hgiveBack.bind fun _ => ?_
    split
    · exact .pure _
    · exact .throw _

end Surface

/-! ### Evaluations -/

theorem Evaluation.reports_ofInteraction {x : Interaction σ α} (hx : Reports x) :
    Reports (ofInteraction x) := by
  intro w
  obtain ⟨new, hnew, hsame⟩ := hx w
  refine ⟨new, hnew, fun earlier => ?_⟩
  simp only [ofInteraction, hsame earlier]
  rfl

theorem Plan.Abides.reports {serve : (r : Request) → Evaluation σ r.Answer} {p : Plan α}
    {asks : Request → Prop} {stops : Stop → Prop} {gives : α → Prop}
    (hp : p.Abides asks stops gives) (hserve : ∀ r, asks r → Reports (serve r)) :
    Reports (p.run serve) := by
  induction p with
  | done v => exact .pure v
  | stop s => exact .throw s
  | request r next ih => exact (hserve r hp.1).bind fun v => ih v (hp.2 v)

namespace Interpreter

variable (it : Interpreter σ)

theorem reports_serve {ev : Evaluator σ} (hev : ∀ a frame, Reports (ev a frame)) {k : Option Kind}
    {a : Action} {frame : Frame Handle} {r : Request} (hr : Asks it.program k a frame r) :
    Reports (it.serve ev r) := by
  cases hr with
  | evaluate hlead => exact hev _ _
  | carryOut task => exact Evaluation.reports_ofInteraction (it.surface.reports_carryOut task)
  | wait awaited =>
      exact Evaluation.reports_ofInteraction
        (Interaction.reports_race (it.surface.onPage_work awaited))
  | timeout => exact .of_silent fun _ _ => rfl
  | lookUp name => exact .of_silent fun _ _ => rfl
  | commit hk batch => exact .of_silent fun _ _ => rfl
  | log hlevel message =>
      refine .log _ ?_ message
      obtain rfl | rfl := hlevel
      · decide
      · decide

theorem reports_rescue (a : Action) (frame : Frame Handle) (s : Stop) :
    Reports (rescue a frame s : Evaluation σ Value) := by
  unfold rescue
  split
  · exact .throw _
  · exact (Reports.log _ (by decide) _).bind fun _ => .throw _
  · exact .throw _

theorem reports_step {ev : Evaluator σ} (hev : ∀ a frame, Reports (ev a frame)) (a : Action)
    (frame : Frame Handle) : Reports (it.step ev a frame) := by
  have hrun := (it.proper_plan a frame).reports fun r hr => it.reports_serve hev hr
  unfold step
  simp only
  split
  · exact hrun
  · exact hrun.tryCatch fun s => reports_rescue a frame s

theorem reports_evaluateWithin (budget : Nat) (a : Action) (frame : Frame Handle) :
    Reports (it.evaluateWithin budget a frame) := by
  induction budget generalizing a frame with
  | zero =>
      unfold evaluateWithin
      simp only
      split
      · exact .throw _
      · exact .throw _
  | succ budget ih =>
      unfold evaluateWithin
      simp only
      split
      · exact .throw _
      · exact it.reports_step ih a _

theorem reports_evaluate (a : Action) (frame : Frame Handle) : Reports (it.evaluate a frame) :=
  it.reports_evaluateWithin _ a frame

end Interpreter

end Pagescript
