import Pagescript.Proofs.Positions
import Pagescript.Proofs.Totality
/-!
# Failures of the browser

An operation of the surface is a call on the browser, or two in turn.  If the call fails with a
failure of the browser the operation fails with one of the surface, which has the first line of the
message, or the name of the operation if there is no message.  The search for an element translates
failures on its own, and one without a message it does not translate: then an evaluation is stopped by
a fault.  This is the only way in which the browser's own failures can stop one.
-/

namespace Pagescript

/-! ### Changing the fault that an interaction stops with -/

namespace Interaction

variable {σ α β : Type} {g : Fault → Fault}

def mapFault (g : Fault → Fault) (x : Interaction σ α) : Interaction σ α := fun w =>
  ((x w).1.mapError g, (x w).2)

theorem mapFault_of_ok {x : Interaction σ α} {w w' : World σ} {v : α} (hx : x w = (.ok v, w')) :
    mapFault g x w = (.ok v, w') := by
  rw [mapFault, hx]
  rfl

theorem mapFault_of_error {x : Interaction σ α} {w w' : World σ} {f : Fault}
    (hx : x w = (.error f, w')) : mapFault g x w = (.error (g f), w') := by
  rw [mapFault, hx]
  rfl

theorem mapFault_eq_error_iff {x : Interaction σ α} {w w' : World σ} {f : Fault} :
    mapFault g x w = (.error f, w') ↔ ∃ f', x w = (.error f', w') ∧ f = g f' := by
  cases hx : x w with
  | mk result next =>
      cases result with
      | ok v =>
          rw [mapFault_of_ok hx]
          constructor
          · intro hresult
            cases hresult
          · rintro ⟨f', hresult, -⟩
            cases hresult
      | error f' =>
          rw [mapFault_of_error hx]
          constructor
          · intro hresult
            cases hresult
            exact ⟨f', rfl, rfl⟩
          · rintro ⟨f'', hresult, rfl⟩
            cases hresult
            rfl

theorem map_eq_error_iff {h : α → β} {x : Interaction σ α} {w w' : World σ} {f : Fault} :
    (h <$> x) w = (.error f, w') ↔ x w = (.error f, w') := by
  rw [map_eq_pure_bind]
  cases hx : x w with
  | mk result next =>
      cases result with
      | ok v =>
          rw [Fallible.bind_of_ok hx]
          constructor <;> intro hresult <;> cases hresult
      | error f' =>
          rw [Fallible.bind_of_error hx]
          constructor <;> intro hresult <;> cases hresult <;> rfl

theorem map_mapFault (h : α → β) (x : Interaction σ α) :
    h <$> mapFault g x = mapFault g (h <$> x) := by
  funext w
  rw [map_eq_pure_bind, map_eq_pure_bind]
  cases hx : x w with
  | mk result next =>
      cases result with
      | ok v =>
          rw [Fallible.bind_of_ok (mapFault_of_ok hx), mapFault, Fallible.bind_of_ok hx]
          rfl
      | error f =>
          rw [Fallible.bind_of_error (mapFault_of_error hx), mapFault, Fallible.bind_of_error hx]
          rfl

/-- Work whose end is changed fails in the changed way, if to wait for ever is left as it is. -/
theorem await_mapFinish (hg : g .hung = .hung) (work : Work σ α) :
    await (work.mapFinish (mapFault g)) = mapFault g (await work) := by
  funext w
  have hbegin : begin work w = (.ok (work w).1, (work w).2) := rfl
  have hbegin' : begin (work.mapFinish (mapFault g)) w =
      (.ok { (work w).1 with finish := mapFault g (work w).1.finish }, (work w).2) := rfl
  rw [await, mapFault, await, Fallible.bind_of_ok hbegin, Fallible.bind_of_ok hbegin']
  cases (work w).1.delay with
  | none => rfl
  | after seconds => rfl
  | never =>
      have hhung : (throw (g .hung) : Interaction σ α) = throw .hung := by rw [hg]
      exact congrFun hhung.symm (work w).2

theorem race_mapFinish (hg : g .hung = .hung) (work : Work σ α) :
    race (work.mapFinish (mapFault g)) = mapFault g (race work) := by
  funext w
  rw [race_apply, mapFault, race_apply]
  cases w.token.reason? w.now with
  | some reason => rfl
  | none =>
      simp only [Work.mapFinish]
      cases ((work w.ring).2.outlast (work w.ring).1.delay).1 with
      | finished => exact congrFun (map_mapFault Except.ok (work w.ring).1.finish) _
      | stopped => rfl
      | never =>
          have hhung : (throw (g .hung) : Interaction σ (Except Interruption α)) = throw .hung := by
            rw [hg]
          exact congrFun hhung.symm _

end Interaction

/-! ### Operations -/

/-- The text before the first line boundary. -/
def Text.firstLine (s : String) : String :=
  String.ofList (s.toList.takeWhile fun c => !isBoundary c)

theorem Text.firstLine?_eq (s : String) :
    firstLine? s = if s = "" then none else some (firstLine s) := by
  simp only [firstLine?, firstLine, String.isEmpty_iff]

namespace Surface

/-- An operation that is one call: its name, what is reported besides its failure, and the call. -/
structure Operation where
  name : String
  details : Fields
  call : Call

/-- What a fault of the call is for the operation. -/
def Operation.report (o : Operation) : Fault → Fault
  | .page (.error message) | .page (.timeout message) =>
    .surface (.failed (if message = "" then o.name else Text.firstLine message) o.name o.details)
  | f => f

/-- What the end of a search is for the operation, if it is a failure. -/
def searchFault? (selector : String) : Except Fault (Option Handle) → Option Fault
  | .ok (some _) => none
  | .ok none | .error (.page (.timeout _)) => some (.surface (.notFound selector))
  | .error (.page (.error message)) =>
    if message = "" then some .outOfRange
    else some (.surface (.failed (Text.firstLine message) "query_one" [("selector", .text selector)]))
  | .error f => some f

/-- The calls that a task consists of, in order.  To clear a field takes two. -/
def operations (t : Timeouts) : Task → List Operation
  | .queryOne selector =>
    [⟨"query_one", [("selector", .text selector)], .waitForSelector selector t.action⟩]
  | .queryAll selector => [⟨"query_all", [("selector", .text selector)], .queryAll selector⟩]
  | .inspect h .html => [⟨"html", [], .element h (.evaluate htmlScript)⟩]
  | .inspect h .text => [⟨"text", [], .element h (.evaluate textScript)⟩]
  | .inspect h .visible => [⟨"visible", [], .element h .isVisible⟩]
  | .readAttribute h name =>
    [⟨"attribute", [("name", .text name)], .element h (.getAttribute name)⟩]
  | .gesture h .click => [⟨"click", [], .element h (.click t.action)⟩]
  | .gesture h .focus => [⟨"focus", [], .element h .focus⟩]
  | .gesture h .blur => [⟨"blur", [], .element h (.evaluate blurScript)⟩]
  | .gesture h .clear =>
    [⟨"select_all_text", [], .element h (.selectText t.action)⟩,
      ⟨"input", [("text", .text "")], .element h (.fill "" t.action)⟩]
  | .gesture h .selectAll => [⟨"select_all_text", [], .element h (.selectText t.action)⟩]
  | .gesture h .scrollIntoView => [⟨"scroll_into_view", [], .element h (.scrollIntoView t.action)⟩]
  | .input h text => [⟨"input", [("text", .text text)], .element h (.fill text t.action)⟩]
  | .insertText text => [⟨"keyboard_insert_text", [("text", .text text)], .insertText text⟩]
  | .press h key => [⟨"press", [("key", .text key)], .element h (.press key t.action)⟩]
  | .pressKey key => [⟨"keyboard_press", [("key", .text key)], .pressKey key⟩]
  | .navigate url => [⟨"navigate", [("url", .text url)], .goto url t.navigation⟩]
  | .evaluateOn h expression =>
    [⟨"evaluate", [("expression", .text expression)], .element h (.evaluate expression)⟩]
  | .evaluate expression => [⟨"evaluate", [("expression", .text expression)], .evaluate expression⟩]

/-- What is waited for, if it is the browser. -/
def waitOperation? (t : Timeouts) : Awaited → Option Operation
  | .pause _ => none
  | .page .loaded => some ⟨"wait_load", [], .waitForLoadState .loaded t.navigation⟩
  | .page .networkIdle => some ⟨"wait_network_idle", [], .waitForLoadState .networkIdle t.navigation⟩
  | .element h .visible => some ⟨"wait_visible", [], .element h (.waitForState .visible t.wait)⟩
  | .element h .invisible =>
    some ⟨"wait_invisible", [], .element h (.waitForState .invisible t.wait)⟩
  | .element h .stable => some ⟨"wait_stable", [], .element h (.waitForState .stable t.wait)⟩

variable {σ α β : Type}

/-- Of some calls in turn, one is the first to fail. -/
inductive Raises (page : Page σ) : List Operation → World σ → Operation → Fault → World σ → Prop where
  | here {o : Operation} {rest : List Operation} {w w' : World σ} {f : Fault}
    (hcall : Interaction.await (Work.call page o.call) w = (.error f, w')) :
    Raises page (o :: rest) w o f w'
  | later {o p : Operation} {rest : List Operation} {w w₁ w' : World σ} {f : Fault}
    {v : o.call.Answer} (hcall : Interaction.await (Work.call page o.call) w = (.ok v, w₁))
    (hrest : Raises page rest w₁ p f w') : Raises page (o :: rest) w p f w'

/-- The interaction fails as the first of the calls that fails, translated. -/
def Performs (page : Page σ) (ops : List Operation) (x : Interaction σ α) : Prop :=
  ∀ w g w', x w = (.error g, w') ↔ ∃ o f, Raises page ops w o f w' ∧ g = o.report f

variable {s : Surface σ}

theorem reportAs_eq_mapFault (o : Operation) :
    (reportAs o.name o.details : Interaction σ α → Interaction σ α) =
      Interaction.mapFault o.report := by
  have hmessage (message : String) : (Text.firstLine? message).getD o.name =
      if message = "" then o.name else Text.firstLine message := by
    rw [Text.firstLine?_eq]
    split <;> rfl
  funext x w
  cases hx : x w with
  | mk result next =>
      cases result with
      | ok v =>
          rw [reportAs, Fallible.tryCatch_of_ok hx]
          exact (Interaction.mapFault_of_ok hx).symm
      | error f =>
          rw [reportAs, Fallible.tryCatch_of_error hx, Interaction.mapFault_of_error hx]
          cases f with
          | page f =>
              cases f with
              | error message | timeout message =>
                  simp only [Operation.report, hmessage]
                  rfl
              | foreign message => rfl
          | _ => rfl

theorem perform_eq_mapFault (s : Surface σ) (o : Operation) :
    s.perform o.name o.details o.call =
      Interaction.mapFault o.report (Interaction.await (Work.call s.page o.call)) := by
  rw [perform, operation, reportAs_eq_mapFault]
  exact Interaction.await_mapFinish rfl _

theorem race_operation_eq_mapFault (s : Surface σ) (o : Operation) :
    Interaction.race (s.operation o.name o.details o.call) =
      Interaction.mapFault o.report (Interaction.race (Work.call s.page o.call)) := by
  rw [operation, reportAs_eq_mapFault]
  exact Interaction.race_mapFinish rfl _

theorem performs_perform (s : Surface σ) (o : Operation) :
    Performs s.page [o] (s.perform o.name o.details o.call) := by
  intro w g w'
  rw [perform_eq_mapFault, Interaction.mapFault_eq_error_iff]
  constructor
  · rintro ⟨f, hcall, rfl⟩
    exact ⟨o, f, .here hcall, rfl⟩
  · rintro ⟨p, f, hraises, rfl⟩
    cases hraises with
    | here hcall => exact ⟨f, hcall, rfl⟩
    | later _ hrest => cases hrest

theorem Performs.map {ops : List Operation} {x : Interaction σ α} (hx : Performs s.page ops x)
    (h : α → β) : Performs s.page ops (h <$> x) := by
  intro w g w'
  rw [Interaction.map_eq_error_iff]
  exact hx w g w'

theorem performs_bind (o : Operation) {rest : List Operation} {y : Interaction σ α}
    (hy : Performs s.page rest y) :
    Performs s.page (o :: rest) (s.perform o.name o.details o.call >>= fun _ => y) := by
  intro w g w'
  rw [perform_eq_mapFault]
  cases hcall : Interaction.await (Work.call s.page o.call) w with
  | mk result w₁ =>
      cases result with
      | error f =>
          rw [Fallible.bind_of_error (Interaction.mapFault_of_error hcall)]
          constructor
          · intro hg
            cases hg
            exact ⟨o, f, .here hcall, rfl⟩
          · rintro ⟨p, f', hraises, rfl⟩
            cases hraises with
            | here hcall' =>
                rw [hcall] at hcall'
                cases hcall'
                rfl
            | later hcall' hrest =>
                rw [hcall] at hcall'
                cases hcall'
      | ok v =>
          rw [Fallible.bind_of_ok (Interaction.mapFault_of_ok hcall), hy w₁ g w']
          constructor
          · rintro ⟨p, f, hrest, rfl⟩
            exact ⟨p, f, .later hcall hrest, rfl⟩
          · rintro ⟨p, f, hraises, rfl⟩
            cases hraises with
            | here hcall' =>
                rw [hcall] at hcall'
                cases hcall'
            | later hcall' hrest =>
                rw [hcall] at hcall'
                cases hcall'
                exact ⟨p, f, hrest, rfl⟩

/-- Every task but the search fails as its calls do. -/
theorem performs_carryOut (s : Surface σ) {task : Task} (htask : ∀ selector, task ≠ .queryOne selector) :
    Performs s.page (operations s.timeouts task) (s.carryOut task) := by
  cases task with
  | queryOne selector => exact absurd rfl (htask selector)
  | inspect h inspection => cases inspection <;> exact performs_perform s _
  | gesture h g =>
      cases g with
      | blur => exact (performs_perform s _).map _
      | clear => exact performs_bind _ (performs_perform s _)
      | _ => exact performs_perform s _
  | _ => exact performs_perform s _

theorem race_work_eq_error_iff (s : Surface σ) {awaited : Awaited} {o : Operation}
    (ho : waitOperation? s.timeouts awaited = some o) {w w' : World σ} {g : Fault} :
    Interaction.race (s.work awaited) w = (.error g, w') ↔
      ∃ f, Interaction.race (Work.call s.page o.call) w = (.error f, w') ∧ g = o.report f := by
  have hoperation (p : Operation) :
      Interaction.race (s.operation p.name p.details p.call) w = (.error g, w') ↔
        ∃ f, Interaction.race (Work.call s.page p.call) w = (.error f, w') ∧ g = p.report f := by
    rw [race_operation_eq_mapFault]
    exact Interaction.mapFault_eq_error_iff
  cases awaited with
  | pause seconds => cases ho
  | page state => cases state <;> cases ho <;> exact hoperation ⟨_, _, _⟩
  | element h state => cases state <;> cases ho <;> exact hoperation ⟨_, _, _⟩

/-- The search on its own account fails as its call does, or if nothing was found. -/
theorem queryOne_of_searchFault? (s : Surface σ) {selector : String} {w w' : World σ} {g : Fault}
    {result : Except Fault (Option Handle)}
    (hcall : Interaction.await
      (Work.call s.page (.waitForSelector selector s.timeouts.action)) w = (result, w'))
    (hfault : searchFault? selector result = some g) : s.queryOne selector w = (.error g, w') := by
  rw [queryOne]
  cases result with
  | ok found =>
      rw [Fallible.bind_of_ok (Fallible.tryCatch_of_ok hcall)]
      cases found with
      | none =>
          cases hfault
          rfl
      | some h => cases hfault
  | error f =>
      apply Fallible.bind_of_error
      rw [Fallible.tryCatch_of_error hcall]
      cases f with
      | page f =>
          cases f with
          | error message =>
              simp only [searchFault?] at hfault
              simp only [Text.firstLine?_eq]
              split at hfault
              next hempty =>
                cases hfault
                rw [if_pos hempty]
                rfl
              next hmessage =>
                cases hfault
                rw [if_neg hmessage]
                rfl
          | timeout message | foreign message =>
              cases hfault
              rfl
      | _ =>
          cases hfault
          rfl

theorem queryOne_eq_error_iff (s : Surface σ) (selector : String) {w w' : World σ} {g : Fault} :
    s.queryOne selector w = (.error g, w') ↔
      ∃ result, Interaction.await
          (Work.call s.page (.waitForSelector selector s.timeouts.action)) w = (result, w') ∧
        searchFault? selector result = some g := by
  constructor
  · intro hquery
    cases hcall : Interaction.await
        (Work.call s.page (.waitForSelector selector s.timeouts.action)) w with
    | mk result w₁ =>
        cases hfault : searchFault? selector result with
        | some f =>
            rw [s.queryOne_of_searchFault? hcall hfault] at hquery
            cases hquery
            exact ⟨result, rfl, hfault⟩
        | none =>
            -- the search goes through only if something was found
            obtain ⟨h, rfl⟩ : ∃ h, result = .ok (some h) := by
              unfold searchFault? at hfault
              split at hfault
              · exact ⟨_, rfl⟩
              · cases hfault
              · cases hfault
              · split at hfault <;> cases hfault
              · cases hfault
            rw [queryOne, Fallible.bind_of_ok (Fallible.tryCatch_of_ok hcall)] at hquery
            cases hquery
  · rintro ⟨result, hcall, hfault⟩
    exact s.queryOne_of_searchFault? hcall hfault

end Surface

/-! ### Browsers with failures of their own only -/

/-- A browser that fails only with its own failures. -/
structure Page.RaisesOwn {σ : Type} (page : Page σ) : Prop where
  start : ∀ c state message, (page.start c state).1.fault ≠ some (.foreign message)
  act : ∀ c state message, (page.act c state).1 ≠ .error (.foreign message)

/-- The search for an element can fail without a message. -/
def Page.SearchesSilently {σ : Type} (page : Page σ) : Prop :=
  ∃ selector timeout w w',
    Interaction.await (Work.call page (.waitForSelector selector timeout)) w =
      (.error (.page (.error "")), w')

/-- A failure of the browser's own, or a call that never ends. -/
inductive Fault.IsOwn : Fault → Prop where
  | hung : IsOwn .hung
  | error (message : String) : IsOwn (.page (.error message))
  | timeout (message : String) : IsOwn (.page (.timeout message))

namespace Page.RaisesOwn

variable {σ : Type} {page : Page σ} {w w' : World σ} {f : Fault}

theorem isOwn_of_act (hown : page.RaisesOwn) {c : Call}
    (hact : Work.act page c w = (.error f, w')) : f.IsOwn := by
  have hend : Work.act page c w =
      ((page.act c w.page).1.mapError .page, { w with page := (page.act c w.page).2 }) := rfl
  rw [hend] at hact
  cases hanswer : page.act c w.page with
  | mk answer next =>
      rw [hanswer] at hact
      cases answer with
      | ok v => cases hact
      | error fault =>
          cases hact
          cases fault with
          | error message => exact .error message
          | timeout message => exact .timeout message
          | foreign message =>
              refine absurd ?_ (hown.act c w.page message)
              rw [hanswer]

theorem isOwn_of_finish (hown : page.RaisesOwn) {c : Call} {w₁ : World σ}
    (hfinish : (Work.call page c w).1.finish w₁ = (.error f, w')) : f.IsOwn := by
  have hstart := hown.start c w.page
  simp only [Work.call] at hfinish
  cases hfault : (page.start c w.page).1.fault with
  | none =>
      rw [hfault] at hfinish
      exact hown.isOwn_of_act hfinish
  | some fault =>
      rw [hfault] at hfinish hstart
      cases hfinish
      cases fault with
      | error message => exact .error message
      | timeout message => exact .timeout message
      | foreign message => exact absurd rfl (hstart message)

theorem isOwn_of_await (hown : page.RaisesOwn) {c : Call}
    (hcall : Interaction.await (Work.call page c) w = (.error f, w')) : f.IsOwn := by
  have hbegin : Interaction.begin (Work.call page c) w =
      (.ok (Work.call page c w).1, (Work.call page c w).2) := rfl
  rw [Interaction.await, Fallible.bind_of_ok hbegin] at hcall
  cases hdelay : (Work.call page c w).1.delay with
  | none =>
      rw [hdelay] at hcall
      exact hown.isOwn_of_finish hcall
  | after seconds =>
      rw [hdelay] at hcall
      exact hown.isOwn_of_finish hcall
  | never =>
      rw [hdelay] at hcall
      cases hcall
      exact .hung

theorem isOwn_of_race (hown : page.RaisesOwn) {c : Call}
    (hrace : Interaction.race (Work.call page c) w = (.error f, w')) : f.IsOwn := by
  rw [Interaction.race_apply] at hrace
  split at hrace
  · cases hrace
  · cases houtlast : (Work.call page c w.ring).2.outlast (Work.call page c w.ring).1.delay with
    | mk ending next =>
        simp only [houtlast] at hrace
        cases ending with
        | finished => exact hown.isOwn_of_finish (Interaction.map_eq_error_iff.1 hrace)
        | stopped => cases hrace
        | never =>
            cases hrace
            exact .hung

end Page.RaisesOwn

namespace Surface

variable {σ : Type} {s : Surface σ}

theorem Operation.report_cases (o : Operation) {f : Fault} (hf : f.IsOwn) :
    o.report f = .hung ∨ ∃ e, o.report f = .surface e := by
  cases hf with
  | hung => exact .inl rfl
  | error message => exact .inr ⟨_, rfl⟩
  | timeout message => exact .inr ⟨_, rfl⟩

theorem Raises.isOwn {page : Page σ} (hown : page.RaisesOwn) {ops : List Operation} {o : Operation}
    {f : Fault} {w w' : World σ} (hraises : Raises page ops w o f w') : f.IsOwn := by
  induction hraises with
  | here hcall => exact hown.isOwn_of_await hcall
  | later _ _ ih => exact ih

/-- Without silent searches the browser's own failures are all translated. -/
theorem civil_of_raisesOwn (hown : s.page.RaisesOwn) (hspeaks : ¬ s.page.SearchesSilently) :
    s.Civil := by
  have hwait (awaited : Awaited) (o : Operation) (ho : waitOperation? s.timeouts awaited = some o)
      (w w' : World σ) (f : Fault) (hrace : Interaction.race (s.work awaited) w = (.error f, w')) :
      f = .hung ∨ ∃ e, f = .surface e := by
    obtain ⟨f', hcall, rfl⟩ := (s.race_work_eq_error_iff ho).1 hrace
    exact o.report_cases (hown.isOwn_of_race hcall)
  constructor
  · intro task w f w' hresult
    by_cases htask : ∃ selector, task = .queryOne selector
    · obtain ⟨selector, rfl⟩ := htask
      obtain ⟨result, hcall, hfault⟩ := (s.queryOne_eq_error_iff selector).1 hresult
      cases result with
      | ok found =>
          cases found with
          | some h => cases hfault
          | none => exact .inr ⟨_, (Option.some.inj hfault).symm⟩
      | error f' =>
          cases hown.isOwn_of_await hcall with
          | hung => exact .inl (Option.some.inj hfault).symm
          | timeout message => exact .inr ⟨_, (Option.some.inj hfault).symm⟩
          | error message =>
              have hmessage : message ≠ "" := by
                rintro rfl
                exact hspeaks ⟨selector, s.timeouts.action, w, w', hcall⟩
              rw [searchFault?, if_neg hmessage] at hfault
              exact .inr ⟨_, (Option.some.inj hfault).symm⟩
    · have hperforms := s.performs_carryOut fun selector hselector => htask ⟨selector, hselector⟩
      obtain ⟨o, f', hraises, rfl⟩ := (hperforms w f w').1 hresult
      exact o.report_cases (hraises.isOwn hown)
  · intro state w f w' hresult
    cases state with
    | loaded => exact hwait (.page .loaded) _ rfl w w' f hresult
    | networkIdle => exact hwait (.page .networkIdle) _ rfl w w' f hresult
  · intro h state w f w' hresult
    cases state with
    | visible => exact hwait (.element h .visible) _ rfl w w' f hresult
    | invisible => exact hwait (.element h .invisible) _ rfl w w' f hresult
    | stable => exact hwait (.element h .stable) _ rfl w w' f hresult

end Surface

/-! ### Single actions on the browser -/

/-- The kinds of actions that do something with the page or an element and lead to no other action. -/
def Kind.actsOnPage : Kind → Bool
  | .has | .inspect _ | .attributeOf | .gesture _ | .input | .press | .navigate | .eval
  | .awaitPage _ | .awaitElement _ => true
  | _ => false

/-- The code that a failure of the surface has for an evaluation. -/
def SurfaceError.code : SurfaceError → ErrorCode
  | .notFound _ => .elementNotFound
  | .failed .. => .surfaceError

namespace Interpreter

open Plan Handler

variable {σ : Type} {it : Interpreter σ} {a : Action} {frame : Frame Handle} {w w' : World σ} {k : Kind}

theorem not_leads_of_actsOnPage (hkind : a.form.kind? = some k) (hk : k.actsOnPage = true)
    (program : Program) (b : Action) (g : Frame Handle) : ¬ Leads program a frame b g := by
  intro hlead
  obtain ⟨loc, hpart⟩ | ⟨⟨items, _, _, _, _, hitems, -⟩, -⟩ | ⟨name, hform, -⟩ := hlead.cases_hasPart
  · generalize a.form = form at hkind hpart
    cases hpart <;> cases hkind <;> cases hk
  · rw [Form.kind?_of_items? hitems] at hkind
    cases hkind
    cases hk
  · rw [hform] at hkind
    cases hkind

theorem request_ne_evaluate (hkind : a.form.kind? = some k) (hk : k.actsOnPage = true)
    {e : Occurrence σ} (he : e ∈ it.requests a frame w) (b : Action) (g : Frame Handle) :
    e.request ≠ .evaluate b g := fun hrequest =>
  not_leads_of_actsOnPage hkind hk _ b g (leads_of_mem_requests he hrequest)

/-- An action on the page asks for no other action, so its course is what it asks for itself. -/
theorem course_of_actsOnPage (hkind : a.form.kind? = some k) (hk : k.actsOnPage = true)
    (frame : Frame Handle) (w : World σ) : it.course a frame w = it.requests a frame w := by
  rw [course_eq]
  calc (it.requests a frame w).flatMap (fun e => e :: it.innerCourse e)
      = (it.requests a frame w).flatMap (fun e => [e]) := by
        refine List.flatMap_congr fun e he => ?_
        rw [innerCourse_eq_nil (request_ne_evaluate hkind hk he)]
    _ = it.requests a frame w := List.flatMap_singleton' _

theorem rescue_surface (a : Action) (frame : Frame Handle) (e : SurfaceError) (w : World σ) :
    ∃ payload records, rescue a frame (.fault (.surface e)) w =
      (.error (.failure frame a.payload e.code e.message payload), { w with records }) := by
  cases e with
  | failed message operation details => exact ⟨_, _, rfl⟩
  | notFound selector => exact ⟨_, w.records, rfl⟩

/-- Unless the evaluation waits for ever it has an outcome.  Whatever failed on the way is a failure
of the surface, and the outcome is the error that belongs to it. -/
def Translates (it : Interpreter σ) (a : Action) (frame : Frame Handle) (w : World σ) : Prop :=
  (∀ e ∈ it.course a frame w, ¬ it.Stalls e) →
    ∃ o w', (it.evaluate a frame).outcome w = (.ok o, w') ∧
      ∀ e ∈ it.course a frame w, ∀ f w₁,
        it.serve it.evaluate e.request e.world = (.error (.fault f), w₁) →
          ∃ cause, f = .surface cause ∧
            ∃ err, o = .error err ∧ err.code = cause.code ∧ err.message = cause.message

/-- A request that fails is what stops the plan of an action. -/
theorem run_of_mem_requests {e : Occurrence σ} {s : Stop} (he : e ∈ it.requests a frame w)
    (hserve : it.serve it.evaluate e.request e.world = (.error s, w')) :
    (it.plan a (frame.enter a.name)).run (it.serve it.evaluate) w = (.error s, w') := by
  have hadmits := (asks_of_mem_requests he).1
  rw [requests_of_admits hadmits] at he
  obtain ⟨before, after, hcourse⟩ := List.append_of_mem he
  exact (run_of_unanswered hcourse hserve).1

/-- An action on the page is stopped by a failure of its own, or by what a request failed with. -/
theorem stop_cases_of_actsOnPage (hdispatch : it.dispatch? a = a.form.kind?)
    (hkind : a.form.kind? = some k) (hk : k.actsOnPage = true)
    (hadmits : it.Admits (frame.enter a.name)) {s : Stop}
    (hrun : (it.plan a (frame.enter a.name)).run (it.serve it.evaluate) w = (.error s, w')) :
    (∃ err, s = .failed err) ∨ ∃ f, s = .fault f ∧ ∃ e ∈ it.requests a frame w,
      it.serve it.evaluate e.request e.world = (.error (.fault f), w') := by
  cases s with
  | failed err => exact .inl ⟨err, rfl⟩
  | fault f =>
      obtain hhalts | ⟨e, he, hserve⟩ := (it.proper_plan a _).stops_or_unanswered hrun
      · obtain ⟨hother, -⟩ | ⟨hstore, -⟩ := hhalts.fault_cases
        · exact absurd hdispatch.symm hother
        · rw [hkind] at hstore
          cases hstore
          cases hk
      · rw [← requests_of_admits hadmits] at he
        exact .inr ⟨f, rfl, e, he, hserve⟩

theorem translates_of_civil (hcivil : it.surface.Civil) (hdispatch : it.dispatch? a = a.form.kind?)
    (hkind : a.form.kind? = some k) (hk : k.actsOnPage = true) (frame : Frame Handle) (w : World σ) :
    it.Translates a frame w := by
  intro hends
  rw [Evaluation.outcome]
  rw [course_of_actsOnPage hkind hk] at hends ⊢
  by_cases hadmits : it.Admits (frame.enter a.name)
  · have hform (name : String) : a.form ≠ .call name := by
      intro hform
      rw [hform] at hkind
      cases hkind
    rw [evaluate_of_admits hadmits, step_of_not_call hform]
    cases hrun : (it.plan a (frame.enter a.name)).run (it.serve it.evaluate) w with
    | mk result w₁ =>
        cases result with
        | ok v =>
            rw [Fallible.tryCatch_of_ok hrun]
            refine ⟨.ok v, w₁, rfl, fun e he f w₂ hserve => ?_⟩
            rw [run_of_mem_requests he hserve] at hrun
            cases hrun
        | error s =>
            rw [Fallible.tryCatch_of_error hrun]
            obtain ⟨err, rfl⟩ | ⟨f, rfl, e, he, hserve⟩ :=
              stop_cases_of_actsOnPage hdispatch hkind hk hadmits hrun
            · refine ⟨.error err, w₁, rfl, fun e he f w₂ hserve => ?_⟩
              rw [run_of_mem_requests he hserve] at hrun
              cases hrun
            · have hrequest := request_ne_evaluate hkind hk he
              obtain rfl | ⟨cause, rfl⟩ := serve_fault_cases hcivil hrequest hserve
              · exact absurd ⟨hrequest, w₁, hserve⟩ (hends e he)
              · obtain ⟨payload, records, hrescue⟩ :=
                  rescue_surface a (frame.enter a.name) cause w₁
                rw [hrescue]
                refine ⟨_, _, rfl, fun e' he' f' w₂ hserve' => ?_⟩
                rw [run_of_mem_requests he' hserve'] at hrun
                cases hrun
                exact ⟨cause, rfl, _, rfl, rfl, rfl⟩
  · obtain ⟨message, hevaluate⟩ := evaluate_of_not_admits hadmits
    rw [hevaluate, requests_of_not_admits hadmits]
    exact ⟨_, w, rfl, fun e he => absurd he List.not_mem_nil⟩

/-- An interpreter whose program names one selector. -/
def searching (page : Page σ) (selector : String) (timeout : Int) : Interpreter σ where
  program := ⟨[("it", selector)], [], []⟩
  surface := { page, timeouts := { action := timeout } }
  registry := .builtin .initial Registry.defaultMaxDepth

/-- A silent failure of the search stops an evaluation with a fault. -/
theorem not_translates_of_silent {page : Page σ} {selector : String} {timeout : Int}
    (hsilent : Interaction.await (Work.call page (.waitForSelector selector timeout)) w =
      (.error (.page (.error "")), w')) :
    ¬ (searching page selector timeout).Translates
      (.node none (.gesture .click (some "$it"))) ⟨"root[0]", 0, none, []⟩ w := by
  let it := searching page selector timeout
  let a : Action := .node none (.gesture .click (some "$it"))
  let frame : Frame Handle := ⟨"root[0]", 0, none, []⟩
  have hserve : it.serve it.evaluate (.carryOut (.queryOne selector)) w =
      (.error (.fault .outOfRange), w') := by
    have hquery : it.surface.queryOne selector w = (.error .outOfRange, w') :=
      it.surface.queryOne_of_searchFault? hsilent rfl
    change Evaluation.ofInteraction (it.surface.queryOne selector) w = _
    rw [Evaluation.ofInteraction, hquery]
    rfl
  have hcourse : it.course a frame w = [⟨.carryOut (.queryOne selector), w⟩] := by
    have hadmits : it.Admits (frame.enter a.name) := by
      have hlength : ((frame.enter "click").source.length : Int) ≤ 1000 := by decide
      exact ⟨hlength, by simp [frame, it, searching, Registry.defaultMaxDepth]⟩
    obtain ⟨next, hplan⟩ : ∃ next, it.plan a (frame.enter a.name) =
        .request (.carryOut (.queryOne selector)) next := by
      rw [plan_of_dispatch? (dispatch?_eq_kind? rfl a)]
      exact ⟨_, rfl⟩
    rw [@course_of_actsOnPage _ it a _ rfl rfl, requests_of_admits hadmits, hplan,
      course_request_of_error hserve]
  intro htranslates
  have hends : ∀ e ∈ it.course a frame w, ¬ it.Stalls e := by
    rw [hcourse]
    rintro e he ⟨-, w₁, hstalls⟩
    obtain rfl := List.mem_singleton.1 he
    rw [hserve] at hstalls
    cases hstalls
  obtain ⟨o, w₁, -, hfailures⟩ := htranslates hends
  have hmem : ⟨.carryOut (.queryOne selector), w⟩ ∈ it.course a frame w := by
    rw [hcourse]
    exact List.mem_singleton_self _
  obtain ⟨cause, hcause, -⟩ := hfailures _ hmem _ _ hserve
  cases hcause

/-- How the failures of a browser that raises its own only come through.

Every task but the search, and every wait for the browser, fails exactly if one of its calls does;
then the fault is the one that the operation reports.  The search fails if its call does or if it
finds nothing, and reports this in its own way.  The evaluation of a single action on the page always
translates what fails exactly if no search can fail without a message. -/
theorem failures_translated_iff {page : Page σ} (hown : page.RaisesOwn) :
    (∀ t task, (∀ selector, task ≠ .queryOne selector) →
      Surface.Performs page (Surface.operations t task) (Surface.carryOut ⟨page, t⟩ task)) ∧
    (∀ t awaited o, Surface.waitOperation? t awaited = some o → ∀ w g w',
      Interaction.race (Surface.work ⟨page, t⟩ awaited) w = (.error g, w') ↔
        ∃ f, Interaction.race (Work.call page o.call) w = (.error f, w') ∧ g = o.report f) ∧
    (∀ t selector w g w',
      Surface.queryOne ⟨page, t⟩ selector w = (.error g, w') ↔
        ∃ result, Interaction.await (Work.call page (.waitForSelector selector t.action)) w =
            (result, w') ∧ Surface.searchFault? selector result = some g) ∧
    ((∀ (it : Interpreter σ) maxDepth a k frame w, it.surface.page = page →
        it.registry = .builtin .initial maxDepth → a.form.kind? = some k → k.actsOnPage = true →
          it.Translates a frame w) ↔
      ¬ page.SearchesSilently) := by
  refine ⟨?_, ?_, ?_, ?_, ?_⟩
  · intro t task htask
    exact Surface.performs_carryOut ⟨page, t⟩ htask
  · intro t awaited o ho w g w'
    exact Surface.race_work_eq_error_iff ⟨page, t⟩ ho
  · intro t selector w g w'
    exact Surface.queryOne_eq_error_iff ⟨page, t⟩ selector
  · rintro htranslates ⟨selector, timeout, w, w', hsilent⟩
    exact not_translates_of_silent hsilent (htranslates _ _ _ _ _ w rfl rfl rfl rfl)
  · rintro hspeaks it maxDepth a k frame w rfl hregistry hkind hk
    have hcivil := Surface.civil_of_raisesOwn hown hspeaks
    exact translates_of_civil hcivil (dispatch?_eq_kind? hregistry a) hkind hk frame w

end Interpreter

/-! ### A page that says nothing -/

/-- A page that fails at every call with the same message. -/
def Page.failing (message : String) : Page Unit where
  start _ state := (⟨.none, some (.error message)⟩, state)
  act _ state := (.error (.error message), state)

theorem Page.raisesOwn_failing (message : String) : (Page.failing message).RaisesOwn where
  start c state other hfault := by cases hfault
  act c state other hact := by cases hact

theorem Page.searchesSilently_failing_iff {message : String} :
    (Page.failing message).SearchesSilently ↔ message = "" := by
  constructor
  · rintro ⟨selector, timeout, w, w', hcall⟩
    have hmessage : Fault.page (.error message) = .page (.error "") :=
      Except.error.inj (Prod.mk.inj hcall).1
    cases hmessage
    rfl
  · rintro rfl
    exact ⟨"#a", 0, { page := () }, _, rfl⟩

namespace Interpreter

theorem failures_translated_iff_failing :
    (∀ (it : Interpreter Unit) maxDepth a k frame w, it.surface.page = .failing "Target closed" →
      it.registry = .builtin .initial maxDepth → a.form.kind? = some k → k.actsOnPage = true →
        it.Translates a frame w) ∧
    ¬ ∀ (it : Interpreter Unit) maxDepth a k frame w, it.surface.page = .failing "" →
      it.registry = .builtin .initial maxDepth → a.form.kind? = some k → k.actsOnPage = true →
        it.Translates a frame w := by
  obtain ⟨-, -, -, hspeaking⟩ := failures_translated_iff (Page.raisesOwn_failing "Target closed")
  obtain ⟨-, -, -, hsilent⟩ := failures_translated_iff (Page.raisesOwn_failing "")
  constructor
  · exact hspeaking.2 fun hsearch =>
      absurd (Page.searchesSilently_failing_iff.1 hsearch) (by decide)
  · exact fun htranslates => hsilent.1 htranslates (Page.searchesSilently_failing_iff.2 rfl)

end Interpreter

end Pagescript
