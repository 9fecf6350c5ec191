import Pagescript.Proofs.Registry
/-!
# When evaluation gives an outcome

With all kinds registered, and a browser that fails in no way but its own, the evaluation of an
action ends with an outcome.  There is one exception: an item of a store action may name an action
of the program by a text from which no call can be made up.
-/

namespace Pagescript

open Plan Handler

/-! ### Readable names -/

/-- A name that can stand in a reference: it begins with something else than a line feed. -/
def Readable (name : String) : Prop :=
  ∃ c rest, name.toList = c :: rest ∧ c ≠ '\n'

theorem referenced?_eq_some_iff {s name : String} :
    referenced? s = some name ↔ s = reference name := by
  constructor
  · intro hname
    unfold referenced? at hname
    split at hname
    next rest hs =>
      obtain rfl := Option.some.inj hname
      apply String.toList_injective
      rw [hs, reference, String.toList_append, String.toList_ofList]
      rfl
    · cases hname
  · rintro rfl
    rw [referenced?, reference, String.toList_append]
    simp [sigil]

theorem exists_referenceText_iff {name : String} :
    (∃ target, Reader.referenceText (.text (reference name)) = .valid target) ↔ Readable name := by
  rw [Readable, Reader.referenceText, reference, String.toList_append]
  cases hname : name.toList with
  | nil => simp [sigil, Check.fail]
  | cons c rest =>
      by_cases hc : c = '\n'
      · simp [sigil, hc, Check.fail]
      · simp [sigil, hc]

namespace Program

variable {program : Program} {s name : String}

theorem resolve_eq_action_iff {target : Action} :
    program.resolve s = .action name target ↔
      s = reference name ∧ Entries.get? program.selectors name = none ∧
        Entries.get? program.actions name = some target := by
  rw [← referenced?_eq_some_iff, resolve]
  cases hs : referenced? s with
  | none => simp
  | some named =>
      simp only [Option.some.injEq]
      cases hselector : Entries.get? program.selectors named with
      | some selector => grind
      | none =>
          cases haction : Entries.get? program.actions named with
          | some target' => grind
          | none => grind

theorem unreadable_reference_iff :
    program.Unreadable (reference name) ↔
      (∃ target, Entries.get? program.actions name = some target) ∧
        Entries.get? program.selectors name = none ∧ ¬ Readable name := by
  rw [Unreadable, ← exists_referenceText_iff, not_exists]
  constructor
  · rintro ⟨⟨name', target, hresolve⟩, hread⟩
    obtain ⟨hname, hselector, haction⟩ := resolve_eq_action_iff.1 hresolve
    have heq : name' = name := by
      have hsome := referenced?_eq_some_iff.2 hname
      rw [referenced?_eq_some_iff.2 rfl] at hsome
      exact (Option.some.inj hsome).symm
    subst heq
    exact ⟨⟨target, haction⟩, hselector, hread⟩
  · rintro ⟨⟨target, haction⟩, hselector, hread⟩
    exact ⟨⟨name, target, resolve_eq_action_iff.2 ⟨rfl, hselector, haction⟩⟩, hread⟩

theorem Unreadable.exists_eq_reference (hs : program.Unreadable s) :
    ∃ name, s = reference name := by
  obtain ⟨⟨name, target, hresolve⟩, -⟩ := hs
  exact ⟨name, (resolve_eq_action_iff.1 hresolve).1⟩

end Program

/-! ### Items that cannot be read -/

/-- The fields of a store action with one item, which is a text. -/
def storing (s : String) : Fields :=
  [("action", .text "store"), ("items", .mapping [("value", .text s)])]

theorem Registry.parseAction_storing {maxDepth : Int} (hdepth : 1 ≤ maxDepth) (s : String) :
    (builtin .initial maxDepth).parseAction (.mapping (storing s)) =
      .ok (.node (some (storing s)) (.store [("value", .literal (.text s))])) := by
  obtain ⟨budget, hbudget⟩ : ∃ budget, maxDepth.toNat = budget + 1 := ⟨maxDepth.toNat - 1, by omega⟩
  have hschema : (builtin .initial maxDepth).schemaOf? "store" = some (.kind .store) := by
    rw [schemaOf?, show "store" = Kind.store.name from rfl, get?_builtin]
    rfl
  have hraw : rawAction (.mapping (storing s)) = .ok (storing s, "store") := rfl
  rw [parseAction, maxDepth_builtin, hbudget, parseWithin, hraw]
  simp only [Bind.bind, Except.bind, hschema]
  rfl

theorem Registry.parseAction_ne_ok {maxDepth : Int} (hdepth : maxDepth < 1) (v : Value)
    (a : Action) : (builtin .initial maxDepth).parseAction v ≠ .ok a := by
  have hbudget : maxDepth.toNat = 0 := by omega
  rw [parseAction, maxDepth_builtin, hbudget, parseWithin]
  cases rawAction v with
  | error e => exact nofun
  | ok raw =>
      obtain ⟨fields, kind⟩ := raw
      simp only [Bind.bind, Except.bind]
      split
      · exact nofun
      · exact nofun

theorem Handler.exists_plan_storing_unreadable {program : Program} {s : String}
    (hs : program.Unreadable s) {written : Option Fields} {frame : Frame Handle} :
    ∃ issues, plan program .store (.node written (.store [("value", .literal (.text s))])) frame =
      .stop (.fault (.badReference issues)) := by
  obtain ⟨⟨name, target, hresolve⟩, hread⟩ := hs
  cases hissues : Reader.referenceText (.text s) with
  | valid called => exact absurd hissues (hread called)
  | invalid issues =>
      have hitem : itemValue program (frame.field "value") (.literal (.text s)) =
          .stop (.fault (.badReference (issues.map (Issue.under (.key "action"))))) := by
        simp only [itemValue, hresolve, hissues]
      have hitems : itemValues program frame [("value", .literal (.text s))] =
          .stop (.fault (.badReference (issues.map (Issue.under (.key "action"))))) := by
        rw [itemValues, hitem]
        rfl
      refine ⟨issues.map (Issue.under (.key "action")), ?_⟩
      rw [plan_store rfl, hitems]
      rfl

/-! ### Outcomes -/

/-- A surface whose operations raise nothing but failures of the surface; they may never end. -/
structure Surface.Civil {σ : Type} (surface : Surface σ) : Prop where
  carryOut : ∀ task w f w', surface.carryOut task w = (.error f, w') →
    f = .hung ∨ ∃ e, f = .surface e
  waitPage : ∀ state w f w', Interaction.race (surface.waitPage state) w = (.error f, w') →
    f = .hung ∨ ∃ e, f = .surface e
  waitElement : ∀ h state w f w',
    Interaction.race (surface.waitElement h state) w = (.error f, w') →
      f = .hung ∨ ∃ e, f = .surface e

namespace Interpreter

variable {σ : Type} {it : Interpreter σ} {a : Action} {frame : Frame Handle} {w w' : World σ}

theorem serve_fault_cases (hcivil : it.surface.Civil) {ev : Evaluator σ} {r : Request} {f : Fault}
    (hr : ∀ b g, r ≠ .evaluate b g) (hserve : it.serve ev r w = (.error (.fault f), w')) :
    f = .hung ∨ ∃ e, f = .surface e := by
  cases r with
  | evaluate b g => exact absurd rfl (hr b g)
  | carryOut task => exact hcivil.carryOut task w f w' (Evaluation.of_ofInteraction_fault hserve)
  | wait awaited =>
      have hrace := Evaluation.of_ofInteraction_fault hserve
      cases awaited with
      | pause seconds => exact .inl (Interaction.race_sleep_error hrace).1
      | page state => exact hcivil.waitPage state w f w' hrace
      | element h state => exact hcivil.waitElement h state w f w' hrace
  | timeout => cases hserve
  | lookUp name => cases hserve
  | commit batch => cases hserve
  | log level message => cases hserve

theorem six_le_of_admits_store (hkind : a.form.kind? = some .store)
    (hadmits : it.Admits (frame.enter a.name)) : 6 ≤ it.maxSourceLength := by
  have hname : a.name.length = 5 := by
    rw [Action.name, Form.name_eq_of_kind? hkind]
    rfl
  have hlength := hadmits.1
  rw [Frame.length_source_enter] at hlength
  omega

/-- An evaluation ends with an outcome, unless it meets a reference that cannot be read or waits for
ever. -/
theorem outcome_or_stalls (hcivil : it.surface.Civil)
    (hdispatch : ∀ a, it.dispatch? a = a.form.kind?)
    (hread : it.maxSourceLength < 6 ∨ ∀ s, ¬ it.program.Unreadable s)
    (a : Action) (frame : Frame Handle) (w : World σ) :
    (∃ o w', (it.evaluate a frame).outcome w = (.ok o, w')) ∨
      ∃ e ∈ it.course a frame w, it.Stalls e := by
  rw [Evaluation.outcome]
  cases hresult : it.evaluate a frame w with
  | mk result w' =>
      cases result with
      | ok v => exact .inl ⟨.ok v, w', rfl⟩
      | error s =>
          cases s with
          | failed e => exact .inl ⟨.error e, w', rfl⟩
          | fault f =>
              obtain ⟨b, g, hadmits, hhalts⟩ | ⟨e, he, hrequest, hserve⟩ := fault_origin hresult
              · obtain ⟨hkind, -⟩ | ⟨hkind, ⟨s, hs⟩, -⟩ := hhalts.fault_cases
                · exact absurd (hdispatch b).symm hkind
                · have hlength := six_le_of_admits_store hkind hadmits
                  obtain hshort | hread := hread
                  · omega
                  · exact absurd hs (hread s)
              · obtain rfl | ⟨e, rfl⟩ := serve_fault_cases hcivil hrequest hserve
                · exact .inr ⟨e, he, hrequest, w', hserve⟩
                · exact absurd hresult (it.evaluate_ne_surface a frame e w w')

/-- A store action whose item cannot be read stops with a fault, before it asks for anything. -/
theorem evaluate_storing_unreadable {s : String} {written : Option Fields}
    (hdispatch : ∀ a, it.dispatch? a = a.form.kind?) (hs : it.program.Unreadable s)
    (hlength : 6 ≤ it.maxSourceLength) (w : World σ) :
    let a : Action := .node written (.store [("value", .literal (.text s))])
    let frame : Frame Handle := { source := "", depth := it.maxDepth - 1 }
    (∃ issues, (it.evaluate a frame).outcome w = (.error (.badReference issues), w)) ∧
      it.course a frame w = [] := by
  intro a frame
  have hadmits : it.Admits (frame.enter a.name) := by
    constructor
    · have hsource : (frame.enter a.name).source.length = 6 := by
        have hname : a.name = "store" := rfl
        rw [Frame.length_source_enter, hname]
        rfl
      omega
    · rw [Frame.depth_enter]
      simp only [frame]
      omega
  obtain ⟨issues, hplan⟩ : ∃ issues,
      it.plan a (frame.enter a.name) = .stop (.fault (.badReference issues)) := by
    rw [plan_of_dispatch? (hdispatch a)]
    exact exists_plan_storing_unreadable hs
  constructor
  · refine ⟨issues, ?_⟩
    have hrun : (it.plan a (frame.enter a.name)).run (it.serve it.evaluate) w =
        (.error (.fault (.badReference issues)), w) := by
      rw [hplan]
      rfl
    rw [Evaluation.outcome, evaluate_of_admits hadmits, step_of_error (by simp) hrun]
  · rw [course_eq, requests_of_admits hadmits, hplan]
    rfl

/-- Evaluation gives an outcome, or waits for ever, whatever action is read and evaluated, exactly
if every name of an action that no selector hides can stand in a reference.  (A limit on the path
below six characters lets no store action begin, and a registry without depth lets none be read.) -/
theorem evaluation_total_iff {maxDepth : Int} (hregistry : it.registry = .builtin .initial maxDepth)
    (hcivil : it.surface.Civil) (w : World σ) :
    (∀ v a frame, it.registry.parseAction v = .ok a →
      (∃ o w', (it.evaluate a frame).outcome w = (.ok o, w')) ∨
        ∃ e ∈ it.course a frame w, it.Stalls e) ↔
    maxDepth < 1 ∨ it.maxSourceLength < 6 ∨
      ∀ name, (∃ target, Entries.get? it.program.actions name = some target) →
        Entries.get? it.program.selectors name = none → Readable name := by
  have hdispatch := dispatch?_eq_kind? hregistry
  constructor
  · intro htotal
    by_cases hdepth : maxDepth < 1
    · exact .inl hdepth
    by_cases hlength : it.maxSourceLength < 6
    · exact .inr (.inl hlength)
    refine .inr (.inr fun name haction hselector => ?_)
    by_contra hname
    have hs : it.program.Unreadable (reference name) :=
      Program.unreadable_reference_iff.2 ⟨haction, hselector, hname⟩
    have hparse := Registry.parseAction_storing (by omega : 1 ≤ maxDepth) (reference name)
    rw [← hregistry] at hparse
    obtain ⟨⟨issues, hresult⟩, hcourse⟩ := evaluate_storing_unreadable hdispatch hs (by omega) w
    obtain ⟨o, w', houtcome⟩ | ⟨e, he, -⟩ := htotal _ _ _ hparse
    · rw [hresult] at houtcome
      cases houtcome
    · rw [hcourse] at he
      cases he
  · intro hlimits v a frame hparse
    refine outcome_or_stalls hcivil hdispatch ?_ a frame w
    obtain hdepth | hlength | hreadable := hlimits
    · rw [hregistry] at hparse
      exact absurd hparse (Registry.parseAction_ne_ok hdepth v a)
    · exact .inl hlength
    · refine .inr fun s hs => ?_
      obtain ⟨name, rfl⟩ := hs.exists_eq_reference
      obtain ⟨haction, hselector, hname⟩ := Program.unreadable_reference_iff.1 hs
      exact hname (hreadable name haction hselector)

end Interpreter

/-! ### A closed page -/

/-- The surface of a page that is closed: every call on it fails at once. -/
def Surface.closed : Surface Unit where
  page :=
    { start := fun _ state => (⟨.none, some (.error "Target closed")⟩, state)
      act := fun _ state => (.error (.error "Target closed"), state) }

theorem Surface.perform_closed (name : String) (details : Fields) (c : Call) (w : World Unit) :
    ∃ e w', closed.perform name details c w = (.error (.surface e), w') :=
  ⟨_, _, rfl⟩

theorem Surface.carryOut_closed (task : Task) (w : World Unit) :
    ∃ e w', closed.carryOut task w = (.error (.surface e), w') := by
  cases task with
  | queryOne selector => exact ⟨_, _, rfl⟩
  | inspect h inspection => cases inspection <;> exact perform_closed _ _ _ w
  | gesture h g => cases g <;> exact ⟨_, _, rfl⟩
  | _ => exact perform_closed _ _ _ w

theorem Surface.civil_closed : closed.Civil where
  carryOut task w f w' hresult := by
    obtain ⟨e, w₁, hclosed⟩ := carryOut_closed task w
    rw [hclosed] at hresult
    cases hresult
    exact .inr ⟨e, rfl⟩
  waitPage state w f w' hresult := by
    rw [Interaction.race_apply] at hresult
    split at hresult
    · cases hresult
    · cases hresult
      exact .inr ⟨_, rfl⟩
  waitElement h state w f w' hresult := by
    rw [Interaction.race_apply] at hresult
    split at hresult
    · cases hresult
    · cases hresult
      exact .inr ⟨_, rfl⟩

namespace Interpreter

/-- A program on a closed page, whose one action goes by the given name. -/
def onClosedPage (name : String) : Interpreter Unit where
  program := ⟨[], [(name, .node none (.log "called"))], []⟩
  surface := .closed
  registry := .builtin .initial Registry.defaultMaxDepth

/-- An action without a name is enough for an evaluation to go wrong, and one with a name is not. -/
theorem evaluation_total_iff_onClosedPage :
    (∀ v a frame, (onClosedPage "greet").registry.parseAction v = .ok a →
      (∃ o w', ((onClosedPage "greet").evaluate a frame).outcome { page := () } = (.ok o, w')) ∨
        ∃ e ∈ (onClosedPage "greet").course a frame { page := () },
          (onClosedPage "greet").Stalls e) ∧
    ¬ ∀ v a frame, (onClosedPage "").registry.parseAction v = .ok a →
      (∃ o w', ((onClosedPage "").evaluate a frame).outcome { page := () } = (.ok o, w')) ∨
        ∃ e ∈ (onClosedPage "").course a frame { page := () }, (onClosedPage "").Stalls e := by
  constructor
  · refine (evaluation_total_iff rfl Surface.civil_closed _).2 (.inr (.inr ?_))
    rintro name ⟨target, haction⟩ -
    have hname : name = "greet" := by
      by_contra hname
      simp [onClosedPage, Entries.get?_cons, hname] at haction
    rw [hname]
    exact ⟨'g', _, rfl, by decide⟩
  · intro htotal
    obtain hdepth | hlength | hreadable :=
      (evaluation_total_iff rfl Surface.civil_closed _).1 htotal
    · exact absurd hdepth (by decide)
    · exact absurd hlength (by decide)
    · obtain ⟨c, rest, hname, -⟩ := hreadable "" ⟨_, rfl⟩ rfl
      cases hname

end Interpreter

end Pagescript
