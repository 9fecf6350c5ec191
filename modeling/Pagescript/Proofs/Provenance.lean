import Pagescript.Proofs.Totality
/-!
# Where errors come from

The error of an evaluation tells which action has failed and how it was reached.  Its path is the one
of a trail of actions that begins with the action that is evaluated, each reached from the one before
it, and ends with the action that the error shows.
-/

namespace Pagescript

open Plan Handler

/-! ### Trails -/

/-- How an action is reached from the one that leads to it. -/
inductive Way where
  | part
  | turn (index : Nat)
  | item (name : String)
  | call

/-- What a way adds to the path. -/
def Way.suffix : Way → String
  | part | call => ""
  | turn index => "[" ++ toString index ++ "]"
  | item name => ".field[" ++ name ++ "]"

/-- An action leads to its parts, to the turns of its loop, to its items (one that refers to an
action of the program is a call of it), and to the action that it calls. -/
inductive Reaches (program : Program) (a : Action) : Way → Action → Prop where
  | statements {b : Action} {bs : List Action} (hbs : a.form.statements? = some bs) (hb : b ∈ bs) :
    Reaches program a .part b
  | condition {b : Action} (hb : a.form.condition? = some b) : Reaches program a .part b
  | statement {b : Action} (hb : a.form.statement? = some (.node b)) : Reaches program a .part b
  | otherwise {b : Action} (hb : a.form.otherwise? = some (some b)) : Reaches program a .part b
  | turn {b : Action} (hb : a.form.execute? = some b) (index : Nat) :
    Reaches program a (.turn index) b
  | item {b : Action} {name : String} {items : List (String × Item Action)}
    (hitems : a.form.items? = some items) (hb : (name, .node b) ∈ items) :
    Reaches program a (.item name) b
  | reference {b : Action} {name target : String} {items : List (String × Item Action)}
    (hitems : a.form.items? = some items)
    (hs : (name, .literal (.text (reference target))) ∈ items)
    (hselector : Entries.get? program.selectors target = none)
    (haction : Entries.get? program.actions target = some b) :
    Reaches program a (.item name) (.callOf target)
  | call {b : Action} {name : String} (hform : a.form = .call name)
    (hb : program.action? name = some b) : Reaches program a .call b

/-- An action on a trail and the way by which it is reached. -/
structure Link where
  way : Way
  action : Action

/-- From one action to another over some links. -/
inductive Trail (program : Program) : Action → List Link → Action → Prop where
  | here (a : Action) : Trail program a [] a
  | onward {a b last : Action} {way : Way} {links : List Link} (hreaches : Reaches program a way b)
    (htrail : Trail program b links last) : Trail program a (⟨way, b⟩ :: links) last

/-- What a trail adds to the path at which its first action is evaluated. -/
def trailPath (a : Action) : List Link → String
  | [] => "." ++ a.name
  | l :: links => "." ++ a.name ++ l.way.suffix ++ trailPath l.action links

def Form.called? {α : Type} : Form α → Option String
  | .call name => some name
  | _ => none

/-- The names of the calls on a trail before its last action, the outermost first. -/
def trailCalls (a : Action) (links : List Link) : List String :=
  (a :: links.map Link.action).dropLast.filterMap (·.form.called?)

theorem trailCalls_cons (a : Action) (l : Link) (links : List Link) :
    trailCalls a (l :: links) = a.form.called?.toList ++ trailCalls l.action links := by
  rw [trailCalls, trailCalls, List.map_cons, List.dropLast_cons_of_ne_nil (List.cons_ne_nil _ _),
    List.filterMap_cons]
  cases a.form.called? with
  | none => rfl
  | some name => rfl

theorem Reader.eq_reference_of_referenceText {s name : String}
    (hread : Reader.referenceText (.text s) = .valid name) : s = reference name := by
  simp only [Reader.referenceText] at hread
  split at hread
  next c rest hs =>
    split at hread
    · cases hread
    · obtain rfl := Check.valid.inj hread
      apply String.toList_injective
      rw [hs, reference, String.toList_append, String.toList_ofList]
      rfl
  · cases hread

theorem reference_inj {name name' : String} (heq : reference name = reference name') :
    name = name' := by
  have hname := referenced?_eq_some_iff.2 heq
  rw [referenced?_eq_some_iff.2 rfl] at hname
  exact Option.some.inj hname

/-- Where an action leads to is reached by some way, and the frame shows which. -/
theorem Handler.Leads.exists_reaches {program : Program} {a b : Action} {frame g : Frame Handle}
    (hlead : Leads program a frame b g) :
    ∃ way, Reaches program a way b ∧ g.source = frame.source ++ way.suffix ∧
      g.calls = frame.calls ++ a.form.called?.toList := by
  have hcalls (hform : a.form.called? = none) :
      frame.calls = frame.calls ++ a.form.called?.toList := by
    simp [hform]
  have hsource : frame.source = frame.source ++ Way.part.suffix := by
    simp [Way.suffix]
  cases hlead with
  | statements hbs hb =>
      refine ⟨.part, .statements hbs hb, hsource, hcalls ?_⟩
      cases hform : a.form <;> simp_all [Form.statements?, Form.called?]
  | condition hb =>
      refine ⟨.part, .condition hb, hsource, hcalls ?_⟩
      cases hform : a.form <;> simp_all [Form.condition?, Form.called?]
  | statement hb =>
      refine ⟨.part, .statement hb, hsource, hcalls ?_⟩
      cases hform : a.form <;> simp_all [Form.statement?, Form.called?]
  | otherwise hb =>
      refine ⟨.part, .otherwise hb, hsource, hcalls ?_⟩
      cases hform : a.form <;> simp_all [Form.otherwise?, Form.called?]
  | turn hb index handle =>
      refine ⟨.turn index, .turn hb index, ?_, hcalls ?_⟩
      · simp only [Frame.item, Frame.bind, Way.suffix, String.append_assoc]
        rfl
      · cases hform : a.form <;> simp_all [Form.execute?, Form.called?]
  | @item _ name _ hitems hb =>
      refine ⟨.item name, .item hitems hb, ?_, hcalls ?_⟩
      · simp only [Frame.field, Way.suffix, String.append_assoc]
      · cases hform : a.form <;> simp_all [Form.items?, Form.called?]
  | @reference name s called target b items hitems hs hresolve hread =>
      obtain ⟨hcalled, hselector, haction⟩ := Program.resolve_eq_action_iff.1 hresolve
      have hs' := Reader.eq_reference_of_referenceText hread
      obtain rfl := reference_inj (hcalled.symm.trans hs')
      refine ⟨.item name, .reference hitems (hs' ▸ hs) hselector haction, ?_, hcalls ?_⟩
      · simp only [Frame.field, Way.suffix, String.append_assoc]
      · cases hform : a.form <;> simp_all [Form.items?, Form.called?]
  | call hform hb =>
      refine ⟨.call, .call hform hb, ?_, ?_⟩
      · simp [Frame.calling, Way.suffix]
      · simp [Frame.calling, hform, Form.called?]

@[simp]
theorem Action.payload_callOf (name : String) :
    (callOf name).payload = [("action", .text (reference name))] := rfl

theorem Action.payload_of_written {a : Action} {fields : Fields} (hwritten : a.written = some fields) :
    a.payload = fields := by
  rw [payload, hwritten]
  rfl

namespace Interpreter

variable {σ : Type} {it : Interpreter σ} {a : Action} {frame : Frame Handle} {w w' : World σ}

/-! ### One level -/

/-- What is reported of a frame beyond the limits. -/
def limitReport (depth : Int) (length : Nat) (calls : List String) : Value :=
  .mapping [("depth", .int depth), ("length", .int length), ("calls", .list (calls.map .text))]

/-- The error is the action's own: it shows the action and the path at which it was entered. -/
structure OwnError (it : Interpreter σ) (a : Action) (frame : Frame Handle) (e : ActionError) :
    Prop where
  source : e.source = (frame.enter a.name).source
  action : e.action = .mapping a.payload
  length : e.code ≠ .recursionLimit → e.source.length ≤ it.maxSourceLength
  payload : e.code = .recursionLimit →
    e.payload = [limitReport (frame.depth + 1) e.source.length frame.calls]

theorem ownError_of_admits (hadmits : it.Admits (frame.enter a.name)) {code : ErrorCode}
    (hcode : code ≠ .recursionLimit) {e : ActionError} {message : String} {payload : List Value}
    (he : Stop.failed e = .failure (frame.enter a.name) a.payload code message payload) :
    it.OwnError a frame e := by
  cases he
  exact ⟨rfl, rfl, fun _ => hadmits.1, fun hlimit => absurd hlimit hcode⟩

/-- An action fails with an error of its own, or passes on the error of an action it leads to. -/
theorem failed_cases {e : ActionError}
    (hresult : it.evaluate a frame w = (.error (.failed e), w')) :
    it.OwnError a frame e ∨
      it.Admits (frame.enter a.name) ∧ ∃ b g w₁, Leads it.program a (frame.enter a.name) b g ∧
        it.evaluate b g w₁ = (.error (.failed e), w') := by
  by_cases hadmits : it.Admits (frame.enter a.name)
  · obtain ⟨code, message, payload, hcode, -, he⟩ | ⟨b, g, w₁, hmem, hinner⟩ :=
      failed_of_admits hadmits hresult
    · exact .inl (ownError_of_admits hadmits hcode he)
    · exact .inr ⟨hadmits, b, g, w₁, leads_of_mem_requests hmem rfl, hinner⟩
  · obtain ⟨message, hevaluate⟩ := evaluate_of_not_admits hadmits
    rw [hevaluate] at hresult
    cases hresult
    exact .inl ⟨rfl, rfl, fun hcode => absurd rfl hcode, fun _ => rfl⟩

/-! ### The whole trail -/

/-- The error is that of the last action of a trail. -/
structure ErrorAlong (it : Interpreter σ) (a : Action) (frame : Frame Handle) (links : List Link)
    (last : Action) (e : ActionError) : Prop where
  trail : Trail it.program a links last
  source : e.source = frame.source ++ trailPath a links
  action : e.action = .mapping last.payload
  length : e.code ≠ .recursionLimit → e.source.length ≤ it.maxSourceLength
  payload : e.code = .recursionLimit →
    e.payload = [limitReport (frame.depth + links.length + 1) e.source.length
      (frame.calls ++ trailCalls a links)]

theorem OwnError.errorAlong {e : ActionError} (hown : it.OwnError a frame e) :
    it.ErrorAlong a frame [] a e where
  trail := .here a
  source := by rw [hown.source, trailPath, Frame.enter, String.append_assoc]
  action := hown.action
  length := hown.length
  payload hcode := by
    rw [hown.payload hcode]
    simp [trailCalls]

theorem ErrorAlong.onward {b last : Action} {g : Frame Handle} {links : List Link} {e : ActionError}
    (hlead : Leads it.program a (frame.enter a.name) b g)
    (herror : it.ErrorAlong b g links last e) :
    ∃ way, it.ErrorAlong a frame (⟨way, b⟩ :: links) last e := by
  obtain ⟨way, hreaches, hsource, hcalls⟩ := hlead.exists_reaches
  refine ⟨way, .onward hreaches herror.trail, ?_, herror.action, herror.length, fun hcode => ?_⟩
  · rw [herror.source, hsource, trailPath]
    simp only [Frame.enter, String.append_assoc]
  · have hdepth : g.depth + links.length + 1 = frame.depth + (links.length + 1 : Nat) + 1 := by
      rw [hlead.depth_eq, Frame.depth_enter]
      omega
    have hcalls' : g.calls ++ trailCalls b links = frame.calls ++ trailCalls a (⟨way, b⟩ :: links) := by
      rw [hcalls, trailCalls_cons, List.append_assoc]
      rfl
    rw [herror.payload hcode, hdepth, hcalls', List.length_cons]

theorem exists_errorAlong {e : ActionError}
    (hresult : it.evaluate a frame w = (.error (.failed e), w')) :
    ∃ links last, it.ErrorAlong a frame links last e := by
  induction a, frame using it.evaluation_induction generalizing w with
  | hstep a frame ih =>
      obtain hown | ⟨hadmits, b, g, w₁, hlead, hinner⟩ := failed_cases hresult
      · exact ⟨[], a, hown.errorAlong⟩
      · obtain ⟨links, last, herror⟩ := ih hadmits b g hlead.depth_eq hinner
        obtain ⟨way, herror⟩ := herror.onward hlead
        exact ⟨⟨way, b⟩ :: links, last, herror⟩

/-- The error of an evaluation comes from the last action of a trail that begins with the action that
is evaluated.

Its path is the path of the frame with what the trail adds to it, and it shows the last action as it
was written, or as a call if it was made up from an item.  The path is within the limit unless the
limits are what the error is about; then it reports how deep the last action lies, how long the path
is, and which calls it is inside of. -/
theorem error_provenance {e : ActionError}
    (hresult : it.evaluate a frame w = (.error (.failed e), w')) :
    ∃ links last, it.ErrorAlong a frame links last e ∧
      (∀ fields, last.written = some fields → e.action = .mapping fields) ∧
      ∀ name, last = .callOf name → e.action = .mapping [("action", .text (reference name))] := by
  obtain ⟨links, last, herror⟩ := exists_errorAlong hresult
  refine ⟨links, last, herror, ?_, ?_⟩
  · intro fields hwritten
    rw [herror.action, Action.payload_of_written hwritten]
  · rintro name rfl
    rw [herror.action, Action.payload_callOf]

/-! ### A trail through a loop, an item and two calls -/

/-- An action that goes through a list and stores what it gives itself for each element. -/
def storingItself : Action :=
  .node none (.forEach "li" (.node none (.store [("x", .literal (.text "$go"))])))

def callingItself : Interpreter Script :=
  { ofKinds [.forEach, .store] with
    program := ⟨[], [("go", storingItself)], []⟩
    maxDepth := 4 }

/-- A page with one element in a list. -/
def onListPage : World Script where
  page := ⟨[("li", some [⟨.null, .null, [], .null, []⟩])], [], [], [], []⟩

theorem error_provenance_callingItself :
    ∃ e w', callingItself.evaluate (.callOf "go") { source := "root[0]" } onListPage =
        (.error (.failed e), w') ∧
      e.source = "root[0].$go.forEach[0].store.field[x].$go.forEach" ∧
      e.payload = [limitReport 5 49 ["go", "go"]] ∧
      ∃ links last, callingItself.ErrorAlong (.callOf "go") { source := "root[0]" } links last e := by
  obtain ⟨e, w', hresult, hsource, hpayload⟩ : ∃ e w', callingItself.evaluate (.callOf "go")
      { source := "root[0]" } onListPage = (.error (.failed e), w') ∧
        e.source = "root[0].$go.forEach[0].store.field[x].$go.forEach" ∧
        e.payload = [limitReport 5 49 ["go", "go"]] := ⟨_, _, rfl, by decide, rfl⟩
  obtain ⟨links, last, herror, -, -⟩ := error_provenance hresult
  exact ⟨e, w', hresult, hsource, hpayload, links, last, herror⟩

end Interpreter

end Pagescript
