import Pagescript.Surface
/-!
# Scripted pages

A browser whose answers are written down beforehand: the elements of the page, the values of
expressions, how long calls take and which of them fail.
-/

namespace Pagescript

/-- The values that expressions will have, each time they are evaluated; the last one stays. -/
abbrev Answers := Entries (List Value)

namespace Answers

/-- The next value of an expression; an expression that is not written down has the value null. -/
def next (answers : Answers) (expression : String) : Value × Answers :=
  match Entries.get? answers expression with
  | some (v :: w :: rest) => (v, Entries.insert answers expression (w :: rest))
  | some [v] => (v, answers)
  | _ => (.null, answers)

end Answers

structure ScriptedElement where
  text : Value
  html : Value
  attributes : Fields
  visible : Value
  answers : Answers

/-- A rule by which calls of a kind fail: all of them, or only the one that comes at some position. -/
structure FaultRule where
  kind : CallKind
  position : Option Int
  fault : PageFault

structure Script where
  /-- The elements that selectors match; a selector may also be known to match nothing for good. -/
  elements : Entries (Option (List ScriptedElement))
  answers : Answers
  delays : List (CallKind × Delay)
  faults : List FaultRule
  /-- The kinds of the calls that have begun, the last one first. -/
  begun : List CallKind := []

namespace Script

def matching (script : Script) (selector : String) : List ScriptedElement :=
  ((Entries.get? script.elements selector).bind id).getD []

def element? (script : Script) (h : Handle) : Option ScriptedElement :=
  (script.matching h.selector)[h.index]?

def setElement (script : Script) (h : Handle) (e : ScriptedElement) : Script :=
  { script with elements :=
      Entries.insert script.elements h.selector (some ((script.matching h.selector).set h.index e)) }

/-- The failure that the rules have for a call of some kind that comes at some position. -/
def faultFor? (script : Script) (kind : CallKind) (position : Nat) : Option PageFault :=
  (script.faults.find? fun rule =>
    rule.kind == kind && (rule.position.isNone || rule.position == some (position : Int))).map (·.fault)

def start (c : Call) (script : Script) : Promise × Script :=
  (⟨(script.delays.lookup c.kind).getD .none,
      script.faultFor? c.kind (script.begun.count c.kind)⟩,
    { script with begun := c.kind :: script.begun })

/-- What an expression on an element gives: two are known for any element. -/
def evaluateOn (script : Script) (h : Handle) (expression : String) : Value × Script :=
  match script.element? h with
  | none => (.null, script)
  | some e =>
    if expression = textScript then (e.text, script)
    else if expression = htmlScript then (e.html, script)
    else
      let (v, answers) := e.answers.next expression
      (v, script.setElement h { e with answers })

def actOn (h : Handle) (c : ElementCall) (script : Script) : c.Answer × Script :=
  match c with
  | .getAttribute name =>
    (((script.element? h).bind fun e => Entries.get? e.attributes name).getD .null, script)
  | .evaluate expression => script.evaluateOn h expression
  | .isVisible => (((script.element? h).map (·.visible)).getD .null, script)
  | .fill text _ =>
    match script.element? h with
    | some e => ((), script.setElement h { e with text := .text text })
    | none => ((), script)
  | .click _ | .focus | .press .. | .selectText _ | .scrollIntoView _ | .waitForState .. => ((), script)

def act (c : Call) (script : Script) : Except PageFault c.Answer × Script :=
  match c with
  | .evaluate expression =>
    let (v, answers) := script.answers.next expression
    (.ok v, { script with answers })
  | .queryAll selector =>
    (.ok ((List.range (script.matching selector).length).map fun i => ⟨selector, i⟩), script)
  | .waitForSelector selector timeout =>
    match Entries.get? script.elements selector with
    | some none => (.ok none, script)
    | some (some (_ :: _)) => (.ok (some ⟨selector, 0⟩), script)
    | _ => (.error (.timeout ("Timeout " ++ toString timeout ++ "ms exceeded.")), script)
  | .element h call =>
    let (answer, next) := actOn h call script
    (.ok answer, next)
  | .goto .. | .waitForLoadState .. | .pressKey _ | .insertText _ | .startDriver | .launchBrowser _
  | .connectBrowser _ | .newContext | .newPage | .closeContext | .closeBrowser | .stopDriver =>
    (.ok (), script)

/-- The behaviour of a scripted browser. -/
def page : Page Script where
  start := start
  act := act

end Script

end Pagescript
