import Pagescript.Action.Kind
import Pagescript.Value.Basic
/-!
# Calls on a browser

The operations of a browser, of its page and of the elements of the page, and the type of what each
of them answers.
-/

namespace Pagescript

/-- An element of the page: the one at some position among those a selector matches. -/
structure Handle where
  selector : String
  index : Nat
  deriving DecidableEq, Repr

def Handle.label (h : Handle) : String :=
  h.selector ++ "#" ++ toString h.index

def LoadState.word : LoadState → String
  | loaded => "load"
  | networkIdle => "networkidle"

def ElementState.word : ElementState → String
  | visible => "visible"
  | invisible => "hidden"
  | stable => "stable"

/-- A call on an element.  Time limits are in milliseconds. -/
inductive ElementCall where
  | getAttribute (name : String)
  | evaluate (expression : String)
  | isVisible
  | click (timeout : Int)
  | focus
  | fill (text : String) (timeout : Int)
  | press (key : String) (timeout : Int)
  | selectText (timeout : Int)
  | scrollIntoView (timeout : Int)
  | waitForState (state : ElementState) (timeout : Int)
  deriving DecidableEq, Repr

inductive Call where
  | goto (url : String) (timeout : Int)
  | evaluate (expression : String)
  | waitForLoadState (state : LoadState) (timeout : Int)
  | pressKey (key : String)
  | insertText (text : String)
  | queryAll (selector : String)
  /-- Waits for the first element that a selector matches. -/
  | waitForSelector (selector : String) (timeout : Int)
  | element (handle : Handle) (call : ElementCall)
  | startDriver
  | launchBrowser (headless : Bool)
  | connectBrowser (url : String)
  | newContext
  | newPage
  | closeContext
  | closeBrowser
  | stopDriver
  deriving DecidableEq, Repr

/-- What a call on an element answers. -/
abbrev ElementCall.Answer : ElementCall → Type
  | .getAttribute _ => Value
  | .evaluate _ => Value
  | .isVisible => Value
  | _ => Unit

/-- What a call answers. -/
abbrev Call.Answer : Call → Type
  | .evaluate _ => Value
  | .queryAll _ => List Handle
  | .waitForSelector .. => Option Handle
  | .element _ call => call.Answer
  | _ => Unit

/-- What a call does, apart from its arguments. -/
inductive CallKind where
  | goto
  | evaluate
  | waitForLoadState
  | pressKey
  | insertText
  | queryAll
  | waitForSelector
  | getAttribute
  | evaluateOn
  | isVisible
  | click
  | focus
  | fill
  | press
  | selectText
  | scrollIntoView
  | waitForState
  | startDriver
  | launchBrowser
  | connectBrowser
  | newContext
  | newPage
  | closeContext
  | closeBrowser
  | stopDriver
  deriving DecidableEq, Repr

def ElementCall.kind : ElementCall → CallKind
  | getAttribute _ => .getAttribute
  | evaluate _ => .evaluateOn
  | isVisible => .isVisible
  | click _ => .click
  | focus => .focus
  | fill .. => .fill
  | press .. => .press
  | selectText _ => .selectText
  | scrollIntoView _ => .scrollIntoView
  | waitForState .. => .waitForState

def Call.kind : Call → CallKind
  | goto .. => .goto
  | evaluate _ => .evaluate
  | waitForLoadState .. => .waitForLoadState
  | pressKey _ => .pressKey
  | insertText _ => .insertText
  | queryAll _ => .queryAll
  | waitForSelector .. => .waitForSelector
  | element _ call => call.kind
  | startDriver => .startDriver
  | launchBrowser _ => .launchBrowser
  | connectBrowser _ => .connectBrowser
  | newContext => .newContext
  | newPage => .newPage
  | closeContext => .closeContext
  | closeBrowser => .closeBrowser
  | stopDriver => .stopDriver

def ElementCall.arguments : ElementCall → List Value
  | getAttribute s | evaluate s => [.text s]
  | isVisible | focus => []
  | click timeout | selectText timeout | scrollIntoView timeout => [.int timeout]
  | fill s timeout | press s timeout => [.text s, .int timeout]
  | waitForState state timeout => [.text state.word, .int timeout]

/-- What a call is recorded with besides its kind; an element goes by its label. -/
def Call.arguments : Call → List Value
  | goto url timeout => [.text url, .int timeout]
  | evaluate s | pressKey s | insertText s | queryAll s | connectBrowser s => [.text s]
  | waitForLoadState state timeout => [.text state.word, .int timeout]
  | waitForSelector selector timeout => [.text selector, .text "attached", .int timeout]
  | element h call => .text h.label :: call.arguments
  | launchBrowser headless => [.bool headless]
  | startDriver | newContext | newPage | closeContext | closeBrowser | stopDriver => []

/-- The failure of a call. -/
inductive PageFault where
  | error (message : String)
  /-- The call took longer than its time limit. -/
  | timeout (message : String)
  /-- A failure that is not the browser's own. -/
  | foreign (message : String)
  deriving DecidableEq, Repr

/-- How long a call takes. -/
inductive Delay where
  /-- The call is over as soon as it begins. -/
  | none
  /-- The call gives way at least for a moment, even if the time is not positive. -/
  | after (seconds : Binary64)
  | never
  deriving DecidableEq, Repr

/-- What is settled about a call when it begins. -/
structure Promise where
  delay : Delay
  fault : Option PageFault

/-- The behaviour of a browser whose state is of type `σ`.  A call begins, lasts for its delay, and
then fails or acts. -/
structure Page (σ : Type) where
  start : Call → σ → Promise × σ
  act : (c : Call) → σ → Except PageFault c.Answer × σ

end Pagescript
