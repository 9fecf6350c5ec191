import Pagescript.Interaction
import Pagescript.Text.Lines
/-!
# The surface of a browser

The operations that actions are carried out by.  A failure of the browser is turned into one that
names the operation; a failure of anything else is passed on.
-/

namespace Pagescript

/-- Time limits in milliseconds. -/
structure Timeouts where
  action : Int := 10000
  navigation : Int := 30000
  wait : Int := 30000

structure Surface (σ : Type) where
  page : Page σ
  timeouts : Timeouts := {}

def textScript : String :=
  "\n    (el) => \x7b\n        if (el instanceof HTMLInputElement || el instanceof " ++
    "HTMLTextAreaElement || el instanceof HTMLSelectElement) \x7b\n            return el.value;\n" ++
    "        \x7d\n        return el.innerText;\n    \x7d\n"

def htmlScript : String := "(el) => el.outerHTML"

def blurScript : String := "(el) => el.blur()"

namespace Surface

variable {σ α : Type}

/-- The failure of the browser in an operation: the first line of its message, or else the name of
the operation. -/
def reportAs (operation : String) (details : Fields) (x : Interaction σ α) : Interaction σ α :=
  tryCatch x fun fault =>
    match fault with
    | .page (.error message) | .page (.timeout message) =>
      throw (.surface (.failed ((Text.firstLine? message).getD operation) operation details))
    | fault => throw fault

/-- A call as an operation that is yet to begin. -/
def operation (s : Surface σ) (name : String) (details : Fields) (c : Call) : Work σ c.Answer :=
  (Work.call s.page c).mapFinish (reportAs name details)

def perform (s : Surface σ) (name : String) (details : Fields) (c : Call) : Interaction σ c.Answer :=
  Interaction.await (s.operation name details c)

def navigate (s : Surface σ) (url : String) : Interaction σ Unit :=
  s.perform "navigate" [("url", .text url)] (.goto url s.timeouts.navigation)

def evaluate (s : Surface σ) (expression : String) : Interaction σ Value :=
  s.perform "evaluate" [("expression", .text expression)] (.evaluate expression)

def waitName : LoadState → String
  | .loaded => "wait_load"
  | .networkIdle => "wait_network_idle"

def waitPage (s : Surface σ) (state : LoadState) : Work σ Unit :=
  s.operation (waitName state) [] (.waitForLoadState state s.timeouts.navigation)

def pressKey (s : Surface σ) (key : String) : Interaction σ Unit :=
  s.perform "keyboard_press" [("key", .text key)] (.pressKey key)

def insertText (s : Surface σ) (text : String) : Interaction σ Unit :=
  s.perform "keyboard_insert_text" [("text", .text text)] (.insertText text)

def queryAll (s : Surface σ) (selector : String) : Interaction σ (List Handle) :=
  s.perform "query_all" [("selector", .text selector)] (.queryAll selector)

/-- The first element that a selector matches.  To find none in time is a failure of its own, and
another failure has to have a message. -/
def queryOne (s : Surface σ) (selector : String) : Interaction σ Handle := do
  let found ← tryCatch
    (Interaction.await (Work.call s.page (.waitForSelector selector s.timeouts.action)))
    fun fault =>
      match fault with
      | .page (.timeout _) => throw (.surface (.notFound selector))
      | .page (.error message) =>
        match Text.firstLine? message with
        | some line => throw (.surface (.failed line "query_one" [("selector", .text selector)]))
        | none => throw .outOfRange
      | fault => throw fault
  match found with
  | some handle => return handle
  | none => throw (.surface (.notFound selector))

/-! ### Elements -/

def onElement (s : Surface σ) (name : String) (details : Fields) (h : Handle) (c : ElementCall) :
    Interaction σ c.Answer :=
  s.perform name details (.element h c)

def readAttribute (s : Surface σ) (h : Handle) (name : String) : Interaction σ Value :=
  s.onElement "attribute" [("name", .text name)] h (.getAttribute name)

def inspect (s : Surface σ) (h : Handle) : Inspection → Interaction σ Value
  | .html => s.onElement "html" [] h (.evaluate htmlScript)
  | .text => s.onElement "text" [] h (.evaluate textScript)
  | .visible => s.onElement "visible" [] h .isVisible

def click (s : Surface σ) (h : Handle) : Interaction σ Unit :=
  s.onElement "click" [] h (.click s.timeouts.action)

def focus (s : Surface σ) (h : Handle) : Interaction σ Unit :=
  s.onElement "focus" [] h .focus

def blur (s : Surface σ) (h : Handle) : Interaction σ Unit := do
  discard (s.onElement "blur" [] h (.evaluate blurScript))

def input (s : Surface σ) (h : Handle) (text : String) : Interaction σ Unit :=
  s.onElement "input" [("text", .text text)] h (.fill text s.timeouts.action)

def press (s : Surface σ) (h : Handle) (key : String) : Interaction σ Unit :=
  s.onElement "press" [("key", .text key)] h (.press key s.timeouts.action)

def selectAll (s : Surface σ) (h : Handle) : Interaction σ Unit :=
  s.onElement "select_all_text" [] h (.selectText s.timeouts.action)

def scrollIntoView (s : Surface σ) (h : Handle) : Interaction σ Unit :=
  s.onElement "scroll_into_view" [] h (.scrollIntoView s.timeouts.action)

def evaluateOn (s : Surface σ) (h : Handle) (expression : String) : Interaction σ Value :=
  s.onElement "evaluate" [("expression", .text expression)] h (.evaluate expression)

def elementWaitName : ElementState → String
  | .visible => "wait_visible"
  | .invisible => "wait_invisible"
  | .stable => "wait_stable"

def waitElement (s : Surface σ) (h : Handle) (state : ElementState) : Work σ Unit :=
  s.operation (elementWaitName state) [] (.element h (.waitForState state s.timeouts.wait))

def gesture (s : Surface σ) (h : Handle) : Gesture → Interaction σ Unit
  | .click => s.click h
  | .focus => s.focus h
  | .blur => s.blur h
  | .clear => do
    s.selectAll h
    s.input h ""
  | .selectAll => s.selectAll h
  | .scrollIntoView => s.scrollIntoView h

/-! ### Tasks -/

inductive Task where
  | queryOne (selector : String)
  | queryAll (selector : String)
  | inspect (h : Handle) (inspection : Inspection)
  | readAttribute (h : Handle) (name : String)
  | gesture (h : Handle) (g : Gesture)
  | input (h : Handle) (text : String)
  | insertText (text : String)
  | press (h : Handle) (key : String)
  | pressKey (key : String)
  | navigate (url : String)
  | evaluateOn (h : Handle) (expression : String)
  | evaluate (expression : String)

abbrev Task.Answer : Task → Type
  | .queryOne _ => Handle
  | .queryAll _ => List Handle
  | .inspect .. | .readAttribute .. | .evaluateOn .. | .evaluate _ => Value
  | _ => Unit

def carryOut (s : Surface σ) : (task : Task) → Interaction σ task.Answer
  | .queryOne selector => s.queryOne selector
  | .queryAll selector => s.queryAll selector
  | .inspect h inspection => s.inspect h inspection
  | .readAttribute h name => s.readAttribute h name
  | .gesture h g => s.gesture h g
  | .input h text => s.input h text
  | .insertText text => s.insertText text
  | .press h key => s.press h key
  | .pressKey key => s.pressKey key
  | .navigate url => s.navigate url
  | .evaluateOn h expression => s.evaluateOn h expression
  | .evaluate expression => s.evaluate expression

inductive Awaited where
  | pause (seconds : Binary64)
  | page (state : LoadState)
  | element (h : Handle) (state : ElementState)

def work (s : Surface σ) : Awaited → Work σ Unit
  | .pause seconds => Work.sleep seconds
  | .page state => s.waitPage state
  | .element h state => s.waitElement h state

/-! ### Opening and closing -/

/-- A call that is part of opening or closing; its failures are passed on as they are. -/
def plainly (page : Page σ) (c : Call) : Interaction σ c.Answer :=
  Interaction.await (Work.call page c)

/-- Starts a browser, or attaches to the one at an address, and opens a page in it.  If that fails
the driver is stopped again. -/
def launch (page : Page σ) (headless : Bool) (address : Option String) : Interaction σ Unit := do
  plainly page .startDriver
  tryCatch
    (do
      match address with
      | some url => plainly page (.connectBrowser url)
      | none => plainly page (.launchBrowser headless)
      plainly page .newContext
      plainly page .newPage)
    fun fault => do
      modify (·.log LogRecord.surfaceLogger Level.error "Browser initialisation failed")
      plainly page .stopDriver
      throw fault
  modify (·.log LogRecord.surfaceLogger Level.info
    ("Browser ready (headless=" ++ (Value.bool headless).literal ++ ", cdp=" ++
      (Value.bool address.isSome).literal ++ ")"))
  modify fun w => { w with resources := ⟨true, true, true⟩ }

/-- Closes what was opened.  The driver is stopped even if the context or the browser fails to
close, and only then are the resources given back. -/
def close (page : Page σ) : Interaction σ Unit := do
  let open' := (← get).resources
  let result : Except Fault Unit ← tryCatch
    (do
      if open'.context then plainly page .closeContext
      if open'.browser then plainly page .closeBrowser
      return .ok ())
    fun fault => return .error fault
  if open'.driver then plainly page .stopDriver
  modify fun w => { w with resources := {} }
  match result with
  | .ok () => return ()
  | .error fault => throw fault

end Surface

end Pagescript
