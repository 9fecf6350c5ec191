/-!
# Kinds of action

The actions a program is made of, grouped by what they do.
-/

namespace Pagescript

inductive LoadState where
  | loaded
  | networkIdle
  deriving DecidableEq, Repr

inductive ElementState where
  | visible
  | invisible
  | stable
  deriving DecidableEq, Repr

/-- What can be asked of an element without further input. -/
inductive Inspection where
  | visible
  | text
  | html
  deriving DecidableEq, Repr

inductive Comparison where
  | equal
  | notEqual
  | contains
  deriving DecidableEq, Repr

/-- What can be done to an element without further input. -/
inductive Gesture where
  | click
  | focus
  | blur
  | clear
  | selectAll
  | scrollIntoView
  deriving DecidableEq, Repr

inductive Kind where
  | sequence
  | branch
  | negate
  | forEach
  | has
  | inspect (inspection : Inspection)
  | attributeOf
  | compare (comparison : Comparison)
  | gesture (g : Gesture)
  | input
  | press
  | navigate
  | eval
  | sleep
  | awaitPage (state : LoadState)
  | awaitElement (state : ElementState)
  | store
  | logStore
  | log
  | error
  deriving DecidableEq, Repr

namespace Kind

/-- All kinds, in the order in which they are made known to a registry. -/
def all : List Kind :=
  [sequence, branch, negate, forEach, has, inspect .visible, inspect .text, inspect .html, attributeOf,
    compare .equal, compare .notEqual, compare .contains, gesture .click, gesture .focus,
    gesture .blur, gesture .clear, gesture .selectAll, gesture .scrollIntoView, input, press,
    navigate, eval, sleep, awaitPage .loaded, awaitPage .networkIdle, awaitElement .visible,
    awaitElement .invisible, awaitElement .stable, store, logStore, log, error]

/-- The word for the kind in a program. -/
def name : Kind → String
  | sequence => "do"
  | branch => "if"
  | negate => "not"
  | forEach => "forEach"
  | has => "has"
  | inspect .visible => "visible"
  | inspect .text => "text"
  | inspect .html => "html"
  | attributeOf => "attribute"
  | compare .equal => "textEqual"
  | compare .notEqual => "textNotEqual"
  | compare .contains => "textContains"
  | gesture .click => "click"
  | gesture .focus => "focus"
  | gesture .blur => "blur"
  | gesture .clear => "clear"
  | gesture .selectAll => "selectAll"
  | gesture .scrollIntoView => "scrollIntoView"
  | input => "input"
  | press => "press"
  | navigate => "navigate"
  | eval => "eval"
  | sleep => "sleep"
  | awaitPage .loaded => "waitLoad"
  | awaitPage .networkIdle => "waitIdle"
  | awaitElement .visible => "waitVisible"
  | awaitElement .invisible => "waitInvisible"
  | awaitElement .stable => "waitStable"
  | store => "store"
  | logStore => "logStore"
  | log => "log"
  | error => "error"

def title : Kind → String
  | sequence => "DoAction"
  | branch => "IfAction"
  | negate => "NotAction"
  | forEach => "ForEachAction"
  | has => "HasAction"
  | inspect .visible => "VisibleAction"
  | inspect .text => "TextAction"
  | inspect .html => "HtmlAction"
  | attributeOf => "AttributeAction"
  | compare .equal => "TextEqualAction"
  | compare .notEqual => "TextNotEqualAction"
  | compare .contains => "TextContainsAction"
  | gesture .click => "ClickAction"
  | gesture .focus => "FocusAction"
  | gesture .blur => "BlurAction"
  | gesture .clear => "ClearAction"
  | gesture .selectAll => "SelectAllAction"
  | gesture .scrollIntoView => "ScrollIntoViewAction"
  | input => "InputAction"
  | press => "PressAction"
  | navigate => "NavigateAction"
  | eval => "EvalAction"
  | sleep => "SleepAction"
  | awaitPage .loaded => "WaitLoadAction"
  | awaitPage .networkIdle => "WaitIdleAction"
  | awaitElement .visible => "WaitVisibleAction"
  | awaitElement .invisible => "WaitInvisibleAction"
  | awaitElement .stable => "WaitStableAction"
  | store => "StoreAction"
  | logStore => "LogStoreAction"
  | log => "LogAction"
  | error => "ErrorAction"

end Kind

end Pagescript
