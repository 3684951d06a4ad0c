import NullRing.Transition.Simulation

set_option relaxedAutoImplicit false
set_option autoImplicit false

/-!
# The stack

The abstract last-in first-out stack: a list, top first. That the stack is seen to be empty
is an event of its own.

## Main definitions

* `LifoStack.Event`, `LifoStack.spec` — the events and what they do.
-/

namespace LifoStack

open Transition

variable {α : Type}

/-- The events of a stack. -/
inductive Event (α : Type)
  /-- An item is put on top. -/
  | push (x : α)
  /-- The top item is removed. -/
  | pop (x : α)
  /-- The stack is seen to be empty. -/
  | seenEmpty
  deriving DecidableEq, Repr

/-- What the events do to a stack. -/
inductive Step : List α → Event α → List α → Prop
  | push {l : List α} {x : α} : Step l (.push x) (x :: l)
  | pop {l : List α} {x : α} : Step (x :: l) (.pop x) l
  | seenEmpty : Step [] .seenEmpty []

/-- The stack that holds the items of `l` at first. -/
def spec (l : List α) : Spec (List α) (Event α) where
  init := l
  step := Step

end LifoStack
