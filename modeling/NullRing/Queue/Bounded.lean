import NullRing.Transition.Simulation

set_option relaxedAutoImplicit false
set_option autoImplicit false

/-!
# The bounded queue

The abstract bounded FIFO queue: a list of at most `cap` items, front first. Besides adding at
the back and removing at the front, a client may look whether the queue is full or empty; the
observation is an event of its own, so that an implementation in which an operation first
looks and then acts can be matched step by step.

## Main definitions

* `BoundedQueue.Event`, `BoundedQueue.spec` — the events and what they do.
* `BoundedQueue.pushes`, `BoundedQueue.pops` — the items a history adds and removes.

## Main results

* `BoundedQueue.pushes_eq_pops_append` — the items added are the items removed, in the same
  order, followed by the contents.
-/

namespace BoundedQueue

open Transition

variable {α : Type}

/-- The events of a bounded queue. -/
inductive Event (α : Type)
  /-- The queue is seen to be full, or not to be. -/
  | checkFull (full : Bool)
  /-- An item is added at the back. -/
  | push (x : α)
  /-- The queue is seen to be empty, or not to be. -/
  | checkEmpty (empty : Bool)
  /-- The front item is removed. -/
  | pop (x : α)
  deriving DecidableEq, Repr

/-- What the events do to a queue of capacity `cap`. -/
inductive Step (cap : ℕ) : List α → Event α → List α → Prop
  | checkFull {q : List α} {full : Bool} :
      (full = true ↔ q.length = cap) → Step cap q (.checkFull full) q
  | push {q : List α} {x : α} : q.length < cap → Step cap q (.push x) (q ++ [x])
  | checkEmpty {q : List α} {empty : Bool} :
      (empty = true ↔ q = []) → Step cap q (.checkEmpty empty) q
  | pop {q : List α} {x : α} : Step cap (x :: q) (.pop x) q

/-- The bounded queue of capacity `cap`, empty at first. -/
def spec (α : Type) (cap : ℕ) : Spec (List α) (Event α) where
  init := []
  step := Step cap

/-- The item an event adds. -/
def Event.pushed? : Event α → Option α
  | .push x => some x
  | _ => none

/-- The item an event removes. -/
def Event.popped? : Event α → Option α
  | .pop x => some x
  | _ => none

/-- The items added by a history, oldest first. -/
def pushes (es : List (Event α)) : List α := es.filterMap Event.pushed?

/-- The items removed by a history, oldest first. -/
def pops (es : List (Event α)) : List α := es.filterMap Event.popped?

/-- Nothing is added by no events. -/
@[simp] lemma pushes_nil : pushes ([] : List (Event α)) = [] := rfl

/-- Nothing is removed by no events. -/
@[simp] lemma pops_nil : pops ([] : List (Event α)) = [] := rfl

/-- The items added are listed in the order of the events. -/
@[simp] lemma pushes_append (es es' : List (Event α)) :
    pushes (es ++ es') = pushes es ++ pushes es' := List.filterMap_append

/-- The items removed are listed in the order of the events. -/
@[simp] lemma pops_append (es es' : List (Event α)) :
    pops (es ++ es') = pops es ++ pops es' := List.filterMap_append

/-- What one event does to the items added, removed and stored. -/
lemma Step.conserves {cap : ℕ} {q q' : List α} {e : Event α} (h : Step cap q e q') :
    q ++ pushes [e] = pops [e] ++ q' := by
  cases h <;> simp [pushes, pops, List.filterMap_cons, Event.pushed?, Event.popped?]

/-- No event makes the queue longer than its capacity. -/
lemma Step.length_le {cap : ℕ} {q q' : List α} {e : Event α} (h : Step cap q e q')
    (hq : q.length ≤ cap) : q'.length ≤ cap := by
  cases h with
  | checkFull _ => exact hq
  | push hlt =>
    rw [List.length_append]
    exact hlt
  | checkEmpty _ => exact hq
  | pop => exact Nat.le_of_succ_le hq

/-- **Conservation**: contents and items added are, in order, the items removed and the new
contents.

**Proof sketch.** Induction on the history, by `Step.conserves`. -/
theorem run_conserves {cap : ℕ} {q₀ q : List α} {es : List (Event α)}
    (h : (spec α cap).Run q₀ es q) : q₀ ++ pushes es = pops es ++ q := by
  induction h with
  | nil => simp
  | snoc _ hstep ih =>
    rw [pushes_append, pops_append, ← List.append_assoc, ih, List.append_assoc,
      hstep.conserves, List.append_assoc]

/-- **First in, first out**: in a history of an initially empty queue the items added are the
items removed, in the same order, followed by the contents. -/
theorem pushes_eq_pops_append {cap : ℕ} {q : List α} {es : List (Event α)}
    (h : (spec α cap).Run [] es q) : pushes es = pops es ++ q := by
  simpa using run_conserves h

/-- The contents never exceed the capacity. -/
theorem run_length_le {cap : ℕ} {q : List α} {es : List (Event α)}
    (h : (spec α cap).Run [] es q) : q.length ≤ cap :=
  h.invariant (I := fun _ q => q.length ≤ cap) (Nat.zero_le _)
    fun _ _ _ _ hq hstep => hstep.length_le hq

/-- When the queue is seen to be full, `cap` more items were added than removed. -/
theorem run_seenFull {cap : ℕ} {q : List α} {es es' : List (Event α)}
    (h : (spec α cap).Run [] (es ++ .checkFull true :: es') q) :
    (pushes es).length = (pops es).length + cap := by
  obtain ⟨q₁, q₂, hrun, hstep, -⟩ := h.split
  cases hstep with
  | checkFull hfull => rw [pushes_eq_pops_append hrun, List.length_append, hfull.mp rfl]

/-- When the queue is seen to be empty, all items added were removed. -/
theorem run_seenEmpty {cap : ℕ} {q : List α} {es es' : List (Event α)}
    (h : (spec α cap).Run [] (es ++ .checkEmpty true :: es') q) : pushes es = pops es := by
  obtain ⟨q₁, q₂, hrun, hstep, -⟩ := h.split
  cases hstep with
  | checkEmpty hempty => rw [pushes_eq_pops_append hrun, hempty.mp rfl, List.append_nil]

end BoundedQueue
