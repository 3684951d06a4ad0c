import NullRing.Queue.Bounded

set_option relaxedAutoImplicit false
set_option autoImplicit false

/-!
# Calls of a bounded queue

The bounded queue as a sequential data type: an item is offered, and refused by a full queue; the
front is polled, and there is none in an empty queue; and the number of items is asked for. A
sequence of calls is run on a list.

## Main definitions

* `BoundedQueue.Call`, `BoundedQueue.Reply` — the calls and their replies.
* `BoundedQueue.callAll` — a sequence of calls, run on a list.

## Main results

* `BoundedQueue.callAll_offers`, `BoundedQueue.callAll_polls` — a batch of offers that fits, and a
  batch of polls.
-/

namespace BoundedQueue

variable {α : Type}

/-- The calls of a client. -/
inductive Call (α : Type)
  | offer (x : α)
  | poll
  | size
  | isEmpty
  deriving DecidableEq, Repr

/-- The replies to the calls. -/
inductive Reply (α : Type)
  /-- Whether the item was taken. -/
  | offered (taken : Bool)
  | polled (x : Option α)
  | size (n : ℕ)
  | isEmpty (b : Bool)
  deriving DecidableEq, Repr

/-- An item is offered to a queue of capacity `cap`. -/
def offer (cap : ℕ) (q : List α) (x : α) : List α × Bool :=
  if q.length = cap then (q, false) else (q ++ [x], true)

/-- The front is taken. -/
def poll : List α → List α × Option α
  | [] => ([], none)
  | x :: q => (q, some x)

/-- What a call does to a queue of capacity `cap`, and its reply. -/
def call (cap : ℕ) (q : List α) : Call α → List α × Reply α
  | .offer x => ((offer cap q x).1, .offered (offer cap q x).2)
  | .poll => ((poll q).1, .polled (poll q).2)
  | .size => (q, .size q.length)
  | .isEmpty => (q, .isEmpty (decide (q = [])))

/-- What a sequence of calls does, and their replies. -/
def callAll (cap : ℕ) (q : List α) : List (Call α) → List α × List (Reply α)
  | [] => (q, [])
  | c :: calls =>
    let (q', reply) := call cap q c
    let (q'', replies) := callAll cap q' calls
    (q'', reply :: replies)

/-- Calls made in two goes. -/
lemma callAll_append (cap : ℕ) (q : List α) (calls calls' : List (Call α)) :
    callAll cap q (calls ++ calls') =
      ((callAll cap (callAll cap q calls).1 calls').1,
        (callAll cap q calls).2 ++ (callAll cap (callAll cap q calls).1 calls').2) := by
  induction calls generalizing q with
  | nil => rfl
  | cons c calls ih => simp only [List.cons_append, callAll, ih]

/-- **A batch of offers that fits** is taken.

**Proof sketch.** Induction on the batch; after the first offer the rest of it fits. -/
theorem callAll_offers {cap : ℕ} {q : List α} (xs : List α) (h : q.length + xs.length ≤ cap) :
    callAll cap q (xs.map .offer) = (q ++ xs, List.replicate xs.length (.offered true)) := by
  induction xs generalizing q with
  | nil => rw [List.append_nil]; rfl
  | cons x xs ih =>
    simp only [List.length_cons] at h
    have hoffer : offer cap q x = (q ++ [x], true) := if_neg (by omega)
    have hfits : (q ++ [x]).length + xs.length ≤ cap := by
      rw [List.length_append, List.length_singleton]
      omega
    have hrest := ih hfits
    simp only [List.map_cons, callAll, call, hoffer, hrest, List.append_assoc,
      List.singleton_append, List.length_cons, List.replicate_succ]

/-- **A batch of polls** takes the items from the front, in order. -/
theorem callAll_polls (cap : ℕ) (xs q : List α) :
    callAll cap (xs ++ q) (List.replicate xs.length .poll) =
      (q, xs.map fun x => .polled (some x)) := by
  induction xs with
  | nil => rfl
  | cons x xs ih =>
    simp only [List.length_cons, List.replicate_succ, List.cons_append, callAll, call, poll, ih,
      List.map_cons]

end BoundedQueue
