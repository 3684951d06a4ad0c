import NullRing.Queue.Bounded

set_option relaxedAutoImplicit false
set_option autoImplicit false

/-!
# A channel with credits

A sender and a receiver that learn of each other late. The sender holds credits and spends one for
each item; the items are under way until the receiver has collected them; and each item it takes
out frees a credit, which is under way until the sender has collected it. Each call collects any
number of what is under way to it and then answers from what its side knows, so it may refuse
although there is room, or find nothing although there is an item.

With all news collected the channel is a bounded queue; a bounded queue is one way to run it.

## Main definitions

* `CreditChannel.State`, `CreditChannel.Event` — the contents, and the answers of the two calls.
* `CreditChannel.spec` — the channel, all credits with the sender at first.

## Main results

* `CreditChannel.run_conserves` — first in, first out, and no credit is lost.
* `CreditChannel.run_of_queue` — the histories of a bounded queue are histories of the channel.
-/

namespace CreditChannel

open Transition

variable {α : Type}

/-- What is where. -/
structure State (α : Type) where
  /-- The credits of the sender. -/
  free : ℕ
  /-- The items under way, oldest first. -/
  flying : List α
  /-- The items the receiver has collected, oldest first. -/
  held : List α
  /-- The credits under way. -/
  spent : ℕ

/-- The answers of the two calls. -/
inductive Event (α : Type)
  /-- The sender sends an item. -/
  | push (x : α)
  /-- The sender has no credit. -/
  | refuse
  /-- The receiver takes an item out. -/
  | pop (x : α)
  /-- The receiver has no item. -/
  | nothing
  deriving DecidableEq, Repr

/-- What a call does: it collects some of what is under way to its side and answers. -/
inductive Step : State α → Event α → State α → Prop
  /-- The sender collects `news` credits, and has one to spend. -/
  | push {free free' news spent : ℕ} {flying held : List α} {x : α} :
      free + news = free' + 1 →
      Step ⟨free, flying, held, news + spent⟩ (.push x) ⟨free', flying ++ [x], held, spent⟩
  /-- The sender has no credit and collects none. -/
  | refuse {spent : ℕ} {flying held : List α} :
      Step ⟨0, flying, held, spent⟩ .refuse ⟨0, flying, held, spent⟩
  /-- The receiver collects the items `news`, and has one to take out. -/
  | pop {free spent : ℕ} {flying held held' news : List α} {x : α} :
      held ++ news = x :: held' →
      Step ⟨free, news ++ flying, held, spent⟩ (.pop x) ⟨free, flying, held', spent + 1⟩
  /-- The receiver has no item and collects none. -/
  | nothing {free spent : ℕ} {flying : List α} :
      Step ⟨free, flying, [], spent⟩ .nothing ⟨free, flying, [], spent⟩

/-- The channel with `cap` credits. -/
def spec (α : Type) (cap : ℕ) : Spec (State α) (Event α) where
  init := ⟨cap, [], [], 0⟩
  step := Step

/-- The item an event sends. -/
def Event.pushed? : Event α → Option α
  | .push x => some x
  | _ => none

/-- The item an event takes out. -/
def Event.popped? : Event α → Option α
  | .pop x => some x
  | _ => none

/-- The items sent, oldest first. -/
def pushes (es : List (Event α)) : List α := es.filterMap Event.pushed?

/-- The items taken out, oldest first. -/
def pops (es : List (Event α)) : List α := es.filterMap Event.popped?

/-- The items sent are listed in the order of the events. -/
@[simp] lemma pushes_append (es es' : List (Event α)) :
    pushes (es ++ es') = pushes es ++ pushes es' := List.filterMap_append

/-- The items received are listed in the order of the events. -/
@[simp] lemma pops_append (es es' : List (Event α)) :
    pops (es ++ es') = pops es ++ pops es' := List.filterMap_append

/-! ## Conservation -/

/-- The items in the channel, oldest first. -/
def State.items (s : State α) : List α := s.held ++ s.flying

/-- All credits: with the sender, tied to an item, or under way. -/
def State.credits (s : State α) : ℕ := s.free + s.items.length + s.spent

variable {s s' : State α} {e : Event α} {cap : ℕ} {es : List (Event α)}

/-- What one call does to the items sent, taken out and in the channel. -/
lemma Step.items (h : Step s e s') : s.items ++ pushes [e] = pops [e] ++ s'.items := by
  cases h with
  | push _ => simp [State.items, pushes, pops, Event.pushed?, Event.popped?]
  | refuse => exact List.append_nil _
  | pop hnews =>
    simp only [State.items, pushes, pops, Event.pushed?, Event.popped?, List.filterMap_cons,
      List.filterMap_nil, List.append_nil]
    rw [← List.append_assoc, hnews]
    rfl
  | nothing => exact List.append_nil _

/-- No call makes or loses a credit.

**Proof sketch.** A push spends a credit and puts an item under way, a pop uses one up and returns a
credit; what is collected moves from one count to the other. -/
lemma Step.credits (h : Step s e s') : s'.credits = s.credits := by
  cases h with
  | push hnews =>
    simp only [State.credits, State.items, List.length_append, List.length_singleton]
    omega
  | refuse => rfl
  | pop hnews =>
    have hlen := congrArg List.length hnews
    simp only [List.length_append, List.length_cons] at hlen
    simp only [State.credits, State.items, List.length_append]
    omega
  | nothing => rfl

/-- **First in, first out, and no credit is lost.**

**Proof sketch.** Induction on the history, by `Step.items` and `Step.credits`. -/
theorem run_conserves (h : (spec α cap).Run (spec α cap).init es s) :
    pushes es = pops es ++ s.items ∧ s.credits = cap := by
  refine h.invariant (I := fun es s => pushes es = pops es ++ s.items ∧ s.credits = cap)
    ⟨rfl, rfl⟩ ?_
  intro es s e s' ⟨hitems, hcredits⟩ hstep
  refine ⟨?_, hstep.credits.trans hcredits⟩
  rw [pushes_append, pops_append, hitems, List.append_assoc, List.append_assoc, Step.items hstep]

/-- The sender can spend all its credits on items that the receiver has not collected. -/
lemma run_fill (x : α) {n : ℕ} (hn : n ≤ cap) :
    (spec α cap).Run (spec α cap).init (List.replicate n (.push x))
      ⟨cap - n, List.replicate n x, [], 0⟩ := by
  induction n with
  | zero => exact .nil
  | succ n ih =>
    rw [List.replicate_succ', List.replicate_succ']
    have hstep : Step ⟨cap - n, List.replicate n x, [], 0 + 0⟩ (.push x)
        ⟨cap - (n + 1), List.replicate n x ++ [x], [], 0⟩ := .push (by omega)
    exact (ih (Nat.le_of_succ_le hn)).snoc hstep

/-! ## A bounded queue is a channel whose news is always collected -/

/-- The answer that a queue event is. -/
def ofQueue? : BoundedQueue.Event α → Option (Event α)
  | .checkFull true => some .refuse
  | .checkFull false => none
  | .push x => some (.push x)
  | .checkEmpty true => some .nothing
  | .checkEmpty false => none
  | .pop x => some (.pop x)

/-- A queue event is an answer that the channel may give too.

**Proof sketch.** A check that finds the queue full is a refusal, since the credits then are all
spent or used; one that finds it empty is an answer of nothing. A push is answered with every credit
collected, and a pop with every item delivered, so that neither waits for news. -/
lemma Step.of_queue {q q' : List α} {e : BoundedQueue.Event α}
    (h : BoundedQueue.Step cap q e q') (hitems : s.items = q) (hcredits : s.credits = cap) :
    ∃ s', (spec α cap).Run s (ofQueue? e).toList s' ∧ s'.items = q' ∧ s'.credits = cap := by
  obtain ⟨free, flying, held, spent⟩ := s
  cases h with
  | @checkFull _ full hfull =>
    cases full with
    | false => exact ⟨_, .nil, hitems, hcredits⟩
    | true =>
      have hlen := hfull.mp rfl
      have hfree : free = 0 := by
        simp only [State.credits, hitems] at hcredits
        omega
      subst hfree
      exact ⟨_, .single .refuse, hitems, hcredits⟩
  | @push _ x hlt =>
    have hcollect : ∃ free', free + spent = free' + 1 := by
      simp only [State.credits, hitems] at hcredits
      exact ⟨free + spent - 1, by omega⟩
    obtain ⟨free', hfree⟩ := hcollect
    have hstep : Step ⟨free, flying, held, spent + 0⟩ (.push x) ⟨free', flying ++ [x], held, 0⟩ :=
      .push hfree
    refine ⟨_, .single hstep, ?_, hstep.credits.trans hcredits⟩
    rw [← hitems]
    exact (List.append_assoc _ _ _).symm
  | @checkEmpty _ empty hempty =>
    cases empty with
    | false => exact ⟨_, .nil, hitems, hcredits⟩
    | true =>
      obtain rfl := hempty.mp rfl
      obtain ⟨rfl, rfl⟩ := List.append_eq_nil_iff.mp hitems
      exact ⟨_, .single .nothing, hitems, hcredits⟩
  | @pop _ x =>
    have hstep : Step ⟨free, flying, held, spent⟩ (.pop x) ⟨free, [], q', spent + 1⟩ := by
      rw [← List.append_nil flying]
      exact .pop hitems
    exact ⟨_, .single hstep, List.append_nil _, hstep.credits.trans hcredits⟩

/-- **The histories of a bounded queue are histories of the channel.**

**Proof sketch.** Induction on the history: with all credits and items collected before each call,
`free` is the room left and the items held are the contents. -/
theorem run_of_queue {q : List α} {fs : List (BoundedQueue.Event α)}
    (h : (BoundedQueue.spec α cap).Run (BoundedQueue.spec α cap).init fs q) :
    ∃ s, (spec α cap).Run (spec α cap).init (fs.filterMap ofQueue?) s ∧ s.items = q := by
  suffices hs : ∃ s, (spec α cap).Run (spec α cap).init (fs.filterMap ofQueue?) s ∧
      s.items = q ∧ s.credits = cap by
    obtain ⟨s, hrun, hitems, -⟩ := hs
    exact ⟨s, hrun, hitems⟩
  induction h with
  | nil => exact ⟨_, .nil, rfl, rfl⟩
  | @snoc fs q e q' _ hstep ih =>
    obtain ⟨s, hrun, hitems, hcredits⟩ := ih
    obtain ⟨s', hrun', hitems', hcredits'⟩ := Step.of_queue hstep hitems hcredits
    refine ⟨s', ?_, hitems', hcredits'⟩
    have hone : [e].filterMap ofQueue? = (ofQueue? e).toList := by
      rcases hq : ofQueue? e with _ | f <;> simp [hq]
    rw [List.filterMap_append, hone]
    exact hrun.append hrun'

end CreditChannel
