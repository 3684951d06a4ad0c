import NullRing.RingBuffer.Contents

set_option relaxedAutoImplicit false
set_option autoImplicit false

/-!
# The ring buffer implements a bounded queue

Under every interleaving of one producer, one consumer and one observer the ring buffer is
linearizable to the bounded FIFO queue with `Capacity - 1` places: an item is added at the
store of `tail_`, removed at the store of `head_`, and the load of the other side's index
shows whether the queue is full, or empty, at that moment.

## Main definitions

* `RingBuffer.Represents` — a state represents a queue.

## Main results

* `RingBuffer.step_cases` — what a step of the system can be.
* `RingBuffer.linearizable` — the forward simulation, and what follows for the items.
-/

namespace NullRing.RingBuffer

open Transition

variable {T : Type} {C : Capacity}

/-- **Inversion of the steps of the system**: a step of `try_push`, a step of `try_pop`, or a
step that leaves the memory alone, shows nothing of the queue, and at most begins a call.

**Proof sketch.** By cases on the action and, for a step, on the call its thread is in. A call
begins at its first program point, and a step of an introspection call, of whichever thread, is a
load. -/
lemma step_cases {s s' : State T} {a : Action T} {es : List (Event T)}
    (h : step C s a = some (s', es)) :
    (∃ pc, s.producer = .pushing pc ∧
      s' = { s with mem := (pushStep C s.mem pc).1,
                    producer := .afterPush (pushStep C s.mem pc).2 } ∧
      es = (pushEvents pc (pushStep C s.mem pc).2).map .queue) ∨
    (∃ pc, s.consumer = .popping pc ∧
      s' = { s with mem := (popStep C s.mem pc).1,
                    consumer := .afterPop (popStep C s.mem pc).2 } ∧
      es = (popEvents (popStep C s.mem pc).2).map .queue) ∨
    (s'.mem = s.mem ∧ es.filterMap Event.queue? = [] ∧
      (∀ pc, s'.producer = .pushing pc →
        s.producer = .pushing pc ∨ ∃ item, pc = .loadTail item) ∧
      (∀ pc, s'.consumer = .popping pc → s.consumer = .popping pc ∨ pc = .loadHead)) := by
  cases a with
  | callPush item =>
    simp only [step] at h
    split at h
    · cases h
      exact Or.inr (Or.inr ⟨rfl, rfl, fun pc hpc => by cases hpc; exact Or.inr ⟨item, rfl⟩,
        fun pc hpc => Or.inl hpc⟩)
    · cases h
  | callPop =>
    simp only [step] at h
    split at h
    · cases h
      exact Or.inr (Or.inr ⟨rfl, rfl, fun pc hpc => Or.inl hpc,
        fun pc hpc => by cases hpc; exact Or.inr rfl⟩)
    · cases h
  | callQuery who query =>
    cases who <;> simp only [step] at h <;> split at h
    · cases h
      exact Or.inr (Or.inr ⟨rfl, rfl, nofun, fun pc hpc => Or.inl hpc⟩)
    · cases h
    · cases h
      exact Or.inr (Or.inr ⟨rfl, rfl, fun pc hpc => Or.inl hpc, nofun⟩)
    · cases h
    · cases h
      exact Or.inr (Or.inr ⟨rfl, rfl, fun pc hpc => Or.inl hpc, fun pc hpc => Or.inl hpc⟩)
    · cases h
  | step who =>
    cases who with
    | producer =>
      simp only [step, producerStep] at h
      split at h
      · cases h
      · next pc hpc =>
        cases h
        exact Or.inl ⟨pc, hpc, rfl, rfl⟩
      · cases h
        refine Or.inr (Or.inr ⟨rfl, ?_, ?_, fun pc hpc => Or.inl hpc⟩)
        · simp only [afterQuery]
          split <;> rfl
        · intro pc hpc
          simp only [afterQuery] at hpc
          split at hpc <;> cases hpc
    | consumer =>
      simp only [step, consumerStep] at h
      split at h
      · cases h
      · next pc hpc =>
        cases h
        exact Or.inr (Or.inl ⟨pc, hpc, rfl, rfl⟩)
      · cases h
        refine Or.inr (Or.inr ⟨rfl, ?_, fun pc hpc => Or.inl hpc, ?_⟩)
        · simp only [afterQuery]
          split <;> rfl
        · intro pc hpc
          simp only [afterQuery] at hpc
          split at hpc <;> cases hpc
    | observer =>
      simp only [step, observerStep] at h
      split at h
      · cases h
      · cases h
        refine Or.inr (Or.inr ⟨rfl, ?_, fun pc hpc => Or.inl hpc, fun pc hpc => Or.inl hpc⟩)
        simp only [afterQuery]
        split <;> rfl

/-- The state represents the queue `q`: the memory holds it, and the calls in progress are in
accordance with it. -/
structure Represents (C : Capacity) (s : State T) (q : List T) : Prop where
  stores : ∃ n, Stores C s.mem n q
  producer : ∀ pc, s.producer = .pushing pc → PushOk C s.mem q pc
  consumer : ∀ pc, s.consumer = .popping pc → PopOk s.mem q pc

/-- The queue events of a step of a call, read back from the events of the system. -/
lemma filterMap_queue (es : List (BoundedQueue.Event T)) :
    (es.map Event.queue).filterMap Event.queue? = es := by
  rw [List.filterMap_map]
  exact List.filterMap_some

/-- The initial state represents the empty queue. -/
lemma represents_init [Inhabited T] (C : Capacity) : Represents C (system C T).init [] where
  stores := ⟨0, stores_init C⟩
  producer := nofun
  consumer := nofun

/-- **The step lemma of the simulation.**

**Proof sketch.** By the inversion lemma. A step of a call is `pushStep_spec` or
`popStep_spec`; any other step leaves the memory alone and at most begins a call, about which
there is nothing to show. -/
lemma represents_step {s s' : State T} {a : Action T} {es : List (Event T)} {q : List T}
    (hR : Represents C s q) (h : step C s a = some (s', es)) :
    ∃ q', (BoundedQueue.spec T (C.val - 1)).Run q (es.filterMap Event.queue?) q' ∧
      Represents C s' q' := by
  obtain ⟨⟨n, hstores⟩, hprod, hcons⟩ := hR
  rcases step_cases h with ⟨pc, hpc, rfl, rfl⟩ | ⟨pc, hpc, rfl, rfl⟩ | ⟨hmem, hes, hp, hc⟩
  · obtain ⟨q', hrun, hstores', hnext, hkeep⟩ := pushStep_spec hstores (hprod pc hpc)
    rw [filterMap_queue]
    refine ⟨q', hrun, ⟨n, hstores'⟩, ?_, fun pc' hpc' => hkeep _ (hcons pc' hpc')⟩
    intro pc' hpc'
    rcases hout : (pushStep C s.mem pc).2 with next | r
    · rw [hout] at hnext hpc'
      cases hpc'
      exact hnext
    · rw [hout] at hpc'
      cases hpc'
  · obtain ⟨n', q', hrun, hstores', hnext, hkeep⟩ := popStep_spec hstores (hcons pc hpc)
    rw [filterMap_queue]
    refine ⟨q', hrun, ⟨n', hstores'⟩, fun pc' hpc' => hkeep _ (hprod pc' hpc'), ?_⟩
    intro pc' hpc'
    rcases hout : (popStep C s.mem pc).2 with next | r
    · rw [hout] at hnext hpc'
      cases hpc'
      exact hnext
    · rw [hout] at hpc'
      cases hpc'
  · rw [hes]
    refine ⟨q, .nil, ⟨n, by rw [hmem]; exact hstores⟩, ?_, ?_⟩
    · intro pc hpc
      rw [hmem]
      rcases hp pc hpc with hpc | ⟨item, rfl⟩
      · exact hprod pc hpc
      · trivial
    · intro pc hpc
      rw [hmem]
      rcases hc pc hpc with hpc | rfl
      · exact hcons pc hpc
      · trivial

/-- **The ring buffer is linearizable to a bounded queue with `Capacity - 1` places.** Every
run, in any interleaving and over any number of laps, is matched step by step by the abstract
queue; `try_push` fails exactly when that queue is full at its load of `head_`, `try_pop`
exactly when it is empty at its load of `tail_`; and the items pushed are the items popped, in
the same order, followed by the contents of the queue.

**Proof sketch.** `represents_step` is the simulation; the two comparisons are
`Stores.full_iff` and `Stores.empty_iff`; the rest is conservation in the abstract queue. -/
theorem linearizable (C : Capacity) (T : Type) [Inhabited T] :
    ForwardSimulation (system C T) System.anyStep (BoundedQueue.spec T (C.val - 1))
      Event.queue? (Represents C) ∧
    (∀ (s : State T) (q : List T), Represents C s q →
      (∀ item currentTail, s.producer = .pushing (.loadHead item currentTail) →
        ((pushStep C s.mem (.loadHead item currentTail)).2 = .ret false ↔
          q.length = C.val - 1)) ∧
      (∀ currentHead, s.consumer = .popping (.loadTail currentHead) →
        ((popStep C s.mem (.loadTail currentHead)).2 = .ret none ↔ q = []))) ∧
    (∀ es s, (system C T).Run System.anyStep (system C T).init es s →
      ∃ q, Represents C s q ∧ q.length ≤ C.val - 1 ∧
        BoundedQueue.pushes (es.filterMap Event.queue?) =
          BoundedQueue.pops (es.filterMap Event.queue?) ++ q) := by
  have hsim : ForwardSimulation (system C T) System.anyStep (BoundedQueue.spec T (C.val - 1))
      Event.queue? (Represents C) :=
    ⟨represents_init C, fun hR _ hstep => represents_step hR hstep⟩
  refine ⟨hsim, fun s q hR => ⟨fun item currentTail hpc => ?_, fun currentHead hpc => ?_⟩,
    fun es s hrun => ?_⟩
  · obtain ⟨n, hstores⟩ := hR.stores
    obtain rfl : currentTail = s.mem.tail := hR.producer _ hpc
    rw [← hstores.full_iff]
    by_cases heq : increment C s.mem.tail = s.mem.head <;> simp [pushStep, heq]
  · obtain ⟨n, hstores⟩ := hR.stores
    obtain rfl : currentHead = s.mem.head := hR.consumer _ hpc
    rw [← hstores.empty_iff]
    by_cases heq : s.mem.head = s.mem.tail <;> simp [popStep, heq]
  · obtain ⟨q, hspec, hR⟩ := hsim.run hrun
    exact ⟨q, hR, BoundedQueue.run_length_le hspec, BoundedQueue.pushes_eq_pops_append hspec⟩

/-- A buffer of four slots. -/
def fourSlots : Capacity := ⟨4, by decide, by decide, by decide⟩

/-- Two items are pushed while the first is popped. -/
def overlappingCalls : List (Action ℕ) :=
  [.callPush 1, .step .producer, .step .producer, .step .producer, .step .producer,
   .callPush 2, .step .producer, .callPop, .step .consumer, .step .producer, .step .consumer,
   .step .producer, .step .consumer, .step .producer, .step .consumer]

/-- Two items are pushed while the first is popped: the second is left. -/
theorem linearizable_example :
    ∃ es s, (system fourSlots ℕ).Run System.anyStep (system fourSlots ℕ).init es s ∧
      BoundedQueue.pops (es.filterMap Event.queue?) = [1] ∧ Represents fourSlots s [2] := by
  have h : ((system fourSlots ℕ).exec System.anyStep (system fourSlots ℕ).init
      overlappingCalls).map (fun r => (BoundedQueue.pushes (r.2.filterMap Event.queue?),
        BoundedQueue.pops (r.2.filterMap Event.queue?))) = some ([1, 2], [1]) := by rfl
  obtain ⟨s, es, hrun, hv⟩ := System.exists_run_of_exec h
  obtain ⟨hpushes, hpops⟩ := Prod.mk.inj hv
  obtain ⟨q, hR, -, hconserved⟩ := (linearizable fourSlots ℕ).2.2 es s hrun
  rw [hpushes, hpops] at hconserved
  obtain rfl : q = [2] := (List.cons.inj hconserved).2.symm
  exact ⟨es, s, hrun, hpops, hR⟩

end NullRing.RingBuffer
