import NullRing.RingBuffer.Credits
import NullRing.RingBuffer.Linearizable

set_option relaxedAutoImplicit false
set_option autoImplicit false

/-!
# Interleavings and stale answers

The interleaved ring buffer and the one under acquire and release, compared by what the calls
return. Every history of the former is one of the latter, which reads the newest entry each time.
The converse fails, and not only by the order in which the two threads' returns are written down:
each call stores one index and the next loads the other, so a producer that fills the buffer and a
consumer that pops one item may both go on to miss the other's store. Each thread has then seen
returns that no interleaving gives to both.

## Main definitions

* `RingBuffer.Weak.returns` — the returns of the calls in a history of the interleaved buffer.
* `RingBuffer.Weak.producerReturns`, `RingBuffer.Weak.consumerReturns` — what each thread sees.

## Main results

* `RingBuffer.Weak.interleavings_included` — the histories of the interleaved buffer.
* `RingBuffer.Weak.beyond_interleavings` — what the two threads may see besides.
-/

namespace NullRing.RingBuffer.Weak

open Transition

variable {T : Type} {C : Capacity}

/-! ## Returns -/

/-- The return that an event of the queue is: the loads that find it full or empty, and the
stores. -/
def Event.ofQueue? : BoundedQueue.Event T → Option (Event T)
  | .checkFull true => some .refused
  | .checkFull false => none
  | .push item => some (.pushed item)
  | .checkEmpty true => some .nothing
  | .checkEmpty false => none
  | .pop item => some (.popped item)

/-- The returns of `try_push` and `try_pop` in a history of the interleaved buffer. -/
def returns (es : List (RingBuffer.Event T)) : List (Event T) :=
  (es.filterMap RingBuffer.Event.queue?).filterMap Event.ofQueue?

/-- Whether a return is one of `try_push`. -/
def Event.byProducer : Event T → Bool
  | .pushed _ => true
  | .refused => true
  | .popped _ => false
  | .nothing => false

/-- What the producer thread sees of a history. -/
def producerReturns (es : List (Event T)) : List (Event T) := es.filter Event.byProducer

/-- What the consumer thread sees of a history. -/
def consumerReturns (es : List (Event T)) : List (Event T) := es.filter (!·.byProducer)

/-! ## Inclusion -/

/-- The interleaved buffer shows a history of a bounded queue. -/
lemma queue_of_run [Inhabited T] {es : List (RingBuffer.Event T)} {s : RingBuffer.State T}
    (h : (RingBuffer.system C T).Run System.anyStep (RingBuffer.system C T).init es s) :
    ∃ q, (BoundedQueue.spec T (C.val - 1)).Run []
      (es.filterMap RingBuffer.Event.queue?) q := by
  have hsim : ForwardSimulation (RingBuffer.system C T) System.anyStep
      (BoundedQueue.spec T (C.val - 1)) RingBuffer.Event.queue? (Represents C) :=
    ⟨represents_init C, fun hR _ hstep => represents_step hR hstep⟩
  obtain ⟨q, hq, -⟩ := hsim.run h
  exact ⟨q, hq⟩

/-- **The interleavings are among the histories under acquire and release**: the returns of every
run of the interleaved buffer are, in the same order, those of a run in which loads may be stale.

**Proof sketch.** The interleaved buffer shows a history of a bounded queue, which is a history of
the channel with credits, which is a history of the buffer. -/
theorem interleavings_included [Inhabited T] {es : List (RingBuffer.Event T)}
    {s : RingBuffer.State T}
    (h : (RingBuffer.system C T).Run System.anyStep (RingBuffer.system C T).init es s) :
    ∃ s', (system C T).Run System.anyStep (system C T).init (returns es) s' := by
  obtain ⟨q, hq⟩ := queue_of_run h
  obtain ⟨c, hc, -⟩ := CreditChannel.run_of_queue hq
  obtain ⟨s', hs', -⟩ := run_of_channel hc
  have hreturns : ((es.filterMap RingBuffer.Event.queue?).filterMap CreditChannel.ofQueue?).map
      Event.ofChannel = returns es := by
    rw [List.map_filterMap, returns]
    congr 1
    funext e
    rcases e with (_ | _) | _ | (_ | _) | _ <;> rfl
  rw [hreturns] at hs'
  exact ⟨s', hs'⟩

/-- One item is pushed while another call pops. -/
theorem interleavings_included_example :
    ∃ s', (system fourSlots ℕ).Run System.anyStep (system fourSlots ℕ).init
      [.pushed 1, .pushed 2, .popped 1] s' := by
  have h : ((RingBuffer.system fourSlots ℕ).exec System.anyStep
      (RingBuffer.system fourSlots ℕ).init overlappingCalls).map (fun r => returns r.2) =
      some [.pushed 1, .pushed 2, .popped 1] := by rfl
  obtain ⟨s, es, hrun, hes⟩ := System.exists_run_of_exec h
  have hrun' := interleavings_included hrun
  rw [hes] at hrun'
  exact hrun'

/-! ## Stale answers on both sides -/

/-- The history up to an answer that one thread sees last. -/
lemma exists_answer {A B : Type} {f : A → Option B} {l : List A} {front : List B} {b : B}
    (h : l.filterMap f = front ++ [b]) :
    ∃ l₁ a l₂, l = l₁ ++ a :: l₂ ∧ f a = some b ∧ l₁.filterMap f = front := by
  obtain ⟨l₁, rest, rfl, hfront, hrest⟩ := List.filterMap_eq_append_iff.mp h
  obtain ⟨l₂, a, l₃, rfl, hnone, ha, -⟩ := List.filterMap_eq_cons_iff.mp hrest
  refine ⟨l₁ ++ l₂, a, l₃, by rw [List.append_assoc], ha, ?_⟩
  rw [List.filterMap_append, hfront, List.filterMap_eq_nil_iff.mpr hnone, List.append_nil]

/-- The items pushed are those the producer sees pushed. -/
lemma pushes_producer (fs : List (BoundedQueue.Event T)) :
    BoundedQueue.pushes fs =
      pushes (fs.filterMap fun e => (Event.ofQueue? e).filter Event.byProducer) := by
  rw [pushes, List.filterMap_filterMap, BoundedQueue.pushes]
  congr 1
  funext e
  rcases e with (_ | _) | _ | (_ | _) | _ <;> rfl

/-- The items popped are those the consumer sees popped. -/
lemma pops_consumer (fs : List (BoundedQueue.Event T)) :
    BoundedQueue.pops fs =
      pops (fs.filterMap fun e => (Event.ofQueue? e).filter (!·.byProducer)) := by
  rw [pops, List.filterMap_filterMap, BoundedQueue.pops]
  congr 1
  funext e
  rcases e with (_ | _) | _ | (_ | _) | _ <;> rfl

/-- The producer is refused when the queue is seen full. -/
lemma eq_checkFull {e : BoundedQueue.Event T}
    (h : (Event.ofQueue? e).filter Event.byProducer = some .refused) : e = .checkFull true := by
  rcases e with (_ | _) | _ | (_ | _) | _ <;> first | rfl | cases h

/-- The consumer finds nothing when the queue is seen empty. -/
lemma eq_checkEmpty {e : BoundedQueue.Event T}
    (h : (Event.ofQueue? e).filter (!·.byProducer) = some .nothing) : e = .checkEmpty true := by
  rcases e with (_ | _) | _ | (_ | _) | _ <;> first | rfl | cases h

/-- No queue of two places or more fills up for its producer and then, after one pop, is found
empty by its consumer.

**Proof sketch.** When the queue is seen full all its items are pushed and none is popped; when it
is seen empty one is popped, so one is pushed. Neither moment can come first. -/
lemma not_full_and_empty {cap : ℕ} (hcap : 1 < cap) {fs : List (BoundedQueue.Event T)} {q : List T}
    (h : (BoundedQueue.spec T cap).Run [] fs q) (item : T)
    (hproducer : fs.filterMap (fun e => (Event.ofQueue? e).filter Event.byProducer) =
      List.replicate cap (.pushed item) ++ [.refused])
    (hconsumer : fs.filterMap (fun e => (Event.ofQueue? e).filter (!·.byProducer)) =
      [.popped item] ++ [.nothing]) : False := by
  obtain ⟨A, e, A', hA, he, hpushed⟩ := exists_answer hproducer
  obtain ⟨B, f, B', hB, hf, hpopped⟩ := exists_answer hconsumer
  obtain rfl := eq_checkFull he
  obtain rfl := eq_checkEmpty hf
  have hfull := BoundedQueue.run_seenFull (hA ▸ h)
  have hempty := congrArg List.length (BoundedQueue.run_seenEmpty (hB ▸ h))
  have hpushes : (BoundedQueue.pushes A).length = cap := by
    have hitem : Event.pushed? (.pushed item) = some item := rfl
    rw [pushes_producer, hpushed, pushes, List.filterMap_replicate_of_some hitem,
      List.length_replicate]
  have hpops : (BoundedQueue.pops B).length = 1 := by
    rw [pops_consumer, hpopped]
    rfl
  have hAfs : A <+: fs := ⟨_, hA.symm⟩
  have hBfs : B <+: fs := ⟨_, hB.symm⟩
  rcases List.prefix_or_prefix_of_prefix hAfs hBfs with ⟨D, rfl⟩ | ⟨D, rfl⟩
  · rw [BoundedQueue.pushes_append, List.length_append] at hempty
    omega
  · rw [BoundedQueue.pops_append, List.length_append] at hfull
    omega

/-- The producer fills the buffer and is refused once more; the consumer pops the first item and
finds nothing more. -/
def staleOnBothSides (cap : ℕ) (item : T) : List (CreditChannel.Event T) :=
  List.replicate cap (.push item) ++ [.pop item, .nothing, .refuse]

/-- The channel gives these answers: the sender has not collected the credit of the item popped,
nor the receiver the items behind it. -/
lemma run_staleOnBothSides {cap : ℕ} (hcap : 1 ≤ cap) (item : T) :
    ∃ q, (CreditChannel.spec T cap).Run (CreditChannel.spec T cap).init
      (staleOnBothSides cap item) q := by
  have hfill := CreditChannel.run_fill item (le_refl cap)
  obtain ⟨n, rfl⟩ : ∃ n, cap = n + 1 := ⟨cap - 1, by omega⟩
  rw [Nat.sub_self] at hfill
  have hpop : CreditChannel.Step ⟨0, [item] ++ List.replicate n item, [], 0⟩ (.pop item)
      ⟨0, List.replicate n item, [], 1⟩ := .pop rfl
  have hrun := ((hfill.snoc hpop).snoc .nothing).snoc .refuse
  rw [List.append_assoc, List.append_assoc] at hrun
  exact ⟨_, hrun⟩

/-- **Acquire and release do not give interleavings.** In every ring buffer with more than one
place there is a history whose returns, as seen by each of the two threads, no interleaving gives
to both of them.

**Proof sketch.** The history is `staleOnBothSides`: a history of the channel, so one of the
buffer, but by `not_full_and_empty` of no queue. -/
theorem beyond_interleavings [Inhabited T] (hC : 2 < C.val) (item : T) :
    ∃ es s, (system C T).Run System.anyStep (system C T).init es s ∧
      ∀ es' s', (RingBuffer.system C T).Run System.anyStep (RingBuffer.system C T).init es' s' →
        ¬ (producerReturns (returns es') = producerReturns es ∧
          consumerReturns (returns es') = consumerReturns es) := by
  have hplaces : 1 < C.val - 1 := by omega
  obtain ⟨q, hq⟩ := run_staleOnBothSides hplaces.le item
  obtain ⟨s, hs, -⟩ := run_of_channel hq
  refine ⟨_, s, hs, ?_⟩
  rintro es' s' hrun ⟨hproducer, hconsumer⟩
  obtain ⟨q', hq'⟩ := queue_of_run hrun
  rw [producerReturns, returns, List.filter_filterMap] at hproducer
  rw [consumerReturns, returns, List.filter_filterMap] at hconsumer
  refine not_full_and_empty hplaces hq' item (hproducer.trans ?_) (hconsumer.trans ?_)
  · rw [staleOnBothSides, producerReturns, List.map_append, List.filter_append, List.map_replicate,
      List.filter_replicate_of_pos rfl]
    rfl
  · rw [staleOnBothSides, consumerReturns, List.map_append, List.filter_append, List.map_replicate,
      List.filter_replicate_of_neg Bool.false_ne_true]
    rfl

/-- In a buffer of four slots. -/
theorem beyond_interleavings_example :
    ∃ es s, (system fourSlots ℕ).Run System.anyStep (system fourSlots ℕ).init es s ∧
      ∀ es' s', (RingBuffer.system fourSlots ℕ).Run System.anyStep
          (RingBuffer.system fourSlots ℕ).init es' s' →
        ¬ (producerReturns (returns es') = producerReturns es ∧
          consumerReturns (returns es') = consumerReturns es) :=
  beyond_interleavings (by decide) 7

end NullRing.RingBuffer.Weak
