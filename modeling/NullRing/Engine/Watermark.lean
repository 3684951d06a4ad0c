import NullRing.Engine.Solo

set_option relaxedAutoImplicit false
set_option autoImplicit false

/-!
# `events_processed()` as a watermark

The consumer increments `processed_` once it has evaluated an event and the callback has returned.
With one consumer at a time the events are evaluated in the order of their submission, so whoever
reads `n` knows that the consumer is done with the first `n` accepted submissions: their events
are evaluated, their results are reported, and every later dereference is of a later submission.

## Main results

* `Engine.events_processed_watermark` — what a read of `events_processed()` says.
-/

namespace NullRing.Engine

open RingBuffer Transition

variable {Thread : Type} {cfg : Config} {es : List (Event Thread)} {q : List ℕ}

/-! ## The counter -/

/-- At most one result is yet to be reported, and it is not counted. -/
lemma WorkerPc.pending_length_le (pc : WorkerPc (PopPc ℕ)) :
    pc.pending.length ≤ pc.uncounted ∧ pc.uncounted ≤ 1 := by
  cases pc <;> simp [WorkerPc.pending, WorkerPc.uncounted]

namespace PipeInv

variable {s : State Thread} (h : PipeInv cfg es q s)
include h

/-- The events evaluated are the first ones accepted. -/
lemma evaluated_prefix : evaluated es <+: accepted es := by
  rw [h.accepted_eq, h.popped_eq, List.append_assoc]
  exact List.prefix_append ..

/-- No more is counted than evaluated, and at most one event less. -/
lemma counted_le : counted es ≤ (evaluated es).length ∧
    (evaluated es).length ≤ counted es + 1 := by
  have := h.count_eq
  have := s.current.pending_length_le
  omega

/-- The counter has not wrapped when fewer than `2 ^ 64` events were accepted. -/
lemma processed_eq (hfew : (accepted es).length < 2 ^ 64) : s.processed = counted es := by
  have hle := h.counted_le.1
  have hlength := h.evaluated_prefix.length_le
  rw [h.processed, Nat.mod_eq_of_lt (by omega)]

/-- The first submissions, as many as are counted, are evaluated. -/
lemma take_prefix_evaluated : (accepted es).take (counted es) <+: evaluated es := by
  obtain ⟨rest, hrest⟩ := h.evaluated_prefix
  rw [← hrest, List.take_append_of_le_length h.counted_le.1]
  exact List.take_prefix ..

/-- The results of the first submissions, as many as are counted, are reported, and at most one
result more. -/
lemma take_prefix_reported (hcb : cfg.onResult = true) :
    ((accepted es).take (counted es)).map cfg.result <+: reported es ∧
      (reported es).length ≤ counted es + 1 := by
  have hresults := h.results_eq hcb
  have hlength := congrArg List.length hresults
  rw [List.length_map, List.length_append, h.count_eq] at hlength
  obtain ⟨hpending, huncounted⟩ := s.current.pending_length_le
  refine ⟨?_, by omega⟩
  obtain ⟨rest, hrest⟩ := h.evaluated_prefix
  rw [← hrest, List.take_append_of_le_length h.counted_le.1, List.map_take, hresults,
    List.take_append_of_le_length (by omega)]
  exact List.take_prefix ..

end PipeInv

/-! ## The dereferences -/

/-- The event dereferenced is the first one accepted that is not evaluated. -/
lemma PipeInv.next_evaluated [DecidableEq Thread] {s s' : State Thread} {a : Action Thread}
    {out : List (Event Thread)} {ptr : ℕ} (h : PipeInv cfg es q s) (hctl : ControlInv s)
    (hmove : Move cfg s a s' out) (hmem : .evaluated ptr ∈ out) :
    (accepted es)[(evaluated es).length]? = some ptr := by
  obtain ⟨id, loop, -, hpc⟩ := hmove.shows hmem
  have hcur : s.current = .evaluating loop ptr :=
    (hctl.current_eq (by rw [hpc]; nofun)).trans hpc
  rw [h.accepted_eq, h.popped_eq, hcur, List.append_assoc]
  simp [WorkerPc.held]

/-- Without a callback nothing is reported. -/
lemma Move.reported_eq_nil [DecidableEq Thread] {s s' : State Thread} {a : Action Thread}
    {out : List (Event Thread)} (hmove : Move cfg s a s' out) (hcb : cfg.onResult = false) :
    reported out = [] := by
  refine List.filterMap_eq_nil_iff.mpr fun e he => ?_
  cases e with
  | reported result =>
    obtain ⟨id, loop, -, -, hon⟩ := hmove.shows he
    rw [hcb] at hon
    cases hon
  | _ => rfl

/-! ## One control thread -/

section Solo

variable {cfg : Config} {s : State Unit} {es : List (Event Unit)}

/-- Without a callback no results are delivered. -/
lemma reported_eq_nil_of_run
    (h : (system cfg Unit).Run System.anyStep (system cfg Unit).init es s)
    (hcb : cfg.onResult = false) : reported es = [] := by
  refine h.invariant (I := fun es _ => reported es = []) rfl ?_
  intro es s a s' out ih _ hstep
  rw [reported_append, ih, (move_of_step hstep).1.reported_eq_nil hcb, List.append_nil]

/-- **`events_processed()` is a safe reclamation watermark.** With one control thread and one
producer, whatever the order of their steps and those of the consumers, and while fewer than
`2 ^ 64` events are accepted: when `events_processed()` is `n`, the first `n` accepted submissions
are evaluated, in order, and their results reported, at most one result more is delivered, and
every later dereference is of an accepted submission after the first `n`.

**Proof sketch.** By `PipeInv`: of the events evaluated, the first of those accepted, at most one
is not counted; and the pointer the consumer holds is the first one accepted and not evaluated. -/
theorem events_processed_watermark
    (h : (system cfg Unit).Run System.anyStep (system cfg Unit).init es s)
    (hfew : (accepted es).length < 2 ^ 64) :
    s.processed ≤ (accepted es).length ∧
    (accepted es).take s.processed <+: evaluated es ∧
    (cfg.onResult = true →
      ((accepted es).take s.processed).map cfg.result <+: reported es) ∧
    (reported es).length ≤ s.processed + 1 ∧
    ∀ es' s' a s'' out ptr, (system cfg Unit).Run System.anyStep s es' s' →
      step cfg s' a = some (s'', out) → .evaluated ptr ∈ out →
      s.processed ≤ (evaluated (es ++ es')).length ∧
        (accepted (es ++ es'))[(evaluated (es ++ es')).length]? = some ptr := by
  obtain ⟨-, q, hpipe⟩ := pipeInv_of_run h
  have hcounted := hpipe.counted_le.1
  rw [hpipe.processed_eq hfew]
  refine ⟨hcounted.trans hpipe.evaluated_prefix.length_le, hpipe.take_prefix_evaluated,
    fun hcb => (hpipe.take_prefix_reported hcb).1, ?_, ?_⟩
  · cases hcb : cfg.onResult with
    | true => exact (hpipe.take_prefix_reported hcb).2
    | false => simp [reported_eq_nil_of_run h hcb]
  · intro es' s' a s'' out ptr hrun hstep hmem
    obtain ⟨hapart, q', hpipe'⟩ := pipeInv_of_run (h.append hrun)
    refine ⟨?_, hpipe'.next_evaluated hapart.toControlInv (move_of_step hstep).1 hmem⟩
    rw [evaluated_append, List.length_append]
    omega

/-- Two events are submitted, the engine is started, and the consumer has delivered the first and
reported the second when `events_processed()` is read. -/
def readBetween : List (Action Unit) :=
  .callSubmit 7 :: List.replicate 4 .stepProducer ++
  .callSubmit 8 :: List.replicate 4 .stepProducer ++
  .callStart () :: List.replicate 4 (.stepControl () false) ++
  List.replicate 15 (.stepWorker 0)

/-- `events_processed()` is read as 1 while the second of two results is being delivered. -/
theorem events_processed_watermark_example :
    ∃ es s,
      (system numberedEvents Unit).Run System.anyStep (system numberedEvents Unit).init es s ∧
      s.processed = 1 ∧ accepted es = [7, 8] ∧ [7] <+: evaluated es ∧
      [numberedEvents.result 7] <+: reported es ∧ (reported es).length ≤ 2 := by
  have h : ((system numberedEvents Unit).exec System.anyStep (system numberedEvents Unit).init
      readBetween).map (fun r => (r.1.processed, accepted r.2)) = some (1, [7, 8]) := by rfl
  obtain ⟨s, es, hrun, hv⟩ := System.exists_run_of_exec h
  obtain ⟨hprocessed, haccepted⟩ := Prod.mk.inj hv
  change s.processed = 1 at hprocessed
  change accepted es = [7, 8] at haccepted
  obtain ⟨-, hevaluated, hreported, hlength, -⟩ :=
    events_processed_watermark hrun (by rw [haccepted]; decide)
  rw [hprocessed, haccepted] at hevaluated hreported
  rw [hprocessed] at hlength
  exact ⟨es, s, hrun, hprocessed, haccepted, hevaluated, hreported rfl, hlength⟩

end Solo

end NullRing.Engine
