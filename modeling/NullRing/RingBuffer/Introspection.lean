import Mathlib.Data.Nat.ModEq
import NullRing.RingBuffer.Linearizable
import NullRing.Transition.Trace

set_option relaxedAutoImplicit false
set_option autoImplicit false

/-!
# Introspection calls in a run

`size_approx()` and `empty()` load the two indices one after the other. Counting the stores of
`tail_` and of `head_`, a reachable state has as many elements as the difference of the counts,
and the indices are the counts modulo the capacity; so the two loads of a call are two counts,
each taken at its own moment. An answer is traced back to the step that made the first load.

## Main definitions

* `RingBuffer.pushed`, `RingBuffer.popped`, `RingBuffer.count` — the stores of a history, and
  the number of elements stored after it.
* `RingBuffer.Counted` — a state in accordance with its history.
* `RingBuffer.Asks` — the two loads of an introspection call, and what happens in between.

## Main results

* `RingBuffer.counted_of_trace` — every reachable state is in accordance with its history.
* `RingBuffer.exists_asks` — every answer comes from the two loads of one call.
* `RingBuffer.sizeOf_counts` — the wrapped and masked subtraction is the difference of the
  counts modulo the capacity.
-/

namespace NullRing.RingBuffer

open Transition BoundedQueue

variable {T : Type} {C : Capacity} {s s' : State T} {a : Action T} {out es es' : List (Event T)}
  {q : List T}

/-- The steps of a run. -/
abbrev Steps (T : Type) : Type := List (Taken (State T) (Action T) (Event T))

/-! ## Counting -/

/-- The number of stores of `tail_` in a history. -/
def pushed (es : List (Event T)) : ℕ := (pushes (es.filterMap Event.queue?)).length

/-- The number of stores of `head_` in a history. -/
def popped (es : List (Event T)) : ℕ := (pops (es.filterMap Event.queue?)).length

/-- The number of elements stored after a history. -/
def count (es : List (Event T)) : ℕ := pushed es - popped es

/-- Nothing is pushed in the empty history. -/
@[simp] lemma pushed_nil : pushed ([] : List (Event T)) = 0 := rfl

/-- Nothing is popped in the empty history. -/
@[simp] lemma popped_nil : popped ([] : List (Event T)) = 0 := rfl

/-- The stores of `tail_` add up. -/
@[simp] lemma pushed_append : pushed (es ++ es') = pushed es + pushed es' := by simp [pushed]

/-- The stores of `head_` add up. -/
@[simp] lemma popped_append : popped (es ++ es') = popped es + popped es' := by simp [popped]

/-- A state holding the queue `q` is in accordance with its history: the queue has the elements
pushed and not yet popped, and the indices are the counts modulo the capacity. -/
structure Counted (C : Capacity) (es : List (Event T)) (s : State T) (q : List T) : Prop where
  represents : Represents C s q
  balance : pushed es = popped es + q.length
  room : q.length < C.val
  head : s.mem.head = popped es % C.val
  tail : s.mem.tail = pushed es % C.val

/-- The count of a history is the length of the queue. -/
lemma Counted.count_eq (h : Counted C es s q) : count es = q.length := by
  have := h.balance
  unfold count
  omega

/-- One slot is always left empty. -/
lemma Counted.count_lt (h : Counted C es s q) : count es < C.val := by
  rw [h.count_eq]
  exact h.room

/-- No more is popped than pushed. -/
lemma Counted.popped_le (h : Counted C es s q) : popped es ≤ pushed es := by
  have := h.balance
  omega

/-- A step of `try_push` advances `tail_` when it stores it, and leaves `head_` alone.

**Proof sketch.** By cases on the program point. Only the last step stores, and what it stores is
one more than the tail it has loaded, which is still the tail. -/
lemma pushStep_indices {m : Memory T} {k : ℕ} {pc : PushPc T} (hpc : PushOk C m q pc)
    (htail : m.tail = k % C.val) :
    (pushStep C m pc).1.head = m.head ∧
      (pushStep C m pc).1.tail =
        (k + (pushes (pushEvents pc (pushStep C m pc).2)).length) % C.val ∧
      pops (pushEvents pc (pushStep C m pc).2) = [] := by
  cases pc with
  | loadTail item => exact ⟨rfl, htail, rfl⟩
  | loadHead item currentTail =>
    by_cases heq : increment C currentTail = m.head
    · have hstep : pushStep C m (.loadHead item currentTail) = (m, .ret false) := by
        simp [pushStep, heq]
      rw [hstep]
      exact ⟨rfl, htail, rfl⟩
    · have hstep : pushStep C m (.loadHead item currentTail) =
          (m, .next (.writeSlot item currentTail (increment C currentTail))) := by
        simp [pushStep, heq]
      rw [hstep]
      exact ⟨rfl, htail, rfl⟩
  | writeSlot item currentTail nextTail => exact ⟨rfl, htail, rfl⟩
  | storeTail item nextTail =>
    obtain ⟨-, rfl, -⟩ := hpc
    refine ⟨rfl, ?_, rfl⟩
    show increment C m.tail = _
    rw [htail, increment_mod]
    rfl

/-- A step of `try_pop` advances `head_` when it stores it, and leaves `tail_` alone.

**Proof sketch.** As for `try_push`. -/
lemma popStep_indices {m : Memory T} {k : ℕ} {pc : PopPc T} (hpc : PopOk m q pc)
    (hhead : m.head = k % C.val) :
    (popStep C m pc).1.tail = m.tail ∧
      (popStep C m pc).1.head =
        (k + (pops (popEvents (popStep C m pc).2)).length) % C.val ∧
      pushes (popEvents (popStep C m pc).2) = [] := by
  cases pc with
  | loadHead => exact ⟨rfl, hhead, rfl⟩
  | loadTail currentHead =>
    by_cases heq : currentHead = m.tail
    · have hstep : popStep C m (.loadTail currentHead) = (m, .ret none) := by
        simp [popStep, heq]
      rw [hstep]
      exact ⟨rfl, hhead, rfl⟩
    · have hstep : popStep C m (.loadTail currentHead) = (m, .next (.readSlot currentHead)) := by
        simp [popStep, heq]
      rw [hstep]
      exact ⟨rfl, hhead, rfl⟩
  | readSlot currentHead => exact ⟨rfl, hhead, rfl⟩
  | storeHead currentHead item =>
    obtain ⟨rfl, -⟩ := hpc
    refine ⟨rfl, ?_, rfl⟩
    show increment C m.head = _
    rw [hhead, increment_mod]
    rfl

/-- **The step lemma.**

**Proof sketch.** The step is a run of the bounded queue, which conserves items, so the numbers of
items pushed and popped stay balanced. Each index is then moved by the step that shows a push or a
pop (`pushStep_indices`, `popStep_indices`), and by no other. -/
lemma Counted.step (h : Counted C es s q) (hstep : step C s a = some (s', out)) :
    ∃ q', Counted C (es ++ out) s' q' := by
  obtain ⟨q', hrun, hR⟩ := represents_step h.represents hstep
  obtain ⟨n, hstores⟩ := hR.stores
  have hbalance : pushed (es ++ out) = popped (es ++ out) + q'.length := by
    have hconserved := congrArg List.length (run_conserves hrun)
    have := h.balance
    rw [List.length_append, List.length_append] at hconserved
    rw [pushed_append, popped_append]
    unfold pushed popped at *
    omega
  refine ⟨q', hR, hbalance, hstores.room, ?_, ?_⟩
  · rw [popped_append]
    rcases step_cases hstep with ⟨pc, hpc, rfl, rfl⟩ | ⟨pc, hpc, rfl, rfl⟩ | ⟨hmem, hes, -, -⟩
    · obtain ⟨hhead, -, hpops⟩ := pushStep_indices (h.represents.producer pc hpc) h.tail
      rw [popped.eq_1 (List.map ..), filterMap_queue, hpops]
      exact hhead.trans h.head
    · obtain ⟨-, hhead, -⟩ := popStep_indices (h.represents.consumer pc hpc) h.head
      rw [popped.eq_1 (List.map ..), filterMap_queue]
      exact hhead
    · rw [popped.eq_1 out, hes, hmem]
      exact h.head
  · rw [pushed_append]
    rcases step_cases hstep with ⟨pc, hpc, rfl, rfl⟩ | ⟨pc, hpc, rfl, rfl⟩ | ⟨hmem, hes, -, -⟩
    · obtain ⟨-, htail, -⟩ := pushStep_indices (h.represents.producer pc hpc) h.tail
      rw [pushed.eq_1 (List.map ..), filterMap_queue]
      exact htail
    · obtain ⟨htail, -, hpushes⟩ := popStep_indices (h.represents.consumer pc hpc) h.head
      rw [pushed.eq_1 (List.map ..), filterMap_queue, hpushes]
      exact htail.trans h.tail
    · rw [pushed.eq_1 out, hes, hmem]
      exact h.tail

/-- **Every reachable state is in accordance with its history.** -/
lemma counted_of_trace [Inhabited T] {tr : Steps T}
    (h : (system C T).Trace System.anyStep (system C T).init tr s) :
    ∃ q, Counted C (System.events tr) s q := by
  refine h.invariant (I := fun tr s => ∃ q, Counted C (System.events tr) s q) ?_ ?_
  · exact ⟨[], represents_init C, rfl, C.pos, (Nat.zero_mod _).symm, (Nat.zero_mod _).symm⟩
  · rintro tr s a s' out ⟨q, hq⟩ - hstep
    rw [System.events_append, System.events_singleton]
    exact hq.step hstep

/-! ## Who moves -/

/-- The thread that takes an action. -/
def Action.caller : Action T → Caller
  | .callPush _ => .producer
  | .callPop => .consumer
  | .callQuery who _ => who
  | .step who => who

/-- The introspection call a thread is in. -/
def State.query (s : State T) : Caller → Option QueryPc
  | .producer =>
    match s.producer with
    | .querying pc => some pc
    | _ => none
  | .consumer =>
    match s.consumer with
    | .querying pc => some pc
    | _ => none
  | .observer =>
    match s.observer with
    | .querying pc => some pc
    | _ => none

/-- A step of `try_pop` shows nothing of the producer's side. -/
lemma pushed_map_popEvents (r : Outcome (PopPc T) (Option T)) :
    pushed ((popEvents r).map Event.queue) = 0 := by
  unfold pushed
  rw [filterMap_queue]
  unfold popEvents
  split <;> rfl

/-- A step of `try_push` shows nothing of the consumer's side. -/
lemma popped_map_pushEvents (pc : PushPc T) (r : Outcome (PushPc T) Bool) :
    popped ((pushEvents pc r).map Event.queue) = 0 := by
  unfold popped
  rw [filterMap_queue]
  unfold pushEvents
  split <;> rfl

/-- An introspection call shows nothing of either side. -/
lemma counts_afterQuery {Pc : Type} (who : Caller) (querying : QueryPc → Pc) (idle : Pc)
    (r : Outcome QueryPc Answer) :
    pushed (afterQuery (T := T) who querying idle r).2 = 0 ∧
      popped (afterQuery (T := T) who querying idle r).2 = 0 := by
  unfold afterQuery
  split <;> exact ⟨rfl, rfl⟩

/-- **A step is seen by its own thread only**: the others leave the producer alone and store no
tail, the consumer alone and store no head, and the observer alone.

**Proof sketch.** By cases on the action: each is the step of one thread, and shows pushes only if
it is one of `try_push`, and pops only if it is one of `try_pop`. -/
lemma step_frame (h : step C s a = some (s', out)) :
    (a.caller ≠ .producer → s'.producer = s.producer ∧ pushed out = 0) ∧
      (a.caller ≠ .consumer → s'.consumer = s.consumer ∧ popped out = 0) ∧
      (a.caller ≠ .observer → s'.observer = s.observer) := by
  cases a with
  | callPush item =>
    simp only [step] at h
    split at h <;> cases h
    exact ⟨fun hne => absurd rfl hne, fun _ => ⟨rfl, rfl⟩, fun _ => rfl⟩
  | callPop =>
    simp only [step] at h
    split at h <;> cases h
    exact ⟨fun _ => ⟨rfl, rfl⟩, fun hne => absurd rfl hne, fun _ => rfl⟩
  | callQuery who q =>
    cases who <;> simp only [step] at h <;> split at h <;> cases h
    · exact ⟨fun hne => absurd rfl hne, fun _ => ⟨rfl, rfl⟩, fun _ => rfl⟩
    · exact ⟨fun _ => ⟨rfl, rfl⟩, fun hne => absurd rfl hne, fun _ => rfl⟩
    · exact ⟨fun _ => ⟨rfl, rfl⟩, fun _ => ⟨rfl, rfl⟩, fun hne => absurd rfl hne⟩
  | step who =>
    cases who with
    | producer =>
      simp only [step, producerStep] at h
      split at h <;> cases h
      · exact ⟨fun hne => absurd rfl hne, fun _ => ⟨rfl, popped_map_pushEvents _ _⟩, fun _ => rfl⟩
      · exact ⟨fun hne => absurd rfl hne, fun _ => ⟨rfl, (counts_afterQuery ..).2⟩, fun _ => rfl⟩
    | consumer =>
      simp only [step, consumerStep] at h
      split at h <;> cases h
      · exact ⟨fun _ => ⟨rfl, pushed_map_popEvents _⟩, fun hne => absurd rfl hne, fun _ => rfl⟩
      · exact ⟨fun _ => ⟨rfl, (counts_afterQuery ..).1⟩, fun hne => absurd rfl hne, fun _ => rfl⟩
    | observer =>
      simp only [step, observerStep] at h
      split at h <;> cases h
      exact ⟨fun _ => ⟨rfl, (counts_afterQuery ..).1⟩, fun _ => ⟨rfl, (counts_afterQuery ..).2⟩,
        fun hne => absurd rfl hne⟩

/-- The other threads leave the producer alone and store no tail. -/
lemma producer_frame (h : step C s a = some (s', out)) (ha : a.caller ≠ .producer) :
    s'.producer = s.producer ∧ pushed out = 0 := (step_frame h).1 ha

/-- The other threads leave the consumer alone and store no head. -/
lemma consumer_frame (h : step C s a = some (s', out)) (ha : a.caller ≠ .consumer) :
    s'.consumer = s.consumer ∧ popped out = 0 := (step_frame h).2.1 ha

/-- The other threads leave an introspection call alone. -/
lemma query_frame (h : step C s a = some (s', out)) {who : Caller} (ha : a.caller ≠ who) :
    s'.query who = s.query who := by
  cases who with
  | producer => simp only [State.query, (producer_frame h ha).1]
  | consumer => simp only [State.query, (consumer_frame h ha).1]
  | observer => simp only [State.query, (step_frame h).2.2 ha]

/-! ## The two loads of a call -/

/-- The index an introspection call loads first. -/
def Query.firstIndex (q : Query) (m : Memory T) : ℕ :=
  match q with
  | .sizeApprox => m.head
  | .empty .headFirst => m.head
  | .empty .tailFirst => m.tail

/-- **The wrapped and masked subtraction of two counts** is their difference modulo the capacity,
however many laps lie between them.

**Proof sketch.** The mask takes the residue, and `2 ^ 64` is a multiple of the capacity, so the
subtraction may be undone by adding the head back modulo the capacity. -/
theorem sizeOf_counts (C : Capacity) {H L : ℕ} (h : H ≤ L) :
    sizeOf C (H % C.val) (L % C.val) = (L - H) % C.val := by
  have hne : C.val ≠ 0 := by have := C.one_lt; omega
  have hle : H % C.val ≤ L % C.val + 2 ^ 64 := by
    have := Nat.mod_lt H C.pos
    have := C.lt_size
    omega
  have hword : 2 ^ 64 ≡ 0 [MOD C.val] := by
    obtain ⟨k, hk⟩ := Laps.exists_eq_two_pow hne C.and_pred
    have hlt : 2 ^ k < 2 ^ 64 := hk ▸ C.lt_size
    have hk64 : k < 64 := (Nat.pow_lt_pow_iff_right (by omega)).mp hlt
    rw [hk]
    exact (Nat.modEq_zero_iff_dvd).mpr (Nat.pow_dvd_pow 2 hk64.le)
  rw [sizeOf, mask, Laps.and_mask_eq_mod hne C.and_pred,
    Laps.mod_two_pow_mod hne C.and_pred C.lt_size]
  refine Nat.ModEq.add_right_cancel' H ?_
  calc L % C.val + 2 ^ 64 - H % C.val + H
      ≡ L % C.val + 2 ^ 64 - H % C.val + H % C.val [MOD C.val] :=
        (Nat.mod_modEq H C.val).symm.add_left _
    _ = L % C.val + 2 ^ 64 := Nat.sub_add_cancel hle
    _ ≡ L + 0 [MOD C.val] := (Nat.mod_modEq L C.val).add hword
    _ = L - H + H := (Nat.sub_add_cancel h).symm

/-- The size computed from the head of one moment and the tail of another. -/
lemma Counted.sizeOf_eq {q' : List T} (h : Counted C es s q) (h' : Counted C es' s' q')
    (hle : popped es ≤ pushed es') :
    sizeOf C s.mem.head s'.mem.tail = (pushed es' - popped es) % C.val := by
  rw [h.head, h'.tail, sizeOf_counts C hle]

/-- What an introspection call answers, from the index loaded first and the memory of the second
load. -/
def Query.answer (C : Capacity) (q : Query) (first : ℕ) (m : Memory T) : Answer :=
  match q with
  | .sizeApprox => .size (sizeOf C first m.tail)
  | .empty .headFirst => .isEmpty (decide (first = m.tail))
  | .empty .tailFirst => .isEmpty (decide (m.head = first))

/-- The first load goes on to the second, with the index loaded. -/
lemma queryStep_firstLoad (m : Memory T) (q : Query) :
    queryStep C m (.firstLoad q) = .next (.secondLoad q (q.firstIndex m)) := by
  rcases q with _ | _ | _ <;> rfl

/-- The second load answers. -/
lemma queryStep_secondLoad (m : Memory T) (q : Query) (first : ℕ) :
    queryStep C m (.secondLoad q first) = .ret (q.answer C first m) := by
  rcases q with _ | _ | _ <;> rfl

/-- What a thread shows by a step of its own: a step of `try_push` or `try_pop`, after which it
is in no introspection call and which answers nothing, or a step of its introspection call.

**Proof sketch.** By cases on the thread and on the call it is in. A step of `try_push` or `try_pop`
ends in no introspection call and shows events of the queue only; a step of an introspection call is
`queryStep`. -/
lemma own_step {who : Caller} (h : step C s (.step who) = some (s', out)) :
    (s'.query who = none ∧ (∀ u ans, .answered u ans ∉ out) ∧ s.query who = none) ∨
      ∃ pc, s.query who = some pc ∧ s'.mem = s.mem ∧
        match queryStep C s.mem pc with
        | .next pc' => s'.query who = some pc' ∧ out = []
        | .ret ans => s'.query who = none ∧ out = [.answered who ans] := by
  cases who with
  | producer =>
    simp only [step, producerStep] at h
    split at h
    case h_1 => cases h
    case h_2 pc hpc =>
      cases h
      refine Or.inl ⟨?_, ?_, by simp only [State.query, hpc]⟩
      · simp only [State.query]
        rcases (pushStep C s.mem pc).2 with pc' | r <;> rfl
      · intro u ans hmem
        obtain ⟨e, -, he⟩ := List.mem_map.mp hmem
        cases he
    case h_3 pc hpc =>
      cases h
      refine Or.inr ⟨pc, by simp only [State.query, hpc], rfl, ?_⟩
      rcases queryStep C s.mem pc with pc' | ans <;> exact ⟨rfl, rfl⟩
  | consumer =>
    simp only [step, consumerStep] at h
    split at h
    case h_1 => cases h
    case h_2 pc hpc =>
      cases h
      refine Or.inl ⟨?_, ?_, by simp only [State.query, hpc]⟩
      · simp only [State.query]
        rcases (popStep C s.mem pc).2 with pc' | r <;> rfl
      · intro u ans hmem
        obtain ⟨e, -, he⟩ := List.mem_map.mp hmem
        cases he
    case h_3 pc hpc =>
      cases h
      refine Or.inr ⟨pc, by simp only [State.query, hpc], rfl, ?_⟩
      rcases queryStep C s.mem pc with pc' | ans <;> exact ⟨rfl, rfl⟩
  | observer =>
    simp only [step, observerStep] at h
    split at h
    case h_1 => cases h
    case h_2 pc hpc =>
      cases h
      refine Or.inr ⟨pc, by simp only [State.query, hpc], rfl, ?_⟩
      rcases queryStep C s.mem pc with pc' | ans <;> exact ⟨rfl, rfl⟩

/-- A call begins with the first load ahead, and answers nothing.

**Proof sketch.** By cases on the call; none of the program points a call starts from is the second
load. -/
lemma call_step (h : step C s a = some (s', out)) (ha : a ≠ .step a.caller) :
    (∀ q first, s'.query a.caller ≠ some (.secondLoad q first)) ∧ out = [] := by
  cases a with
  | callPush item =>
    simp only [step] at h
    split at h <;> cases h
    refine ⟨fun q first hq => ?_, rfl⟩
    cases hq
  | callPop =>
    simp only [step] at h
    split at h <;> cases h
    refine ⟨fun q first hq => ?_, rfl⟩
    cases hq
  | callQuery who q =>
    cases who <;> simp only [step] at h <;> split at h <;> cases h
    all_goals
      refine ⟨fun q first hq => ?_, rfl⟩
      cases hq
  | step who => exact absurd rfl ha

/-- A thread about to make its second load was so before, or has just made its first load.

**Proof sketch.** Another thread's step leaves the call alone. A step of the thread itself leads to
the second load only from the first one (`own_step`), and a call does not lead there
(`call_step`). -/
lemma secondLoad_of_step (h : step C s a = some (s', out)) {who : Caller} {q : Query} {first : ℕ}
    (hq : s'.query who = some (.secondLoad q first)) :
    (a.caller ≠ who ∧ s.query who = some (.secondLoad q first)) ∨
      (a = .step who ∧ s.query who = some (.firstLoad q) ∧ first = q.firstIndex s.mem) := by
  by_cases hwho : a.caller = who
  · subst hwho
    by_cases ha : a = .step a.caller
    · rw [ha] at h
      rcases own_step h with ⟨hnone, -, -⟩ | ⟨pc, hpc, -, hout⟩
      · rw [hnone] at hq
        cases hq
      · cases pc with
        | firstLoad q' =>
          rw [queryStep_firstLoad] at hout
          rw [hout.1] at hq
          cases hq
          exact Or.inr ⟨ha, hpc, rfl⟩
        | secondLoad q' first' =>
          rw [queryStep_secondLoad] at hout
          rw [hout.1] at hq
          cases hq
    · exact absurd hq ((call_step h ha).1 q first)
  · exact Or.inl ⟨hwho, by rw [← query_frame h hwho, hq]⟩

/-- A step that answers makes the second load of its thread.

**Proof sketch.** A call shows nothing. Among a thread's own steps only the second load of an
introspection call answers (`own_step`). -/
lemma answered_of_step (h : step C s a = some (s', out)) {who : Caller} {ans : Answer}
    (hans : .answered who ans ∈ out) :
    ∃ q first, a = .step who ∧ s.query who = some (.secondLoad q first) ∧
      ans = q.answer C first s.mem ∧ out = [.answered who ans] ∧ s'.mem = s.mem := by
  by_cases ha : a = .step a.caller
  · rw [ha] at h
    rcases own_step h with ⟨-, hnone, -⟩ | ⟨pc, hpc, hmem, hout⟩
    · exact absurd hans (hnone who ans)
    · cases pc with
      | firstLoad q' =>
        rw [queryStep_firstLoad] at hout
        rw [hout.2] at hans
        cases hans
      | secondLoad q' first' =>
        rw [queryStep_secondLoad] at hout
        rw [hout.2, List.mem_singleton] at hans
        cases hans
        exact ⟨q', first', ha, hpc, rfl, hout.2, hmem⟩
  · rw [(call_step h ha).2] at hans
    cases hans

/-- `load` and `answer` are the two loads of a call of `q` by `who`, and `between` what the other
threads do in between. -/
structure Asks (who : Caller) (q : Query)
    (load : Taken (State T) (Action T) (Event T)) (between : Steps T)
    (answer : Taken (State T) (Action T) (Event T)) : Prop where
  load_act : load.act = .step who
  load_query : load.pre.query who = some (.firstLoad q)
  others : ∀ e ∈ between, e.act.caller ≠ who
  answer_act : answer.act = .step who
  answer_query : answer.pre.query who = some (.secondLoad q (q.firstIndex load.pre.mem))

/-- A thread about to make its second load has made the first one, and since then only the
other threads have moved.

**Proof sketch.** Induction on the run. The step that leads the thread to its second load is the
first load sought; a later step of another thread is added to those in between. -/
lemma exists_load [Inhabited T] {tr : Steps T}
    (h : (system C T).Trace System.anyStep (system C T).init tr s) {who : Caller} {q : Query}
    {first : ℕ} (hq : s.query who = some (.secondLoad q first)) :
    ∃ tr₀ load between, tr = tr₀ ++ load :: between ∧ load.act = .step who ∧
      load.pre.query who = some (.firstLoad q) ∧ first = q.firstIndex load.pre.mem ∧
      ∀ e ∈ between, e.act.caller ≠ who := by
  revert q first
  refine h.invariant (I := fun tr s => ∀ {q first}, s.query who = some (.secondLoad q first) →
    ∃ tr₀ load between, tr = tr₀ ++ load :: between ∧ load.act = .step who ∧
      load.pre.query who = some (.firstLoad q) ∧ first = q.firstIndex load.pre.mem ∧
      ∀ e ∈ between, e.act.caller ≠ who) ?_ ?_
  · intro q first hq
    cases who <;> cases hq
  · intro tr s a s' out ih _ hstep q first hq
    rcases secondLoad_of_step hstep hq with ⟨hcaller, hsame⟩ | ⟨ha, hfirst, hval⟩
    · obtain ⟨tr₀, load, between, rfl, hact, hload, hval, hothers⟩ := ih hsame
      refine ⟨tr₀, load, between ++ [⟨s, a, out, s'⟩], by simp, hact, hload, hval, ?_⟩
      intro e he
      rcases List.mem_append.mp he with he | he
      · exact hothers e he
      · rw [List.mem_singleton.mp he]
        exact hcaller
    · exact ⟨tr, ⟨s, a, out, s'⟩, [], rfl, ha, hfirst, hval, by simp⟩

/-- **Every answer comes from the two loads of one call.** -/
theorem exists_asks [Inhabited T] {tr : Steps T} {e : Taken (State T) (Action T) (Event T)}
    (h : (system C T).Trace System.anyStep (system C T).init (tr ++ [e]) s) {who : Caller}
    {ans : Answer} (hans : .answered who ans ∈ e.out) :
    ∃ q tr₀ load between, tr = tr₀ ++ load :: between ∧ Asks who q load between e ∧
      ans = q.answer C (q.firstIndex load.pre.mem) e.pre.mem ∧ e.out = [.answered who ans] := by
  obtain ⟨htr, -, hstep, -⟩ := h.of_snoc
  obtain ⟨q, first, ha, hq, hval, hout, -⟩ := answered_of_step hstep hans
  obtain ⟨tr₀, load, between, rfl, hact, hload, rfl, hothers⟩ := exists_load htr hq
  exact ⟨q, tr₀, load, between, rfl, ⟨hact, hload, hothers, ha, hq⟩, hval, hout⟩

end NullRing.RingBuffer
