import Mathlib.Data.List.Infix
import NullRing.RingBuffer.Introspection

set_option relaxedAutoImplicit false
set_option autoImplicit false

/-!
# Introspection by an observer

Both indices may move between the two loads of an observer. What it computes is the difference of
the pushes at its `tail_` load and the pops at its `head_` load, modulo the capacity. The two
counts belong together, as those of one moment, when no store of the index loaded second follows
a store of the index loaded first; then the answer is exact at that moment. In general it is right
at some moment exactly when the stores that the two counts do not have in common are whole laps
there. Otherwise an answer of `size_approx()` is an upper bound, as long as the difference is below
the capacity, and `empty()` may return true on a buffer that holds elements throughout the call.

## Main definitions

* `RingBuffer.Serial` — the stores between the two loads of a call come in an order in which the
  loads take a snapshot.
* `RingBuffer.WholeLaps` — the stores between the two loads that the two counts do not have in
  common are whole laps.
* `RingBuffer.SizeAnswer`, `RingBuffer.EmptyAnswer` — what the answers say.
* `RingBuffer.Misled` — an answer that is wrong throughout the call.

## Main results

* `RingBuffer.observer_answers` — the answers of the observer.
* `RingBuffer.observer_misled` — neither call always takes a snapshot.
-/

namespace NullRing.RingBuffer

open Transition

variable {T : Type} {C : Capacity} {s : State T} {past between mid rest tr : Steps T}
  {load e : Taken (State T) (Action T) (Event T)} {q : Query}

/-! ## The counts at the moments of a call -/

/-- The number of stores of the index a call loads first. -/
def Query.firstStores (q : Query) (es : List (Event T)) : ℕ :=
  match q with
  | .sizeApprox => popped es
  | .empty .headFirst => popped es
  | .empty .tailFirst => pushed es

/-- The number of stores of the index a call loads second. -/
def Query.secondStores (q : Query) (es : List (Event T)) : ℕ :=
  match q with
  | .sizeApprox => pushed es
  | .empty .headFirst => pushed es
  | .empty .tailFirst => popped es

/-- Between the two loads of a call, no store of the index loaded second follows a store of the
index loaded first. -/
def Serial (q : Query) (between : Steps T) : Prop :=
  ∃ before after, between = before ++ after ∧
    q.firstStores (System.events before) = 0 ∧ q.secondStores (System.events after) = 0

/-- At some moment between the two loads of a call, the stores of the index loaded first until then
and the stores of the index loaded second from then on are whole laps together. -/
def WholeLaps (C : Capacity) (q : Query) (between : Steps T) : Prop :=
  ∃ before after, between = before ++ after ∧
    C.val ∣ q.firstStores (System.events before) + q.secondStores (System.events after)

/-- Where the counts belong together, no stores are to be made up for. -/
lemma Serial.wholeLaps (h : Serial q between) : WholeLaps C q between := by
  obtain ⟨before, after, hsplit, hbefore, hafter⟩ := h
  exact ⟨before, after, hsplit, by rw [hbefore, hafter]; exact Nat.dvd_zero _⟩

/-- A step of the observer stores neither index. -/
lemma counts_of_observer (h : step C e.pre e.act = some (e.post, e.out))
    (he : e.act.caller = .observer) : pushed e.out = 0 ∧ popped e.out = 0 := by
  refine ⟨(producer_frame h ?_).2, (consumer_frame h ?_).2⟩ <;> rw [he] <;> nofun

/-- The counts at a moment between the two loads, and at the second load.

**Proof sketch.** The steps are those before the first load, that load, which stores nothing, those
until the moment and those from then on; at the moment the buffer is in accordance with its history
(`counted_of_trace`). -/
lemma counts_around [Inhabited T] {before after : Steps T}
    (h : (system C T).Trace System.anyStep (system C T).init
      (past ++ load :: (before ++ after)) s)
    (hload : load.act.caller = .observer) :
    pushed (System.events (past ++ load :: (before ++ after))) = pushed (System.events past) +
        pushed (System.events before) + pushed (System.events after) ∧
      popped (System.events (past ++ load :: (before ++ after))) = popped (System.events past) +
        popped (System.events before) + popped (System.events after) ∧
      count (System.events (past ++ load :: before)) + popped (System.events past) +
          popped (System.events before) =
        pushed (System.events past) + pushed (System.events before) ∧
      count (System.events (past ++ load :: before)) < C.val := by
  rw [← List.cons_append, ← List.append_assoc] at h
  obtain ⟨s₁, hnow, -⟩ := h.of_append
  obtain ⟨hpushed, hpopped⟩ := counts_of_observer (hnow.of_cons.2.2.1) hload
  obtain ⟨q, hq⟩ := counted_of_trace hnow
  have hle := hq.popped_le
  have hpushed' : pushed (System.events (past ++ load :: before)) =
      pushed (System.events past) + pushed (System.events before) := by simp [hpushed]
  have hpopped' : popped (System.events (past ++ load :: before)) =
      popped (System.events past) + popped (System.events before) := by simp [hpopped]
  refine ⟨by simp [hpushed, Nat.add_assoc], by simp [hpopped, Nat.add_assoc], ?_, hq.count_lt⟩
  unfold count
  omega

section Moments

variable [Inhabited T] {before after : Steps T}
  (h : (system C T).Trace System.anyStep (system C T).init (past ++ load :: (before ++ after)) s)
  (hload : load.act.caller = .observer)
include h hload

/-- What `size_approx()` computes is the number of elements at a moment exactly when the pops before
the moment and the pushes after it are whole laps together. -/
lemma size_at_moment :
    (pushed (System.events (past ++ load :: (before ++ after))) -
        popped (System.events past)) % C.val = count (System.events (past ++ load :: before)) ↔
      C.val ∣ Query.sizeApprox.firstStores (System.events before) +
        Query.sizeApprox.secondStores (System.events after) := by
  obtain ⟨hpushed, -, hbalance, hlt⟩ := counts_around h hload
  have hdiff : pushed (System.events (past ++ load :: (before ++ after))) -
      popped (System.events past) = count (System.events (past ++ load :: before)) +
        (popped (System.events before) + pushed (System.events after)) := by omega
  rw [hdiff]
  exact Laps.add_mod_eq_self_iff hlt

/-- Where `empty()` finds the indices equal, nothing is stored at a moment exactly when the stores
of the index loaded first before the moment and the stores of the other index after it are whole
laps together.

**Proof sketch.** The counts compared, one of them with the number of elements and these stores
added, differ by nothing, so modulo the capacity that number and these stores make up for each
other; and there are fewer elements than a lap. -/
lemma empty_at_moment (order : LoadOrder)
    (hmod : (Query.empty order).firstStores (System.events past) % C.val =
      (Query.empty order).secondStores
        (System.events (past ++ load :: (before ++ after))) % C.val) :
    C.val ∣ (Query.empty order).firstStores (System.events before) +
        (Query.empty order).secondStores (System.events after) ↔
      count (System.events (past ++ load :: before)) = 0 := by
  obtain ⟨hpushed, hpopped, hbalance, hlt⟩ := counts_around h hload
  cases order with
  | headFirst =>
    simp only [Query.firstStores, Query.secondStores] at hmod ⊢
    have htotal : pushed (System.events (past ++ load :: (before ++ after))) =
        popped (System.events past) + (count (System.events (past ++ load :: before)) +
          (popped (System.events before) + pushed (System.events after))) := by omega
    rw [htotal] at hmod
    exact Laps.dvd_iff_of_dvd_add hlt (Nat.left_modEq_add_iff.mp hmod)
  | tailFirst =>
    simp only [Query.firstStores, Query.secondStores] at hmod ⊢
    refine Laps.dvd_iff_of_mod_eq hlt hmod ?_
    omega

end Moments

/-! ## The answers -/

/-- What an answer `n` of `size_approx()` says, when the `head_` load came after the steps `past`
and the `tail_` load after the steps `between`. -/
structure SizeAnswer (C : Capacity) (n : ℕ) (past : Steps T)
    (load : Taken (State T) (Action T) (Event T)) (between : Steps T) : Prop where
  /-- The pushes at the `tail_` load less the pops at the `head_` load. -/
  value : n = (pushed (System.events (past ++ load :: between)) -
    popped (System.events past)) % C.val
  /-- The answer is the number of elements at some moment between the loads exactly when the stores
  that the two counts do not have in common are whole laps. -/
  exact_iff : (∃ mid, mid <+: between ∧ n = count (System.events (past ++ load :: mid))) ↔
    WholeLaps C .sizeApprox between
  /-- Where the two counts belong together, the answer is the number of elements at some moment
  between the loads. -/
  snapshot : Serial .sizeApprox between →
    ∃ mid, mid <+: between ∧ n = count (System.events (past ++ load :: mid))
  /-- Short of a lap, the answer is an upper bound at every moment. -/
  bound : pushed (System.events (past ++ load :: between)) - popped (System.events past) < C.val →
    ∀ mid, mid <+: between → count (System.events (past ++ load :: mid)) ≤ n
  /-- Short of a lap, the answer is exact at some moment only where the counts belong together. -/
  serial : pushed (System.events (past ++ load :: between)) - popped (System.events past) < C.val →
    ∀ mid, mid <+: between → n = count (System.events (past ++ load :: mid)) →
      Serial .sizeApprox between

/-- What an answer `b` of `empty()` says, when the first load came after the steps `past` and the
second load after the steps `between`. -/
structure EmptyAnswer (C : Capacity) (order : LoadOrder) (b : Bool) (past : Steps T)
    (load : Taken (State T) (Action T) (Event T)) (between : Steps T) : Prop where
  /-- The stores of the two indices, each counted at its load, are equal modulo the capacity. -/
  value : b = true ↔ (Query.empty order).firstStores (System.events past) % C.val =
    (Query.empty order).secondStores (System.events (past ++ load :: between)) % C.val
  /-- An answer true is right at some moment between the loads exactly when the counts compared
  differ, so that the answer is false, or the stores that they do not have in common are whole
  laps. -/
  right_iff : (b = true →
      ∃ mid, mid <+: between ∧ count (System.events (past ++ load :: mid)) = 0) ↔
    ((Query.empty order).firstStores (System.events past) % C.val =
        (Query.empty order).secondStores (System.events (past ++ load :: between)) % C.val →
      WholeLaps C (.empty order) between)
  /-- Where the two counts belong together, the answer is right at some moment between the
  loads. -/
  snapshot : Serial (.empty order) between →
    ∃ mid, mid <+: between ∧ (b = true ↔ count (System.events (past ++ load :: mid)) = 0)
  /-- With `head_` loaded first and short of a lap, the buffer was empty at the `head_` load. -/
  headFirst : order = .headFirst → b = true →
    pushed (System.events (past ++ load :: between)) - popped (System.events past) < C.val →
    count (System.events past) = 0
  /-- With `tail_` loaded first and less than a lap popped since, the elements of the `tail_` load
  are those popped since. -/
  tailFirst : order = .tailFirst → b = true → popped (System.events between) < C.val →
    popped (System.events between) = count (System.events past)

section Answers

variable [Inhabited T]
  (h : (system C T).Trace System.anyStep (system C T).init (past ++ load :: between) s)
include h

/-- The answers of `size_approx()`.

**Proof sketch.** `tail_` at the second load and `head_` at the first are counts modulo the
capacity, so their difference is a difference of counts. By `size_at_moment` it is exact at a moment
up to whole laps; short of a lap it exceeds the number of elements at every moment by the pops
before the moment and the pushes after it. -/
lemma sizeAnswer_of_loads (hload : load.act.caller = .observer) :
    SizeAnswer C (sizeOf C load.pre.mem.head s.mem.tail) past load between := by
  obtain ⟨q, hq⟩ := counted_of_trace h.of_cons.1
  obtain ⟨q', hq'⟩ := counted_of_trace h
  have hall : (system C T).Trace System.anyStep (system C T).init
      (past ++ load :: (between ++ [])) s := by rwa [List.append_nil]
  obtain ⟨hpushed, -⟩ := counts_around hall hload
  rw [List.append_nil, System.events_nil, pushed_nil] at hpushed
  have hle := hq.popped_le
  have hvalue : sizeOf C load.pre.mem.head s.mem.tail =
      (pushed (System.events (past ++ load :: between)) - popped (System.events past)) % C.val :=
    hq.sizeOf_eq hq' (by omega)
  rw [hvalue]
  have hexact : (∃ mid, mid <+: between ∧
      (pushed (System.events (past ++ load :: between)) - popped (System.events past)) % C.val =
        count (System.events (past ++ load :: mid))) ↔ WholeLaps C .sizeApprox between := by
    constructor
    · rintro ⟨before, ⟨after, rfl⟩, hmid⟩
      exact ⟨before, after, rfl, (size_at_moment h hload).mp hmid⟩
    · rintro ⟨before, after, rfl, hlaps⟩
      exact ⟨before, List.prefix_append .., (size_at_moment h hload).mpr hlaps⟩
  refine ⟨rfl, hexact, fun hserial => hexact.mpr hserial.wholeLaps, ?_, ?_⟩
  · rintro hlap before ⟨after, rfl⟩
    obtain ⟨hpushed', -, hbalance, -⟩ := counts_around h hload
    rw [Nat.mod_eq_of_lt hlap]
    omega
  · rintro hlap before ⟨after, rfl⟩ hmid
    obtain ⟨hpushed', -, hbalance, -⟩ := counts_around h hload
    rw [Nat.mod_eq_of_lt hlap] at hmid
    -- neither a pop before the moment nor a push after it can be made up for
    exact ⟨before, after, rfl, by simp only [Query.firstStores]; omega,
      by simp only [Query.secondStores]; omega⟩

/-- What `empty()` compares, in either order of its loads: the stores of the two indices, each
counted at its load.

**Proof sketch.** Each index is the count of its stores modulo the capacity, at the moment of its
load. -/
lemma empty_eq_true_iff {order : LoadOrder} {b : Bool}
    (hb : (Query.empty order).answer C ((Query.empty order).firstIndex load.pre.mem) s.mem =
      .isEmpty b) :
    b = true ↔ (Query.empty order).firstStores (System.events past) % C.val =
      (Query.empty order).secondStores (System.events (past ++ load :: between)) % C.val := by
  obtain ⟨q, hq⟩ := counted_of_trace h.of_cons.1
  obtain ⟨q', hq'⟩ := counted_of_trace h
  cases order with
  | headFirst =>
    obtain rfl := Answer.isEmpty.inj hb
    refine decide_eq_true_iff.trans ?_
    simp only [Query.firstIndex, Query.firstStores, Query.secondStores]
    rw [hq.head, hq'.tail]
  | tailFirst =>
    obtain rfl := Answer.isEmpty.inj hb
    refine decide_eq_true_iff.trans ?_
    simp only [Query.firstIndex, Query.firstStores, Query.secondStores]
    rw [hq.tail, hq'.head, eq_comm]

/-- Where the two counts belong together, they are compared as at one moment. -/
lemma empty_of_serial (hload : load.act.caller = .observer) {order : LoadOrder}
    (hserial : Serial (.empty order) between) :
    ∃ mid, mid <+: between ∧ ((Query.empty order).firstStores (System.events past) % C.val =
      (Query.empty order).secondStores (System.events (past ++ load :: between)) % C.val ↔
        count (System.events (past ++ load :: mid)) = 0) := by
  obtain ⟨before, after, rfl, hbefore, hafter⟩ := hserial
  refine ⟨before, List.prefix_append .., fun hmod => ?_, fun hzero => ?_⟩
  · refine (empty_at_moment h hload order hmod).mp ?_
    rw [hbefore, hafter]
    exact Nat.dvd_zero _
  · obtain ⟨hpushed, hpopped, hbalance, -⟩ := counts_around h hload
    congr 1
    cases order <;> simp only [Query.firstStores, Query.secondStores] at hbefore hafter ⊢ <;> omega

/-- The answers of `empty()`.

**Proof sketch.** The answer compares two counts modulo the capacity (`empty_eq_true_iff`). Where
they are found equal, a moment at which nothing is stored is one around which the stores make whole
laps (`empty_at_moment`). Short of a lap, equal residues are equal counts. -/
lemma emptyAnswer_of_loads (hload : load.act.caller = .observer) {order : LoadOrder} {b : Bool}
    (hb : (Query.empty order).answer C ((Query.empty order).firstIndex load.pre.mem) s.mem =
      .isEmpty b) :
    EmptyAnswer C order b past load between := by
  have hvalue := empty_eq_true_iff h hb
  obtain ⟨q, hq⟩ := counted_of_trace h.of_cons.1
  have hle := hq.popped_le
  have hall : (system C T).Trace System.anyStep (system C T).init
      (past ++ load :: (between ++ [])) s := by rwa [List.append_nil]
  obtain ⟨hpushed, hpopped, -⟩ := counts_around hall hload
  rw [List.append_nil, System.events_nil] at hpushed hpopped
  refine ⟨hvalue, ?_, ?_, ?_, ?_⟩
  · rw [hvalue]
    refine imp_congr_right fun hmod => ?_
    constructor
    · rintro ⟨before, ⟨after, rfl⟩, hmid⟩
      exact ⟨before, after, rfl, (empty_at_moment h hload order hmod).mpr hmid⟩
    · rintro ⟨before, after, rfl, hlaps⟩
      exact ⟨before, List.prefix_append .., (empty_at_moment h hload order hmod).mp hlaps⟩
  · intro hserial
    obtain ⟨mid, hmid, hiff⟩ := empty_of_serial h hload hserial
    exact ⟨mid, hmid, hvalue.trans hiff⟩
  · rintro rfl hb hlap
    have heq : popped (System.events past) =
        pushed (System.events (past ++ load :: between)) :=
      Laps.eq_of_mod_eq (by omega) (by omega) (hvalue.mp hb)
    rw [pushed_nil] at hpushed
    unfold count
    omega
  · rintro rfl hb hlap
    have hcount := hq.count_lt
    have heq : (popped (System.events past) + popped (System.events between)) % C.val =
        (popped (System.events past) + count (System.events past)) % C.val := by
      rw [popped_nil, Nat.add_zero] at hpopped
      rw [← hpopped, count, Nat.add_sub_cancel' hle]
      exact (hvalue.mp hb).symm
    exact Laps.add_mod_injective hlap hcount heq

end Answers

/-- **The answers of the observer.** In every run, an answer to the observer comes from two loads:
`size_approx()` returns the pushes at the `tail_` load less the pops at the `head_` load, modulo
the capacity, and `empty()` compares the two counts modulo the capacity; what that says of the
elements stored between the loads, and exactly when the answer is right at some moment between them,
is `SizeAnswer` and `EmptyAnswer`.

**Proof sketch.** The loads are found by `exists_asks`, and each is a count by
`counted_of_trace`; the rest is `sizeAnswer_of_loads` and `emptyAnswer_of_loads`. -/
theorem observer_answers [Inhabited T]
    (h : (system C T).Trace System.anyStep (system C T).init (tr ++ [e]) s) :
    (∀ n, .answered .observer (.size n) ∈ e.out →
      ∃ past load between, tr = past ++ load :: between ∧
        Asks .observer .sizeApprox load between e ∧ SizeAnswer C n past load between) ∧
    (∀ b, .answered .observer (.isEmpty b) ∈ e.out →
      ∃ order past load between, tr = past ++ load :: between ∧
        Asks .observer (.empty order) load between e ∧
        EmptyAnswer C order b past load between) := by
  obtain ⟨htr, -, -, -⟩ := h.of_snoc
  constructor
  · intro n hans
    obtain ⟨q, past, load, between, rfl, hasks, hval, -⟩ := exists_asks h hans
    have hload : load.act.caller = .observer := by rw [hasks.load_act]; rfl
    rcases q with _ | order
    · obtain rfl := Answer.size.inj hval
      exact ⟨past, load, between, rfl, hasks, sizeAnswer_of_loads htr hload⟩
    · rcases order with _ | _ <;> cases hval
  · intro b hans
    obtain ⟨q, past, load, between, rfl, hasks, hval, -⟩ := exists_asks h hans
    have hload : load.act.caller = .observer := by rw [hasks.load_act]; rfl
    rcases q with _ | order
    · cases hval
    · exact ⟨order, past, load, between, rfl, hasks, emptyAnswer_of_loads htr hload hval.symm⟩

/-- The producer pushes twice, and the consumer pops once in between, while the observer asks for
the size. -/
def askedMeanwhile : List (Action ℕ) :=
  [.callQuery .observer .sizeApprox, .step .observer,
   .callPush 1, .step .producer, .step .producer, .step .producer, .step .producer,
   .callPop, .step .consumer, .step .consumer, .step .consumer, .step .consumer,
   .callPush 2, .step .producer, .step .producer, .step .producer, .step .producer]

/-- Both items are pushed after the `head_` load and before the `tail_` load, so the answer is two,
although the buffer holds at most one. -/
theorem observer_answers_example :
    ∃ tr e s, (system fourSlots ℕ).Trace System.anyStep (system fourSlots ℕ).init (tr ++ [e]) s ∧
      .answered .observer (.size 2) ∈ e.out ∧
      ∃ past load between, tr = past ++ load :: between ∧
        SizeAnswer fourSlots 2 past load between := by
  have h : (((system fourSlots ℕ).record System.anyStep (system fourSlots ℕ).init
      askedMeanwhile).map fun r => (step fourSlots r.1 (.step .observer)).map (fun r => r.2)) =
      some (some [.answered .observer (.size 2)]) := by rfl
  obtain ⟨s, tr, htr, hv⟩ := System.exists_trace_of_record h
  obtain ⟨⟨s', out⟩, hstep, hout⟩ := Option.map_eq_some_iff.mp hv
  have hans : .answered .observer (.size 2) ∈ out := by
    rw [show out = _ from hout]
    exact List.mem_singleton_self _
  change (system fourSlots ℕ).step s (.step .observer) = some (s', out) at hstep
  have hfull := htr.snoc trivial hstep
  obtain ⟨past, load, between, hsplit, -, hsize⟩ := (observer_answers hfull).1 2 hans
  exact ⟨tr, _, s', hfull, hans, past, load, between, hsplit, hsize⟩

/-! ## Answers that were never right -/

/-- In some run the call `q` of the observer is answered by `ans`, although at every moment of the
call the number of elements is `bad`. -/
def Misled (C : Capacity) (q : Query) (ans : Answer) (bad : ℕ → Prop) : Prop :=
  ∃ before call during e s,
    (system C ℕ).Trace System.anyStep (system C ℕ).init (before ++ call :: during ++ [e]) s ∧
    call.act = .callQuery .observer q ∧ .answered .observer ans ∈ e.out ∧
    ∀ mid, mid <+: during → bad (count (System.events (before ++ call :: mid)))

/-- Whether the observer is misled when it makes the call `q` after the actions `as`, takes part in
the actions `bs`, and makes its second load last. -/
def misleads (C : Capacity) (q : Query) (ans : Answer) (bad : ℕ → Prop) [DecidablePred bad]
    (as bs : List (Action ℕ)) : Bool :=
  match (system C ℕ).record System.anyStep (system C ℕ).init as with
  | none => false
  | some (s, before) =>
    match (system C ℕ).record System.anyStep s (.callQuery .observer q :: bs) with
    | some (s', call :: during) =>
      match (system C ℕ).record System.anyStep s' [.step .observer] with
      | some (_, [e]) =>
        decide (call.act = .callQuery .observer q) &&
          decide (e.out = [.answered .observer ans]) &&
          during.inits.all fun mid =>
            decide (bad (count (System.events (before ++ call :: mid))))
      | _ => false
    | _ => false

/-- A call that misleads when executed misleads in a run.

**Proof sketch.** The three recorded pieces, before the call, during it and its last step, are
traces, and are put together; the check made after each prefix of the piece during the call is what
is asked of every moment of it. -/
lemma misled_of_misleads {C : Capacity} {q : Query} {ans : Answer} {bad : ℕ → Prop}
    [DecidablePred bad] (as bs : List (Action ℕ)) (h : misleads C q ans bad as bs = true) :
    Misled C q ans bad := by
  unfold misleads at h
  split at h
  case h_1 => cases h
  case h_2 s before hbefore =>
    split at h
    case h_2 => cases h
    case h_1 s' call during hduring =>
      split at h
      case h_2 => cases h
      case h_1 s'' e hlast =>
        rw [Bool.and_eq_true, Bool.and_eq_true, decide_eq_true_eq, decide_eq_true_eq] at h
        obtain ⟨⟨hcall, hout⟩, hbad⟩ := h
        refine ⟨before, call, during, e, s'', ?_, hcall, by simp [hout], ?_⟩
        · exact ((System.trace_of_record hbefore).append
            (System.trace_of_record hduring)).append (System.trace_of_record hlast)
        · intro mid hmid
          have := List.all_eq_true.mp hbad mid ((List.mem_inits mid during).mpr hmid)
          exact of_decide_eq_true this

/-- A `try_push` from its call to its return. -/
def wholePush (item : ℕ) : List (Action ℕ) :=
  [.callPush item, .step .producer, .step .producer, .step .producer, .step .producer]

/-- A `try_pop` from its call to its return. -/
def wholePop : List (Action ℕ) :=
  [.callPop, .step .consumer, .step .consumer, .step .consumer, .step .consumer]

/-- **Neither call always takes a snapshot**: with four slots, `size_approx()` returns two on a
buffer that never holds two elements, and `empty()` returns true on a buffer that holds an element
throughout the call, in either order of its loads. -/
theorem observer_misled :
    Misled fourSlots .sizeApprox (.size 2) (fun n => n < 2) ∧
    Misled fourSlots (.empty .headFirst) (.isEmpty true) (fun n => 0 < n) ∧
    Misled fourSlots (.empty .tailFirst) (.isEmpty true) (fun n => 0 < n) := by
  refine ⟨?_, ?_, ?_⟩
  · -- a push, a pop and a push between the loads
    refine misled_of_misleads []
      (.step .observer :: wholePush 1 ++ wholePop ++ wholePush 2) ?_
    decide +kernel
  · -- from one element to one element, a lap later
    refine misled_of_misleads (wholePush 1)
      (.step .observer :: wholePush 2 ++ wholePop ++ wholePush 3 ++ wholePop ++ wholePush 4) ?_
    decide +kernel
  · -- the element popped is not the one pushed
    refine misled_of_misleads (wholePush 1)
      (.step .observer :: wholePush 2 ++ wholePop) ?_
    decide +kernel

end NullRing.RingBuffer
