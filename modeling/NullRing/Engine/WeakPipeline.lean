import NullRing.Engine.Handled
import NullRing.Engine.WeakSteps
import NullRing.RingBuffer.Credits

set_option relaxedAutoImplicit false
set_option autoImplicit false

/-!
# What becomes of an event under acquire and release

`Engine.Handled` for the engine of `NullRing.Engine.WeakMemory`: stale loads may hide events from
the consumer for a while, but what it pops are the events accepted, in order, and it evaluates,
reports and counts them in turn. The invariant of the ring passes from one consumer to the next,
since what becomes visible with the creation of a thread and with a load of `running_` only adds
to what the consumer has seen of `tail_`.

## Main definitions

* `Engine.Weak.PipeInv` — the invariant.

## Main results

* `Engine.Weak.PipeInv.step` — the step lemma.
-/

namespace NullRing.Engine.Weak

open RingBuffer Transition Laps

variable {cfg : Config} {s s' : State} {a : Action} {es out : List (Event Unit)}

/-! ## The ring -/

section Ring

variable {C : Capacity} {P : List ℕ} {H : ℕ} {ring ring' : RingBuffer.Weak.State ℕ}

/-- What becomes visible to the consumer with an entry of `tail_` keeps the invariant of the
ring.

**Proof sketch.** If the entry is later than the last one read, this is `seeTail`. Otherwise the
consumer has read of all that precedes it, and nothing changes. -/
lemma acquireTail_inv (h : RingBuffer.Weak.Inv C P H ring) {k : ℕ} (hk : k ≤ P.length) :
    RingBuffer.Weak.Inv C P H (acquireTail ring k) ∧
      (acquireTail ring k).tailSeen = max ring.tailSeen k ∧
      (acquireTail ring k).consumer = ring.consumer := by
  have hget : ring.tailHist[k]? = some (RingBuffer.Weak.tailEntry C k) := by
    rw [h.tailHist]
    simp [Nat.lt_succ_of_le hk]
  have heq : acquireTail ring k = { ring with
      tailSeen := max ring.tailSeen k,
      writesSeen := fun i => max (ring.writesSeen i)
        ((RingBuffer.Weak.tailEntry C k).writes i) } := by
    simp only [acquireTail, hget]
  rw [heq]
  refine ⟨?_, rfl, rfl⟩
  rcases le_total ring.tailSeen k with hle | hle
  · rw [max_eq_right hle]
    exact h.seeTail hle hk
  · -- the consumer has seen a later entry, and with it all that precedes this one
    have hsame : (fun i => max (ring.writesSeen i) ((RingBuffer.Weak.tailEntry C k).writes i)) =
        ring.writesSeen := by
      rw [h.writesSeen]
      exact funext fun i => max_eq_left (visits_mono hle i)
    rw [max_eq_left hle, hsame]
    exact h

/-- A call of `try_pop()` keeps the invariant of the ring. -/
lemma callPop_inv (h : RingBuffer.Weak.Inv C P H ring) (hnone : ring.consumer = none) :
    RingBuffer.Weak.Inv C P H { ring with consumer := some .loadHead } := by
  refine h.setConsumer (by rw [hnone]; rfl) rfl ?_
  intro pc hpc
  cases hpc
  trivial

/-- A call of `try_push()` keeps the invariant of the ring. -/
lemma callPush_inv (h : RingBuffer.Weak.Inv C P H ring) (hnone : ring.producer = none) (ptr : ℕ) :
    RingBuffer.Weak.Inv C P H { ring with producer := some (.loadTail ptr) } := by
  refine h.setProducer (by rw [hnone]; rfl) rfl ?_
  intro pc hpc
  cases hpc
  trivial

/-- The producer leaves the consumer where it is. -/
lemma pushStep_consumer {entry : ℕ} {pc : PushPc ℕ} {o : Outcome (PushPc ℕ) Bool}
    (h : RingBuffer.Weak.pushStep C ring entry pc = some (ring', o)) :
    ring'.consumer = ring.consumer := by
  cases pc with
  | loadTail ptr => cases h; rfl
  | loadHead ptr currentTail =>
    simp only [RingBuffer.Weak.pushStep] at h
    split at h
    · cases h
    · split at h
      · split at h <;> cases h <;> rfl
      · cases h
  | writeSlot ptr currentTail nextTail => cases h; rfl
  | storeTail ptr nextTail => cases h; rfl

/-- The events that `submit()` accepts are those pushed. -/
lemma accepted_submitEvents (pc : PushPc ℕ) (o : Outcome (PushPc ℕ) Bool) :
    accepted (submitEvents pc o : List (Event Unit)) =
      RingBuffer.Weak.pushes (RingBuffer.Weak.pushEvents pc o) := by
  rcases o with next | _ | _ <;> rfl

/-- The pointers that the consumer gets are those popped. -/
lemma popped_afterPop (s : State) (loop : Loop) (o : Outcome (PopPc ℕ) (Option ℕ)) :
    popped (s.afterPop loop o).2 = RingBuffer.Weak.pops (RingBuffer.Weak.popEvents o) := by
  rcases o with next | _ | ptr
  · rfl
  · cases loop <;> rfl
  · rfl

end Ring

/-! ## The consumer -/

/-- The consumer; when there is none, the last one has ended. -/
def State.current (s : State) : WorkerPc Unit := s.worker.getD .exited

/-! ## The invariant -/

/-- The invariant of the events, after the events `es`. -/
structure PipeInv (cfg : Config) (es : List (Event Unit)) (s : State) : Prop where
  ring : RingBuffer.Weak.Inv defaultRingCapacity (accepted es) (popped es).length s.ring
  order : popped es <+: accepted es
  inPop : s.ring.consumer = none ∨ ∃ loop, s.worker = some (.popping loop ())
  handled : Handled cfg es s.current
  processed : s.processed = counted es % 2 ^ 64
  known_le : s.known ≤ (accepted es).length
  flag_le : ∀ f ∈ s.flagHist, f.tails ≤ (accepted es).length

/-- The invariant holds after the constructor. -/
lemma pipeInv_init (cfg : Config) : PipeInv cfg [] State.init where
  ring := RingBuffer.Weak.inv_init defaultRingCapacity
  order := List.prefix_rfl
  inPop := Or.inl rfl
  handled := ⟨rfl, fun _ => rfl, rfl⟩
  processed := rfl
  known_le := le_rfl
  flag_le := by
    intro f hf
    obtain rfl := List.mem_singleton.mp hf
    exact le_rfl

/-- The next item continues a prefix. -/
lemma prefix_concat {α : Type} {l P : List α} {x : α} (h : l <+: P)
    (hx : P[l.length]? = some x) : l ++ [x] <+: P := by
  have hl : l = P.take l.length := List.prefix_iff_eq_take.mp h
  have htake : P.take (l.length + 1) = l ++ [x] := by
    rw [List.take_add_one, ← hl, hx]
    rfl
  rw [← htake]
  exact List.take_prefix ..

namespace PipeInv

/-- When the consumer is not in `try_pop()`, neither is the ring. -/
lemma consumer_none (h : PipeInv cfg es s) (hw : ∀ loop, s.worker ≠ some (.popping loop ())) :
    s.ring.consumer = none := by
  rcases h.inPop with hnone | ⟨loop, hpop⟩
  · exact hnone
  · exact absurd hpop (hw loop)

/-- Nothing is seen of the events. -/
lemma silent (h : PipeInv cfg es s) (hout : ∀ e ∈ out, e.Silent)
    (hring : RingBuffer.Weak.Inv defaultRingCapacity (accepted es) (popped es).length s'.ring)
    (hin : s'.ring.consumer = none ∨ ∃ loop, s'.worker = some (.popping loop ()))
    (hheld : s'.current.held = s.current.held) (hpending : s'.current.pending = s.current.pending)
    (huncounted : s'.current.uncounted = s.current.uncounted)
    (hprocessed : s'.processed = s.processed) (hknown : s'.known ≤ (accepted es).length)
    (hflag : ∀ f ∈ s'.flagHist, f.tails ≤ (accepted es).length) :
    PipeInv cfg (es ++ out) s' := by
  obtain ⟨h1, h2, -, -, h5⟩ := silent_append hout es
  refine ⟨?_, ?_, hin, ?_, ?_, ?_, ?_⟩
  · rw [h1, h2]; exact hring
  · rw [h1, h2]; exact h.order
  · exact h.handled.silent hout hheld hpending huncounted
  · rw [h5, hprocessed]; exact h.processed
  · rw [h1]; exact hknown
  · rw [h1]; exact hflag

/-- The control thread moves; neither the ring nor the consumer does. -/
lemma control (h : PipeInv cfg es s) (hout : ∀ e ∈ out, e.Silent) (hring : s'.ring = s.ring)
    (hworker : s'.worker = s.worker) (hprocessed : s'.processed = s.processed)
    (hknown : s'.known = s.known) (hflag : s'.flagHist = s.flagHist) :
    PipeInv cfg (es ++ out) s' := by
  have hcurrent : s'.current = s.current := by rw [State.current, State.current, hworker]
  refine h.silent hout (by rw [hring]; exact h.ring) (by rw [hring, hworker]; exact h.inPop)
    (by rw [hcurrent]) (by rw [hcurrent]) (by rw [hcurrent]) hprocessed ?_ ?_
  · rw [hknown]; exact h.known_le
  · rw [hflag]; exact h.flag_le

/-- A store of `running_`. -/
lemma storeRunning (h : PipeInv cfg es s) (value : Bool) (pc : ControlPc) :
    PipeInv cfg (es ++ []) { s.storeRunning value with control := pc } := by
  refine h.silent nofun h.ring h.inPop rfl rfl rfl rfl h.known_le ?_
  intro f hf
  rcases List.mem_append.mp hf with hf | hf
  · exact h.flag_le f hf
  · obtain rfl := List.mem_singleton.mp hf
    exact h.known_le

/-- A step of `submit()`.

**Proof sketch.** The ring's invariant is that of its own development (`pushStep_inv`), with the
event accepted, if any, among those pushed; of what the consumer does nothing is shown. -/
lemma submit (h : PipeInv cfg es s) {entry : ℕ} {pc : PushPc ℕ} {ring : RingBuffer.Weak.State ℕ}
    {o : Outcome (PushPc ℕ) Bool} (hp : s.ring.producer = some pc)
    (hpush : RingBuffer.Weak.pushStep defaultRingCapacity s.ring entry pc = some (ring, o)) :
    PipeInv cfg (es ++ submitEvents pc o)
      { s with ring := { ring with producer := o.pcAfter } } := by
  obtain ⟨hring, -⟩ := RingBuffer.Weak.pushStep_inv h.ring hp hpush
  obtain ⟨hpopped, -, -, hcounted⟩ := submitEvents_shows Unit pc o
  have hlength : (accepted es).length ≤ (accepted (es ++ submitEvents pc o)).length := by
    rw [accepted_append, List.length_append]
    exact Nat.le_add_right ..
  refine ⟨?_, ?_, ?_, ?_, ?_, h.known_le.trans hlength, fun f hf => (h.flag_le f hf).trans hlength⟩
  · rw [accepted_append, popped_append, accepted_submitEvents, hpopped, List.append_nil]
    exact hring
  · rw [accepted_append, popped_append, hpopped, List.append_nil]
    exact h.order.trans (List.prefix_append ..)
  · show ring.consumer = none ∨ _
    rw [pushStep_consumer hpush]
    exact h.inPop
  · exact h.handled.submit pc o
  · rw [counted_append, hcounted]
    exact h.processed

/-- A step of `try_pop()`.

**Proof sketch.** The ring's invariant is that of its own development (`popStep_inv`), by which the
event popped is the next of those pushed; the consumer holds it (`Handled.pop`). -/
lemma pop (h : PipeInv cfg es s) {entry : ℕ} {loop : Loop} {pc : PopPc ℕ}
    {ring : RingBuffer.Weak.State ℕ} {o : Outcome (PopPc ℕ) (Option ℕ)}
    (hw : s.worker = some (.popping loop ())) (hc : s.ring.consumer = some pc)
    (hpop : RingBuffer.Weak.popStep defaultRingCapacity s.ring entry pc = some (ring, o)) :
    PipeInv cfg (es ++ (s.afterPop loop o).2)
      { s with ring := { ring with consumer := o.pcAfter },
               worker := some (s.afterPop loop o).1 } := by
  obtain ⟨hring, -, hitem⟩ := RingBuffer.Weak.popStep_inv h.ring hc hpop
  obtain ⟨hnone, -, -, hcounted⟩ := afterPop_shows Unit (s.spawned - 1) loop (o.map fun _ => ())
  have hcur : s.current = .popping loop () := by rw [State.current, hw]; rfl
  have hhandled := h.handled
  rw [hcur] at hhandled
  have haccepted : accepted (es ++ (s.afterPop loop o).2) = accepted es := by
    rw [accepted_append, State.afterPop, hnone, List.append_nil]
  refine ⟨?_, ?_, ?_, hhandled.pop _ _, ?_, ?_, ?_⟩
  · rw [haccepted, popped_append, popped_afterPop, List.length_append]
    exact hring
  · rw [haccepted, popped_append, popped_afterPop]
    rcases hlist : RingBuffer.Weak.pops (RingBuffer.Weak.popEvents o) with _ | ⟨x, rest⟩
    · rw [List.append_nil]
      exact h.order
    · obtain ⟨hx, hone⟩ := hitem x (by rw [hlist]; exact List.mem_cons_self)
      rw [← hlist, hone]
      exact prefix_concat h.order hx
  · rcases o with next | r
    · exact Or.inr ⟨loop, rfl⟩
    · exact Or.inl rfl
  · rw [counted_append, State.afterPop, hcounted]
    exact h.processed
  · rw [haccepted]
    exact h.known_le
  · rw [haccepted]
    exact h.flag_le

/-- The consumer does something with the event it holds, and stays out of the ring. -/
lemma worker (h : PipeInv cfg es s) {pc : WorkerPc Unit} (hnone : s.ring.consumer = none)
    (haccepted : accepted out = []) (hpopped : popped out = [])
    (hhandled : Handled cfg (es ++ out) pc) {n : ℕ} (hn : n = counted (es ++ out) % 2 ^ 64) :
    PipeInv cfg (es ++ out) { s with worker := some pc, processed := n } := by
  refine ⟨?_, ?_, Or.inl hnone, hhandled, hn, ?_, ?_⟩
  · rw [accepted_append, popped_append, haccepted, hpopped, List.append_nil, List.append_nil]
    exact h.ring
  · rw [accepted_append, popped_append, haccepted, hpopped, List.append_nil, List.append_nil]
    exact h.order
  · rw [accepted_append, haccepted, List.append_nil]
    exact h.known_le
  · rw [accepted_append, haccepted, List.append_nil]
    exact h.flag_le

/-- The consumer calls `try_pop()`. -/
lemma callPop (h : PipeInv cfg es s) (loop : Loop) (hnone : s.ring.consumer = none)
    (hheld : s.current.held = []) (hpending : s.current.pending = [])
    (huncounted : s.current.uncounted = 0) : PipeInv cfg (es ++ []) (s.callPop loop) :=
  h.silent nofun (callPop_inv h.ring hnone) (Or.inr ⟨loop, rfl⟩) hheld.symm hpending.symm
    huncounted.symm rfl h.known_le h.flag_le

/-- Another entry of `tail_` becomes visible to the consumer. -/
lemma acquire (h : PipeInv cfg es s) {k : ℕ} (hk : k ≤ (accepted es).length) (seen : ℕ) :
    PipeInv cfg es { s with ring := acquireTail s.ring k, flagSeen := seen } := by
  obtain ⟨hring, -, hconsumer⟩ := acquireTail_inv h.ring hk
  refine { h with ring := hring, inPop := ?_ }
  show (acquireTail s.ring k).consumer = none ∨ _
  rw [hconsumer]
  exact h.inPop

/-- **The step lemma.**

**Proof sketch.** The steps of the producer and those inside `try_pop()` are the step lemmas of
the ring. A load of `running_`, and the creation of a thread, show the consumer an entry of
`tail_` that was stored before (`acquire`), since an entry of `running_` carries no later one. The
consumer is in the ring exactly in its calls of `try_pop()`, so that a new call finds it idle. -/
theorem step (h : PipeInv cfg es s) (hmove : Move cfg s a s' out) :
    PipeInv cfg (es ++ out) s' := by
  have hcur : ∀ pc, s.worker = some pc → s.current = pc := by
    intro pc hw
    rw [State.current, hw]
    rfl
  have hidle : ∀ pc, s.worker = some pc → (∀ loop, pc ≠ .popping loop ()) →
      s.ring.consumer = none := by
    intro pc hw hpc
    refine h.consumer_none ?_
    intro loop hpop
    rw [hw] at hpop
    exact hpc loop (Option.some.inj hpop)
  have hcount : ∀ out : List (Event Unit), counted out = 0 →
      s.processed = counted (es ++ out) % 2 ^ 64 := by
    intro out hout
    rw [counted_append, hout]
    exact h.processed
  cases hmove with
  | callStart _ | startPass _ _ | stopPass _ _ | isJoinable _ _ =>
    exact h.control nofun rfl rfl rfl rfl rfl
  | callStop _ | startFound _ _ | stopIdle _ _ | notJoinable _ _ | joinThrow _ _ =>
    refine h.control ?_ rfl rfl rfl rfl rfl
    intro e he
    obtain rfl := List.mem_singleton.mp he
    trivial
  | startStore _ => exact h.storeRunning true _
  | stopStore _ => exact h.storeRunning false _
  | create _ hw =>
    have hnone := h.consumer_none (by rw [hw]; nofun)
    obtain ⟨hring, -, hconsumer⟩ := acquireTail_inv h.ring h.known_le
    have hexited : s.current = .exited := by rw [State.current, hw]; rfl
    refine h.silent ?_ hring (Or.inl (hconsumer.trans hnone)) ?_ ?_ ?_ rfl h.known_le h.flag_le
    · intro e he
      obtain rfl := List.mem_singleton.mp he
      trivial
    · rw [hexited]; rfl
    · rw [hexited]; rfl
    · rw [hexited]; rfl
  | joined _ hw =>
    have hnone := hidle _ hw nofun
    refine h.silent ?_ h.ring (Or.inl hnone) ?_ ?_ ?_ rfl ?_ h.flag_le
    · intro e he
      obtain rfl := List.mem_singleton.mp he
      trivial
    · rw [hcur _ hw]; rfl
    · rw [hcur _ hw]; rfl
    · rw [hcur _ hw]; rfl
    · exact max_le h.known_le h.ring.tailSeen_le
  | callSubmit hp =>
    exact h.silent nofun (callPush_inv h.ring hp _) h.inPop rfl rfl rfl rfl h.known_le h.flag_le
  | submit hp hpush => exact h.submit hp hpush
  | @check entry f hw hf _ =>
    have hacquired := h.acquire (h.flag_le f (List.mem_of_getElem? hf)) entry
    refine hacquired.callPop _ (hacquired.consumer_none ?_) ?_ ?_ ?_
    · show ∀ loop, s.worker ≠ some (.popping loop ())
      rw [hw]
      nofun
    · show s.current.held = []
      rw [hcur _ hw]; rfl
    · show s.current.pending = []
      rw [hcur _ hw]; rfl
    · show s.current.uncounted = 0
      rw [hcur _ hw]; rfl
  | pop hw hc hpop => exact h.pop hw hc hpop
  | evaluate hw =>
    have hhandled := h.handled
    rw [hcur _ hw] at hhandled
    exact h.worker (hidle _ hw nofun) rfl rfl hhandled.evaluate (hcount _ rfl)
  | report hw =>
    have hhandled := h.handled
    rw [hcur _ hw] at hhandled
    refine h.worker (hidle _ hw nofun) ?_ ?_ hhandled.report (hcount _ ?_) <;> split <;> rfl
  | count hw =>
    have hhandled := h.handled
    rw [hcur _ hw] at hhandled
    have hnone := hidle _ hw nofun
    have hprocessed : (s.processed + 1) % 2 ^ 64 = counted (es ++ [.counted]) % 2 ^ 64 := by
      rw [counted_append, h.processed, Nat.mod_add_mod]
      rfl
    rename_i loop
    cases loop with
    | main => exact h.worker hnone rfl rfl (hhandled.count ()) hprocessed
    | drain =>
      -- in the second loop the next call of `try_pop()` follows at once
      have hback : PipeInv cfg (es ++ [.counted])
          { s with worker := some (.popping .drain ()),
                   processed := (s.processed + 1) % 2 ^ 64 } :=
        h.worker hnone rfl rfl (hhandled.count ()) hprocessed
      have hcall := hback.callPop .drain hnone rfl rfl rfl
      rwa [List.append_nil] at hcall
  | yield hw =>
    have hhandled := h.handled
    rw [hcur _ hw] at hhandled
    have hnext : Handled cfg (es ++ []) (.checkRunning : WorkerPc Unit) :=
      hhandled.silent nofun rfl rfl rfl
    exact h.worker (hidle _ hw nofun) rfl rfl hnext (hcount [] rfl)
  | synchronize =>
    refine h.silent nofun h.ring h.inPop rfl rfl rfl rfl ?_ h.flag_le
    show s.ring.tailHist.length - 1 ≤ (accepted es).length
    rw [h.ring.tailHist]
    simp

end PipeInv

end NullRing.Engine.Weak
