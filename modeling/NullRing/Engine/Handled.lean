import Mathlib.Tactic.Lemma
import NullRing.Engine.Basic

set_option relaxedAutoImplicit false
set_option autoImplicit false

/-!
# What a consumer has done with the events

What a run shows of the events, and what a consumer at a point of `consumer_loop()` still has in
hand: a pointer popped and not evaluated, a result not yet passed to the callback, an event not yet
counted. A step of the consumer hands an event from one stage to the next, whatever ring it pops
from, and so whatever memory the engine runs on.

## Main definitions

* `Engine.accepted`, `Engine.popped`, `Engine.evaluated`, `Engine.reported`, `Engine.counted` —
  what a run shows of the events.
* `Engine.WorkerPc.held`, `Engine.WorkerPc.pending`, `Engine.WorkerPc.uncounted` — what the consumer
  has in hand.
* `Engine.Handled` — the three stages agree up to what the consumer has in hand.

## Main results

* `Engine.Handled.pop`, `Engine.Handled.evaluate`, `Engine.Handled.report`, `Engine.Handled.count` —
  the steps of the consumer.
* `Engine.Handled.settled` — when no consumer runs, all that was popped is counted.
-/

namespace NullRing.Engine

open RingBuffer Transition

variable {Thread Pop : Type}

/-! ## What a run shows of the events -/

/-- The pointer of an accepted submission. -/
def Event.accepted? : Event Thread → Option ℕ
  | .accepted ptr => some ptr
  | _ => none

/-- The pointer that was popped. -/
def Event.popped? : Event Thread → Option ℕ
  | .popped ptr => some ptr
  | _ => none

/-- The pointer whose event was evaluated. -/
def Event.evaluated? : Event Thread → Option ℕ
  | .evaluated ptr => some ptr
  | _ => none

/-- The result passed to the callback. -/
def Event.reported? : Event Thread → Option RiskResult
  | .reported result => some result
  | _ => none

/-- The pointers accepted in a run, in order. -/
def accepted (es : List (Event Thread)) : List ℕ := es.filterMap Event.accepted?

/-- The pointers popped in a run, in order. -/
def popped (es : List (Event Thread)) : List ℕ := es.filterMap Event.popped?

/-- The pointers whose events were evaluated in a run, in order. -/
def evaluated (es : List (Event Thread)) : List ℕ := es.filterMap Event.evaluated?

/-- The results passed to the callback in a run, in order. -/
def reported (es : List (Event Thread)) : List RiskResult := es.filterMap Event.reported?

/-- An increment of `processed_`. -/
def Event.isCounted : Event Thread → Bool
  | .counted => true
  | _ => false

/-- How often `processed_` was incremented in a run. -/
def counted (es : List (Event Thread)) : ℕ := es.countP Event.isCounted

variable (es es' : List (Event Thread))

/-- The events accepted are listed in the order of the steps. -/
@[simp] lemma accepted_append : accepted (es ++ es') = accepted es ++ accepted es' :=
  List.filterMap_append

/-- The events popped are listed in the order of the steps. -/
@[simp] lemma popped_append : popped (es ++ es') = popped es ++ popped es' :=
  List.filterMap_append

/-- The events evaluated are listed in the order of the steps. -/
@[simp] lemma evaluated_append : evaluated (es ++ es') = evaluated es ++ evaluated es' :=
  List.filterMap_append

/-- The results reported are listed in the order of the steps. -/
@[simp] lemma reported_append : reported (es ++ es') = reported es ++ reported es' :=
  List.filterMap_append

/-- The increments of `processed_` add up. -/
@[simp] lemma counted_append : counted (es ++ es') = counted es + counted es' :=
  List.countP_append ..

variable {es es'}

/-- Nothing is accepted, popped, evaluated, reported or counted. -/
def Event.Silent : Event Thread → Prop
  | .accepted _ => False
  | .popped _ => False
  | .evaluated _ => False
  | .reported _ => False
  | .counted => False
  | _ => True

/-- Silent events show nothing of what is never silent. -/
lemma filterMap_silent {β : Type} {f : Event Thread → Option β} {out : List (Event Thread)}
    (hf : ∀ e, e.Silent → f e = none) (h : ∀ e ∈ out, e.Silent) (es : List (Event Thread)) :
    (es ++ out).filterMap f = es.filterMap f := by
  rw [List.filterMap_append, List.filterMap_eq_nil_iff.mpr fun e he => hf e (h e he),
    List.append_nil]

/-- Silent events add nothing to what a run shows of the events.

**Proof sketch.** Each of the four lists is a `filterMap` that drops every silent event, and the
count passes over them. -/
lemma silent_append {out : List (Event Thread)} (h : ∀ e ∈ out, e.Silent)
    (es : List (Event Thread)) :
    accepted (es ++ out) = accepted es ∧ popped (es ++ out) = popped es ∧
      evaluated (es ++ out) = evaluated es ∧ reported (es ++ out) = reported es ∧
      counted (es ++ out) = counted es := by
  refine ⟨filterMap_silent ?_ h es, filterMap_silent ?_ h es,
    filterMap_silent ?_ h es, filterMap_silent ?_ h es, ?_⟩
  · intro e he
    cases e <;> first | exact he.elim | rfl
  · intro e he
    cases e <;> first | exact he.elim | rfl
  · intro e he
    cases e <;> first | exact he.elim | rfl
  · intro e he
    cases e <;> first | exact he.elim | rfl
  · have hcount : counted out = 0 := by
      apply List.countP_eq_zero.mpr
      intro e he
      have hsilent := h e he
      cases e <;> first | exact hsilent.elim | exact Bool.false_ne_true
    rw [counted_append, hcount, Nat.add_zero]

/-! ## What the consumer holds -/

/-- The pointer popped and not evaluated. -/
def WorkerPc.held : WorkerPc Pop → List ℕ
  | .evaluating _ ptr => [ptr]
  | _ => []

/-- The result evaluated and not reported. -/
def WorkerPc.pending : WorkerPc Pop → List RiskResult
  | .reporting _ result => [result]
  | _ => []

/-- How many events are evaluated and not counted. -/
def WorkerPc.uncounted : WorkerPc Pop → ℕ
  | .reporting _ _ => 1
  | .counting _ => 1
  | _ => 0

/-- In the main loop of `consumer_loop()`. -/
def WorkerPc.InMain : WorkerPc Pop → Prop
  | .checkRunning => True
  | .popping loop _ => loop = .main
  | .evaluating loop _ => loop = .main
  | .reporting loop _ => loop = .main
  | .counting loop => loop = .main
  | .yielding => True
  | .exited => False

/-- A return of `try_pop()` does not lead out of the main loop. -/
lemma inMain_afterPop {id : ℕ} {loop : Loop} {pc : Pop}
    (h : (WorkerPc.popping loop pc).InMain) (o : Outcome Pop (Option ℕ)) :
    (afterPop id loop o : WorkerPc Pop × List (Event Thread)).1.InMain := by
  obtain rfl : loop = .main := h
  rcases o with next | _ | ptr
  · rfl
  · trivial
  · rfl

/-! ## What the calls on the ring show -/

/-- What a step of `submit()` shows. -/
lemma mem_submitEvents {e : Event Thread} {pc : PushPc ℕ} {o : Outcome (PushPc ℕ) Bool}
    (h : e ∈ submitEvents pc o) :
    o = .ret true ∧ e = .accepted pc.item ∨ o = .ret false ∧ e = .rejected pc.item := by
  rcases o with next | _ | _
  · cases h
  · exact Or.inr ⟨rfl, List.mem_singleton.mp h⟩
  · exact Or.inl ⟨rfl, List.mem_singleton.mp h⟩

/-- What a step of `try_pop()` shows. -/
lemma mem_afterPop {e : Event Thread} {id : ℕ} {loop : Loop} {o : Outcome Pop (Option ℕ)}
    (h : e ∈ (afterPop id loop o).2) :
    (∃ ptr, o = .ret (some ptr) ∧ e = .popped ptr) ∨
      o = .ret none ∧ (e = .poppedNothing ∨ loop = .drain ∧ e = .exited id) := by
  unfold afterPop at h
  split at h
  · cases h
  · exact Or.inl ⟨_, rfl, List.mem_singleton.mp h⟩
  · refine Or.inr ⟨rfl, ?_⟩
    split at h
    · exact Or.inl (List.mem_singleton.mp h)
    · simpa using h

/-- What a step of `submit()` shows, besides an event that it accepts. -/
lemma submitEvents_shows (Thread : Type) (pc : PushPc ℕ) (o : Outcome (PushPc ℕ) Bool) :
    let out : List (Event Thread) := submitEvents pc o
    popped out = [] ∧ evaluated out = [] ∧ reported out = [] ∧ counted out = 0 := by
  rcases o with next | _ | _ <;> exact ⟨rfl, rfl, rfl, rfl⟩

/-- What a step of `try_pop()` shows, besides a pointer that it returns. -/
lemma afterPop_shows (Thread : Type) (id : ℕ) (loop : Loop) (o : Outcome Pop (Option ℕ)) :
    let out : List (Event Thread) := (afterPop id loop o).2
    accepted out = [] ∧ evaluated out = [] ∧ reported out = [] ∧ counted out = 0 := by
  rcases o with next | _ | ptr
  · exact ⟨rfl, rfl, rfl, rfl⟩
  · cases loop <;> exact ⟨rfl, rfl, rfl, rfl⟩
  · exact ⟨rfl, rfl, rfl, rfl⟩

/-! ## The stages -/

/-- What a consumer at the point `pc` has done with the events: those popped are the ones evaluated
and the one that it holds; the results of those evaluated are the ones reported, if there is a
callback, and the one pending; and those evaluated are counted up to one. -/
structure Handled (cfg : Config) (es : List (Event Thread)) (pc : WorkerPc Pop) : Prop where
  popped_eq : popped es = evaluated es ++ pc.held
  results_eq : cfg.onResult = true → (evaluated es).map cfg.result = reported es ++ pc.pending
  count_eq : (evaluated es).length = counted es + pc.uncounted

namespace Handled

variable {cfg : Config} {out : List (Event Thread)} {pc pc' : WorkerPc Pop} {loop : Loop}

/-- Nothing is popped, evaluated, reported or counted, and the consumer keeps what it has in
hand. -/
lemma frame (h : Handled cfg es pc) (hpopped : popped out = []) (hevaluated : evaluated out = [])
    (hreported : reported out = []) (hcounted : counted out = 0) (hheld : pc'.held = pc.held)
    (hpending : pc'.pending = pc.pending) (huncounted : pc'.uncounted = pc.uncounted) :
    Handled cfg (es ++ out) pc' where
  popped_eq := by
    rw [popped_append, evaluated_append, hpopped, hevaluated, List.append_nil, List.append_nil,
      hheld]
    exact h.popped_eq
  results_eq := by
    rw [evaluated_append, reported_append, hevaluated, hreported, List.append_nil,
      List.append_nil, hpending]
    exact h.results_eq
  count_eq := by
    rw [evaluated_append, counted_append, hevaluated, hcounted, List.append_nil, Nat.add_zero,
      huncounted]
    exact h.count_eq

/-- Nothing is seen of the events, and the consumer keeps what it has in hand. -/
lemma silent (h : Handled cfg es pc) (hout : ∀ e ∈ out, e.Silent) (hheld : pc'.held = pc.held)
    (hpending : pc'.pending = pc.pending) (huncounted : pc'.uncounted = pc.uncounted) :
    Handled cfg (es ++ out) pc' := by
  obtain ⟨-, hpopped, hevaluated, hreported, hcounted⟩ := silent_append hout []
  exact h.frame hpopped hevaluated hreported hcounted hheld hpending huncounted

/-- A step of `submit()`. -/
lemma submit (h : Handled cfg es pc) (p : PushPc ℕ) (o : Outcome (PushPc ℕ) Bool) :
    Handled cfg (es ++ submitEvents p o) pc := by
  obtain ⟨hpopped, hevaluated, hreported, hcounted⟩ := submitEvents_shows Thread p o
  exact h.frame hpopped hevaluated hreported hcounted rfl rfl rfl

/-- A step of `try_pop()`: the consumer holds what it returns.

**Proof sketch.** If the call goes on or returns nothing, the consumer holds no event before or
after. If it returns one, that event is popped and held, and is neither evaluated nor reported
yet. -/
lemma pop {p : Pop} (h : Handled cfg es (.popping loop p)) (id : ℕ)
    (o : Outcome Pop (Option ℕ)) :
    Handled cfg (es ++ (afterPop id loop o).2)
      (afterPop id loop o : WorkerPc Pop × List (Event Thread)).1 := by
  rcases o with next | _ | ptr
  · exact h.frame rfl rfl rfl rfl rfl rfl rfl
  · cases loop <;> exact h.frame rfl rfl rfl rfl rfl rfl rfl
  · refine ⟨?_, ?_, ?_⟩
    · rw [popped_append, evaluated_append, h.popped_eq]
      show evaluated es ++ [] ++ [ptr] = evaluated es ++ [] ++ [ptr]
      rfl
    · rw [evaluated_append, reported_append]
      show cfg.onResult = true → (evaluated es ++ []).map cfg.result = reported es ++ [] ++ []
      rw [List.append_nil, List.append_nil]
      exact h.results_eq
    · rw [evaluated_append, counted_append]
      show (evaluated es ++ []).length = counted es + 0 + 0
      rw [List.append_nil]
      exact h.count_eq

/-- The evaluation of an event. -/
lemma evaluate {ptr : ℕ} (h : Handled cfg es (.evaluating loop ptr : WorkerPc Pop)) :
    Handled cfg (es ++ [.evaluated ptr])
      (.reporting loop (cfg.result ptr) : WorkerPc Pop) where
  popped_eq := by
    rw [popped_append, evaluated_append]
    show popped es ++ [] = evaluated es ++ [ptr] ++ []
    rw [List.append_nil, List.append_nil]
    exact h.popped_eq
  results_eq := by
    intro hcb
    rw [evaluated_append, reported_append, List.map_append, h.results_eq hcb]
    rfl
  count_eq := by
    rw [evaluated_append, List.length_append, h.count_eq, counted_append]
    rfl

/-- The callback, if there is one.

**Proof sketch.** The pending result is reported, if there is a callback, and otherwise no list of
results is claimed. The events popped, evaluated and counted are the same. -/
lemma report {result : RiskResult} (h : Handled cfg es (.reporting loop result : WorkerPc Pop)) :
    Handled cfg (es ++ if cfg.onResult then [.reported result] else [])
      (.counting loop : WorkerPc Pop) := by
  -- the callback is seen only as a report
  have hseen : ∀ out : List (Event Thread), out = [.reported result] ∨ out = [] →
      popped out = [] ∧ evaluated out = [] ∧ counted out = 0 := by
    rintro out (rfl | rfl) <;> exact ⟨rfl, rfl, rfl⟩
  obtain ⟨h1, h2, h3⟩ := hseen (if cfg.onResult then [.reported result] else [])
    (by split <;> simp)
  refine ⟨?_, ?_, ?_⟩
  · rw [popped_append, evaluated_append, h1, h2, List.append_nil, List.append_nil]
    exact h.popped_eq
  · intro hcb
    rw [evaluated_append, reported_append, h2, List.append_nil, h.results_eq hcb, if_pos hcb]
    exact (List.append_nil _).symm
  · rw [evaluated_append, counted_append, h2, h3, List.append_nil]
    exact h.count_eq

/-- The increment of `processed_`; the consumer goes back to the head of its loop.

**Proof sketch.** At the head of either loop nothing is held, pending or uncounted, and the event
that was evaluated last is now counted. -/
lemma count (h : Handled cfg es (.counting loop : WorkerPc Pop)) (enter : Pop) :
    Handled cfg (es ++ [.counted]) (loop.head enter) := by
  have hhead : (loop.head enter).held = [] ∧ (loop.head enter).pending = [] ∧
      (loop.head enter).uncounted = 0 := by
    cases loop <;> exact ⟨rfl, rfl, rfl⟩
  obtain ⟨hheld, hpending, huncounted⟩ := hhead
  refine ⟨?_, ?_, ?_⟩
  · rw [popped_append, evaluated_append, hheld, h.popped_eq]
    rfl
  · intro hcb
    rw [evaluated_append, reported_append, hpending]
    show (evaluated es ++ []).map cfg.result = reported es ++ [] ++ []
    rw [List.append_nil, h.results_eq hcb]
    exact (List.append_nil _).symm
  · rw [evaluated_append, counted_append, huncounted]
    show (evaluated es ++ []).length = counted es + 1 + 0
    rw [List.append_nil, h.count_eq]
    rfl

/-- When no consumer runs, what was popped is evaluated, reported and counted. -/
lemma settled (h : Handled cfg es (.exited : WorkerPc Pop)) :
    popped es = evaluated es ∧
      (cfg.onResult = true → (evaluated es).map cfg.result = reported es) ∧
      (evaluated es).length = counted es :=
  ⟨h.popped_eq.trans (List.append_nil _),
    fun hcb => (h.results_eq hcb).trans (List.append_nil _), h.count_eq⟩

end Handled

end NullRing.Engine
