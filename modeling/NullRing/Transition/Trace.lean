import Mathlib.Data.List.Induction
import NullRing.Transition.System

set_option relaxedAutoImplicit false
set_option autoImplicit false

/-!
# Traces

A run is indexed by the events it emits. A trace also keeps the state before and after every
step and the action taken, so that steps can be counted and the states between two of them
named. A trace with the steps forgotten is a run.

## Main definitions

* `Transition.Taken` — one step taken.
* `Transition.System.Trace` — the steps of a run, oldest first.
* `Transition.System.record` — the steps of a schedule, executed.

## Main results

* `Transition.System.Trace.invariant` — the induction rule for traces.
* `Transition.System.Trace.progress` — the rule for a measure that some of the steps use up.
* `Transition.System.Trace.run` — a trace is a run.
* `Transition.System.Trace.of_append`, `Transition.System.Trace.of_cons` — a trace cut in two.
-/

namespace Transition

/-- One step taken: the state before it, the action, the events emitted, the state after it. -/
structure Taken (S A E : Type*) where
  pre : S
  act : A
  out : List E
  post : S

namespace System

variable {S A E : Type*} (sys : System S A E)

/-- `sys.Trace P s₀ tr s`: from `s₀` the system reaches `s` by the steps `tr`, each of which
meets `P` at the state it is taken from. -/
inductive Trace (P : S → A → Prop) (s₀ : S) : List (Taken S A E) → S → Prop
  | nil : Trace P s₀ [] s₀
  | snoc {tr : List (Taken S A E)} {s : S} {a : A} {s' : S} {out : List E} :
      Trace P s₀ tr s → P s a → sys.step s a = some (s', out) →
      Trace P s₀ (tr ++ [⟨s, a, out, s'⟩]) s'

/-- The events emitted by the steps. -/
def events (tr : List (Taken S A E)) : List E := tr.flatMap Taken.out

/-- An empty trace emits nothing. -/
@[simp] lemma events_nil : events ([] : List (Taken S A E)) = [] := rfl

/-- The events are emitted in the order of the steps. -/
@[simp] lemma events_append (tr tr' : List (Taken S A E)) :
    events (tr ++ tr') = events tr ++ events tr' :=
  List.flatMap_append ..

/-- The events of the first step come first. -/
@[simp] lemma events_cons (e : Taken S A E) (tr : List (Taken S A E)) :
    events (e :: tr) = e.out ++ events tr :=
  List.flatMap_cons

/-- A single step emits its own events. -/
@[simp] lemma events_singleton (e : Taken S A E) : events [e] = e.out := by simp [events]

/-- The events emitted, one step later. -/
lemma events_snoc (tr : List (Taken S A E)) (s : S) (a : A) (out : List E) (s' : S) :
    events (tr ++ [⟨s, a, out, s'⟩]) = events tr ++ out := by
  rw [events_append, events_singleton]

variable {sys} {P : S → A → Prop} {s₀ s s' : S} {tr tr' : List (Taken S A E)} {es : List E}

namespace Trace

/-- **The induction rule for traces.** The predicate sees the steps taken so far. -/
lemma invariant {I : List (Taken S A E) → S → Prop} (h : sys.Trace P s₀ tr s) (h0 : I [] s₀)
    (hstep : ∀ tr s a s' out, I tr s → P s a → sys.step s a = some (s', out) →
      I (tr ++ [⟨s, a, out, s'⟩]) s') : I tr s := by
  induction h with
  | nil => exact h0
  | snoc _ hP hs ih => exact hstep _ _ _ _ _ ih hP hs

/-- **The progress rule.** Where the steps marked by `own` use up a measure, the others leave it,
and all of them are such that `G` holds, what is left of it and the marked steps taken are at most
the measure at first. -/
lemma progress {I : S → ℕ → Prop} {G : Taken S A E → Prop} {own : Taken S A E → Bool}
    (hstep : ∀ e n, sys.step e.pre e.act = some (e.post, e.out) → G e → I e.pre n →
      ∃ n', I e.post n' ∧ n' + (if own e then 1 else 0) ≤ n)
    (h : sys.Trace P s₀ tr s) (hG : ∀ e ∈ tr, G e) {n : ℕ} (h0 : I s₀ n) :
    ∃ n', I s n' ∧ n' + tr.countP own ≤ n := by
  induction h with
  | nil => exact ⟨n, h0, Nat.le_refl n⟩
  | @snoc tr s a s' out _ _ hs ih =>
    obtain ⟨n', hn', hle⟩ := ih fun e he => hG e (List.mem_append_left _ he)
    obtain ⟨n'', hn'', hle'⟩ := hstep ⟨s, a, out, s'⟩ n' hs (hG _ (by simp)) hn'
    refine ⟨n'', hn'', ?_⟩
    rw [List.countP_append, List.countP_singleton]
    omega

/-- A trace is a run. -/
lemma run (h : sys.Trace P s₀ tr s) : sys.Run P s₀ (events tr) s := by
  induction h with
  | nil => exact .nil
  | snoc _ hP hs ih =>
    rw [events_append, events_singleton]
    exact ih.snoc hP hs

/-- Traces compose. -/
lemma append (h : sys.Trace P s₀ tr s) (h' : sys.Trace P s tr' s') :
    sys.Trace P s₀ (tr ++ tr') s' := by
  induction h' with
  | nil => simpa using h
  | snoc _ hP hs ih =>
    rw [← List.append_assoc]
    exact ih.snoc hP hs

/-- The last step of a trace. -/
lemma of_snoc {e : Taken S A E} (h : sys.Trace P s₀ (tr ++ [e]) s) :
    sys.Trace P s₀ tr e.pre ∧ P e.pre e.act ∧ sys.step e.pre e.act = some (e.post, e.out) ∧
      e.post = s := by
  generalize hl : tr ++ [e] = l at h
  cases h with
  | nil => simp at hl
  | snoc h hP hs =>
    obtain ⟨rfl, hlast⟩ := List.append_inj' hl rfl
    cases (List.cons.inj hlast).1
    exact ⟨h, hP, hs, rfl⟩

/-- A trace cut in two. -/
lemma of_append (h : sys.Trace P s₀ (tr ++ tr') s) :
    ∃ s₁, sys.Trace P s₀ tr s₁ ∧ sys.Trace P s₁ tr' s := by
  induction tr' using List.reverseRecOn generalizing s with
  | nil => exact ⟨s, by simpa using h, .nil⟩
  | append_singleton tr' e ih =>
    rw [← List.append_assoc] at h
    obtain ⟨hpre, hP, hs, rfl⟩ := h.of_snoc
    obtain ⟨s₁, h₁, h₂⟩ := ih hpre
    exact ⟨s₁, h₁, h₂.snoc hP hs⟩

/-- A trace cut at one of its steps. -/
lemma of_cons {e : Taken S A E} (h : sys.Trace P s₀ (tr ++ e :: tr') s) :
    sys.Trace P s₀ tr e.pre ∧ P e.pre e.act ∧ sys.step e.pre e.act = some (e.post, e.out) ∧
      sys.Trace P e.post tr' s := by
  rw [List.append_cons] at h
  obtain ⟨s₁, hfirst, hrest⟩ := h.of_append
  obtain ⟨hpre, hP, hs, rfl⟩ := hfirst.of_snoc
  exact ⟨hpre, hP, hs, hrest⟩

/-- Each step of a trace is a step of the system. -/
lemma step_of_mem {e : Taken S A E} (h : sys.Trace P s₀ tr s) (he : e ∈ tr) :
    sys.step e.pre e.act = some (e.post, e.out) := by
  obtain ⟨l, r, rfl⟩ := List.append_of_mem he
  exact h.of_cons.2.2.1

end Trace

/-! ## Executing a schedule -/

/-- Execute the actions of a schedule in order, checking the condition `P` before each step, and
record the steps; `none` if an action is disabled or fails the condition. -/
def record (sys : System S A E) (P : S → A → Prop) [∀ s a, Decidable (P s a)] (s : S) :
    List A → Option (S × List (Taken S A E))
  | [] => some (s, [])
  | a :: as =>
    if P s a then
      match sys.step s a with
      | none => none
      | some (s', out) =>
        match sys.record P s' as with
        | none => none
        | some (s'', tr) => some (s'', ⟨s, a, out, s'⟩ :: tr)
    else none

/-- The recorded steps of a schedule are a trace.

**Proof sketch.** Induction on the schedule, as for `run_of_exec`. -/
lemma trace_of_record [∀ s a, Decidable (P s a)] {as : List A} :
    ∀ {s s' : S} {tr : List (Taken S A E)}, sys.record P s as = some (s', tr) →
      sys.Trace P s tr s' := by
  induction as with
  | nil =>
    intro s s' tr h
    simp only [record, Option.some.injEq, Prod.mk.injEq] at h
    obtain ⟨rfl, rfl⟩ := h
    exact .nil
  | cons a as ih =>
    intro s s' tr h
    by_cases hP : P s a
    · rcases hs : sys.step s a with _ | ⟨s₁, out⟩
      · simp [record, hP, hs] at h
      · rcases hr : sys.record P s₁ as with _ | ⟨s₂, tr₂⟩
        · simp [record, hP, hs, hr] at h
        · simp only [record, hP, hs, hr, if_true, Option.some.injEq, Prod.mk.injEq] at h
          obtain ⟨rfl, rfl⟩ := h
          exact (Trace.nil.snoc hP hs).append (ih hr)
    · simp [record, hP] at h

/-- What is read off the record of a schedule is read off a trace. -/
lemma exists_trace_of_record [∀ s a, Decidable (P s a)] {β : Type*} {as : List A}
    {f : S × List (Taken S A E) → β} {v : β} (h : (sys.record P s as).map f = some v) :
    ∃ s' tr, sys.Trace P s tr s' ∧ f (s', tr) = v := by
  obtain ⟨⟨s', tr⟩, hr, hv⟩ := Option.map_eq_some_iff.mp h
  exact ⟨s', tr, trace_of_record hr, hv⟩

end System

end Transition
