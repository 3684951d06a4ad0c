import Mathlib.Tactic.Lemma
import Mathlib.Tactic.TypeStar
import Mathlib.Data.List.Basic

set_option relaxedAutoImplicit false
set_option autoImplicit false

/-!
# Transition systems with guarded, executable steps

A system is an initial state and a partial step function: `step s a` is `none` when the
action `a` is not enabled in `s`, and otherwise the next state with the events the step
emits. The nondeterminism of a concurrent program (which thread moves, which value a weak
load returns) is carried by the action, so one function serves both the proofs and the
evaluation of a concrete schedule.

A run is a sequence of steps, each of which meets a condition `P` on the state before it and
the action taken; it is indexed by the events emitted so far, oldest first.

## Main definitions

* `Transition.Outcome` — what one atomic step leads a call to.
* `Transition.System` — a system.
* `Transition.System.Run` — the runs whose steps meet a condition.
* `Transition.System.Reachable` — the end states of the runs from the initial state.
* `Transition.System.exec` — a schedule, executed.

## Main results

* `Transition.System.Run.invariant` — the induction rule for runs.
* `Transition.System.Reachable.invariant` — the induction rule for reachable states.
* `Transition.System.run_of_exec` — an executed schedule is a run.
-/

namespace Transition

/-- What one atomic step leads a call to: its next program point, or its return. -/
inductive Outcome (P R : Type)
  | next (pc : P)
  | ret (r : R)
  deriving DecidableEq, Repr

/-- A condition on the program point a step leads to; nothing is asked of a return. -/
def Outcome.Next {P R : Type} (cond : P → Prop) : Outcome P R → Prop
  | .next pc => cond pc
  | .ret _ => True

/-- The program point after a step, if the call goes on. -/
def Outcome.pcAfter {P R : Type} : Outcome P R → Option P
  | .next pc => some pc
  | .ret _ => none

/-- The same outcome, with the program point renamed. -/
def Outcome.map {P Q R : Type} (f : P → Q) : Outcome P R → Outcome Q R
  | .next pc => .next (f pc)
  | .ret r => .ret r

/-- A transition system: states `S`, actions `A`, events `E`. -/
structure System (S A E : Type*) where
  /-- The state the system starts in. -/
  init : S
  /-- One step: disabled (`none`), or the next state with the events emitted. -/
  step : S → A → Option (S × List E)

namespace System

variable {S A E : Type*} (sys : System S A E)

/-- `sys.Run P s₀ es s`: from `s₀` the system reaches `s`, emitting `es`, by steps that each
meet `P` at the state they are taken from. -/
inductive Run (P : S → A → Prop) (s₀ : S) : List E → S → Prop
  | nil : Run P s₀ [] s₀
  | snoc {es : List E} {s : S} {a : A} {s' : S} {out : List E} :
      Run P s₀ es s → P s a → sys.step s a = some (s', out) → Run P s₀ (es ++ out) s'

/-- The states reached from the initial state by steps that each meet `P`. -/
def Reachable (P : S → A → Prop) (s : S) : Prop := ∃ es, sys.Run P sys.init es s

/-- The condition that admits every step. -/
def anyStep : S → A → Prop := fun _ _ => True

/-- Decidable, so that schedules can be executed. -/
instance (s : S) (a : A) : Decidable (anyStep s a) := inferInstanceAs (Decidable True)

variable {sys} {P Q : S → A → Prop} {s₀ s s' : S} {es es' : List E}

namespace Run

/-- A single step. -/
lemma single {a : A} {out : List E} (hP : P s a) (hstep : sys.step s a = some (s', out)) :
    sys.Run P s out s' := by
  simpa using nil.snoc hP hstep

/-- Runs compose. -/
lemma append (h : sys.Run P s₀ es s) (h' : sys.Run P s es' s') :
    sys.Run P s₀ (es ++ es') s' := by
  induction h' with
  | nil => simpa using h
  | snoc _ hP hstep ih =>
    rw [← List.append_assoc]
    exact ih.snoc hP hstep

/-- A run under a condition is a run under any weaker one. -/
lemma mono (hPQ : ∀ s a, P s a → Q s a) (h : sys.Run P s₀ es s) : sys.Run Q s₀ es s := by
  induction h with
  | nil => exact nil
  | snoc _ hP hstep ih => exact ih.snoc (hPQ _ _ hP) hstep

/-- A run under a condition is a run under any other that holds of the steps admitted from the
states reached. -/
lemma of_reachable (h : sys.Run P sys.init es s)
    (hPQ : ∀ s a, sys.Reachable P s → P s a → Q s a) : sys.Run Q sys.init es s := by
  induction h with
  | nil => exact nil
  | snoc hrun hP hstep ih => exact ih.snoc (hPQ _ _ ⟨_, hrun⟩ hP) hstep

/-- **The induction rule for runs**: what holds before any step and is kept by every step that
meets the condition holds after every run. The predicate sees the events emitted so far. -/
lemma invariant {I : List E → S → Prop} (h : sys.Run P s₀ es s) (h0 : I [] s₀)
    (hstep : ∀ es s a s' out, I es s → P s a → sys.step s a = some (s', out) →
      I (es ++ out) s') : I es s := by
  induction h with
  | nil => exact h0
  | snoc _ hP hs ih => exact hstep _ _ _ _ _ ih hP hs

/-- The induction rule for predicates of the state alone. -/
lemma stateInvariant {I : S → Prop} (h : sys.Run P s₀ es s) (h0 : I s₀)
    (hstep : ∀ s a s' out, I s → P s a → sys.step s a = some (s', out) → I s') : I s :=
  h.invariant (I := fun _ s => I s) h0 fun _ s a s' out hI hP hs => hstep s a s' out hI hP hs

end Run

/-- The induction rule for reachable states. -/
lemma Reachable.invariant {I : S → Prop} (h : sys.Reachable P s) (h0 : I sys.init)
    (hstep : ∀ s a s' out, I s → P s a → sys.step s a = some (s', out) → I s') : I s := by
  obtain ⟨es, h⟩ := h
  exact h.stateInvariant h0 hstep

/-! ## Executing a schedule -/

/-- Execute the actions of a schedule in order, checking the condition `P` before each step;
`none` if an action is disabled or fails the condition. -/
def exec (sys : System S A E) (P : S → A → Prop) [∀ s a, Decidable (P s a)] (s : S) :
    List A → Option (S × List E)
  | [] => some (s, [])
  | a :: as =>
    if P s a then
      match sys.step s a with
      | none => none
      | some (s', out) =>
        match sys.exec P s' as with
        | none => none
        | some (s'', es) => some (s'', out ++ es)
    else none

/-- A schedule that executes is a run.

**Proof sketch.** Induction on the schedule; an execution of `a :: as` is a step followed by an
execution of `as`. -/
lemma run_of_exec [∀ s a, Decidable (P s a)] {as : List A} :
    ∀ {s s' : S} {es : List E}, sys.exec P s as = some (s', es) → sys.Run P s es s' := by
  induction as with
  | nil =>
    intro s s' es h
    simp only [exec, Option.some.injEq, Prod.mk.injEq] at h
    obtain ⟨rfl, rfl⟩ := h
    exact .nil
  | cons a as ih =>
    intro s s' es h
    by_cases hP : P s a
    · rcases hs : sys.step s a with _ | ⟨s₁, out⟩
      · simp [exec, hP, hs] at h
      · rcases hr : sys.exec P s₁ as with _ | ⟨s₂, es₂⟩
        · simp [exec, hP, hs, hr] at h
        · simp only [exec, hP, hs, hr, if_true, Option.some.injEq, Prod.mk.injEq] at h
          obtain ⟨rfl, rfl⟩ := h
          exact (Run.single hP hs).append (ih hr)
    · simp [exec, hP] at h

/-- What is read off the result of a schedule is read off the end of a run. -/
lemma exists_run_of_exec [∀ s a, Decidable (P s a)] {β : Type*} {as : List A}
    {f : S × List E → β} {v : β} (h : (sys.exec P s as).map f = some v) :
    ∃ s' es, sys.Run P s es s' ∧ f (s', es) = v := by
  obtain ⟨⟨s', es⟩, hr, hv⟩ := Option.map_eq_some_iff.mp h
  exact ⟨s', es, run_of_exec hr, hv⟩

end System

end Transition
