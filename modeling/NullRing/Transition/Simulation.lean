import NullRing.Transition.System

set_option relaxedAutoImplicit false
set_option autoImplicit false

/-!
# Abstract specifications and forward simulations

A specification is an initial state and a relation that says which events may happen and what
they do to the abstract state. A system simulates a specification when every step of the
system is matched by the specification taking the observable events of that step, in order;
a step with no observable event is matched by doing nothing. The traces of the system are
then traces of the specification.

## Main definitions

* `Transition.Spec` — a specification, and `Transition.Spec.Run` its runs.
* `Transition.ForwardSimulation` — the simulation of a specification by a system.

## Main results

* `Transition.ForwardSimulation.run` — every run of the system is matched by a run of the
  specification on the observable events.
-/

namespace Transition

/-- A specification: abstract states `Q` and events `F`. -/
structure Spec (Q F : Type*) where
  /-- The abstract state at the start. -/
  init : Q
  /-- `step q e q'`: in `q` the event `e` may happen, and leads to `q'`. -/
  step : Q → F → Q → Prop

namespace Spec

variable {Q F : Type*} (spec : Spec Q F)

/-- `spec.Run q₀ es q`: the events `es`, in order, may happen from `q₀` and lead to `q`. -/
inductive Run (q₀ : Q) : List F → Q → Prop
  | nil : Run q₀ [] q₀
  | snoc {es : List F} {q : Q} {e : F} {q' : Q} :
      Run q₀ es q → spec.step q e q' → Run q₀ (es ++ [e]) q'

variable {spec} {q₀ q q' : Q} {es es' : List F}

namespace Run

/-- A single event. -/
lemma single {e : F} (h : spec.step q e q') : spec.Run q [e] q' := by
  simpa using Run.nil.snoc h

/-- Runs of a specification compose. -/
lemma append (h : spec.Run q₀ es q) (h' : spec.Run q es' q') : spec.Run q₀ (es ++ es') q' := by
  induction h' with
  | nil => simpa using h
  | snoc _ hstep ih =>
    rw [← List.append_assoc]
    exact ih.snoc hstep

/-- A run can be cut at any of its events.

**Proof sketch.** Induction on the run, from its end: the event is the last one, or it is one of the
run before the last step. -/
lemma split {e : F} (h : spec.Run q₀ (es ++ e :: es') q) :
    ∃ q₁ q₂, spec.Run q₀ es q₁ ∧ spec.step q₁ e q₂ ∧ spec.Run q₂ es' q := by
  generalize hall : es ++ e :: es' = all at h
  induction h generalizing es' with
  | nil => exact absurd hall (by simp)
  | @snoc all₁ q₁ f q₂ hrun hstep ih =>
    rcases List.eq_nil_or_concat' es' with rfl | ⟨rest, g, rfl⟩
    · obtain ⟨rfl, hf⟩ := List.append_inj' hall rfl
      cases hf
      exact ⟨q₁, q₂, hrun, hstep, .nil⟩
    · rw [← List.cons_append, ← List.append_assoc] at hall
      obtain ⟨hinit, hf⟩ := List.append_inj' hall rfl
      cases hf
      obtain ⟨q₃, q₄, hrun', hstep', hrest⟩ := ih hinit
      exact ⟨q₃, q₄, hrun', hstep', hrest.snoc hstep⟩

/-- The induction rule for runs of a specification. -/
lemma invariant {I : List F → Q → Prop} (h : spec.Run q₀ es q) (h0 : I [] q₀)
    (hstep : ∀ es q e q', I es q → spec.step q e q' → I (es ++ [e]) q') : I es q := by
  induction h with
  | nil => exact h0
  | snoc _ hs ih => exact hstep _ _ _ _ ih hs

end Run

end Spec

variable {S A E Q F : Type*}

/-- `R` is a forward simulation of `spec` by the runs of `sys` under `P`, where `obs` says
which events of the system are observable and as what. -/
structure ForwardSimulation (sys : System S A E) (P : S → A → Prop) (spec : Spec Q F)
    (obs : E → Option F) (R : S → Q → Prop) : Prop where
  /-- The initial states are related. -/
  init : R sys.init spec.init
  /-- Every step is matched by its observable events. -/
  step : ∀ {s q a s' out}, R s q → P s a → sys.step s a = some (s', out) →
    ∃ q', spec.Run q (out.filterMap obs) q' ∧ R s' q'

/-- **Trace inclusion**: the observable events of a run of the system are a run of the
specification, and the end states are related. -/
theorem ForwardSimulation.run {sys : System S A E} {P : S → A → Prop} {spec : Spec Q F}
    {obs : E → Option F} {R : S → Q → Prop} (hsim : ForwardSimulation sys P spec obs R)
    {es : List E} {s : S} (h : sys.Run P sys.init es s) :
    ∃ q, spec.Run spec.init (es.filterMap obs) q ∧ R s q := by
  induction h with
  | nil => exact ⟨spec.init, .nil, hsim.init⟩
  | snoc _ hP hs ih =>
    obtain ⟨q, hq, hR⟩ := ih
    obtain ⟨q', hq', hR'⟩ := hsim.step hR hP hs
    refine ⟨q', ?_, hR'⟩
    rw [List.filterMap_append]
    exact hq.append hq'

end Transition
