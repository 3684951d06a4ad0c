import NullRing.Transition.Trace

set_option relaxedAutoImplicit false
set_option autoImplicit false

/-!
# Progress in rounds

A schedule is fair when no party that can move is passed over for ever. Fairness is counted
here in rounds: in a round every party either takes a step, or is seen at some moment unable to
take one. Nothing is asked of the order of the steps in a round, nor of their number.

A ranking is a measure of what is left to do, together with a party whose next step lowers it: no
step raises the measure, and as long as it stays the same so does the helpful party. Every round
then lowers the measure, so it is used up after as many rounds as it counts.

## Main definitions

* `Transition.System.CanMove`, `Transition.System.Served` — what a round asks of a party.
* `Transition.System.Rounds` — the steps of a number of rounds.
* `Transition.System.Ranking` — a measure with a helpful party.

## Main results

* `Transition.System.Ranking.rounds` — each round lowers the measure.
* `Transition.System.Ranking.exists_trace` — the measure can be used up from every state.
* `Transition.System.exists_rounds` — there are rounds from every state.
-/

namespace Transition

namespace System

variable {S A E T : Type*} (sys : System S A E) (P : S → A → Prop) (who : A → Option T)

/-- The party `t` can take a step. -/
def CanMove (t : T) (s : S) : Prop :=
  ∃ a s' out, who a = some t ∧ P s a ∧ sys.step s a = some (s', out)

/-- In the steps `tr` from `s` the party `t` takes a step, or is seen unable to take one. -/
def Served (t : T) (s : S) (tr : List (Taken S A E)) : Prop :=
  (∃ e ∈ tr, who e.act = some t) ∨ ¬ sys.CanMove P who t s ∨
    ∃ e ∈ tr, ¬ sys.CanMove P who t e.post

/-- `sys.Rounds P who s₀ n tr s`: the steps `tr` lead from `s₀` to `s` in `n` rounds, in each of
which every party is served. -/
inductive Rounds (s₀ : S) : ℕ → List (Taken S A E) → S → Prop
  | zero : Rounds s₀ 0 [] s₀
  | succ {n : ℕ} {tr tr' : List (Taken S A E)} {s s' : S} :
      Rounds s₀ n tr s → sys.Trace P s tr' s' → (∀ t, sys.Served P who t s tr') →
      Rounds s₀ (n + 1) (tr ++ tr') s'

/-- A measure of what is left to do in the states that meet `I`, with the party whose next step
lowers it. -/
structure Ranking (I : S → Prop) (rank : S → ℕ) (helper : S → T) : Prop where
  keeps : ∀ {s a s' out}, I s → P s a → sys.step s a = some (s', out) → I s'
  /-- No step raises the measure, and one that leaves it is not of the helpful party, and leaves
  that party. -/
  step : ∀ {s a s' out}, I s → P s a → sys.step s a = some (s', out) → 0 < rank s →
    rank s' < rank s ∨ rank s' = rank s ∧ helper s' = helper s ∧ who a ≠ some (helper s)
  /-- What is used up stays so. -/
  done : ∀ {s a s' out}, I s → P s a → sys.step s a = some (s', out) → rank s = 0 → rank s' = 0
  canMove : ∀ {s}, I s → 0 < rank s → sys.CanMove P who (helper s) s

variable {sys P who} {I : S → Prop} {rank : S → ℕ} {helper : S → T} {s₀ s s' : S} {n : ℕ}
  {tr : List (Taken S A E)}

/-- An action that is enabled lets its party move. -/
lemma canMove_of_isSome {t : T} {a : A} (hwho : who a = some t) (hP : P s a)
    (hs : (sys.step s a).isSome) : sys.CanMove P who t s := by
  obtain ⟨⟨s', out⟩, hs⟩ := Option.isSome_iff_exists.mp hs
  exact ⟨a, s', out, hwho, hP, hs⟩

/-- The end of a trace is where it begins, or where one of its steps leads. -/
lemma Trace.post_mem (h : sys.Trace P s tr s') : s' = s ∨ ∃ e ∈ tr, e.post = s' := by
  cases h with
  | nil => exact Or.inl rfl
  | snoc _ _ _ => exact Or.inr ⟨_, List.mem_append_right _ List.mem_cons_self, rfl⟩

/-- Rounds are a trace. -/
lemma Rounds.trace (h : sys.Rounds P who s₀ n tr s) : sys.Trace P s₀ tr s := by
  induction h with
  | zero => exact .nil
  | succ _ htr _ ih => exact ih.append htr

/-- A party stays served when the steps go on. -/
lemma Served.append {t : T} (h : sys.Served P who t s tr) (tr' : List (Taken S A E)) :
    sys.Served P who t s (tr ++ tr') := by
  rcases h with ⟨e, he, hwho⟩ | hnot | ⟨e, he, hnot⟩
  · exact Or.inl ⟨e, List.mem_append_left _ he, hwho⟩
  · exact Or.inr (Or.inl hnot)
  · exact Or.inr (Or.inr ⟨e, List.mem_append_left _ he, hnot⟩)

variable (sys P who) in
/-- Any parties, given as a list, can be served one after the other.

**Proof sketch.** Induction on the list. A party that can move after the others were served takes a
step; one that cannot is served by that. -/
lemma exists_served (parties : List T) (s : S) :
    ∃ tr s', sys.Trace P s tr s' ∧ ∀ t ∈ parties, sys.Served P who t s tr := by
  induction parties with
  | nil => exact ⟨[], s, .nil, nofun⟩
  | cons t parties ih =>
    obtain ⟨tr, s₁, htr, hserved⟩ := ih
    by_cases hcan : sys.CanMove P who t s₁
    · obtain ⟨a, s₂, out, hwho, hP, hs⟩ := hcan
      refine ⟨_, s₂, htr.snoc hP hs, ?_⟩
      intro u hu
      rcases List.mem_cons.mp hu with rfl | hu
      · exact Or.inl ⟨_, List.mem_append_right _ List.mem_cons_self, hwho⟩
      · exact (hserved u hu).append _
    · refine ⟨tr, s₁, htr, ?_⟩
      intro u hu
      rcases List.mem_cons.mp hu with rfl | hu
      · rcases htr.post_mem with rfl | ⟨e, he, rfl⟩
        · exact Or.inr (Or.inl hcan)
        · exact Or.inr (Or.inr ⟨e, he, hcan⟩)
      · exact hserved u hu

variable (sys P who) in
/-- **There are as many rounds as one likes**, from every state, when the parties are finitely
many. -/
theorem exists_rounds {parties : List T} (hall : ∀ t, t ∈ parties) (s₀ : S) (n : ℕ) :
    ∃ tr s, sys.Rounds P who s₀ n tr s := by
  induction n with
  | zero => exact ⟨[], s₀, .zero⟩
  | succ n ih =>
    obtain ⟨tr, s, hrounds⟩ := ih
    obtain ⟨tr', s', htr, hserved⟩ := exists_served sys P who parties s
    exact ⟨_, s', hrounds.succ htr fun t => hserved t (hall t)⟩

namespace Ranking

/-- What is used up stays so along a trace. -/
lemma trace_done (h : sys.Ranking P who I rank helper) (htr : sys.Trace P s tr s') (hI : I s)
    (hzero : rank s = 0) : I s' ∧ rank s' = 0 :=
  htr.invariant (I := fun _ s => I s ∧ rank s = 0) ⟨hI, hzero⟩
    fun _ _ _ _ _ ⟨hI, hzero⟩ hP hs => ⟨h.keeps hI hP hs, h.done hI hP hs hzero⟩

/-- A trace that leaves the measure as it is has no step of the helpful party, who could have
moved all along.

**Proof sketch.** Induction on the trace. A step that does not lower the measure leaves it and the
helpful party alone and is not a step of that party, who can move afterwards because the measure is
still positive. -/
lemma trace (h : sys.Ranking P who I rank helper) (htr : sys.Trace P s tr s') (hI : I s)
    (hpos : 0 < rank s) :
    I s' ∧ (rank s' < rank s ∨ rank s' = rank s ∧ helper s' = helper s ∧
      ∀ e ∈ tr, who e.act ≠ some (helper s) ∧ sys.CanMove P who (helper s) e.post) := by
  refine htr.invariant (I := fun tr s' => I s' ∧ (rank s' < rank s ∨
    rank s' = rank s ∧ helper s' = helper s ∧
      ∀ e ∈ tr, who e.act ≠ some (helper s) ∧ sys.CanMove P who (helper s) e.post))
    ⟨hI, Or.inr ⟨rfl, rfl, nofun⟩⟩ ?_
  rintro tr s₁ a s₂ out ⟨hI₁, hcases⟩ hP hs
  have hI₂ := h.keeps hI₁ hP hs
  refine ⟨hI₂, ?_⟩
  by_cases hzero : rank s₁ = 0
  · exact Or.inl (by rw [h.done hI₁ hP hs hzero]; exact hpos)
  have hstep := h.step hI₁ hP hs (Nat.pos_of_ne_zero hzero)
  rcases hcases with hlt | ⟨heq, hhelper, hall⟩
  · exact Or.inl (by omega)
  · rcases hstep with hlt | ⟨heq', hhelper', hwho⟩
    · exact Or.inl (by omega)
    · have hcan := h.canMove hI₂ (by omega)
      rw [hhelper', hhelper] at hcan
      refine Or.inr ⟨heq'.trans heq, hhelper'.trans hhelper, ?_⟩
      intro e he
      rcases List.mem_append.mp he with he | he
      · exact hall e he
      · obtain rfl := List.mem_singleton.mp he
        exact ⟨by rwa [hhelper] at hwho, hcan⟩

/-- **Each round lowers the measure**, until it is used up.

**Proof sketch.** Induction on the rounds. In a round that leaves the measure as it is, the
helpful party would stay the same and could move all along, so it would be served by a step of
its own; but that step lowers the measure. -/
theorem rounds (h : sys.Ranking P who I rank helper) (hrounds : sys.Rounds P who s₀ n tr s)
    (hI : I s₀) : I s ∧ rank s ≤ rank s₀ - n := by
  induction hrounds with
  | zero => exact ⟨hI, Nat.le_refl _⟩
  | @succ n tr tr' s s' _ htr hserved ih =>
    obtain ⟨hIs, hle⟩ := ih
    by_cases hzero : rank s = 0
    · obtain ⟨hIs', hzero'⟩ := h.trace_done htr hIs hzero
      exact ⟨hIs', by omega⟩
    · have hpos := Nat.pos_of_ne_zero hzero
      obtain ⟨hIs', hlt | ⟨-, -, hall⟩⟩ := h.trace htr hIs hpos
      · exact ⟨hIs', by omega⟩
      · exfalso
        rcases hserved (helper s) with ⟨e, he, hwho⟩ | hnot | ⟨e, he, hnot⟩
        · exact (hall e he).1 hwho
        · exact hnot (h.canMove hIs hpos)
        · exact hnot (hall e he).2

/-- **The measure can be used up from every state**, by the steps of the helpful parties. -/
theorem exists_trace (h : sys.Ranking P who I rank helper) (hI : I s) :
    ∃ tr s', sys.Trace P s tr s' ∧ I s' ∧ rank s' = 0 := by
  induction hn : rank s using Nat.strongRecOn generalizing s with
  | ind n ih =>
    by_cases hzero : rank s = 0
    · exact ⟨[], s, .nil, hI, hzero⟩
    · have hpos := Nat.pos_of_ne_zero hzero
      obtain ⟨a, s₁, out, hwho, hP, hs⟩ := h.canMove hI hpos
      rcases h.step hI hP hs hpos with hlt | ⟨-, -, hne⟩
      · obtain ⟨tr, s', htr, hI', hzero'⟩ := ih (rank s₁) (by omega) (h.keeps hI hP hs) rfl
        exact ⟨_, s', (Trace.nil.snoc hP hs).append htr, hI', hzero'⟩
      · exact absurd hwho hne

end Ranking

end System

end Transition
