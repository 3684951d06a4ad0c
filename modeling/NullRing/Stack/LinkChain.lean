import Mathlib.Tactic.Lemma
import Mathlib.Tactic.TypeStar
import Mathlib.Data.List.Basic
import Mathlib.Data.List.Nodup
import Mathlib.Logic.Function.Basic

set_option relaxedAutoImplicit false
set_option autoImplicit false

/-!
# Chains of links

A linked list kept in an array of links: `next a` is the node after `a`, and the node `null`
ends the list. `Chain next null a l` says that following the links from `a` visits the nodes
`l`, in order, and then ends. Such a list is determined by its first node, and so repeats no
node; pushing and popping at the front, and writing the link of a node that is not visited,
are lemmas.

`Reaches next null a b` says only that `b` is visited when the links are followed from `a`,
which makes sense for a chain that runs in circles as well.

## Main definitions

* `LinkChain.Chain`, `LinkChain.Reaches`.

## Main results

* `LinkChain.Chain.unique`, `LinkChain.Chain.nodup` — the nodes are determined and distinct.
* `LinkChain.Chain.pop`, `LinkChain.Chain.push`, `LinkChain.Chain.update` — the operations.
* `LinkChain.Chain.reaches_iff` — a chain visits the nodes it is made of.
-/

namespace LinkChain

variable {α : Type*} {next next' : α → α} {null a b c : α} {l l' : List α}

/-- Following the links from a node visits exactly the nodes of a list and then `null`. -/
inductive Chain (next : α → α) (null : α) : α → List α → Prop
  | nil : Chain next null null []
  | cons {a : α} {l : List α} :
      a ≠ null → Chain next null (next a) l → Chain next null a (a :: l)

/-- Following the links from a node comes to another one before `null`. -/
inductive Reaches (next : α → α) (null : α) : α → α → Prop
  | here {a : α} : a ≠ null → Reaches next null a a
  | there {a b : α} : a ≠ null → Reaches next null (next a) b → Reaches next null a b

/-- Nothing is reached from `null`. -/
lemma Reaches.ne_null (h : Reaches next null a b) : a ≠ null := by
  cases h with
  | here hne => exact hne
  | there hne _ => exact hne

namespace Chain

/-- The nodes visited are determined by the first one. -/
theorem unique (h : Chain next null a l) (h' : Chain next null a l') : l = l' := by
  induction h generalizing l' with
  | nil =>
    cases h' with
    | nil => rfl
    | cons hne _ => exact absurd rfl hne
  | cons hne _ ih =>
    cases h' with
    | nil => exact absurd rfl hne
    | cons _ htail => rw [ih htail]

/-- A chain from `null` is empty, and conversely. -/
lemma eq_nil_iff (h : Chain next null a l) : l = [] ↔ a = null := by
  cases h with
  | nil => simp
  | cons hne _ => simp [hne]

/-- The first node of a chain that does not start at `null`, and the rest. -/
lemma pop (h : Chain next null a l) (hne : a ≠ null) :
    ∃ rest, l = a :: rest ∧ Chain next null (next a) rest := by
  cases h with
  | nil => exact absurd rfl hne
  | cons _ htail => exact ⟨_, rfl, htail⟩

/-- A node linked to the front of a chain. -/
lemma push (h : Chain next null a l) (hne : b ≠ null) (hlink : next b = a) :
    Chain next null b (b :: l) := by
  subst hlink
  exact cons hne h

/-- Only the links of the nodes visited matter. -/
lemma congr (h : Chain next null a l) (heq : ∀ b ∈ l, next' b = next b) :
    Chain next' null a l := by
  induction h with
  | nil => exact nil
  | cons hne _ ih =>
    apply cons hne
    rw [heq _ List.mem_cons_self]
    exact ih fun b hb => heq b (List.mem_cons_of_mem _ hb)

/-- **Frame rule**: writing the link of a node that is not visited changes nothing. -/
lemma update [DecidableEq α] (h : Chain next null a l) (hb : b ∉ l) (v : α) :
    Chain (Function.update next b v) null a l := by
  apply h.congr
  intro c hc
  rw [Function.update_of_ne]
  rintro rfl
  exact hb hc

/-- From a visited node on, the links visit a final part of the list. -/
lemma exists_suffix (h : Chain next null a l) (hb : b ∈ l) :
    ∃ front rest, l = front ++ b :: rest ∧ Chain next null b (b :: rest) := by
  induction h with
  | nil => cases hb
  | @cons a l hne htail ih =>
    rcases List.mem_cons.mp hb with rfl | hb
    · exact ⟨[], l, rfl, cons hne htail⟩
    · obtain ⟨front, rest, rfl, hrest⟩ := ih hb
      exact ⟨a :: front, rest, rfl, hrest⟩

/-- **A chain repeats no node.**

**Proof sketch.** Were the first node visited again, the list from there on would be the whole
list, by `unique`, and shorter. -/
theorem nodup (h : Chain next null a l) : l.Nodup := by
  induction h with
  | nil => exact List.nodup_nil
  | @cons a l hne htail ih =>
    refine List.nodup_cons.mpr ⟨?_, ih⟩
    intro hmem
    obtain ⟨front, rest, hl, hrest⟩ := htail.exists_suffix hmem
    have heq : a :: rest = a :: l := hrest.unique (cons hne htail)
    have hlen := congrArg List.length hl
    rw [(List.cons.inj heq).2, List.length_append, List.length_cons] at hlen
    omega

/-- The nodes reached from the first node of a chain are those of the chain.

**Proof sketch.** Induction on the path, along which the chain is taken apart by `Chain.pop`; and
conversely on the chain. -/
theorem reaches_iff (h : Chain next null a l) : Reaches next null a b ↔ b ∈ l := by
  constructor
  · intro hreach
    induction hreach generalizing l with
    | here hne =>
      obtain ⟨rest, rfl, -⟩ := h.pop hne
      exact List.mem_cons_self
    | there hne _ ih =>
      obtain ⟨rest, rfl, htail⟩ := h.pop hne
      exact List.mem_cons_of_mem _ (ih htail)
  · intro hmem
    induction h with
    | nil => cases hmem
    | cons hne _ ih =>
      rcases List.mem_cons.mp hmem with rfl | hmem
      · exact .here hne
      · exact .there hne (ih hmem)

end Chain

/-- The links of an array laid out in order: `k`, `k + 1`, …, `k + n - 1`.

**Proof sketch.** Induction on the length; the first link leads to the rest of the array, or to null
if there is none. -/
lemma chain_range' {next : ℕ → ℕ} {null k n : ℕ} (hnull : k + n ≤ null)
    (hlink : ∀ i, k ≤ i → i + 1 < k + n → next i = i + 1)
    (hlast : 0 < n → next (k + n - 1) = null) (h0 : 0 < n) :
    Chain next null k (List.range' k n) := by
  induction n generalizing k with
  | zero => omega
  | succ n ih =>
    rw [List.range'_succ]
    refine .cons (by omega) ?_
    rcases Nat.eq_zero_or_pos n with rfl | hpos
    · rw [show k = k + (0 + 1) - 1 by omega, hlast h0]
      exact .nil
    · rw [hlink k (Nat.le_refl k) (by omega)]
      refine ih (by omega) (fun i h1 h2 => hlink i (by omega) (by omega)) ?_ hpos
      intro _
      rw [show k + 1 + n - 1 = k + (n + 1) - 1 by omega]
      exact hlast h0

end LinkChain
