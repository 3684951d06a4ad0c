import NullRing.Transition.Simulation

set_option relaxedAutoImplicit false
set_option autoImplicit false

/-!
# A service with a bounded queue

Jobs are accepted while fewer than `cap` of them wait, and served one at a time in the order of
their acceptance: a job is fetched from the front of the queue and processed, its result is
delivered if results are asked for, and it is finished. Nothing is said of when a server that has
a job to fetch does so; it may look whether there is one, which is an event of its own.

## Main definitions

* `OrderedService.Event`, `OrderedService.spec` — the events and what they do.
* `OrderedService.accepts`, `OrderedService.fetches`, `OrderedService.processes`,
  `OrderedService.deliveries`, `OrderedService.finishes` — what a history shows.
* `OrderedService.Ordered` — the invariant.

## Main results

* `OrderedService.ordered_of_run` — each stage works through the jobs of the stage before it.
* `OrderedService.run_backlog` — how many jobs are accepted and not finished.
* `OrderedService.run_reject` — how many jobs wait when one is turned away.
* `OrderedService.run_seenEmpty` — everything is finished when the server finds no job.
-/

namespace OrderedService

open Transition

variable {α β : Type}

/-- What the server has in hand. -/
inductive Hand (α β : Type)
  | empty
  /-- A job that was fetched and is not processed. -/
  | fetched (x : α)
  /-- A result that is not delivered. -/
  | ready (y : β)
  /-- A job of which nothing is left but to finish it. -/
  | served

/-- The jobs that wait, and the one in hand. -/
structure State (α β : Type) where
  waiting : List α
  hand : Hand α β

/-- The events of a service. -/
inductive Event (α β : Type)
  /-- A job is accepted. -/
  | accept (x : α)
  /-- A job is turned away. -/
  | reject (x : α)
  /-- The job in front is fetched. -/
  | fetch (x : α)
  | process (x : α)
  | deliver (y : β)
  | finish
  /-- The server finds that no job waits. -/
  | seenEmpty
  deriving DecidableEq, Repr

/-- What the events do, where `f` is the result of a job, `delivers` says whether results are
asked for, and `cap` is the number of jobs that may wait. -/
inductive Step (f : α → β) (delivers : Bool) (cap : ℕ) :
    State α β → Event α β → State α β → Prop
  | accept {q : List α} {hand : Hand α β} {x : α} : q.length < cap →
      Step f delivers cap ⟨q, hand⟩ (.accept x) ⟨q ++ [x], hand⟩
  | reject {q : List α} {hand : Hand α β} {x : α} : q.length = cap →
      Step f delivers cap ⟨q, hand⟩ (.reject x) ⟨q, hand⟩
  | fetch {q : List α} {x : α} :
      Step f delivers cap ⟨x :: q, .empty⟩ (.fetch x) ⟨q, .fetched x⟩
  | process {q : List α} {x : α} :
      Step f delivers cap ⟨q, .fetched x⟩ (.process x)
        ⟨q, if delivers then .ready (f x) else .served⟩
  | deliver {q : List α} {y : β} :
      Step f delivers cap ⟨q, .ready y⟩ (.deliver y) ⟨q, .served⟩
  | finish {q : List α} : Step f delivers cap ⟨q, .served⟩ .finish ⟨q, .empty⟩
  | seenEmpty : Step f delivers cap ⟨[], .empty⟩ .seenEmpty ⟨[], .empty⟩

/-- The service, with no job at first. -/
def spec (f : α → β) (delivers : Bool) (cap : ℕ) : Spec (State α β) (Event α β) where
  init := ⟨[], .empty⟩
  step := Step f delivers cap

/-! ## What a history shows -/

/-- The job an event accepts. -/
def Event.accepted? : Event α β → Option α
  | .accept x => some x
  | _ => none

/-- The job an event fetches. -/
def Event.fetched? : Event α β → Option α
  | .fetch x => some x
  | _ => none

/-- The job an event processes. -/
def Event.processed? : Event α β → Option α
  | .process x => some x
  | _ => none

/-- The result an event delivers. -/
def Event.delivered? : Event α β → Option β
  | .deliver y => some y
  | _ => none

/-- Whether an event finishes a job. -/
def Event.isFinish : Event α β → Bool
  | .finish => true
  | _ => false

/-- The jobs accepted in a history, in order. -/
def accepts (es : List (Event α β)) : List α := es.filterMap Event.accepted?

/-- The jobs fetched in a history, in order. -/
def fetches (es : List (Event α β)) : List α := es.filterMap Event.fetched?

/-- The jobs processed in a history, in order. -/
def processes (es : List (Event α β)) : List α := es.filterMap Event.processed?

/-- The results delivered in a history, in order. -/
def deliveries (es : List (Event α β)) : List β := es.filterMap Event.delivered?

/-- How many jobs were finished in a history. -/
def finishes (es : List (Event α β)) : ℕ := es.countP Event.isFinish

section Append

variable (es es' : List (Event α β))

/-- The jobs accepted are listed in the order of the events. -/
@[simp] lemma accepts_append : accepts (es ++ es') = accepts es ++ accepts es' :=
  List.filterMap_append

/-- The jobs fetched are listed in the order of the events. -/
@[simp] lemma fetches_append : fetches (es ++ es') = fetches es ++ fetches es' :=
  List.filterMap_append

/-- The jobs processed are listed in the order of the events. -/
@[simp] lemma processes_append : processes (es ++ es') = processes es ++ processes es' :=
  List.filterMap_append

/-- The results delivered are listed in the order of the events. -/
@[simp] lemma deliveries_append : deliveries (es ++ es') = deliveries es ++ deliveries es' :=
  List.filterMap_append

/-- The numbers of jobs finished add up. -/
@[simp] lemma finishes_append : finishes (es ++ es') = finishes es + finishes es' :=
  List.countP_append ..

end Append

/-! ## Each stage works through the jobs of the stage before it -/

/-- The job fetched and not processed. -/
def Hand.unprocessed : Hand α β → List α
  | .fetched x => [x]
  | _ => []

/-- The result not delivered. -/
def Hand.undelivered : Hand α β → List β
  | .ready y => [y]
  | _ => []

/-- How many jobs are processed and not finished. -/
def Hand.unfinished : Hand α β → ℕ
  | .ready _ => 1
  | .served => 1
  | _ => 0

/-- The server has one job in hand at most. -/
lemma Hand.one_job (hand : Hand α β) : hand.unprocessed.length + hand.unfinished ≤ 1 := by
  cases hand <;> simp [Hand.unprocessed, Hand.unfinished]

/-- The invariant: after the history `es`, what a stage was given is what it has handed on and
what it still has. -/
structure Ordered (f : α → β) (delivers : Bool) (cap : ℕ) (es : List (Event α β))
    (s : State α β) : Prop where
  accepted : accepts es = fetches es ++ s.waiting
  fetched : fetches es = processes es ++ s.hand.unprocessed
  results : delivers = true → (processes es).map f = deliveries es ++ s.hand.undelivered
  count : (processes es).length = finishes es + s.hand.unfinished
  room : s.waiting.length ≤ cap

variable {f : α → β} {delivers : Bool} {cap : ℕ} {es es' : List (Event α β)} {s s' : State α β}
  {x : α}

/-- What one event does to the stages.

**Proof sketch.** By cases on the event: each moves one item from a stage to the next, and leaves
the lists of the other stages alone. -/
lemma Step.conserves {e : Event α β} (h : Step f delivers cap s e s') :
    s.waiting ++ accepts [e] = fetches [e] ++ s'.waiting ∧
      s.hand.unprocessed ++ fetches [e] = processes [e] ++ s'.hand.unprocessed ∧
      (delivers = true → s.hand.undelivered ++ (processes [e]).map f =
        deliveries [e] ++ s'.hand.undelivered) ∧
      s.hand.unfinished + (processes [e]).length = finishes [e] + s'.hand.unfinished := by
  cases h with
  | process =>
    refine ⟨(List.append_nil _).trans (List.nil_append _).symm, ?_, fun hdelivers => ?_, ?_⟩
    · cases delivers <;> rfl
    · subst hdelivers
      rfl
    · cases delivers <;> rfl
  | accept _ => exact ⟨rfl, List.append_nil _, fun _ => List.append_nil _, Nat.add_comm ..⟩
  | reject _ => exact ⟨List.append_nil _, List.append_nil _, fun _ => List.append_nil _,
      Nat.add_comm ..⟩
  | fetch => exact ⟨List.append_nil _, rfl, fun _ => rfl, rfl⟩
  | deliver => exact ⟨List.append_nil _, rfl, fun _ => rfl, rfl⟩
  | finish => exact ⟨List.append_nil _, rfl, fun _ => rfl, rfl⟩
  | seenEmpty => exact ⟨rfl, rfl, fun _ => rfl, rfl⟩

/-- No event makes more than `cap` jobs wait. -/
lemma Step.room {e : Event α β} (h : Step f delivers cap s e s')
    (hs : s.waiting.length ≤ cap) : s'.waiting.length ≤ cap := by
  cases h with
  | accept hlt =>
    rw [List.length_append]
    exact hlt
  | fetch => exact Nat.le_of_succ_le hs
  | _ => exact hs

/-- An event keeps the invariant. -/
lemma Ordered.step {e : Event α β} (h : Ordered f delivers cap es s)
    (hs : Step f delivers cap s e s') : Ordered f delivers cap (es ++ [e]) s' := by
  obtain ⟨h1, h2, h3, h4⟩ := hs.conserves
  refine ⟨?_, ?_, fun hdelivers => ?_, ?_, hs.room h.room⟩
  · rw [accepts_append, fetches_append, h.accepted, List.append_assoc, h1, List.append_assoc]
  · rw [fetches_append, processes_append, h.fetched, List.append_assoc, h2, List.append_assoc]
  · rw [processes_append, deliveries_append, List.map_append, h.results hdelivers,
      List.append_assoc, h3 hdelivers, List.append_assoc]
  · rw [processes_append, finishes_append, List.length_append, h.count]
    omega

/-- **Each stage works through the jobs of the stage before it**, in order. -/
theorem ordered_of_run (h : (spec f delivers cap).Run (spec f delivers cap).init es s) :
    Ordered f delivers cap es s :=
  h.invariant (I := Ordered f delivers cap)
    ⟨rfl, rfl, fun _ => rfl, rfl, Nat.zero_le _⟩ fun _ _ _ _ hI hs => hI.step hs

/-- At most `cap + 1` jobs are accepted and not finished. -/
theorem run_backlog (h : (spec f delivers cap).Run (spec f delivers cap).init es s) :
    (accepts es).length ≤ finishes es + cap + 1 := by
  have hinv := ordered_of_run h
  have hone := s.hand.one_job
  have hroom := hinv.room
  have haccepted := congrArg List.length hinv.accepted
  have hfetched := congrArg List.length hinv.fetched
  have hcount := hinv.count
  rw [List.length_append] at haccepted hfetched
  omega

/-- When a job is turned away, exactly `cap` jobs wait. -/
theorem run_reject
    (h : (spec f delivers cap).Run (spec f delivers cap).init (es ++ .reject x :: es') s) :
    (accepts es).length = (fetches es).length + cap := by
  obtain ⟨s₁, s₂, hrun, hstep, -⟩ := h.split
  have haccepted := congrArg List.length (ordered_of_run hrun).accepted
  cases hstep with
  | reject hfull => rw [haccepted, List.length_append, hfull]

/-- When the server finds no job, every job accepted is finished.

**Proof sketch.** The step says that the queue and the hand are empty, so that nothing lies between
any two stages. -/
theorem run_seenEmpty
    (h : (spec f delivers cap).Run (spec f delivers cap).init (es ++ .seenEmpty :: es') s) :
    processes es = accepts es ∧ (delivers = true → deliveries es = (accepts es).map f) ∧
      finishes es = (accepts es).length := by
  obtain ⟨s₁, s₂, hrun, hstep, -⟩ := h.split
  obtain ⟨haccepted, hfetched, hresults, hcount, -⟩ := ordered_of_run hrun
  cases hstep with
  | seenEmpty =>
    rw [List.append_nil] at haccepted
    rw [show (Hand.empty : Hand α β).unprocessed = [] from rfl, List.append_nil] at hfetched
    have hprocesses : processes es = accepts es := hfetched.symm.trans haccepted.symm
    refine ⟨hprocesses, fun hdelivers => ?_, ?_⟩
    · rw [← hprocesses, hresults hdelivers]
      exact (List.append_nil _).symm
    · rw [← hprocesses, hcount]
      rfl

end OrderedService
