import Mathlib.Tactic

/-! The loop that consumes a stream of events: what it fetches, handles and acknowledges, while
messages are redelivered and the program is restarted. -/
namespace AcsNext.Policy

/-- One call of the handler: the message, the state that it was handled in, the choices that the
handler had, and whether its acknowledgement reached the broker. -/
structure Handled (S O : Type*) where
  index : ℕ
  state : S
  choice : O
  acked : Bool

/-- A durable consumer and the program behind it. `stream` holds the messages since the consumer
was made, `batch` those that are fetched and not yet handled, and `log` the calls so far. -/
structure Consumer (S O M A : Type*) where
  stream : List M
  acked : Finset ℕ
  batch : List ℕ
  state : S
  log : List (Handled S O)
  output : List A

inductive ConsumerEvent (S O M : Type*) where
  | publish (msg : M)
  | change (state : S)
  | fetch (batch : List ℕ)
  | handle (choice : O) (ackArrives : Bool)
  | restart (state : S)

namespace Consumer

variable {S O M A : Type*} (handler : O → S → M → List A)

def new (s : S) : Consumer S O M A := ⟨[], ∅, [], s, [], []⟩

/-- What the broker may deliver: up to ten messages of the stream, none of them acknowledged. -/
def Deliverable (c : Consumer S O M A) (batch : List ℕ) : Prop :=
  batch.length ≤ 10 ∧ batch.Nodup ∧ ∀ i ∈ batch, i < c.stream.length ∧ i ∉ c.acked

instance (c : Consumer S O M A) (batch : List ℕ) : Decidable (c.Deliverable batch) :=
  inferInstanceAs (Decidable (_ ∧ _ ∧ _))

/-- A batch is fetched when the one before is done. A message is acknowledged after its handler
has returned, whatever came of it. -/
def step (c : Consumer S O M A) : ConsumerEvent S O M → Consumer S O M A
  | .publish msg => { c with stream := c.stream ++ [msg] }
  | .change s => { c with state := s }
  | .fetch batch => if c.batch = [] ∧ c.Deliverable batch then { c with batch := batch } else c
  | .handle choice ackArrives =>
    match c.batch with
    | [] => c
    | i :: rest =>
      match c.stream[i]? with
      | none => c
      | some msg =>
        { c with
          batch := rest
          acked := if ackArrives then insert i c.acked else c.acked
          log := c.log ++ [⟨i, c.state, choice, ackArrives⟩]
          output := c.output ++ handler choice c.state msg }
  | .restart s => { c with batch := [], state := s }

def run (s : S) (es : List (ConsumerEvent S O M)) : Consumer S O M A :=
  es.foldl (step handler) (new s)

/-- The calls for a message whose acknowledgement was lost. -/
def lost (c : Consumer S O M A) (i : ℕ) : ℕ :=
  c.log.countP fun h => decide (h.index = i) && !h.acked

def calls (c : Consumer S O M A) (i : ℕ) : ℕ := c.log.countP fun h => decide (h.index = i)

structure Accounted (c : Consumer S O M A) : Prop where
  batch : c.batch.Nodup ∧ ∀ i ∈ c.batch, i < c.stream.length ∧ i ∉ c.acked
  calls : ∀ i, c.calls i = c.lost i + if i ∈ c.acked then 1 else 0
  output : c.output = c.log.flatMap fun h =>
    (c.stream[h.index]?).elim [] (handler h.choice h.state)
  stored : ∀ h ∈ c.log, h.index < c.stream.length

variable {handler} {c : Consumer S O M A}

theorem accounted_new (s : S) : Accounted handler (new s : Consumer S O M A) where
  batch := ⟨List.nodup_nil, by simp [new]⟩
  calls i := by simp [new, Consumer.calls, lost]
  output := rfl
  stored := by simp [new]

theorem Accounted.publish (h : Accounted handler c) (msg : M) :
    Accounted handler { c with stream := c.stream ++ [msg] } where
  batch := ⟨h.batch.1, fun i hi => by
    have hin := h.batch.2 i hi
    exact ⟨by simp only [List.length_append]; omega, hin.2⟩⟩
  calls := h.calls
  output := by
    rw [h.output]
    apply List.flatMap_congr
    intro x hx
    rw [List.getElem?_append_left (h.stored x hx)]
  stored x hx := by
    have hlt := h.stored x hx
    simp only [List.length_append]
    omega

theorem Accounted.handle (h : Accounted handler c) {i : ℕ} {rest : List ℕ} {msg : M}
    (hbatch : c.batch = i :: rest) (hmsg : c.stream[i]? = some msg) (choice : O)
    (ackArrives : Bool) :
    Accounted handler
      { c with
        batch := rest
        acked := if ackArrives then insert i c.acked else c.acked
        log := c.log ++ [⟨i, c.state, choice, ackArrives⟩]
        output := c.output ++ handler choice c.state msg } := by
  obtain ⟨hnodup, hin⟩ := h.batch
  rw [hbatch] at hnodup hin
  obtain ⟨hi, hrest⟩ := List.nodup_cons.mp hnodup
  obtain ⟨hlt, hunacked⟩ := hin i List.mem_cons_self
  refine ⟨⟨hrest, fun j hj => ?_⟩, fun j => ?_, ?_, fun x hx => ?_⟩
  · obtain ⟨hjlt, hj'⟩ := hin j (List.mem_cons_of_mem _ hj)
    have hne : j ≠ i := fun heq => hi (heq ▸ hj)
    cases ackArrives <;> simp [hjlt, hj', hne]
  · have hcalls := h.calls j
    unfold Consumer.calls lost at hcalls ⊢
    simp only [List.countP_append, List.countP_singleton]
    by_cases hj : i = j
    · subst hj
      cases ackArrives <;> simp_all
    · have hne : ¬j = i := fun heq => hj heq.symm
      cases ackArrives <;> simp_all
  · simp only [List.flatMap_append, List.flatMap_singleton, hmsg, Option.elim_some, h.output]
  · rcases List.mem_append.mp hx with hx | hx
    · exact h.stored x hx
    · rw [List.mem_singleton.mp hx]
      exact hlt

theorem Accounted.step (h : Accounted handler c) (e : ConsumerEvent S O M) :
    Accounted handler (c.step handler e) := by
  cases e with
  | publish msg => exact h.publish msg
  | change s => exact ⟨h.batch, h.calls, h.output, h.stored⟩
  | fetch batch =>
    dsimp only [Consumer.step]
    by_cases hfetch : c.batch = [] ∧ c.Deliverable batch
    · rw [if_pos hfetch]
      exact ⟨hfetch.2.2, h.calls, h.output, h.stored⟩
    · rw [if_neg hfetch]
      exact h
  | handle choice ackArrives =>
    dsimp only [Consumer.step]
    cases hbatch : c.batch with
    | nil => exact h
    | cons i rest =>
      cases hmsg : c.stream[i]? with
      | none => simpa [hmsg] using h
      | some msg => simpa [hmsg] using h.handle hbatch hmsg choice ackArrives
  | restart s =>
    have hempty : ∀ i ∈ ([] : List ℕ), i < c.stream.length ∧ i ∉ c.acked := by simp
    exact ⟨⟨List.nodup_nil, hempty⟩, h.calls, h.output, h.stored⟩

theorem accounted_run (handler : O → S → M → List A) (s : S)
    (es : List (ConsumerEvent S O M)) :
    Accounted handler (run handler s es) := by
  induction es using List.reverseRecOn with
  | nil => exact accounted_new s
  | append_singleton es e ih =>
    rw [run, List.foldl_append]
    exact ih.step e

end Consumer

end AcsNext.Policy
