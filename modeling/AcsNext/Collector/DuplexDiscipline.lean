import AcsNext.Collector.DuplexClient

/-! The operations of a duplex client: at most one of a kind is outstanding, none follows a
finish or a shutdown, and a failed stream is neither read nor written. -/
namespace AcsNext.Collector

namespace DuplexClient

variable {R : Type*} {c c' : DuplexClient R} {op : Op}

/-- A finish or a shutdown was requested: `doAsync` refuses every operation. -/
def closed (c : DuplexClient R) : Bool :=
  c.isDone .shutdown || c.isPending .shutdown || (c.isDone .finish || c.isPending .finish)

/-- The event handler up to the point where the operation is marked as done. -/
def marked (c : DuplexClient R) (event : Completion R) : DuplexClient R :=
  (if event.ok then c.deliver event else (c.deliver event).finishAsyncInternal.2).markDone
    event.op event.ok

/-- All that a call does is made of these steps. -/
inductive Step : DuplexClient R → DuplexClient R → Prop
  | issue {c : DuplexClient R} {op : Op} (hop : op ≠ .shutdown) (hidle : c.isPending op = false)
      (hopen : c.closed = false) (hread : op = .read → c.readBufValid = false) :
      Step c (c.issue op)
  | event {c : DuplexClient R} (event : Completion R) (hmem : event.op ∈ c.outstanding) :
      Step c (c.marked event)
  | shutdown {c : DuplexClient R} :
      Step c { c.setFlags Op.shutdown.pending with
        cqShutdown := true
        history := c.history ++ [.shutdown] }
  | drained {c : DuplexClient R} : Step c (c.setFlags Op.shutdown.done)
  | status {c : DuplexClient R} (status : GrpcStatus) : Step c { c with status := status }
  | buffer {c : DuplexClient R} (buf : Option R) (valid : Bool)
      (hvalid : valid = true → c.isDone .read = true ∧ buf.isSome = true) :
      Step c { c with readBuf := buf, readBufValid := valid }

def Steps : DuplexClient R → DuplexClient R → Prop := Relation.ReflTransGen Step

theorem Steps.refl (c : DuplexClient R) : Steps c c := Relation.ReflTransGen.refl

theorem Steps.trans {c'' : DuplexClient R} (h : Steps c c') (h' : Steps c' c'') : Steps c c'' :=
  Relation.ReflTransGen.trans h h'

theorem Step.steps (h : Step c c') : Steps c c' := Relation.ReflTransGen.single h

theorem doAsync_cases (c : DuplexClient R) (idempotent : Bool) (op : Op) :
    (c.doAsync idempotent op).2 = c ∨
      c.isPending op = false ∧ c.closed = false ∧ (c.doAsync idempotent op).2 = c.issue op := by
  unfold doAsync
  split_ifs with hdone hpending hshutdown hfinish
  · exact Or.inl rfl
  · exact Or.inl rfl
  · exact Or.inl rfl
  · exact Or.inl rfl
  · refine Or.inr ⟨by simpa [isPending] using hpending, ?_, rfl⟩
    rw [checkFlags_or] at hshutdown hfinish
    unfold closed isDone isPending
    simp only [Bool.not_eq_true] at hshutdown hfinish
    rw [hshutdown, hfinish]
    rfl

theorem steps_doAsync (c : DuplexClient R) (idempotent : Bool) (hop : op ≠ .shutdown)
    (hread : op = .read → c.readBufValid = false) : Steps c (c.doAsync idempotent op).2 := by
  rcases c.doAsync_cases idempotent op with heq | ⟨hidle, hopen, heq⟩
  · rw [heq]
    exact Steps.refl c
  · rw [heq]
    exact (Step.issue hop hidle hopen hread).steps

theorem steps_readNext (c : DuplexClient R) : Steps c c.readNext := by
  have hinvalid : Step c { c with readBufValid := false } := Step.buffer c.readBuf false (by simp)
  exact hinvalid.steps.trans (steps_doAsync _ false (by decide) fun _ => rfl)

theorem steps_handleRead (event : Completion R) (hop : event.op = .read) :
    Steps (c.marked event) ((c.marked event).handleRead event.ok) := by
  unfold handleRead
  split_ifs
  · exact steps_readNext _
  · apply Step.steps
    apply Step.buffer (c.marked event).readBuf event.ok
    intro hok
    have hmarked : c.marked event = (c.deliver event).markDone event.op event.ok := by
      unfold marked
      rw [if_pos hok]
    have hbuf : ((c.deliver event).markDone event.op event.ok).readBuf = some event.message := by
      rw [hok]
      simp [markDone, deliver, setFlags, clearFlags, hop, hok]
    rw [hmarked, isDone_markDone, hbuf]
    simp [hop]

theorem steps_handleFinish (c : DuplexClient R) (ok : Bool) : Steps c (c.handleFinish ok) := by
  unfold handleFinish
  split_ifs
  · exact (Step.status _).steps
  · exact Steps.refl c

theorem processEvent_eq (c : DuplexClient R) (event : Completion R) :
    (c.deliver event).processEvent event.op event.ok =
      match event.op with
      | .read => (c.marked event).handleRead event.ok
      | .finish => (c.marked event).handleFinish event.ok
      | _ => c.marked event :=
  rfl

theorem steps_processEvent (event : Completion R) (hmem : event.op ∈ c.outstanding) :
    Steps c ((c.deliver event).processEvent event.op event.ok) := by
  have hmarked : Steps c (c.marked event) := (Step.event event hmem).steps
  rw [processEvent_eq]
  split
  · rename_i hop
    exact hmarked.trans (steps_handleRead event hop)
  · exact hmarked.trans (steps_handleFinish _ event.ok)
  · exact hmarked

theorem processSingle_cases {a : Answer R} (h : c.processSingle a = some c') :
    (∃ event, a = .gotEvent event ∧ event.op ∈ c.outstanding ∧
      c' = (c.deliver event).processEvent event.op event.ok) ∨
    (a = .timeout ∧ c.drained = false ∧ c' = c) ∨
    (a = .shutdown ∧ c.drained = true ∧ c' = c.setFlags Op.shutdown.done) := by
  cases a with
  | gotEvent event =>
    left
    by_cases hmem : event.op ∈ c.outstanding
    · rw [processSingle, if_pos hmem] at h
      exact ⟨event, rfl, hmem, (Option.some.inj h).symm⟩
    · rw [processSingle, if_neg hmem] at h
      cases h
  | timeout =>
    right; left
    unfold processSingle at h
    split_ifs at h with hdrained
    exact ⟨rfl, Bool.eq_false_iff.mpr hdrained, (Option.some.inj h).symm⟩
  | shutdown =>
    right; right
    unfold processSingle at h
    split_ifs at h with hdrained
    exact ⟨rfl, hdrained, (Option.some.inj h).symm⟩

/-- A wait goes on after an event that does not stop it, and returns after all else. -/
theorem processUntil_cons {stop : Completion R → Flags → Option Status} {a : Answer R}
    {rest : List (Answer R)} {res : Option Status × DuplexClient R}
    (h : processUntil stop (a :: rest) c = some res) :
    ∃ d, c.processSingle a = some d ∧
      ((∃ event, a = .gotEvent event ∧ stop event d.flags = none ∧
        processUntil stop rest d = some res) ∨
      (∃ event status, a = .gotEvent event ∧ stop event d.flags = some status ∧
        res = (some status, d)) ∨
      (a = .timeout ∧ res = (some .timeout, d)) ∨
      (a = .shutdown ∧ res = (some .shutdown, d))) := by
  rw [processUntil] at h
  cases hstep : c.processSingle a with
  | none => simp [hstep] at h
  | some d =>
    refine ⟨d, rfl, ?_⟩
    simp only [hstep] at h
    cases a with
    | gotEvent event =>
      dsimp only at h
      cases hstop : stop event d.flags with
      | none =>
        rw [hstop] at h
        exact .inl ⟨event, rfl, hstop, h⟩
      | some status =>
        rw [hstop] at h
        exact .inr (.inl ⟨event, status, rfl, hstop, (Option.some.inj h).symm⟩)
    | timeout => exact .inr (.inr (.inl ⟨rfl, (Option.some.inj h).symm⟩))
    | shutdown => exact .inr (.inr (.inr ⟨rfl, (Option.some.inj h).symm⟩))

/-- What every answer of the queue keeps still holds when a call that waits returns. -/
theorem processUntil_keeps {P : DuplexClient R → Prop}
    (hkeeps : ∀ {d d' : DuplexClient R} {a : Answer R}, P d → d.processSingle a = some d' → P d')
    {stop : Completion R → Flags → Option Status} {answers : List (Answer R)}
    {res : Option Status × DuplexClient R} (h : P c) (hres : processUntil stop answers c = some res) :
    P res.2 := by
  induction answers generalizing c with
  | nil =>
    rw [← Option.some.inj hres]
    exact h
  | cons a rest ih =>
    obtain ⟨d, hstep, hcases⟩ := processUntil_cons hres
    have hd : P d := hkeeps h hstep
    obtain ⟨event, -, -, hrest⟩ | ⟨event, status, -, -, rfl⟩ | ⟨-, rfl⟩ | ⟨-, rfl⟩ := hcases
    · exact ih hd hrest
    · exact hd
    · exact hd
    · exact hd

theorem steps_processSingle {a : Answer R} (h : c.processSingle a = some c') : Steps c c' := by
  obtain ⟨event, -, hmem, rfl⟩ | ⟨-, -, rfl⟩ | ⟨-, -, rfl⟩ := processSingle_cases h
  · exact steps_processEvent event hmem
  · exact Steps.refl _
  · exact Step.drained.steps

theorem steps_processUntil {stop : Completion R → Flags → Option Status}
    {answers : List (Answer R)} {res : Option Status × DuplexClient R}
    (h : processUntil stop answers c = some res) : Steps c res.2 :=
  processUntil_keeps (fun hd hstep => hd.trans (steps_processSingle hstep)) (Steps.refl c) h

/-- A synchronous call ends with its start, or with the wait for its operation. -/
theorem doSync_cases {idempotent : Bool} {asyncMethod : DuplexClient R → OpError × DuplexClient R}
    {answers : List (Answer R)} {res : Option Status × DuplexClient R}
    (h : c.doSync idempotent asyncMethod op answers = some res) :
    res.2 = (asyncMethod c).2 ∨ await op answers (asyncMethod c).2 = some res := by
  unfold doSync at h
  dsimp only at h
  split_ifs at h
  · left
    rw [← Option.some.inj h]
  · exact .inr h

/-- A read is refused, or it waits and starts the next one if a message is there. -/
theorem read_cases {answers : List (Answer R)} {res : Option (Status × Option R) × DuplexClient R}
    (h : c.read answers = some res) :
    res.2 = c ∨ ∃ polled, pollAll canRead answers c = some polled ∧
      (res.2 = polled.2 ∨ res.2 = ({ polled.2 with readBuf := none } : DuplexClient R).readNext) := by
  unfold read at h
  split_ifs at h
  · left
    rw [← Option.some.inj h]
  · obtain ⟨polled, hpoll, hres⟩ := Option.map_eq_some_iff.mp h
    refine .inr ⟨polled, hpoll, ?_⟩
    split at hres
    · split_ifs at hres
      · left
        rw [← hres]
      · right
        rw [← hres]
    · left
      rw [← hres]

theorem steps_doSync {idempotent idempotent' : Bool} {answers : List (Answer R)}
    {res : Option Status × DuplexClient R} (hop : op ≠ .shutdown) (hread : op ≠ .read)
    (h : c.doSync idempotent (fun c => c.doAsync idempotent' op) op answers = some res) :
    Steps c res.2 := by
  have hstarted : Steps c (c.doAsync idempotent' op).2 :=
    steps_doAsync c idempotent' hop fun heq => absurd heq hread
  obtain hres | hawait := doSync_cases h
  · rw [hres]
    exact hstarted
  · exact hstarted.trans (steps_processUntil hawait)

theorem steps_read {answers : List (Answer R)} {res : Option (Status × Option R) × DuplexClient R}
    (h : c.read answers = some res) : Steps c res.2 := by
  obtain hres | ⟨polled, hpoll, hres⟩ := read_cases h
  · rw [hres]
    exact Steps.refl c
  have hpolled := steps_processUntil hpoll
  obtain hres | hres := hres
  · rw [hres]
    exact hpolled
  · have hmoved : Steps polled.2 (({ polled.2 with readBuf := none } : DuplexClient R).readNext) :=
      (Step.buffer none false (by simp)).steps.trans
        (steps_doAsync _ false (by decide) fun _ => rfl)
    rw [hres]
    exact hpolled.trans hmoved

theorem steps_shutdown (c : DuplexClient R) : Steps c c.shutdown.2 := by
  unfold shutdown
  split_ifs
  · exact Steps.refl c
  · exact Steps.refl c
  · exact Step.shutdown.steps

/-- The kinds of calls: an operation is started, or started and waited for, or there is only
something to wait for. -/
inductive Performed (c : DuplexClient R) : DuplexClient R → Prop
  | async (idempotent : Bool) {op : Op} (hshutdown : op ≠ .shutdown) (hread : op ≠ .read) :
      Performed c (c.doAsync idempotent op).2
  | sync {idempotent idempotent' : Bool} {op : Op} {answers : List (Answer R)}
      {res : Option Status × DuplexClient R} (hshutdown : op ≠ .shutdown) (hread : op ≠ .read)
      (h : c.doSync idempotent (fun c => c.doAsync idempotent' op) op answers = some res) :
      Performed c res.2
  | read {answers : List (Answer R)} {res : Option (Status × Option R) × DuplexClient R}
      (h : c.read answers = some res) : Performed c res.2
  | wait {stop : Completion R → Flags → Option Status} {answers : List (Answer R)}
      {res : Option Status × DuplexClient R} (h : processUntil stop answers c = some res) :
      Performed c res.2
  | shutdown : Performed c c.shutdown.2

theorem performed_of_perform {call : DuplexCall R} (h : c.perform call = some c') :
    Performed c c' := by
  cases call with
  | writeAsync =>
    rw [← Option.some.inj h]
    exact .async false (by decide) (by decide)
  | writesDoneAsync =>
    rw [← Option.some.inj h]
    exact .async true (by decide) (by decide)
  | finishAsync =>
    rw [← Option.some.inj h]
    exact .async false (by decide) (by decide)
  | shutdown =>
    rw [← Option.some.inj h]
    exact .shutdown
  | write answers =>
    obtain ⟨res, hres, rfl⟩ := Option.map_eq_some_iff.mp h
    exact .sync (by decide) (by decide) hres
  | writesDone answers =>
    obtain ⟨res, hres, rfl⟩ := Option.map_eq_some_iff.mp h
    exact .sync (by decide) (by decide) hres
  | finish answers =>
    obtain ⟨res, hres, rfl⟩ := Option.map_eq_some_iff.mp h
    exact .sync (by decide) (by decide) hres
  | read answers =>
    obtain ⟨res, hres, rfl⟩ := Option.map_eq_some_iff.mp h
    exact .read hres
  | poll flagsChecker answers =>
    obtain ⟨res, hres, rfl⟩ := Option.map_eq_some_iff.mp h
    exact .wait hres
  | sleep answers =>
    obtain ⟨res, hres, rfl⟩ := Option.map_eq_some_iff.mp h
    obtain ⟨polled, hpoll, rfl⟩ := Option.map_eq_some_iff.mp hres
    exact .wait hpoll

theorem steps_perform {call : DuplexCall R} (h : c.perform call = some c') : Steps c c' := by
  cases performed_of_perform h with
  | async idempotent hshutdown hread =>
    exact steps_doAsync c idempotent hshutdown fun heq => absurd heq hread
  | sync hshutdown hread hres => exact steps_doSync hshutdown hread hres
  | read hres => exact steps_read hres
  | wait hres => exact steps_processUntil hres
  | shutdown => exact steps_shutdown c

theorem steps_of_reaches (h : Reaches c c') : Steps c c' := by
  unfold Reaches at h
  induction h with
  | refl => exact Steps.refl c
  | tail _ hcall ih =>
    obtain ⟨call, hperform⟩ := hcall
    exact ih.trans (steps_perform hperform)

/-- Nothing is issued after a finish, a shutdown or an error; a finish that an error requests
comes before it. -/
def Ordered (history : List StreamEvent) : Prop :=
  history.Pairwise fun earlier later =>
    (earlier = .issued .finish ∨ earlier = .shutdown ∨ earlier = .streamError) →
      ∀ op, later ≠ .issued op

structure Disciplined (c : DuplexClient R) : Prop where
  pending : ∀ op, op ≠ .shutdown → c.isPending op = true → c.outstanding.count op = 1
  idle : ∀ op, op = .shutdown ∨ c.isPending op = false → c.outstanding.count op = 0
  exclusive : ∀ op, op ≠ .shutdown → c.isPending op = true → c.isDone op = false
  finishing : .issued .finish ∈ c.history → c.closed = true
  shutting : .shutdown ∈ c.history → c.closed = true
  failed : .streamError ∈ c.history ↔ c.hasStreamError = true
  failing : c.hasStreamError = true → c.closed = true
  ordered : Ordered c.history

theorem Disciplined.congr (h : Disciplined c) (hflags : c'.flags = c.flags)
    (htags : c'.outstanding = c.outstanding) (hhistory : c'.history = c.history) :
    Disciplined c' := by
  have hpending : c'.isPending = c.isPending := by
    funext op
    simp only [isPending, checkFlags, hflags]
  have hdone : c'.isDone = c.isDone := by
    funext op
    simp only [isDone, checkFlags, hflags]
  have herror : c'.hasStreamError = c.hasStreamError := by
    simp only [hasStreamError, checkFlags, hflags]
  have hclosed : c'.closed = c.closed := by
    simp only [closed, hpending, hdone]
  constructor
  · rw [hpending, htags]
    exact h.pending
  · rw [hpending, htags]
    exact h.idle
  · rw [hpending, hdone]
    exact h.exclusive
  · rw [hhistory, hclosed]
    exact h.finishing
  · rw [hhistory, hclosed]
    exact h.shutting
  · rw [hhistory, herror]
    exact h.failed
  · rw [herror, hclosed]
    exact h.failing
  · rw [hhistory]
    exact h.ordered

theorem Disciplined.not_mem_of_open (h : Disciplined c) (hopen : c.closed = false)
    {e : StreamEvent} (he : e ∈ c.history) :
    ¬ (e = .issued .finish ∨ e = .shutdown ∨ e = .streamError) := by
  have hno : ¬ c.closed = true := by simp [hopen]
  rintro (rfl | rfl | rfl)
  · exact hno (h.finishing he)
  · exact hno (h.shutting he)
  · exact hno (h.failing (h.failed.mp he))

theorem disciplined_issue (h : Disciplined c) (hop : op ≠ .shutdown)
    (hidle : c.isPending op = false) (hopen : c.closed = false) : Disciplined (c.issue op) := by
  have htags : (c.issue op).outstanding = op ::ₘ c.outstanding := rfl
  have hhistory : (c.issue op).history = c.history ++ [.issued op] := rfl
  constructor
  · intro q hq hpending
    rw [htags]
    by_cases hqo : q = op
    · rw [hqo, Multiset.count_cons_self, h.idle op (Or.inr hidle)]
    · rw [Multiset.count_cons_of_ne hqo]
      exact h.pending q hq (by simpa [hqo] using hpending)
  · intro q hq
    have hqo : q ≠ op := by
      rintro rfl
      simp [hop] at hq
    rw [htags, Multiset.count_cons_of_ne hqo]
    exact h.idle q (by simpa [hqo] using hq)
  · intro q hq hpending
    by_cases hqo : q = op
    · simp [hqo]
    · rw [isDone_issue, h.exclusive q hq (by simpa [hqo] using hpending), Bool.and_false]
  · intro hmem
    rw [hhistory, List.mem_append, List.mem_singleton] at hmem
    rcases hmem with hmem | heq
    · exact absurd (Or.inl rfl) (h.not_mem_of_open hopen hmem)
    · cases heq
      simp [closed]
  · intro hmem
    rw [hhistory, List.mem_append, List.mem_singleton] at hmem
    rcases hmem with hmem | heq
    · exact absurd (Or.inr (Or.inl rfl)) (h.not_mem_of_open hopen hmem)
    · cases heq
  · rw [hhistory, hasStreamError_issue, ← h.failed]
    simp
  · intro herror
    rw [hasStreamError_issue] at herror
    exact absurd (h.failing herror) (by simp [hopen])
  · unfold Ordered
    rw [hhistory, List.pairwise_append]
    refine ⟨h.ordered, List.pairwise_singleton _ _, ?_⟩
    intro e he _ _ hcloses
    exact absurd hcloses (h.not_mem_of_open hopen he)

def complete (c : DuplexClient R) (op : Op) (ok : Bool) : DuplexClient R :=
  { c.markDone op ok with outstanding := c.outstanding.erase op }

theorem closed_markDone (h : c.closed = true) (op : Op) (ok : Bool) :
    (c.markDone op ok).closed = true := by
  unfold closed at h ⊢
  simp only [Bool.or_eq_true] at h
  by_cases hfinish : Op.finish = op
  · simp [hfinish]
  · by_cases hshutdown : Op.shutdown = op
    · simp [hshutdown]
    · simpa [hfinish, hshutdown, or_assoc] using h

/-- What is pending after a completion was pending before and is another operation. -/
theorem isPending_complete {q : Op} {ok : Bool} (h : (c.complete op ok).isPending q = true) :
    q ≠ op ∧ c.isPending q = true := by
  change (c.markDone op ok).isPending q = true at h
  rw [isPending_markDone] at h
  have hq : q ≠ op := by
    rintro rfl
    simp at h
  exact ⟨hq, by simpa [hq] using h⟩

theorem history_complete (c : DuplexClient R) (op : Op) (ok : Bool) :
    (c.complete op ok).history = c.history ++ if ok then [] else [.streamError] := by
  unfold complete markDone
  cases ok <;> simp [setFlags, clearFlags]

theorem mem_history_of_complete {ok : Bool} {event : StreamEvent}
    (h : event ∈ (c.complete op ok).history) (hevent : event ≠ .streamError) :
    event ∈ c.history := by
  rw [history_complete] at h
  cases ok <;> simpa [hevent] using h

theorem disciplined_complete (h : Disciplined c) (hop : op ≠ .shutdown)
    (hpending : c.isPending op = true) (ok : Bool) (hfail : ok = false → c.closed = true) :
    Disciplined (c.complete op ok) := by
  have hd : (c.complete op ok).isDone = (c.markDone op ok).isDone := rfl
  have he : (c.complete op ok).hasStreamError = (c.markDone op ok).hasStreamError := rfl
  have hc : (c.complete op ok).closed = (c.markDone op ok).closed := rfl
  have htags : (c.complete op ok).outstanding = c.outstanding.erase op := rfl
  constructor
  · intro q hq hqp
    obtain ⟨hqo, hqp⟩ := isPending_complete hqp
    rw [htags, Multiset.count_erase_of_ne hqo]
    exact h.pending q hq hqp
  · intro q hq
    change q = .shutdown ∨ (c.markDone op ok).isPending q = false at hq
    rw [isPending_markDone] at hq
    rw [htags]
    by_cases hqo : q = op
    · rw [hqo, Multiset.count_erase_self, h.pending op hop hpending]
    · rw [Multiset.count_erase_of_ne hqo]
      exact h.idle q (by simpa [hqo] using hq)
  · intro q hq hqp
    obtain ⟨hqo, hqp⟩ := isPending_complete hqp
    rw [hd, isDone_markDone, h.exclusive q hq hqp]
    simp [hqo]
  · intro hmem
    rw [hc]
    exact closed_markDone (h.finishing (mem_history_of_complete hmem (by simp))) op ok
  · intro hmem
    rw [hc]
    exact closed_markDone (h.shutting (mem_history_of_complete hmem (by simp))) op ok
  · rw [history_complete, he, hasStreamError_markDone]
    cases ok with
    | true => simpa using h.failed
    | false => simp
  · intro herror
    rw [he, hasStreamError_markDone] at herror
    rw [hc]
    apply closed_markDone
    cases ok with
    | true => exact h.failing (by simpa using herror)
    | false => exact hfail rfl
  · unfold Ordered
    rw [history_complete, List.pairwise_append]
    cases ok with
    | true => exact ⟨h.ordered, List.Pairwise.nil, by simp⟩
    | false => exact ⟨h.ordered, List.pairwise_singleton _ _, by simp⟩

theorem finishAsyncInternal_cases (c : DuplexClient R) :
    (c.closed = true ∧ c.finishAsyncInternal.2 = c) ∨
      (c.isPending .finish = false ∧ c.closed = false ∧
        c.finishAsyncInternal.2 = c.issue .finish) := by
  rcases c.doAsync_cases false .finish with heq | ⟨hidle, hopen, heq⟩
  · cases hclosed : c.closed with
    | true => exact Or.inl ⟨rfl, heq⟩
    | false =>
      -- an open client passes all checks
      refine Or.inr ⟨?_, rfl, ?_⟩
      · simp only [closed, Bool.or_eq_false_iff] at hclosed
        exact hclosed.2.2
      · simp only [closed, isDone, isPending, Bool.or_eq_false_iff] at hclosed
        simp [finishAsyncInternal, doAsync, checkFlags_or, hclosed]
  · exact Or.inr ⟨hidle, hopen, heq⟩

theorem Disciplined.of_mem (h : Disciplined c) (hmem : op ∈ c.outstanding) :
    op ≠ .shutdown ∧ c.isPending op = true := by
  have hcount : c.outstanding.count op ≠ 0 := Multiset.count_ne_zero.mpr hmem
  constructor
  · exact fun hop => hcount (h.idle op (Or.inl hop))
  · cases hpending : c.isPending op with
    | true => rfl
    | false => exact absurd (h.idle op (Or.inr hpending)) hcount

theorem disciplined_marked (h : Disciplined c) (event : Completion R)
    (hmem : event.op ∈ c.outstanding) :
    Disciplined (c.marked event) := by
  obtain ⟨hop, hpending⟩ := h.of_mem hmem
  unfold marked
  cases hok : event.ok with
  | true =>
    have hcomplete := disciplined_complete h hop hpending true (by simp)
    exact hcomplete.congr rfl rfl rfl
  | false =>
    simp only [Bool.false_eq_true, if_false]
    rcases (c.deliver event).finishAsyncInternal_cases with ⟨hclosed, heq⟩ | ⟨hidle, hopen, heq⟩
    · have hcomplete := disciplined_complete h hop hpending false fun _ => hclosed
      rw [heq]
      exact hcomplete.congr rfl rfl rfl
    · -- the finish is requested before the flags of the failed operation change
      have hne : Op.finish ≠ event.op := by
        rintro hfinish
        rw [← hfinish] at hpending
        exact absurd (hpending.symm.trans hidle) (by decide)
      have hissue : Disciplined (c.issue .finish) :=
        disciplined_issue h (by decide) hidle hopen
      have hcomplete : Disciplined ((c.issue .finish).complete event.op false) :=
        disciplined_complete hissue hop (by simp [hpending]) false fun _ => by simp [closed]
      rw [heq]
      refine hcomplete.congr rfl ?_ rfl
      exact (Multiset.erase_cons_tail _ hne).symm

theorem getLsbD_setFlags_bit {fl : Flags} {n : ℕ} (hfl : ∀ i, fl.getLsbD i = decide (i = n))
    {i : ℕ} (hi : i ≠ n) : (c.setFlags fl).flags.getLsbD i = c.flags.getLsbD i := by
  rw [getLsbD_setFlags, hfl, decide_eq_false hi, Bool.or_false]

/-- Only the flags of the shutdown change, and it is requested or done afterwards. -/
structure ShutdownStep (c c' : DuplexClient R) : Prop where
  pending : ∀ op, op ≠ .shutdown → c'.isPending op = c.isPending op
  done : ∀ op, op ≠ .shutdown → c'.isDone op = c.isDone op
  error : c'.hasStreamError = c.hasStreamError
  closed : c'.closed = true
  tags : c'.outstanding = c.outstanding

theorem shutdownStep_pending (c : DuplexClient R) :
    ShutdownStep c (c.setFlags Op.shutdown.pending) := by
  have hbit := Op.shutdown.getLsbD_pending
  constructor
  · intro op hop
    have hne : op.index ≠ Op.shutdown.index := fun h => hop (Op.index_inj.mp h)
    rw [isPending_eq, isPending_eq, getLsbD_setFlags_bit hbit (by omega)]
  · intro op _
    have := op.index_lt
    rw [isDone_eq, isDone_eq, getLsbD_setFlags_bit hbit (by omega)]
  · rw [hasStreamError_eq, hasStreamError_eq, getLsbD_setFlags_bit hbit (by decide)]
  · have hset : (c.setFlags Op.shutdown.pending).isPending .shutdown = true := by
      rw [isPending_eq, getLsbD_setFlags, hbit]
      simp
    simp [closed, hset]
  · rfl

theorem shutdownStep_done (c : DuplexClient R) :
    ShutdownStep c (c.setFlags Op.shutdown.done) := by
  have hbit := Op.shutdown.getLsbD_done
  constructor
  · intro op _
    have hidx : Op.shutdown.index = 5 := rfl
    rw [isPending_eq, isPending_eq, getLsbD_setFlags_bit hbit (by omega)]
  · intro op hop
    have hne : op.index ≠ Op.shutdown.index := fun h => hop (Op.index_inj.mp h)
    rw [isDone_eq, isDone_eq, getLsbD_setFlags_bit hbit hne]
  · rw [hasStreamError_eq, hasStreamError_eq, getLsbD_setFlags_bit hbit (by decide)]
  · have hset : (c.setFlags Op.shutdown.done).isDone .shutdown = true := by
      rw [isDone_eq, getLsbD_setFlags, hbit]
      simp
    simp [closed, hset]
  · rfl

theorem disciplined_shutdownStep (h : Disciplined c)
    (hstep : ShutdownStep c c') (hhistory : c'.history = c.history ∨
      c'.history = c.history ++ [.shutdown]) : Disciplined c' := by
  constructor
  · intro op hop hpending
    rw [hstep.tags]
    exact h.pending op hop (by rwa [← hstep.pending op hop])
  · intro op hidle
    rw [hstep.tags]
    by_cases hop : op = .shutdown
    · exact h.idle op (Or.inl hop)
    · rw [hstep.pending op hop] at hidle
      exact h.idle op hidle
  · intro op hop hpending
    rw [hstep.done op hop]
    exact h.exclusive op hop (by rwa [← hstep.pending op hop])
  · exact fun _ => hstep.closed
  · exact fun _ => hstep.closed
  · rw [hstep.error, ← h.failed]
    rcases hhistory with heq | heq <;> simp [heq]
  · exact fun _ => hstep.closed
  · rcases hhistory with heq | heq
    · rw [heq]
      exact h.ordered
    · unfold Ordered
      rw [heq, List.pairwise_append]
      exact ⟨h.ordered, List.pairwise_singleton _ _, by simp⟩

theorem disciplined_step (hstep : Step c c') (h : Disciplined c) : Disciplined c' := by
  cases hstep with
  | issue hop hidle hopen hread => exact disciplined_issue h hop hidle hopen
  | event event hmem => exact disciplined_marked h event hmem
  | shutdown =>
    have hflags := disciplined_shutdownStep h (shutdownStep_pending c) (Or.inl rfl)
    exact disciplined_shutdownStep hflags ⟨fun _ _ => rfl, fun _ _ => rfl, rfl,
      (shutdownStep_pending c).closed, rfl⟩ (Or.inr rfl)
  | drained => exact disciplined_shutdownStep h (shutdownStep_done c) (Or.inl rfl)
  | status status => exact h.congr rfl rfl rfl
  | buffer buf valid hvalid => exact h.congr rfl rfl rfl

theorem disciplined_steps (hsteps : Steps c c') (h : Disciplined c) : Disciplined c' := by
  unfold Steps at hsteps
  induction hsteps with
  | refl => exact h
  | tail _ hstep ih => exact disciplined_step hstep ih

def blank (readCallback : Bool) : DuplexClient R :=
  ⟨0#32, 0, false, readCallback, none, false, ⟨0, ""⟩, []⟩

theorem checkFlags_blank (readCallback : Bool) (fl : Flags) :
    (blank readCallback : DuplexClient R).checkFlags fl = false := by
  simp [checkFlags, blank]

theorem disciplined_blank (readCallback : Bool) :
    Disciplined (blank readCallback : DuplexClient R) := by
  have hclear := checkFlags_blank (R := R) readCallback
  constructor
  · intro op _ hpending
    rw [isPending, hclear] at hpending
    cases hpending
  · exact fun op _ => Multiset.count_zero op
  · exact fun op _ _ => hclear op.done
  · simp [blank]
  · simp [blank]
  · rw [hasStreamError, hclear]
    simp [blank]
  · intro herror
    rw [hasStreamError, hclear] at herror
    cases herror
  · exact List.Pairwise.nil

theorem disciplined_create (readCallback : Bool) :
    Disciplined (create readCallback : DuplexClient R) := by
  have hclear := checkFlags_blank (R := R) readCallback
  have hopen : (blank readCallback : DuplexClient R).closed = false := by
    simp [closed, isDone, isPending, hclear]
  have hissue := disciplined_issue (disciplined_blank readCallback) (by decide)
    (hclear Op.start.pending) hopen
  refine disciplined_steps (steps_readNext _) (hissue.congr ?_ rfl rfl)
  show Op.start.pending = (0#32 &&& ~~~Op.start.done) ||| Op.start.pending
  decide

theorem disciplined_of_reachable (h : Reachable c) : Disciplined c := by
  obtain ⟨readCallback, hreaches⟩ := h
  exact disciplined_steps (steps_of_reaches hreaches) (disciplined_create readCallback)

theorem history_markDone (c : DuplexClient R) (op : Op) (ok : Bool) :
    (c.markDone op ok).history = c.history ++ if ok then [] else [.streamError] := by
  cases ok <;> simp [markDone, setFlags, clearFlags]

theorem history_step (hstep : Step c c') : c.history <+: c'.history := by
  cases hstep with
  | issue hop hidle hopen hread => exact List.prefix_append _ _
  | event event hmem =>
    unfold marked
    rw [history_markDone]
    refine List.IsPrefix.trans ?_ (List.prefix_append _ _)
    split_ifs
    · exact List.prefix_refl _
    · rcases (c.deliver event).finishAsyncInternal_cases with ⟨-, heq⟩ | ⟨-, -, heq⟩
      · rw [heq]
        exact List.prefix_refl _
      · rw [heq]
        exact List.prefix_append _ _
  | shutdown => exact List.prefix_append _ _
  | drained => exact List.prefix_refl _
  | status status => exact List.prefix_refl _
  | buffer buf valid hvalid => exact List.prefix_refl _

theorem history_steps (hsteps : Steps c c') : c.history <+: c'.history := by
  unfold Steps at hsteps
  induction hsteps with
  | refl => exact List.prefix_refl _
  | tail _ hstep ih => exact ih.trans (history_step hstep)

/-- In every state that calls and completions lead to: an operation is pending exactly when its
one tag is outstanding, and then it is not done; nothing is issued after a finish or a shutdown;
and a stream error stays, with no read and no write after it. -/
theorem operation_discipline (h : Reachable c) :
    (∀ op, op ≠ .shutdown →
      (c.isPending op = true ↔ c.outstanding.count op = 1) ∧
      (c.isPending op = false → c.outstanding.count op = 0) ∧
      ¬ (c.isPending op = true ∧ c.isDone op = true)) ∧
    (c.history.Pairwise fun earlier later =>
      earlier = .issued .finish ∨ earlier = .shutdown → ∀ op, later ≠ .issued op) ∧
    (c.history.Pairwise fun earlier later =>
      earlier = .streamError → later ≠ .issued .read ∧ later ≠ .issued .write) ∧
    (c.hasStreamError = true → ∀ c', Reaches c c' → c'.hasStreamError = true ∧
      ∃ later, c'.history = c.history ++ later ∧
        .issued .read ∉ later ∧ .issued .write ∉ later) := by
  have hc : Disciplined c := disciplined_of_reachable h
  refine ⟨?_, ?_, ?_, ?_⟩
  · intro op hop
    refine ⟨⟨hc.pending op hop, ?_⟩, fun hidle => hc.idle op (Or.inr hidle), ?_⟩
    · intro hcount
      have hmem : op ∈ c.outstanding := Multiset.count_pos.mp (by omega)
      exact (hc.of_mem hmem).2
    · rintro ⟨hpending, hdone⟩
      rw [hc.exclusive op hop hpending] at hdone
      cases hdone
  · exact hc.ordered.imp fun hordered hcloses => hordered (hcloses.imp_right Or.inl)
  · refine hc.ordered.imp fun hordered herror => ?_
    have hnone := hordered (Or.inr (Or.inr herror))
    exact ⟨hnone .read, hnone .write⟩
  · intro herror c' hreaches
    have hsteps := steps_of_reaches hreaches
    have hc' : Disciplined c' := disciplined_steps hsteps hc
    obtain ⟨later, hlater⟩ := history_steps hsteps
    have hfailed : .streamError ∈ c.history := hc.failed.mpr herror
    refine ⟨hc'.failed.mp ?_, later, hlater.symm, ?_⟩
    · rw [← hlater]
      exact List.mem_append_left _ hfailed
    · have hordered : Ordered (c.history ++ later) := by
        rw [hlater]
        exact hc'.ordered
      have hnone (op : Op) : .issued op ∉ later := fun hmem =>
        (List.pairwise_append.mp hordered).2.2 _ hfailed _ hmem (Or.inr (Or.inr rfl)) op rfl
      exact ⟨hnone .read, hnone .write⟩

def startFailure : Completion ℕ := ⟨.start, false, 0, ⟨14, "unavailable"⟩⟩

def failedStream : DuplexClient ℕ := ((create false).deliver startFailure).processEvent .start false

theorem reachable_failedStream : Reachable failedStream :=
  ⟨false, Relation.ReflTransGen.single
    ⟨.poll (anySet Op.start.done) [.gotEvent startFailure], rfl⟩⟩

theorem operation_discipline_failedStream :
    failedStream.hasStreamError = true ∧ failedStream.outstanding.count .finish = 1 ∧
      failedStream.outstanding.count .read = 1 ∧ failedStream.outstanding.count .start = 0 := by
  have hops := (operation_discipline reachable_failedStream).1
  refine ⟨by decide, ?_, ?_, ?_⟩
  · exact (hops .finish (by decide)).1.mp (by decide)
  · exact (hops .read (by decide)).1.mp (by decide)
  · exact (hops .start (by decide)).2.1 (by decide)

end DuplexClient

end AcsNext.Collector
