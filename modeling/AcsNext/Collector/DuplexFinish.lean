import AcsNext.Collector.DuplexPolling

/-! The status of a stream. The client keeps the status that a finish brings, but a finish counts
as idempotent where it is awaited and not where it is started, so that only the call that sees
the completion can report it. -/
namespace AcsNext.Collector

/-- What `Run` reports when its stream has ended. -/
def endOfStreamError (status : GrpcStatus) : String :=
  "Error streaming network connection info: " ++
    if status.ok then "server hung up unexpectedly" else status.message

namespace DuplexClient

variable {R : Type*}

section Calls

variable (c : DuplexClient R)

def finishAsync : Status × DuplexClient R :=
  (.ofOpError c.finishAsyncInternal.1, c.finishAsyncInternal.2)

/-- `Finish` with a place for the status, which holds `out` before the call. -/
def finishInto (out : GrpcStatus) (answers : List (Answer R)) :
    Option ((Option Status × GrpcStatus) × DuplexClient R) :=
  (c.finish answers).map fun res =>
    ((res.1, if res.1 = some .ok then res.2.status else out), res.2)

def finishStatus (answers : List (Answer R)) : Option (Option GrpcStatus × DuplexClient R) :=
  (c.finish answers).map fun res =>
    (res.1.map fun result =>
      match result with
      | .ok => res.2.status
      | .timeout => ⟨4, "timed out waiting for operation status"⟩
      | _ => ⟨2, "unknown error retrieving status"⟩, res.2)

end Calls

variable {c c' : DuplexClient R} {s : GrpcStatus}

def FinishedWith (c : DuplexClient R) (s : GrpcStatus) : Prop :=
  c.isDone .finish = true ∧ c.status = s

theorem closed_of_finishedWith (h : FinishedWith c s) : c.closed = true := by
  unfold closed
  rw [h.1]
  simp

theorem doAsync_of_closed (h : c.closed = true) (idempotent : Bool) (op : Op) :
    (c.doAsync idempotent op).2 = c := by
  rcases c.doAsync_cases idempotent op with heq | ⟨-, hopen, -⟩
  · exact heq
  · rw [h] at hopen
    cases hopen

theorem finishedWith_readNext (h : FinishedWith c s) : FinishedWith c.readNext s := by
  have hinvalid : FinishedWith { c with readBufValid := false } s := h
  have hsame := doAsync_of_closed (closed_of_finishedWith hinvalid) false .read
  unfold readNext readAsyncInternal
  rw [hsame]
  exact hinvalid

/-- The one finish is over: an event is of another operation and leaves the status. -/
theorem finishedWith_processEvent (hc : Disciplined c) (h : FinishedWith c s)
    {event : Completion R} (hmem : event.op ∈ c.outstanding) :
    FinishedWith ((c.deliver event).processEvent event.op event.ok) s := by
  have hop : event.op ≠ .finish := by
    intro hfinish
    have hpending := (hc.of_mem hmem).2
    rw [hfinish] at hpending
    have hidle := hc.exclusive .finish (by decide) hpending
    rw [h.1] at hidle
    cases hidle
  have hdeliver : FinishedWith (c.deliver event) s := by
    have hstatus : (c.deliver event).status = c.status := by
      simp [deliver, hop]
    exact ⟨h.1, hstatus.trans h.2⟩
  have hmarked : FinishedWith (c.marked event) s := by
    refine ⟨isDone_marked event .finish h.1, ?_⟩
    have hsame := doAsync_of_closed (closed_of_finishedWith hdeliver) false .finish
    unfold marked finishAsyncInternal
    rw [hsame, ite_self]
    cases event.ok <;> exact hdeliver.2
  rw [processEvent_eq]
  split
  · unfold handleRead
    split_ifs
    · exact finishedWith_readNext hmarked
    · exact hmarked
  · contradiction
  · exact hmarked

theorem finishedWith_drained (h : FinishedWith c s) :
    FinishedWith (c.setFlags Op.shutdown.done) s :=
  ⟨((shutdownStep_done c).done .finish (by decide)).trans h.1, h.2⟩

theorem finishedWith_shutdown (h : FinishedWith c s) : FinishedWith c.shutdown.2 s := by
  unfold shutdown
  split_ifs
  · exact h
  · exact h
  · exact ⟨((shutdownStep_pending c).done .finish (by decide)).trans h.1, h.2⟩

theorem finishedWith_processSingle (hc : Disciplined c) (h : FinishedWith c s) {a : Answer R}
    (hstep : c.processSingle a = some c') : FinishedWith c' s := by
  obtain ⟨event, -, hmem, rfl⟩ | ⟨-, -, rfl⟩ | ⟨-, -, rfl⟩ := processSingle_cases hstep
  · exact finishedWith_processEvent hc h hmem
  · exact h
  · exact finishedWith_drained h

theorem finishedWith_processUntil {stop : Completion R → Flags → Option Status}
    {answers : List (Answer R)} {res : Option Status × DuplexClient R} (hc : Disciplined c)
    (h : FinishedWith c s) (hres : processUntil stop answers c = some res) :
    FinishedWith res.2 s := by
  refine (processUntil_keeps (P := fun d => Disciplined d ∧ FinishedWith d s) ?_ ⟨hc, h⟩ hres).2
  intro d d' a hd hstep
  exact ⟨disciplined_steps (steps_processSingle hstep) hd.1,
    finishedWith_processSingle hd.1 hd.2 hstep⟩

theorem finishedWith_doSync {idempotent idempotent' : Bool} {op : Op} {answers : List (Answer R)}
    {res : Option Status × DuplexClient R} (hc : Disciplined c) (h : FinishedWith c s)
    (hres : c.doSync idempotent (fun c => c.doAsync idempotent' op) op answers = some res) :
    FinishedWith res.2 s := by
  have hsame := doAsync_of_closed (closed_of_finishedWith h) idempotent' op
  obtain hres | hawait := doSync_cases hres
  · rw [hres, hsame]
    exact h
  · rw [hsame] at hawait
    exact finishedWith_processUntil hc h hawait

theorem finishedWith_read {answers : List (Answer R)}
    {res : Option (Status × Option R) × DuplexClient R} (hc : Disciplined c)
    (h : FinishedWith c s) (hres : c.read answers = some res) : FinishedWith res.2 s := by
  obtain hres | ⟨polled, hpoll, hres⟩ := read_cases hres
  · rw [hres]
    exact h
  have hpolled : FinishedWith polled.2 s := finishedWith_processUntil hc h hpoll
  obtain hres | hres := hres
  · rw [hres]
    exact hpolled
  · rw [hres]
    exact finishedWith_readNext hpolled

theorem finishedWith_perform {call : DuplexCall R} (hc : Disciplined c) (h : FinishedWith c s)
    (hperform : c.perform call = some c') : FinishedWith c' s := by
  cases performed_of_perform hperform with
  | async =>
    rw [doAsync_of_closed (closed_of_finishedWith h)]
    exact h
  | sync _ _ hres => exact finishedWith_doSync hc h hres
  | read hres => exact finishedWith_read hc h hres
  | wait hres => exact finishedWith_processUntil hc h hres
  | shutdown => exact finishedWith_shutdown h

theorem finishedWith_reaches (hc : Disciplined c) (h : FinishedWith c s) (hreaches : Reaches c c') :
    FinishedWith c' s := by
  unfold Reaches at hreaches
  induction hreaches with
  | refl => exact h
  | tail hbefore hcall ih =>
    obtain ⟨call, hperform⟩ := hcall
    exact finishedWith_perform (disciplined_steps (steps_of_reaches hbefore) hc) ih hperform

/-- The calls report the status: it is returned, it is stored whatever was there, and a further
finish is known to be done. -/
def ReportsStatus (c : DuplexClient R) (s : GrpcStatus) : Prop :=
  c.finishAsync.1 = .alreadyDone ∧
    (∀ answers, (c.finishStatus answers).map Prod.fst = some (some s)) ∧
    ∀ out answers, (c.finishInto out answers).map (fun res => res.1.2) = some s

/-- A second finish is started like an operation with an argument, and refused as such. -/
theorem finishAsyncInternal_of_finished (hc : Disciplined c) (h : c.isDone .finish = true) :
    c.finishAsyncInternal.1 =
      if c.isDone .shutdown || c.isPending .shutdown then .shutdown else .illegalState := by
  have hidle : c.checkFlags Op.finish.pending = false := by
    cases hpending : c.isPending .finish with
    | true =>
      have hdone := hc.exclusive .finish (by decide) hpending
      rw [h] at hdone
      cases hdone
    | false => exact hpending
  have hdone : c.checkFlags Op.finish.done = true := h
  unfold finishAsyncInternal doAsync isDone isPending
  simp only [Bool.false_and, Bool.false_eq_true, if_false, checkFlags_or, hidle, hdone,
    Bool.true_or, if_true]
  split_ifs <;> rfl

theorem finish_of_finished (hc : Disciplined c) (h : c.isDone .finish = true)
    (answers : List (Answer R)) : c.finish answers = some (some c.finishAsync.1, c) ∧
      (c.finishAsync.1 = .shutdown ∨ c.finishAsync.1 = .illegalState) := by
  have hclosed : c.closed = true := by
    unfold closed
    rw [h]
    simp
  have hsame : c.finishAsyncInternal.2 = c := doAsync_of_closed hclosed false .finish
  have herror := finishAsyncInternal_of_finished hc h
  unfold finish doSync finishAsync
  dsimp only
  rw [hsame, herror]
  by_cases hshutdown : (c.isDone .shutdown || c.isPending .shutdown) = true
  · rw [if_pos hshutdown]
    exact ⟨rfl, Or.inl rfl⟩
  · rw [if_neg hshutdown]
    exact ⟨rfl, Or.inr rfl⟩

/-- In every run in which a finish has completed, the client keeps its status, and no later call
reports it: a further finish is refused, nothing is stored, and an error of the client itself is
returned and reported. -/
theorem finish_status_lost {c₀ : DuplexClient R} (h : Reachable c₀) (hfinished : FinishedWith c₀ s)
    (hreaches : Reaches c₀ c) :
    c.status = s ∧ ¬ ReportsStatus c s ∧
    (c.finishAsync.1 = .shutdown ∨ c.finishAsync.1 = .illegalState) ∧
    ∀ answers,
      (∀ out, c.finishInto out answers = some ((some c.finishAsync.1, out), c)) ∧
      c.finishStatus answers = some (some ⟨2, "unknown error retrieving status"⟩, c) ∧
      (c.finishStatus answers).map (fun res => res.1.map endOfStreamError) =
        some (some ("Error streaming network connection info: " ++
          "unknown error retrieving status")) := by
  have hc₀ : Disciplined c₀ := disciplined_of_reachable h
  have hc : Disciplined c := disciplined_steps (steps_of_reaches hreaches) hc₀
  have hkept : FinishedWith c s := finishedWith_reaches hc₀ hfinished hreaches
  have hfinish := finish_of_finished hc hkept.1
  have hrefused := (hfinish []).2
  have hstatus (answers : List (Answer R)) :
      c.finishStatus answers = some (some ⟨2, "unknown error retrieving status"⟩, c) := by
    unfold finishStatus
    rw [(hfinish answers).1]
    rcases hrefused with heq | heq <;> rw [heq] <;> rfl
  refine ⟨hkept.2, ?_, hrefused, fun answers => ⟨fun out => ?_, hstatus answers, ?_⟩⟩
  · intro hreports
    have hdone := hreports.1
    rcases hrefused with heq | heq <;> rw [heq] at hdone <;> cases hdone
  · unfold finishInto
    rw [(hfinish answers).1]
    rcases hrefused with heq | heq <;> rw [heq] <;> rfl
  · rw [hstatus answers]
    rfl

/-- The server closes the stream: the read that was waiting fails. -/
def streamClosed : Completion ℕ := ⟨.read, false, 0, ⟨0, ""⟩⟩

/-- The finish that this requests brings the status of the server. -/
def serverStatus : Completion ℕ := ⟨.finish, true, 0, ⟨14, "sensor is restarting"⟩⟩

def writeFailure : Completion ℕ := ⟨.write, false, 0, ⟨0, ""⟩⟩

/-- A write that waits while the server closes the stream sees all of it. -/
def closedDuringWrite : DuplexCall ℕ :=
  .write [.gotEvent started, .gotEvent streamClosed, .gotEvent serverStatus,
    .gotEvent writeFailure]

def closedStream : Option (DuplexClient ℕ) := (create true).perform closedDuringWrite

theorem finish_status_lost_closedStream :
    ∃ c, closedStream = some c ∧ c.status = ⟨14, "sensor is restarting"⟩ ∧
      ¬ ReportsStatus c ⟨14, "sensor is restarting"⟩ := by
  have hrun : closedStream.isSome = true := rfl
  obtain ⟨c, hc⟩ := Option.isSome_iff_exists.mp hrun
  have hreachable : Reachable c := ⟨true, Relation.ReflTransGen.single ⟨closedDuringWrite, hc⟩⟩
  have hdone : closedStream.map (fun c => (c.isDone .finish, c.status)) =
      some (true, ⟨14, "sensor is restarting"⟩) := by decide
  rw [hc, Option.map_some, Option.some.injEq, Prod.mk.injEq] at hdone
  obtain ⟨hstatus, hlost, -⟩ := finish_status_lost hreachable hdone Relation.ReflTransGen.refl
  exact ⟨c, hc, hstatus, hlost⟩

/-- The server ended the stream with a status that the client has, and neither form of a finish
after it gives this status. -/
theorem status_not_returned_after_write :
    (closedStream.map fun c => (c.isDone .finish, c.status)) =
      some (true, ⟨14, "sensor is restarting"⟩) ∧
    (closedStream.map fun c => c.finishAsync.1) = some .illegalState ∧
    (closedStream.bind fun c => (c.finishStatus []).map Prod.fst) =
      some (some ⟨2, "unknown error retrieving status"⟩) ∧
    (closedStream.bind fun c => (c.finishInto ⟨0, ""⟩ []).map (fun res => res.1)) =
      some (some .illegalState, ⟨0, ""⟩) := by
  decide

theorem status_processEvent_finish {event : Completion R} (hop : event.op = .finish)
    (hok : event.ok = true) :
    ((c.deliver event).processEvent event.op event.ok).status = event.status := by
  have hmarked : (c.marked event).status = event.status := by
    unfold marked
    rw [hok]
    simp [markDone, setFlags, clearFlags, deliver, hop]
  rw [processEvent_eq]
  simp only [hop, handleFinish, hok, Bool.not_true, Bool.false_and, Bool.false_eq_true, if_false]
  exact hmarked

theorem await_ok {op : Op} {answers : List (Answer R)}
    (hres : await op answers c = some (some .ok, c')) :
    ∃ (d : DuplexClient R) (event : Completion R), .gotEvent event ∈ answers ∧ event.op = op ∧
      event.ok = true ∧ c' = (d.deliver event).processEvent event.op event.ok := by
  unfold await at hres
  induction answers generalizing c with
  | nil => cases hres
  | cons a rest ih =>
    obtain ⟨d, hstep, hcases⟩ := processUntil_cons hres
    obtain ⟨event, rfl, -, hrest⟩ | ⟨event, status, rfl, hstop, heq⟩ | ⟨rfl, heq⟩ | ⟨rfl, heq⟩ :=
      hcases
    · obtain ⟨d, event', hmem, hseen⟩ := ih hrest
      exact ⟨d, event', List.mem_cons_of_mem _ hmem, hseen⟩
    · obtain ⟨event', hevent, -, hnext⟩ | ⟨h, -⟩ | ⟨h, -⟩ := processSingle_cases hstep
      · obtain rfl : event = event' := Answer.gotEvent.inj hevent
        obtain ⟨hstatus, rfl⟩ := Prod.mk.inj heq
        split_ifs at hstop with hop hok
        · exact ⟨c, event, List.mem_cons_self, hop, hok, hnext⟩
        · rw [← Option.some.inj hstop] at hstatus
          cases hstatus
      · cases h
      · cases h
    · cases heq
    · cases heq

/-- A finish that succeeds has seen the completion itself, and returns its status. -/
theorem finish_returns_status {answers : List (Answer R)}
    (hres : c.finish answers = some (some .ok, c')) :
    ∃ event, .gotEvent event ∈ answers ∧ event.op = .finish ∧ event.ok = true ∧
      c.finishStatus answers = some (some event.status, c') ∧
      ∀ out, c.finishInto out answers = some ((some .ok, event.status), c') := by
  have hawait : await .finish answers c.finishAsyncInternal.2 = some (some .ok, c') := by
    unfold finish doSync at hres
    dsimp only at hres
    split_ifs at hres with herror
    · cases herr : syncError true c.finishAsyncInternal.1 <;> simp_all [Status.ofOpError]
    · exact hres
  obtain ⟨d, event, hmem, hop, hok, rfl⟩ := await_ok hawait
  have hstatus := status_processEvent_finish (c := d) hop hok
  refine ⟨event, hmem, hop, hok, ?_, fun out => ?_⟩
  · unfold finishStatus
    rw [hres, Option.map_some, Option.map_some, hstatus]
  · unfold finishInto
    rw [hres, Option.map_some, if_pos rfl, hstatus]

end DuplexClient

end AcsNext.Collector
