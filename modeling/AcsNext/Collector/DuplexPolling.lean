import AcsNext.Collector.DuplexDiscipline

/-! Polling a duplex client: the loop processes an event before it looks at the flags, so a
condition that holds already is seen only with the next event. -/
namespace AcsNext.Collector

namespace DuplexClient

variable {R : Type*} {c c' : DuplexClient R}

/-- A valid buffer holds a message, and the read that brought it is done. -/
def Buffered (c : DuplexClient R) : Prop :=
  c.readBufValid = true → c.isDone .read = true ∧ c.readBuf.isSome = true

theorem isDone_marked (event : Completion R) (q : Op) (h : c.isDone q = true) :
    (c.marked event).isDone q = true := by
  unfold marked
  rw [isDone_markDone]
  split_ifs
  · exact Bool.or_eq_true_iff.mpr (Or.inr h)
  · rcases (c.deliver event).finishAsyncInternal_cases with ⟨-, heq⟩ | ⟨-, hopen, heq⟩
    · rw [heq]
      exact Bool.or_eq_true_iff.mpr (Or.inr h)
    · have hne : q ≠ .finish := by
        rintro rfl
        have hdone : (c.deliver event).isDone .finish = true := h
        simp [closed, hdone] at hopen
      have hdone : (c.deliver event).isDone q = true := h
      rw [heq, isDone_issue, hdone]
      simp [hne]

theorem hasStreamError_marked (event : Completion R) (h : c.hasStreamError = true) :
    (c.marked event).hasStreamError = true := by
  unfold marked
  rw [hasStreamError_markDone]
  split_ifs
  · exact Bool.or_eq_true_iff.mpr (Or.inr h)
  · rcases (c.deliver event).finishAsyncInternal_cases with ⟨-, heq⟩ | ⟨-, -, heq⟩
    · rw [heq]
      exact Bool.or_eq_true_iff.mpr (Or.inr h)
    · rw [heq, hasStreamError_issue]
      exact Bool.or_eq_true_iff.mpr (Or.inr h)

theorem readBuf_marked (c : DuplexClient R) (event : Completion R) :
    (c.marked event).readBuf = (c.deliver event).readBuf ∧
      (c.marked event).readBufValid = c.readBufValid ∧
      (c.marked event).readCallback = c.readCallback := by
  have hmark (d : DuplexClient R) (op : Op) (ok : Bool) : (d.markDone op ok).readBuf = d.readBuf ∧
      (d.markDone op ok).readBufValid = d.readBufValid ∧
      (d.markDone op ok).readCallback = d.readCallback := by
    cases ok <;> exact ⟨rfl, rfl, rfl⟩
  unfold marked
  obtain ⟨hbuf, hvalid, hcallback⟩ := hmark (if event.ok then c.deliver event
    else (c.deliver event).finishAsyncInternal.2) event.op event.ok
  rw [hbuf, hvalid, hcallback]
  split_ifs
  · exact ⟨rfl, rfl, rfl⟩
  · rcases (c.deliver event).finishAsyncInternal_cases with ⟨-, heq⟩ | ⟨-, -, heq⟩
    · rw [heq]
      exact ⟨rfl, rfl, rfl⟩
    · rw [heq]
      exact ⟨rfl, rfl, rfl⟩

theorem buffered_step (hstep : Step c c') (h : Buffered c) : Buffered c' := by
  cases hstep with
  | @issue op hop hidle hopen hread =>
    intro hvalid
    replace hvalid : c.readBufValid = true := hvalid
    have hne : Op.read ≠ op := by
      rintro rfl
      rw [hread rfl] at hvalid
      cases hvalid
    obtain ⟨hdone, hbuf⟩ := h hvalid
    exact ⟨by simp [hne, hdone], hbuf⟩
  | event event hmem =>
    obtain ⟨hbuf, hvalid, -⟩ := readBuf_marked c event
    intro hv
    rw [hvalid] at hv
    refine ⟨isDone_marked event .read (h hv).1, ?_⟩
    rw [hbuf]
    unfold deliver
    dsimp only
    split_ifs
    · rfl
    · exact (h hv).2
  | shutdown =>
    intro hv
    refine ⟨?_, (h hv).2⟩
    exact ((shutdownStep_pending c).done .read (by decide)).trans (h hv).1
  | drained =>
    intro hv
    refine ⟨?_, (h hv).2⟩
    exact ((shutdownStep_done c).done .read (by decide)).trans (h hv).1
  | status status => exact h
  | buffer buf valid hvalid => exact hvalid

theorem buffered_steps (hsteps : Steps c c') (h : Buffered c) : Buffered c' := by
  unfold Steps at hsteps
  induction hsteps with
  | refl => exact h
  | tail _ hstep ih => exact buffered_step hstep ih

theorem buffered_of_reachable (h : Reachable c) : Buffered c := by
  obtain ⟨readCallback, hreaches⟩ := h
  refine buffered_steps (steps_of_reaches hreaches) (buffered_steps (steps_readNext _) ?_)
  intro hvalid
  cases hvalid

theorem isDone_readNext {q : Op} (hq : q ≠ .read) : c.readNext.isDone q = c.isDone q := by
  have hinvalid : ({ c with readBufValid := false } : DuplexClient R).isDone q = c.isDone q := rfl
  unfold readNext readAsyncInternal
  rcases doAsync_cases { c with readBufValid := false } false .read with heq | ⟨-, -, heq⟩
  · rw [heq, hinvalid]
  · rw [heq, isDone_issue, hinvalid, decide_eq_false hq, Bool.not_false, Bool.true_and]

theorem hasStreamError_readNext : c.readNext.hasStreamError = c.hasStreamError := by
  unfold readNext readAsyncInternal
  rcases doAsync_cases { c with readBufValid := false } false .read with heq | ⟨-, -, heq⟩
  · rw [heq]
    rfl
  · rw [heq, hasStreamError_issue]
    rfl

theorem isDone_handleRead {q : Op} (hq : q ≠ .read) (ok : Bool) :
    (c.handleRead ok).isDone q = c.isDone q := by
  unfold handleRead
  split_ifs
  · exact isDone_readNext hq
  · rfl

theorem hasStreamError_handleRead (ok : Bool) :
    (c.handleRead ok).hasStreamError = c.hasStreamError := by
  unfold handleRead
  split_ifs
  · exact hasStreamError_readNext
  · rfl

theorem flags_handleFinish (ok : Bool) : (c.handleFinish ok).flags = c.flags := by
  unfold handleFinish
  split_ifs <;> rfl

/-- A pending read is not done, so the next read cannot hide a flag that was set. -/
theorem isDone_processEvent (hc : Disciplined c) {event : Completion R}
    (hmem : event.op ∈ c.outstanding) {q : Op} (h : c.isDone q = true) :
    ((c.deliver event).processEvent event.op event.ok).isDone q = true := by
  have hmarked := isDone_marked event q h
  have hpending := (hc.of_mem hmem).2
  rw [processEvent_eq]
  split
  · rename_i hop
    have hq : q ≠ .read := by
      rintro rfl
      rw [hop] at hpending
      rw [hc.exclusive .read (by decide) hpending] at h
      cases h
    rw [isDone_handleRead hq]
    exact hmarked
  · rw [isDone_eq, flags_handleFinish, ← isDone_eq]
    exact hmarked
  · exact hmarked

theorem hasStreamError_processEvent {event : Completion R} (h : c.hasStreamError = true) :
    ((c.deliver event).processEvent event.op event.ok).hasStreamError = true := by
  have hmarked := hasStreamError_marked event h
  rw [processEvent_eq]
  split
  · rw [hasStreamError_handleRead]
    exact hmarked
  · rw [hasStreamError_eq, flags_handleFinish, ← hasStreamError_eq]
    exact hmarked
  · exact hmarked

def PollMask (desired : Flags) : Prop :=
  ∀ i, desired.getLsbD i = true → (∃ op : Op, i = op.index) ∨ i = 31

theorem getLsbD_processEvent (hc : Disciplined c) {event : Completion R}
    (hmem : event.op ∈ c.outstanding) {desired : Flags} (hmask : PollMask desired) {i : ℕ}
    (hi : desired.getLsbD i = true) (h : c.flags.getLsbD i = true) :
    ((c.deliver event).processEvent event.op event.ok).flags.getLsbD i = true := by
  rcases hmask i hi with ⟨op, rfl⟩ | rfl
  · rw [← isDone_eq] at h ⊢
    exact isDone_processEvent hc hmem h
  · rw [← hasStreamError_eq] at h ⊢
    exact hasStreamError_processEvent h

theorem anySet_iff (desired fl : Flags) :
    anySet desired fl = true ↔ ∃ i, fl.getLsbD i = true ∧ desired.getLsbD i = true := by
  unfold anySet
  rw [bne_iff_ne]
  constructor
  · intro hne
    by_contra hno
    apply hne
    apply BitVec.eq_of_getLsbD_eq
    intro i _
    rw [BitVec.getLsbD_and, BitVec.getLsbD_zero, Bool.and_eq_false_iff]
    by_contra hboth
    simp only [not_or, Bool.not_eq_false] at hboth
    exact hno ⟨i, hboth⟩
  · rintro ⟨i, hfl, hdesired⟩ hzero
    have hbit := congrArg (fun x => x.getLsbD i) hzero
    simp [hfl, hdesired] at hbit

theorem allSet_iff (desired fl : Flags) :
    allSet desired fl = true ↔ ∀ i, desired.getLsbD i = true → fl.getLsbD i = true := by
  unfold allSet
  rw [beq_iff_eq]
  constructor
  · intro heq i hi
    have hbit := congrArg (fun x => x.getLsbD i) heq
    simp only [BitVec.getLsbD_and, hi, Bool.and_true] at hbit
    exact hbit
  · intro h
    apply BitVec.eq_of_getLsbD_eq
    intro i _
    rw [BitVec.getLsbD_and]
    cases hi : desired.getLsbD i with
    | true => rw [h i hi, Bool.true_and]
    | false => rw [Bool.and_false]

def Persists (check : Flags → Bool) (c : DuplexClient R) : Prop :=
  ∀ event : Completion R, event.op ∈ c.outstanding → check c.flags = true →
    check ((c.deliver event).processEvent event.op event.ok).flags = true

theorem persists_anySet (hc : Disciplined c) {desired : Flags} (hmask : PollMask desired) :
    Persists (anySet desired) c := by
  intro event hmem h
  rw [anySet_iff] at h ⊢
  obtain ⟨i, hfl, hdesired⟩ := h
  exact ⟨i, getLsbD_processEvent hc hmem hmask hdesired hfl, hdesired⟩

theorem persists_allSet (hc : Disciplined c) {desired : Flags} (hmask : PollMask desired) :
    Persists (allSet desired) c := by
  intro event hmem h
  rw [allSet_iff] at h ⊢
  exact fun i hi => getLsbD_processEvent hc hmem hmask hi (h i hi)

def EventFirst (answers : List (Answer R)) : Prop := ∃ event rest, answers = .gotEvent event :: rest

/-- A poll for a condition that holds already succeeds with the first event; without one it
waits, times out or sees the shutdown. -/
theorem poll_of_holds {check : Flags → Bool} {answers : List (Answer R)}
    {res : Option Status × DuplexClient R} (hp : Persists check c) (hcheck : check c.flags = true)
    (hres : poll check answers c = some res) :
    (∃ event, event.op ∈ c.outstanding ∧ EventFirst answers ∧
      res = (some .ok, (c.deliver event).processEvent event.op event.ok)) ∨
    (¬ EventFirst answers ∧ res.1 ≠ some .ok ∧ (res.1 = some .timeout ↔
      ∃ rest, answers = .timeout :: rest) ∧ (res.1 = some .timeout → res.2 = c)) := by
  cases answers with
  | nil =>
    rw [← Option.some.inj hres]
    right
    simp [EventFirst]
  | cons a rest =>
    unfold poll processUntil at hres
    cases hstep : c.processSingle a with
    | none => simp [hstep] at hres
    | some d =>
      simp only [hstep] at hres
      obtain ⟨event, rfl, hmem, rfl⟩ | ⟨rfl, -, rfl⟩ | ⟨rfl, -⟩ := processSingle_cases hstep
      · left
        have hafter := hp event hmem hcheck
        simp only [hafter, if_true] at hres
        exact ⟨event, hmem, ⟨event, rest, rfl⟩, (Option.some.inj hres).symm⟩
      · right
        rw [← Option.some.inj hres]
        simp [EventFirst]
      · right
        rw [← Option.some.inj hres]
        simp [EventFirst]

theorem poll_ok_iff {check : Flags → Bool} {answers : List (Answer R)}
    {res : Option Status × DuplexClient R} (hp : Persists check c)
    (hres : poll check answers c = some res) :
    (check c.flags = true → res.1 = some .ok) ↔ check c.flags = false ∨ EventFirst answers := by
  cases hcheck : check c.flags with
  | false => simp
  | true =>
    rcases poll_of_holds hp hcheck hres with ⟨event, -, hfirst, rfl⟩ | ⟨hfirst, hne, -⟩
    · simp [hfirst]
    · simp [hfirst, hne]

/-- A poll that has processed an event times out only with flags that it has looked at. -/
theorem poll_timeout {check : Flags → Bool} {answers : List (Answer R)}
    (hcheck : check c.flags = false)
    (hres : poll check answers c = some (some .timeout, c')) : check c'.flags = false := by
  unfold poll at hres
  induction answers generalizing c with
  | nil => cases hres
  | cons a rest ih =>
    obtain ⟨d, hstep, hcases⟩ := processUntil_cons hres
    obtain ⟨event, -, hstop, hrest⟩ | ⟨event, status, -, hstop, heq⟩ | ⟨rfl, heq⟩ | ⟨rfl, heq⟩ :=
      hcases
    · apply ih _ hrest
      simpa using hstop
    · split_ifs at hstop
      rw [← Option.some.inj hstop] at heq
      cases heq
    · obtain ⟨event, h, -⟩ | ⟨-, -, rfl⟩ | ⟨h, -⟩ := processSingle_cases hstep
      · cases h
      · obtain ⟨_, rfl⟩ := Prod.mk.inj heq
        exact hcheck
      · cases h
    · cases heq

theorem readBuf_processEvent {event : Completion R} (hop : event.op ≠ .read) :
    ((c.deliver event).processEvent event.op event.ok).readBuf = c.readBuf ∧
      ((c.deliver event).processEvent event.op event.ok).readBufValid = c.readBufValid := by
  obtain ⟨hbuf, hvalid, -⟩ := readBuf_marked c event
  have hdeliver : (c.deliver event).readBuf = c.readBuf := by
    simp [deliver, hop]
  have hfinish (d : DuplexClient R) (ok : Bool) : (d.handleFinish ok).readBuf = d.readBuf ∧
      (d.handleFinish ok).readBufValid = d.readBufValid := by
    unfold handleFinish
    split_ifs <;> exact ⟨rfl, rfl⟩
  rw [processEvent_eq]
  split
  · contradiction
  · obtain ⟨hb, hv⟩ := hfinish (c.marked event) event.ok
    exact ⟨hb.trans (hbuf.trans hdeliver), hv.trans hvalid⟩
  · exact ⟨hbuf.trans hdeliver, hvalid⟩

theorem pollMask_done (op : Op) : PollMask op.done := by
  intro i hi
  rw [op.getLsbD_done, decide_eq_true_eq] at hi
  exact Or.inl ⟨op, hi⟩

theorem pollMask_sleep : PollMask (streamError ||| Op.finish.done) := by
  intro i hi
  rw [BitVec.getLsbD_or, getLsbD_streamError, Op.getLsbD_done, Bool.or_eq_true, decide_eq_true_eq,
    decide_eq_true_eq] at hi
  exact hi.symm.imp (fun h => ⟨.finish, h⟩) id

theorem allSet_canRead : allSet canRead c.flags = c.isDone .read := by
  rw [Bool.eq_iff_iff, allSet_iff, isDone_eq]
  constructor
  · exact fun h => h _ (by simp [canRead])
  · intro h i hi
    have : i = Op.read.index := by simpa [canRead] using hi
    rw [this, h]

theorem anySet_sleep :
    anySet (streamError ||| Op.finish.done) c.flags = (c.hasStreamError || c.isDone .finish) :=
  c.checkFlags_or streamError Op.finish.done

/-- A buffered message is read exactly with the next event. -/
theorem read_ok_iff (h : Reachable c) (hcallback : c.readCallback = false)
    (hvalid : c.readBufValid = true) {answers : List (Answer R)}
    {res : Option (Status × Option R) × DuplexClient R} (hres : c.read answers = some res) :
    (∃ m, c.readBuf = some m ∧ res.1 = some (.ok, some m)) ↔ EventFirst answers := by
  have hc : Disciplined c := disciplined_of_reachable h
  obtain ⟨hdone, hbuf⟩ := buffered_of_reachable h hvalid
  obtain ⟨m, hm⟩ := Option.isSome_iff_exists.mp hbuf
  have hcheck : allSet canRead c.flags = true := allSet_canRead.trans hdone
  have hpersists : Persists (allSet canRead) c := persists_allSet hc (pollMask_done .read)
  unfold read at hres
  rw [hcallback, if_neg Bool.false_ne_true, Option.map_eq_some_iff] at hres
  obtain ⟨polled, hpoll, hres⟩ := hres
  rcases poll_of_holds hpersists hcheck hpoll with ⟨event, hmem, hfirst, rfl⟩ | ⟨hfirst, hne, -⟩
  · have hop : event.op ≠ .read := by
      intro hread
      have hpending := (hc.of_mem hmem).2
      rw [hread] at hpending
      rw [hc.exclusive .read (by decide) hpending] at hdone
      cases hdone
    obtain ⟨hbuf', hvalid'⟩ := readBuf_processEvent (c := c) hop
    simp only [hvalid', hvalid, Bool.not_true, Bool.false_eq_true, if_false, hbuf', hm] at hres
    rw [← hres]
    simp [hm, hfirst]
  · have hother : ∀ r, res.1 ≠ some (.ok, r) := by
      obtain ⟨status, d⟩ := polled
      rw [← hres]
      cases status with
      | none => simp
      | some status => cases status <;> simp_all
    simp only [hfirst, iff_false]
    rintro ⟨r, -, hr⟩
    exact hother _ hr

/-- Sleeping reports an undisturbed stream wrongly exactly when it was disturbed at the call
and the deadline passes without an event. -/
theorem sleep_true_iff (h : Reachable c) {answers : List (Answer R)}
    {res : Option Bool × DuplexClient R} (hres : c.sleep answers = some res) :
    (res.1 = some true → res.2.hasStreamError = false ∧ res.2.isDone .finish = false) ↔
      (c.hasStreamError = false ∧ c.isDone .finish = false) ∨
        ¬ ∃ rest, answers = .timeout :: rest := by
  have hmask (d : DuplexClient R) : (d.hasStreamError = false ∧ d.isDone .finish = false) ↔
      anySet (streamError ||| Op.finish.done) d.flags = false := by
    rw [anySet_sleep, Bool.or_eq_false_iff]
  unfold sleep at hres
  obtain ⟨polled, hpoll, rfl⟩ := Option.map_eq_some_iff.mp hres
  obtain ⟨status, d⟩ := polled
  have htrue : (status.map fun status => decide (status = .timeout)) = some true ↔
      status = some .timeout := by
    cases status <;> simp
  rw [htrue, hmask, hmask]
  cases hcheck : anySet (streamError ||| Op.finish.done) c.flags with
  | false =>
    simp only [true_or, iff_true]
    rintro rfl
    exact poll_timeout hcheck hpoll
  | true =>
    have hpersists := persists_anySet (disciplined_of_reachable h) pollMask_sleep
    rcases poll_of_holds hpersists hcheck hpoll with ⟨event, -, ⟨ev, rest, rfl⟩, heq⟩ |
      ⟨-, -, htimeout, hsame⟩
    · cases heq
      simp
    · simp only [Bool.true_eq_false, false_or]
      rw [← htimeout]
      constructor
      · intro hno ht
        have hd := hno ht
        have hdc : d = c := hsame ht
        rw [hdc, hcheck] at hd
        cases hd
      · exact fun hno ht => absurd ht hno

/-- A poll sees a condition that holds at the call, and a read finds the message that is
buffered at the call, exactly when the queue delivers a further event; sleeping is right exactly
when the stream was undisturbed at the call or its first answer is not the deadline. -/
theorem current_condition_seen_iff (h : Reachable c) (answers : List (Answer R)) :
    (∀ desired, PollMask desired →
      (∀ res, pollAny desired answers c = some res →
        ((anySet desired c.flags = true → res.1 = some .ok) ↔
          anySet desired c.flags = false ∨ EventFirst answers)) ∧
      (∀ res, pollAll desired answers c = some res →
        ((allSet desired c.flags = true → res.1 = some .ok) ↔
          allSet desired c.flags = false ∨ EventFirst answers))) ∧
    (c.readCallback = false → c.readBufValid = true → ∀ res, c.read answers = some res →
      ((∃ m, c.readBuf = some m ∧ res.1 = some (.ok, some m)) ↔ EventFirst answers)) ∧
    (∀ res, c.sleep answers = some res →
      ((res.1 = some true → res.2.hasStreamError = false ∧ res.2.isDone .finish = false) ↔
        (c.hasStreamError = false ∧ c.isDone .finish = false) ∨
          ¬ ∃ rest, answers = .timeout :: rest)) := by
  have hc : Disciplined c := disciplined_of_reachable h
  refine ⟨fun desired hmask => ⟨fun res hres => ?_, fun res hres => ?_⟩, ?_, ?_⟩
  · exact poll_ok_iff (persists_anySet hc hmask) hres
  · exact poll_ok_iff (persists_allSet hc hmask) hres
  · exact fun hcallback hvalid res hres => read_ok_iff h hcallback hvalid hres
  · exact fun res hres => sleep_true_iff h hres

def arrival : Completion ℕ := ⟨.read, true, 7, ⟨0, ""⟩⟩

def started : Completion ℕ := ⟨.start, true, 0, ⟨0, ""⟩⟩

def polledStream : DuplexClient ℕ := ((create false).deliver arrival).processEvent .read true

theorem reachable_polledStream : Reachable polledStream :=
  ⟨false, Relation.ReflTransGen.single ⟨.poll (anySet canRead) [.gotEvent arrival], rfl⟩⟩

theorem current_condition_seen_polledStream :
    ∃ m, polledStream.readBuf = some m ∧
      (polledStream.read [.gotEvent started]).map Prod.fst = some (some (.ok, some m)) := by
  obtain ⟨res, hres⟩ : ∃ res, polledStream.read [.gotEvent started] = some res := ⟨_, rfl⟩
  have hread := (current_condition_seen_iff reachable_polledStream [.gotEvent started]).2.1 rfl rfl
    res hres
  obtain ⟨m, hbuf, hm⟩ := hread.mpr ⟨started, [], rfl⟩
  exact ⟨m, hbuf, by rw [hres, Option.map_some, hm]⟩

/-- After a successful poll, neither another poll nor a try to read nor a sleep on a failed
stream sees what holds already. -/
theorem polled_message_not_read :
    Reachable polledStream ∧ Reachable failedStream ∧
    (pollAny canRead [.gotEvent arrival] (create false)).map Prod.fst = some (some .ok) ∧
    polledStream.isDone .read = true ∧ polledStream.readBuf = some 7 ∧
    (pollAny canRead [.timeout] polledStream).map Prod.fst = some (some .timeout) ∧
    (polledStream.read [.timeout]).map Prod.fst = some (some (.timeout, none)) ∧
    failedStream.hasStreamError = true ∧
    (failedStream.sleep [.timeout]).map Prod.fst = some (some true) := by
  refine ⟨reachable_polledStream, reachable_failedStream, ?_⟩
  decide

end DuplexClient

end AcsNext.Collector
