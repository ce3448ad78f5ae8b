import AcsNext.Collector.DuplexFinish

/-! The read callback of a duplex client. It runs while an event is processed and may itself
call the client; what it is handed is compared with the reads that the queue completes. -/
namespace AcsNext.Collector

/-- What can be seen of a client: what its stream sees, the completions that the queue delivers,
and the invocations of the callback, with no message for `nullptr`. -/
inductive TraceEntry (R : Type*) where
  | stream (e : StreamEvent)
  | completed (event : Completion R)
  | callback (arg : Option R)

namespace TraceEntry

variable {R : Type*}

def callbackArg? : TraceEntry R → Option (Option R)
  | .callback arg => some arg
  | _ => none

def readCompletion? : TraceEntry R → Option (Completion R)
  | .completed event => if event.op = .read then some event else none
  | _ => none

end TraceEntry

def callbacks {R : Type*} (trace : List (TraceEntry R)) : List (Option R) :=
  trace.filterMap TraceEntry.callbackArg?

def readCompletions {R : Type*} (trace : List (TraceEntry R)) : List (Completion R) :=
  trace.filterMap TraceEntry.readCompletion?

def readMessages {R : Type*} (trace : List (TraceEntry R)) : List R :=
  ((readCompletions trace).filter Completion.ok).map Completion.message

namespace DuplexClient

variable {R : Type*}

/-- What the stream has seen between two states. -/
def seen (c c' : DuplexClient R) : List (TraceEntry R) :=
  (c'.history.drop c.history.length).map .stream

/-- What `HandleRead` hands to the callback. -/
def callbackArg (c : DuplexClient R) (ok : Bool) : Option R := if ok then c.readBuf else none

/-- `HandleRead` with a callback that may call the client. -/
def handleReadWith (callback : Option R → DuplexClient R → DuplexClient R) (c : DuplexClient R)
    (ok : Bool) : DuplexClient R :=
  if c.readCallback then (callback (c.callbackArg ok) c).readNext
  else { c with readBufValid := ok }

/-- `ProcessEvent` with such a callback. -/
def processEventWith (callback : Option R → DuplexClient R → DuplexClient R) (c : DuplexClient R)
    (op : Op) (ok : Bool) : DuplexClient R :=
  let c := if ok then c else c.finishAsyncInternal.2
  let c := c.markDone op ok
  match op with
  | .read => c.handleReadWith callback ok
  | .finish => c.handleFinish ok
  | _ => c

/-- The callbacks of `processEvent` leave the client alone. -/
theorem processEventWith_idle (c : DuplexClient R) (op : Op) (ok : Bool) :
    c.processEventWith (fun _ c => c) op ok = c.processEvent op ok := by
  cases op <;> rfl

theorem processEventWith_of_ne {callback : Option R → DuplexClient R → DuplexClient R}
    {c : DuplexClient R} {op : Op} (hop : op ≠ .read) (ok : Bool) :
    c.processEventWith callback op ok = c.processEvent op ok := by
  cases op with
  | read => exact absurd rfl hop
  | _ => rfl

/-- What a client with a read callback can do, with its trace. The callback runs when the read is
marked as done and before the next read is requested, and has the client at its disposal. -/
inductive Activity : DuplexClient R → List (TraceEntry R) → DuplexClient R → Prop
  | refl (c : DuplexClient R) : Activity c [] c
  | trans {c d e : DuplexClient R} {trace trace' : List (TraceEntry R)} (h : Activity c trace d)
      (h' : Activity d trace' e) : Activity c (trace ++ trace') e
  | async {c : DuplexClient R} (idempotent : Bool) {op : Op} (hread : op ≠ .read)
      (hshutdown : op ≠ .shutdown) :
      Activity c (seen c (c.doAsync idempotent op).2) (c.doAsync idempotent op).2
  | shutdown {c : DuplexClient R} : Activity c (seen c c.shutdown.2) c.shutdown.2
  | drained {c : DuplexClient R} (hdrained : c.drained = true) :
      Activity c [] (c.setFlags Op.shutdown.done)
  | event {c : DuplexClient R} (event : Completion R) (hmem : event.op ∈ c.outstanding)
      (hop : event.op ≠ .read) :
      Activity c
        (.completed event :: seen c ((c.deliver event).processEvent event.op event.ok))
        ((c.deliver event).processEvent event.op event.ok)
  | read {c d : DuplexClient R} (event : Completion R) (hmem : event.op ∈ c.outstanding)
      (hop : event.op = .read) {during : List (TraceEntry R)}
      (hcallback : Activity (c.marked event) during d) :
      Activity c
        (.completed event :: (seen c (c.marked event) ++
          .callback ((c.marked event).callbackArg event.ok) :: (during ++ seen d d.readNext)))
        d.readNext

variable {c c' : DuplexClient R} {trace : List (TraceEntry R)}

theorem steps_of_activity (h : Activity c trace c') : Steps c c' := by
  induction h with
  | refl c => exact Steps.refl c
  | trans h h' ih ih' => exact ih.trans ih'
  | async idempotent hread hshutdown =>
    exact steps_doAsync _ idempotent hshutdown fun heq => absurd heq hread
  | shutdown => exact steps_shutdown _
  | drained hdrained => exact Step.drained.steps
  | event event hmem hop => exact steps_processEvent event hmem
  | read event hmem hop hcallback ih =>
    exact (Step.event event hmem).steps.trans (ih.trans (steps_readNext _))

theorem readCallback_steps (h : Steps c c') : c'.readCallback = c.readCallback := by
  unfold Steps at h
  induction h with
  | refl => rfl
  | tail _ hstep ih =>
    rw [← ih]
    cases hstep with
    | event event hmem => exact (readBuf_marked _ event).2.2
    | _ => rfl

/-- Whatever the callback does with the client, the event is an activity. -/
theorem activity_processEventWith {callback : Option R → DuplexClient R → DuplexClient R}
    (hcallback : c.readCallback = true)
    (hactive : ∀ arg d, ∃ during, Activity d during (callback arg d)) (event : Completion R)
    (hmem : event.op ∈ c.outstanding) :
    ∃ trace, Activity c trace ((c.deliver event).processEventWith callback event.op event.ok) := by
  by_cases hop : event.op = .read
  · have hmarked : (c.marked event).readCallback = true :=
      (readBuf_marked c event).2.2.trans hcallback
    obtain ⟨during, hduring⟩ :=
      hactive ((c.marked event).callbackArg event.ok) (c.marked event)
    have hread := Activity.read event hmem hop hduring
    have hnext : (c.deliver event).processEventWith callback event.op event.ok =
        (callback ((c.marked event).callbackArg event.ok) (c.marked event)).readNext := by
      unfold marked at hmarked ⊢
      rw [hop] at hmarked ⊢
      exact if_pos hmarked
    rw [hnext]
    exact ⟨_, hread⟩
  · rw [processEventWith_of_ne hop]
    exact ⟨_, Activity.event event hmem hop⟩

theorem activity_processSingle (hcallback : c.readCallback = true) {a : Answer R}
    (h : c.processSingle a = some c') : ∃ trace, Activity c trace c' := by
  obtain ⟨event, -, hmem, rfl⟩ | ⟨-, -, rfl⟩ | ⟨-, hdrained, rfl⟩ := processSingle_cases h
  · rw [← processEventWith_idle]
    exact activity_processEventWith hcallback (fun _ d => ⟨_, Activity.refl d⟩) event hmem
  · exact ⟨_, Activity.refl _⟩
  · exact ⟨_, Activity.drained hdrained⟩

theorem activity_processUntil {stop : Completion R → Flags → Option Status}
    {answers : List (Answer R)} {res : Option Status × DuplexClient R}
    (hcallback : c.readCallback = true) (h : processUntil stop answers c = some res) :
    ∃ trace, Activity c trace res.2 := by
  refine processUntil_keeps (P := fun d => ∃ trace, Activity c trace d) ?_ ⟨_, Activity.refl c⟩ h
  rintro d d' a ⟨first, hfirst⟩ hstep
  have hd : d.readCallback = true :=
    (readCallback_steps (steps_of_activity hfirst)).trans hcallback
  obtain ⟨later, hlater⟩ := activity_processSingle hd hstep
  exact ⟨first ++ later, hfirst.trans hlater⟩

theorem activity_doSync {idempotent idempotent' : Bool} {op : Op} {answers : List (Answer R)}
    {res : Option Status × DuplexClient R} (hcallback : c.readCallback = true)
    (hread : op ≠ .read) (hshutdown : op ≠ .shutdown)
    (h : c.doSync idempotent (fun c => c.doAsync idempotent' op) op answers = some res) :
    ∃ trace, Activity c trace res.2 := by
  have hstarted := Activity.async (c := c) idempotent' hread hshutdown
  have hd : (c.doAsync idempotent' op).2.readCallback = true :=
    (readCallback_steps (steps_of_activity hstarted)).trans hcallback
  obtain hres | hawait := doSync_cases h
  · rw [hres]
    exact ⟨_, hstarted⟩
  · obtain ⟨later, hlater⟩ := activity_processUntil hd hawait
    exact ⟨_, hstarted.trans hlater⟩

theorem activity_perform {call : DuplexCall R} (hcallback : c.readCallback = true)
    (h : c.perform call = some c') : ∃ trace, Activity c trace c' := by
  cases performed_of_perform h with
  | async idempotent hshutdown hread => exact ⟨_, Activity.async idempotent hread hshutdown⟩
  | sync hshutdown hread hres => exact activity_doSync hcallback hread hshutdown hres
  | read hres =>
    -- a client with a callback refuses to be read
    rw [read, if_pos hcallback] at hres
    rw [← Option.some.inj hres]
    exact ⟨_, Activity.refl c⟩
  | wait hres => exact activity_processUntil hcallback hres
  | shutdown => exact ⟨_, Activity.shutdown⟩

/-- Every run of calls is an activity. -/
theorem activity_of_reaches (hcallback : c.readCallback = true) (h : Reaches c c') :
    ∃ trace, Activity c trace c' := by
  unfold Reaches at h
  induction h with
  | refl => exact ⟨_, Activity.refl c⟩
  | tail _ hcall ih =>
    obtain ⟨call, hperform⟩ := hcall
    obtain ⟨before, hbefore⟩ := ih
    have hd := (readCallback_steps (steps_of_activity hbefore)).trans hcallback
    obtain ⟨last, hlast⟩ := activity_perform hd hperform
    exact ⟨before ++ last, hbefore.trans hlast⟩

/-- Neither a read that completes or is issued nor an invocation of the callback. -/
def Quiet (trace : List (TraceEntry R)) : Prop :=
  ∀ e ∈ trace, e.callbackArg? = none ∧ e.readCompletion? = none ∧ e ≠ .stream (.issued .read)

theorem quiet_nil : Quiet ([] : List (TraceEntry R)) := by
  intro e he
  cases he

theorem quiet_append {trace' : List (TraceEntry R)} :
    Quiet (trace ++ trace') ↔ Quiet trace ∧ Quiet trace' := by
  exact List.forall_mem_append

theorem Quiet.callbacks_eq (h : Quiet trace) : callbacks trace = [] :=
  List.filterMap_eq_nil_iff.mpr fun e he => (h e he).1

theorem Quiet.readCompletions_eq (h : Quiet trace) : readCompletions trace = [] :=
  List.filterMap_eq_nil_iff.mpr fun e he => (h e he).2.1

theorem quiet_map_stream {events : List StreamEvent} (h : .issued .read ∉ events) :
    Quiet (events.map TraceEntry.stream : List (TraceEntry R)) := by
  intro e he
  obtain ⟨event, hevent, rfl⟩ := List.mem_map.mp he
  refine ⟨rfl, rfl, fun heq => ?_⟩
  cases heq
  exact h hevent

theorem seen_eq (events : List StreamEvent) (h : c'.history = c.history ++ events) :
    seen c c' = events.map .stream := by
  unfold seen
  rw [h, List.drop_left]

theorem quiet_seen (events : List StreamEvent) (h : c'.history = c.history ++ events)
    (hread : .issued .read ∉ events) : Quiet (seen c c') := by
  rw [seen_eq events h]
  exact quiet_map_stream hread

theorem quiet_seen_doAsync (c : DuplexClient R) (idempotent : Bool) {op : Op} (hop : op ≠ .read) :
    Quiet (seen c (c.doAsync idempotent op).2) := by
  rcases c.doAsync_cases idempotent op with heq | ⟨-, -, heq⟩
  · rw [heq]
    exact quiet_seen [] (List.append_nil _).symm List.not_mem_nil
  · rw [heq]
    apply quiet_seen [.issued op] rfl
    simp [hop.symm]

theorem history_marked (c : DuplexClient R) (event : Completion R) :
    ∃ events, (c.marked event).history = c.history ++ events ∧ .issued .read ∉ events := by
  unfold marked
  rw [history_markDone]
  cases hok : event.ok with
  | true => exact ⟨[], rfl, List.not_mem_nil⟩
  | false =>
    simp only [Bool.false_eq_true, if_false]
    rcases (c.deliver event).finishAsyncInternal_cases with ⟨-, heq⟩ | ⟨-, -, heq⟩
    · rw [heq]
      exact ⟨[.streamError], rfl, by simp⟩
    · rw [heq]
      refine ⟨[.issued .finish, .streamError], ?_, by simp⟩
      exact List.append_assoc c.history [.issued .finish] [.streamError]

theorem quiet_seen_marked (c : DuplexClient R) (event : Completion R) :
    Quiet (seen c (c.marked event)) := by
  obtain ⟨events, hhistory, hread⟩ := history_marked c event
  exact quiet_seen events hhistory hread

theorem quiet_seen_shutdown (c : DuplexClient R) : Quiet (seen c c.shutdown.2) := by
  unfold shutdown
  split_ifs
  · exact quiet_seen [] (List.append_nil _).symm List.not_mem_nil
  · exact quiet_seen [] (List.append_nil _).symm List.not_mem_nil
  · exact quiet_seen [.shutdown] rfl (by simp)

theorem readNext_of_closed (h : c.closed = true) :
    c.readNext = { c with readBufValid := false } := by
  have hinvalid : ({ c with readBufValid := false } : DuplexClient R).closed = true := h
  exact doAsync_of_closed hinvalid false .read

theorem isPending_read_marked (c : DuplexClient R) (event : Completion R) :
    (c.marked event).isPending .read = (!decide (.read = event.op) && c.isPending .read) := by
  unfold marked
  rw [isPending_markDone]
  split_ifs
  · rfl
  · rcases (c.deliver event).finishAsyncInternal_cases with ⟨-, heq⟩ | ⟨-, -, heq⟩
    · rw [heq]
      rfl
    · rw [heq, isPending_issue]
      rfl

theorem isPending_read_doAsync (c : DuplexClient R) (idempotent : Bool) {op : Op}
    (hop : op ≠ .read) : (c.doAsync idempotent op).2.isPending .read = c.isPending .read := by
  rcases c.doAsync_cases idempotent op with heq | ⟨-, -, heq⟩
  · rw [heq]
  · rw [heq, isPending_issue, decide_eq_false hop.symm, Bool.false_or]

theorem isPending_read_shutdown (c : DuplexClient R) :
    c.shutdown.2.isPending .read = c.isPending .read := by
  unfold shutdown
  split_ifs
  · rfl
  · rfl
  · exact (shutdownStep_pending c).pending .read (by decide)

/-- An event of another operation leaves the read as it is. -/
theorem processEvent_of_ne_read {event : Completion R} (hop : event.op ≠ .read) :
    ((c.deliver event).processEvent event.op event.ok).history = (c.marked event).history ∧
      ((c.deliver event).processEvent event.op event.ok).isPending .read =
        c.isPending .read := by
  have hpending := isPending_read_marked c event
  rw [decide_eq_false hop.symm, Bool.not_false, Bool.true_and] at hpending
  rw [processEvent_eq]
  split
  · contradiction
  · unfold handleFinish
    split_ifs <;> exact ⟨rfl, hpending⟩
  · exact ⟨rfl, hpending⟩

theorem closed_step (hstep : Step c c') (h : c.closed = true) : c'.closed = true := by
  cases hstep with
  | issue hop hidle hopen hread =>
    rw [h] at hopen
    cases hopen
  | event event hmem =>
    have hdeliver : (c.deliver event).closed = true := h
    unfold marked
    apply closed_markDone
    split_ifs
    · exact hdeliver
    · rcases (c.deliver event).finishAsyncInternal_cases with ⟨-, heq⟩ | ⟨-, -, heq⟩
      · rw [heq]
        exact hdeliver
      · rw [heq]
        simp [closed]
  | shutdown => exact (shutdownStep_pending c).closed
  | drained => exact (shutdownStep_done c).closed
  | status status => exact h
  | buffer buf valid hvalid => exact h

theorem closed_steps (hsteps : Steps c c') (h : c.closed = true) : c'.closed = true := by
  unfold Steps at hsteps
  induction hsteps with
  | refl => exact h
  | tail _ hstep ih => exact closed_step hstep ih

theorem closed_marked {event : Completion R} (hok : event.ok = false) :
    (c.marked event).closed = true := by
  unfold marked
  apply closed_markDone
  rw [hok]
  rcases (c.deliver event).finishAsyncInternal_cases with ⟨hclosed, heq⟩ | ⟨-, -, heq⟩
  · simp [heq, hclosed]
  · simp [heq, closed]

/-- What the callback is to be handed for a read. -/
def completionArg (event : Completion R) : Option R := if event.ok then some event.message else none

/-- What an activity does to the reads: each completion is handed over, a client without a
pending read neither gets nor requests one, and a failed read is the last. -/
structure ReadSpec (c : DuplexClient R) (trace : List (TraceEntry R)) (c' : DuplexClient R) :
    Prop where
  called : callbacks trace = (readCompletions trace).map completionArg
  quiet : c.isPending .read = false → Quiet trace ∧ c'.isPending .read = false
  failed : ∀ event ∈ readCompletions trace, event.ok = false → c'.isPending .read = false
  ordered : (readCompletions trace).Pairwise fun earlier _ => earlier.ok = true
  last : ∀ before after, trace = before ++ .callback none :: after → Quiet after

theorem readSpec_of_quiet (h : Quiet trace) (hpending : c'.isPending .read = c.isPending .read) :
    ReadSpec c trace c' := by
  have hreads := h.readCompletions_eq
  constructor
  · rw [h.callbacks_eq, hreads]
    rfl
  · exact fun hidle => ⟨h, hpending.trans hidle⟩
  · rw [hreads]
    exact fun _ hmem => absurd hmem List.not_mem_nil
  · rw [hreads]
    exact List.Pairwise.nil
  · rintro before after rfl
    have hnone := (h (.callback none) (by simp)).1
    cases hnone

theorem callbacks_append (trace trace' : List (TraceEntry R)) :
    callbacks (trace ++ trace') = callbacks trace ++ callbacks trace' := List.filterMap_append

theorem readCompletions_append (trace trace' : List (TraceEntry R)) :
    readCompletions (trace ++ trace') = readCompletions trace ++ readCompletions trace' :=
  List.filterMap_append

theorem callbacks_callback (arg : Option R) (trace : List (TraceEntry R)) :
    callbacks (.callback arg :: trace) = arg :: callbacks trace := rfl

theorem callbacks_completed (event : Completion R) (trace : List (TraceEntry R)) :
    callbacks (.completed event :: trace) = callbacks trace := rfl

theorem readCompletions_callback (arg : Option R) (trace : List (TraceEntry R)) :
    readCompletions (.callback arg :: trace) = readCompletions trace := rfl

theorem readCompletions_read {event : Completion R} (hop : event.op = .read)
    (trace : List (TraceEntry R)) :
    readCompletions (.completed event :: trace) = event :: readCompletions trace := by
  simp [readCompletions, TraceEntry.readCompletion?, hop]

/-- The callback is handed no message only for a read that has failed. -/
theorem ReadSpec.idle_of_nullptr (h : ReadSpec c trace c') (hmem : .callback none ∈ trace) :
    c'.isPending .read = false := by
  have hcalled : none ∈ callbacks trace := List.mem_filterMap.mpr ⟨_, hmem, rfl⟩
  rw [h.called] at hcalled
  obtain ⟨event, hevent, harg⟩ := List.mem_map.mp hcalled
  apply h.failed event hevent
  by_contra hok
  rw [completionArg, if_pos (by simpa using hok)] at harg
  cases harg

theorem readSpec_trans {d : DuplexClient R} {trace' : List (TraceEntry R)}
    (h : ReadSpec c trace d) (h' : ReadSpec d trace' c') : ReadSpec c (trace ++ trace') c' := by
  constructor
  · rw [callbacks_append, readCompletions_append, List.map_append, h.called, h'.called]
  · intro hidle
    obtain ⟨hquiet, hd⟩ := h.quiet hidle
    obtain ⟨hquiet', hc'⟩ := h'.quiet hd
    exact ⟨quiet_append.mpr ⟨hquiet, hquiet'⟩, hc'⟩
  · intro event hmem hok
    rw [readCompletions_append, List.mem_append] at hmem
    rcases hmem with hmem | hmem
    · exact (h'.quiet (h.failed event hmem hok)).2
    · exact h'.failed event hmem hok
  · rw [readCompletions_append, List.pairwise_append]
    refine ⟨h.ordered, h'.ordered, ?_⟩
    intro event hmem later hlater
    by_contra hok
    -- a failed read leaves none that could complete later
    have hquiet := (h'.quiet (h.failed event hmem (by simpa using hok))).1
    rw [hquiet.readCompletions_eq] at hlater
    cases hlater
  · intro before after heq
    rcases List.append_eq_append_iff.mp heq with ⟨rest, -, hsecond⟩ | ⟨rest, hfirst, hsecond⟩
    · exact h'.last rest after hsecond
    · cases rest with
      | nil => exact h'.last [] after hsecond.symm
      | cons e rest =>
        rw [List.cons_append, List.cons.injEq] at hsecond
        obtain ⟨rfl, rfl⟩ := hsecond
        have hidle : d.isPending .read = false := h.idle_of_nullptr (by simp [hfirst])
        exact quiet_append.mpr ⟨h.last before rest hfirst, (h'.quiet hidle).1⟩

theorem split_after_silence {silence before after rest : List (TraceEntry R)} {arg : Option R}
    (h : callbacks silence = []) (heq : silence ++ rest = before ++ .callback arg :: after) :
    ∃ between, rest = between ++ .callback arg :: after := by
  rcases List.append_eq_append_iff.mp heq with ⟨between, -, hrest⟩ | ⟨between, hsilence, hrest⟩
  · exact ⟨between, hrest⟩
  · cases between with
    | nil => exact ⟨[], hrest.symm⟩
    | cons e between =>
      rw [List.cons_append, List.cons.injEq] at hrest
      have hnone := List.filterMap_eq_nil_iff.mp h e (by simp [hsilence])
      rw [← hrest.1] at hnone
      cases hnone

theorem callbackArg_marked {event : Completion R} (hop : event.op = .read) :
    (c.marked event).callbackArg event.ok = completionArg event := by
  unfold callbackArg completionArg
  rw [(readBuf_marked c event).1]
  cases hok : event.ok with
  | true => simp [deliver, hop, hok]
  | false => rfl

theorem seen_readNext (c : DuplexClient R) : callbacks (seen c c.readNext) = [] ∧
    readCompletions (seen c c.readNext) = [] ∧
    (c.closed = true → seen c c.readNext = [] ∧ c.readNext.isPending .read = c.isPending .read) := by
  refine ⟨?_, ?_, fun hclosed => ?_⟩
  · unfold callbacks seen
    rw [List.filterMap_map]
    exact List.filterMap_eq_nil_iff.mpr fun _ _ => rfl
  · unfold readCompletions seen
    rw [List.filterMap_map]
    exact List.filterMap_eq_nil_iff.mpr fun _ _ => rfl
  · rw [readNext_of_closed hclosed]
    exact ⟨seen_eq [] (List.append_nil _).symm, rfl⟩

theorem readSpec_read {d : DuplexClient R} {event : Completion R} (hc : Disciplined c)
    (hmem : event.op ∈ c.outstanding) (hop : event.op = .read)
    {during : List (TraceEntry R)} (hsteps : Steps (c.marked event) d)
    (h : ReadSpec (c.marked event) during d) :
    ReadSpec c
      (.completed event :: (seen c (c.marked event) ++
        .callback ((c.marked event).callbackArg event.ok) :: (during ++ seen d d.readNext)))
      d.readNext := by
  have hmarked : (c.marked event).isPending .read = false := by
    rw [isPending_read_marked, hop]
    rfl
  obtain ⟨hquiet, hidle⟩ := h.quiet hmarked
  obtain ⟨hnext, hnext', hclosed⟩ := seen_readNext d
  have hbefore := quiet_seen_marked c event
  have hfailed (hok : event.ok = false) :
      seen d d.readNext = [] ∧ d.readNext.isPending .read = false := by
    obtain ⟨hseen, hpending⟩ := hclosed (closed_steps hsteps (closed_marked hok))
    exact ⟨hseen, hpending.trans hidle⟩
  have hreads (arg : Option R) : readCompletions (.completed event ::
      (seen c (c.marked event) ++ .callback arg :: (during ++ seen d d.readNext))) = [event] := by
    rw [readCompletions_read hop, readCompletions_append, hbefore.readCompletions_eq,
      readCompletions_callback, readCompletions_append, hquiet.readCompletions_eq, hnext']
    rfl
  rw [callbackArg_marked hop]
  have hsilent : callbacks (during ++ seen d d.readNext) = [] := by
    rw [callbacks_append, hquiet.callbacks_eq, hnext]
    rfl
  constructor
  · rw [hreads]
    rw [callbacks_completed, callbacks_append, hbefore.callbacks_eq, callbacks_callback, hsilent]
    rfl
  · intro hpending
    have hbusy := (hc.of_mem hmem).2
    rw [hop, hpending] at hbusy
    cases hbusy
  · intro e he hok
    rw [hreads, List.mem_singleton] at he
    rw [he] at hok
    exact (hfailed hok).2
  · rw [hreads]
    exact List.pairwise_singleton _ _
  · intro before after heq
    have hsilence : callbacks (.completed event :: seen c (c.marked event)) = [] :=
      (callbacks_completed event _).trans hbefore.callbacks_eq
    obtain ⟨between, hbetween⟩ := split_after_silence hsilence heq
    cases between with
    | nil =>
      rw [List.nil_append, List.cons.injEq, TraceEntry.callback.injEq] at hbetween
      obtain ⟨hnone, rfl⟩ := hbetween
      have hok : event.ok = false := by
        by_contra hok
        rw [completionArg, if_pos (by simpa using hok)] at hnone
        cases hnone
      rw [(hfailed hok).1, List.append_nil]
      exact hquiet
    | cons e between =>
      rw [List.cons_append, List.cons.injEq] at hbetween
      have hmem : .callback none ∈ during ++ seen d d.readNext := by
        rw [hbetween.2]
        simp
      have hnone := List.filterMap_eq_nil_iff.mp hsilent _ hmem
      cases hnone

theorem readSpec_of_activity (h : Activity c trace c') (hc : Disciplined c) :
    ReadSpec c trace c' := by
  induction h with
  | refl c => exact readSpec_of_quiet quiet_nil rfl
  | trans h h' ih ih' =>
    exact readSpec_trans (ih hc) (ih' (disciplined_steps (steps_of_activity h) hc))
  | @async c idempotent op hread hshutdown =>
    exact readSpec_of_quiet (quiet_seen_doAsync c idempotent hread)
      (isPending_read_doAsync c idempotent hread)
  | @shutdown c => exact readSpec_of_quiet (quiet_seen_shutdown c) (isPending_read_shutdown c)
  | @drained c hdrained =>
    exact readSpec_of_quiet quiet_nil ((shutdownStep_done c).pending .read (by decide))
  | @event c event hmem hop =>
    obtain ⟨hhistory, hpending⟩ := processEvent_of_ne_read (c := c) hop
    have hseen : Quiet (seen c ((c.deliver event).processEvent event.op event.ok)) := by
      unfold seen
      rw [hhistory]
      exact quiet_seen_marked c event
    refine readSpec_of_quiet ?_ hpending
    intro e he
    rcases List.mem_cons.mp he with rfl | he
    · exact ⟨rfl, if_neg hop, by simp⟩
    · exact hseen e he
  | read event hmem hop hcallback ih =>
    have hmarked := disciplined_marked hc event hmem
    exact readSpec_read hc hmem hop (steps_of_activity hcallback) (ih hmarked)

/-- When only the last read may have failed, the callback gets the messages and then at most one
`nullptr`. -/
theorem map_completionArg {reads : List (Completion R)}
    (h : reads.Pairwise fun earlier _ => earlier.ok = true) :
    ∃ ending, reads.map completionArg =
        ((reads.filter Completion.ok).map Completion.message).map some ++ ending ∧
      (ending = [] ∨ ending = [none]) := by
  induction reads with
  | nil => exact ⟨[], rfl, Or.inl rfl⟩
  | cons event rest ih =>
    rw [List.pairwise_cons] at h
    obtain ⟨ending, heq, hending⟩ := ih h.2
    cases hok : event.ok with
    | true =>
      refine ⟨ending, ?_, hending⟩
      rw [List.map_cons, heq, List.filter_cons_of_pos hok, completionArg, if_pos hok]
      rfl
    | false =>
      have hrest : rest = [] := by
        cases rest with
        | nil => rfl
        | cons later _ =>
          have hcontra := h.1 later List.mem_cons_self
          rw [hok] at hcontra
          cases hcontra
      subst hrest
      refine ⟨[none], ?_, Or.inr rfl⟩
      simp [completionArg, hok]

end DuplexClient

end AcsNext.Collector
