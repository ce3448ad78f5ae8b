import AcsNext.Collector.SignalStream

/-! How the client of a signal stream stops, what holds in every interleaving of its two threads,
and the notifications that can get lost between them. -/
namespace AcsNext.Collector
open AcsNext.Data

namespace SignalClient

variable {M : Type*}

def joined (c : SignalClient M) : Bool :=
  match c.push with
  | .cancelling => true
  | .stopped => true
  | .faulted _ => true
  | _ => false

structure StopState (c : SignalClient M) : Prop where
  ended : c.joined = true → c.establish = .terminated
  context : (c.push = .stopped → c.hasContext = false ∧ 0 < c.streams) ∧
    (c.push ≠ .stopped → (c.hasContext = true ↔ 0 < c.streams))
  fault : ∀ fault, c.push = .faulted fault → fault = .nullContext ∧ c.streams = 0

theorem stopState_start : (start : SignalClient M).StopState := by
  constructor <;> simp [start, joined]

/-- A step that keeps what `Stop` looks at. -/
private theorem StopState.frame {c c' : SignalClient M} (h : c.StopState)
    (hpush : c'.push = c.push) (hestablish : c.joined = true → c'.establish = .terminated)
    (hcontext : c'.hasContext = c.hasContext) (hstreams : c'.streams = c.streams) :
    c'.StopState := by
  have hjoined : c'.joined = c.joined := by simp [joined, hpush]
  constructor
  · rw [hjoined]
    exact hestablish
  · rw [hpush, hcontext, hstreams]
    exact h.context
  · rw [hpush, hstreams]
    exact h.fault

theorem StopState.notify {c : SignalClient M} (h : c.StopState) : c.notify.StopState := by
  apply h.frame (push_notify c) _ (hasContext_notify c) (streams_notify c)
  intro hjoined
  unfold SignalClient.notify
  rw [h.ended hjoined]
  simpa using h.ended hjoined

theorem StopState.establishStep {c : SignalClient M} (h : c.StopState) (ready started : Bool) :
    (c.establishStep ready started).StopState := by
  have hquiet : c.establish ≠ .creating →
      (c.establishStep ready started).hasContext = c.hasContext ∧
        (c.establishStep ready started).streams = c.streams := by
    intro hpc
    unfold SignalClient.establishStep
    split
    case h_5 => contradiction
    all_goals (try split_ifs) <;> exact ⟨rfl, rfl⟩
  have hended : c.joined = true → (c.establishStep ready started).establish = .terminated := by
    intro hjoined
    unfold SignalClient.establishStep
    rw [h.ended hjoined]
    exact h.ended hjoined
  by_cases hpc : c.establish = .creating
  · have hnot : c.joined = false := by
      by_contra hjoined
      simp [h.ended (by simpa using hjoined)] at hpc
    have hstep : c.establishStep ready started =
        { c with
          hasContext := true
          writer := some c.streams
          streams := c.streams + 1
          establish := .starting } := by
      simp [SignalClient.establishStep, hpc]
    rw [hstep]
    constructor
    · intro hjoined
      exact absurd (hnot.symm.trans hjoined) (by simp)
    · refine ⟨fun hstopped => ?_, by simp⟩
      have hstopped : c.push = .stopped := hstopped
      simp [joined, hstopped] at hnot
    · intro fault hfault
      have hfault : c.push = .faulted fault := hfault
      simp [joined, hfault] at hnot
  · obtain ⟨hcontext, hstreams⟩ := hquiet hpc
    exact h.frame (push_establishStep c ready started) hended hcontext hstreams

/-- A step of the other thread before it has joined. -/
private theorem StopState.running {c c' : SignalClient M} (h : c.StopState)
    (hold : c.joined = false) (hnew : c'.joined = false) (hcontext : c'.hasContext = c.hasContext)
    (hstreams : c'.streams = c.streams) : c'.StopState := by
  have hne : c'.push ≠ .stopped := by
    intro hstopped
    simp [joined, hstopped] at hnew
  have hne' : c.push ≠ .stopped := by
    intro hstopped
    simp [joined, hstopped] at hold
  constructor
  · intro hjoined
    exact absurd (hnew.symm.trans hjoined) (by simp)
  · refine ⟨fun hstopped => absurd hstopped hne, fun _ => ?_⟩
    rw [hcontext, hstreams]
    exact h.context.2 hne'
  · intro fault hfault
    simp [joined, hfault] at hnew

theorem StopState.pushStep {c : SignalClient M} (h : c.StopState) (hphase : c.Phase)
    (written : Bool) : (c.pushStep written).StopState := by
  unfold SignalClient.pushStep
  cases hpc : c.push with
  | idle => exact h
  | loading msg =>
    dsimp only
    split_ifs <;> exact h.running (by simp [joined, hpc]) rfl rfl rfl
  | checkingFirst msg =>
    obtain ⟨-, -, hdeactivating | ⟨stream, first, -, -, hfirst, -⟩⟩ :=
      hphase.of_pushing (by simp [pushing, hpc])
    · simp [hpc] at hdeactivating
    · rw [hfirst]
      cases first <;> exact h.running (by simp [joined, hpc]) rfl rfl rfl
  | writing msg =>
    obtain ⟨-, -, hdeactivating | ⟨stream, first, hwriter, -⟩⟩ :=
      hphase.of_pushing (by simp [pushing, hpc])
    · simp [hpc] at hdeactivating
    · rw [hwriter]
      dsimp only
      split_ifs <;> exact h.running (by simp [joined, hpc]) rfl rfl rfl
  | resetting =>
    obtain ⟨-, -, hdeactivating | ⟨stream, first, hwriter, -⟩⟩ :=
      hphase.of_pushing (by simp [pushing, hpc])
    · simp [hpc] at hdeactivating
    · rw [hwriter]
      exact h.running (by simp [joined, hpc]) rfl rfl rfl
  | deactivating => exact h.running (by simp [joined, hpc]) rfl rfl rfl
  | notifying =>
    have hmoved : ({ c with push := .idle } : SignalClient M).StopState :=
      h.running (by simp [joined, hpc]) rfl rfl rfl
    exact hmoved.notify
  | stopNotifying =>
    have hmoved : ({ c with push := .stopFlagging } : SignalClient M).StopState :=
      h.running (by simp [joined, hpc]) rfl rfl rfl
    exact hmoved.notify
  | stopFlagging => exact h.running (by simp [joined, hpc]) rfl rfl rfl
  | joining =>
    dsimp only
    split_ifs with hterminated
    · have hcontext := h.context.2 (by simp [hpc])
      exact ⟨fun _ => hterminated, ⟨by simp, fun _ => hcontext⟩, by simp⟩
    · exact h
  | cancelling =>
    have hterminated := h.ended (by simp [joined, hpc])
    have hcontext := h.context.2 (by simp [hpc])
    dsimp only
    split_ifs with hhas
    · exact ⟨fun _ => hterminated, ⟨fun _ => ⟨rfl, hcontext.mp hhas⟩, by simp⟩, by simp⟩
    · refine ⟨fun _ => hterminated, ⟨by simp, fun _ => hcontext⟩, ?_⟩
      intro fault hfault
      refine ⟨by simpa using hfault.symm, ?_⟩
      simpa [hhas] using hcontext
  | stopped => exact h
  | faulted fault => exact h

theorem StopState.step {c : SignalClient M} (h : c.StopState) (hphase : c.Phase)
    (act : ClientAction M) : (c.step act).StopState := by
  cases act with
  | establish ready started => exact h.establishStep ready started
  | push written => exact h.pushStep hphase written
  | call msg =>
    simp only [SignalClient.step]
    split_ifs with hidle
    · exact h.running (by simp [joined, push_of_isIdle hidle]) rfl rfl rfl
    · exact h
  | stop =>
    simp only [SignalClient.step]
    split_ifs with hidle
    · exact h.running (by simp [joined, push_of_isIdle hidle]) rfl rfl rfl
    · exact h
  | spuriousWakeup => exact h.notify

theorem stopState_run (acts : List (ClientAction M)) : (acts.foldl step start).StopState := by
  induction acts using List.reverseRecOn with
  | nil => exact stopState_start
  | append_singleton acts act ih =>
    rw [List.foldl_append]
    exact ih.step (safe_run acts).phase act

/-- However the threads interleave, they never use the stream at once, a push neither meets a
null writer nor reads `first_write_` before it is set, and on every stream the request for a
refresh comes first and comes once. -/
theorem run_exclusive (acts : List (ClientAction M)) :
    let c := acts.foldl step (start : SignalClient M)
    ¬ (c.establishing = true ∧ c.pushing = true) ∧
      (∀ fault, c.push = .faulted fault → fault = .nullContext) ∧
      EveryElement (fun before a => PushAnswer.InOrder before a) c.answers := by
  intro c
  have hsafe := safe_run (M := M) acts
  refine ⟨fun ⟨hestablish, hpush⟩ => ?_, fun fault hfault => ?_, hsafe.orderly⟩
  · have hnot := (hsafe.phase.inactive hestablish).2.1
    exact absurd (hpush.symm.trans hnot) (by simp)
  · exact ((stopState_run acts).fault fault hfault).1

/-- The stream's writer outlives the context that its destructor cancels. -/
def danglingContext (c : SignalClient M) : Bool := c.writer.isSome && !c.hasContext

/-- Once `Stop` has joined the establishing thread, it uses a null context exactly if no stream
was ever created. If it gets through, then the writer is left with a context that is gone exactly
if the stream is still active. -/
theorem run_stop_outcome (acts : List (ClientAction M)) (written : Bool) :
    let c := acts.foldl step (start : SignalClient M)
    (c.push = .cancelling →
      ((c.pushStep written).push = .faulted .nullContext ↔ c.streams = 0) ∧
      ((c.pushStep written).push = .stopped ↔ 0 < c.streams)) ∧
    (c.push = .stopped → c.danglingContext = c.streamActive) := by
  intro c
  have hstop : c.StopState := stopState_run acts
  have hphase : c.Phase := (safe_run acts).phase
  constructor
  · intro hpc
    have hcontext : c.hasContext = true ↔ 0 < c.streams := hstop.context.2 (by simp [hpc])
    cases hhas : c.hasContext with
    | true =>
      have hpos : 0 < c.streams := hcontext.mp hhas
      simp [SignalClient.pushStep, hpc, hhas, hpos, hpos.ne']
    | false =>
      have hzero : c.streams = 0 := by
        rw [hhas] at hcontext
        simpa using hcontext
      simp [SignalClient.pushStep, hpc, hhas, hzero]
  · intro hpc
    have hcontext : c.hasContext = false := (hstop.context.1 hpc).1
    have hterminated : c.establish = .terminated := hstop.ended (by simp [joined, hpc])
    rw [danglingContext, hcontext, Bool.not_false, Bool.and_true]
    cases hphase with
    | closed hactive hwriter => simp [hactive, hwriter]
    | prepared _ _ _ _ hpreparing => simp [preparing, hterminated] at hpreparing
    | opened _ _ hactive hwriter => simp [hactive, hwriter]
    | closing _ _ _ hdeactivating => simp [hpc] at hdeactivating

/-- The establishing thread sleeps although the stream is gone, and nobody is about to wake
it. -/
def lostFailure (c : SignalClient M) : Bool :=
  c.establish == .blocked && !c.streamActive &&
    match c.push with
    | .idle => true
    | .loading _ => true
    | _ => false

/-- The establishing thread sleeps although `Stop` has sent its notification. -/
def lostStop (c : SignalClient M) : Bool :=
  c.establish == .blocked &&
    match c.push with
    | .stopFlagging => true
    | .joining => true
    | _ => false

end SignalClient

/-- Neither a wake-up for no reason nor the end of the client. -/
def ClientAction.ordinary {M : Type*} : ClientAction M → Bool
  | .spuriousWakeup => false
  | .stop => false
  | _ => true

namespace SignalClient

variable {M : Type*}

theorem lostFailure_iff {c : SignalClient M} : c.lostFailure = true ↔
    c.establish = .blocked ∧ c.streamActive = false ∧
      (c.push = .idle ∨ ∃ msg, c.push = .loading msg) := by
  unfold lostFailure
  cases hpc : c.push <;> simp

theorem lostStop_iff {c : SignalClient M} : c.lostStop = true ↔
    c.establish = .blocked ∧ (c.push = .stopFlagging ∨ c.push = .joining) := by
  unfold lostStop
  cases hpc : c.push <;> simp

theorem lostFailure_step {c : SignalClient M} (h : c.lostFailure = true) {act : ClientAction M}
    (hact : act.ordinary = true) :
    (c.step act).lostFailure = true ∧ (c.step act).streams = c.streams ∧
      ∃ k, (c.step act).answers = c.answers ++ List.replicate k .notEstablished := by
  have hsame : ∃ k, c.answers = c.answers ++ List.replicate k .notEstablished := ⟨0, by simp⟩
  obtain ⟨hblocked, hinactive, hpush⟩ := lostFailure_iff.mp h
  cases act with
  | establish ready started =>
    have hstep : c.step (.establish ready started) = c := by simp [step, establishStep, hblocked]
    rw [hstep]
    exact ⟨h, rfl, hsame⟩
  | push written =>
    rcases hpush with hpc | ⟨msg, hpc⟩
    · have hstep : c.step (.push written) = c := by simp [step, pushStep, hpc]
      rw [hstep]
      exact ⟨h, rfl, hsame⟩
    · have hstep : c.step (.push written) = c.answer .notEstablished := by
        simp [step, pushStep, hpc, hinactive]
      rw [hstep]
      exact ⟨lostFailure_iff.mpr ⟨hblocked, hinactive, Or.inl rfl⟩, rfl, 1, rfl⟩
  | call msg =>
    simp only [step]
    split_ifs
    · exact ⟨lostFailure_iff.mpr ⟨hblocked, hinactive, Or.inr ⟨msg, rfl⟩⟩, rfl, hsame⟩
    · exact ⟨h, rfl, hsame⟩
  | stop => simp [ClientAction.ordinary] at hact
  | spuriousWakeup => simp [ClientAction.ordinary] at hact

theorem lostStop_step {c : SignalClient M} (h : c.lostStop = true) {act : ClientAction M}
    (hact : act ≠ .spuriousWakeup) : (c.step act).lostStop = true := by
  obtain ⟨hblocked, hpush⟩ := lostStop_iff.mp h
  have hbusy : c.push.isIdle = false := by
    rcases hpush with hpc | hpc <;> rw [hpc] <;> rfl
  cases act with
  | establish ready started =>
    have hstep : c.step (.establish ready started) = c := by simp [step, establishStep, hblocked]
    rwa [hstep]
  | push written =>
    rcases hpush with hpc | hpc
    · apply lostStop_iff.mpr
      simp [step, pushStep, hpc, hblocked]
    · have hstep : c.step (.push written) = c := by simp [step, pushStep, hpc, hblocked]
      rwa [hstep]
  | call msg =>
    have hstep : c.step (.call msg) = c := by simp [step, hbusy]
    rwa [hstep]
  | stop =>
    have hstep : c.step .stop = c := by simp [step, hbusy]
    rwa [hstep]
  | spuriousWakeup => exact absurd rfl hact

theorem establish_notify (c : SignalClient M) : c.notify.establish ≠ .blocked := by
  unfold notify
  split_ifs with hblocked
  · simp
  · exact hblocked

theorem streamActive_pushStep {c : SignalClient M} (h : c.push ≠ .deactivating) (written : Bool) :
    (c.pushStep written).streamActive = c.streamActive := by
  unfold pushStep
  split
  case h_3 => split <;> rfl
  case h_4 =>
    split
    · rfl
    · split_ifs <;> rfl
  case h_5 => split <;> rfl
  case h_6 => contradiction
  case h_7 => exact streamActive_notify _
  case h_8 => exact streamActive_notify _
  all_goals (try split_ifs) <;> rfl

theorem establish_pushStep {c : SignalClient M} {written : Bool}
    (h : (c.pushStep written).establish = .blocked) : c.establish = .blocked := by
  unfold pushStep at h
  split at h
  case h_3 => split at h <;> exact h
  case h_4 =>
    split at h
    · exact h
    · split_ifs at h <;> exact h
  case h_5 => split at h <;> exact h
  case h_7 => exact absurd h (establish_notify _)
  case h_8 => exact absurd h (establish_notify _)
  all_goals (try split_ifs at h) <;> exact h

/-- A push leads to no lost failure that was not there before. -/
private theorem lostFailure_of_pushStep {c : SignalClient M} (hphase : c.Phase) {written : Bool}
    (h : (c.pushStep written).lostFailure = true) : c.lostFailure = true := by
  obtain ⟨hafter, hinactive, hpush⟩ := lostFailure_iff.mp h
  have hblocked : c.establish = .blocked := establish_pushStep hafter
  have hdeactivating : c.push ≠ .deactivating := by
    intro hpc
    simp [pushStep, hpc] at hpush
  rw [streamActive_pushStep hdeactivating] at hinactive
  have hnot : c.pushing = false := by
    by_contra hp
    have hactive := (hphase.of_pushing (by simpa using hp)).1
    exact absurd (hinactive.symm.trans hactive) (by simp)
  apply lostFailure_iff.mpr
  refine ⟨hblocked, hinactive, ?_⟩
  cases hpc : c.push with
  | idle => exact Or.inl rfl
  | loading msg => exact Or.inr ⟨msg, rfl⟩
  | checkingFirst msg => simp [pushing, hpc] at hnot
  | writing msg => simp [pushing, hpc] at hnot
  | resetting => simp [pushing, hpc] at hnot
  | deactivating => exact absurd hpc hdeactivating
  | notifying =>
    simp only [pushStep, hpc] at hafter
    exact absurd hafter (establish_notify _)
  | stopNotifying => simp [pushStep, hpc] at hpush
  | stopFlagging => simp [pushStep, hpc] at hpush
  | joining =>
    simp only [pushStep, hpc] at hpush
    split_ifs at hpush <;> simp [hpc] at hpush
  | cancelling =>
    simp only [pushStep, hpc] at hpush
    split_ifs at hpush <;> simp at hpush
  | stopped => simp [pushStep, hpc] at hpush
  | faulted fault => simp [pushStep, hpc] at hpush

/-- A failure gets lost only if it falls between the evaluation of the predicate and the wait. -/
theorem lostFailure_of_step {c : SignalClient M} (hphase : c.Phase) {act : ClientAction M}
    (h : (c.step act).lostFailure = true) :
    c.lostFailure = true ∨ (c.establish = .blocking ∧ c.streamActive = false) := by
  obtain ⟨hblocked, hinactive, hpush⟩ := lostFailure_iff.mp h
  cases act with
  | establish ready started =>
    simp only [step] at h hblocked hinactive
    unfold establishStep at h hblocked hinactive
    cases hpc : c.establish with
    | blocking => exact Or.inr ⟨rfl, by simpa [hpc] using hinactive⟩
    | blocked => exact Or.inl (by simpa [hpc] using h)
    | checking =>
      simp only [hpc] at hblocked
      split_ifs at hblocked
    | connecting =>
      simp only [hpc] at hblocked
      split_ifs at hblocked
      simp [hpc] at hblocked
    | starting =>
      simp only [hpc] at hblocked
      split_ifs at hblocked
    | creating => simp [hpc] at hblocked
    | marking => simp [hpc] at hblocked
    | activating => simp [hpc] at hblocked
    | terminated => simp [hpc] at hblocked
  | push written => exact Or.inl (lostFailure_of_pushStep hphase h)
  | call msg =>
    left
    simp only [step] at hblocked hinactive hpush
    split_ifs at hblocked hinactive hpush with hidle
    · exact lostFailure_iff.mpr ⟨hblocked, hinactive, Or.inl (push_of_isIdle hidle)⟩
    · exact lostFailure_iff.mpr ⟨hblocked, hinactive, hpush⟩
  | stop =>
    left
    simp only [step] at hblocked hinactive hpush
    split_ifs at hblocked hinactive hpush with hidle
    · simp at hpush
    · exact lostFailure_iff.mpr ⟨hblocked, hinactive, hpush⟩
  | spuriousWakeup => exact absurd hblocked (establish_notify c)

private theorem lostFailure_foldl {c : SignalClient M} (h : c.lostFailure = true)
    {acts : List (ClientAction M)} (hacts : acts.all ClientAction.ordinary = true) :
    (acts.foldl step c).streams = c.streams ∧
      ∃ k, (acts.foldl step c).answers = c.answers ++ List.replicate k .notEstablished := by
  induction acts generalizing c with
  | nil => exact ⟨rfl, 0, by simp⟩
  | cons act acts ih =>
    obtain ⟨hact, hacts⟩ : act.ordinary = true ∧ acts.all ClientAction.ordinary = true := by
      simpa using hacts
    obtain ⟨hlost, hstreams, k, hanswers⟩ := lostFailure_step h hact
    obtain ⟨hstreams', k', hanswers'⟩ := ih hlost hacts
    refine ⟨hstreams'.trans hstreams, k + k', ?_⟩
    rw [List.foldl_cons, hanswers', hanswers, List.append_assoc, List.replicate_append_replicate]

private theorem lostStop_foldl {c : SignalClient M} (h : c.lostStop = true)
    {acts : List (ClientAction M)} (hacts : .spuriousWakeup ∉ acts) :
    (acts.foldl step c).lostStop = true := by
  induction acts generalizing c with
  | nil => exact h
  | cons act acts ih =>
    rw [List.foldl_cons]
    apply ih
    · exact lostStop_step h fun hact => hacts (by simp [hact])
    · exact fun hmem => hacts (by simp [hmem])

/-- If the failure of a stream is reported while the establishing thread is about to wait, then
no stream is created any more and every push is refused, until the client is stopped or woken up
for no reason; this is the only way to such a state. If the thread looks at the flag between the
notification of `Stop` and the flag itself, then `Stop` never returns. -/
theorem run_lost_notification (before after : List (ClientAction M)) :
    let c := before.foldl step (start : SignalClient M)
    let c' := after.foldl step c
    (c.lostFailure = true → after.all ClientAction.ordinary = true →
      c'.streams = c.streams ∧
        ∃ k, c'.answers = c.answers ++ List.replicate k .notEstablished) ∧
    (∀ act, (c.step act).lostFailure = true →
      c.lostFailure = true ∨ (c.establish = .blocking ∧ c.streamActive = false)) ∧
    (c.lostStop = true → .spuriousWakeup ∉ after →
      c'.push = .stopFlagging ∨ c'.push = .joining) := by
  intro c c'
  refine ⟨?_, ?_, ?_⟩
  · intro hlost hafter
    exact lostFailure_foldl hlost hafter
  · intro act
    exact lostFailure_of_step (safe_run before).phase
  · intro hlost hafter
    exact (lostStop_iff.mp (lostStop_foldl hlost hafter)).2

/-- A stream is established and asked for a refresh. -/
def establishedRun : List (ClientAction ℕ) :=
  List.replicate 7 (.establish true true) ++ [.call 0, .push true, .push true]

/-- The write fails while the establishing thread is about to wait. -/
def failureRun : List (ClientAction ℕ) :=
  establishedRun ++ .call 1 :: List.replicate 6 (.push false) ++ [.establish true true]

/-- The establishing thread looks at the flag before `Stop` has set it. -/
def stopRun : List (ClientAction ℕ) :=
  establishedRun ++ [.establish true true, .stop, .push true] ++
    List.replicate 2 (.establish true true)

/-- Two pushes and a step of the establishing thread. -/
def laterRun : List (ClientAction ℕ) :=
  [.call 2, .push true, .call 3, .push true, .establish true true]

theorem run_lost_notification_reached :
    (failureRun.foldl step start).answers = [.needsRefresh 0, .failed 0 1] ∧
      (∃ k, (laterRun.foldl step (failureRun.foldl step start)).answers =
        (failureRun.foldl step start).answers ++ List.replicate k .notEstablished) ∧
      ((laterRun.foldl step (stopRun.foldl step start)).push = .stopFlagging ∨
        (laterRun.foldl step (stopRun.foldl step start)).push = .joining) := by
  have hfailure := (run_lost_notification failureRun laterRun).1 (by decide) (by decide)
  have hstop := (run_lost_notification stopRun laterRun).2.2 (by decide) (by decide)
  exact ⟨by decide, hfailure.2, hstop⟩

end SignalClient

end AcsNext.Collector
