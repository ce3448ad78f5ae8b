import AcsNext.Data.Runs

/-! The client that pushes signals over a stream: one thread establishes streams, another one
pushes signals and finally stops the client. Their steps interleave in any way. -/
namespace AcsNext.Collector
open AcsNext.Data

/-- Where the thread of `EstablishGRPCStream` stands. It is `blocking` between the evaluation of
the predicate and the wait itself. -/
inductive EstablishPc where
  | checking
  | blocking
  | blocked
  | connecting
  | creating
  | starting
  | marking
  | activating
  | terminated
deriving DecidableEq, Repr

inductive StreamFault where
  | uninitialisedFirstWrite
  | nullWriter
  | nullContext
deriving DecidableEq, Repr

/-- Where the other thread stands, in `PushSignals` or in `Stop`. -/
inductive PushPc (M : Type*) where
  | idle
  | loading (msg : M)
  | checkingFirst (msg : M)
  | writing (msg : M)
  | resetting
  | deactivating
  | notifying
  | stopNotifying
  | stopFlagging
  | joining
  | cancelling
  | stopped
  | faulted (fault : StreamFault)
deriving DecidableEq

def PushPc.isIdle {M : Type*} : PushPc M → Bool
  | .idle => true
  | _ => false

/-- The answers of `PushSignals`, with the number of the stream in use. -/
inductive PushAnswer (M : Type*) where
  | notEstablished
  | needsRefresh (stream : ℕ)
  | processed (stream : ℕ) (msg : M)
  | failed (stream : ℕ) (msg : M)
deriving DecidableEq

def PushAnswer.stream? {M : Type*} : PushAnswer M → Option ℕ
  | .notEstablished => none
  | .needsRefresh stream => some stream
  | .processed stream _ => some stream
  | .failed stream _ => some stream

/-- `firstWrite` has no value before the first stream. `writer` is the number of the stream that
it writes to, `streams` the number of streams that were created. -/
structure SignalClient (M : Type*) where
  streamActive : Bool
  firstWrite : Option Bool
  hasContext : Bool
  writer : Option ℕ
  shouldStop : Bool
  establish : EstablishPc
  push : PushPc M
  streams : ℕ
  answers : List (PushAnswer M)

/-- One step of one of the threads. `establish` carries whether the channel is ready and whether
the stream started, `push` whether the write succeeds. -/
inductive ClientAction (M : Type*) where
  | establish (ready started : Bool)
  | push (written : Bool)
  | call (msg : M)
  | stop
  | spuriousWakeup
deriving DecidableEq

namespace SignalClient

variable {M : Type*}

def start : SignalClient M := ⟨false, none, false, none, false, .checking, .idle, 0, []⟩

/-- The establishing thread evaluates its predicate again. -/
def notify (c : SignalClient M) : SignalClient M :=
  if c.establish = .blocked then { c with establish := .checking } else c

def establishStep (c : SignalClient M) (ready started : Bool) : SignalClient M :=
  match c.establish with
  | .checking =>
    if c.shouldStop then { c with establish := .terminated }
    else if c.streamActive then { c with establish := .blocking }
    else { c with establish := .connecting }
  | .blocking => { c with establish := .blocked }
  | .blocked => c
  | .connecting =>
    if c.shouldStop then { c with establish := .terminated }
    else if ready then { c with establish := .creating }
    else c
  | .creating =>
    { c with
      hasContext := true
      writer := some c.streams
      streams := c.streams + 1
      establish := .starting }
  | .starting =>
    if started then { c with establish := .marking }
    else { c with writer := none, establish := .checking }
  | .marking => { c with firstWrite := some true, establish := .activating }
  | .activating => { c with streamActive := true, establish := .checking }
  | .terminated => c

def answer (c : SignalClient M) (a : PushAnswer M) : SignalClient M :=
  { c with push := .idle, answers := c.answers ++ [a] }

def pushStep (c : SignalClient M) (written : Bool) : SignalClient M :=
  match c.push with
  | .idle => c
  | .loading msg =>
    if c.streamActive then { c with push := .checkingFirst msg } else c.answer .notEstablished
  | .checkingFirst msg =>
    match c.firstWrite with
    | none => { c with push := .faulted .uninitialisedFirstWrite }
    | some true => { c with firstWrite := some false }.answer (.needsRefresh (c.streams - 1))
    | some false => { c with push := .writing msg }
  | .writing msg =>
    match c.writer with
    | none => { c with push := .faulted .nullWriter }
    | some stream =>
      if written then c.answer (.processed stream msg)
      else { c with push := .resetting, answers := c.answers ++ [.failed stream msg] }
  | .resetting =>
    match c.writer with
    | none => { c with push := .faulted .nullWriter }
    | some _ => { c with writer := none, push := .deactivating }
  | .deactivating => { c with streamActive := false, push := .notifying }
  | .notifying => { c with push := .idle }.notify
  | .stopNotifying => { c with push := .stopFlagging }.notify
  | .stopFlagging => { c with shouldStop := true, push := .joining }
  | .joining => if c.establish = .terminated then { c with push := .cancelling } else c
  | .cancelling =>
    if c.hasContext then { c with hasContext := false, push := .stopped }
    else { c with push := .faulted .nullContext }
  | .stopped => c
  | .faulted _ => c

def step (c : SignalClient M) : ClientAction M → SignalClient M
  | .establish ready started => c.establishStep ready started
  | .push written => c.pushStep written
  | .call msg => if c.push.isIdle then { c with push := .loading msg } else c
  | .stop => if c.push.isIdle then { c with push := .stopNotifying } else c
  | .spuriousWakeup => c.notify

@[simp] theorem answers_notify (c : SignalClient M) : c.notify.answers = c.answers := by
  unfold notify
  split_ifs <;> rfl

@[simp] theorem streams_notify (c : SignalClient M) : c.notify.streams = c.streams := by
  unfold notify
  split_ifs <;> rfl

@[simp] theorem push_notify (c : SignalClient M) : c.notify.push = c.push := by
  unfold notify
  split_ifs <;> rfl

@[simp] theorem streamActive_notify (c : SignalClient M) :
    c.notify.streamActive = c.streamActive := by
  unfold notify
  split_ifs <;> rfl

@[simp] theorem hasContext_notify (c : SignalClient M) : c.notify.hasContext = c.hasContext := by
  unfold notify
  split_ifs <;> rfl

theorem answers_establishStep (c : SignalClient M) (ready started : Bool) :
    (c.establishStep ready started).answers = c.answers := by
  unfold establishStep
  split <;> (try split_ifs) <;> rfl

theorem push_establishStep (c : SignalClient M) (ready started : Bool) :
    (c.establishStep ready started).push = c.push := by
  unfold establishStep
  split <;> (try split_ifs) <;> rfl

theorem streams_le_establishStep (c : SignalClient M) (ready started : Bool) :
    c.streams ≤ (c.establishStep ready started).streams := by
  unfold establishStep
  split <;> (try split_ifs) <;> simp

theorem streams_pushStep (c : SignalClient M) (written : Bool) :
    (c.pushStep written).streams = c.streams := by
  unfold pushStep
  split
  case h_3 => split <;> rfl
  case h_4 =>
    split
    · rfl
    · split_ifs <;> rfl
  case h_5 => split <;> rfl
  all_goals (try split_ifs) <;> simp [answer]

/-- The establishing thread has seen that there is no stream, and works on one. -/
def establishing (c : SignalClient M) : Bool :=
  match c.establish with
  | .connecting => true
  | .creating => true
  | .starting => true
  | .marking => true
  | .activating => true
  | _ => false

/-- The establishing thread has created a stream that is not active yet. -/
def preparing (c : SignalClient M) : Bool :=
  match c.establish with
  | .starting => true
  | .marking => true
  | .activating => true
  | _ => false

/-- The other thread has seen that the stream is active, and uses it. -/
def pushing (c : SignalClient M) : Bool :=
  match c.push with
  | .checkingFirst _ => true
  | .writing _ => true
  | .resetting => true
  | .deactivating => true
  | _ => false

/-- The other thread is past the check of `first_write_`. -/
def pastFirst (c : SignalClient M) : Bool :=
  match c.push with
  | .writing _ => true
  | .resetting => true
  | _ => false

def Unused (c : SignalClient M) (stream : ℕ) : Prop :=
  ∀ a ∈ c.answers, a.stream? ≠ some stream

/-- There is no stream, one is being prepared, one is open, or one is being closed. -/
inductive Phase (c : SignalClient M) : Prop where
  | closed (hactive : c.streamActive = false) (hwriter : c.writer = none)
      (hestablish : c.preparing = false) (hpush : c.pushing = false)
  | prepared (stream : ℕ) (hactive : c.streamActive = false) (hwriter : c.writer = some stream)
      (hstreams : stream + 1 = c.streams) (hestablish : c.preparing = true)
      (hpush : c.pushing = false) (hmarked : c.establish = .activating → c.firstWrite = some true)
      (hunused : c.Unused stream)
  | opened (stream : ℕ) (first : Bool) (hactive : c.streamActive = true)
      (hwriter : c.writer = some stream) (hstreams : stream + 1 = c.streams)
      (hfirst : c.firstWrite = some first) (hestablish : c.establishing = false)
      (hpush : c.push ≠ .deactivating) (hpast : c.pastFirst = true → first = false)
      (hanswers : if first then c.Unused stream else .needsRefresh stream ∈ c.answers)
  | closing (hactive : c.streamActive = true) (hwriter : c.writer = none)
      (hestablish : c.establishing = false) (hpush : c.push = .deactivating)

theorem phase_start : (start : SignalClient M).Phase :=
  .closed rfl rfl rfl rfl

theorem preparing_of_establishing {c : SignalClient M} (h : c.establishing = false) :
    c.preparing = false := by
  unfold establishing at h
  unfold preparing
  cases hpc : c.establish <;> simp [hpc] at h ⊢

theorem pastFirst_of_pushing {c : SignalClient M} (h : c.pushing = false) :
    c.pastFirst = false := by
  unfold pushing at h
  unfold pastFirst
  cases hpc : c.push <;> simp [hpc] at h ⊢

/-- A step of the establishing thread that only moves it on. -/
private theorem Phase.move {c : SignalClient M} (h : c.Phase) {pc : EstablishPc}
    (hpreparing : ({ c with establish := pc } : SignalClient M).preparing = c.preparing)
    (hestablishing : c.streamActive = true →
      ({ c with establish := pc } : SignalClient M).establishing = false)
    (hactivating : pc = .activating → c.firstWrite = some true) :
    ({ c with establish := pc } : SignalClient M).Phase := by
  cases h with
  | closed hactive hwriter hestablish hpush =>
    exact .closed hactive hwriter (hpreparing.trans hestablish) hpush
  | prepared stream hactive hwriter hstreams hestablish hpush hmarked hunused =>
    exact .prepared stream hactive hwriter hstreams (hpreparing.trans hestablish) hpush
      hactivating hunused
  | opened stream first hactive hwriter hstreams hfirst hestablish hpush hpast hanswers =>
    exact .opened stream first hactive hwriter hstreams hfirst (hestablishing hactive) hpush hpast
      hanswers
  | closing hactive hwriter hestablish hpush =>
    exact .closing hactive hwriter (hestablishing hactive) hpush

theorem Phase.notify {c : SignalClient M} (h : c.Phase) : c.notify.Phase := by
  unfold SignalClient.notify
  split_ifs with hblocked
  · apply h.move
    · simp [preparing, hblocked]
    · intro _
      rfl
    · simp
  · exact h

/-- The answers mention streams that were created. -/
def Bounded (c : SignalClient M) : Prop :=
  ∀ a ∈ c.answers, ∀ stream, a.stream? = some stream → stream < c.streams

theorem Phase.inactive {c : SignalClient M} (h : c.Phase) (hestablish : c.establishing = true) :
    c.streamActive = false ∧ c.pushing = false ∧
      (c.preparing = false → c.writer = none) := by
  cases h with
  | closed hactive hwriter _ hpush => exact ⟨hactive, hpush, fun _ => hwriter⟩
  | prepared stream hactive hwriter _ hpreparing hpush =>
    refine ⟨hactive, hpush, fun hnot => ?_⟩
    simp [hpreparing] at hnot
  | opened _ _ _ _ _ _ hnot => simp [hestablish] at hnot
  | closing _ _ hnot => simp [hestablish] at hnot

/-- Works on a stream only while the stream is not active. -/
theorem Phase.establishStep {c : SignalClient M} (h : c.Phase) (hbound : c.Bounded)
    (ready started : Bool) : (c.establishStep ready started).Phase := by
  unfold SignalClient.establishStep
  cases hpc : c.establish with
  | checking =>
    dsimp only
    split_ifs with hstop hactive
    · apply h.move <;> simp [preparing, establishing, hpc]
    · apply h.move <;> simp [preparing, establishing, hpc]
    · apply h.move
      · simp [preparing, hpc]
      · simp [hactive]
      · simp
  | blocking => apply h.move <;> simp [preparing, establishing, hpc]
  | blocked => exact h
  | connecting =>
    have hinactive : c.streamActive = false := (h.inactive (by simp [establishing, hpc])).1
    dsimp only
    split_ifs
    · apply h.move <;> simp [preparing, establishing, hpc]
    · apply h.move <;> simp [preparing, hpc, hinactive]
    · exact h
  | creating =>
    obtain ⟨hinactive, hpush, -⟩ := h.inactive (by simp [establishing, hpc])
    refine .prepared c.streams hinactive rfl rfl rfl hpush (by simp) ?_
    intro a ha hstream
    exact (hbound a ha c.streams hstream).false
  | starting =>
    obtain ⟨hinactive, hpush, -⟩ := h.inactive (by simp [establishing, hpc])
    dsimp only
    split_ifs
    · apply h.move <;> simp [preparing, hpc, hinactive]
    · exact .closed hinactive rfl rfl hpush
  | marking =>
    cases h with
    | closed _ _ hnot => simp [preparing, hpc] at hnot
    | prepared stream hactive hwriter hstreams _ hpush _ hunused =>
      exact .prepared stream hactive hwriter hstreams rfl hpush (fun _ => rfl) hunused
    | opened _ _ _ _ _ _ hnot => simp [establishing, hpc] at hnot
    | closing _ _ hnot => simp [establishing, hpc] at hnot
  | activating =>
    cases h with
    | closed _ _ hnot => simp [preparing, hpc] at hnot
    | prepared stream hactive hwriter hstreams _ hpush hmarked hunused =>
      have hpast : c.pastFirst = false := pastFirst_of_pushing hpush
      refine .opened stream true rfl hwriter hstreams (hmarked hpc) rfl ?_ ?_ hunused
      · intro hdeactivating
        have hdeactivating : c.push = .deactivating := hdeactivating
        simp [pushing, hdeactivating] at hpush
      · intro hnot
        have hnot : c.pastFirst = true := hnot
        simp [hpast] at hnot
    | opened _ _ _ _ _ _ hnot => simp [establishing, hpc] at hnot
    | closing _ _ hnot => simp [establishing, hpc] at hnot
  | terminated => exact h

/-- A step of the other thread that only moves it on, outside the use of the stream. -/
theorem Phase.moveOutside {c : SignalClient M} (h : c.Phase) (hnot : c.pushing = false)
    {pc : PushPc M} {shouldStop hasContext : Bool} {answers : List (PushAnswer M)}
    (hpushing : ({ c with push := pc } : SignalClient M).pushing = false)
    (hanswers : answers = c.answers ∨ answers = c.answers ++ [.notEstablished]) :
    ({ c with
      push := pc
      shouldStop := shouldStop
      hasContext := hasContext
      answers := answers } : SignalClient M).Phase := by
  have hunused : ∀ stream, c.Unused stream → ∀ a ∈ answers, a.stream? ≠ some stream := by
    intro stream hold a ha
    rcases hanswers with rfl | rfl
    · exact hold a ha
    · rcases List.mem_append.mp ha with ha | ha
      · exact hold a ha
      · rw [List.mem_singleton.mp ha]
        simp [PushAnswer.stream?]
  have hmem : ∀ a ∈ c.answers, a ∈ answers := by
    rcases hanswers with rfl | rfl <;> simp +contextual
  cases h with
  | closed hactive hwriter hestablish _ => exact .closed hactive hwriter hestablish hpushing
  | prepared stream hactive hwriter hstreams hestablish _ hmarked hold =>
    exact .prepared stream hactive hwriter hstreams hestablish hpushing hmarked
      (hunused stream hold)
  | opened stream first hactive hwriter hstreams hfirst hestablish _ _ hold =>
    refine .opened stream first hactive hwriter hstreams hfirst hestablish ?_ ?_ ?_
    · rintro rfl
      simp [pushing] at hpushing
    · intro hpast
      have hpast' := pastFirst_of_pushing hpushing
      exact absurd (hpast'.symm.trans hpast) (by simp)
    · cases first with
      | true => exact hunused stream hold
      | false => exact hmem _ hold
  | closing _ _ _ hdeactivating => simp [pushing, hdeactivating] at hnot

/-- What the pushing thread finds while it uses the stream. -/
theorem Phase.of_pushing {c : SignalClient M} (h : c.Phase) (hpush : c.pushing = true) :
    c.streamActive = true ∧ c.establishing = false ∧
      (c.push = .deactivating ∨ ∃ stream first, c.writer = some stream ∧ stream + 1 = c.streams ∧
        c.firstWrite = some first ∧ (c.pastFirst = true → first = false) ∧
        if first then c.Unused stream else .needsRefresh stream ∈ c.answers) := by
  cases h with
  | closed _ _ _ hnot => simp [hpush] at hnot
  | prepared _ _ _ _ _ hnot => simp [hpush] at hnot
  | opened stream first hactive hwriter hstreams hfirst hestablish _ hpast hanswers =>
    exact ⟨hactive, hestablish, Or.inr ⟨stream, first, hwriter, hstreams, hfirst, hpast, hanswers⟩⟩
  | closing hactive _ hestablish hdeactivating =>
    exact ⟨hactive, hestablish, Or.inl hdeactivating⟩

private theorem if_mem_append {c : SignalClient M} {stream : ℕ} (a : PushAnswer M)
    (h : .needsRefresh stream ∈ c.answers) :
    if false then ({ c with answers := c.answers ++ [a] } : SignalClient M).Unused stream
    else .needsRefresh stream ∈ c.answers ++ [a] :=
  List.mem_append_left _ h

/-- Uses the stream only while the stream is active, and gives it up before it is inactive. -/
theorem Phase.pushStep {c : SignalClient M} (h : c.Phase) (written : Bool) :
    (c.pushStep written).Phase := by
  unfold SignalClient.pushStep
  cases hpc : c.push with
  | idle => exact h
  | loading msg =>
    have hnot : c.pushing = false := by simp [pushing, hpc]
    dsimp only
    split_ifs with hactive
    · cases h with
      | closed hinactive => simp [hactive] at hinactive
      | prepared _ hinactive => simp [hactive] at hinactive
      | opened stream first _ hwriter hstreams hfirst hestablish _ _ hanswers =>
        exact .opened stream first hactive hwriter hstreams hfirst hestablish (by simp)
          (by simp [pastFirst]) hanswers
      | closing _ _ _ hdeactivating => simp [hpc] at hdeactivating
    · exact h.moveOutside hnot rfl (Or.inr rfl)
  | checkingFirst msg =>
    obtain ⟨hactive, hestablish, hdeactivating | ⟨stream, first, hwriter, hstreams, hfirst, -,
      hanswers⟩⟩ := h.of_pushing (by simp [pushing, hpc])
    · simp [hpc] at hdeactivating
    · rw [hfirst]
      cases first with
      | true =>
        obtain rfl : stream = c.streams - 1 := by omega
        exact .opened _ false hactive hwriter hstreams rfl hestablish (by simp [answer]) (by simp)
          (by simp [answer])
      | false =>
        exact .opened stream false hactive hwriter hstreams rfl hestablish (by simp) (by simp)
          hanswers
  | writing msg =>
    obtain ⟨hactive, hestablish, hdeactivating | ⟨stream, first, hwriter, hstreams, hfirst, hpast,
      hanswers⟩⟩ := h.of_pushing (by simp [pushing, hpc])
    · simp [hpc] at hdeactivating
    · obtain rfl : first = false := hpast (by simp [pastFirst, hpc])
      rw [hwriter]
      dsimp only
      split_ifs
      · exact .opened stream false hactive hwriter hstreams hfirst hestablish (by simp [answer])
          (by simp) (if_mem_append _ hanswers)
      · exact .opened stream false hactive rfl hstreams hfirst hestablish (by simp)
          (by simp) (if_mem_append _ hanswers)
  | resetting =>
    obtain ⟨hactive, hestablish, hdeactivating | ⟨stream, first, hwriter, -⟩⟩ :=
      h.of_pushing (by simp [pushing, hpc])
    · simp [hpc] at hdeactivating
    · rw [hwriter]
      exact .closing hactive rfl hestablish rfl
  | deactivating =>
    cases h with
    | closed _ _ _ hnot => simp [pushing, hpc] at hnot
    | prepared _ _ _ _ _ hnot => simp [pushing, hpc] at hnot
    | opened _ _ _ _ _ _ _ hnot => exact absurd hpc hnot
    | closing _ hwriter hestablish _ =>
      exact .closed rfl hwriter (preparing_of_establishing hestablish) rfl
  | notifying => exact (h.moveOutside (by simp [pushing, hpc]) rfl (Or.inl rfl)).notify
  | stopNotifying => exact (h.moveOutside (by simp [pushing, hpc]) rfl (Or.inl rfl)).notify
  | stopFlagging => exact h.moveOutside (by simp [pushing, hpc]) rfl (Or.inl rfl)
  | joining =>
    dsimp only
    split_ifs
    · exact h.moveOutside (by simp [pushing, hpc]) rfl (Or.inl rfl)
    · exact h
  | cancelling =>
    dsimp only
    split_ifs
    · exact h.moveOutside (by simp [pushing, hpc]) rfl (Or.inl rfl)
    · exact h.moveOutside (by simp [pushing, hpc]) rfl (Or.inl rfl)
  | stopped => exact h
  | faulted fault => exact h

end SignalClient

/-- What the answers before an answer have to be: a refresh is the first answer on its stream,
and all other answers on the stream come after it. -/
def PushAnswer.InOrder {M : Type*} (before : List (PushAnswer M)) : PushAnswer M → Prop
  | .notEstablished => True
  | .needsRefresh stream => ∀ a ∈ before, a.stream? ≠ some stream
  | .processed stream _ => .needsRefresh stream ∈ before
  | .failed stream _ => .needsRefresh stream ∈ before

namespace SignalClient

variable {M : Type*}

/-- At most one answer is given, in order and on a stream that was created. -/
private theorem Phase.answers_pushStep {c : SignalClient M} (h : c.Phase) (written : Bool) :
    (c.pushStep written).answers = c.answers ∨
      ∃ a, (c.pushStep written).answers = c.answers ++ [a] ∧ a.InOrder c.answers ∧
        ∀ stream, a.stream? = some stream → stream < c.streams := by
  unfold SignalClient.pushStep
  cases hpc : c.push with
  | idle => exact Or.inl rfl
  | loading msg =>
    dsimp only
    split_ifs
    · exact Or.inl rfl
    · exact Or.inr ⟨.notEstablished, rfl, trivial, by simp [PushAnswer.stream?]⟩
  | checkingFirst msg =>
    obtain ⟨-, -, hdeactivating | ⟨stream, first, -, hstreams, hfirst, -, hanswers⟩⟩ :=
      h.of_pushing (by simp [pushing, hpc])
    · simp [hpc] at hdeactivating
    · rw [hfirst]
      cases first with
      | true =>
        obtain rfl : stream = c.streams - 1 := by omega
        refine Or.inr ⟨.needsRefresh (c.streams - 1), rfl, hanswers, ?_⟩
        simp only [PushAnswer.stream?, Option.some.injEq]
        omega
      | false => exact Or.inl rfl
  | writing msg =>
    obtain ⟨-, -, hdeactivating | ⟨stream, first, hwriter, hstreams, -, hpast, hanswers⟩⟩ :=
      h.of_pushing (by simp [pushing, hpc])
    · simp [hpc] at hdeactivating
    · obtain rfl : first = false := hpast (by simp [pastFirst, hpc])
      have hcreated : ∀ stream', some stream = some stream' → stream' < c.streams := by
        simp only [Option.some.injEq]
        omega
      rw [hwriter]
      dsimp only
      split_ifs
      · exact Or.inr ⟨.processed stream msg, rfl, hanswers, hcreated⟩
      · exact Or.inr ⟨.failed stream msg, rfl, hanswers, hcreated⟩
  | resetting =>
    dsimp only
    split <;> exact Or.inl rfl
  | deactivating => exact Or.inl rfl
  | notifying => exact Or.inl (answers_notify _)
  | stopNotifying => exact Or.inl (answers_notify _)
  | stopFlagging => exact Or.inl rfl
  | joining =>
    dsimp only
    split_ifs <;> exact Or.inl rfl
  | cancelling =>
    dsimp only
    split_ifs <;> exact Or.inl rfl
  | stopped => exact Or.inl rfl
  | faulted fault => exact Or.inl rfl

/-- The two threads never use the stream at once, no message is written before the refresh of
its stream was asked for, and no refresh is asked for twice. -/
structure Safe (c : SignalClient M) : Prop where
  phase : c.Phase
  bounded : c.Bounded
  orderly : EveryElement (fun before a => PushAnswer.InOrder before a) c.answers

theorem Safe.of_answers_eq {c c' : SignalClient M} (h : c.Safe) (hphase : c'.Phase)
    (hanswers : c'.answers = c.answers) (hstreams : c.streams ≤ c'.streams) : c'.Safe := by
  refine ⟨hphase, ?_, hanswers ▸ h.orderly⟩
  intro a ha stream hstream
  exact (h.bounded a (hanswers ▸ ha) stream hstream).trans_le hstreams

theorem Safe.pushStep {c : SignalClient M} (h : c.Safe) (written : Bool) :
    (c.pushStep written).Safe := by
  have hphase := h.phase.pushStep written
  have hstreams := streams_pushStep c written
  rcases h.phase.answers_pushStep written with hsame | ⟨a, hanswers, horder, hcreated⟩
  · exact h.of_answers_eq hphase hsame hstreams.ge
  · refine ⟨hphase, ?_, ?_⟩
    · intro b hb stream hstream
      rw [hstreams]
      rcases List.mem_append.mp (hanswers ▸ hb) with hb | hb
      · exact h.bounded b hb stream hstream
      · exact hcreated stream (List.mem_singleton.mp hb ▸ hstream)
    · rw [hanswers]
      exact (everyElement_append_singleton _ _).mpr ⟨h.orderly, horder⟩

theorem push_of_isIdle {c : SignalClient M} (h : c.push.isIdle = true) : c.push = .idle := by
  cases hpc : c.push <;> simp [hpc, PushPc.isIdle] at h ⊢

theorem Safe.step {c : SignalClient M} (h : c.Safe) (act : ClientAction M) : (c.step act).Safe := by
  cases act with
  | establish ready started =>
    exact h.of_answers_eq (h.phase.establishStep h.bounded ready started)
      (answers_establishStep c ready started) (streams_le_establishStep c ready started)
  | push written => exact h.pushStep written
  | call msg =>
    simp only [SignalClient.step]
    split_ifs with hidle
    · have hpush := push_of_isIdle hidle
      exact h.of_answers_eq (h.phase.moveOutside (by simp [pushing, hpush]) rfl (Or.inl rfl)) rfl
        (le_refl _)
    · exact h
  | stop =>
    simp only [SignalClient.step]
    split_ifs with hidle
    · have hpush := push_of_isIdle hidle
      exact h.of_answers_eq (h.phase.moveOutside (by simp [pushing, hpush]) rfl (Or.inl rfl)) rfl
        (le_refl _)
    · exact h
  | spuriousWakeup =>
    exact h.of_answers_eq h.phase.notify (answers_notify c) (streams_notify c).ge

theorem safe_run (acts : List (ClientAction M)) : (acts.foldl step start).Safe := by
  induction acts using List.reverseRecOn with
  | nil => exact ⟨phase_start, by simp [Bounded, start], everyElement_nil⟩
  | append_singleton acts act ih =>
    rw [List.foldl_append]
    exact ih.step act

end SignalClient

end AcsNext.Collector
