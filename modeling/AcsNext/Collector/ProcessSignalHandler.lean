import AcsNext.Data.Runs
import AcsNext.Collector.RateLimit

/-! The handler of process signals: what it sends, what it refuses, and what the refusals
mean for signals that were never delivered. -/
namespace AcsNext.Collector

open AcsNext.Data

/-- At most 256 bytes of the arguments count. -/
def computeProcessKey (s : ProcessSignal) : Bytes :=
  s.containerId ++ [32] ++ s.name ++ [32] ++
    (if s.args.length ≤ 256 then s.args else s.args.take 256) ++ [32] ++ s.execFilePath

structure ProcessStats where
  nProcessSent : ℕ
  nProcessSendFailures : ℕ
  nProcessResolutionFailuresByEvt : ℕ
  nProcessResolutionFailuresByTinfo : ℕ
  nProcessRateLimitCount : ℕ
deriving DecidableEq, Repr

structure ProcessSignalHandler where
  config : FormatterConfig
  rateLimiter : RateLimitCache
  stats : ProcessStats

/-- What a call meets outside the handler: the random id, the clock, and the answer of
`PushSignals` should it be asked. -/
structure Surroundings where
  uuid : Bytes
  clock : ClockReadings
  push : SignalResult

namespace ProcessSignalHandler

variable (protobuf : Protobuf) (h : ProcessSignalHandler) (env : Surroundings)

/-- The common part of the two handlers, once there is a signal. -/
def send (signal : ProcessSignal) : SignalResult × ProcessSignalHandler :=
  let allowed := h.rateLimiter.allow (computeProcessKey signal) env.clock
  let h := { h with rateLimiter := allowed.2 }
  if !allowed.1 then
    (.ignored, { h with stats.nProcessRateLimitCount := h.stats.nProcessRateLimitCount + 1 })
  else
    match env.push with
    | .processed => (.processed, { h with stats.nProcessSent := h.stats.nProcessSent + 1 })
    | .error =>
      (.error, { h with stats.nProcessSendFailures := h.stats.nProcessSendFailures + 1 })
    | result => (result, h)

def handleSignal (evt : SinspEvt) : SignalResult × ProcessSignalHandler :=
  match toProtoMessageOfEvent protobuf h.config env.uuid evt with
  | none =>
    (.ignored, { h with
      stats.nProcessResolutionFailuresByEvt := h.stats.nProcessResolutionFailuresByEvt + 1 })
  | some signal => h.send env signal

def handleExistingProcess (tinfo : Option ThreadInfo) : SignalResult × ProcessSignalHandler :=
  match toProtoMessageOfThread protobuf h.config env.uuid tinfo with
  | none =>
    (.ignored, { h with
      stats.nProcessResolutionFailuresByTinfo := h.stats.nProcessResolutionFailuresByTinfo + 1 })
  | some signal => h.send env signal

end ProcessSignalHandler

inductive HandlerCall where
  | signal (env : Surroundings) (evt : SinspEvt)
  | existingProcess (env : Surroundings) (tinfo : Option ThreadInfo)

def HandlerCall.env : HandlerCall → Surroundings
  | .signal env _ => env
  | .existingProcess env _ => env

structure Attempt where
  key : Bytes
  clock : ClockReadings
  push : SignalResult
  allowed : Bool
deriving DecidableEq

/-- `PushSignals` was called and returned `PROCESSED`. -/
def Attempt.delivered (a : Attempt) : Bool := a.allowed && a.push == .processed

/-- The handler, the last reading of the clock, and the signals that reached the limiter. -/
structure HandlerWorld where
  handler : ProcessSignalHandler
  now : ℤ
  log : List Attempt

namespace HandlerWorld

variable (protobuf : Protobuf)

def start (config : FormatterConfig) (rateLimiter : RateLimitCache) : HandlerWorld :=
  ⟨⟨config, rateLimiter, ⟨0, 0, 0, 0, 0⟩⟩, 0, []⟩

def formatted (w : HandlerWorld) : HandlerCall → Option ProcessSignal
  | .signal env evt =>
    toProtoMessageOfEvent protobuf w.handler.config env.uuid evt
  | .existingProcess env tinfo =>
    toProtoMessageOfThread protobuf w.handler.config env.uuid tinfo

def attempt (w : HandlerWorld) (env : Surroundings) (signal : ProcessSignal) : Attempt :=
  let key := computeProcessKey signal
  ⟨key, env.clock, env.push, (w.handler.rateLimiter.allow key env.clock).1⟩

def step (w : HandlerWorld) (call : HandlerCall) : HandlerWorld where
  handler :=
    match call with
    | .signal env evt => (w.handler.handleSignal protobuf env evt).2
    | .existingProcess env tinfo =>
      (w.handler.handleExistingProcess protobuf env tinfo).2
  now := call.env.clock.third
  log :=
    match w.formatted protobuf call with
    | none => w.log
    | some signal => w.log ++ [w.attempt call.env signal]

/-- The clock does not run backwards, and the cache is not flushed. -/
def Admissible (w : HandlerWorld) (call : HandlerCall) : Prop :=
  w.now ≤ call.env.clock.first ∧
    ∀ signal ∈ w.formatted protobuf call,
      w.handler.rateLimiter.flushes (computeProcessKey signal) = false

instance (w : HandlerWorld) (call : HandlerCall) :
    Decidable (w.Admissible protobuf call) :=
  inferInstanceAs (Decidable (_ ∧ _))

end HandlerWorld

section Refusals

variable (l : TimeLimiter)

/-- The current epoch of a key, as the clock readings of its attempts tell it. -/
def epochOf (key : Bytes) (log : List Attempt) : Option (Epoch Attempt) :=
  (log.filter fun a => a.key == key).foldl (fun ep a => some (nextEpoch l ep a.clock a)) none

/-- The attempts with the key of a further one since the start of its current epoch. -/
def epochBefore (log : List Attempt) (a : Attempt) : List Attempt :=
  currentArrivals l (epochOf l a.key log) a.clock

/-- A signal is refused only if a whole burst was delivered in the current epoch. -/
def RefusalsJustified (log : List Attempt) : Prop :=
  EveryElement (fun before a => a.allowed = false →
    l.burstSize ≤ ((epochBefore l before a).filter Attempt.delivered).length) log

instance (log : List Attempt) : Decidable (RefusalsJustified l log) :=
  inferInstanceAs (Decidable (EveryElement _ log))

/-- No signal follows the first burst of an epoch unless the client answered `PROCESSED` to all
of that burst. -/
def BurstsProcessed (log : List Attempt) : Prop :=
  EveryElement (fun before a => l.burstSize ≤ (epochBefore l before a).length →
    ∀ b ∈ (epochBefore l before a).take l.burstSize, b.push = .processed) log

instance (log : List Attempt) : Decidable (BurstsProcessed l log) :=
  inferInstanceAs (Decidable (EveryElement _ log))

variable {l} {log : List Attempt} {a : Attempt}

theorem epochOf_append (key : Bytes) (log : List Attempt) (a : Attempt) :
    epochOf l key (log ++ [a]) =
      if a.key = key then some (nextEpoch l (epochOf l key log) a.clock a)
      else epochOf l key log := by
  unfold epochOf
  by_cases h : a.key = key
  · simp [List.filter_append, h]
  · simp [List.filter_append, h]

/-- The limiter decided every attempt by its number in the epoch. -/
def DecidedByRank (l : TimeLimiter) (log : List Attempt) : Prop :=
  EveryElement (fun before a =>
    a.allowed = decide ((epochBefore l before a).length < l.burstSize)) log

/-- The attempts of an epoch that passed are its first ones. -/
def FirstPass (l : TimeLimiter) (arrivals : List Attempt) : Prop :=
  arrivals.filter Attempt.allowed = arrivals.take l.burstSize

theorem firstPass_append {arrivals : List Attempt} (h : FirstPass l arrivals)
    (ha : a.allowed = decide (arrivals.length < l.burstSize)) : FirstPass l (arrivals ++ [a]) := by
  unfold FirstPass at h ⊢
  rw [List.filter_append, h, List.take_append]
  congr 1
  by_cases hlt : arrivals.length < l.burstSize
  · have hroom : 1 ≤ l.burstSize - arrivals.length := by omega
    simp [ha, hlt, hroom]
  · have hfull : l.burstSize - arrivals.length = 0 := by omega
    simp [ha, hlt, hfull]

theorem firstPass_epochOf (h : DecidedByRank l log) (key : Bytes) :
    ∀ ep, epochOf l key log = some ep → FirstPass l ep.arrivals := by
  induction log using List.reverseRecOn with
  | nil => simp [epochOf]
  | append_singleton log a ih =>
    obtain ⟨hlog, ha⟩ := (everyElement_append_singleton log a).mp h
    intro ep hep
    rw [epochOf_append] at hep
    split_ifs at hep with hkey
    · subst hkey
      have hbefore : FirstPass l (epochBefore l log a) :=
        currentArrivals_of (by simp [FirstPass]) (ih hlog)
      rw [← Option.some.inj hep]
      exact firstPass_append hbefore ha
    · exact ih hlog ep hep

theorem firstPass_epochBefore (h : DecidedByRank l log) (a : Attempt) :
    FirstPass l (epochBefore l log a) :=
  currentArrivals_of (by simp [FirstPass]) (firstPass_epochOf h a.key)

/-- The refusals of a log are justified exactly when the bursts before them were answered with
`PROCESSED`. -/
theorem refusalsJustified_iff (h : DecidedByRank l log) :
    RefusalsJustified l log ↔ BurstsProcessed l log := by
  unfold RefusalsJustified BurstsProcessed
  rw [everyElement_iff, everyElement_iff]
  refine forall_congr' fun before => forall_congr' fun a => forall_congr' fun hprefix => ?_
  have hranks := (everyElement_iff log).mp h
  have hbefore : DecidedByRank l before := (everyElement_iff before).mpr fun b x hx =>
    hranks b x (hx.trans ((List.prefix_append _ _).trans hprefix))
  have hfirst : FirstPass l (epochBefore l before a) := firstPass_epochBefore hbefore a
  have hdelivered : (epochBefore l before a).filter Attempt.delivered =
      ((epochBefore l before a).take l.burstSize).filter fun b => b.push == .processed := by
    rw [← hfirst, List.filter_filter]
    apply List.filter_congr
    intro b _
    exact Bool.and_comm _ _
  rw [hranks before a hprefix, hdelivered, decide_eq_false_iff_not, not_lt]
  refine forall_congr' fun hlen => ?_
  have htake : ((epochBefore l before a).take l.burstSize).length = l.burstSize := by
    rw [List.length_take]
    exact Nat.min_eq_left hlen
  constructor
  · intro hle b hb
    have hall := List.length_filter_eq_length_iff.mp
      (le_antisymm (List.length_filter_le _ _) (htake.le.trans hle))
    exact eq_of_beq (hall b hb)
  · intro hall
    have hsame := List.length_filter_eq_length_iff.mpr fun b hb => beq_iff_eq.mpr (hall b hb)
    exact (hsame.trans htake).ge

end Refusals

theorem rateLimiter_send (h : ProcessSignalHandler) (env : Surroundings) (signal : ProcessSignal) :
    (h.send env signal).2.rateLimiter =
      (h.rateLimiter.allow (computeProcessKey signal) env.clock).2 := by
  unfold ProcessSignalHandler.send
  dsimp only
  split_ifs
  · rfl
  · cases env.push <;> rfl

namespace HandlerWorld

variable {protobuf : Protobuf} {w : HandlerWorld} {call : HandlerCall}

/-- A call without a signal leaves the limiter and the log alone; one with a signal asks the
limiter once. -/
theorem step_cases (protobuf : Protobuf) (w : HandlerWorld) (call : HandlerCall) :
    ((w.step protobuf call).handler.rateLimiter = w.handler.rateLimiter ∧
      (w.step protobuf call).log = w.log) ∨
    ∃ signal, w.formatted protobuf call = some signal ∧
      (w.step protobuf call).handler.rateLimiter =
        (w.handler.rateLimiter.allow (computeProcessKey signal) call.env.clock).2 ∧
      (w.step protobuf call).log = w.log ++ [w.attempt call.env signal] := by
  cases hf : w.formatted protobuf call with
  | none =>
    refine Or.inl ⟨?_, by simp [step, hf]⟩
    cases call with
    | signal env evt =>
      replace hf : toProtoMessageOfEvent protobuf w.handler.config env.uuid evt =
        none := hf
      simp [step, ProcessSignalHandler.handleSignal, hf]
    | existingProcess env tinfo =>
      replace hf : toProtoMessageOfThread protobuf w.handler.config env.uuid tinfo =
        none := hf
      simp [step, ProcessSignalHandler.handleExistingProcess, hf]
  | some signal =>
    refine Or.inr ⟨signal, rfl, ?_, by simp [step, hf]⟩
    cases call with
    | signal env evt =>
      replace hf : toProtoMessageOfEvent protobuf w.handler.config env.uuid evt =
        some signal := hf
      simp [step, ProcessSignalHandler.handleSignal, hf, rateLimiter_send, HandlerCall.env]
    | existingProcess env tinfo =>
      replace hf : toProtoMessageOfThread protobuf w.handler.config env.uuid tinfo =
        some signal := hf
      simp [step, ProcessSignalHandler.handleExistingProcess, hf, rateLimiter_send,
        HandlerCall.env]

/-- Every bucket accounts for the current epoch of its key. -/
structure Accounted (l : TimeLimiter) (w : HandlerWorld) : Prop where
  limiter : w.handler.rateLimiter.limiter = l
  buckets : ∀ key, Accounts l (w.handler.rateLimiter.bucket key) (epochOf l key w.log)
  started : ∀ key ep, epochOf l key w.log = some ep → ep.start ≤ w.now
  decided : DecidedByRank l w.log

theorem accounted_start (config : FormatterConfig) (capacity : ℕ) (l : TimeLimiter) :
    Accounted l (start config ⟨capacity, l, ∅⟩) where
  limiter := rfl
  buckets _ := rfl
  started _ _ h := by simp [start, epochOf] at h
  decided := everyElement_nil

theorem accounted_step {l : TimeLimiter} (hw : Accounted l w)
    (hcall : w.Admissible protobuf call) :
    Accounted l (w.step protobuf call) := by
  obtain ⟨hnow, hflush⟩ := hcall
  have hlater : w.now ≤ (w.step protobuf call).now := by
    have := call.env.clock.first_le
    have := call.env.clock.second_le
    show w.now ≤ call.env.clock.third
    omega
  rcases step_cases protobuf w call with
    ⟨hlimiter, hlog⟩ | ⟨signal, hformat, hlimiter, hlog⟩
  · constructor
    · rw [hlimiter]
      exact hw.limiter
    · rw [hlimiter, hlog]
      exact hw.buckets
    · rw [hlog]
      exact fun key ep hep => (hw.started key ep hep).trans hlater
    · rw [hlog]
      exact hw.decided
  · have hallow := RateLimitCache.allow_of_not_flushes call.env.clock (hflush signal hformat)
    rw [hw.limiter] at hallow
    obtain ⟨hallowed, hsame, hbucket⟩ := hallow
    set a := w.attempt call.env signal
    have hkeyOf : computeProcessKey signal = a.key := rfl
    rw [hkeyOf] at hsame hbucket hlimiter
    have hspec := allow_of_accounts (hw.buckets a.key)
      (fun ep hep => (hw.started a.key ep hep).trans hnow) a
    constructor
    · rw [hlimiter, hsame]
    · intro key
      rw [hlimiter, hlog, hbucket, epochOf_append]
      by_cases hkey : key = a.key
      · subst hkey
        rw [if_pos rfl, if_pos rfl]
        exact hspec.2
      · rw [if_neg hkey, if_neg (Ne.symm hkey)]
        exact hw.buckets key
    · intro key ep hep
      rw [hlog, epochOf_append] at hep
      split_ifs at hep with hkey
      · rw [← Option.some.inj hep]
        refine nextEpoch_start_le (fun ep' hep' => ?_) a
        exact (hw.started key ep' hep').trans hlater
      · exact (hw.started key ep hep).trans hlater
    · rw [hlog]
      exact (everyElement_append_singleton w.log a).mpr ⟨hw.decided, hallowed.trans hspec.1⟩

theorem accounted_run (config : FormatterConfig) (capacity : ℕ) (l : TimeLimiter)
    {calls : List HandlerCall}
    (h : EveryStep (step protobuf) (Admissible protobuf)
      (start config ⟨capacity, l, ∅⟩) calls) :
    Accounted l (calls.foldl (step protobuf) (start config ⟨capacity, l, ∅⟩)) :=
  (always_of_everyStep (P := fun _ => Accounted l) (accounted_start config capacity l)
    (fun _ _ hw hcall => accounted_step hw hcall) h).last

/-- In every run with a clock that does not run backwards and without a flush, all refusals
are justified exactly when no signal follows a burst that was not delivered as a whole. -/
theorem refusals_justified_iff (protobuf : Protobuf) (config : FormatterConfig)
    (capacity : ℕ) (l : TimeLimiter) (calls : List HandlerCall)
    (h : EveryStep (step protobuf) (Admissible protobuf)
      (start config ⟨capacity, l, ∅⟩) calls) :
    RefusalsJustified l
        (calls.foldl (step protobuf) (start config ⟨capacity, l, ∅⟩)).log ↔
      BurstsProcessed l
        (calls.foldl (step protobuf) (start config ⟨capacity, l, ∅⟩)).log :=
  refusalsJustified_iff (accounted_run config capacity l h).decided

def oneSecond : ClockReadings :=
  ⟨1000000, 1000000, 1000000, by norm_num, le_refl _, le_refl _⟩

def shellStart (push : SignalResult) : HandlerCall := .signal ⟨[1], oneSecond, push⟩ shellEvt

/-- A shell is started nine times while the stream is down; it is up at the tenth time, and the
client asks for all processes. -/
def outage : List HandlerCall :=
  List.replicate 9 (shellStart .error) ++ [shellStart .needsRefresh]

/-- The shell's turn in the refresh. -/
def refresh : HandlerCall := .existingProcess ⟨[2], oneSecond, .processed⟩ (some shellThread)

def defaultLimiter : TimeLimiter := RateLimitCache.default.limiter

theorem refusals_justified_delivered :
    RefusalsJustified defaultLimiter
      ((List.replicate 11 (shellStart .processed)).foldl (step asciiProtobuf)
        (start ⟨false⟩ ⟨4096, defaultLimiter, ∅⟩)).log := by
  have hrun : EveryStep (step asciiProtobuf) (Admissible asciiProtobuf)
      (start ⟨false⟩ ⟨4096, defaultLimiter, ∅⟩) (List.replicate 11 (shellStart .processed)) := by
    decide +kernel
  refine (refusals_justified_iff asciiProtobuf ⟨false⟩ 4096 defaultLimiter _ hrun).mpr ?_
  decide +kernel

/-- The refresh after an outage is refused although nothing was delivered. -/
theorem refresh_refused_after_outage :
    EveryStep (step asciiProtobuf) (Admissible asciiProtobuf)
      (start ⟨false⟩ ⟨4096, defaultLimiter, ∅⟩) (outage ++ [refresh]) ∧
    (((outage ++ [refresh]).foldl (step asciiProtobuf)
      (start ⟨false⟩ ⟨4096, defaultLimiter, ∅⟩)).log.map Attempt.delivered =
        List.replicate 11 false) ∧
    ¬ RefusalsJustified defaultLimiter
      ((outage ++ [refresh]).foldl (step asciiProtobuf)
        (start ⟨false⟩ ⟨4096, defaultLimiter, ∅⟩)).log := by
  decide +kernel

end HandlerWorld

end AcsNext.Collector
