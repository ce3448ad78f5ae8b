import Mathlib.Data.Multiset.Count
import Mathlib.Logic.Relation
import Mathlib.Tactic

/-! The duplex client of a bidirectional stream: its flags, the operations that it hands to
gRPC, and the completion queue that it drains. A call that waits is given the answers of the
queue; it returns a status, or none if it still waits when the answers are used up. -/
namespace AcsNext.Collector

inductive Op where
  | start
  | read
  | write
  | writesDone
  | finish
  | shutdown
deriving DecidableEq, Repr

def Op.index : Op → ℕ
  | .start => 0
  | .read => 1
  | .write => 2
  | .writesDone => 3
  | .finish => 4
  | .shutdown => 5

def kNumOps : ℕ := 6

abbrev Flags := BitVec 32

def Op.done (op : Op) : Flags := 1#32 <<< op.index

def Op.pending (op : Op) : Flags := 1#32 <<< (op.index + kNumOps)

def streamError : Flags := 1#32 <<< 31

def canRead : Flags := Op.read.done

inductive OpError where
  | ok
  | alreadyPending
  | alreadyDone
  | illegalState
  | shutdown
deriving DecidableEq, Repr

inductive Status where
  | ok
  | alreadyPending
  | alreadyDone
  | error
  | timeout
  | illegalState
  | shutdown
deriving DecidableEq, Repr

def Status.ofOpError : OpError → Status
  | .ok => .ok
  | .alreadyPending => .alreadyPending
  | .alreadyDone => .alreadyDone
  | .illegalState => .illegalState
  | .shutdown => .shutdown

structure GrpcStatus where
  code : ℕ
  message : String
deriving DecidableEq, Repr

def GrpcStatus.ok (s : GrpcStatus) : Bool := s.code == 0

/-- What a stream has seen: an operation handed to gRPC, the shutdown of the queue, the
setting of the error flag. -/
inductive StreamEvent where
  | issued (op : Op)
  | shutdown
  | streamError
deriving DecidableEq, Repr

/-- `outstanding` holds the tags that gRPC has and the queue has not delivered, `cqShutdown`
tells that the queue was shut down, and `history` is what the stream has seen so far. A read
callback leaves the client alone here. -/
structure DuplexClient (R : Type*) where
  flags : Flags
  outstanding : Multiset Op
  cqShutdown : Bool
  readCallback : Bool
  readBuf : Option R
  readBufValid : Bool
  status : GrpcStatus
  history : List StreamEvent

/-- An event of the queue; `message` is what a successful read leaves in the buffer and
`status` what a finish leaves in the status. -/
structure Completion (R : Type*) where
  op : Op
  ok : Bool
  message : R
  status : GrpcStatus

inductive Answer (R : Type*) where
  | gotEvent (event : Completion R)
  | timeout
  | shutdown

namespace DuplexClient

variable {R : Type*} (c : DuplexClient R)

def setFlags (fl : Flags) : DuplexClient R := { c with flags := c.flags ||| fl }

def clearFlags (fl : Flags) : DuplexClient R := { c with flags := c.flags &&& ~~~fl }

def checkFlags (fl : Flags) : Bool := c.flags &&& fl != 0#32

def issue (op : Op) : DuplexClient R :=
  let c := (c.clearFlags op.done).setFlags op.pending
  { c with outstanding := op ::ₘ c.outstanding, history := c.history ++ [.issued op] }

def doAsync (idempotent : Bool) (op : Op) : OpError × DuplexClient R :=
  if idempotent && c.checkFlags op.done then (.alreadyDone, c)
  else if c.checkFlags op.pending then (.alreadyPending, c)
  else if c.checkFlags (Op.shutdown.done ||| Op.shutdown.pending) then (.shutdown, c)
  else if c.checkFlags (Op.finish.done ||| Op.finish.pending) then (.illegalState, c)
  else (.ok, c.issue op)

def writeAsyncInternal : OpError × DuplexClient R := c.doAsync false .write

def writesDoneAsyncInternal : OpError × DuplexClient R := c.doAsync true .writesDone

-- the status that gRPC fills is an argument, so a finish does not count as idempotent here
def finishAsyncInternal : OpError × DuplexClient R := c.doAsync false .finish

def readAsyncInternal : OpError × DuplexClient R := c.doAsync false .read

def readNext : DuplexClient R := ({ c with readBufValid := false }.readAsyncInternal).2

def handleRead (ok : Bool) : DuplexClient R :=
  if c.readCallback then c.readNext else { c with readBufValid := ok }

def handleFinish (ok : Bool) : DuplexClient R :=
  if !ok && c.status.ok then { c with status := ⟨2, "Finish operation unsuccessful"⟩ } else c

/-- Marks the operation as done. All failures are permanent. -/
def markDone (op : Op) (ok : Bool) : DuplexClient R :=
  let c := (c.clearFlags op.pending).setFlags (if ok then op.done else op.done ||| streamError)
  if ok then c else { c with history := c.history ++ [.streamError] }

def processEvent (op : Op) (ok : Bool) : DuplexClient R :=
  let c := if ok then c else c.finishAsyncInternal.2
  let c := c.markDone op ok
  match op with
  | .read => c.handleRead ok
  | .finish => c.handleFinish ok
  | _ => c

/-- What gRPC has done when the queue delivers the event. -/
def deliver (event : Completion R) : DuplexClient R where
  flags := c.flags
  outstanding := c.outstanding.erase event.op
  cqShutdown := c.cqShutdown
  readCallback := c.readCallback
  readBuf := if event.op = .read ∧ event.ok = true then some event.message else c.readBuf
  readBufValid := c.readBufValid
  status := if event.op = .finish then event.status else c.status
  history := c.history

/-- The queue was shut down and has delivered everything. -/
def drained : Bool := c.cqShutdown && decide (c.outstanding = 0)

/-- `none` if the queue cannot give this answer. -/
def processSingle : Answer R → Option (DuplexClient R)
  | .gotEvent event =>
    if event.op ∈ c.outstanding then some ((c.deliver event).processEvent event.op event.ok)
    else none
  | .timeout => if c.drained then none else some c
  | .shutdown => if c.drained then some (c.setFlags Op.shutdown.done) else none

/-- The loop of `Poll` and of `DoSync`: events are processed until one of them, with the flags
after it, gives a status. -/
def processUntil (stop : Completion R → Flags → Option Status) :
    List (Answer R) → DuplexClient R → Option (Option Status × DuplexClient R)
  | [], c => some (none, c)
  | a :: rest, c =>
    match c.processSingle a with
    | none => none
    | some c =>
      match a with
      | .gotEvent event =>
        match stop event c.flags with
        | some status => some (some status, c)
        | none => processUntil stop rest c
      | .timeout => some (some .timeout, c)
      | .shutdown => some (some .shutdown, c)

def poll (flagsChecker : Flags → Bool) :=
  processUntil (R := R) fun _ flags => if flagsChecker flags then some .ok else none

def anySet (desired fl : Flags) : Bool := fl &&& desired != 0#32

def allSet (desired fl : Flags) : Bool := fl &&& desired == desired

def pollAny (desired : Flags) := poll (R := R) (anySet desired)

def pollAll (desired : Flags) := poll (R := R) (allSet desired)

def await (op : Op) :=
  processUntil (R := R) fun event _ =>
    if event.op = op then some (if event.ok then .ok else .error) else none

/-- An idempotent operation that is pending already is taken as just sent. -/
def syncError (idempotent : Bool) (opError : OpError) : OpError :=
  if idempotent && opError = .alreadyPending then .ok else opError

def doSync (idempotent : Bool) (asyncMethod : DuplexClient R → OpError × DuplexClient R) (op : Op)
    (answers : List (Answer R)) : Option (Option Status × DuplexClient R) :=
  let started := asyncMethod c
  let opError := syncError idempotent started.1
  if opError ≠ .ok then some (some (.ofOpError opError), started.2)
  else await op answers started.2

def write := c.doSync false writeAsyncInternal .write

def writesDone := c.doSync true writesDoneAsyncInternal .writesDone

def finish := c.doSync true finishAsyncInternal .finish

def sleep (answers : List (Answer R)) : Option (Option Bool × DuplexClient R) :=
  (pollAny (streamError ||| Op.finish.done) answers c).map fun res =>
    (res.1.map fun status => decide (status = .timeout), res.2)

/-- The status and, with it, the message. A try to read is a read whose deadline has passed. -/
def read (answers : List (Answer R)) : Option (Option (Status × Option R) × DuplexClient R) :=
  if c.readCallback then some (some (.illegalState, none), c)
  else
    (pollAll canRead answers c).map fun res =>
      match res with
      | (some .ok, c) =>
        if !c.readBufValid then (some (.error, none), c)
        else (some (.ok, c.readBuf), ({ c with readBuf := none }).readNext)
      | (status, c) => (status.map fun st => (st, none), c)

def shutdown : Status × DuplexClient R :=
  if c.checkFlags Op.shutdown.done then (.alreadyDone, c)
  else if c.checkFlags Op.shutdown.pending then (.alreadyPending, c)
  else
    (.ok, { c.setFlags Op.shutdown.pending with
      cqShutdown := true
      history := c.history ++ [.shutdown] })

/-- The constructor: gRPC has the start, and the first read is requested. -/
def create (readCallback : Bool) : DuplexClient R :=
  readNext ⟨Op.start.pending, {.start}, false, readCallback, none, false, ⟨0, ""⟩,
    [.issued .start]⟩

end DuplexClient

inductive DuplexCall (R : Type*) where
  | writeAsync
  | write (answers : List (Answer R))
  | writesDoneAsync
  | writesDone (answers : List (Answer R))
  | finishAsync
  | finish (answers : List (Answer R))
  | read (answers : List (Answer R))
  | poll (flagsChecker : Flags → Bool) (answers : List (Answer R))
  | sleep (answers : List (Answer R))
  | shutdown

namespace DuplexClient

variable {R : Type*}

def perform (c : DuplexClient R) : DuplexCall R → Option (DuplexClient R)
  | .writeAsync => some c.writeAsyncInternal.2
  | .write answers => (c.write answers).map Prod.snd
  | .writesDoneAsync => some c.writesDoneAsyncInternal.2
  | .writesDone answers => (c.writesDone answers).map Prod.snd
  | .finishAsync => some c.finishAsyncInternal.2
  | .finish answers => (c.finish answers).map Prod.snd
  | .read answers => (c.read answers).map Prod.snd
  | .poll flagsChecker answers => (poll flagsChecker answers c).map Prod.snd
  | .sleep answers => (c.sleep answers).map Prod.snd
  | .shutdown => some c.shutdown.2

/-- One call leads from the one state to the other. -/
def Calls (c c' : DuplexClient R) : Prop := ∃ call, c.perform call = some c'

def Reaches : DuplexClient R → DuplexClient R → Prop := Relation.ReflTransGen Calls

def Reachable (c : DuplexClient R) : Prop :=
  ∃ readCallback, Reaches (create readCallback) c

end DuplexClient

theorem Op.index_lt (op : Op) : op.index < 6 := by
  cases op <;> decide

theorem Op.index_inj {op op' : Op} : op.index = op'.index ↔ op = op' := by
  cases op <;> cases op' <;> decide

theorem getLsbD_bit {n : ℕ} (h : n < 32) (i : ℕ) :
    (1#32 <<< n).getLsbD i = decide (i = n) := by
  rw [← BitVec.twoPow_eq, BitVec.getLsbD_twoPow]
  simp [h, eq_comm]

@[simp] theorem Op.getLsbD_done (op : Op) (i : ℕ) : op.done.getLsbD i = decide (i = op.index) := by
  have := op.index_lt
  exact getLsbD_bit (by omega) i

@[simp] theorem Op.getLsbD_pending (op : Op) (i : ℕ) :
    op.pending.getLsbD i = decide (i = op.index + 6) := by
  have := op.index_lt
  exact getLsbD_bit (show op.index + 6 < 32 by omega) i

@[simp] theorem getLsbD_streamError (i : ℕ) : streamError.getLsbD i = decide (i = 31) :=
  getLsbD_bit (by norm_num) i

/-- A bit is set in the intersection with a mask exactly when it is set in both. -/
theorem and_bit_ne_zero (x : Flags) {m : Flags} {n : ℕ} (h : ∀ i, m.getLsbD i = decide (i = n)) :
    (x &&& m != 0#32) = x.getLsbD n := by
  cases hx : x.getLsbD n with
  | true =>
    have hbit : (x &&& m).getLsbD n = true := by simp [hx, h]
    rw [bne_iff_ne]
    intro hzero
    simp [hzero] at hbit
  | false =>
    have hzero : x &&& m = 0#32 := by
      apply BitVec.eq_of_getLsbD_eq
      intro i _
      by_cases hi : i = n
      · simp [hi, hx]
      · simp [h, hi]
    simp [hzero]

namespace DuplexClient

variable {R : Type*} (c : DuplexClient R)

def isPending (op : Op) : Bool := c.checkFlags op.pending

def isDone (op : Op) : Bool := c.checkFlags op.done

def hasStreamError : Bool := c.checkFlags streamError

theorem isPending_eq (op : Op) : c.isPending op = c.flags.getLsbD (op.index + 6) :=
  and_bit_ne_zero c.flags op.getLsbD_pending

theorem isDone_eq (op : Op) : c.isDone op = c.flags.getLsbD op.index :=
  and_bit_ne_zero c.flags op.getLsbD_done

theorem hasStreamError_eq : c.hasStreamError = c.flags.getLsbD 31 :=
  and_bit_ne_zero c.flags getLsbD_streamError

theorem checkFlags_or (a b : Flags) :
    c.checkFlags (a ||| b) = (c.checkFlags a || c.checkFlags b) := by
  unfold checkFlags
  rw [BitVec.and_or_distrib_left, Bool.eq_iff_iff]
  simp only [bne_iff_ne, Bool.or_eq_true, ne_eq, BitVec.or_eq_zero_iff]
  exact not_and_or

theorem getLsbD_setFlags (fl : Flags) (i : ℕ) :
    (c.setFlags fl).flags.getLsbD i = (c.flags.getLsbD i || fl.getLsbD i) :=
  BitVec.getLsbD_or

theorem getLsbD_clearFlags (fl : Flags) (i : ℕ) :
    (c.clearFlags fl).flags.getLsbD i = (c.flags.getLsbD i && !fl.getLsbD i) := by
  show (c.flags &&& ~~~fl).getLsbD i = _
  rw [BitVec.getLsbD_and, BitVec.getLsbD_not]
  by_cases hi : i < 32
  · simp only [hi, decide_true, Bool.true_and]
  · rw [BitVec.getLsbD_of_ge c.flags i (by omega)]
    simp only [Bool.false_and]

theorem getLsbD_issue (op : Op) (i : ℕ) :
    (c.issue op).flags.getLsbD i =
      (c.flags.getLsbD i && !decide (i = op.index) || decide (i = op.index + 6)) := by
  show ((c.clearFlags op.done).setFlags op.pending).flags.getLsbD i = _
  rw [getLsbD_setFlags, getLsbD_clearFlags, op.getLsbD_done, op.getLsbD_pending]

theorem getLsbD_markDone (op : Op) (ok : Bool) (i : ℕ) :
    (c.markDone op ok).flags.getLsbD i =
      (c.flags.getLsbD i && !decide (i = op.index + 6) ||
        (decide (i = op.index) || !ok && decide (i = 31))) := by
  have hflags : (c.markDone op ok).flags = ((c.clearFlags op.pending).setFlags
      (if ok then op.done else op.done ||| streamError)).flags := by
    unfold markDone
    cases ok <;> rfl
  rw [hflags, getLsbD_setFlags, getLsbD_clearFlags, op.getLsbD_pending]
  cases ok <;> simp

variable (op q : Op)

@[simp] theorem isPending_issue : (c.issue op).isPending q = (decide (q = op) || c.isPending q) := by
  have := q.index_lt
  have := op.index_lt
  rw [isPending_eq, isPending_eq, getLsbD_issue, decide_eq_false (show q.index + 6 ≠ op.index by omega)]
  simp [Op.index_inj, Bool.or_comm]

@[simp] theorem isDone_issue : (c.issue op).isDone q = (!decide (q = op) && c.isDone q) := by
  have := q.index_lt
  rw [isDone_eq, isDone_eq, getLsbD_issue, decide_eq_false (show q.index ≠ op.index + 6 by omega)]
  simp only [Op.index_inj, Bool.or_false, Bool.and_comm]

@[simp] theorem hasStreamError_issue : (c.issue op).hasStreamError = c.hasStreamError := by
  have := op.index_lt
  rw [hasStreamError_eq, hasStreamError_eq, getLsbD_issue,
    decide_eq_false (show 31 ≠ op.index by omega), decide_eq_false (show 31 ≠ op.index + 6 by omega)]
  simp only [Bool.not_false, Bool.and_true, Bool.or_false]

@[simp] theorem isPending_markDone (ok : Bool) :
    (c.markDone op ok).isPending q = (!decide (q = op) && c.isPending q) := by
  have := q.index_lt
  have := op.index_lt
  rw [isPending_eq, isPending_eq, getLsbD_markDone,
    decide_eq_false (show q.index + 6 ≠ op.index by omega),
    decide_eq_false (show q.index + 6 ≠ 31 by omega)]
  simp only [Nat.add_right_cancel_iff, Op.index_inj, Bool.and_false, Bool.or_false]
  exact Bool.and_comm _ _

@[simp] theorem isDone_markDone (ok : Bool) :
    (c.markDone op ok).isDone q = (decide (q = op) || c.isDone q) := by
  have := q.index_lt
  have := op.index_lt
  rw [isDone_eq, isDone_eq, getLsbD_markDone, decide_eq_false (show q.index ≠ op.index + 6 by omega),
    decide_eq_false (show q.index ≠ 31 by omega)]
  simp only [Op.index_inj, Bool.not_false, Bool.and_true, Bool.and_false, Bool.or_false]
  exact Bool.or_comm _ _

@[simp] theorem hasStreamError_markDone (ok : Bool) :
    (c.markDone op ok).hasStreamError = (!ok || c.hasStreamError) := by
  have := op.index_lt
  rw [hasStreamError_eq, hasStreamError_eq, getLsbD_markDone,
    decide_eq_false (show 31 ≠ op.index by omega), decide_eq_false (show 31 ≠ op.index + 6 by omega)]
  simp [Bool.or_comm]

end DuplexClient

end AcsNext.Collector
