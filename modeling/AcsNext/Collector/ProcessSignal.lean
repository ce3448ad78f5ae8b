import Mathlib.Tactic

/-! Process signals: how the formatter builds them from events and from the threads that
already run. -/
namespace AcsNext.Collector

/-- The bytes of a `std::string`. -/
abbrev Bytes := List UInt8

def notAvailable : Bytes := [60, 78, 65, 62]

def questionMark : UInt8 := 63

section Sanitize

-- `utf8_range::SpanStructurallyValid`: the length of the longest valid prefix
variable (spanStructurallyValid : Bytes → ℕ)

/-- The loop of `sanitizedUTF8`; its first argument counts the bytes known to be valid. -/
def replaceInvalid : ℕ → Bytes → Bytes
  | _, [] => []
  | 0, _ :: str => questionMark :: replaceInvalid (spanStructurallyValid str) str
  | len + 1, b :: str => b :: replaceInvalid len str

def sanitizedUTF8 (str : Bytes) : Option Bytes :=
  let len := spanStructurallyValid str
  if len = str.length then none else some (replaceInvalid spanStructurallyValid len str)

/-- The sanitised copy if there is one, else the string itself. -/
def sanitized (str : Bytes) : Bytes := (sanitizedUTF8 spanStructurallyValid str).getD str

end Sanitize

structure ParentThread where
  pid : ℤ
  vpid : ℤ
  uid : BitVec 32
  exepath : Bytes
  containerId : Bytes
deriving DecidableEq

/-- `ancestors` are the threads that `traverse_parent_state` visits from the main thread, a
null pointer being `none`; there is no list if the main thread cannot be found. -/
structure ThreadInfo where
  comm : Bytes
  exepath : Bytes
  args : List Bytes
  pid : ℤ
  uid : BitVec 32
  gid : BitVec 32
  cloneTs : ℤ
  containerId : Bytes
  ancestors : Option (List (Option ParentThread))
deriving DecidableEq

/-- `procArgs` is the field `proc.args` as the inspector renders it. -/
structure SinspEvt where
  isExecve : Bool
  threadInfo : Option ThreadInfo
  procArgs : Option Bytes
  ts : ℤ
deriving DecidableEq

structure Timestamp where
  seconds : ℤ
  nanos : ℤ
deriving DecidableEq

/-- What the formatter uses of the protobuf library: `utf8_range::SpanStructurallyValid` and
`TimeUtil::NanosecondsToTimestamp`. -/
structure Protobuf where
  spanStructurallyValid : Bytes → ℕ
  nanosecondsToTimestamp : ℤ → Timestamp

structure LineageInfo where
  parentUid : BitVec 32
  parentExecFilePath : Bytes
deriving DecidableEq

structure ProcessSignal where
  id : Bytes
  containerId : Bytes
  time : Option Timestamp
  name : Bytes
  args : Bytes
  execFilePath : Bytes
  pid : BitVec 32
  uid : BitVec 32
  gid : BitVec 32
  lineageInfo : List LineageInfo
  scraped : Bool
deriving DecidableEq

inductive SignalResult where
  | processed
  | ignored
  | error
  | needsRefresh
  | finished
deriving DecidableEq, Repr

def ProcessSignal.upToId (s : ProcessSignal) : ProcessSignal := { s with id := [] }

def maxLineage : ℕ := 10

/-- Whether the traversal stops at the thread: at the host's boundary, or at a thread whose
namespace is not known. -/
def ParentThread.stops (pt : ParentThread) : Bool :=
  pt.pid == 0 ||
    (if pt.vpid = 0 then pt.containerId == [] else pt.pid == pt.vpid) ||
    pt.vpid == -1

/-- The lineage after one visit, and whether the traversal goes on. -/
def visitParent (lineage : List LineageInfo) (pt : Option ParentThread) :
    List LineageInfo × Bool :=
  match pt with
  | none => (lineage, false)
  | some pt =>
    if pt.stops then (lineage, false)
    else
      let lineage :=
        if (lineage.getLast?.map LineageInfo.parentExecFilePath) = some pt.exepath then lineage
        else lineage ++ [⟨pt.uid, pt.exepath⟩]
      (lineage, decide (lineage.length < maxLineage))

def traverseParentState : List LineageInfo → List (Option ParentThread) → List LineageInfo
  | lineage, [] => lineage
  | lineage, pt :: rest =>
    let visited := visitParent lineage pt
    if visited.2 then traverseParentState visited.1 rest else visited.1

def getProcessLineage (tinfo : ThreadInfo) : List LineageInfo :=
  match tinfo.ancestors with
  | none => []
  | some ancestors => traverseParentState [] ancestors

structure FormatterConfig where
  disableProcessArguments : Bool
deriving DecidableEq, Repr

def ThreadInfo.validateProcessDetails (tinfo : ThreadInfo) : Bool :=
  !(tinfo.exepath == notAvailable && tinfo.comm == notAvailable)

/-- A string that is neither missing nor empty nor the text `<NA>`. -/
def isPresent (s : Option Bytes) : Bool :=
  match s with
  | none => false
  | some s => s != [] && s != notAvailable

section Formatter

section Strings

variable (spanStructurallyValid : Bytes → ℕ)

/-- The first string, or the second one if the first is missing; an unset field is empty. -/
def firstPresent (first second : Option Bytes) : Bytes :=
  if isPresent first then sanitized spanStructurallyValid (first.getD [])
  else if isPresent second then sanitized spanStructurallyValid (second.getD [])
  else []

def extractProcArgs (args : List Bytes) : Bytes :=
  [32].intercalate (args.map (sanitized spanStructurallyValid))

end Strings

variable (protobuf : Protobuf) (config : FormatterConfig)

def createProcessSignalOfEvent (uuid : Bytes) (event : SinspEvt) (tinfo : ThreadInfo) :
    ProcessSignal where
  id := uuid
  name := firstPresent protobuf.spanStructurallyValid (some tinfo.comm) (some tinfo.exepath)
  execFilePath := firstPresent protobuf.spanStructurallyValid (some tinfo.exepath) (some tinfo.comm)
  args :=
    if config.disableProcessArguments then []
    else (event.procArgs.map (sanitized protobuf.spanStructurallyValid)).getD []
  pid := BitVec.ofInt 32 tinfo.pid
  uid := tinfo.uid
  gid := tinfo.gid
  time := some (protobuf.nanosecondsToTimestamp event.ts)
  containerId := tinfo.containerId
  lineageInfo := getProcessLineage tinfo
  scraped := false

def createProcessSignalOfThread (uuid : Bytes) (tinfo : ThreadInfo) : ProcessSignal where
  id := uuid
  name := firstPresent protobuf.spanStructurallyValid (some tinfo.comm) (some tinfo.exepath)
  execFilePath := firstPresent protobuf.spanStructurallyValid (some tinfo.exepath) (some tinfo.comm)
  args := extractProcArgs protobuf.spanStructurallyValid tinfo.args
  pid := BitVec.ofInt 32 tinfo.pid
  uid := tinfo.uid
  gid := tinfo.gid
  time := some (protobuf.nanosecondsToTimestamp tinfo.cloneTs)
  containerId := tinfo.containerId
  lineageInfo := getProcessLineage tinfo
  scraped := true

def toProtoMessageOfEvent (uuid : Bytes) (event : SinspEvt) : Option ProcessSignal :=
  if !event.isExecve then none
  else
    match event.threadInfo with
    | none => none
    | some tinfo =>
      if !tinfo.validateProcessDetails then none
      else some (createProcessSignalOfEvent protobuf config uuid event tinfo)

/-- `ToProtoMessage` of a running thread; `none` is a null pointer. The configuration is at
hand here too, but nothing reads it. -/
def toProtoMessageOfThread (_config : FormatterConfig) (uuid : Bytes)
    (tinfo : Option ThreadInfo) : Option ProcessSignal :=
  match tinfo with
  | none => none
  | some tinfo =>
    if !tinfo.validateProcessDetails then none
    else some (createProcessSignalOfThread protobuf uuid tinfo)

end Formatter

def ThreadInfo.withArgs (tinfo : ThreadInfo) (args : List Bytes) : ThreadInfo :=
  { tinfo with args := args }

def SinspEvt.withArgs (event : SinspEvt) (procArgs : Option Bytes)
    (args : List Bytes) : SinspEvt :=
  { event with
    procArgs := procArgs
    threadInfo := event.threadInfo.map fun tinfo => tinfo.withArgs args }

section Arguments

variable (protobuf : Protobuf) {config : FormatterConfig}

/-- With arguments disabled, the signal of an event is that of the event without any. -/
theorem toProtoMessageOfEvent_withArgs (h : config.disableProcessArguments = true) (uuid : Bytes)
    (event : SinspEvt) (procArgs : Option Bytes) (args : List Bytes) :
    (toProtoMessageOfEvent protobuf config uuid (event.withArgs procArgs args)).map
        ProcessSignal.upToId =
      (toProtoMessageOfEvent protobuf config [] (event.withArgs none [])).map
        ProcessSignal.upToId := by
  unfold toProtoMessageOfEvent SinspEvt.withArgs
  cases event.threadInfo with
  | none => rfl
  | some tinfo =>
    have hsignal : (createProcessSignalOfEvent protobuf config uuid
        ⟨event.isExecve, some (tinfo.withArgs args), procArgs, event.ts⟩
          (tinfo.withArgs args)).upToId =
        (createProcessSignalOfEvent protobuf config []
          ⟨event.isExecve, some (tinfo.withArgs []), none, event.ts⟩
            (tinfo.withArgs [])).upToId := by
      simp only [createProcessSignalOfEvent, ProcessSignal.upToId, h, if_true]
      rfl
    have hvalid : (tinfo.withArgs args).validateProcessDetails =
        (tinfo.withArgs []).validateProcessDetails := rfl
    simp only [Option.map_some, hvalid]
    split_ifs with hexec hdrop
    · rfl
    · rfl
    · exact congrArg some hsignal

/-- The signal of a running thread has its arguments whatever the configuration says. -/
theorem toProtoMessageOfThread_withArgs_iff (uuid uuid' : Bytes) (tinfo : ThreadInfo)
    (args args' : List Bytes) :
    (toProtoMessageOfThread protobuf config uuid (some (tinfo.withArgs args))).map
          ProcessSignal.upToId =
        (toProtoMessageOfThread protobuf config uuid' (some (tinfo.withArgs args'))).map
          ProcessSignal.upToId ↔
      tinfo.validateProcessDetails = false ∨
        extractProcArgs protobuf.spanStructurallyValid args =
          extractProcArgs protobuf.spanStructurallyValid args' := by
  have hvalid (l : List Bytes) :
      (tinfo.withArgs l).validateProcessDetails = tinfo.validateProcessDetails := rfl
  simp only [toProtoMessageOfThread, hvalid]
  cases tinfo.validateProcessDetails with
  | false => simp
  | true =>
    simp only [Bool.not_true, Bool.false_eq_true, if_false, Option.map_some, Option.some.injEq,
      Bool.true_eq_false, false_or]
    constructor
    · intro h
      exact congrArg ProcessSignal.args h
    · intro h
      simp only [createProcessSignalOfThread, ProcessSignal.upToId, ThreadInfo.withArgs, h]
      rfl

end Arguments

/-- The part of a signal that both paths take from the same attributes. -/
def ProcessSignal.shared (s : ProcessSignal) : Bytes × Bytes × List LineageInfo :=
  (s.name, s.execFilePath, s.lineageInfo)

theorem shared_toProtoMessage (protobuf : Protobuf) (config config' : FormatterConfig)
    (uuid uuid' : Bytes) (event : SinspEvt) (hexec : event.isExecve = true) :
    (toProtoMessageOfEvent protobuf config uuid event).map ProcessSignal.shared =
      (toProtoMessageOfThread protobuf config' uuid' event.threadInfo).map
        ProcessSignal.shared := by
  unfold toProtoMessageOfEvent toProtoMessageOfThread
  cases event.threadInfo with
  | none => simp
  | some tinfo =>
    cases hvalid : tinfo.validateProcessDetails with
    | false => simp [hexec, hvalid]
    | true =>
      simp only [hexec, hvalid, Bool.not_true, Bool.false_eq_true, if_false, Option.map_some]
      rfl

/-- With arguments disabled no signal of an event depends on them; the signals of running
threads agree exactly when the threads are dropped or their joined arguments are the same. With
arguments enabled the two paths agree on name, path and lineage. -/
theorem arguments_hidden_iff (protobuf : Protobuf) (config : FormatterConfig) :
    (config.disableProcessArguments = true →
      ∀ (uuid uuid' : Bytes) (event : SinspEvt) (procArgs procArgs' : Option Bytes)
        (args args' : List Bytes),
        (toProtoMessageOfEvent protobuf config uuid
            (event.withArgs procArgs args)).map ProcessSignal.upToId =
          (toProtoMessageOfEvent protobuf config uuid'
            (event.withArgs procArgs' args')).map ProcessSignal.upToId) ∧
    (config.disableProcessArguments = true →
      ∀ (uuid uuid' : Bytes) (tinfo : ThreadInfo) (args args' : List Bytes),
        ((toProtoMessageOfThread protobuf config uuid
            (some (tinfo.withArgs args))).map ProcessSignal.upToId =
          (toProtoMessageOfThread protobuf config uuid'
            (some (tinfo.withArgs args'))).map ProcessSignal.upToId ↔
        tinfo.validateProcessDetails = false ∨
          extractProcArgs protobuf.spanStructurallyValid args =
            extractProcArgs protobuf.spanStructurallyValid args')) ∧
    (config.disableProcessArguments = false →
      ∀ (uuid uuid' : Bytes) (event : SinspEvt), event.isExecve = true →
        (toProtoMessageOfEvent protobuf config uuid event).map ProcessSignal.shared =
          (toProtoMessageOfThread protobuf config uuid' event.threadInfo).map
            ProcessSignal.shared) := by
  refine ⟨?_, ?_, ?_⟩
  · intro h uuid uuid' event procArgs procArgs' args args'
    have hleft := toProtoMessageOfEvent_withArgs protobuf h uuid event procArgs args
    have hright := toProtoMessageOfEvent_withArgs protobuf h uuid' event procArgs' args'
    exact hleft.trans hright.symm
  · intro _ uuid uuid' tinfo args args'
    exact toProtoMessageOfThread_withArgs_iff protobuf uuid uuid' tinfo args args'
  · intro _ uuid uuid' event hexec
    exact shared_toProtoMessage protobuf config config uuid uuid' event hexec

/-- The valid prefix of a string without multi-byte characters. -/
def asciiSpan (str : Bytes) : ℕ := (str.takeWhile fun b => decide (b < 128)).length

def asciiProtobuf : Protobuf :=
  ⟨asciiSpan, fun ns => ⟨ns / 1000000000, ns % 1000000000⟩⟩

def shellName : Bytes := [115, 104]

def shellThread : ThreadInfo :=
  ⟨shellName, shellName, [], 7, 0, 0, 1000, [99], some []⟩

def shellEvt : SinspEvt := ⟨true, some shellThread, none, 1000⟩

theorem arguments_hidden_shellThread :
    (toProtoMessageOfEvent asciiProtobuf ⟨true⟩ [1] (shellEvt.withArgs (some [97]) [[97]])).map
        ProcessSignal.upToId =
      (toProtoMessageOfEvent asciiProtobuf ⟨true⟩ [2] (shellEvt.withArgs (some [98]) [[98]])).map
        ProcessSignal.upToId ∧
    (toProtoMessageOfThread asciiProtobuf ⟨true⟩ [1]
        (some (shellThread.withArgs [[97, 32, 98]]))).map ProcessSignal.upToId =
      (toProtoMessageOfThread asciiProtobuf ⟨true⟩ [2]
        (some (shellThread.withArgs [[97], [98]]))).map ProcessSignal.upToId ∧
    (toProtoMessageOfEvent asciiProtobuf ⟨false⟩ [1] shellEvt).map ProcessSignal.shared =
      (toProtoMessageOfThread asciiProtobuf ⟨false⟩ [2] (some shellThread)).map
        ProcessSignal.shared := by
  refine ⟨?_, ?_, ?_⟩
  · exact (arguments_hidden_iff asciiProtobuf ⟨true⟩).1 rfl [1] [2] shellEvt _ _ _ _
  · refine ((arguments_hidden_iff asciiProtobuf ⟨true⟩).2.1 rfl [1] [2] shellThread _ _).mpr ?_
    exact Or.inr (by decide)
  · exact (arguments_hidden_iff asciiProtobuf ⟨false⟩).2.2 rfl [1] [2] shellEvt rfl

/-- The signal of a running shell carries its arguments although they are disabled. -/
theorem arguments_leak_shellThread :
    (toProtoMessageOfThread asciiProtobuf ⟨true⟩ [1] (some (shellThread.withArgs [[97]]))).map
        ProcessSignal.args = some [97] ∧
    (toProtoMessageOfThread asciiProtobuf ⟨true⟩ [1] (some (shellThread.withArgs [[97]]))).map
        ProcessSignal.upToId ≠
      (toProtoMessageOfThread asciiProtobuf ⟨true⟩ [1] (some (shellThread.withArgs [[98]]))).map
        ProcessSignal.upToId := by
  decide

end AcsNext.Collector
