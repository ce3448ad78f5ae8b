import AcsNext.Data.JsonScanner
import AcsNext.Data.ProtoWire
import AcsNext.Collector.ProcessSignal
import AcsNext.Policy.Engine

/-! Process events on the broker: how the collector writes them and how the evaluators read
them. -/
namespace AcsNext.Collector

open AcsNext.Data AcsNext.Policy

namespace Broker

structure ProcessEvent where
  clusterId : Bytes
  timestamp : Option Timestamp
  containerId : Bytes
  id : Bytes
  name : Bytes
  execFilePath : Bytes
  args : Bytes
  pid : BitVec 64
  uid : BitVec 32
  gid : BitVec 32
  lineage : List LineageInfo
deriving DecidableEq

def encodeTimestamp (t : Timestamp) : Bytes :=
  Proto.int64Field 1 (BitVec.ofInt 64 t.seconds) ++ Proto.int32Field 2 (BitVec.ofInt 32 t.nanos)

def encodeLineageInfo (l : LineageInfo) : Bytes :=
  Proto.stringField 1 l.parentExecFilePath ++ Proto.uint32Field 2 l.parentUid

def ProcessEvent.encode (event : ProcessEvent) : Bytes :=
  Proto.stringField 1 event.clusterId ++
  Proto.messageField 2 (event.timestamp.map encodeTimestamp) ++
  Proto.stringField 3 event.containerId ++
  Proto.stringField 10 event.id ++
  Proto.stringField 11 event.name ++
  Proto.stringField 12 event.execFilePath ++
  Proto.stringField 13 event.args ++
  Proto.uint64Field 14 event.pid ++
  Proto.uint32Field 15 event.uid ++
  Proto.uint32Field 16 event.gid ++
  Proto.repeatedField 20 (event.lineage.map encodeLineageInfo)

/-- A message of more than `INT_MAX` bytes is not serialised. -/
def ProcessEvent.serializeToString (event : ProcessEvent) : Option Bytes :=
  if event.encode.length < 2 ^ 31 then some event.encode else none

end Broker

def convertToProcessEvent (signal : ProcessSignal) (clusterId : Bytes) : Broker.ProcessEvent where
  clusterId := clusterId
  timestamp := signal.time
  containerId := signal.containerId
  id := signal.id
  name := signal.name
  execFilePath := signal.execFilePath
  args := signal.args
  pid := signal.pid.setWidth 64
  uid := signal.uid
  gid := signal.gid
  lineage := signal.lineageInfo

/-- What `natsConnection_Publish` answers, and whether the connection is closed afterwards. -/
inductive PublishStatus where
  | ok
  | failed (closed : Bool)
deriving DecidableEq, Repr

structure Message where
  subject : Bytes
  data : Bytes
deriving DecidableEq

structure NatsSignalServiceClient where
  clusterId : Bytes
  connected : Bool
deriving DecidableEq

def utf8 (s : String) : Bytes := s.toUTF8.toList

namespace NatsSignalServiceClient

variable (client : NatsSignalServiceClient)

def buildSubject (eventType : String) : Bytes :=
  utf8 "acs." ++ client.clusterId ++ utf8 "." ++ utf8 eventType

/-- The result, the client afterwards, and what was handed over to the broker; a message
without a process signal is `none`. -/
def pushSignals (signal : Option ProcessSignal) (status : PublishStatus) :
    SignalResult × NatsSignalServiceClient × Option Message :=
  if !client.connected then (.error, client, none)
  else
    match signal with
    | none => (.processed, client, none)
    | some signal =>
      match (convertToProcessEvent signal client.clusterId).serializeToString with
      | none => (.error, client, none)
      | some serialized =>
        match status with
        | .ok => (.processed, client, some ⟨client.buildSubject "process-events", serialized⟩)
        | .failed closed => (.error, { client with connected := !closed }, none)

end NatsSignalServiceClient

section Consumer

-- the second pass of `encoding/json`, which fills the fields from a text known to be valid
variable (decodeValue : Bytes → Option ProcessEvent)

/-- `json.Unmarshal`: the whole text is scanned before anything is decoded. -/
def unmarshal (data : Bytes) : Option ProcessEvent :=
  if Json.checkValid data then decodeValue data else none

/-- The violations that the handler passes on; `none` is a logged decoding error. -/
def handleProcessMessage (order : MapOrder) (engine : Engine) (msg : Message) :
    Option (List Violation) :=
  (unmarshal decodeValue msg.data).map fun event => engine.evaluateProcessEvent order event

def processNamePolicy (values : List String) : List PolicySection :=
  [⟨[⟨"Process Name", .unset, false, values⟩]⟩]

/-- The message is decoded into the signal's name and path, and a policy on them fires as it
would on the signal. -/
def AgreesOn (signal : ProcessSignal) (msg : Message) : Prop :=
  ∃ event, unmarshal decodeValue msg.data = some event ∧
    utf8 event.processName = signal.name ∧
    utf8 event.executable = signal.execFilePath ∧
    (signal.execFilePath ≠ [] → ∀ (spec : PolicySpec) (values : List String),
      spec.disabled = false → .runtime ∈ spec.lifecycleStages →
      spec.policySections = processNamePolicy values →
      (spec.Fires .runtime
          (Subject.process event.processName event.executable).context ↔
        ∃ v ∈ values, utf8 v = signal.execFilePath ∨ utf8 v = signal.name))

end Consumer

theorem time_toProtoMessageOfEvent {protobuf : Protobuf} {config : FormatterConfig}
    {uuid : Bytes} {event : SinspEvt} {signal : ProcessSignal}
    (h : toProtoMessageOfEvent protobuf config uuid event = some signal) :
    signal.time.isSome = true := by
  unfold toProtoMessageOfEvent at h
  split_ifs at h
  split at h
  · cases h
  · split_ifs at h
    cases h
    rfl

theorem time_toProtoMessageOfThread {protobuf : Protobuf} {config : FormatterConfig}
    {uuid : Bytes} {tinfo : Option ThreadInfo} {signal : ProcessSignal}
    (h : toProtoMessageOfThread protobuf config uuid tinfo = some signal) :
    signal.time.isSome = true := by
  unfold toProtoMessageOfThread at h
  split at h
  · cases h
  · split_ifs at h
    cases h
    rfl

theorem control_mem_encode (signal : ProcessSignal) (clusterId : Bytes)
    (h : signal.time.isSome = true) :
    ∃ c ∈ (convertToProcessEvent signal clusterId).encode, Json.isControl c = true := by
  refine ⟨18, ?_, by decide⟩
  have hmem : (18 : UInt8) ∈ Proto.messageField 2 (signal.time.map Broker.encodeTimestamp) := by
    apply Proto.mem_messageField
    · norm_num
    · rw [Option.isSome_map, h]
  unfold Broker.ProcessEvent.encode
  simp only [convertToProcessEvent, List.mem_append]
  tauto

/-- What reaches the broker is the serialised signal, on the subject of process events. -/
theorem pushSignals_some {client : NatsSignalServiceClient} {signal : ProcessSignal}
    {status : PublishStatus} {msg : Message}
    (h : (client.pushSignals (some signal) status).2.2 = some msg) :
    msg = ⟨client.buildSubject "process-events",
      (convertToProcessEvent signal client.clusterId).encode⟩ := by
  unfold NatsSignalServiceClient.pushSignals at h
  split_ifs at h
  simp only [Broker.ProcessEvent.serializeToString] at h
  by_cases hsize : (convertToProcessEvent signal client.clusterId).encode.length < 2 ^ 31
  · rw [if_pos hsize] at h
    cases status with
    | ok => exact (Option.some.inj h).symm
    | failed closed => cases h
  · rw [if_neg hsize] at h
    cases h

theorem unmarshal_pushSignals (decodeValue : Bytes → Option ProcessEvent)
    {client : NatsSignalServiceClient} {signal : ProcessSignal} {status : PublishStatus}
    {msg : Message} (htime : signal.time.isSome = true)
    (h : (client.pushSignals (some signal) status).2.2 = some msg) :
    unmarshal decodeValue msg.data = none := by
  have hdata : msg.data = (convertToProcessEvent signal client.clusterId).encode := by
    rw [pushSignals_some h]
  have hinvalid : Json.checkValid msg.data = false := by
    rw [hdata]
    exact Json.checkValid_of_isControl (control_mem_encode signal client.clusterId htime)
  unfold unmarshal
  rw [hinvalid]
  rfl

/-- A signal that the formatter builds, from an event or from a running thread. -/
def FormattedSignal (protobuf : Protobuf) (config : FormatterConfig)
    (signal : ProcessSignal) : Prop :=
  (∃ uuid event, toProtoMessageOfEvent protobuf config uuid event = some signal) ∨
  ∃ uuid tinfo, toProtoMessageOfThread protobuf config uuid tinfo = some signal

/-- No published signal is decoded: whatever the second pass of the decoder would do, every
consumer of the subject logs an error and evaluates no policy. -/
theorem published_signal_never_decoded (protobuf : Protobuf)
    (config : FormatterConfig) (decodeValue : Bytes → Option ProcessEvent)
    (client : NatsSignalServiceClient) (signal : ProcessSignal) (status : PublishStatus)
    (msg : Message) (hformat : FormattedSignal protobuf config signal)
    (hpush : (client.pushSignals (some signal) status).2.2 = some msg) :
    msg.subject = client.buildSubject "process-events" ∧
    unmarshal decodeValue msg.data = none ∧
    (∀ order engine, handleProcessMessage decodeValue order engine msg = none) ∧
    ¬ AgreesOn decodeValue signal msg := by
  have htime : signal.time.isSome = true := by
    rcases hformat with ⟨uuid, event, h⟩ | ⟨uuid, tinfo, h⟩
    · exact time_toProtoMessageOfEvent h
    · exact time_toProtoMessageOfThread h
  have hnone := unmarshal_pushSignals decodeValue htime hpush
  refine ⟨?_, hnone, ?_, ?_⟩
  · rw [pushSignals_some hpush]
  · intro order engine
    unfold handleProcessMessage
    rw [hnone]
    rfl
  · rintro ⟨event, hevent, -⟩
    rw [hnone] at hevent
    cases hevent

def connectedClient : NatsSignalServiceClient := ⟨[99], true⟩

def shellSignal : ProcessSignal := createProcessSignalOfThread asciiProtobuf [117] shellThread

/-- A second pass that finds the very name and path of the shell. -/
def shellDecoder (_ : Bytes) : Option ProcessEvent := some ⟨⟨"prod", "web-0"⟩, "sh", "sh"⟩

def shellMessage : Message :=
  ⟨connectedClient.buildSubject "process-events",
    (convertToProcessEvent shellSignal connectedClient.clusterId).encode⟩

theorem shellSignal_never_decoded :
    (connectedClient.pushSignals (some shellSignal) .ok).2.2 = some shellMessage ∧
    ¬ AgreesOn shellDecoder shellSignal shellMessage := by
  have hpush : (connectedClient.pushSignals (some shellSignal) .ok).2.2 = some shellMessage := rfl
  have hformat : FormattedSignal asciiProtobuf ⟨false⟩ shellSignal :=
    Or.inr ⟨[117], some shellThread, rfl⟩
  refine ⟨hpush, ?_⟩
  exact (published_signal_never_decoded asciiProtobuf ⟨false⟩ shellDecoder connectedClient
    shellSignal .ok shellMessage hformat hpush).2.2.2

/-- The shell's signal is published and its payload is no JSON text. -/
theorem shellSignal_rejected :
    (connectedClient.pushSignals (some shellSignal) .ok).2.2 = some shellMessage ∧
    shellMessage.data = [10, 1, 99, 18, 3, 16, 232, 7, 26, 1, 99, 82, 1, 117, 90, 2, 115, 104,
      98, 2, 115, 104, 112, 7] ∧
    unmarshal shellDecoder shellMessage.data = none ∧
    ¬ AgreesOn shellDecoder shellSignal shellMessage := by
  have hnone : unmarshal shellDecoder shellMessage.data = none := by decide
  refine ⟨rfl, by decide, hnone, ?_⟩
  rintro ⟨event, hevent, -⟩
  rw [hnone] at hevent
  cases hevent

end AcsNext.Collector
