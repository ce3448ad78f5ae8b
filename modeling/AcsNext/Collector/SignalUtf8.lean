import AcsNext.Collector.ProcessLineage
import AcsNext.Collector.SanitizedUTF8

/-! Which process signals have only valid UTF-8 in their string fields. -/
namespace AcsNext.Collector

open AcsNext.Data

/-- The fields that come from the process and its ancestors are valid. -/
def ProcessSignal.ValidStrings (s : ProcessSignal) : Prop :=
  ValidUtf8 s.name ∧ ValidUtf8 s.execFilePath ∧ ValidUtf8 s.args ∧
    ∀ info ∈ s.lineageInfo, ValidUtf8 info.parentExecFilePath

instance : DecidablePred ProcessSignal.ValidStrings := fun s =>
  inferInstanceAs (Decidable (ValidUtf8 s.name ∧ ValidUtf8 s.execFilePath ∧ ValidUtf8 s.args ∧
    ∀ info ∈ s.lineageInfo, ValidUtf8 info.parentExecFilePath))

section Fields

variable {spanStructurallyValid : Bytes → ℕ}
  (hspan : ∀ s, LongestValid s (spanStructurallyValid s))

include hspan

theorem validUtf8_firstPresent (first second : Option Bytes) :
    ValidUtf8 (firstPresent spanStructurallyValid first second) := by
  unfold firstPresent
  split_ifs
  · exact validUtf8_sanitized hspan _
  · exact validUtf8_sanitized hspan _
  · exact validUtf8_nil

theorem validUtf8_extractProcArgs (args : List Bytes) :
    ValidUtf8 (extractProcArgs spanStructurallyValid args) := by
  apply ValidUtf8.intercalate (validUtf8_ascii (by decide))
  intro s hs
  obtain ⟨arg, _, rfl⟩ := List.mem_map.mp hs
  exact validUtf8_sanitized hspan arg

theorem validUtf8_eventArgs (config : FormatterConfig) (procArgs : Option Bytes) :
    ValidUtf8 (if config.disableProcessArguments then []
      else (procArgs.map (sanitized spanStructurallyValid)).getD []) := by
  split_ifs
  · exact validUtf8_nil
  · cases procArgs with
    | none => exact validUtf8_nil
    | some args => exact validUtf8_sanitized hspan args

end Fields

theorem validUtf8_lineage_iff (tinfo : ThreadInfo) :
    (∀ info ∈ getProcessLineage tinfo, ValidUtf8 info.parentExecFilePath) ↔
      ∀ run ∈ ((insideContainer tinfo.knownAncestors).splitBy sameExepath).take maxLineage,
        ∀ pt ∈ run, ValidUtf8 pt.exepath := by
  rw [getProcessLineage_eq, List.forall_mem_map]
  exact forall_take_head?_splitBy ParentThread.exepath (insideContainer tinfo.knownAncestors)
    maxLineage ValidUtf8

/-- All strings of a signal are valid exactly when the paths in the first ten runs of ancestors
before the boundary are. -/
theorem signal_valid_utf8_iff (protobuf : Protobuf)
    (hspan : ∀ s, LongestValid s (protobuf.spanStructurallyValid s)) (config : FormatterConfig)
    (uuid : Bytes) (event : SinspEvt) (tinfo : ThreadInfo) :
    ((createProcessSignalOfEvent protobuf config uuid event tinfo).ValidStrings ↔
      ∀ run ∈ ((insideContainer tinfo.knownAncestors).splitBy sameExepath).take maxLineage,
        ∀ pt ∈ run, ValidUtf8 pt.exepath) ∧
    ((createProcessSignalOfThread protobuf uuid tinfo).ValidStrings ↔
      ∀ run ∈ ((insideContainer tinfo.knownAncestors).splitBy sameExepath).take maxLineage,
        ∀ pt ∈ run, ValidUtf8 pt.exepath) := by
  have hname := validUtf8_firstPresent hspan (some tinfo.comm) (some tinfo.exepath)
  have hpath := validUtf8_firstPresent hspan (some tinfo.exepath) (some tinfo.comm)
  have hargs := validUtf8_eventArgs hspan config event.procArgs
  have hargs' := validUtf8_extractProcArgs hspan tinfo.args
  rw [← validUtf8_lineage_iff]
  constructor
  · exact ⟨fun h => h.2.2.2, fun h => ⟨hname, hpath, hargs, h⟩⟩
  · exact ⟨fun h => h.2.2.2, fun h => ⟨hname, hpath, hargs', h⟩⟩

def utf8Protobuf : Protobuf := { asciiProtobuf with spanStructurallyValid := longestValid }

/-- A thread whose own strings are no text, started by shells of a container. -/
def garbledThread : ThreadInfo :=
  { shellThread with
    comm := [0xFF]
    exepath := brokenText
    args := [[0x80], [97]]
    ancestors := some (nestedShells.map some) }

theorem signal_valid_utf8_garbledThread :
    (createProcessSignalOfEvent utf8Protobuf ⟨false⟩ [1]
        ⟨true, some garbledThread, some [0x80], 5⟩ garbledThread).ValidStrings ∧
      (createProcessSignalOfThread utf8Protobuf [1] garbledThread).ValidStrings := by
  obtain ⟨hevent, hthread⟩ := signal_valid_utf8_iff utf8Protobuf longestValid_spec ⟨false⟩ [1]
    ⟨true, some garbledThread, some [0x80], 5⟩ garbledThread
  exact ⟨hevent.mpr (by decide +kernel), hthread.mpr (by decide +kernel)⟩

/-- A shell that was started by a program whose path ends in a stray byte. -/
def strayParentThread : ThreadInfo :=
  { shellThread with ancestors := some [some ⟨40, 4, 0, [47, 0x80], [99]⟩] }

/-- The path of the parent reaches both signals as it is. -/
theorem signal_not_valid_utf8 :
    ¬ (createProcessSignalOfEvent utf8Protobuf ⟨false⟩ [1]
        ⟨true, some strayParentThread, none, 5⟩ strayParentThread).ValidStrings ∧
      ¬ (createProcessSignalOfThread utf8Protobuf [1] strayParentThread).ValidStrings := by
  decide +kernel

end AcsNext.Collector
