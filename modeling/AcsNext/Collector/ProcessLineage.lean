import AcsNext.Collector.ProcessSignal
import AcsNext.Data.Split
import Mathlib.Data.List.ReduceOption

/-! The lineage of a process: what is reported of a chain of ancestors. -/
namespace AcsNext.Collector

open AcsNext.Data

/-- The process of the host, or of an unknown namespace, at which a chain of ancestors leaves the
container. -/
def ParentThread.AtBoundary (pt : ParentThread) : Prop :=
  pt.pid = 0 ∨ (pt.vpid = 0 ∧ pt.containerId = []) ∨ (pt.vpid ≠ 0 ∧ pt.vpid = pt.pid) ∨
    pt.vpid = -1

instance : DecidablePred ParentThread.AtBoundary := fun pt => by
  unfold ParentThread.AtBoundary
  infer_instance

theorem ParentThread.stops_iff (pt : ParentThread) : pt.stops = true ↔ pt.AtBoundary := by
  unfold stops AtBoundary
  by_cases hvpid : pt.vpid = 0
  · simp [hvpid]
  · simp [hvpid, eq_comm (a := pt.pid), or_assoc]

theorem ParentThread.stops_eq (pt : ParentThread) : pt.stops = decide pt.AtBoundary := by
  rw [Bool.eq_iff_iff, stops_iff, decide_eq_true_eq]

def insideContainer (chain : List ParentThread) : List ParentThread :=
  chain.takeWhile fun pt => !decide pt.AtBoundary

theorem insideContainer_cons_of_atBoundary {pt : ParentThread} (h : pt.AtBoundary)
    (chain : List ParentThread) : insideContainer (pt :: chain) = [] := by
  simp [insideContainer, h]

theorem insideContainer_cons {pt : ParentThread} (h : ¬ pt.AtBoundary)
    (chain : List ParentThread) :
    insideContainer (pt :: chain) = pt :: insideContainer chain := by
  simp [insideContainer, h]

/-- An ancestor inside the container, with every process up to it inside as well. -/
theorem exists_append_of_mem_insideContainer {pt : ParentThread} {chain : List ParentThread}
    (h : pt ∈ insideContainer chain) :
    ∃ before beyond, chain = before ++ pt :: beyond ∧
      ∀ ancestor ∈ before ++ [pt], ¬ ancestor.AtBoundary := by
  obtain ⟨before, rest, hsplit⟩ := List.append_of_mem h
  refine ⟨before, rest ++ chain.dropWhile fun pt => !decide pt.AtBoundary, ?_, ?_⟩
  · have hchain := chain.takeWhile_append_dropWhile (p := fun pt => !decide pt.AtBoundary)
    rw [← insideContainer, hsplit, List.append_assoc, List.cons_append] at hchain
    exact hchain.symm
  · intro ancestor hmem
    have hinside : ancestor ∈ insideContainer chain := by
      rw [hsplit]
      simp only [List.mem_append, List.mem_cons, List.not_mem_nil, or_false] at hmem ⊢
      tauto
    simpa using List.mem_takeWhile_imp hinside

def ParentThread.lineageInfo (pt : ParentThread) : LineageInfo := ⟨pt.uid, pt.exepath⟩

def sameExepath (a b : ParentThread) : Bool := decide (a.exepath = b.exepath)

/-- The nearest process of each maximal run of one path. -/
def nearestOfRuns (chain : List ParentThread) : List ParentThread :=
  (chain.splitBy sameExepath).filterMap List.head?

theorem nearestOfRuns_eq_destutter (chain : List ParentThread) :
    nearestOfRuns chain = chain.destutter fun a b => a.exepath ≠ b.exepath :=
  filterMap_head?_splitBy ParentThread.exepath chain

def reportedAncestors (chain : List ParentThread) : List ParentThread :=
  (nearestOfRuns (insideContainer chain)).take maxLineage

theorem reportedAncestors_sublist (chain : List ParentThread) :
    (reportedAncestors chain).Sublist (insideContainer chain) := by
  unfold reportedAncestors
  rw [nearestOfRuns_eq_destutter]
  exact (List.take_sublist _ _).trans (List.destutter_sublist _ _)

theorem isChain_reportedAncestors (chain : List ParentThread) :
    (reportedAncestors chain).IsChain fun a b => a.exepath ≠ b.exepath := by
  unfold reportedAncestors
  rw [nearestOfRuns_eq_destutter]
  exact (List.isChain_destutter _ _).take _

/-- A thread inside the container with the path of the last entry adds nothing. -/
theorem visitParent_same {pt last : ParentThread} (lineage : List LineageInfo)
    (h : ¬ pt.AtBoundary) (hpath : last.exepath = pt.exepath) :
    visitParent (lineage ++ [last.lineageInfo]) (some pt) =
      (lineage ++ [last.lineageInfo], decide (lineage.length + 1 < maxLineage)) := by
  simp [visitParent, ParentThread.stops_eq, h, ParentThread.lineageInfo, hpath]

theorem visitParent_new {pt : ParentThread} {lineage : List LineageInfo} (h : ¬ pt.AtBoundary)
    (hpath : ∀ info ∈ lineage.getLast?, info.parentExecFilePath ≠ pt.exepath) :
    visitParent lineage (some pt) =
      (lineage ++ [pt.lineageInfo], decide (lineage.length + 1 < maxLineage)) := by
  have hlast : ¬ lineage.getLast?.map LineageInfo.parentExecFilePath = some pt.exepath := by
    intro hsome
    obtain ⟨info, hinfo, heq⟩ := Option.map_eq_some_iff.mp hsome
    exact hpath info hinfo heq
  simp [visitParent, ParentThread.stops_eq, h, hlast, ParentThread.lineageInfo]

theorem visitParent_atBoundary {pt : ParentThread} (lineage : List LineageInfo)
    (h : pt.AtBoundary) : visitParent lineage (some pt) = (lineage, false) := by
  simp [visitParent, ParentThread.stops_eq, h]

/-- From a lineage that is not full, whose last entry reports `last`. -/
theorem traverseParentState_append (lineage : List LineageInfo) (last : ParentThread)
    (chain : List ParentThread) (hsize : lineage.length + 1 < maxLineage) :
    traverseParentState (lineage ++ [last.lineageInfo]) (chain.map some) =
      (lineage ++ ((insideContainer chain).destutter' (fun a b => a.exepath ≠ b.exepath)
        last).map ParentThread.lineageInfo).take maxLineage := by
  induction chain generalizing lineage last with
  | nil =>
    rw [List.take_of_length_le]
    · rfl
    · simpa [insideContainer] using hsize.le
  | cons pt chain ih =>
    rw [List.map_cons, traverseParentState]
    by_cases hstop : pt.AtBoundary
    · rw [visitParent_atBoundary _ hstop, insideContainer_cons_of_atBoundary hstop,
        List.take_of_length_le]
      · rfl
      · simpa using hsize.le
    rw [insideContainer_cons hstop, List.destutter'_cons]
    by_cases hpath : last.exepath = pt.exepath
    · rw [visitParent_same _ hstop hpath, if_neg (not_not.mpr hpath)]
      simp only [decide_eq_true hsize, if_true]
      exact ih lineage last hsize
    · have hnew : ∀ info ∈ (lineage ++ [last.lineageInfo]).getLast?,
          info.parentExecFilePath ≠ pt.exepath := by
        simpa [ParentThread.lineageInfo] using hpath
      rw [visitParent_new hstop hnew, if_pos hpath, List.map_cons,
        List.append_cons lineage _ (List.map _ _)]
      by_cases hmore : (lineage ++ [last.lineageInfo]).length + 1 < maxLineage
      · simp only [decide_eq_true hmore, if_true]
        exact ih _ pt hmore
      · -- the new entry fills the lineage, so nothing of the rest is reported
        have hlength : (lineage ++ [last.lineageInfo] ++ [pt.lineageInfo]).length = maxLineage := by
          simp only [List.length_append, List.length_singleton] at hmore ⊢
          omega
        obtain ⟨tail, htail⟩ := exists_destutter'_eq_cons
          (fun a b : ParentThread => a.exepath ≠ b.exepath) pt (insideContainer chain)
        simp only [decide_eq_false hmore, Bool.false_eq_true, if_false, htail, List.map_cons]
        rw [List.append_cons _ _ (List.map _ _), List.take_left' hlength]

/-- A chain without null pointers. -/
theorem traverseParentState_nil (chain : List ParentThread) :
    traverseParentState [] (chain.map some) =
      (reportedAncestors chain).map ParentThread.lineageInfo := by
  unfold reportedAncestors
  rw [nearestOfRuns_eq_destutter, List.map_take]
  cases chain with
  | nil => rfl
  | cons pt chain =>
    rw [List.map_cons, traverseParentState]
    by_cases hstop : pt.AtBoundary
    · rw [visitParent_atBoundary _ hstop, insideContainer_cons_of_atBoundary hstop]
      rfl
    · rw [visitParent_new hstop (by simp), insideContainer_cons hstop, List.destutter_cons']
      exact traverseParentState_append [] pt chain (by decide)

def ThreadInfo.knownAncestors (tinfo : ThreadInfo) : List ParentThread :=
  ((tinfo.ancestors.getD []).takeWhile Option.isSome).reduceOption

theorem traverseParentState_takeWhile (lineage : List LineageInfo)
    (ancestors : List (Option ParentThread)) :
    traverseParentState lineage ancestors =
      traverseParentState lineage ((ancestors.takeWhile Option.isSome).reduceOption.map some) := by
  induction ancestors generalizing lineage with
  | nil => rfl
  | cons pt ancestors ih =>
    cases pt with
    | none => rfl
    | some pt =>
      rw [List.takeWhile_cons_of_pos rfl, List.reduceOption_cons_of_some, List.map_cons,
        traverseParentState, traverseParentState]
      split_ifs with hmore
      · exact ih _
      · rfl

theorem getProcessLineage_eq (tinfo : ThreadInfo) :
    getProcessLineage tinfo =
      (reportedAncestors tinfo.knownAncestors).map ParentThread.lineageInfo := by
  rw [← traverseParentState_nil]
  unfold getProcessLineage ThreadInfo.knownAncestors
  cases tinfo.ancestors with
  | none => rfl
  | some ancestors => exact traverseParentState_takeWhile [] ancestors

theorem knownAncestors_of_chain {tinfo : ThreadInfo} {chain : List ParentThread}
    (h : tinfo.ancestors = some (chain.map some)) : tinfo.knownAncestors = chain := by
  have hall : (chain.map some).takeWhile Option.isSome = chain.map some := by
    rw [List.takeWhile_eq_self_iff]
    simp
  rw [ThreadInfo.knownAncestors, h, Option.getD_some, hall]
  simp [List.reduceOption]

/-- The lineage is that of the nearest processes of the first ten runs of one path before the
boundary. Every process up to one that is reported is inside the container, and neighbours in the
lineage have different paths. -/
theorem process_lineage (tinfo : ThreadInfo) (chain : List ParentThread)
    (h : tinfo.ancestors = some (chain.map some)) :
    getProcessLineage tinfo =
      ((((chain.takeWhile fun pt => !decide pt.AtBoundary).splitBy sameExepath).filterMap
        fun run => run.head?.map ParentThread.lineageInfo).take 10) ∧
    (∀ info ∈ getProcessLineage tinfo, ∃ before pt beyond,
      chain = before ++ pt :: beyond ∧ info = pt.lineageInfo ∧
        ∀ ancestor ∈ before ++ [pt], ¬ ancestor.AtBoundary) ∧
    (getProcessLineage tinfo).IsChain
      fun a b => a.parentExecFilePath ≠ b.parentExecFilePath := by
  have hlineage : getProcessLineage tinfo =
      (reportedAncestors chain).map ParentThread.lineageInfo := by
    rw [getProcessLineage_eq, knownAncestors_of_chain h]
  refine ⟨?_, ?_, ?_⟩
  · rw [hlineage, reportedAncestors, nearestOfRuns, List.map_take, List.map_filterMap]
    rfl
  · intro info hinfo
    rw [hlineage] at hinfo
    obtain ⟨pt, hpt, rfl⟩ := List.mem_map.mp hinfo
    obtain ⟨before, beyond, hsplit, hinside⟩ :=
      exists_append_of_mem_insideContainer ((reportedAncestors_sublist chain).subset hpt)
    exact ⟨before, pt, beyond, hsplit, rfl, hinside⟩
  · rw [hlineage, List.isChain_map]
    exact isChain_reportedAncestors chain

/-- Two shells under the first process of a container, and the host above them. -/
def nestedShells : List ParentThread :=
  [⟨40, 4, 1000, shellName, [99]⟩, ⟨30, 3, 0, shellName, [99]⟩, ⟨20, 1, 0, [47, 105], [99]⟩,
    ⟨10, 10, 0, [47, 104], []⟩, ⟨9, 3, 0, [47, 104], [99]⟩]

theorem process_lineage_nestedShells :
    getProcessLineage { shellThread with ancestors := some (nestedShells.map some) } =
        [⟨1000, shellName⟩, ⟨0, [47, 105]⟩] ∧
      (getProcessLineage { shellThread with ancestors := some (nestedShells.map some) }).IsChain
        fun a b => a.parentExecFilePath ≠ b.parentExecFilePath := by
  obtain ⟨hlineage, _, hchain⟩ := process_lineage
    { shellThread with ancestors := some (nestedShells.map some) } nestedShells rfl
  exact ⟨hlineage.trans (by decide), hchain⟩

end AcsNext.Collector
