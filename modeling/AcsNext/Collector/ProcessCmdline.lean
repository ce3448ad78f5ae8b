import AcsNext.Collector.ProcessSignal

/-! Command lines: the text that the scraper reads in `/proc`, and the one that is built from the
arguments of a thread. -/
namespace AcsNext.Collector

structure CmdlineReader where
  didExe : Bool
  argCompleted : Bool
  stringbuf : Bytes
  exe : Bytes
deriving DecidableEq

namespace CmdlineReader

def step (r : CmdlineReader) (c : UInt8) : CmdlineReader :=
  if c ≠ 0 then
    -- the space before an argument is written with its first character
    if r.argCompleted then { r with stringbuf := r.stringbuf ++ [32, c], argCompleted := false }
    else { r with stringbuf := r.stringbuf ++ [c] }
  else if r.didExe then { r with argCompleted := true }
  else { r with exe := r.stringbuf, stringbuf := [], didExe := true }

def run (r : CmdlineReader) (text : Bytes) : CmdlineReader := text.foldl step r

@[simp] theorem run_nil (r : CmdlineReader) : r.run [] = r := rfl

@[simp] theorem run_cons (r : CmdlineReader) (c : UInt8) (text : Bytes) :
    r.run (c :: text) = (r.step c).run text := rfl

theorem run_append (r : CmdlineReader) (text text' : Bytes) :
    r.run (text ++ text') = (r.run text).run text' := List.foldl_append

end CmdlineReader

/-- `ReadProcessCmdline` with the strings that its last two arguments refer to; there is no
content if the file cannot be opened. -/
def readProcessCmdline (cmdline : Option Bytes) (exe args : Bytes) : Bool × Bytes × Bytes :=
  match cmdline with
  | none => (false, exe, args)
  | some text =>
    let r := CmdlineReader.run ⟨false, false, [], exe⟩ text
    (true, r.exe, r.stringbuf)

def joinArgs : List Bytes → Bytes
  | [] => []
  | [arg] => arg
  | arg :: arg' :: args => arg ++ 32 :: joinArgs (arg' :: args)

/-- `Process::NOT_AVAILABLE`, the text `N/A`. -/
def processNotAvailable : Bytes := [78, 47, 65]

/-- `Process::args`; without thread information it is not available. -/
def processArgs (args : Option (List Bytes)) : Bytes :=
  match args with
  | none => processNotAvailable
  | some args => if args.isEmpty then [] else joinArgs args

theorem joinArgs_eq_intercalate (args : List Bytes) : joinArgs args = [32].intercalate args := by
  induction args with
  | nil => rfl
  | cons arg args ih =>
    cases args with
    | nil => simp [joinArgs]
    | cons arg' args =>
      rw [joinArgs, ih, List.intercalate_cons_cons]
      simp

theorem processArgs_eq_intercalate (args : List Bytes) :
    processArgs (some args) = [32].intercalate args := by
  rw [← joinArgs_eq_intercalate]
  cases args <;> rfl

/-- The formatter sends what `Process::args` returns if it has nothing to sanitise. -/
theorem extractProcArgs_eq_processArgs (spanStructurallyValid : Bytes → ℕ) (args : List Bytes)
    (h : ∀ arg ∈ args, spanStructurallyValid arg = arg.length) :
    extractProcArgs spanStructurallyValid args = processArgs (some args) := by
  have hsame : args.map (sanitized spanStructurallyValid) = args.map id :=
    List.map_congr_left fun arg harg => by simp [sanitized, sanitizedUTF8, h arg harg]
  rw [processArgs_eq_intercalate, extractProcArgs, hsame, List.map_id]

/-- What the kernel writes: a NUL after each argument. -/
def kernelCmdline (argv : List Bytes) : Bytes := argv.flatMap fun arg => arg ++ [0]

namespace CmdlineReader

def contribution (argCompleted : Bool) (arg : Bytes) : Bytes :=
  if arg = [] then [] else if argCompleted then 32 :: arg else arg

theorem run_of_not_mem (r : CmdlineReader) {arg : Bytes} (h : 0 ∉ arg) :
    r.run arg = { r with
      stringbuf := r.stringbuf ++ contribution r.argCompleted arg
      argCompleted := r.argCompleted && arg.isEmpty } := by
  induction arg generalizing r with
  | nil => simp [contribution]
  | cons c arg ih =>
    have hc : c ≠ 0 := fun h' => h (by simp [h'])
    have harg : 0 ∉ arg := fun h' => h (List.mem_cons_of_mem _ h')
    rw [run_cons, ih _ harg]
    cases hr : r.argCompleted <;> simp [step, hc, hr, contribution]

theorem run_argument (r : CmdlineReader) (hexe : r.didExe = true) {arg : Bytes} (h : 0 ∉ arg) :
    r.run (arg ++ [0]) = { r with
      stringbuf := r.stringbuf ++ contribution r.argCompleted arg
      argCompleted := true } := by
  rw [run_append, run_of_not_mem r h, run_cons, run_nil]
  simp [step, hexe]

theorem run_arguments (r : CmdlineReader) (hexe : r.didExe = true)
    (hcompleted : r.argCompleted = true) {args : List Bytes} (h : ∀ arg ∈ args, 0 ∉ arg) :
    r.run (kernelCmdline args) =
      { r with stringbuf := r.stringbuf ++ args.flatMap (contribution true) } := by
  induction args generalizing r with
  | nil => simp [kernelCmdline]
  | cons arg args ih =>
    have hsplit : kernelCmdline (arg :: args) = (arg ++ [0]) ++ kernelCmdline args := rfl
    rw [hsplit, run_append, run_argument r hexe (h arg (by simp)),
      ih _ (by simpa using hexe) rfl fun arg' harg' => h arg' (List.mem_cons_of_mem _ harg')]
    simp [hcompleted]

theorem length_contributions_le (args : List Bytes) :
    (args.flatMap (contribution true)).length ≤ (args.flatMap fun arg => 32 :: arg).length := by
  induction args with
  | nil => simp
  | cons arg args ih =>
    have harg : (contribution true arg).length ≤ (32 :: arg).length := by
      unfold contribution
      split_ifs <;> simp
    rw [List.flatMap_cons, List.flatMap_cons, List.length_append, List.length_append]
    omega

/-- An empty argument is the only one whose separator is lost. -/
theorem contributions_eq_iff (args : List Bytes) :
    args.flatMap (contribution true) = (args.flatMap fun arg => 32 :: arg) ↔
      ∀ arg ∈ args, arg ≠ [] := by
  induction args with
  | nil => simp
  | cons arg args ih =>
    rw [List.flatMap_cons, List.flatMap_cons, List.forall_mem_cons]
    by_cases harg : arg = []
    · subst harg
      have hlength := length_contributions_le args
      refine ⟨fun h => ?_, fun h => absurd rfl h.1⟩
      have h' := congrArg List.length h
      simp only [contribution, if_true, List.nil_append, List.length_append,
        List.length_singleton] at h'
      omega
    · have hkept : contribution true arg = 32 :: arg := by simp [contribution, harg]
      rw [hkept, List.append_cancel_left_eq, ih]
      exact ⟨fun h => ⟨harg, h⟩, fun h => h.2⟩

end CmdlineReader

theorem intercalate_cons_eq_flatMap (arg : Bytes) (args : List Bytes) :
    [32].intercalate (arg :: args) = arg ++ args.flatMap fun arg' => 32 :: arg' := by
  induction args generalizing arg with
  | nil => simp
  | cons arg' args ih =>
    rw [List.intercalate_cons_cons, ih, List.flatMap_cons]
    simp

open CmdlineReader in
/-- The first argument never has a separator before it, the others have it if they are not
empty. -/
theorem readProcessCmdline_kernelCmdline (exe args : Bytes) {argv0 : Bytes} {argv : List Bytes}
    (h : ∀ arg ∈ argv0 :: argv, 0 ∉ arg) :
    readProcessCmdline (some (kernelCmdline (argv0 :: argv))) exe args =
      (true, argv0, argv.headD [] ++ (argv.drop 1).flatMap (contribution true)) := by
  have hsplit : kernelCmdline (argv0 :: argv) = argv0 ++ ([0] ++ kernelCmdline argv) := by
    simp [kernelCmdline]
  have hexe : CmdlineReader.run ⟨false, false, [], exe⟩ (kernelCmdline (argv0 :: argv)) =
      CmdlineReader.run ⟨true, false, [], argv0⟩ (kernelCmdline argv) := by
    rw [hsplit, run_append, run_of_not_mem _ (h argv0 (by simp)), run_append]
    congr 1
    simp [step, contribution]
  unfold readProcessCmdline
  cases argv with
  | nil =>
    simp only [hexe]
    rfl
  | cons arg argv =>
    have hargv : kernelCmdline (arg :: argv) = (arg ++ [0]) ++ kernelCmdline argv := rfl
    have harg : contribution false arg = arg := by simp [contribution, eq_comm]
    simp only [hexe, hargv]
    rw [run_append, run_argument _ rfl (h arg (by simp)), run_arguments _ rfl rfl fun a ha =>
      h a (by simp [ha])]
    simp [harg]

/-- The scraped command line is the executable followed by the arguments as `Process::args` joins
them, unless an argument after the first one is empty. -/
theorem scraped_cmdline_eq_args_iff (exe args : Bytes) {argv0 : Bytes} {argv : List Bytes}
    (h : ∀ arg ∈ argv0 :: argv, 0 ∉ arg) :
    (readProcessCmdline (some (kernelCmdline (argv0 :: argv))) exe args =
        (true, argv0, [32].intercalate argv) ∧
      processArgs (some argv) = [32].intercalate argv) ↔
    ∀ arg ∈ argv.drop 1, arg ≠ [] := by
  rw [readProcessCmdline_kernelCmdline exe args h, ← CmdlineReader.contributions_eq_iff]
  refine (and_iff_left (processArgs_eq_intercalate argv)).trans ?_
  cases argv with
  | nil => simp
  | cons arg argv => simp [intercalate_cons_eq_flatMap]

/-- The arguments `ls`, an empty one and `-l`. -/
theorem scraped_cmdline_of_ls :
    (∀ arg ∈ [[108, 115], [], [45, 108]], (0 : UInt8) ∉ arg) ∧
    readProcessCmdline (some (kernelCmdline [[108, 115], [], [45, 108]])) [] [] =
      (true, [108, 115], [32, 45, 108]) ∧
    processArgs (some [[], [45, 108]]) = [32, 45, 108] := by
  have hnul : ∀ arg ∈ [[108, 115], [], [45, 108]], (0 : UInt8) ∉ arg := by decide
  exact ⟨hnul, (scraped_cmdline_eq_args_iff [] [] hnul).mpr (by decide)⟩

/-- The arguments `ls`, `-l` and an empty one: the last separator is missing. -/
theorem scraped_cmdline_loses_separator :
    ¬ ∀ (argv0 : Bytes) (argv : List Bytes), argv0 ≠ [] → (∀ arg ∈ argv0 :: argv, 0 ∉ arg) →
      readProcessCmdline (some (kernelCmdline (argv0 :: argv))) [] [] =
        (true, argv0, processArgs (some argv)) := by
  intro h
  have hls := h [108, 115] [[45, 108], []] (by decide) (by decide)
  have hcode : readProcessCmdline (some (kernelCmdline [[108, 115], [45, 108], []])) [] [] =
      (true, [108, 115], [45, 108]) := by decide
  have hargs : processArgs (some [[45, 108], []]) = [45, 108, 32] := by decide
  rw [hcode, hargs] at hls
  exact absurd hls (by decide)

end AcsNext.Collector
