import AcsNext.Collector.ProcessSignalHandler

/-! The keys of the process rate limiter: fields are joined by spaces, and a field may itself hold
one. -/
namespace AcsNext.Collector
open AcsNext.Data

/-- What two signals with one key have to agree on. -/
structure SameProcess (s t : ProcessSignal) : Prop where
  containerId : s.containerId = t.containerId
  name : s.name = t.name
  execFilePath : s.execFilePath = t.execFilePath
  args : s.args.take 256 = t.args.take 256
  length : s.args.length ≤ 256 → t.args.length ≤ 256 → s.args.length = t.args.length

/-- The key of a signal is not that of another process, and using it up leaves the buckets of
other processes as they are. -/
structure KeyIdentifies (s : ProcessSignal) : Prop where
  same : ∀ t, computeProcessKey s = computeProcessKey t → SameProcess s t
  spares : ∀ t, ¬ SameProcess s t → ∀ (c : RateLimitCache) (clock : ClockReadings),
    c.flushes (computeProcessKey s) = false →
    (c.allow (computeProcessKey s) clock).2.bucket (computeProcessKey t) =
      c.bucket (computeProcessKey t)

/-- No field before the path has a space, and what the path has before a space, from its beginning
or from a space on, is too long for the arguments of a key. -/
structure Unambiguous (s : ProcessSignal) : Prop where
  containerId : 32 ∉ s.containerId
  name : 32 ∉ s.name
  args : 32 ∉ s.args.take 256
  path : ∀ before part after, s.execFilePath = before ++ part ++ 32 :: after →
    before = [] ∨ before.getLast? = some 32 → 256 < part.length

variable {s t : ProcessSignal}

theorem computeProcessKey_eq (s : ProcessSignal) : computeProcessKey s =
    s.containerId ++ 32 :: (s.name ++ 32 :: (s.args.take 256 ++ 32 :: s.execFilePath)) := by
  have hargs : (if s.args.length ≤ 256 then s.args else s.args.take 256) = s.args.take 256 := by
    split_ifs with h
    · exact (List.take_of_length_le h).symm
    · rfl
  unfold computeProcessKey
  rw [hargs]
  simp

theorem sameProcess_of_take (hid : s.containerId = t.containerId) (hname : s.name = t.name)
    (hargs : s.args.take 256 = t.args.take 256) (hpath : s.execFilePath = t.execFilePath) :
    SameProcess s t := by
  refine ⟨hid, hname, hpath, hargs, fun hs ht => ?_⟩
  rw [List.take_of_length_le hs, List.take_of_length_le ht] at hargs
  rw [hargs]

/-- A text without a space ends at the first one, or is the beginning of a longer text. -/
theorem split_at_space {a b x y : Bytes} (ha : 32 ∉ a) (h : a ++ 32 :: x = b ++ 32 :: y) :
    (a = b ∧ x = y) ∨ ∃ z, b = a ++ 32 :: z ∧ x = z ++ 32 :: y := by
  rcases List.append_eq_append_iff.mp h with ⟨z, rfl, hz⟩ | ⟨z, rfl, hz⟩
  · cases z with
    | nil =>
      rw [List.nil_append, List.cons.injEq] at hz
      exact Or.inl ⟨(List.append_nil a).symm, hz.2⟩
    | cons c z =>
      rw [List.cons_append, List.cons.injEq] at hz
      obtain ⟨rfl, hz⟩ := hz
      exact Or.inr ⟨z, rfl, hz⟩
  · cases z with
    | nil =>
      rw [List.nil_append, List.cons.injEq] at hz
      exact Or.inl ⟨List.append_nil b, hz.2.symm⟩
    | cons c z =>
      rw [List.cons_append, List.cons.injEq] at hz
      rw [← hz.1] at ha
      simp at ha

/-- The arguments of a key are not in the path of an unambiguous signal. -/
theorem Unambiguous.not_in_path (h : Unambiguous s) {before path : Bytes}
    (hbefore : before = [] ∨ before.getLast? = some 32) :
    s.execFilePath ≠ before ++ t.args.take 256 ++ 32 :: path := by
  intro hpath
  have hlong := h.path before _ path hpath hbefore
  have hshort := List.length_take_le 256 t.args
  omega

/-- Nor do they come after a space in what follows the name. -/
theorem Unambiguous.not_after_space (h : Unambiguous s) (before path : Bytes) :
    s.args.take 256 ++ 32 :: s.execFilePath ≠
      before ++ 32 :: (t.args.take 256 ++ 32 :: path) := by
  intro heq
  rcases split_at_space h.args heq with ⟨-, hpath⟩ | ⟨z, -, hpath⟩
  · exact h.not_in_path (Or.inl rfl) hpath
  · have hsplit : s.execFilePath = z ++ [32] ++ t.args.take 256 ++ 32 :: path := by
      rw [hpath]
      simp
    exact h.not_in_path (Or.inr (by simp)) hsplit

theorem Unambiguous.same (h : Unambiguous s) (hkey : computeProcessKey s = computeProcessKey t) :
    SameProcess s t := by
  rw [computeProcessKey_eq, computeProcessKey_eq] at hkey
  rcases split_at_space h.containerId hkey with ⟨hid, hrest⟩ | ⟨z, -, hrest⟩
  · rcases split_at_space h.name hrest with ⟨hname, hrest⟩ | ⟨z, -, hrest⟩
    · rcases split_at_space h.args hrest with ⟨hargs, hpath⟩ | ⟨z, hz, hpath⟩
      · exact sameProcess_of_take hid hname hargs hpath
      · -- the arguments of the other signal would reach into the path
        have hlong := h.path [] z t.execFilePath hpath (Or.inl rfl)
        have hshort := List.length_take_le 256 t.args
        have hlength := congrArg List.length hz
        rw [List.length_append, List.length_cons] at hlength
        omega
    · exact absurd hrest (h.not_after_space z t.execFilePath)
  · rcases split_at_space h.name hrest with ⟨-, hrest⟩ | ⟨y, -, hrest⟩
    · exact absurd hrest (h.not_after_space t.name t.execFilePath)
    · have hjoin : s.args.take 256 ++ 32 :: s.execFilePath =
          (y ++ 32 :: t.name) ++ 32 :: (t.args.take 256 ++ 32 :: t.execFilePath) := by
        rw [hrest]
        simp
      exact absurd hjoin (h.not_after_space _ t.execFilePath)

/-- A text with a space can be cut there. -/
theorem exists_cut {a : Bytes} (h : 32 ∈ a) : ∃ x y, a = x ++ 32 :: y := by
  obtain ⟨x, y, hxy, -⟩ := List.eq_append_cons_of_mem h
  exact ⟨x, y, hxy⟩

theorem ne_append_cons (x y : Bytes) : x ++ 32 :: y ≠ x := by
  intro h
  have hlength := congrArg List.length h
  simp at hlength

theorem not_keyIdentifies (hkey : computeProcessKey s = computeProcessKey t)
    (hne : s.containerId ≠ t.containerId ∨ s.name ≠ t.name) : ¬ KeyIdentifies s := by
  intro h
  have hsame := h.same t hkey
  rcases hne with hid | hname
  · exact hid hsame.containerId
  · exact hname hsame.name

theorem unambiguous_of_keyIdentifies (h : KeyIdentifies s) : Unambiguous s := by
  constructor
  · intro hspace
    obtain ⟨x, y, hxy⟩ := exists_cut hspace
    have hkey : computeProcessKey s = computeProcessKey
        { s with containerId := x, name := y ++ 32 :: s.name } := by
      rw [computeProcessKey_eq, computeProcessKey_eq, hxy]
      simp
    refine not_keyIdentifies hkey (Or.inl ?_) h
    rw [hxy]
    exact ne_append_cons x y
  · intro hspace
    obtain ⟨x, y, hxy⟩ := exists_cut hspace
    have hkey : computeProcessKey s = computeProcessKey
        { s with containerId := s.containerId ++ 32 :: x, name := y } := by
      rw [computeProcessKey_eq, computeProcessKey_eq, hxy]
      simp
    exact not_keyIdentifies hkey (Or.inl (ne_append_cons _ _).symm) h
  · intro hspace
    obtain ⟨x, y, hxy⟩ := exists_cut hspace
    have hshort : y.length ≤ 256 := by
      have hlength := congrArg List.length hxy
      have hle := List.length_take_le 256 s.args
      rw [List.length_append, List.length_cons] at hlength
      omega
    have hkey : computeProcessKey s = computeProcessKey
        { s with name := s.name ++ 32 :: x, args := y } := by
      rw [computeProcessKey_eq, computeProcessKey_eq, hxy]
      simp [List.take_of_length_le hshort]
    exact not_keyIdentifies hkey (Or.inr (ne_append_cons _ _).symm) h
  · intro before part after hpath hbefore
    by_contra hshort
    rw [not_lt] at hshort
    -- the part becomes the arguments, and what is before it joins the name
    have hjoin : ∃ name, s.args.take 256 ++ 32 :: before = name ++ [32] := by
      rcases hbefore with rfl | hlast
      · exact ⟨s.args.take 256, rfl⟩
      · obtain ⟨z, rfl⟩ := List.getLast?_eq_some_iff.mp hlast
        exact ⟨s.args.take 256 ++ 32 :: z, by simp⟩
    obtain ⟨name, hname⟩ := hjoin
    have hkey : computeProcessKey s = computeProcessKey
        { s with name := s.name ++ 32 :: name, args := part, execFilePath := after } := by
      have hrest : s.args.take 256 ++ 32 :: s.execFilePath = name ++ 32 :: (part ++ 32 :: after) := by
        calc s.args.take 256 ++ 32 :: s.execFilePath
            = (s.args.take 256 ++ 32 :: before) ++ (part ++ 32 :: after) := by simp [hpath]
          _ = name ++ 32 :: (part ++ 32 :: after) := by simp [hname]
      rw [computeProcessKey_eq, computeProcessKey_eq, hrest]
      simp [List.take_of_length_le hshort]
    exact not_keyIdentifies hkey (Or.inr (ne_append_cons _ _).symm) h

/-- A key stands for one process exactly if the signal cannot be cut at other spaces. -/
theorem process_key_identifies_iff (s : ProcessSignal) : KeyIdentifies s ↔ Unambiguous s := by
  constructor
  · exact unambiguous_of_keyIdentifies
  · intro h
    refine ⟨fun t hkey => h.same hkey, fun t hne c clock hflush => ?_⟩
    have hkey : computeProcessKey t ≠ computeProcessKey s := fun heq => hne (h.same heq.symm)
    obtain ⟨-, -, hbucket⟩ := RateLimitCache.allow_of_not_flushes clock hflush
    exact (hbucket _).trans (if_neg hkey)

/-- `sh` with the arguments `-c id`, in a container. -/
def spacedArgsSignal : ProcessSignal :=
  ⟨[], [97, 98, 99], none, [115, 104], [45, 99, 32, 105, 100], [47, 115, 104], 7, 0, 0, [], false⟩

/-- A process of this container that calls itself `sh -c` and has the argument `id`. -/
def spacedNameSignal : ProcessSignal :=
  { spacedArgsSignal with name := [115, 104, 32, 45, 99], args := [105, 100], pid := 8 }

def firstSecond : ClockReadings := ⟨1, 1, 1, one_pos, le_rfl, le_rfl⟩

/-- Both have one key, and ten signals of the first suppress the second. -/
theorem process_key_conflates :
    computeProcessKey spacedArgsSignal = computeProcessKey spacedNameSignal ∧
    spacedArgsSignal.name ≠ spacedNameSignal.name ∧ ¬ KeyIdentifies spacedArgsSignal ∧
    let spent := (fun c : RateLimitCache =>
      (c.allow (computeProcessKey spacedArgsSignal) firstSecond).2)^[10] .default
    (spent.allow (computeProcessKey spacedNameSignal) firstSecond).1 = false := by
  refine ⟨by decide, by decide, ?_, by decide +kernel⟩
  intro h
  have hsame := h.same spacedNameSignal (by decide)
  exact absurd hsame.name (by decide)

end AcsNext.Collector
