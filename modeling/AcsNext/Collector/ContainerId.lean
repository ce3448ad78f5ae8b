import AcsNext.Collector.ProcessSignal
import AcsNext.Data.CString
import AcsNext.Data.StringView

/-! The id of a container in a line of a `cgroup` file. A result is none where the code would
access a character out of range. -/
namespace AcsNext.Collector
open AcsNext.Data

/-- The searches of `rep_find`, with the number of those before the last one. -/
def repFindFrom (str : Bytes) (c : UInt8) : ℕ → ℕ → Option ℕ
  | 0, pos => findChar str c pos
  | n + 1, pos =>
    match findChar str c pos with
    | none => none
    | some found => repFindFrom str c n (found + 1)

def repFind (n : ℤ) (str : Bytes) (c : UInt8) : Option ℕ :=
  if n ≤ 0 then none else repFindFrom str c (n - 1).toNat 0

def containerIDLength : ℕ := 64

def shortContainerIDLength : ℕ := 12

def scopeText : Bytes := [46, 115, 99, 111, 112, 101]

def conmonText : Bytes := [45, 99, 111, 110, 109, 111, 110]

def isContainerID (str : Bytes) : Bool :=
  if str.length ≠ containerIDLength then false else str.all isXDigit

/-- `ExtractContainerIDFromCgroup` after the scope has been cut off. -/
def extractFromUnscoped (cgroup : Bytes) : Option (Option Bytes) := do
  let containerIdPart ← substr cgroup (sizeSub cgroup.length (containerIDLength + 1))
  let first ← containerIdPart[0]?
  if first ≠ 47 ∧ first ≠ 45 then pure none
  else do
    let cgroup ← removeSuffix cgroup (containerIDLength + 1)
    -- the position wraps round if the text is shorter than `-conmon`
    if findTextFrom cgroup conmonText (sizeSub cgroup.length conmonText.length) ≠ none then
      pure none
    else do
      let containerIdPart ← removeFront containerIdPart 1
      if isContainerID containerIdPart then
        pure (some (containerIdPart.take shortContainerIDLength))
      else pure none

def extractContainerIDFromCgroup (cgroup : Bytes) : Option (Option Bytes) :=
  if cgroup.length < containerIDLength + 1 then some none
  else
    match rfindText scopeText cgroup with
    | none => extractFromUnscoped cgroup
    | some scope => do
      let cgroup ← removeSuffix cgroup (sizeSub cgroup.length scope)
      if cgroup.length < containerIDLength + 1 then pure none else extractFromUnscoped cgroup

def extractContainerID (cgroupLine : Bytes) : Option (Option Bytes) :=
  match repFind 2 cgroupLine 58 with
  | none => some none
  | some start => do
    let cgroupPath ← substr cgroupLine (start + 1)
    extractContainerIDFromCgroup cgroupPath

/-- A separator and the id `h` end the path, which is not that of conmon. -/
def EndsInContainerID (path h : Bytes) : Prop :=
  ∃ r sep, path = r ++ sep :: h ∧ (sep = 47 ∨ sep = 45) ∧ h.length = 64 ∧
    (∀ b ∈ h, isXDigit b = true) ∧ ¬ conmonText <:+ r

theorem isContainerID_eq {h : Bytes} (hlength : h.length = 64) :
    isContainerID h = h.all isXDigit := by
  simp [isContainerID, containerIDLength, hlength]

/-- The last 65 characters decide, with what stands before them. -/
theorem extractFromUnscoped_append (r : Bytes) (sep : UInt8) {h : Bytes} (hlength : h.length = 64) :
    extractFromUnscoped (r ++ sep :: h) = some
      (if (sep = 47 ∨ sep = 45) ∧ h.all isXDigit = true ∧ ¬ conmonText <:+ r then
        some (h.take 12) else none) := by
  have hpart : (sep :: h).length = containerIDLength + 1 := by
    rw [List.length_cons, hlength, containerIDLength]
  have hstart : sizeSub (r ++ sep :: h).length (containerIDLength + 1) = r.length := by
    rw [List.length_append, hpart, sizeSub, if_pos (Nat.le_add_left _ _), Nat.add_sub_cancel]
  have hconmon := findTextFrom_sizeSub_eq_none_iff (s := r) (t := conmonText) (by decide)
  have hfront : removeFront (sep :: h) 1 = some h := by simp [removeFront]
  unfold extractFromUnscoped
  rw [hstart, substr_append]
  simp only [Option.bind_eq_bind, Option.bind_some, List.getElem?_cons_zero,
    removeSuffix_append r _ hpart, hfront, ne_eq, hconmon, not_not, isContainerID_eq hlength,
    shortContainerIDLength]
  by_cases hsep : sep = 47 ∨ sep = 45
  · have hnot : ¬ (sep ≠ 47 ∧ sep ≠ 45) := by tauto
    rw [if_neg hnot]
    by_cases hr : conmonText <:+ r
    · simp [hr]
    · by_cases hdigits : h.all isXDigit = true
      · rw [if_neg hr, if_pos hdigits, if_pos ⟨hsep, hdigits, hr⟩]
        rfl
      · rw [if_neg hr, if_neg hdigits, if_neg fun h => hdigits h.2.1]
        rfl
  · have hnot : sep ≠ 47 ∧ sep ≠ 45 := by tauto
    rw [if_pos hnot, if_neg fun h => hsep h.1]
    rfl

theorem exists_last_part {path : Bytes} (h : containerIDLength + 1 ≤ path.length) :
    ∃ r sep tail, path = r ++ sep :: tail ∧ tail.length = 64 := by
  have hdrop : (path.drop (path.length - 65)).length = 65 := by
    rw [List.length_drop]
    unfold containerIDLength at h
    omega
  obtain ⟨sep, tail, htail⟩ := List.exists_cons_of_length_pos (by rw [hdrop]; decide)
  refine ⟨path.take (path.length - 65), sep, tail, ?_, ?_⟩
  · rw [← htail, List.take_append_drop]
  · rw [htail, List.length_cons] at hdrop
    omega

theorem endsInContainerID_append_iff {r h h' : Bytes} {sep : UInt8} (hlength : h.length = 64) :
    EndsInContainerID (r ++ sep :: h) h' ↔
      h' = h ∧ (sep = 47 ∨ sep = 45) ∧ h.all isXDigit = true ∧ ¬ conmonText <:+ r := by
  rw [List.all_eq_true]
  constructor
  · rintro ⟨r', sep', hpath, hsep, hlength', hdigits, hr⟩
    have hparts := List.append_inj' hpath (by simp [hlength, hlength'])
    obtain ⟨rfl, hcons⟩ := hparts
    obtain ⟨rfl, rfl⟩ := List.cons_eq_cons.mp hcons
    exact ⟨rfl, hsep, hdigits, hr⟩
  · rintro ⟨rfl, hsep, hdigits, hr⟩
    exact ⟨r, sep, rfl, hsep, hlength, hdigits, hr⟩

theorem EndsInContainerID.length_lt {path h : Bytes} (hends : EndsInContainerID path h) :
    containerIDLength + 1 ≤ path.length := by
  obtain ⟨r, sep, rfl, _, hlength, _⟩ := hends
  rw [List.length_append, List.length_cons, hlength, containerIDLength]
  omega

/-- The code returns without a fault, and an id exactly for the paths that end in one. -/
structure ReturnsID (path : Bytes) (result : Option (Option Bytes)) : Prop where
  total : result ≠ none
  eq_some_iff : ∀ id, result = some (some id) ↔
    ∃ h, EndsInContainerID path h ∧ id = h.take 12

theorem returnsID_of_short {path : Bytes} (h : path.length < containerIDLength + 1) :
    ReturnsID path (some none) := by
  refine ⟨by simp, fun id => ⟨fun hid => by simp at hid, ?_⟩⟩
  rintro ⟨_, hends, _⟩
  exact absurd hends.length_lt (by omega)

theorem returnsID_extractFromUnscoped {path : Bytes} (h : containerIDLength + 1 ≤ path.length) :
    ReturnsID path (extractFromUnscoped path) := by
  obtain ⟨r, sep, tail, rfl, hlength⟩ := exists_last_part h
  rw [extractFromUnscoped_append r sep hlength]
  refine ⟨by simp, fun id => ?_⟩
  simp only [endsInContainerID_append_iff hlength]
  split_ifs with hform
  · constructor
    · intro hid
      exact ⟨tail, ⟨rfl, hform⟩, (Option.some.inj (Option.some.inj hid)).symm⟩
    · rintro ⟨h, ⟨rfl, _⟩, rfl⟩
      rfl
  · constructor
    · intro hid
      cases Option.some.inj hid
    · rintro ⟨h, ⟨_, hform'⟩, _⟩
      exact absurd hform' hform

/-- The text before the last scope is searched. -/
theorem returnsID_extractContainerIDFromCgroup (cgroup : Bytes) :
    ReturnsID (beforeLast scopeText cgroup) (extractContainerIDFromCgroup cgroup) := by
  unfold extractContainerIDFromCgroup
  split_ifs with hshort
  · refine returnsID_of_short (lt_of_le_of_lt ?_ hshort)
    exact (List.take_prefix _ _).length_le
  · cases hscope : rfindText scopeText cgroup with
    | none =>
      have hall : beforeLast scopeText cgroup = cgroup := by simp [beforeLast, hscope]
      rw [hall]
      exact returnsID_extractFromUnscoped (by omega)
    | some scope =>
      have hle := (rfindText_eq_some hscope).1
      have hcut : removeSuffix cgroup (sizeSub cgroup.length scope) =
          some (beforeLast scopeText cgroup) := by
        rw [sizeSub, if_pos hle, removeSuffix, if_pos (Nat.sub_le _ _), beforeLast, hscope,
          Option.getD_some, Nat.sub_sub_self hle]
      simp only [hcut, Option.bind_eq_bind, Option.bind_some]
      split_ifs with hshort'
      · exact returnsID_of_short hshort'
      · exact returnsID_extractFromUnscoped (by omega)

theorem repFind_two_append {a b : Bytes} {c : UInt8} (ha : c ∉ a) (hb : c ∉ b) (p : Bytes) :
    repFind 2 (a ++ c :: (b ++ c :: p)) c = some (a.length + 1 + b.length) := by
  have hfirst := findChar_zero ha (b ++ c :: p)
  have hsecond := findChar_append_cons (a ++ [c]) hb p
  simp only [List.append_assoc, List.singleton_append, List.length_append,
    List.length_singleton] at hsecond
  change repFindFrom _ c 1 0 = _
  simp only [repFindFrom, hfirst, hsecond]

theorem repFind_two_eq_none {str : Bytes} {c : UInt8}
    (h : ¬ ∃ a b p, str = a ++ c :: (b ++ c :: p) ∧ c ∉ a ∧ c ∉ b) : repFind 2 str c = none := by
  change repFindFrom str c 1 0 = none
  by_cases hmem : c ∈ str
  · obtain ⟨a, rest, rfl, ha⟩ := List.eq_append_cons_of_mem hmem
    have hrest : c ∉ rest := by
      intro hc
      obtain ⟨b, p, rfl, hb⟩ := List.eq_append_cons_of_mem hc
      exact h ⟨a, b, p, rfl, ha, hb⟩
    have hfirst := findChar_zero ha rest
    have hdrop : (a ++ c :: rest).drop (a.length + 1) = rest := by simp
    simp only [repFindFrom, hfirst, findChar_eq_none_iff, hdrop]
    exact hrest
  · have hnone : findChar str c 0 = none := findChar_eq_none_iff.mpr hmem
    simp only [repFindFrom, hnone]

/-- The grammar of the lines that name a container, for every line; no access is out of range. -/
theorem extractContainerID_grammar (line : Bytes) :
    extractContainerID line ≠ none ∧
    ∀ id, extractContainerID line = some (some id) ↔
      ∃ a b p path h, line = a ++ 58 :: (b ++ 58 :: p) ∧ 58 ∉ a ∧ 58 ∉ b ∧
        CutAtLast scopeText p path ∧ EndsInContainerID path h ∧ id = h.take 12 := by
  by_cases hline : ∃ a b p, line = a ++ 58 :: (b ++ 58 :: p) ∧ 58 ∉ a ∧ 58 ∉ b
  · obtain ⟨a, b, p, rfl, ha, hb⟩ := hline
    have hsubstr : substr (a ++ 58 :: (b ++ 58 :: p)) (a.length + 1 + b.length + 1) = some p := by
      have happend := substr_append_cons (a ++ 58 :: b) p 58
      simpa [Nat.add_assoc, Nat.add_comm, Nat.add_left_comm] using happend
    have hresult : extractContainerID (a ++ 58 :: (b ++ 58 :: p)) =
        extractContainerIDFromCgroup p := by
      simp only [extractContainerID, repFind_two_append ha hb, hsubstr, Option.bind_eq_bind,
        Option.bind_some]
    have hreturns := returnsID_extractContainerIDFromCgroup p
    rw [hresult]
    refine ⟨hreturns.total, fun id => (hreturns.eq_some_iff id).trans ⟨?_, ?_⟩⟩
    · rintro ⟨h, hends, hid⟩
      exact ⟨a, b, p, _, h, rfl, ha, hb, cutAtLast_iff.mpr rfl, hends, hid⟩
    · rintro ⟨a', b', p', path, h, hsplit, ha', hb', hcut, hends, hid⟩
      obtain ⟨_, hrest⟩ := eq_of_append_cons_eq ha ha' hsplit
      obtain ⟨_, rfl⟩ := eq_of_append_cons_eq hb hb' hrest
      rw [cutAtLast_iff.mp hcut] at hends
      exact ⟨h, hends, hid⟩
  · have hresult : extractContainerID line = some none := by
      simp only [extractContainerID, repFind_two_eq_none hline]
    rw [hresult]
    refine ⟨by simp, fun id => ⟨fun hid => by simp at hid, ?_⟩⟩
    rintro ⟨a, b, p, _, _, hsplit, ha, hb, _⟩
    exact absurd ⟨a, b, p, hsplit, ha, hb⟩ hline

end AcsNext.Collector
