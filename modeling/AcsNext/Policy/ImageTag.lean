import AcsNext.Data.Split
import AcsNext.Policy.Evaluator

/-! The tag that an image reference names, and the one that the criterion on tags reads. -/
namespace AcsNext.Policy
open AcsNext.Data

/-- What follows the last colon of the last path component names the tag. -/
def referenceTag (image : String) : String :=
  let name := afterLast '/' image.toList
  if ':' ∈ name then String.ofList (afterLast ':' name) else "latest"

/-- The part that the last colon of a reference has in it, with the text after it. -/
inductive LastColon where
  | absent
  | port (rest : String)
  | tag (name : String)
deriving DecidableEq, Repr

/-- A colon with a slash after it is that of a registry port. -/
def lastColon (image : String) : LastColon :=
  if ':' ∉ image.toList then .absent
  else
    let rest := afterLast ':' image.toList
    if '/' ∈ rest then .port (String.ofList rest) else .tag (String.ofList rest)

theorem lastColon_cases (image : String) :
    (':' ∉ image.toList ∧ lastColon image = .absent) ∨
    ∃ a b, image.toList = a ++ ':' :: b ∧ ':' ∉ b ∧
      ('/' ∈ b ∧ lastColon image = .port (String.ofList b) ∨
        '/' ∉ b ∧ lastColon image = .tag (String.ofList b)) := by
  unfold lastColon
  by_cases hcolon : ':' ∈ image.toList
  · obtain ⟨a, b, himage, hb⟩ := exists_last_of_mem hcolon
    rw [if_neg (not_not_intro hcolon), himage]
    simp only [afterLast_append_cons a hb]
    refine Or.inr ⟨a, b, rfl, hb, ?_⟩
    by_cases hslash : '/' ∈ b
    · exact Or.inl ⟨hslash, if_pos hslash⟩
    · exact Or.inr ⟨hslash, if_neg hslash⟩
  · exact Or.inl ⟨hcolon, if_pos hcolon⟩

namespace LastColon

/-- The tag of the reference. -/
def named : LastColon → String
  | .absent | .port _ => "latest"
  | .tag name => name

/-- What the code takes for the tag. -/
def read : LastColon → String
  | .absent => ""
  | .port rest => rest
  | .tag name => name

/-- A port is followed by a slash, a tag is not. -/
def WellFormed : LastColon → Prop
  | .absent => True
  | .port rest => '/' ∈ rest.toList
  | .tag name => '/' ∉ name.toList

end LastColon

theorem imageTag_eq (image : String) : imageTag image = (lastColon image).read := by
  unfold imageTag
  simp only [one_lt_length_splitOn_iff, getLast?_splitOn, Option.getD_some]
  rcases lastColon_cases image with ⟨hcolon, h⟩ | ⟨a, b, himage, hb, ⟨_, h⟩ | ⟨_, h⟩⟩
  · rw [h, if_neg hcolon, LastColon.read]
  · rw [h, himage, if_pos (by simp), afterLast_append_cons a hb, LastColon.read]
  · rw [h, himage, if_pos (by simp), afterLast_append_cons a hb, LastColon.read]

theorem referenceTag_eq (image : String) : referenceTag image = (lastColon image).named := by
  unfold referenceTag
  rcases lastColon_cases image with ⟨hcolon, h⟩ | ⟨a, b, himage, hb, ⟨hslash, h⟩ | ⟨hslash, h⟩⟩
  · have hname : ':' ∉ afterLast '/' image.toList := fun hmem => hcolon (mem_of_mem_afterLast hmem)
    simp only [h, if_neg hname, LastColon.named]
  · obtain ⟨a', b', rfl, hb'⟩ := exists_last_of_mem hslash
    have hlast : afterLast '/' image.toList = b' := by
      have hsplit : image.toList = (a ++ ':' :: a') ++ '/' :: b' := by simp [himage]
      rw [hsplit, afterLast_append_cons _ hb']
    have hname : ':' ∉ b' := fun hmem => hb (by simp [hmem])
    simp only [h, hlast, if_neg hname, LastColon.named]
  · have hlast : afterLast '/' image.toList = afterLast '/' a ++ ':' :: b := by
      rw [himage]
      exact afterLast_append a (by simp [hslash])
    have hname : ':' ∈ afterLast '/' a ++ ':' :: b := by simp
    simp only [h, hlast, if_pos hname, afterLast_append_cons _ hb, LastColon.named]

theorem wellFormed_lastColon (image : String) : (lastColon image).WellFormed := by
  rcases lastColon_cases image with ⟨_, h⟩ | ⟨a, b, _, _, ⟨hslash, h⟩ | ⟨hslash, h⟩⟩
  · rw [h]
    trivial
  · rw [h]
    simpa [LastColon.WellFormed] using hslash
  · rw [h]
    simpa [LastColon.WellFormed] using hslash

/-- An image is given, and not by its digest. -/
def Container.NamesTag (c : Container) : Prop := c.image ≠ "" ∧ '@' ∉ c.image.toList

instance (c : Container) : Decidable c.NamesTag := inferInstanceAs (Decidable (_ ∧ _))

/-- The references of a pod that are not pinned to a digest. -/
def unpinned (podSpec : PodSpec) : List LastColon :=
  ((allContainers podSpec).filter fun c => decide c.NamesTag).map fun c => lastColon c.image

/-- The criterion reads the tags of these references right as far as `v` is concerned: no
port with the path after it is `v`, and the references without a tag and those with an empty
one are not told apart by `v` alone. -/
structure ReadsRight (references : List LastColon) (v : String) : Prop where
  port : ∀ rest, .port rest ∈ references → rest ≠ v
  empty : v = "" → .absent ∈ references → .tag "" ∈ references
  latest : v = "latest" → .absent ∉ references → .tag "latest" ∉ references →
    ((∃ rest, .port rest ∈ references) ↔ .tag "" ∈ references)

theorem imageTagMatches_iff (v : String) (c : Container) :
    c.imageTagMatches [v] = true ↔ c.NamesTag ∧
      (v = (lastColon c.image).read ∨ v = "latest" ∧ (lastColon c.image).read = "") := by
  unfold Container.imageTagMatches Container.NamesTag
  rw [← imageTag_eq]
  simp only [List.length_singleton, zero_lt_one, if_true]
  split_ifs with hempty hdigest
  · simp [hempty]
  · simp [hdigest]
  · simp [hempty, hdigest]

theorem exists_unpinned_iff (podSpec : PodSpec) (p : LastColon → Prop) :
    (∃ r ∈ unpinned podSpec, p r) ↔
      ∃ c ∈ allContainers podSpec, c.NamesTag ∧ p (lastColon c.image) := by
  simp [unpinned, and_assoc]

section Exact

variable {references : List LastColon} (hwf : ∀ r ∈ references, r.WellFormed) (v : String)

theorem exists_named_iff :
    (∃ r ∈ references, r.named = v) ↔
      .tag v ∈ references ∨
        v = "latest" ∧ (.absent ∈ references ∨ ∃ rest, .port rest ∈ references) := by
  constructor
  · intro hex
    obtain ⟨r, hr, rfl⟩ := hex
    cases r with
    | absent => exact Or.inr ⟨rfl, Or.inl hr⟩
    | port rest => exact Or.inr ⟨rfl, Or.inr ⟨rest, hr⟩⟩
    | tag name => exact Or.inl hr
  · intro hor
    rcases hor with htag | ⟨rfl, habsent | ⟨rest, hport⟩⟩
    · exact ⟨_, htag, rfl⟩
    · exact ⟨_, habsent, rfl⟩
    · exact ⟨_, hport, rfl⟩

include hwf

/-- What follows a port has a slash in it, which no tag has. -/
theorem port_ne {rest : String} (h : .port rest ∈ references) :
    rest ≠ "latest" ∧ rest ≠ "" ∧ .tag rest ∉ references := by
  have hslash : '/' ∈ rest.toList := hwf _ h
  have hne (name : String) (hname : '/' ∉ name.toList) : rest ≠ name := fun heq =>
    hname (heq ▸ hslash)
  exact ⟨hne _ (by decide), hne _ (by decide), fun htag => hne rest (hwf _ htag) rfl⟩

theorem exists_read_iff :
    (∃ r ∈ references, v = r.read ∨ v = "latest" ∧ r.read = "") ↔
      .tag v ∈ references ∨ .port v ∈ references ∨ v = "" ∧ .absent ∈ references ∨
        v = "latest" ∧ (.absent ∈ references ∨ .tag "" ∈ references) := by
  constructor
  · intro hex
    obtain ⟨r, hr, rfl | ⟨rfl, hread⟩⟩ := hex
    · cases r with
      | absent => exact Or.inr (Or.inr (Or.inl ⟨rfl, hr⟩))
      | port rest => exact Or.inr (Or.inl hr)
      | tag name => exact Or.inl hr
    · cases r with
      | absent => exact Or.inr (Or.inr (Or.inr ⟨rfl, Or.inl hr⟩))
      | port rest => exact absurd hread (port_ne hwf hr).2.1
      | tag name =>
        have hname : name = "" := hread
        rw [hname] at hr
        exact Or.inr (Or.inr (Or.inr ⟨rfl, Or.inr hr⟩))
  · intro hor
    rcases hor with htag | hport | ⟨rfl, habsent⟩ | ⟨rfl, habsent | htag⟩
    · exact ⟨_, htag, Or.inl rfl⟩
    · exact ⟨_, hport, Or.inl rfl⟩
    · exact ⟨_, habsent, Or.inl rfl⟩
    · exact ⟨_, habsent, Or.inr ⟨rfl, rfl⟩⟩
    · exact ⟨_, htag, Or.inr ⟨rfl, rfl⟩⟩

/-- Reading the tags right is what it takes to match the references that name `v`. -/
theorem exists_read_iff_named_iff :
    ((∃ r ∈ references, v = r.read ∨ v = "latest" ∧ r.read = "") ↔
      ∃ r ∈ references, r.named = v) ↔ ReadsRight references v := by
  rw [exists_read_iff hwf, exists_named_iff]
  constructor
  · intro hiff
    constructor
    · intro rest hrest heq
      subst heq
      obtain ⟨hlatest, _, htag⟩ := port_ne hwf hrest
      rcases hiff.mp (Or.inr (Or.inl hrest)) with h | ⟨h, _⟩
      · exact htag h
      · exact hlatest h
    · intro hv habsent
      subst hv
      simpa [habsent] using hiff
    · intro hv habsent htag
      subst hv
      have hport : .port "latest" ∉ references := fun h => (port_ne hwf h).1 rfl
      simpa [habsent, htag, hport] using hiff.symm
  · intro hright
    have hport : .port v ∉ references := fun h => hright.port v h rfl
    by_cases hlatest : v = "latest"
    · have hboth := hright.latest hlatest
      subst hlatest
      by_cases habsent : .absent ∈ references
      · simp [habsent]
      · by_cases htag : .tag "latest" ∈ references
        · simp [htag]
        · simp [habsent, htag, hport, hboth habsent htag]
    · have hempty := hright.empty
      simpa [hlatest, hport] using fun hv habsent => hv ▸ hempty hv habsent

end Exact

/-- The criterion with one value matches the pods with a container whose tag it is, exactly
where the tags are read right. -/
theorem image_tag_criterion_iff (podSpec : PodSpec) (ns : String) (op : BooleanOperator)
    (v : String) :
    ((evaluateGroup ⟨"Image Tag", op, false, [v]⟩ (Subject.pod podSpec ns).context).matched = true ↔
      ∃ c ∈ allContainers podSpec,
        c.image ≠ "" ∧ '@' ∉ c.image.toList ∧ referenceTag c.image = v) ↔
      ReadsRight (unpinned podSpec) v := by
  have hgroup : (evaluateGroup ⟨"Image Tag", op, false, [v]⟩
      (Subject.pod podSpec ns).context).matched = true ↔
      ∃ c ∈ allContainers podSpec, c.imageTagMatches [v] = true := by
    have hget : getFieldHandler "Image Tag" = some fieldImageTag := rfl
    rw [matched_evaluateGroup_iff]
    simp [PolicyGroup.Holds, PolicyGroup.matchValues, hget, fieldImageTag, Subject.context]
  have hwf : ∀ r ∈ unpinned podSpec, r.WellFormed := fun r hr => by
    obtain ⟨c, _, rfl⟩ := List.mem_map.mp hr
    exact wellFormed_lastColon c.image
  rw [hgroup, ← exists_read_iff_named_iff hwf v, exists_unpinned_iff, exists_unpinned_iff]
  simp only [imageTagMatches_iff, referenceTag_eq, Container.NamesTag, and_assoc]

def registryPod : PodSpec :=
  { initContainers := []
    containers := [⟨"registry:5000/app", none, none⟩]
    hostNetwork := false }

theorem image_tag_criterion_misses_latest :
    ¬((evaluateGroup ⟨"Image Tag", .unset, false, ["latest"]⟩
        (Subject.pod registryPod "default").context).matched = true ↔
      ∃ c ∈ allContainers registryPod,
        c.image ≠ "" ∧ '@' ∉ c.image.toList ∧ referenceTag c.image = "latest") := by
  decide

end AcsNext.Policy
