import AcsNext.Collector.ConfigLoader

/-! The watches and the watchers that the loader of the configuration keeps, and what its
operations do to them. -/
namespace AcsNext.Collector

open AcsNext.Data

namespace ConfigLoader

open Inotify

/-- The watchers of the loader: one for the directory, and one for the file if it has any. -/
def loaderWatchers (fw : Option ℕ) : List (Watcher ConfigPath LoaderTag) :=
  ⟨1, .parentPath, .parentPath⟩ :: (fw.map fun wd => ⟨wd, .file, .configFile⟩).toList

/-- The directory is watched under the first descriptor, and everything else that is watched is
an inode, with the mask of a file. -/
structure Tidy (q : Inotify ConfigNode ConfigPath LoaderTag) (nextInode : ℕ) (fw : Option ℕ) :
    Prop where
  watchers : q.watchers = loaderWatchers fw
  fileWd : ∀ wd, fw = some wd → wd ≠ 1
  nextWd : 1 < q.nextWd
  directory : q.watches.find? .directory = some ⟨1, directoryFlags⟩
  inodes : ∀ n k, q.watches.find? (.inode n) = some k →
    n < nextInode ∧ k.wd ≠ 1 ∧ k.mask = fileFlags

variable {q q' : Inotify ConfigNode ConfigPath LoaderTag} {nextInode : ℕ} {fw : Option ℕ}
  {added : List InotifyEvent}

def Ignored (added : List InotifyEvent) : Prop :=
  ∀ e ∈ added, e.bit = .ignored ∧ e.wd ≠ 1

theorem ignored_ignoredEvents {wd : ℕ} (hwd : wd ≠ 1) : Ignored (q.ignoredEvents wd) := by
  intro e he
  rw [bit_of_mem_ignoredEvents he]
  exact ⟨rfl, hwd⟩

theorem Tidy.findWatcherPath (h : Tidy q nextInode fw) :
    q.findWatcherPath .file = fw.map fun wd => ⟨wd, .file, .configFile⟩ := by
  unfold Inotify.findWatcherPath
  rw [h.watchers]
  cases fw <;> rfl

theorem Tidy.delivered_directory (h : Tidy q nextInode fw) (bit : InotifyBit) (name : String) :
    q.delivered .directory bit name = if bit ∈ directoryFlags then [⟨1, bit, name⟩] else [] := by
  unfold delivered
  rw [h.directory]

theorem Tidy.delivered_inode (h : Tidy q nextInode fw) {n : ℕ} {k : Watch}
    (hk : q.watches.find? (.inode n) = some k) {bit : InotifyBit} (hbit : bit ∈ fileFlags) :
    q.delivered (.inode n) bit "" = [⟨k.wd, bit, ""⟩] := by
  unfold delivered
  rw [hk]
  simp [(h.inodes n k hk).2.2, hbit]

theorem Tidy.wd_of_mem_delivered (h : Tidy q nextInode fw) {n : ℕ} {bit : InotifyBit}
    {e : InotifyEvent} (he : e ∈ q.delivered (.inode n) bit "") : e.wd ≠ 1 ∧ e.bit = bit := by
  unfold delivered at he
  cases hk : q.watches.find? (.inode n) with
  | none => simp [hk] at he
  | some k =>
    simp only [hk] at he
    split_ifs at he
    · rw [List.mem_singleton.mp he]
      exact ⟨(h.inodes n k hk).2.1, rfl⟩
    · cases he

theorem Tidy.emits (h : Tidy q nextInode fw) (hemits : Emits q q' added)
    (hdir : q'.watches.find? .directory = q.watches.find? .directory) {nextInode' : ℕ}
    (hle : nextInode ≤ nextInode') : Tidy q' nextInode' fw := by
  refine ⟨hemits.watchers.trans h.watchers, h.fileWd, ?_, hdir.trans h.directory, ?_⟩
  · rw [hemits.nextWd]
    exact h.nextWd
  · intro n k hk
    obtain ⟨hn, hrest⟩ := h.inodes n k (hemits.watches _ k hk)
    exact ⟨hn.trans_le hle, hrest⟩

theorem Tidy.notify (h : Tidy q nextInode fw) (node : ConfigNode) (bit : InotifyBit)
    (name : String) : Tidy (q.notify node bit name) nextInode fw :=
  h.emits (emits_notify q node bit name) rfl le_rfl

theorem Tidy.find?_directory_rmWatch (h : Tidy q nextInode fw) {wd : ℕ} (hwd : wd ≠ 1) :
    (q.inotifyRmWatch wd).watches.find? .directory = q.watches.find? .directory := by
  rw [find?_inotifyRmWatch, h.directory]
  simp [Option.filter, hwd.symm]

theorem Tidy.rmWatch (h : Tidy q nextInode fw) {wd : ℕ} (hwd : wd ≠ 1) :
    Tidy (q.inotifyRmWatch wd) nextInode fw :=
  h.emits (emits_inotifyRmWatch q wd) (h.find?_directory_rmWatch hwd) le_rfl

/-- What is delivered when the last link to an inode goes, none of it for the directory. -/
theorem Tidy.release (h : Tidy q nextInode fw) (n : ℕ) :
    ∃ added, Emits q (q.release (.inode n)) added ∧ Tidy (q.release (.inode n)) nextInode fw ∧
      (∀ e ∈ added, e.wd ≠ 1) ∧
      ∀ k, q.watches.find? (.inode n) = some k → ⟨k.wd, .deleteSelf, ""⟩ ∈ added := by
  cases hk : q.watches.find? (.inode n) with
  | none =>
    have heq : q.release (.inode n) = q := by
      unfold Inotify.release
      rw [hk]
    rw [heq]
    exact ⟨[], Emits.refl q, h, by simp, by simp⟩
  | some k =>
    have heq : q.release (.inode n) = (q.notify (.inode n) .deleteSelf "").inotifyRmWatch k.wd := by
      unfold Inotify.release
      rw [hk]
    have hwd : k.wd ≠ 1 := (h.inodes n k hk).2.1
    have hnotified := h.notify (.inode n) .deleteSelf ""
    rw [heq]
    refine ⟨_, (emits_notify q _ _ _).trans (emits_inotifyRmWatch _ k.wd), hnotified.rmWatch hwd,
      ?_, ?_⟩
    · intro e he
      rcases List.mem_append.mp he with he | he
      · exact (h.wd_of_mem_delivered he).1
      · exact (ignored_ignoredEvents hwd e he).2
    · intro k' hk'
      obtain rfl : k = k' := Option.some.inj hk'
      rw [h.delivered_inode hk (by decide)]
      simp

private theorem Tidy.inotifyAddWatch (h : Tidy q nextInode fw) {n : ℕ} (hn : n < nextInode) :
    ∃ q₁ wd, q.inotifyAddWatch (some (.inode n)) fileFlags = (q₁, some wd) ∧
      Tidy q₁ nextInode fw ∧ q₁.queue = q.queue ∧ wd ≠ 1 ∧
      q₁.watches.find? (.inode n) = some ⟨wd, fileFlags⟩ := by
  -- both for a descriptor in use and for a new one, the watch of the node is overwritten
  have hassign (wd : ℕ) (hwd : wd ≠ 1) (m : ℕ) (k : Watch)
      (hk : (q.watches.assign (.inode n) ⟨wd, fileFlags⟩).find? (.inode m) = some k) :
      m < nextInode ∧ k.wd ≠ 1 ∧ k.mask = fileFlags := by
    rw [AssocMap.find?_assign] at hk
    split_ifs at hk with hm
    · obtain rfl : n = m := by simpa using hm
      obtain rfl := Option.some.inj hk
      exact ⟨hn, hwd, rfl⟩
    · exact h.inodes m k hk
  have hself (wd : ℕ) :
      (q.watches.assign (.inode n) ⟨wd, fileFlags⟩).find? (.inode n) = some ⟨wd, fileFlags⟩ := by
    rw [AssocMap.find?_assign]
    simp
  have hdir (wd : ℕ) : (q.watches.assign (.inode n) ⟨wd, fileFlags⟩).find? .directory =
      some ⟨1, directoryFlags⟩ := by
    rw [AssocMap.find?_assign]
    exact h.directory
  cases hk : q.watches.find? (.inode n) with
  | some k =>
    have hwd := (h.inodes n k hk).2.1
    refine ⟨{ q with watches := q.watches.assign (.inode n) ⟨k.wd, fileFlags⟩ }, k.wd, ?_,
      ⟨h.watchers, h.fileWd, h.nextWd, hdir k.wd, hassign k.wd hwd⟩, rfl, hwd, hself k.wd⟩
    unfold Inotify.inotifyAddWatch
    simp only [hk]
  | none =>
    have hwd : q.nextWd ≠ 1 := h.nextWd.ne'
    refine ⟨{ q with
        watches := q.watches.assign (.inode n) ⟨q.nextWd, fileFlags⟩
        nextWd := q.nextWd + 1 }, q.nextWd, ?_, ⟨h.watchers, h.fileWd,
      Nat.lt_succ_of_lt h.nextWd, hdir q.nextWd, hassign q.nextWd hwd⟩, rfl, hwd, hself q.nextWd⟩
    unfold Inotify.inotifyAddWatch
    simp only [hk]

/-- The watch that the watcher gives up delivers `IN_IGNORED`, and the new one stays. -/
private theorem Tidy.giveUp {old wd n : ℕ} (h : Tidy q nextInode (some old))
    (hfind : q.watches.find? (.inode n) = some ⟨wd, fileFlags⟩) :
    ∃ q₁ added, (if old ≠ wd then q.inotifyRmWatch old else q) = q₁ ∧
      Tidy q₁ nextInode (some old) ∧ q₁.watches.find? (.inode n) = some ⟨wd, fileFlags⟩ ∧
      q₁.queue = q.queue ++ added ∧ Ignored added := by
  by_cases heq : old = wd
  · rw [if_neg (not_not.mpr heq)]
    exact ⟨q, [], rfl, h, hfind, (List.append_nil _).symm, by simp [Ignored]⟩
  · have hold : old ≠ 1 := h.fileWd old rfl
    have hkeep : (wd != old) = true := bne_iff_ne.mpr (Ne.symm heq)
    rw [if_pos heq]
    refine ⟨_, _, rfl, h.rmWatch hold, ?_, (emits_inotifyRmWatch q old).queue,
      ignored_ignoredEvents hold⟩
    rw [find?_inotifyRmWatch, hfind]
    simp [Option.filter, hkeep]

theorem replace_loaderWatchers (old wd : ℕ) :
    (loaderWatchers (some old)).replace ⟨old, .file, .configFile⟩ ⟨wd, .file, .configFile⟩ =
      loaderWatchers (some wd) := by
  have hother : ((⟨old, .file, .configFile⟩ : Watcher ConfigPath LoaderTag) ==
      ⟨1, .parentPath, .parentPath⟩) = false := by simp
  simp [loaderWatchers, List.replace_cons, hother]

/-- Afterwards the inode of the file is watched, and under the descriptor of the watcher. -/
theorem Tidy.addFileWatcher (h : Tidy q nextInode fw) {n : ℕ} (hn : n < nextInode) :
    ∃ wd added, Tidy (q.addFileWatcher (some (.inode n)) .file .configFile).1 nextInode (some wd) ∧
      (q.addFileWatcher (some (.inode n)) .file .configFile).1.watches.find? (.inode n) =
        some ⟨wd, fileFlags⟩ ∧
      (q.addFileWatcher (some (.inode n)) .file .configFile).1.queue = q.queue ++ added ∧
      Ignored added := by
  obtain ⟨q₁, wd, hadd, htidy, hqueue, hwd, hfind⟩ := h.inotifyAddWatch hn
  have hfileWd (wd' : ℕ) (heq : some wd = some wd') : wd' ≠ 1 := Option.some.inj heq ▸ hwd
  unfold Inotify.addFileWatcher addWatcher
  rw [hadd, ← hqueue]
  dsimp only
  rw [htidy.findWatcherPath]
  cases fw with
  | none =>
    refine ⟨wd, [], ⟨?_, hfileWd, htidy.nextWd, htidy.directory, htidy.inodes⟩, hfind,
      (List.append_nil _).symm, by simp [Ignored]⟩
    change q₁.watchers ++ _ = _
    rw [htidy.watchers]
    rfl
  | some old =>
    obtain ⟨q₂, added, heq, htidy₂, hfind₂, hqueue₂, hadded⟩ := htidy.giveUp hfind
    simp only [Option.map_some]
    rw [heq]
    refine ⟨wd, added, ⟨?_, hfileWd, htidy₂.nextWd, htidy₂.directory, htidy₂.inodes⟩, hfind₂,
      hqueue₂, hadded⟩
    change q₂.watchers.replace _ _ = _
    rw [htidy₂.watchers]
    exact replace_loaderWatchers old wd

theorem Tidy.removeWatcher (h : Tidy q nextInode fw) :
    ∃ added, Tidy (q.removeWatcher (q.findWatcherPath .file)) nextInode none ∧
      (q.removeWatcher (q.findWatcherPath .file)).queue = q.queue ++ added ∧ Ignored added := by
  rw [h.findWatcherPath]
  cases fw with
  | none => exact ⟨[], h, (List.append_nil _).symm, by simp [Ignored]⟩
  | some wd =>
    have hwd : wd ≠ 1 := h.fileWd wd rfl
    have hrm := h.rmWatch hwd
    refine ⟨q.ignoredEvents wd, ⟨?_, ?_, hrm.nextWd, hrm.directory, hrm.inodes⟩,
      (emits_inotifyRmWatch q wd).queue, ignored_ignoredEvents hwd⟩
    · change (q.inotifyRmWatch wd).watchers.erase _ = _
      rw [hrm.watchers]
      simp [loaderWatchers]
    · simp

end ConfigLoader

end AcsNext.Collector
