import AcsNext.Collector.ConfigWatchTable

/-! What one step can do to the loader of the configuration: a step of the file system, or the
handling of one event. -/
namespace AcsNext.Collector

namespace ConfigLoader

open Inotify

variable {C Cfg : Type*} {q : Inotify ConfigNode ConfigPath LoaderTag} {nextInode : ℕ}
  {fw : Option ℕ} {added : List InotifyEvent}

variable {w w' : ConfigLoader C Cfg} {s : FileStep C}

def fileWatcher (w : ConfigLoader C Cfg) : Option ℕ :=
  (w.inotify.findWatcherPath .file).map Watcher.wd

theorem Tidy.fileWatcher_eq (h : Tidy w.inotify nextInode fw) : w.fileWatcher = fw := by
  unfold fileWatcher
  rw [h.findWatcherPath]
  cases fw <;> rfl

def WatchedUnder (w : ConfigLoader C Cfg) (wd : ℕ) : Prop :=
  ∃ f k, w.file = some f ∧ w.inotify.watches.find? (.inode f.inode) = some k ∧ k.wd = wd

def IsRemoval (e : InotifyEvent) (wd : ℕ) : Prop :=
  e.wd = wd ∧ (e.bit = .moveSelf ∨ e.bit = .deleteSelf)

def RemovalQueued (queue : List InotifyEvent) (wd : ℕ) : Prop :=
  ∃ e ∈ queue, IsRemoval e wd

theorem removalQueued_append (queue added : List InotifyEvent) (wd : ℕ) :
    RemovalQueued (queue ++ added) wd ↔ RemovalQueued queue wd ∨ RemovalQueued added wd := by
  unfold RemovalQueued
  simp only [List.mem_append, or_and_right, exists_or]

def RemovalsIn (w : ConfigLoader C Cfg) (added : List InotifyEvent) (f : ConfigFile C) : Prop :=
  ∀ k, w.inotify.watches.find? (.inode f.inode) = some k → RemovalQueued added k.wd

def created (filename : String) : InotifyEvent := ⟨1, .create, filename⟩

def deleted (filename : String) : InotifyEvent := ⟨1, .delete, filename⟩

inductive FileChange (filename : String) (w : ConfigLoader C Cfg) (s : FileStep C)
    (w' : ConfigLoader C Cfg) (added : List InotifyEvent) : Prop
  | created (content : C) (hstep : s = .create content) (hfile : w.file = none)
      (hfile' : w'.file = some ⟨w.nextInode, content⟩) (hadded : added = [created filename])
      (hlast : w'.lastLoaded = w.lastLoaded)
  | kept (hinode : w'.file.map ConfigFile.inode = w.file.map ConfigFile.inode)
      (hwatches : w'.inotify.watches = w.inotify.watches) (hdeleted : deleted filename ∉ added)
      (hlast : w'.lastLoaded = w.lastLoaded)
      (hmodified : w'.file = w.file ∨ ∀ f k, w.file = some f →
        w.inotify.watches.find? (.inode f.inode) = some k → ⟨k.wd, .modify, ""⟩ ∈ added)
  | gone (hfile' : w'.file = none) (hlast : w'.lastLoaded = none)
      (hremoved : ∀ f, w.file = some f → w.RemovalsIn added f)
  | placed (source : RenameSource C) (f : ConfigFile C) (hstep : s = .renameIntoPlace source)
      (hfile' : w'.file = some f) (hdeleted : deleted filename ∉ added)
      (hlast : w'.lastLoaded = w.lastLoaded)
      (hremoved : ∀ f, w.file = some f → w.RemovalsIn added f) (hmoved : w.RemovalsIn added f)

/-- What every step of the file system leaves as it is, beside what happens to the file. -/
structure FileStepSpec (filename : String) (w : ConfigLoader C Cfg) (s : FileStep C)
    (w' : ConfigLoader C Cfg) (added : List InotifyEvent) : Prop where
  emits : Emits w.inotify w'.inotify added
  tidy : Tidy w'.inotify w'.nextInode w.fileWatcher
  directory : ∀ e ∈ added, e.wd = 1 → e.bit = .create ∨ e.bit = .delete
  inodes : (∀ f, w'.file = some f → f.inode < w'.nextInode) ∧
    ∀ f ∈ w'.movedAway, f.inode < w'.nextInode
  config : w'.runtimeConfig = w.runtimeConfig
  running : w'.running = w.running
  change : FileChange filename w s w' added

/-- The watcher of the file, if there is one, is on the inode of the file or will learn that it
is not, and without a watcher there is no configuration. -/
structure Watching (w : ConfigLoader C Cfg) : Prop where
  tidy : Tidy w.inotify w.nextInode w.fileWatcher
  running : w.running = true
  directory : ∀ e ∈ w.inotify.queue, e.wd = 1 → e.bit = .create ∨ e.bit = .delete
  inodes : (∀ f, w.file = some f → f.inode < w.nextInode) ∧
    ∀ f ∈ w.movedAway, f.inode < w.nextInode
  watched : ∀ wd, w.fileWatcher = some wd →
    w.WatchedUnder wd ∨ RemovalQueued w.inotify.queue wd
  reset : w.fileWatcher = none → w.runtimeConfig = none

variable (filename : String) (parse : C → Option Cfg)

theorem Watching.fileStepSpec_refl (h : Watching w) (s : FileStep C) :
    FileStepSpec filename w s w [] where
  emits := Emits.refl _
  tidy := h.tidy
  directory := by simp
  inodes := h.inodes
  config := rfl
  running := rfl
  change := .kept rfl rfl (by simp) rfl (Or.inl rfl)

theorem Watching.create_spec (h : Watching w) (content : C) :
    ∃ added, FileStepSpec filename w (.create content) (w.create filename content) added := by
  unfold create
  cases hfile : w.file with
  | some f => exact ⟨[], h.fileStepSpec_refl filename _⟩
  | none =>
    have hadded : w.inotify.delivered .directory .create filename = [created filename] :=
      h.tidy.delivered_directory .create filename
    refine ⟨[created filename], ?_, ?_, ?_, ?_, rfl, rfl, .created content rfl hfile rfl rfl rfl⟩
    · rw [← hadded]
      exact emits_notify _ _ _ _
    · exact h.tidy.emits (emits_notify _ .directory .create filename) rfl (Nat.le_succ _)
    · intro e he _
      rw [List.mem_singleton.mp he]
      exact Or.inl rfl
    · refine ⟨?_, fun f hf => Nat.lt_succ_of_lt (h.inodes.2 f hf)⟩
      rintro f ⟨⟩
      exact Nat.lt_succ_self _

theorem Watching.write_spec (h : Watching w) (content : C) :
    ∃ added, FileStepSpec filename w (.write content) (w.write content) added := by
  unfold write
  cases hfile : w.file with
  | none => exact ⟨[], h.fileStepSpec_refl filename _⟩
  | some f =>
    have hwd (e : InotifyEvent) (he : e ∈ w.inotify.delivered (.inode f.inode) .modify "") :
        e.wd ≠ 1 := (h.tidy.wd_of_mem_delivered he).1
    refine ⟨_, emits_notify _ _ .modify "", h.tidy.notify _ _ _, ?_, ?_, rfl, rfl,
      .kept ?_ rfl ?_ rfl (Or.inr ?_)⟩
    · intro e he hone
      exact absurd hone (hwd e he)
    · refine ⟨?_, h.inodes.2⟩
      rintro _ ⟨⟩
      exact h.inodes.1 f hfile
    · rw [hfile]
      rfl
    · intro hmem
      exact hwd _ hmem rfl
    · intro f' k hf' hk
      obtain rfl : f = f' := Option.some.inj (hfile.symm.trans hf')
      rw [h.tidy.delivered_inode hk (by decide)]
      exact List.mem_singleton.mpr rfl

theorem Watching.sibling_spec (h : Watching w) (name : String) (made : Bool) :
    ∃ added, FileStepSpec filename w (.sibling name made) (w.sibling filename name made)
      added := by
  unfold sibling
  by_cases hname : name = filename
  · rw [if_pos hname]
    exact ⟨[], h.fileStepSpec_refl filename _⟩
  · rw [if_neg hname]
    have hadded (bit : InotifyBit) (hbit : bit ∈ directoryFlags) :
        w.inotify.delivered .directory bit name = [⟨1, bit, name⟩] := by
      rw [h.tidy.delivered_directory, if_pos hbit]
    have hmem : (if made then InotifyBit.create else .delete) ∈ directoryFlags := by
      cases made <;> decide
    refine ⟨_, emits_notify _ _ _ _, h.tidy.notify _ _ _, ?_, h.inodes, rfl, rfl,
      .kept rfl rfl ?_ rfl (Or.inl rfl)⟩
    · intro e he _
      rw [hadded _ hmem, List.mem_singleton] at he
      rw [he]
      cases made
      · exact Or.inr rfl
      · exact Or.inl rfl
    · rw [hadded _ hmem, List.mem_singleton]
      intro heq
      exact hname (congrArg InotifyEvent.name heq).symm

/-- In either order, the directory learns of the name and the watch of the inode. -/
private theorem Tidy.unlink (h : Tidy q nextInode fw) (n : ℕ) (selfFirst : Bool) :
    ∃ q' added, q' = (if selfFirst then (q.release (.inode n)).notify .directory .delete filename
        else (q.notify .directory .delete filename).release (.inode n)) ∧
      Emits q q' added ∧ Tidy q' nextInode fw ∧ (∀ e ∈ added, e.wd = 1 → e.bit = .delete) ∧
      ∀ k, q.watches.find? (.inode n) = some k → ⟨k.wd, .deleteSelf, ""⟩ ∈ added := by
  have hdelete {q₁ : Inotify ConfigNode ConfigPath LoaderTag} (h₁ : Tidy q₁ nextInode fw) :
      q₁.delivered .directory .delete filename = [deleted filename] :=
    h₁.delivered_directory .delete filename
  cases selfFirst with
  | true =>
    obtain ⟨added, hemits, htidy, hwd, hself⟩ := h.release n
    refine ⟨_, _, rfl, hemits.trans (emits_notify _ _ _ _), htidy.notify _ _ _, ?_, ?_⟩
    · intro e he hone
      rw [hdelete htidy] at he
      rcases List.mem_append.mp he with he | he
      · exact absurd hone (hwd e he)
      · rw [List.mem_singleton.mp he]
        rfl
    · intro k hk
      exact List.mem_append_left _ (hself k hk)
  | false =>
    obtain ⟨added, hemits, htidy, hwd, hself⟩ := (h.notify .directory .delete filename).release n
    refine ⟨_, _, rfl, (emits_notify _ _ _ _).trans hemits, htidy, ?_, ?_⟩
    · intro e he hone
      rw [hdelete h] at he
      rcases List.mem_append.mp he with he | he
      · rw [List.mem_singleton.mp he]
        rfl
      · exact absurd hone (hwd e he)
    · intro k hk
      exact List.mem_append_right _ (hself k hk)

theorem Watching.delete_spec (h : Watching w) (selfFirst : Bool) :
    ∃ added, FileStepSpec filename w (.delete selfFirst) (w.delete filename selfFirst) added := by
  unfold delete
  cases hfile : w.file with
  | none => exact ⟨[], h.fileStepSpec_refl filename _⟩
  | some f =>
    obtain ⟨q', added, hq', hemits, htidy, hdir, hself⟩ :=
      h.tidy.unlink filename f.inode selfFirst
    dsimp only
    rw [← hq']
    refine ⟨added, hemits, htidy, ?_, ?_, rfl, rfl, .gone rfl rfl ?_⟩
    · intro e he hone
      exact Or.inr (hdir e he hone)
    · refine ⟨?_, h.inodes.2⟩
      rintro _ ⟨⟩
    · intro f' hf' k hk
      obtain rfl : f = f' := Option.some.inj (hfile.symm.trans hf')
      exact ⟨_, hself k hk, rfl, Or.inr rfl⟩

/-- A rename says nothing of the directory: its mask has neither of the two bits. -/
private theorem Tidy.rename (h : Tidy q nextInode fw) {bit : InotifyBit}
    (hbit : bit ∉ directoryFlags) (n : ℕ) :
    ∃ q' added, q' = (q.notify .directory bit filename).notify (.inode n) .moveSelf "" ∧
      Emits q q' added ∧ Tidy q' nextInode fw ∧ q'.watches = q.watches ∧
      (∀ e ∈ added, e.wd ≠ 1) ∧
      ∀ k, q.watches.find? (.inode n) = some k → ⟨k.wd, .moveSelf, ""⟩ ∈ added := by
  have hnone : q.delivered .directory bit filename = [] := by
    rw [h.delivered_directory, if_neg hbit]
  have hemits := (emits_notify q .directory bit filename).trans
    (emits_notify (q.notify .directory bit filename) (.inode n) .moveSelf "")
  rw [hnone] at hemits
  refine ⟨_, _, rfl, hemits, (h.notify _ _ _).notify _ _ _, rfl, ?_, ?_⟩
  · intro e he
    exact (h.wd_of_mem_delivered he).1
  · intro k hk
    have hself : q.delivered (.inode n) .moveSelf "" = [⟨k.wd, .moveSelf, ""⟩] :=
      h.delivered_inode hk (by decide)
    change _ ∈ [] ++ q.delivered (.inode n) .moveSelf ""
    rw [hself]
    exact List.mem_singleton.mpr rfl

theorem Watching.renameAway_spec (h : Watching w) :
    ∃ added, FileStepSpec filename w .renameAway (w.renameAway filename) added := by
  unfold renameAway
  cases hfile : w.file with
  | none => exact ⟨[], h.fileStepSpec_refl filename _⟩
  | some f =>
    obtain ⟨q', added, hq', hemits, htidy, -, hwd, hself⟩ :=
      h.tidy.rename filename (show InotifyBit.movedFrom ∉ directoryFlags by decide) f.inode
    dsimp only
    rw [← hq']
    refine ⟨added, hemits, htidy, ?_, ?_, rfl, rfl, .gone rfl rfl ?_⟩
    · intro e he hone
      exact absurd hone (hwd e he)
    · refine ⟨by rintro _ ⟨⟩, ?_⟩
      intro f' hf'
      rcases List.mem_cons.mp hf' with rfl | hf'
      · exact h.inodes.1 f' hfile
      · exact h.inodes.2 f' hf'
    · intro f' hf' k hk
      obtain rfl : f = f' := Option.some.inj (hfile.symm.trans hf')
      exact ⟨_, hself k hk, rfl, Or.inl rfl⟩

/-- Renaming into place notifies the watch of the file that comes and that of the file it
replaces, and not the directory. -/
theorem Watching.place_spec (h : Watching w) (source : RenameSource C) {f : ConfigFile C}
    {nextInode : ℕ} {movedAway : List (ConfigFile C)} (hf : f.inode < nextInode)
    (hnext : w.nextInode ≤ nextInode) (haway : ∀ f ∈ movedAway, f.inode < nextInode) :
    ∃ added, FileStepSpec filename w (.renameIntoPlace source)
      ({ w with nextInode := nextInode, movedAway := movedAway }.place filename f) added := by
  obtain ⟨q', added, hq', hemits, htidy, hwatches, hwd, hself⟩ :=
    h.tidy.rename filename (show InotifyBit.movedTo ∉ directoryFlags by decide) f.inode
  have hmoved : w.RemovalsIn added f := fun k hk => ⟨_, hself k hk, rfl, Or.inl rfl⟩
  have hdirectory (l : List InotifyEvent) (hl : ∀ e ∈ l, e.wd ≠ 1) :
      (∀ e ∈ l, e.wd = 1 → e.bit = .create ∨ e.bit = .delete) ∧ deleted filename ∉ l :=
    ⟨fun e he hone => absurd hone (hl e he), fun hmem => hl _ hmem rfl⟩
  unfold place
  dsimp only
  rw [← hq']
  cases hfile : w.file with
  | none =>
    obtain ⟨hdir, hdeleted⟩ := hdirectory added hwd
    refine ⟨added, hemits, ?_, hdir, ⟨?_, haway⟩, rfl, rfl,
      .placed source f rfl rfl hdeleted rfl ?_ hmoved⟩
    · exact htidy.emits (Emits.refl _) rfl hnext
    · rintro _ ⟨⟩
      exact hf
    · intro f' hf'
      rw [hfile] at hf'
      cases hf'
  | some old =>
    obtain ⟨added', hemits', htidy', hwd', hself'⟩ := htidy.release old.inode
    have hall (e : InotifyEvent) (he : e ∈ added ++ added') : e.wd ≠ 1 := by
      rcases List.mem_append.mp he with he | he
      · exact hwd e he
      · exact hwd' e he
    obtain ⟨hdir, hdeleted⟩ := hdirectory _ hall
    refine ⟨added ++ added', hemits.trans hemits', ?_, hdir, ⟨?_, haway⟩, rfl, rfl,
      .placed source f rfl rfl hdeleted rfl ?_ ?_⟩
    · exact htidy'.emits (Emits.refl _) rfl hnext
    · rintro _ ⟨⟩
      exact hf
    · intro f' hf' k hk
      obtain rfl : old = f' := Option.some.inj (hfile.symm.trans hf')
      rw [← hwatches] at hk
      exact ⟨_, List.mem_append_right _ (hself' k hk), rfl, Or.inr rfl⟩
    · intro k hk
      exact (removalQueued_append _ _ _).mpr (Or.inl (hmoved k hk))

theorem Watching.renameIntoPlace_spec (h : Watching w) (source : RenameSource C) :
    ∃ added, FileStepSpec filename w (.renameIntoPlace source)
      (w.renameIntoPlace filename source) added := by
  cases source with
  | outside content =>
    refine h.place_spec filename _ (Nat.lt_succ_self _) (Nat.le_succ _) ?_
    intro f hf
    exact Nat.lt_succ_of_lt (h.inodes.2 f hf)
  | movedAway k =>
    unfold renameIntoPlace
    cases hk : w.movedAway[k]? with
    | none =>
      simp only [hk]
      exact ⟨[], h.fileStepSpec_refl filename _⟩
    | some f =>
      simp only [hk]
      refine h.place_spec filename _ (h.inodes.2 f (List.mem_of_getElem? hk)) le_rfl ?_
      intro f' hf'
      exact h.inodes.2 f' (List.mem_of_mem_eraseIdx hf')

theorem Watching.fileStep_spec (h : Watching w) (hs : s ≠ .handle) :
    ∃ added, FileStepSpec filename w s (w.step filename parse s) added := by
  cases s with
  | create content => exact h.create_spec filename content
  | write content => exact h.write_spec filename content
  | delete selfFirst => exact h.delete_spec filename selfFirst
  | renameIntoPlace source => exact h.renameIntoPlace_spec filename source
  | renameAway => exact h.renameAway_spec filename
  | sibling name made => exact h.sibling_spec filename name made
  | handle => exact absurd rfl hs

/-- A load sets the configuration to what the content parses to, or changes nothing. -/
def Loaded (w w' : ConfigLoader C Cfg) (f : ConfigFile C) : Prop :=
  (parse f.content = none ∧ w'.runtimeConfig = w.runtimeConfig ∧ w'.lastLoaded = w.lastLoaded) ∨
  ∃ config, parse f.content = some config ∧ w'.runtimeConfig = some config ∧
    w'.lastLoaded = some config

/-- The four reactions to an event; `w` is the state in which it is already taken. -/
inductive Reaction (w : ConfigLoader C Cfg) (e : InotifyEvent) (w' : ConfigLoader C Cfg) : Prop
  | reloaded (f : ConfigFile C) (wd : ℕ) (hevent : e ≠ deleted filename) (hfile : w.file = some f)
      (hwatcher : w'.fileWatcher = some wd) (hwatched : w'.WatchedUnder wd)
      (hloaded : Loaded parse w w' f)
  | loaded (f : ConfigFile C) (hevent : w.fileWatcher = some e.wd ∧ e.bit = .modify)
      (hfile : w.file = some f) (hwatches : w'.inotify.watches = w.inotify.watches)
      (hwatcher : w'.fileWatcher = w.fileWatcher) (hloaded : Loaded parse w w' f)
  | reset (hevent : e = deleted filename ∨ w.file = none) (hwatcher : w'.fileWatcher = none)
      (hconfig : w'.runtimeConfig = none) (hlast : w'.lastLoaded = w.lastLoaded)
  | skipped (heq : w' = w) (hremoval : ∀ wd, w.fileWatcher = some wd → ¬ IsRemoval e wd)
      (hevent : w.file ≠ none → e ≠ created filename ∧ e ≠ deleted filename ∧
        (w.fileWatcher = some e.wd → e.bit ≠ .modify))

structure HandleSpec (w : ConfigLoader C Cfg) (e : InotifyEvent) (w' : ConfigLoader C Cfg) :
    Prop where
  tidy : Tidy w'.inotify w'.nextInode w'.fileWatcher
  queue : ∃ added, w'.inotify.queue = w.inotify.queue ++ added ∧ Ignored added
  file : w'.file = w.file
  nextInode : w'.nextInode = w.nextInode
  movedAway : w'.movedAway = w.movedAway
  running : w'.running = w.running
  reaction : Reaction filename parse w e w'

theorem loadConfiguration_of_absent (hfile : w.file = none) :
    w.loadConfiguration parse = (w, .fileNotFound) := by
  unfold loadConfiguration
  simp only [hfile]

theorem loadConfiguration_eq {f : ConfigFile C} (hfile : w.file = some f) :
    ∃ config last, (w.loadConfiguration parse).1 =
        { w with runtimeConfig := config, lastLoaded := last } ∧
      ((parse f.content = none ∧ config = w.runtimeConfig ∧ last = w.lastLoaded) ∨
        ∃ c, parse f.content = some c ∧ config = some c ∧ last = some c) := by
  cases hparse : parse f.content with
  | none =>
    refine ⟨w.runtimeConfig, w.lastLoaded, ?_, Or.inl ⟨rfl, rfl, rfl⟩⟩
    change (w.loadConfiguration parse).1 = w
    unfold loadConfiguration
    simp only [hfile, hparse]
  | some c =>
    refine ⟨some c, some c, ?_, Or.inr ⟨c, rfl, rfl, rfl⟩⟩
    unfold loadConfiguration
    simp only [hfile, hparse]

variable {e : InotifyEvent}

private theorem reload_spec (h : Tidy w.inotify w.nextInode fw) {f : ConfigFile C}
    (hfile : w.file = some f) (hinode : f.inode < w.nextInode) (he : e ≠ deleted filename) :
    HandleSpec filename parse w e (w.addFileWatcher.loadConfiguration parse).1 := by
  obtain ⟨wd, added, htidy, hfind, hqueue, hadded⟩ := h.addFileWatcher hinode
  have hresolve : w.resolve .file = some (.inode f.inode) := by
    unfold resolve
    rw [hfile]
    rfl
  have hfile₁ : w.addFileWatcher.file = some f := hfile
  obtain ⟨config, last, heq, hload⟩ := loadConfiguration_eq parse hfile₁
  rw [heq]
  unfold addFileWatcher
  rw [hresolve]
  refine ⟨?_, ⟨added, hqueue, hadded⟩, rfl, rfl, rfl, rfl, ?_⟩
  · rw [Tidy.fileWatcher_eq htidy]
    exact htidy
  · exact .reloaded f wd he hfile (Tidy.fileWatcher_eq htidy) ⟨f, _, hfile, hfind, rfl⟩
      hload

private theorem reset_spec (h : Tidy w.inotify w.nextInode fw)
    (he : e = deleted filename ∨ w.file = none) :
    HandleSpec filename parse w e
      (w.removeWatcher (w.inotify.findWatcherPath .file)).resetRuntimeConfig := by
  obtain ⟨added, htidy, hqueue, hadded⟩ := h.removeWatcher
  refine ⟨?_, ⟨added, hqueue, hadded⟩, rfl, rfl, rfl, rfl, .reset he ?_ rfl rfl⟩
  · rw [Tidy.fileWatcher_eq htidy]
    exact htidy
  · exact Tidy.fileWatcher_eq htidy

private theorem skip_spec (h : Tidy w.inotify w.nextInode w.fileWatcher)
    (hremoval : ∀ wd, w.fileWatcher = some wd → ¬ IsRemoval e wd)
    (he : w.file ≠ none → e ≠ created filename ∧ e ≠ deleted filename ∧
      (w.fileWatcher = some e.wd → e.bit ≠ .modify)) :
    HandleSpec filename parse w e w :=
  ⟨h, ⟨[], (List.append_nil _).symm, by simp [Ignored]⟩, rfl, rfl, rfl, rfl,
    .skipped rfl hremoval he⟩

theorem reload_of_absent (hfile : w.file = none) :
    (w.addFileWatcher.loadConfiguration parse).1 = w := by
  have hresolve : w.resolve .file = none := by
    unfold resolve
    rw [hfile]
    rfl
  have hadd : w.addFileWatcher = w := by
    unfold addFileWatcher
    rw [hresolve]
    rfl
  rw [hadd, loadConfiguration_of_absent parse hfile]

private theorem load_spec (h : Tidy w.inotify w.nextInode w.fileWatcher) {f : ConfigFile C}
    (hfile : w.file = some f) (he : w.fileWatcher = some e.wd ∧ e.bit = .modify) :
    HandleSpec filename parse w e (w.loadConfiguration parse).1 := by
  obtain ⟨config, last, heq, hload⟩ := loadConfiguration_eq parse hfile
  rw [heq]
  exact ⟨h, ⟨[], (List.append_nil _).symm, by simp [Ignored]⟩, rfl, rfl, rfl, rfl,
    .loaded f he hfile rfl rfl hload⟩

/-- An event of the directory is a creation or a removal, of the file or of another entry. -/
private theorem handleConfigDirectoryEvent_spec (h : Tidy w.inotify w.nextInode w.fileWatcher)
    (hinode : ∀ f, w.file = some f → f.inode < w.nextInode) (hwd : e.wd = 1)
    (hbit : e.bit = .create ∨ e.bit = .delete) :
    (w.handleConfigDirectoryEvent filename parse e).2 = true ∧
      HandleSpec filename parse w e (w.handleConfigDirectoryEvent filename parse e).1 := by
  have hself : ¬(e.bit = .moveSelf ∨ e.bit = .deleteSelf) := by
    rcases hbit with hbit | hbit <;> simp [hbit]
  have hremoval (wd : ℕ) (_ : w.fileWatcher = some wd) : ¬ IsRemoval e wd :=
    fun hrem => hself hrem.2
  have hfw : w.fileWatcher ≠ some e.wd := fun heq => h.fileWd e.wd heq hwd
  unfold handleConfigDirectoryEvent
  rw [if_neg hself]
  by_cases hname : filename = e.name
  · rw [if_neg (not_not.mpr hname)]
    rcases hbit with hbit | hbit
    · rw [if_pos (Or.inl hbit)]
      have hne : e ≠ deleted filename := by
        rintro rfl
        cases hbit
      refine ⟨rfl, ?_⟩
      cases hfile : w.file with
      | none =>
        rw [reload_of_absent parse hfile]
        refine skip_spec filename parse h hremoval ?_
        intro hsome
        exact absurd hfile hsome
      | some f => exact reload_spec filename parse h hfile (hinode f hfile) hne
    · have hcreate : ¬(e.bit = .create ∨ e.bit = .movedTo) := by simp [hbit]
      rw [if_neg hcreate, if_pos (Or.inl hbit)]
      have heq : e = deleted filename := by
        unfold deleted
        rw [← hwd, ← hbit, hname]
      exact ⟨rfl, reset_spec filename parse h (Or.inl heq)⟩
  · rw [if_pos hname]
    refine ⟨rfl, skip_spec filename parse h hremoval ?_⟩
    intro _
    refine ⟨?_, ?_, fun heq => absurd heq hfw⟩
    · rintro rfl
      exact hname rfl
    · rintro rfl
      exact hname rfl

private theorem handleConfigFileEvent_spec (h : Tidy w.inotify w.nextInode w.fileWatcher)
    (hinode : ∀ f, w.file = some f → f.inode < w.nextInode) (hfw : w.fileWatcher = some e.wd) :
    HandleSpec filename parse w e
      (w.handleConfigFileEvent parse e ⟨e.wd, .file, .configFile⟩) := by
  have hone : e.wd ≠ 1 := h.fileWd e.wd hfw
  have hcreated : e ≠ created filename := by
    rintro rfl
    exact hone rfl
  have hdeleted : e ≠ deleted filename := by
    rintro rfl
    exact hone rfl
  unfold handleConfigFileEvent
  by_cases hmodify : e.bit = .modify
  · rw [if_pos hmodify]
    cases hfile : w.file with
    | none =>
      rw [loadConfiguration_of_absent parse hfile]
      refine skip_spec filename parse h ?_ ?_
      · intro wd _ hrem
        rcases hrem.2 with hbit | hbit <;> simp [hbit] at hmodify
      · intro hsome
        exact absurd hfile hsome
    | some f => exact load_spec filename parse h hfile ⟨hfw, hmodify⟩
  · rw [if_neg hmodify]
    by_cases hself : e.bit = .moveSelf ∨ e.bit = .deleteSelf
    · rw [if_pos hself]
      cases hfile : w.file with
      | none =>
        have hfind : w.inotify.findWatcherPath .file = some ⟨e.wd, .file, .configFile⟩ := by
          rw [h.findWatcherPath, hfw]
          rfl
        rw [if_neg (by simp), ← hfind]
        exact reset_spec filename parse h (Or.inr hfile)
      | some f =>
        rw [if_pos Option.isSome_some]
        exact reload_spec filename parse h hfile (hinode f hfile) hdeleted
    · rw [if_neg hself]
      refine skip_spec filename parse h ?_ ?_
      · intro wd _ hrem
        exact hself hrem.2
      · intro _
        exact ⟨hcreated, hdeleted, fun _ => hmodify⟩

theorem handleEvent_spec (h : Tidy w.inotify w.nextInode w.fileWatcher)
    (hinode : ∀ f, w.file = some f → f.inode < w.nextInode)
    (hbit : e.wd = 1 → e.bit = .create ∨ e.bit = .delete) :
    (w.handleEvent filename parse e).2 = true ∧
      HandleSpec filename parse w e (w.handleEvent filename parse e).1 := by
  unfold handleEvent findWatcherWd
  rw [h.watchers]
  by_cases hone : e.wd = 1
  · simp only [loaderWatchers, List.find?_cons, hone, decide_true]
    exact handleConfigDirectoryEvent_spec filename parse h hinode hone (hbit hone)
  · have hne : ¬(1 = e.wd) := fun heq => hone heq.symm
    simp only [loaderWatchers, List.find?_cons, hne, decide_false]
    by_cases hfw : w.fileWatcher = some e.wd
    · simp only [hfw, Option.map_some, Option.toList_some, List.find?_cons, decide_true]
      exact ⟨trivial, handleConfigFileEvent_spec filename parse h hinode hfw⟩
    · have hnone : (w.fileWatcher.map fun wd =>
          (⟨wd, .file, .configFile⟩ : Watcher ConfigPath LoaderTag)).toList.find?
            (fun it => decide (it.wd = e.wd)) = none := by
        cases hcase : w.fileWatcher with
        | none => rfl
        | some wd =>
          have hwd : ¬(wd = e.wd) := by
            rintro rfl
            exact hfw hcase
          simp [hwd]
      rw [hnone]
      refine ⟨rfl, skip_spec filename parse h ?_ ?_⟩
      · rintro wd hwd ⟨rfl, -⟩
        exact hfw hwd
      · intro _
        refine ⟨?_, ?_, fun heq => absurd heq hfw⟩
        · rintro rfl
          exact hone rfl
        · rintro rfl
          exact hone rfl

end ConfigLoader

end AcsNext.Collector
