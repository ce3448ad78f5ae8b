import AcsNext.Collector.ConfigSteps

/-! Whether the runtime configuration follows the configuration file, however far the thread
lags behind the events. -/
namespace AcsNext.Collector

open AcsNext.Data

namespace ConfigLoader

open Inotify

variable {C Cfg : Type*} {added : List InotifyEvent} {w w' : ConfigLoader C Cfg}
  {s : FileStep C} {e : InotifyEvent} (filename : String) (parse : C → Option Cfg)

/-- What remains when the first event is taken from the queue. -/
def popped (w : ConfigLoader C Cfg) (rest : List InotifyEvent) : ConfigLoader C Cfg :=
  { w with inotify := { w.inotify with queue := rest } }

theorem Watching.getNext_spec (h : Watching w) :
    (w.inotify.queue = [] ∧ w.getNext filename parse = w) ∨
    ∃ e rest, w.inotify.queue = e :: rest ∧
      HandleSpec filename parse (w.popped rest) e (w.getNext filename parse) := by
  cases hqueue : w.inotify.queue with
  | nil =>
    left
    refine ⟨rfl, ?_⟩
    unfold getNext
    simp only [h.running, hqueue]
  | cons e rest =>
    right
    have htidy : Tidy (w.popped rest).inotify (w.popped rest).nextInode
        (w.popped rest).fileWatcher :=
      ⟨h.tidy.watchers, h.tidy.fileWd, h.tidy.nextWd, h.tidy.directory, h.tidy.inodes⟩
    have hbit : e.wd = 1 → e.bit = .create ∨ e.bit = .delete := by
      apply h.directory
      rw [hqueue]
      exact List.mem_cons_self
    obtain ⟨hcontinue, hspec⟩ := handleEvent_spec filename parse htidy h.inodes.1 hbit
    -- no event of the queue stops the thread
    have hnext : w.getNext filename parse = ((w.popped rest).handleEvent filename parse e).1 := by
      have hrunning : ((w.popped rest).handleEvent filename parse e).1.running = true :=
        hspec.running.trans h.running
      have heq : w.getNext filename parse = { ((w.popped rest).handleEvent filename parse e).1 with
          running := ((w.popped rest).handleEvent filename parse e).2 } := by
        unfold getNext popped
        simp only [h.running, hqueue]
      rw [heq, hcontinue, ← hrunning]
    rw [hnext]
    exact ⟨e, rest, rfl, hspec⟩

theorem WatchedUnder.of_kept {wd : ℕ} (h : w.WatchedUnder wd)
    (hinode : w'.file.map ConfigFile.inode = w.file.map ConfigFile.inode)
    (hwatches : w'.inotify.watches = w.inotify.watches) : w'.WatchedUnder wd := by
  obtain ⟨f, k, hfile, hk, hwd⟩ := h
  rw [hfile] at hinode
  obtain ⟨f', hfile', heq⟩ := Option.map_eq_some_iff.mp hinode
  refine ⟨f', k, hfile', ?_, hwd⟩
  rw [hwatches, heq]
  exact hk

/-- A watcher that leaves the inode of the file has a removal among the new events. -/
theorem FileStepSpec.watched (hspec : FileStepSpec filename w s w' added) {wd : ℕ}
    (h : w.WatchedUnder wd) : w'.WatchedUnder wd ∨ RemovalQueued added wd := by
  cases hspec.change with
  | created content _ hfile _ _ _ =>
    obtain ⟨f, k, hsome, -, -⟩ := h
    rw [hfile] at hsome
    cases hsome
  | kept hinode hwatches _ _ _ => exact Or.inl (h.of_kept hinode hwatches)
  | gone _ _ hremoved =>
    obtain ⟨f, k, hfile, hk, rfl⟩ := h
    exact Or.inr (hremoved f hfile k hk)
  | placed source f _ _ _ _ hremoved _ =>
    obtain ⟨f, k, hfile, hk, rfl⟩ := h
    exact Or.inr (hremoved f hfile k hk)

theorem FileStepSpec.watching (hspec : FileStepSpec filename w s w' added) (h : Watching w) :
    Watching w' := by
  have hfw : w'.fileWatcher = w.fileWatcher := hspec.tidy.fileWatcher_eq
  refine ⟨?_, hspec.running.trans h.running, ?_, hspec.inodes, ?_, ?_⟩
  · rw [hfw]
    exact hspec.tidy
  · rw [hspec.emits.queue]
    intro e he
    rcases List.mem_append.mp he with he | he
    · exact h.directory e he
    · exact hspec.directory e he
  · intro wd hwd
    rw [hspec.emits.queue, removalQueued_append]
    rw [hfw] at hwd
    rcases h.watched wd hwd with hw | hq
    · rcases hspec.watched filename hw with hw | hq
      · exact Or.inl hw
      · exact Or.inr (Or.inr hq)
    · exact Or.inr (Or.inl hq)
  · intro hnone
    rw [hspec.config]
    exact h.reset (hfw.symm.trans hnone)

section Handling

variable {filename parse} {rest : List InotifyEvent}

/-- Only the event that is handled leaves the queue. -/
theorem HandleSpec.mem_queue (hspec : HandleSpec filename parse (w.popped rest) e w')
    (hqueue : w.inotify.queue = e :: rest) {e' : InotifyEvent} (he' : e' ∈ w.inotify.queue)
    (hne : e' ≠ e) : e' ∈ w'.inotify.queue := by
  obtain ⟨added, hqueue', -⟩ := hspec.queue
  rw [hqueue] at he'
  rw [hqueue']
  exact List.mem_append_left _ (List.mem_of_ne_of_mem hne he')

theorem HandleSpec.removalQueued (hspec : HandleSpec filename parse (w.popped rest) e w')
    (hqueue : w.inotify.queue = e :: rest) {wd : ℕ} (h : RemovalQueued w.inotify.queue wd)
    (hnot : ¬ IsRemoval e wd) : RemovalQueued w'.inotify.queue wd := by
  obtain ⟨e', he', hremoval⟩ := h
  refine ⟨e', hspec.mem_queue hqueue he' ?_, hremoval⟩
  rintro rfl
  exact hnot hremoval

/-- A removal that is handled is answered by a new watch or by no watcher at all. -/
theorem HandleSpec.watched (h : Watching w) (hqueue : w.inotify.queue = e :: rest)
    (hspec : HandleSpec filename parse (w.popped rest) e w') {wd : ℕ}
    (hwd : w'.fileWatcher = some wd) : w'.WatchedUnder wd ∨ RemovalQueued w'.inotify.queue wd := by
  cases hspec.reaction with
  | reloaded f wd' _ _ hwatcher hwatched _ =>
    obtain rfl : wd' = wd := Option.some.inj (hwatcher.symm.trans hwd)
    exact Or.inl hwatched
  | loaded f hevent hfile hwatches hwatcher _ =>
    rw [hwatcher] at hwd
    rcases h.watched wd hwd with hw | hq
    · exact Or.inl (hw.of_kept (congrArg _ hspec.file) hwatches)
    · refine Or.inr (hspec.removalQueued hqueue hq ?_)
      rintro ⟨-, hbit | hbit⟩ <;> simp [hbit] at hevent
  | reset _ hwatcher _ _ =>
    rw [hwatcher] at hwd
    cases hwd
  | skipped heq hremoval _ =>
    rw [heq] at hwd
    rcases h.watched wd hwd with hw | hq
    · left
      rw [heq]
      exact hw
    · exact Or.inr (hspec.removalQueued hqueue hq (hremoval wd hwd))

theorem HandleSpec.watching (h : Watching w) (hqueue : w.inotify.queue = e :: rest)
    (hspec : HandleSpec filename parse (w.popped rest) e w') : Watching w' := by
  obtain ⟨added, hqueue', hadded⟩ := hspec.queue
  refine ⟨hspec.tidy, hspec.running.trans h.running, ?_, ?_, ?_, ?_⟩
  · rw [hqueue']
    intro e' he' hone
    rcases List.mem_append.mp he' with he' | he'
    · apply h.directory e' _ hone
      rw [hqueue]
      exact List.mem_cons_of_mem e he'
    · exact absurd hone (hadded e' he').2
  · rw [hspec.file, hspec.movedAway, hspec.nextInode]
    exact h.inodes
  · intro wd hwd
    exact hspec.watched h hqueue hwd
  · intro hnone
    cases hspec.reaction with
    | reloaded f wd' _ _ hwatcher _ _ =>
      rw [hwatcher] at hnone
      cases hnone
    | loaded f hevent _ _ hwatcher _ =>
      rw [hwatcher, hevent.1] at hnone
      cases hnone
    | reset _ _ hconfig _ => exact hconfig
    | skipped heq _ _ =>
      subst heq
      exact h.reset hnone

end Handling

/-- The ways a step of the world can go, by which every invariant is carried over. -/
theorem Watching.step_cases (h : Watching w) (s : FileStep C) :
    (∃ added, s ≠ .handle ∧ FileStepSpec filename w s (w.step filename parse s) added) ∨
    (s = .handle ∧ w.inotify.queue = [] ∧ w.step filename parse s = w) ∨
    ∃ e rest, s = .handle ∧ w.inotify.queue = e :: rest ∧
      HandleSpec filename parse (w.popped rest) e (w.step filename parse s) := by
  by_cases hs : s = .handle
  · subst hs
    rcases h.getNext_spec filename parse with ⟨hqueue, heq⟩ | ⟨e, rest, hqueue, hspec⟩
    · exact Or.inr (Or.inl ⟨rfl, hqueue, heq⟩)
    · exact Or.inr (Or.inr ⟨e, rest, rfl, hqueue, hspec⟩)
  · obtain ⟨added, hspec⟩ := h.fileStep_spec filename parse hs
    exact Or.inl ⟨added, hs, hspec⟩

theorem Watching.step (h : Watching w) (s : FileStep C) :
    Watching (w.step filename parse s) := by
  rcases h.step_cases filename parse s with ⟨added, -, hspec⟩ | ⟨-, -, heq⟩ |
    ⟨e, rest, -, hqueue, hspec⟩
  · exact hspec.watching filename h
  · rw [heq]
    exact h
  · exact hspec.watching h hqueue

/-- The state before the file is looked at, with the events queued. -/
def base (initial : Option C) (queue : List InotifyEvent) : ConfigLoader C Cfg where
  file := initial.map fun content => ⟨0, content⟩
  nextInode := 1
  movedAway := []
  inotify :=
    { (Inotify.empty.addDirectoryWatcher (some .directory) .parentPath .parentPath).1 with
      queue := queue }
  runtimeConfig := none
  running := true
  lastLoaded := none

theorem watchFile_none : watchFile parse none = (base none [] : ConfigLoader C Cfg) := rfl

/-- Starting with a file is handling its creation. -/
theorem watchFile_some (content : C) :
    watchFile parse (some content) =
      (base (some content) [created filename]).getNext filename parse := by
  obtain ⟨config, last, heq, -⟩ := loadConfiguration_eq parse
    (show (base (some content) [] : ConfigLoader C Cfg).addFileWatcher.file = some ⟨0, content⟩
      from rfl)
  have hstart : watchFile parse (some content) =
      ((base (some content) [] : ConfigLoader C Cfg).addFileWatcher.loadConfiguration parse).1 :=
    rfl
  have hhandle : (base (some content) [] : ConfigLoader C Cfg).handleEvent filename parse
      (created filename) =
        (((base (some content) []).addFileWatcher.loadConfiguration parse).1, true) := by
    unfold handleEvent
    change (base (some content) []).handleConfigDirectoryEvent filename parse (created filename) = _
    unfold handleConfigDirectoryEvent
    simp [created]
  have hnext : (base (some content) [created filename] : ConfigLoader C Cfg).getNext filename
      parse = { ((base (some content) []).handleEvent filename parse (created filename)).1 with
        running := ((base (some content) []).handleEvent filename parse (created filename)).2 } :=
    rfl
  rw [hnext, hhandle, hstart, heq]
  rfl

theorem watching_base (initial : Option C) {queue : List InotifyEvent}
    (hqueue : ∀ e ∈ queue, e.wd = 1 → e.bit = .create ∨ e.bit = .delete) :
    Watching (base initial queue : ConfigLoader C Cfg) := by
  have htidy : Tidy (base initial queue : ConfigLoader C Cfg).inotify 1 none := by
    refine ⟨rfl, by simp, Nat.one_lt_two, rfl, ?_⟩
    intro n k hk
    cases hk
  have hfw := Tidy.fileWatcher_eq htidy
  refine ⟨?_, rfl, hqueue, ⟨?_, ?_⟩, ?_, fun _ => rfl⟩
  · rw [hfw]
    exact htidy
  · intro f hf
    obtain ⟨content, -, rfl⟩ := Option.map_eq_some_iff.mp hf
    exact Nat.one_pos
  · intro f hf
    cases hf
  · intro wd hwd
    rw [hfw] at hwd
    cases hwd

theorem watching_base_created (content : C) :
    Watching (base (some content) [created filename] : ConfigLoader C Cfg) := by
  apply watching_base
  intro e he _
  rw [List.mem_singleton.mp he]
  exact Or.inl rfl

theorem watching_watchFile (initial : Option C) : Watching (watchFile parse initial) := by
  cases initial with
  | none =>
    rw [watchFile_none]
    exact watching_base none (by simp)
  | some content =>
    rw [watchFile_some "" parse content]
    exact (watching_base_created "" content).step "" parse .handle

theorem always_watching (initial : Option C) (steps : List (FileStep C)) :
    Always (step filename parse) (fun _ w => Watching w) (watchFile parse initial) steps := by
  have hall : EveryStep (step filename parse) (fun _ _ => True) (watchFile parse initial) steps :=
    fun _ _ _ => trivial
  refine always_of_everyStep (watching_watchFile parse initial) ?_ hall
  intro l s h _
  exact h.step filename parse s

/-- Behind every removal of the file's name in the queue there is a creation. -/
def CreatedAfterDelete : List InotifyEvent → Prop
  | [] => True
  | e :: queue => (e = deleted filename → created filename ∈ queue) ∧ CreatedAfterDelete queue

instance CreatedAfterDelete.decidable : (queue : List InotifyEvent) →
    Decidable (CreatedAfterDelete filename queue)
  | [] => isTrue trivial
  | _ :: queue =>
    have := CreatedAfterDelete.decidable queue
    inferInstanceAs (Decidable ((_ → _) ∧ _))

theorem createdAfterDelete_append_created (queue : List InotifyEvent) :
    CreatedAfterDelete filename (queue ++ [created filename]) := by
  induction queue with
  | nil => exact ⟨fun h => absurd h (by simp [created, deleted]), trivial⟩
  | cons e queue ih => exact ⟨fun _ => by simp, ih⟩

theorem createdAfterDelete_append {queue : List InotifyEvent}
    (h : CreatedAfterDelete filename queue) (hadded : deleted filename ∉ added) :
    CreatedAfterDelete filename (queue ++ added) := by
  induction queue with
  | nil =>
    induction added with
    | nil => trivial
    | cons e added ih =>
      rw [List.mem_cons, not_or] at hadded
      exact ⟨fun he => absurd he.symm hadded.1, ih hadded.2⟩
  | cons e queue ih => exact ⟨fun he => List.mem_append_left _ (h.1 he), ih h.2⟩

theorem Ignored.deleted_notMem (h : Ignored added) : deleted filename ∉ added := by
  intro hmem
  exact (h _ hmem).2 rfl

def Reloads (e : InotifyEvent) (wd : ℕ) : Prop :=
  e = created filename ∨ (e.wd = wd ∧ e.bit = .modify) ∨ IsRemoval e wd

/-- A file that is there has a watcher or is about to get one, and what its watcher has not
loaded will be loaded. -/
structure Noticed (w : ConfigLoader C Cfg) : Prop where
  ordered : w.file ≠ none → CreatedAfterDelete filename w.inotify.queue
  watcher : w.file ≠ none → w.fileWatcher = none → created filename ∈ w.inotify.queue
  agrees : ∀ f k, w.file = some f → w.inotify.watches.find? (.inode f.inode) = some k →
    w.fileWatcher = some k.wd →
      (∀ config, parse f.content = some config → w.runtimeConfig = some config) ∨
      ∃ e ∈ w.inotify.queue, Reloads filename e k.wd

/-- A file is renamed into place where there was none only while an event is queued that makes
the thread look at the path: its mask for the directory does not ask for `IN_MOVED_TO`. -/
def Announced (w : ConfigLoader C Cfg) : FileStep C → Prop
  | .renameIntoPlace _ => w.file = none →
    CreatedAfterDelete filename w.inotify.queue ∧
      (w.fileWatcher = none → created filename ∈ w.inotify.queue)
  | _ => True

instance Announced.decidable (w : ConfigLoader C Cfg) :
    (s : FileStep C) → Decidable (Announced filename w s)
  | .renameIntoPlace _ => inferInstanceAs (Decidable (_ → _ ∧ (_ → _)))
  | .create _ | .write _ | .delete _ | .renameAway | .sibling _ _ | .handle => isTrue trivial

section Noticing

variable {filename parse} {rest : List InotifyEvent}

/-- A file that stays agrees with the configuration as before, or its change is queued. -/
theorem FileStepSpec.agrees_of_kept (hspec : FileStepSpec filename w s w' added)
    (h : Noticed filename parse w)
    (hinode : w'.file.map ConfigFile.inode = w.file.map ConfigFile.inode)
    (hwatches : w'.inotify.watches = w.inotify.watches)
    (hmodified : w'.file = w.file ∨ ∀ f k, w.file = some f →
      w.inotify.watches.find? (.inode f.inode) = some k → ⟨k.wd, .modify, ""⟩ ∈ added)
    {f' : ConfigFile C} {k : Watch} (hfile' : w'.file = some f')
    (hk : w'.inotify.watches.find? (.inode f'.inode) = some k)
    (hwd : w'.fileWatcher = some k.wd) :
    (∀ config, parse f'.content = some config → w'.runtimeConfig = some config) ∨
      ∃ e ∈ w'.inotify.queue, Reloads filename e k.wd := by
  rw [hfile', Option.map_some, eq_comm] at hinode
  obtain ⟨f, hfile, heq⟩ := Option.map_eq_some_iff.mp hinode
  rw [hwatches, ← heq] at hk
  rw [hspec.tidy.fileWatcher_eq] at hwd
  rw [hspec.emits.queue, hspec.config]
  rcases hmodified with hsame | hmodified
  · obtain rfl : f' = f := Option.some.inj (hfile'.symm.trans (hsame.trans hfile))
    rcases h.agrees f' k hfile hk hwd with hconfig | ⟨e, he, hreload⟩
    · exact Or.inl hconfig
    · exact Or.inr ⟨e, List.mem_append_left _ he, hreload⟩
  · have hmem := hmodified f k hfile hk
    exact Or.inr ⟨_, List.mem_append_right _ hmem, Or.inr (Or.inl ⟨rfl, rfl⟩)⟩

/-- What a present file needs of the queue is kept by events that do not delete it. -/
theorem FileStepSpec.ordered (hspec : FileStepSpec filename w s w' added)
    (hdeleted : deleted filename ∉ added)
    (hbefore : CreatedAfterDelete filename w.inotify.queue ∧
      (w.fileWatcher = none → created filename ∈ w.inotify.queue)) :
    CreatedAfterDelete filename w'.inotify.queue ∧
      (w'.fileWatcher = none → created filename ∈ w'.inotify.queue) := by
  rw [hspec.emits.queue, hspec.tidy.fileWatcher_eq]
  refine ⟨createdAfterDelete_append filename hbefore.1 hdeleted, ?_⟩
  intro hnone
  exact List.mem_append_left _ (hbefore.2 hnone)

theorem FileStepSpec.noticed (hspec : FileStepSpec filename w s w' added)
    (h : Noticed filename parse w) (hs : Announced filename w s) :
    Noticed filename parse w' := by
  cases hspec.change with
  | created content _ _ hfile' hadded _ =>
    have hqueue := hspec.emits.queue
    rw [hadded] at hqueue
    have hmem : created filename ∈ w'.inotify.queue := by
      rw [hqueue]
      simp
    refine ⟨?_, fun _ _ => hmem, fun _ _ _ _ _ => Or.inr ⟨_, hmem, Or.inl rfl⟩⟩
    intro _
    rw [hqueue]
    exact createdAfterDelete_append_created filename _
  | kept hinode hwatches hdeleted _ hmodified =>
    have hkept (hfile' : w'.file ≠ none) := by
      have hfile : w.file ≠ none := by
        intro hnone
        rw [hnone] at hinode
        exact hfile' (Option.map_eq_none_iff.mp hinode)
      exact hspec.ordered hdeleted ⟨h.ordered hfile, h.watcher hfile⟩
    refine ⟨fun hfile' => (hkept hfile').1, fun hfile' => (hkept hfile').2, ?_⟩
    intro f' k hfile' hk hwd
    exact hspec.agrees_of_kept h hinode hwatches hmodified hfile' hk hwd
  | gone hfile' _ _ =>
    refine ⟨fun hsome => absurd hfile' hsome, fun hsome => absurd hfile' hsome, ?_⟩
    intro f k hfile
    rw [hfile'] at hfile
    cases hfile
  | placed source f hstep hfile' hdeleted _ _ hmoved =>
    have hbefore : CreatedAfterDelete filename w.inotify.queue ∧
        (w.fileWatcher = none → created filename ∈ w.inotify.queue) := by
      by_cases hfile : w.file = none
      · subst hstep
        exact hs hfile
      · exact ⟨h.ordered hfile, h.watcher hfile⟩
    have hplaced := hspec.ordered hdeleted hbefore
    refine ⟨fun _ => hplaced.1, fun _ => hplaced.2, ?_⟩
    -- a watch that the file brings with it reports the move
    intro f' k hf' hk _
    obtain rfl : f = f' := Option.some.inj (hfile'.symm.trans hf')
    obtain ⟨e, he, hrem⟩ := hmoved k (hspec.emits.watches _ k hk)
    rw [hspec.emits.queue]
    exact Or.inr ⟨e, List.mem_append_right _ he, Or.inr (Or.inr hrem)⟩

theorem Loaded.config {f : ConfigFile C} (h : Loaded parse w w' f) {config : Cfg}
    (hparse : parse f.content = some config) : w'.runtimeConfig = some config := by
  rcases h with ⟨hnone, -⟩ | ⟨c, hc, hconfig, -⟩
  · rw [hnone] at hparse
    cases hparse
  · rw [hconfig, ← hc, hparse]

theorem HandleSpec.ordered (hspec : HandleSpec filename parse (w.popped rest) e w')
    (hqueue : w.inotify.queue = e :: rest) (h : Noticed filename parse w)
    (hsome : w'.file ≠ none) : CreatedAfterDelete filename w'.inotify.queue := by
  obtain ⟨added, hqueue', hadded⟩ := hspec.queue
  have hcad := h.ordered (hspec.file ▸ hsome)
  rw [hqueue] at hcad
  rw [hqueue']
  exact createdAfterDelete_append filename hcad.2 (hadded.deleted_notMem filename)

theorem HandleSpec.noticed_of_loaded (hspec : HandleSpec filename parse (w.popped rest) e w')
    (hqueue : w.inotify.queue = e :: rest) (h : Noticed filename parse w) {f : ConfigFile C}
    (hfile : w.file = some f) (hloaded : Loaded parse (w.popped rest) w' f)
    (hwatcher : w'.fileWatcher ≠ none) : Noticed filename parse w' := by
  refine ⟨hspec.ordered hqueue h, fun _ hnone => absurd hnone hwatcher, ?_⟩
  intro f' k hf' _ _
  obtain rfl : f' = f := Option.some.inj (hf'.symm.trans (hspec.file.trans hfile))
  exact Or.inl fun config hparse => hloaded.config hparse

theorem Noticed.skip (hspec : HandleSpec filename parse (w.popped rest) e (w.popped rest))
    (hqueue : w.inotify.queue = e :: rest) (h : Noticed filename parse w)
    (hremoval : ∀ wd, w.fileWatcher = some wd → ¬ IsRemoval e wd)
    (hevent : w.file ≠ none → e ≠ created filename ∧ e ≠ deleted filename ∧
      (w.fileWatcher = some e.wd → e.bit ≠ .modify)) :
    Noticed filename parse (w.popped rest) := by
  refine ⟨hspec.ordered hqueue h, ?_, ?_⟩
  · intro hsome hnone
    exact hspec.mem_queue hqueue (h.watcher hsome hnone) (hevent hsome).1.symm
  · intro f k hfile hk hwd
    have hsome : w.file ≠ none := by
      intro hnone
      exact absurd (hnone.symm.trans hfile) (by simp)
    obtain ⟨hne, -, hmodify⟩ := hevent hsome
    rcases h.agrees f k hfile hk hwd with hconfig | ⟨e', he', hreload⟩
    · exact Or.inl hconfig
    · refine Or.inr ⟨e', hspec.mem_queue hqueue he' ?_, hreload⟩
      rintro rfl
      rcases hreload with heq | ⟨hwd', hbit⟩ | hrem
      · exact hne heq
      · exact hmodify (hwd' ▸ hwd) hbit
      · exact hremoval k.wd hwd hrem

theorem HandleSpec.noticed (h : Noticed filename parse w) (hqueue : w.inotify.queue = e :: rest)
    (hspec : HandleSpec filename parse (w.popped rest) e w') : Noticed filename parse w' := by
  cases hspec.reaction with
  | reloaded f wd _ hfile hwatcher _ hloaded =>
    refine hspec.noticed_of_loaded hqueue h hfile hloaded ?_
    rw [hwatcher]
    exact Option.some_ne_none wd
  | loaded f hevent hfile _ hwatcher hloaded =>
    refine hspec.noticed_of_loaded hqueue h hfile hloaded ?_
    rw [hwatcher, hevent.1]
    exact Option.some_ne_none e.wd
  | reset hevent hwatcher _ _ =>
    refine ⟨hspec.ordered hqueue h, ?_, ?_⟩
    · intro hsome _
      rcases hevent with rfl | hnone
      · obtain ⟨added, hqueue', -⟩ := hspec.queue
        have hcad := h.ordered (hspec.file ▸ hsome)
        rw [hqueue] at hcad
        rw [hqueue']
        exact List.mem_append_left _ (hcad.1 rfl)
      · exact absurd (hspec.file.trans hnone) hsome
    · intro f k _ _ hwd
      rw [hwatcher] at hwd
      cases hwd
  | skipped heq hremoval hevent =>
    subst heq
    exact h.skip hspec hqueue hremoval hevent

end Noticing

theorem Noticed.step (hw : Watching w) (h : Noticed filename parse w)
    (hs : Announced filename w s) : Noticed filename parse (w.step filename parse s) := by
  rcases hw.step_cases filename parse s with ⟨added, -, hspec⟩ | ⟨-, -, heq⟩ |
    ⟨e, rest, -, hqueue, hspec⟩
  · exact hspec.noticed h hs
  · rw [heq]
    exact h
  · exact hspec.noticed h hqueue

theorem noticed_watchFile (initial : Option C) :
    Noticed filename parse (watchFile parse initial) := by
  cases initial with
  | none =>
    rw [watchFile_none]
    refine ⟨fun hsome => absurd rfl hsome, fun hsome => absurd rfl hsome, ?_⟩
    intro f k hfile
    cases hfile
  | some content =>
    rw [watchFile_some filename parse content]
    have hmem : created filename ∈
        (base (some content) [created filename] : ConfigLoader C Cfg).inotify.queue :=
      List.mem_singleton.mpr rfl
    have hbase : Noticed filename parse (base (some content) [created filename]) :=
      ⟨fun _ => createdAfterDelete_append_created filename [], fun _ _ => hmem,
        fun _ _ _ _ _ => Or.inr ⟨_, hmem, Or.inl rfl⟩⟩
    exact hbase.step filename parse (watching_base_created filename content) (s := .handle) trivial

/-- The configuration is the last one loaded, unless the thread has still to come to the removal
of the file before this one. -/
structure Remembered (w : ConfigLoader C Cfg) : Prop where
  absent : w.file = none → w.lastLoaded = none
  present : w.file ≠ none → w.runtimeConfig = w.lastLoaded ∨
    (deleted filename ∈ w.inotify.queue ∧ w.lastLoaded = none)

/-- A file appears only when the configuration of the one before it is reset or its deletion is
queued, and the thread comes to the deletion before it has loaded the new file. -/
def ResetInTime (w : ConfigLoader C Cfg) : FileStep C → Prop
  | .create _ | .renameIntoPlace _ =>
    w.file = none → w.runtimeConfig = none ∨ deleted filename ∈ w.inotify.queue
  | .handle => w.file ≠ none → w.inotify.queue.head? = some (deleted filename) →
    w.lastLoaded = none
  | _ => True

instance ResetInTime.decidable (w : ConfigLoader C Cfg) :
    (s : FileStep C) → Decidable (ResetInTime filename w s)
  | .create _ | .renameIntoPlace _ => inferInstanceAs (Decidable (_ → _ ∨ _))
  | .handle => inferInstanceAs (Decidable (_ → _ → _))
  | .write _ | .delete _ | .renameAway | .sibling _ _ => isTrue trivial

theorem FileStepSpec.remembered (hspec : FileStepSpec filename w s w' added)
    (h : Remembered filename w) (hs : ResetInTime filename w s) : Remembered filename w' := by
  have hqueue := hspec.emits.queue
  have hconfig := hspec.config
  -- a file that was there has its configuration kept
  have hkept (hlast : w'.lastLoaded = w.lastLoaded) (hfile : w.file ≠ none) :
      w'.runtimeConfig = w'.lastLoaded ∨
        (deleted filename ∈ w'.inotify.queue ∧ w'.lastLoaded = none) := by
    rw [hconfig, hlast, hqueue]
    rcases h.present hfile with heq | ⟨hmem, hnone⟩
    · exact Or.inl heq
    · exact Or.inr ⟨List.mem_append_left _ hmem, hnone⟩
  have hnew (hlast : w'.lastLoaded = w.lastLoaded) (hfile : w.file = none)
      (hreset : w.runtimeConfig = none ∨ deleted filename ∈ w.inotify.queue) :
      w'.runtimeConfig = w'.lastLoaded ∨
        (deleted filename ∈ w'.inotify.queue ∧ w'.lastLoaded = none) := by
    rw [hconfig, hlast, h.absent hfile, hqueue]
    rcases hreset with hnone | hmem
    · exact Or.inl hnone
    · exact Or.inr ⟨List.mem_append_left _ hmem, rfl⟩
  cases hspec.change with
  | created content hstep hfile hfile' _ hlast =>
    subst hstep
    refine ⟨?_, fun _ => hnew hlast hfile (hs hfile)⟩
    intro hnone
    rw [hfile'] at hnone
    cases hnone
  | kept hinode _ _ hlast _ =>
    have hiff : w'.file = none ↔ w.file = none := by
      rw [← Option.map_eq_none_iff, hinode, Option.map_eq_none_iff]
    refine ⟨?_, ?_⟩
    · intro hnone
      rw [hlast]
      exact h.absent (hiff.mp hnone)
    · intro hsome
      exact hkept hlast (fun hnone => hsome (hiff.mpr hnone))
  | gone hfile' hlast _ => exact ⟨fun _ => hlast, fun hsome => absurd hfile' hsome⟩
  | placed source f hstep hfile' _ hlast _ _ =>
    subst hstep
    refine ⟨?_, ?_⟩
    · intro hnone
      rw [hfile'] at hnone
      cases hnone
    · intro _
      by_cases hfile : w.file = none
      · exact hnew hlast hfile (hs hfile)
      · exact hkept hlast hfile

theorem HandleSpec.remembered {rest : List InotifyEvent} (h : Remembered filename w)
    (hqueue : w.inotify.queue = e :: rest) (hs : ResetInTime filename w .handle)
    (hspec : HandleSpec filename parse (w.popped rest) e w') : Remembered filename w' := by
  have hfile' : w'.file = w.file := hspec.file
  have hrest (hne : e ≠ deleted filename) (hmem : deleted filename ∈ w.inotify.queue) :
      deleted filename ∈ w'.inotify.queue := hspec.mem_queue hqueue hmem hne.symm
  have hload {f : ConfigFile C} (hfile : w.file = some f) (hne : e ≠ deleted filename)
      (hloaded : Loaded parse (w.popped rest) w' f) : Remembered filename w' := by
    refine ⟨?_, ?_⟩
    · intro hnone
      rw [hfile', hfile] at hnone
      cases hnone
    · intro hsome
      rcases hloaded with ⟨-, hconfig, hlast⟩ | ⟨c, -, hconfig, hlast⟩
      · rw [hconfig, hlast]
        rcases h.present (hfile' ▸ hsome) with heq | ⟨hmem, hnone⟩
        · exact Or.inl heq
        · exact Or.inr ⟨hrest hne hmem, hnone⟩
      · exact Or.inl (hconfig.trans hlast.symm)
  cases hspec.reaction with
  | reloaded f wd hevent hfile _ _ hloaded => exact hload hfile hevent hloaded
  | loaded f hevent hfile _ _ hloaded =>
    refine hload hfile ?_ hloaded
    rintro rfl
    cases hevent.2
  | reset hevent _ hconfig hlast =>
    refine ⟨?_, ?_⟩
    · intro hnone
      exact hlast.trans (h.absent (hfile'.symm.trans hnone))
    · intro hsome
      rcases hevent with rfl | hnone
      · have hlast' : w.lastLoaded = none := by
          apply hs (hfile' ▸ hsome)
          rw [hqueue]
          rfl
        exact Or.inl (hconfig.trans (hlast.trans hlast').symm)
      · exact absurd (hfile'.trans hnone) hsome
  | skipped heq _ hevent =>
    subst heq
    refine ⟨h.absent, ?_⟩
    intro hsome
    rcases h.present hsome with heq | ⟨hmem, hnone⟩
    · exact Or.inl heq
    · exact Or.inr ⟨hrest (hevent hsome).2.1 hmem, hnone⟩

theorem Remembered.step (hw : Watching w) (h : Remembered filename w)
    (hs : ResetInTime filename w s) : Remembered filename (w.step filename parse s) := by
  rcases hw.step_cases filename parse s with ⟨added, -, hspec⟩ | ⟨-, -, heq⟩ |
    ⟨e, rest, rfl, hqueue, hspec⟩
  · exact hspec.remembered filename h hs
  · rw [heq]
    exact h
  · exact hspec.remembered filename parse h hqueue hs

theorem remembered_watchFile (initial : Option C) :
    Remembered filename (watchFile parse initial) := by
  cases initial with
  | none =>
    rw [watchFile_none]
    exact ⟨fun _ => rfl, fun _ => Or.inl rfl⟩
  | some content =>
    rw [watchFile_some filename parse content]
    have hbase : Remembered filename
        (base (some content) [created filename] : ConfigLoader C Cfg) :=
      ⟨fun _ => rfl, fun _ => Or.inl rfl⟩
    refine hbase.step filename parse (watching_base_created filename content) (s := .handle) ?_
    intro _ _
    rfl

/-- The configuration is that of the content, or the last one loaded while the file was there if
the content does not parse, and there is none without a file. -/
def FollowsFile (w : ConfigLoader C Cfg) : Prop :=
  match w.file with
  | none => w.runtimeConfig = none
  | some f =>
    match parse f.content with
    | some config => w.runtimeConfig = some config
    | none => w.runtimeConfig = w.lastLoaded

/-- With no event left, an absent file has no watcher and so no configuration. -/
theorem Watching.reset_of_absent (h : Watching w) (hqueue : w.inotify.queue = [])
    (hfile : w.file = none) : w.fileWatcher = none ∧ w.runtimeConfig = none := by
  have hnone : w.fileWatcher = none := by
    cases hfw : w.fileWatcher with
    | none => rfl
    | some wd =>
      rcases h.watched wd hfw with ⟨f, k, hsome, -⟩ | ⟨e, he, -⟩
      · rw [hfile] at hsome
        cases hsome
      · rw [hqueue] at he
        cases he
  exact ⟨hnone, h.reset hnone⟩

theorem Noticed.config (hw : Watching w) (h : Noticed filename parse w)
    (hqueue : w.inotify.queue = []) {f : ConfigFile C} (hfile : w.file = some f) {config : Cfg}
    (hparse : parse f.content = some config) : w.runtimeConfig = some config := by
  have hsome : w.file ≠ none := by
    rw [hfile]
    exact Option.some_ne_none f
  cases hfw : w.fileWatcher with
  | none =>
    have hmem := h.watcher hsome hfw
    rw [hqueue] at hmem
    cases hmem
  | some wd =>
    rcases hw.watched wd hfw with ⟨f', k, hf', hk, rfl⟩ | ⟨e, he, -⟩
    · rcases h.agrees f' k hf' hk hfw with hagrees | ⟨e, he, -⟩
      · obtain rfl : f = f' := Option.some.inj (hfile.symm.trans hf')
        exact hagrees config hparse
      · rw [hqueue] at he
        cases he
    · rw [hqueue] at he
      cases he

theorem Remembered.config (h : Remembered filename w) (hqueue : w.inotify.queue = [])
    (hfile : w.file ≠ none) : w.runtimeConfig = w.lastLoaded := by
  rcases h.present hfile with heq | ⟨hmem, -⟩
  · exact heq
  · rw [hqueue] at hmem
    cases hmem

/-- Without any condition, the configuration of an absent file is reset. -/
theorem config_reset_of_absent (initial : Option C) (steps : List (FileStep C)) :
    Always (step filename parse)
      (fun _ w => w.inotify.queue = [] → w.file = none → w.runtimeConfig = none)
      (watchFile parse initial) steps := by
  intro l hl hqueue hfile
  exact ((always_watching filename parse initial steps l hl).reset_of_absent hqueue hfile).2

/-- If a file renamed to an absent path is announced by another event, a content that parses is
the configuration. -/
theorem config_of_announced (initial : Option C) {steps : List (FileStep C)}
    (h : EveryStep (step filename parse) (Announced filename) (watchFile parse initial) steps) :
    Always (step filename parse) (fun _ w => w.inotify.queue = [] →
        ∀ f config, w.file = some f → parse f.content = some config →
          w.runtimeConfig = some config)
      (watchFile parse initial) steps := by
  have hinv : Always (step filename parse) (fun _ w => Watching w ∧ Noticed filename parse w)
      (watchFile parse initial) steps := by
    refine always_of_everyStep ⟨watching_watchFile parse initial,
      noticed_watchFile filename parse initial⟩ ?_ h
    rintro l s ⟨hw, hn⟩ hs
    exact ⟨hw.step filename parse s, hn.step filename parse hw hs⟩
  intro l hl hqueue f config hfile hparse
  obtain ⟨hw, hn⟩ := hinv l hl
  exact hn.config filename parse hw hqueue hfile hparse

/-- If the configuration of a removed file is reset in time, that of a file that is there is the
last one loaded. -/
theorem config_of_resetInTime (initial : Option C) {steps : List (FileStep C)}
    (h : EveryStep (step filename parse) (ResetInTime filename) (watchFile parse initial) steps) :
    Always (step filename parse) (fun _ w => w.inotify.queue = [] → w.file ≠ none →
        w.runtimeConfig = w.lastLoaded)
      (watchFile parse initial) steps := by
  have hinv : Always (step filename parse) (fun _ w => Watching w ∧ Remembered filename w)
      (watchFile parse initial) steps := by
    refine always_of_everyStep ⟨watching_watchFile parse initial,
      remembered_watchFile filename parse initial⟩ ?_ h
    rintro l s ⟨hw, hr⟩ hs
    exact ⟨hw.step filename parse s, hr.step filename parse hw hs⟩
  intro l hl hqueue hfile
  exact (hinv l hl).2.config filename hqueue hfile

/-- In every run in which a file renamed to an absent path is announced by another event, and
the configuration of a removed file is reset in time, the configuration follows the file
whenever every event is handled. -/
theorem config_follows_file (initial : Option C) (steps : List (FileStep C))
    (h : EveryStep (step filename parse)
      (fun w s => Announced filename w s ∧ ResetInTime filename w s)
      (watchFile parse initial) steps) :
    Always (step filename parse) (fun _ w => w.inotify.queue = [] → FollowsFile parse w)
      (watchFile parse initial) steps := by
  have hparsed := config_of_announced filename parse initial fun l s hl => (h l s hl).1
  have hremembered := config_of_resetInTime filename parse initial fun l s hl => (h l s hl).2
  have habsent := config_reset_of_absent filename parse initial steps
  intro l hl hqueue
  unfold FollowsFile
  split
  · rename_i hfile
    exact habsent l hl hqueue hfile
  · rename_i f hfile
    split
    · rename_i config hparse
      exact hparsed l hl hqueue f config hfile hparse
    · apply hremembered l hl hqueue
      rw [hfile]
      exact Option.some_ne_none f

def parseEven (n : ℕ) : Option ℕ := if n % 2 = 0 then some n else none

/-- A file is created, overwritten with a content that does not parse, replaced by a rename and
renamed away, and the thread keeps up. -/
def deployment : List (FileStep ℕ) :=
  [.create 2, .handle, .write 3, .handle, .renameIntoPlace (.outside 4), .handle, .handle,
    .renameAway, .handle, .handle]

/-- The configuration is 2, still 2 beside the content 3, then 4, and in the end reset. -/
theorem config_follows_file_deployment :
    Always (step "config.yaml" parseEven)
      (fun _ w => w.inotify.queue = [] → FollowsFile parseEven w)
      (watchFile parseEven none) deployment :=
  config_follows_file "config.yaml" parseEven none deployment (by decide)

/-- Where every event is handled, a file renamed to the absent path goes unnoticed: it has no
event, and its configuration is not loaded. -/
theorem renameIntoPlace_unnoticed (h : Watching w) (hqueue : w.inotify.queue = [])
    (hfile : w.file = none) {content : C} {config : Cfg} (hparse : parse content = some config) :
    (w.step filename parse (.renameIntoPlace (.outside content))).inotify.queue = [] ∧
      ¬ FollowsFile parse (w.step filename parse (.renameIntoPlace (.outside content))) := by
  have hconfig := (h.reset_of_absent hqueue hfile).2
  have hdirectory : w.inotify.delivered .directory .movedTo filename = [] :=
    h.tidy.delivered_directory .movedTo filename
  have hself : w.inotify.delivered (.inode w.nextInode) .moveSelf "" = [] := by
    have hfresh : w.inotify.watches.find? (.inode w.nextInode) = none := by
      cases hk : w.inotify.watches.find? (.inode w.nextInode) with
      | none => rfl
      | some k => exact absurd (h.tidy.inodes _ k hk).1 (lt_irrefl _)
    unfold delivered
    rw [hfresh]
  have hplaced : w.step filename parse (.renameIntoPlace (.outside content)) =
      { w with
        file := some ⟨w.nextInode, content⟩
        nextInode := w.nextInode + 1
        inotify := (w.inotify.notify .directory .movedTo filename).notify (.inode w.nextInode)
          .moveSelf "" } := by
    unfold step renameIntoPlace place
    simp only [hfile]
  rw [hplaced]
  constructor
  · change (w.inotify.queue ++ w.inotify.delivered .directory .movedTo filename) ++
      w.inotify.delivered (.inode w.nextInode) .moveSelf "" = []
    rw [hqueue, hdirectory, hself]
    rfl
  · unfold FollowsFile
    simp [hparse, hconfig]

/-- The file with the content 4 is renamed into place, and the configuration stays unset. -/
theorem renamed_config_not_loaded :
    ¬ Always (step "config.yaml" parseEven)
      (fun _ w => w.inotify.queue = [] → FollowsFile parseEven w)
      (watchFile parseEven none) [.renameIntoPlace (.outside 4)] := by
  intro h
  obtain ⟨hqueue, hnot⟩ := renameIntoPlace_unnoticed "config.yaml" parseEven
    (watching_watchFile parseEven none) rfl rfl (show parseEven 4 = some 4 from rfl)
  exact hnot (h.last hqueue)

end ConfigLoader

end AcsNext.Collector
