import AcsNext.Data.AssocMap

/-! The inotify abstraction: the watches of the kernel with their masks, the queue of the
delivered events, and the table of watchers that the collector keeps beside it. An iterator is
given by the watcher it points to: `FindWatcher` returns the first watcher with the path or the
descriptor, so it is also the first that equals that watcher. -/
namespace AcsNext.Collector

open AcsNext.Data

/-- The bits of `sys/inotify.h` that are subscribed to, looked at, or always delivered. -/
inductive InotifyBit
  | modify | movedFrom | movedTo | create | delete | deleteSelf | moveSelf | ignored
  deriving DecidableEq, Repr

/-- An event of one bit; the name is that of the entry of a watched directory. -/
structure InotifyEvent where
  wd : ℕ
  bit : InotifyBit
  name : String
  deriving DecidableEq, Repr

structure Watch where
  wd : ℕ
  mask : List InotifyBit
  deriving DecidableEq, Repr

/-- Links a watch descriptor to the path it was asked for. -/
structure Watcher (P T : Type*) where
  wd : ℕ
  path : P
  tag : T
  deriving DecidableEq, Repr

/-- An inotify instance over nodes `N`, with the watchers of the class over paths `P`. -/
structure Inotify (N P T : Type*) [BEq N] where
  watches : AssocMap N Watch
  nextWd : ℕ
  queue : List InotifyEvent
  watchers : List (Watcher P T)

namespace Inotify

variable {N P T : Type*} [DecidableEq N]

def empty : Inotify N P T := ⟨∅, 1, [], []⟩

/-- The watch of the node, if its mask asks for the bit, makes an event. -/
def delivered (q : Inotify N P T) (node : N) (bit : InotifyBit) (name : String) :
    List InotifyEvent :=
  match q.watches.find? node with
  | none => []
  | some k => if bit ∈ k.mask then [⟨k.wd, bit, name⟩] else []

def notify (q : Inotify N P T) (node : N) (bit : InotifyBit) (name : String) : Inotify N P T :=
  { q with queue := q.queue ++ q.delivered node bit name }

/-- A node that is watched already keeps its descriptor and gets the new mask. -/
def inotifyAddWatch (q : Inotify N P T) (node : Option N) (flags : List InotifyBit) :
    Inotify N P T × Option ℕ :=
  match node with
  | none => (q, none)
  | some node =>
    match q.watches.find? node with
    | some k => ({ q with watches := q.watches.assign node ⟨k.wd, flags⟩ }, some k.wd)
    | none =>
      ({ q with watches := q.watches.assign node ⟨q.nextWd, flags⟩, nextWd := q.nextWd + 1 },
        some q.nextWd)

/-- Removing a watch delivers `IN_IGNORED`, whatever its mask; an unknown descriptor is an
error that changes nothing. -/
def inotifyRmWatch (q : Inotify N P T) (wd : ℕ) : Inotify N P T :=
  if q.watches.entries.any fun e => e.2.wd == wd then
    { q with
      watches := q.watches.filter fun _ k => k.wd != wd
      queue := q.queue ++ [⟨wd, .ignored, ""⟩] }
  else q

/-- The last link to the node is gone, and its watch goes with it. -/
def release (q : Inotify N P T) (node : N) : Inotify N P T :=
  match q.watches.find? node with
  | none => q
  | some k => (q.notify node .deleteSelf "").inotifyRmWatch k.wd

variable {q q' q'' : Inotify N P T} {node : N} {added added' : List InotifyEvent}

/-- The instance has delivered the events, and no watch is new or changed. -/
structure Emits (q q' : Inotify N P T) (added : List InotifyEvent) : Prop where
  queue : q'.queue = q.queue ++ added
  watchers : q'.watchers = q.watchers
  nextWd : q'.nextWd = q.nextWd
  watches : ∀ node k, q'.watches.find? node = some k → q.watches.find? node = some k

theorem Emits.refl (q : Inotify N P T) : Emits q q [] :=
  ⟨(List.append_nil _).symm, rfl, rfl, fun _ _ h => h⟩

theorem Emits.trans (h : Emits q q' added) (h' : Emits q' q'' added') :
    Emits q q'' (added ++ added') := by
  refine ⟨?_, h'.watchers.trans h.watchers, h'.nextWd.trans h.nextWd, ?_⟩
  · rw [h'.queue, h.queue, List.append_assoc]
  · intro node k hk
    exact h.watches node k (h'.watches node k hk)

theorem emits_notify (q : Inotify N P T) (node : N) (bit : InotifyBit) (name : String) :
    Emits q (q.notify node bit name) (q.delivered node bit name) :=
  ⟨rfl, rfl, rfl, fun _ _ h => h⟩

theorem find?_inotifyRmWatch (q : Inotify N P T) (wd : ℕ) (node : N) :
    (q.inotifyRmWatch wd).watches.find? node =
      (q.watches.find? node).filter fun k => k.wd != wd := by
  unfold inotifyRmWatch
  split_ifs with hany
  · exact q.watches.find?_filter _ (fun _ _ _ _ => rfl) node
  · -- no watch has the descriptor
    cases hk : q.watches.find? node with
    | none => rfl
    | some k =>
      obtain ⟨e, he, -, rfl⟩ := (q.watches.find?_eq_some_iff node k).mp hk
      simp only [List.any_eq_true, beq_iff_eq, not_exists, not_and] at hany
      have hne : (e.2.wd != wd) = true := bne_iff_ne.mpr (hany e he)
      simp [Option.filter, hne]

def ignoredEvents (q : Inotify N P T) (wd : ℕ) : List InotifyEvent :=
  if q.watches.entries.any fun e => e.2.wd == wd then [⟨wd, .ignored, ""⟩] else []

theorem bit_of_mem_ignoredEvents {wd : ℕ} {e : InotifyEvent} (he : e ∈ q.ignoredEvents wd) :
    e = ⟨wd, .ignored, ""⟩ := by
  unfold ignoredEvents at he
  split_ifs at he
  · exact List.mem_singleton.mp he
  · cases he

theorem emits_inotifyRmWatch (q : Inotify N P T) (wd : ℕ) :
    Emits q (q.inotifyRmWatch wd) (q.ignoredEvents wd) := by
  refine ⟨?_, ?_, ?_, ?_⟩
  · unfold inotifyRmWatch ignoredEvents
    split_ifs
    · rfl
    · exact (List.append_nil _).symm
  · unfold inotifyRmWatch
    split_ifs <;> rfl
  · unfold inotifyRmWatch
    split_ifs <;> rfl
  · intro node k hk
    rw [find?_inotifyRmWatch] at hk
    exact (Option.filter_eq_some_iff.mp hk).1

variable [DecidableEq P] [DecidableEq T]

def findWatcherPath (q : Inotify N P T) (needle : P) : Option (Watcher P T) :=
  q.watchers.find? fun w => w.path = needle

def findWatcherWd (q : Inotify N P T) (needle : ℕ) : Option (Watcher P T) :=
  q.watchers.find? fun w => w.wd = needle

def addWatcher (q : Inotify N P T) (node : Option N) (p : P) (flags : List InotifyBit) (tag : T) :
    Inotify N P T × Option ℕ :=
  match q.inotifyAddWatch node flags with
  | (q, none) => (q, none)
  | (q, some wd) =>
    match q.findWatcherPath p with
    | none => ({ q with watchers := q.watchers ++ [⟨wd, p, tag⟩] }, some wd)
    | some it =>
      let q := if it.wd ≠ wd then q.inotifyRmWatch it.wd else q
      ({ q with watchers := q.watchers.replace it ⟨wd, it.path, tag⟩ }, some wd)

def fileFlags : List InotifyBit := [.modify, .moveSelf, .deleteSelf]

def directoryFlags : List InotifyBit := [.create, .delete, .moveSelf, .deleteSelf]

def addFileWatcher (q : Inotify N P T) (node : Option N) (p : P) (tag : T) :
    Inotify N P T × Option ℕ :=
  q.addWatcher node p fileFlags tag

def addDirectoryWatcher (q : Inotify N P T) (node : Option N) (p : P) (tag : T) :
    Inotify N P T × Option ℕ :=
  q.addWatcher node p directoryFlags tag

def removeWatcher (q : Inotify N P T) (it : Option (Watcher P T)) : Inotify N P T :=
  match it with
  | none => q
  | some w =>
    let q := q.inotifyRmWatch w.wd
    { q with watchers := q.watchers.erase w }

end Inotify

end AcsNext.Collector
