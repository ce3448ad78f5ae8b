import AcsNext.Collector.Inotify
import AcsNext.Data.Runs

/-! The loader of the runtime configuration: a thread that watches the configuration file and
its directory, beside a file system in which the file comes and goes. -/
namespace AcsNext.Collector

open AcsNext.Data

/-- What can be watched: the directory, or the inode of a file. -/
inductive ConfigNode
  | directory
  | inode (n : ℕ)
  deriving DecidableEq, Repr

inductive ConfigPath
  | parentPath | file
  deriving DecidableEq, Repr

/-- `LOADER_PARENT_PATH` and `LOADER_CONFIG_FILE`. -/
inductive LoaderTag
  | parentPath | configFile
  deriving DecidableEq, Repr

inductive LoadResult
  | success | parseError | fileNotFound
  deriving DecidableEq, Repr

structure ConfigFile (C : Type*) where
  inode : ℕ
  content : C

/-- The file system with the loader: the file at the configuration path, the files renamed away
from it, and the state of the thread. -/
structure ConfigLoader (C Cfg : Type*) where
  file : Option (ConfigFile C)
  nextInode : ℕ
  movedAway : List (ConfigFile C)
  inotify : Inotify ConfigNode ConfigPath LoaderTag
  runtimeConfig : Option Cfg
  running : Bool
  -- ghost: the last configuration loaded since the file last was absent
  lastLoaded : Option Cfg

/-- Where a file that is renamed into place comes from. -/
inductive RenameSource (C : Type*)
  | outside (content : C)
  | movedAway (k : ℕ)

/-- A step of the world: something happens to the file or to another entry of the directory,
or the thread handles one event. The last link to a file may be reported before or after its
name. -/
inductive FileStep (C : Type*)
  | create (content : C)
  | write (content : C)
  | delete (selfFirst : Bool)
  | renameIntoPlace (source : RenameSource C)
  | renameAway
  | sibling (name : String) (created : Bool)
  | handle

namespace ConfigLoader

variable {C Cfg : Type*}

def resolve (w : ConfigLoader C Cfg) : ConfigPath → Option ConfigNode
  | .parentPath => some .directory
  | .file => w.file.map fun f => .inode f.inode

def addFileWatcher (w : ConfigLoader C Cfg) : ConfigLoader C Cfg :=
  { w with inotify := (w.inotify.addFileWatcher (w.resolve .file) .file .configFile).1 }

def removeWatcher (w : ConfigLoader C Cfg) (it : Option (Watcher ConfigPath LoaderTag)) :
    ConfigLoader C Cfg :=
  { w with inotify := w.inotify.removeWatcher it }

def resetRuntimeConfig (w : ConfigLoader C Cfg) : ConfigLoader C Cfg :=
  { w with runtimeConfig := none }

section Loader

variable (filename : String) (parse : C → Option Cfg)

def loadConfiguration (w : ConfigLoader C Cfg) : ConfigLoader C Cfg × LoadResult :=
  match w.file with
  | none => (w, .fileNotFound)
  | some f =>
    match parse f.content with
    | none => (w, .parseError)
    | some config => ({ w with runtimeConfig := some config, lastLoaded := some config }, .success)

def handleConfigDirectoryEvent (w : ConfigLoader C Cfg) (event : InotifyEvent) :
    ConfigLoader C Cfg × Bool :=
  if event.bit = .moveSelf ∨ event.bit = .deleteSelf then (w, false)
  else if filename ≠ event.name then (w, true)
  else if event.bit = .create ∨ event.bit = .movedTo then
    ((w.addFileWatcher.loadConfiguration parse).1, true)
  else if event.bit = .delete ∨ event.bit = .movedFrom then
    ((w.removeWatcher (w.inotify.findWatcherPath .file)).resetRuntimeConfig, true)
  else (w, true)

def handleConfigFileEvent (w : ConfigLoader C Cfg) (event : InotifyEvent)
    (it : Watcher ConfigPath LoaderTag) : ConfigLoader C Cfg :=
  if event.bit = .modify then (w.loadConfiguration parse).1
  else if event.bit = .moveSelf ∨ event.bit = .deleteSelf then
    if w.file.isSome then (w.addFileWatcher.loadConfiguration parse).1
    else (w.removeWatcher (some it)).resetRuntimeConfig
  else w

def handleEvent (w : ConfigLoader C Cfg) (event : InotifyEvent) : ConfigLoader C Cfg × Bool :=
  match w.inotify.findWatcherWd event.wd with
  | none => (w, true)
  | some it =>
    match it.tag with
    | .parentPath => w.handleConfigDirectoryEvent filename parse event
    | .configFile => (w.handleConfigFileEvent parse event it, true)

/-- One round of the loop of `WatchFile`: the next event is taken and handled. -/
def getNext (w : ConfigLoader C Cfg) : ConfigLoader C Cfg :=
  match w.running, w.inotify.queue with
  | true, event :: rest =>
    let r := { w with inotify := { w.inotify with queue := rest } }.handleEvent filename parse event
    { r.1 with running := r.2 }
  | _, _ => w

/-- `WatchFile` up to its loop, for a file that is there with the content, or absent. -/
def watchFile (initial : Option C) : ConfigLoader C Cfg :=
  let w : ConfigLoader C Cfg :=
    { file := initial.map fun content => ⟨0, content⟩
      nextInode := 1
      movedAway := []
      inotify := (Inotify.empty.addDirectoryWatcher (some .directory) .parentPath .parentPath).1
      runtimeConfig := none
      running := true
      lastLoaded := none }
  if w.file.isSome then (w.addFileWatcher.loadConfiguration parse).1 else w

def create (w : ConfigLoader C Cfg) (content : C) : ConfigLoader C Cfg :=
  match w.file with
  | some _ => w
  | none =>
    { w with
      file := some ⟨w.nextInode, content⟩
      nextInode := w.nextInode + 1
      inotify := w.inotify.notify .directory .create filename }

def write (w : ConfigLoader C Cfg) (content : C) : ConfigLoader C Cfg :=
  match w.file with
  | none => w
  | some f =>
    { w with
      file := some ⟨f.inode, content⟩
      inotify := w.inotify.notify (.inode f.inode) .modify "" }

def delete (w : ConfigLoader C Cfg) (selfFirst : Bool) : ConfigLoader C Cfg :=
  match w.file with
  | none => w
  | some f =>
    { w with
      file := none
      lastLoaded := none
      inotify :=
        if selfFirst then (w.inotify.release (.inode f.inode)).notify .directory .delete filename
        else (w.inotify.notify .directory .delete filename).release (.inode f.inode) }

def renameAway (w : ConfigLoader C Cfg) : ConfigLoader C Cfg :=
  match w.file with
  | none => w
  | some f =>
    { w with
      file := none
      lastLoaded := none
      movedAway := f :: w.movedAway
      inotify := (w.inotify.notify .directory .movedFrom filename).notify (.inode f.inode)
        .moveSelf "" }

/-- The events of renaming the file into place; a file that is replaced loses its last link. -/
def place (w : ConfigLoader C Cfg) (f : ConfigFile C) : ConfigLoader C Cfg :=
  let inotify := (w.inotify.notify .directory .movedTo filename).notify (.inode f.inode)
    .moveSelf ""
  { w with
    file := some f
    inotify :=
      match w.file with
      | none => inotify
      | some old => inotify.release (.inode old.inode) }

def renameIntoPlace (w : ConfigLoader C Cfg) : RenameSource C → ConfigLoader C Cfg
  | .outside content =>
    { w with nextInode := w.nextInode + 1 }.place filename ⟨w.nextInode, content⟩
  | .movedAway k =>
    match w.movedAway[k]? with
    | none => w
    | some f => { w with movedAway := w.movedAway.eraseIdx k }.place filename f

/-- Another entry of the directory comes or goes. -/
def sibling (w : ConfigLoader C Cfg) (name : String) (created : Bool) : ConfigLoader C Cfg :=
  if name = filename then w
  else { w with
    inotify := w.inotify.notify .directory (if created then .create else .delete) name }

def step (w : ConfigLoader C Cfg) : FileStep C → ConfigLoader C Cfg
  | .create content => w.create filename content
  | .write content => w.write content
  | .delete selfFirst => w.delete filename selfFirst
  | .renameIntoPlace source => w.renameIntoPlace filename source
  | .renameAway => w.renameAway filename
  | .sibling name created => w.sibling filename name created
  | .handle => w.getNext filename parse

end Loader

end ConfigLoader

end AcsNext.Collector
