import Ostinato.Files.Tree
import Ostinato.Text.Quoted

/-!
  Ostinato.Files.Watcher: which files are to be loaded again after a change (`FileWatcher`, its
  `watch`, `unwatch` and `files_to_reload`).

  Files are watched at the places that their paths lead to, and their directories are watched
  rather than they themselves, so that a file which is replaced stays watched. A change of a
  watched file reloads it, unless it was reloaded less than `debounce` ago.
-/

namespace Ostinato.Files

/-- What a notice from the file system says of its paths. -/
inductive Change where
  | modify | create | remove | access | other
  deriving DecidableEq, Repr

/-- Whether a file is to be read again after a change. -/
def Change.matters : Change → Bool
  | modify => true
  | create => true
  | _ => false

inductive WatchFault where
  | io (cause : Fault)
  | notWatched (directory : Place)
  deriving DecidableEq, Repr

def WatchFault.message : WatchFault → String
  | io cause => cause.message
  | notWatched d => "No watch was found. about [" ++ String.ofList (Text.quote (display d).toList) ++ "]"

structure Watcher where
  files : List Place
  directories : List Place
  /-- When each file was last reloaded; a file that is given up is forgotten. -/
  reloads : List (Place × Nat)
  deriving DecidableEq, Repr

namespace Watcher

/-- Changes of one file in this time count as one: 150 milliseconds, in nanoseconds. -/
def debounce : Nat := 150000000

def empty : Watcher := ⟨[], [], []⟩

/-- The directory that is watched for a file; for the root it is the root. -/
def directoryOf (file : Place) : Place := (parent? file).getD []

def insert (w : Watcher) (file : Place) : Watcher :=
  { w with files := w.files.insert file, directories := w.directories.insert (directoryOf file) }

/-- Watches the file that a path leads to, and says where that is. -/
def watch (w : Watcher) (t : Tree) (path : String) : Except WatchFault (Watcher × Place) :=
  match t.resolve path with
  | .error cause => .error (.io cause)
  | .ok file => .ok (w.insert file, file)

/-- Gives up the file at a place, and its directory with the last file in it. -/
def erase (w : Watcher) (file : Place) : Watcher × Option WatchFault :=
  let directory := directoryOf file
  let w := { w with files := w.files.filter (· != file), reloads := w.reloads.filter (·.1 != file) }
  if w.files.any (parent? · == some directory) then (w, none)
  else if w.directories.contains directory then
    ({ w with directories := w.directories.filter (· != directory) }, none)
  else (w, some (.notWatched directory))

/-- Gives up the file that a path leads to. -/
def unwatch (w : Watcher) (t : Tree) (path : String) : Watcher × Option WatchFault :=
  match t.resolve path with
  | .error cause => (w, some (.io cause))
  | .ok file => w.erase file

/-- The place of a path in a notice; one that leads nowhere stands for itself. -/
def placeOf (t : Tree) (path : String) : Place :=
  match t.resolve path with
  | .ok p => p
  | .error _ => t.written path

/-- How a path in a notice is passed on: by the place it leads to, or else as it is written. -/
def textOf (t : Tree) (path : String) : String :=
  match t.resolve path with
  | .ok p => display p
  | .error _ => path

def isRecent (w : Watcher) (file : Place) (now : Nat) : Bool :=
  match w.reloads.find? (·.1 == file) with
  | some (_, last) => now - last < debounce
  | none => false

def reload (w : Watcher) (file : Place) (now : Nat) : Watcher :=
  { w with reloads := (file, now) :: w.reloads.filter (·.1 != file) }

/-- The files to reload among some that changed at a moment, each once. -/
def due (now : Nat) (w : Watcher) : List Place → Watcher × List Place
  | [] => (w, [])
  | file :: rest =>
    if w.files.contains file && !w.isRecent file now then
      let (w, more) := due now (w.reload file now) rest
      (w, file :: more)
    else due now w rest

/-- The files to reload after a notice. -/
def notice (w : Watcher) (change : Change) (changed : List Place) (now : Nat) : Watcher × List Place :=
  if change.matters then due now w changed else (w, [])

end Watcher

end Ostinato.Files
