import Ostinato.Playback.Event
import Ostinato.Timer.Basic
import Ostinato.Log

/-!
  Ostinato.Playback.Deck: the one session that plays at a time (`PlayState` and `Session`; the
  tasks are the scheduler's `note_on`, `note_off` and `end`).

  Starting a session registers a task for the start of every note and one for its end; the
  task that starts a note registers the one that stops it. Every task names its session, and
  once another has started, or the session was stopped, its tasks do nothing. The session is
  over when its end has come, every note has started, and none sounds.

  Nothing here asks in which order tasks fire.
-/

namespace Ostinato.Playback

open Score

/-- What a playback puts on the timeline; its length is in milliseconds. -/
structure Summary where
  notes : Nat
  tracks : Nat
  length : Nat
  deriving DecidableEq, Repr

def Summary.ofNotes (notes : List Note) : Summary :=
  ⟨notes.length, (notes.map (·.track)).eraseDups.length, endOf notes⟩

inductive Task where
  | start (session : Nat) (note : Note)
  | stop (session : Nat) (note : Note)
  | close (session : Nat)
  deriving DecidableEq, Repr

def Task.session : Task → Nat
  | start s _ => s
  | stop s _ => s
  | close s => s

/-- A session in progress: when it began, the timers it registered, how many notes sound and
    how many have not started, and whether its end has come. -/
structure Session where
  number : Nat
  origin : Nat
  timers : List Nat
  sounding : Nat
  unplayed : Nat
  endDue : Bool
  summary : Summary
  deriving DecidableEq, Repr

structure Deck where
  /-- Grows with every start and stop, so that no two sessions share a number. -/
  generation : Nat
  session : Option Session
  deriving DecidableEq, Repr

inductive Remark where
  | started (session : Nat) (summary : Summary)
  | stopped (session : Nat)
  | finished (session : Nat) (length : Nat)
  | closedListener
  deriving DecidableEq, Repr

def Remark.line : Remark → LogLine
  | started n s => ⟨.debug, "session " ++ toString n ++ ": " ++ toString s.notes ++ " notes on "
      ++ toString s.tracks ++ " tracks, " ++ toString s.length ++ " ms"⟩
  | stopped n => ⟨.debug, "session " ++ toString n ++ " stopped"⟩
  | finished n ms => ⟨.debug, "session " ++ toString n ++ " finished after " ++ toString ms ++ " ms"⟩
  | closedListener => ⟨.trace, "dropping closed listener"⟩

inductive Output where
  | event (e : Event)
  | remark (r : Remark)
  deriving DecidableEq, Repr

/-- A deck after a step, with what it gave out and the task it wants registered, if any. -/
structure Outcome where
  deck : Deck
  outputs : List Output
  wake : Option (Nat × Task)

/-- The clock reading of a time of the score. -/
def timeOf (origin millis : Nat) : Nat := later origin (millis * nanosPerMilli)

namespace Deck

def empty : Deck := ⟨0, none⟩

/-- The session of a number, while it is the one that plays. -/
def live? (d : Deck) (number : Nat) : Option Session := d.session.filter (·.number == number)

def finish (d : Deck) (s : Session) : Deck × List Output :=
  ({ d with session := none }, [.remark (.finished s.number s.summary.length), .event .finished])

/-- A task firing, `id` being the one that a task registered on the way gets. -/
def fire (d : Deck) (id : Nat) (task : Task) : Outcome :=
  match d.live? task.session with
  | none => ⟨d, [], none⟩
  | some s => match task with
    | .start n note =>
      let s := { s with unplayed := s.unplayed - 1, sounding := s.sounding + 1, timers := s.timers ++ [id] }
      ⟨{ d with session := some s }, [.event (.noteOn note)],
        some (timeOf s.origin note.stop, .stop n note)⟩
    | .stop _ note =>
      let s := { s with sounding := s.sounding - 1 }
      if s.endDue && s.sounding == 0 && s.unplayed == 0 then
        let (d, outputs) := d.finish s
        ⟨d, .event (.noteOff note) :: outputs, none⟩
      else ⟨{ d with session := some s }, [.event (.noteOff note)], none⟩
    | .close _ =>
      let s := { s with endDue := true }
      if s.sounding == 0 && s.unplayed == 0 then
        let (d, outputs) := d.finish s
        ⟨d, outputs, none⟩
      else ⟨{ d with session := some s }, [], none⟩

/-- Ends what plays, without an event. The second component is its session. -/
def cancel (d : Deck) : Deck × Option Session := (⟨d.generation + 1, none⟩, d.session)

/-- The tasks of a session's notes and of its end, with their deadlines. -/
def tasksOf (number origin : Nat) (notes : List Note) (summary : Summary) : List (Nat × Task) :=
  notes.map (fun n => (timeOf origin n.start, Task.start number n))
    ++ [(timeOf origin summary.length, .close number)]

/-- Puts a session on a deck whose last one was cancelled; `ids` are those of its tasks. -/
def begin (d : Deck) (origin : Nat) (ids : List Nat) (summary : Summary) : Deck :=
  { d with session := some ⟨d.generation, origin, ids, 0, summary.notes, false, summary⟩ }

end Deck

end Ostinato.Playback
