import Ostinato.Playback.Deck
import Ostinato.Score.Compile
import Ostinato.Timer.Run

/-!
  Ostinato.Playback.Scheduler: a deck on a timer, with listeners (`Scheduler`, its `play_notes`,
  `stop` and `subscribe`, and `deliver`).

  The timer fires the deck's tasks; every event goes to each listener that has not hung up,
  in the order in which events happen. A listener that has is forgotten at the first event
  that it would have got.
-/

namespace Ostinato.Playback

open Score

inductive Listener where
  | listening (inbox : List Event)
  /-- Nobody reads it any more. -/
  | hungUp
  | forgotten
  deriving DecidableEq, Repr

/-- A deck with its listeners and what was remarked. -/
structure Stage where
  deck : Deck
  listeners : List Listener
  log : List LogLine

namespace Stage

def empty : Stage := ⟨.empty, [], []⟩

def remark (s : Stage) (r : Remark) : Stage := { s with log := s.log ++ [r.line] }

/-- A listener at an event, with what is remarked about it. -/
def hear (e : Event) : Listener → Listener × List LogLine
  | .listening inbox => (.listening (inbox ++ [e]), [])
  | .hungUp => (.forgotten, [Remark.closedListener.line])
  | .forgotten => (.forgotten, [])

def deliver (s : Stage) (e : Event) : Stage :=
  let heard := s.listeners.map (hear e)
  { s with listeners := heard.map (·.1), log := s.log ++ heard.flatMap (·.2) }

def give (s : Stage) : Output → Stage
  | .event e => s.deliver e
  | .remark r => s.remark r

/-- The stage after a step of its deck. -/
def apply (s : Stage) (deck : Deck) (outputs : List Output) : Stage := outputs.foldl give { s with deck }

/-- What the listeners have heard, which they thereby take. -/
def drain (s : Stage) : List Listener × Stage :=
  (s.listeners, { s with listeners := s.listeners.map fun
    | .listening _ => .listening []
    | l => l })

/-- The listeners without the first thing that each of them heard. -/
def dropFirst (s : Stage) : Stage :=
  { s with listeners := s.listeners.map fun
    | .listening inbox => .listening inbox.tail
    | l => l }

end Stage

/-- The number of firings that a task can lead to, itself not counted. -/
def Task.weight : Task → Nat
  | .start .. => 1
  | .stop .. => 0
  | .close _ => 0

def wakeLater (t : Timer Task) : Option (Nat × Task) → Timer Task
  | some (deadline, task) => t.scheduleAt deadline task
  | none => t

def fireTask (e : Timer.Entry Task) (x : Timer Task × Stage) : Timer Task × Stage :=
  let o := x.2.deck.fire x.1.nextId e.task
  (wakeLater x.1 o.wake, x.2.apply o.deck o.outputs)

theorem wake_fire {d d' : Deck} {id deadline : Nat} {task task' : Task} {outputs : List Output}
    (h : d.fire id task = ⟨d', outputs, some (deadline, task')⟩) :
    task.weight = 1 ∧ task'.weight = 0 := by
  unfold Deck.fire at h
  cases task <;> simp only at h <;> split at h
  · cases h
  · cases h; exact ⟨rfl, rfl⟩
  · cases h
  · split at h <;> cases h
  · cases h
  · split at h <;> cases h

theorem load_fireTask_le (e : Timer.Entry Task) (x : Timer Task × Stage) :
    (fireTask e x).1.load Task.weight ≤ x.1.load Task.weight + e.task.weight := by
  unfold fireTask
  rcases h : x.2.deck.fire x.1.nextId e.task with ⟨d, outputs, _ | ⟨deadline, task⟩⟩
  · exact Nat.le_add_right ..
  · obtain ⟨h1, h2⟩ := wake_fire h
    simp only [wakeLater, Timer.load_scheduleAt, h1, h2]
    omega

def firing : Reaction Task Stage where
  weight := Task.weight
  fire := fireTask
  fire_le := load_fireTask_le

/-- A stage with the timer that drives it, which no other uses. -/
structure Scheduler where
  timer : Timer Task
  stage : Stage

namespace Scheduler

def empty : Scheduler := ⟨.start, .empty⟩

def subscribe (s : Scheduler) : Scheduler :=
  { s with stage := { s.stage with listeners := s.stage.listeners ++ [.listening []] } }

/-- Hangs up a listener, if there is one of that index. -/
def unsubscribe (s : Scheduler) (index : Nat) : Scheduler :=
  let hangUp : Listener → Listener
    | .listening _ => .hungUp
    | l => l
  { s with stage := { s.stage with listeners := s.stage.listeners.modify index hangUp } }

/-- Ends the session that plays, and its timers. Says whether there was one. -/
def stop (s : Scheduler) : Scheduler × Bool :=
  match s.stage.deck.cancel with
  | (deck, none) => ({ s with stage := { s.stage with deck } }, false)
  | (deck, some session) =>
    (⟨s.timer.cancelAll session.timers, { s.stage with deck }.remark (.stopped session.number)⟩, true)

/-- Starts to play notes now, in place of what plays. -/
def playNotes (s : Scheduler) (notes : List Note) : Scheduler × Summary :=
  let s := s.stop.1
  let summary := Summary.ofNotes notes
  let origin := s.timer.now
  let tasks := Deck.tasksOf s.stage.deck.generation origin notes summary
  let ids := List.range' s.timer.nextId tasks.length
  let stage := s.stage.remark (.started s.stage.deck.generation summary)
  (⟨tasks.foldl (fun t x => t.scheduleAt x.1 x.2) s.timer,
    { stage with deck := stage.deck.begin origin ids summary }⟩, summary)

def note (s : Scheduler) (lines : List LogLine) : Scheduler :=
  { s with stage := { s.stage with log := s.stage.log ++ lines } }

/-- Starts to play a score; one with a fault leaves what plays as it is. -/
def play (s : Scheduler) (text : Text) : Scheduler × Except Fault Summary :=
  let c : Compilation Float := read text
  let s := s.note (c.remarks.map Score.Remark.line)
  match c.result with
  | .error fault => (s, .error fault)
  | .ok notes =>
    let (s, summary) := s.playNotes notes
    (s, .ok summary)

def ofPair (x : Timer Task × Stage) : Scheduler := ⟨x.1, x.2⟩

def advance? (s : Scheduler) (span : Nat) : Option Scheduler :=
  (Timer.advance? firing span (s.timer, s.stage)).map ofPair

def runUntil (s : Scheduler) (moment : Nat) : Scheduler :=
  ofPair (Timer.runUntil firing moment (s.timer, s.stage))

def runAll (s : Scheduler) : Scheduler := ofPair (Timer.runAll firing (s.timer, s.stage))

def isPlaying (s : Scheduler) : Bool := s.stage.deck.session.isSome

def current? (s : Scheduler) : Option Summary := s.stage.deck.session.map (·.summary)

end Scheduler

end Ostinato.Playback
