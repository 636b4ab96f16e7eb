import Ostinato.Playback.Scheduler
import Ostinato.Proofs.Playback.Firing
import Ostinato.Proofs.Timer.Queue

/-!
  Ostinato.Proofs.Playback.Operations: what a scheduler's operations do, part by part.

  Stopping and starting change the deck and the timer and leave the listeners alone; a step
  of the deck lets every listener that still listens hear its events, in order
  (`listeners_apply`).
-/

namespace Ostinato.Playback

open Score

/-! ## Listeners -/

def Listener.after (es : List Event) (l : Listener) : Listener := es.foldl (fun l e => (Stage.hear e l).1) l

@[simp] theorem Listener.after_nil (l : Listener) : l.after [] = l := rfl

@[simp] theorem Listener.after_after (l : Listener) (es fs : List Event) : (l.after es).after fs = l.after (es ++ fs) := by
  simp [Listener.after]

/-- One that listens gets all of them, in order. -/
@[simp] theorem Listener.after_listening (inbox es : List Event) :
    (Listener.listening inbox).after es = .listening (inbox ++ es) := by
  induction es generalizing inbox with
  | nil => simp
  | cons e es ih =>
    show (Listener.listening (inbox ++ [e])).after es = _
    rw [ih, List.append_assoc, List.singleton_append]

namespace Stage

@[simp] theorem deck_give (s : Stage) (o : Output) : (s.give o).deck = s.deck := by
  cases o <;> rfl

@[simp] theorem listeners_give (s : Stage) (o : Output) :
    (s.give o).listeners = s.listeners.map (·.after (eventsOf [o])) := by
  cases o with
  | event e => simp [give, deliver, eventsOf, Listener.after]
  | remark r => simp [give, remark, eventsOf]

@[simp] theorem deck_apply (s : Stage) (d : Deck) (outputs : List Output) : (s.apply d outputs).deck = d := by
  have keep : ∀ u : Stage, (outputs.foldl give u).deck = u.deck := by
    induction outputs with
    | nil => intro u; rfl
    | cons o outputs ih => intro u; exact (ih _).trans (deck_give u o)
  exact keep _

/-- A step of the deck reaches every listener. -/
@[simp] theorem listeners_apply (s : Stage) (d : Deck) (outputs : List Output) :
    (s.apply d outputs).listeners = s.listeners.map (·.after (eventsOf outputs)) := by
  have all : ∀ u : Stage, (outputs.foldl give u).listeners = u.listeners.map (·.after (eventsOf outputs)) := by
    induction outputs with
    | nil => intro u; simp [eventsOf]
    | cons o outputs ih =>
      intro u
      rw [List.foldl_cons, ih, listeners_give, List.map_map]
      refine List.map_congr_left fun l _ => ?_
      show (l.after (eventsOf [o])).after (eventsOf outputs) = _
      rw [Listener.after_after]
      exact congrArg l.after (List.filterMap_append (l := [o])).symm
  exact all _

end Stage

namespace Scheduler

/-! ## Stopping -/

@[simp] theorem deck_stop (s : Scheduler) : s.stop.1.stage.deck = ⟨s.stage.deck.generation + 1, none⟩ := by
  unfold stop Deck.cancel
  cases s.stage.deck.session <;> rfl

@[simp] theorem listeners_stop (s : Scheduler) : s.stop.1.stage.listeners = s.stage.listeners := by
  unfold stop
  split <;> rfl

theorem timer_stop (s : Scheduler) :
    s.stop.1.timer = s.timer.cancelAll ((s.stage.deck.session.map (·.timers)).getD []) := by
  unfold stop Deck.cancel
  cases s.stage.deck.session <;> rfl

/-! ## Starting -/

@[simp] theorem deck_playNotes (s : Scheduler) (notes : List Note) :
    (s.playNotes notes).1.stage.deck = Deck.begin ⟨s.stage.deck.generation + 1, none⟩ s.timer.now
      (List.range' s.timer.nextId (notes.length + 1)) (Summary.ofNotes notes) := by
  simp [playNotes, timer_stop, Deck.tasksOf, Stage.remark, Timer.nextId]

@[simp] theorem listeners_playNotes (s : Scheduler) (notes : List Note) :
    (s.playNotes notes).1.stage.listeners = s.stage.listeners := by
  simp [playNotes, Stage.remark]

theorem timer_playNotes (s : Scheduler) (notes : List Note) :
    (s.playNotes notes).1.timer = s.stop.1.timer.scheduleAll
      (Deck.tasksOf (s.stage.deck.generation + 1) s.timer.now notes (Summary.ofNotes notes)) := by
  simp [playNotes, timer_stop, Timer.scheduleAll]

end Scheduler

/-! ## Firing -/

@[simp] theorem fireTask_deck (e : Timer.Entry Task) (x : Timer Task × Stage) :
    (fireTask e x).2.deck = (x.2.deck.fire x.1.nextId e.task).deck := by
  simp [fireTask]

@[simp] theorem fireTask_listeners (e : Timer.Entry Task) (x : Timer Task × Stage) :
    (fireTask e x).2.listeners
      = x.2.listeners.map (·.after (eventsOf (x.2.deck.fire x.1.nextId e.task).outputs)) := by
  simp [fireTask]

@[simp] theorem fireTask_timer (e : Timer.Entry Task) (x : Timer Task × Stage) :
    (fireTask e x).1 = x.1.scheduleAll (x.2.deck.fire x.1.nextId e.task).wake.toList := by
  show wakeLater x.1 (x.2.deck.fire x.1.nextId e.task).wake = _
  cases (x.2.deck.fire x.1.nextId e.task).wake <;> rfl

end Ostinato.Playback
