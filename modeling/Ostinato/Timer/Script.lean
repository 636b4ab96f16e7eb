import Ostinato.Timer.Run

/-!
  Ostinato.Timer.Script: tasks that register and cancel tasks when they fire.

  A script is a finite tree: a step registers a task with the steps that it performs in
  turn, or cancels one of those registered so far. Firing a task notes its value and the
  clock's reading, and performs its steps.
-/

namespace Ostinato.Timer

inductive Step (α : Type) where
  | after (delay : Nat) (value : α) (next : List (Step α))
  | due (deadline : Nat) (value : α) (next : List (Step α))
  /-- Cancels the task that was registered after this many others. -/
  | cancel (index : Nat)

/-- A value to note, and the steps to perform then. -/
structure Script (α : Type) where
  value : α
  next : List (Step α)

variable {α : Type}

mutual

/-- A bound on what is left to do because of a step: to hand over what it asks for, and to fire
    the tasks that it leads to. -/
def Step.weight : Step α → Nat
  | .after _ _ next => 2 + stepsWeight next
  | .due _ _ next => 2 + stepsWeight next
  | .cancel _ => 1

def stepsWeight : List (Step α) → Nat
  | [] => 0
  | s :: ss => s.weight + stepsWeight ss

end

def Script.weight (s : Script α) : Nat := stepsWeight s.next

def Step.perform (t : Timer (Script α)) : Step α → Timer (Script α)
  | .after delay value next => t.schedule delay ⟨value, next⟩
  | .due deadline value next => t.scheduleAt deadline ⟨value, next⟩
  | .cancel index => if index < t.registered then t.cancel (index + 1) else t

def performAll (t : Timer (Script α)) (steps : List (Step α)) : Timer (Script α) :=
  steps.foldl Step.perform t

theorem load_perform_le (t : Timer (Script α)) (s : Step α) :
    (s.perform t).load Script.weight ≤ t.load Script.weight + s.weight := by
  cases s with
  | after delay value next => simp [Step.perform, Script.weight, Step.weight]; omega
  | due deadline value next => simp [Step.perform, Script.weight, Step.weight]; omega
  | cancel index =>
    simp only [Step.perform]
    split
    · exact Nat.le_trans (load_cancel_le ..) (Nat.le_add_right ..)
    · exact Nat.le_add_right ..

theorem load_performAll_le (t : Timer (Script α)) (steps : List (Step α)) :
    (performAll t steps).load Script.weight ≤ t.load Script.weight + stepsWeight steps := by
  induction steps generalizing t with
  | nil => simp [performAll, stepsWeight]
  | cons s ss ih =>
    have h1 := ih (s.perform t)
    have h2 := load_perform_le t s
    simp only [performAll, List.foldl_cons, stepsWeight] at *
    omega

/-- A value noted when its task fired, and what the clock read. -/
structure Firing (α : Type) where
  value : α
  now : Nat

def firing : Reaction (Script α) (List (Firing α)) where
  weight := Script.weight
  fire e x := (performAll x.1 e.task.next, x.2 ++ [⟨e.task.value, x.1.now⟩])
  fire_le e x := load_performAll_le x.1 e.task.next

end Ostinato.Timer
