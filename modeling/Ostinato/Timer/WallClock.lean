import Ostinato.Timer.Script

/-!
  Ostinato.Timer.WallClock: a timer with a thread of its own (`ThreadTimer`, and the `run`,
  `handle_command` and `fire_due` of its thread).

  Clients do not touch the queue of tasks: they send commands to the thread, which receives
  them in the order in which they were sent. A round of the thread fires everything that is
  due, as one batch, or else receives one command; so what a batch sends is received after
  it, and cancels nothing that belongs to it. A task whose deadline the clock cannot tell
  gets an id and is dropped.
-/

namespace Ostinato

namespace Timer

inductive Command (α : Type) where
  | enqueue (e : Entry (Script α))
  | cancel (id : Nat)

end Timer

open Timer

structure WallClock (α : Type) where
  /-- The last moment that the clock can tell. -/
  horizon : Nat
  now : Nat
  registered : Nat
  /-- What was sent to the thread and not received, in order. -/
  inbox : List (Timer.Command α)
  queue : List (Entry (Script α))
  fired : List (Firing α)

namespace WallClock

variable {α : Type}

def start (horizon now : Nat) : WallClock α := ⟨horizon, now, 0, [], [], []⟩

/-! ## Clients -/

def send (w : WallClock α) (c : Timer.Command α) : WallClock α := { w with inbox := w.inbox ++ [c] }

def scheduleAt (w : WallClock α) (deadline : Nat) (task : Script α) : WallClock α :=
  let id := w.registered + 1
  let w := { w with registered := id }
  if deadline ≤ w.horizon then w.send (.enqueue ⟨deadline, id, task⟩) else w

def cancel (w : WallClock α) (id : Nat) : WallClock α := w.send (.cancel id)

def perform (w : WallClock α) : Step α → WallClock α
  | .after delay value next => w.scheduleAt (later w.now delay) ⟨value, next⟩
  | .due deadline value next => w.scheduleAt deadline ⟨value, next⟩
  | .cancel index => if index < w.registered then w.cancel (index + 1) else w

def performAll (w : WallClock α) (steps : List (Step α)) : WallClock α := steps.foldl perform w

/-! ## The thread -/

def receive (w : WallClock α) : Timer.Command α → WallClock α
  | .enqueue e => { w with queue := insert e w.queue }
  | .cancel id => { w with queue := w.queue.filter (·.id != id) }

def fire (w : WallClock α) (e : Entry (Script α)) : WallClock α :=
  let firing : Firing α := ⟨e.task.value, w.now⟩
  { w with fired := w.fired ++ [firing] }.performAll e.task.next

def tick (w : WallClock α) (moment : Nat) : WallClock α := { w with now := max w.now moment }

/-- What is due, in the order in which it fires. -/
def due (w : WallClock α) : List (Entry (Script α)) := w.queue.takeWhile (·.deadline ≤ w.now)

def waiting (w : WallClock α) : List (Entry (Script α)) := w.queue.dropWhile (·.deadline ≤ w.now)

def round (w : WallClock α) : WallClock α :=
  match w.due, w.inbox with
  | [], [] => w
  | [], c :: rest => { w with inbox := rest }.receive c
  | e :: batch, _ => (e :: batch).foldl fire { w with queue := w.waiting }

def sleeps (w : WallClock α) : Bool := w.due.isEmpty && w.inbox.isEmpty

/-! ## What is left to do -/

def commandWeight : Timer.Command α → Nat
  | .enqueue e => Script.weight e.task + 2
  | .cancel _ => 1

def inboxWeight : List (Timer.Command α) → Nat
  | [] => 0
  | c :: rest => commandWeight c + inboxWeight rest

theorem inboxWeight_append (p q : List (Timer.Command α)) :
    inboxWeight (p ++ q) = inboxWeight p + inboxWeight q := by
  induction p with
  | nil => simp [inboxWeight]
  | cons c p ih =>
    simp only [List.cons_append, inboxWeight, ih]
    omega

def load (w : WallClock α) : Nat := loadOf Script.weight w.queue + inboxWeight w.inbox

theorem load_send (w : WallClock α) (c : Timer.Command α) : (w.send c).load = w.load + commandWeight c := by
  simp only [load, send, inboxWeight_append, inboxWeight]
  omega

theorem load_scheduleAt_le (w : WallClock α) (deadline : Nat) (task : Script α) :
    (w.scheduleAt deadline task).load ≤ w.load + (task.weight + 2) := by
  simp only [scheduleAt]
  split
  · rw [load_send]
    exact Nat.le_refl _
  · exact Nat.le_add_right ..

theorem load_perform_le (w : WallClock α) (s : Step α) : (w.perform s).load ≤ w.load + s.weight := by
  cases s with
  | after delay value next =>
    refine Nat.le_trans (load_scheduleAt_le ..) ?_
    simp only [Script.weight, Step.weight]
    omega
  | due deadline value next =>
    refine Nat.le_trans (load_scheduleAt_le ..) ?_
    simp only [Script.weight, Step.weight]
    omega
  | cancel index =>
    simp only [perform]
    split
    · simp [cancel, load_send, commandWeight, Step.weight]
    · exact Nat.le_add_right ..

theorem load_performAll_le (w : WallClock α) (steps : List (Step α)) :
    (w.performAll steps).load ≤ w.load + stepsWeight steps := by
  induction steps generalizing w with
  | nil => exact Nat.le_add_right ..
  | cons s ss ih =>
    have h1 := ih (w.perform s)
    have h2 := load_perform_le w s
    simp only [performAll, List.foldl_cons, stepsWeight] at *
    omega

theorem load_fire_le (w : WallClock α) (e : Entry (Script α)) :
    (w.fire e).load ≤ w.load + e.task.weight :=
  load_performAll_le ..

theorem load_foldl_fire_le (w : WallClock α) (batch : List (Entry (Script α))) :
    (batch.foldl fire w).load + batch.length ≤ w.load + loadOf Script.weight batch := by
  induction batch generalizing w with
  | nil => exact Nat.le_refl _
  | cons e batch ih =>
    have h1 := ih (w.fire e)
    have h2 := load_fire_le w e
    simp only [List.foldl_cons, List.length_cons, loadOf] at *
    omega

theorem loadOf_append (weight : Script α → Nat) (p q : List (Entry (Script α))) :
    loadOf weight (p ++ q) = loadOf weight p + loadOf weight q := by
  induction p with
  | nil => simp [loadOf]
  | cons e p ih =>
    simp only [List.cons_append, loadOf, ih]
    omega

theorem load_receive_lt (w : WallClock α) (c : Timer.Command α) :
    (w.receive c).load < w.load + commandWeight c := by
  cases c with
  | enqueue e =>
    simp only [receive, load, loadOf_insert, commandWeight]
    omega
  | cancel id =>
    have h := loadOf_filter_le Script.weight (fun e : Entry (Script α) => e.id != id) w.queue
    simp only [receive, load, commandWeight]
    omega

theorem load_round_lt {w : WallClock α} (h : w.sleeps = false) : w.round.load < w.load := by
  unfold round
  split
  · simp_all [sleeps]
  · rename_i c rest _ hi
    have h1 := load_receive_lt { w with inbox := rest } c
    have h2 : w.load = ({ w with inbox := rest } : WallClock α).load + commandWeight c := by
      simp only [load, hi, inboxWeight]
      omega
    omega
  · rename_i e batch hb
    have h1 := load_foldl_fire_le { w with queue := w.waiting } (e :: batch)
    have h2 := loadOf_append Script.weight w.due w.waiting
    have h3 : w.due ++ w.waiting = w.queue := List.takeWhile_append_dropWhile
    rw [h3, hb] at h2
    simp only [load, List.length_cons] at h1 ⊢
    omega

/-! ## Running -/

/-- Rounds until the thread sleeps. -/
def settle (w : WallClock α) : WallClock α :=
  if _h : w.sleeps then w else w.round.settle
termination_by w.load
decreasing_by exact load_round_lt (by simpa using _h)

/-- Wakes the thread at one deadline after another while `more` says so, at most so often. -/
def wakeWhile (more : WallClock α → Entry (Script α) → Bool) : Nat → WallClock α → WallClock α
  | 0, w => w
  | fuel + 1, w => match w.queue with
    | [] => w
    | e :: _ => if more w e then wakeWhile more fuel (w.tick e.deadline).settle else w

/-- Wakes the thread until so many tasks have fired, or none waits. -/
def runToCount (w : WallClock α) (count : Nat) : WallClock α :=
  wakeWhile (fun w _ => w.fired.length < count) w.load w

/-- Wakes the thread at every deadline up to a moment. -/
def runUntil (w : WallClock α) (moment : Nat) : WallClock α :=
  wakeWhile (fun _ e => e.deadline ≤ moment) w.load w

end WallClock

end Ostinato
