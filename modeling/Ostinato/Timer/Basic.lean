/-!
  Ostinato.Timer.Basic: tasks that wait for their deadlines (`schedule_at` and `cancel` of
  `VirtualTimer`).

  A timer is a clock with a queue of tasks, kept in the order in which they fall due: by
  deadline, and by registration among equal ones. Ids count registrations from one and are
  never handed out twice. Clock readings are nanoseconds and end at `latest`; a deadline
  past it stands at it.
-/

namespace Ostinato

/-- The last clock reading: the longest span of whole seconds in 64 bits, and a nanosecond
    less than one second more. -/
def latest : Nat := 18446744073709551615999999999

def nanosPerMilli : Nat := 1000000

/-- A clock reading some time on. -/
def later (moment span : Nat) : Nat := min (moment + span) latest

namespace Timer

structure Entry (τ : Type) where
  deadline : Nat
  id : Nat
  task : τ
  deriving DecidableEq, Repr

/-- Whether an entry falls due before another. -/
def Entry.before {τ : Type} (a b : Entry τ) : Bool :=
  a.deadline < b.deadline || (a.deadline == b.deadline && a.id < b.id)

/-- Puts an entry into a queue before the first one that it precedes. -/
def insert {τ : Type} (e : Entry τ) : List (Entry τ) → List (Entry τ)
  | [] => [e]
  | x :: xs => if e.before x then e :: x :: xs else x :: insert e xs

theorem insert_perm {τ : Type} (e : Entry τ) (q : List (Entry τ)) : (insert e q).Perm (e :: q) := by
  induction q with
  | nil => exact .refl _
  | cons x xs ih =>
    unfold insert
    split
    · exact .refl _
    · exact (ih.cons x).trans (.swap e x xs)

end Timer

structure Timer (τ : Type) where
  now : Nat
  /-- The number of tasks registered so far; the next one gets the id after it. -/
  registered : Nat
  queue : List (Timer.Entry τ)

namespace Timer

variable {τ : Type}

def start : Timer τ := ⟨0, 0, []⟩

def nextId (t : Timer τ) : Nat := t.registered + 1

/-- Registers a task for a deadline, which may have passed. -/
def scheduleAt (t : Timer τ) (deadline : Nat) (task : τ) : Timer τ :=
  { t with registered := t.registered + 1, queue := insert ⟨deadline, t.nextId, task⟩ t.queue }

def schedule (t : Timer τ) (delay : Nat) (task : τ) : Timer τ :=
  t.scheduleAt (later t.now delay) task

/-- Drops a task that has not fired; an id of no such task changes nothing. -/
def cancel (t : Timer τ) (id : Nat) : Timer τ := { t with queue := t.queue.filter (·.id != id) }

def cancelAll (t : Timer τ) (ids : List Nat) : Timer τ := ids.foldl cancel t

/-- The first task due at a moment, taken off the queue; the clock moves up to its deadline. -/
def takeDue (t : Timer τ) (moment : Nat) : Option (Entry τ × Timer τ) :=
  match t.queue with
  | [] => none
  | e :: rest =>
    if e.deadline ≤ moment then some (e, { t with now := max t.now e.deadline, queue := rest })
    else none

def lastDeadline? (t : Timer τ) : Option Nat :=
  match t.queue with
  | [] => none
  | e :: rest => some (rest.foldl (fun d x => max d x.deadline) e.deadline)

/-! ## Load

  Firing a task may register others. Every task has a weight, which bounds the number of
  firings that it leads to; the load of a timer is the weight of what waits in it. -/

def loadOf (weight : τ → Nat) : List (Entry τ) → Nat
  | [] => 0
  | e :: q => weight e.task + 1 + loadOf weight q

def load (t : Timer τ) (weight : τ → Nat) : Nat := loadOf weight t.queue

theorem loadOf_insert (weight : τ → Nat) (e : Entry τ) (q : List (Entry τ)) :
    loadOf weight (insert e q) = weight e.task + 1 + loadOf weight q := by
  induction q with
  | nil => rfl
  | cons x xs ih =>
    unfold insert
    split
    · rfl
    · simp only [loadOf, ih]
      omega

theorem loadOf_filter_le (weight : τ → Nat) (p : Entry τ → Bool) (q : List (Entry τ)) :
    loadOf weight (q.filter p) ≤ loadOf weight q := by
  induction q with
  | nil => simp [loadOf]
  | cons x xs ih =>
    simp only [List.filter_cons]
    split
    · simp only [loadOf]
      omega
    · simp only [loadOf]
      omega

@[simp] theorem load_scheduleAt (t : Timer τ) (weight : τ → Nat) (deadline : Nat) (task : τ) :
    (t.scheduleAt deadline task).load weight = weight task + 1 + t.load weight := by
  simp [load, scheduleAt, loadOf_insert]

@[simp] theorem load_schedule (t : Timer τ) (weight : τ → Nat) (delay : Nat) (task : τ) :
    (t.schedule delay task).load weight = weight task + 1 + t.load weight := by
  simp [schedule]

theorem load_cancel_le (t : Timer τ) (weight : τ → Nat) (id : Nat) :
    (t.cancel id).load weight ≤ t.load weight := loadOf_filter_le ..

theorem load_takeDue {t u : Timer τ} {moment : Nat} {e : Entry τ} (weight : τ → Nat)
    (h : t.takeDue moment = some (e, u)) : t.load weight = u.load weight + weight e.task + 1 := by
  unfold takeDue at h
  split at h
  · cases h
  · rename_i x rest hq
    split at h
    · cases h
      simp [load, loadOf, hq]
      omega
    · cases h

theorem le_foldl_max (q : List (Entry τ)) (d : Nat) : d ≤ q.foldl (fun d x => max d x.deadline) d := by
  induction q generalizing d with
  | nil => exact Nat.le_refl d
  | cons x xs ih => exact Nat.le_trans (Nat.le_max_left ..) (ih _)

/-- The first task is due at the last deadline. -/
theorem takeDue_lastDeadline {t : Timer τ} {d : Nat} (h : t.lastDeadline? = some d) :
    ∃ e u, t.takeDue d = some (e, u) := by
  unfold lastDeadline? at h
  split at h
  · cases h
  · rename_i e rest hq
    cases h
    exact ⟨e, { t with now := max t.now e.deadline, queue := rest }, by simp [takeDue, hq, le_foldl_max]⟩

end Timer

end Ostinato
