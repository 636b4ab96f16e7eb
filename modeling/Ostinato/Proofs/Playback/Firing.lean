import Ostinato.Playback.Deck

/-!
  Ostinato.Proofs.Playback.Firing: what firing a task does to a deck.

  `Deck.fire_live` and `Deck.fire_dead` say all that a firing does; what follows cites them
  and does not open `Deck.fire`. A session's counters count its own tasks among those that
  wait (`Tally`): the notes that have not started are those whose start waits, the sounding
  ones those whose stop waits, and the end has come once its task waits no more. Firing keeps
  the count (`Tally.after`), so no counter is taken below zero (`Tally.unplayed_pos`,
  `Tally.sounding_pos`), and a session is over exactly when none of its tasks waits
  (`Tally.isOver_iff`).
-/

namespace Ostinato.Playback

open Score

def eventsOf (outputs : List Output) : List Event := outputs.filterMap fun
  | .event e => some e
  | .remark _ => none

namespace Task

inductive Kind where
  | start
  | stop
  | close
  deriving DecidableEq, Repr

def kind : Task → Kind
  | start .. => .start
  | stop .. => .stop
  | close _ => .close

def isOf (k : Kind) (number : Nat) (t : Task) : Bool := t.kind == k && t.session == number

@[simp] theorem isOf_iff {k : Kind} {number : Nat} {t : Task} :
    t.isOf k number = true ↔ t.kind = k ∧ t.session = number := by
  simp [isOf]

/-- What a task delivers by itself. -/
def event? : Task → Option Event
  | start _ n => some (.noteOn n)
  | stop _ n => some (.noteOff n)
  | close _ => none

/-- The task that a task registers, with its deadline. -/
def wake? (origin : Nat) : Task → Option (Nat × Task)
  | start s n => some (timeOf origin n.stop, .stop s n)
  | stop .. => none
  | close _ => none

theorem wake?_eq_some {origin : Nat} {t : Task} {x : Nat × Task} : t.wake? origin = some x ↔
    ∃ k n, t = start k n ∧ x = (timeOf origin n.stop, stop k n) := by
  cases t with
  | start k n =>
    constructor
    · intro h
      cases h
      exact ⟨k, n, rfl, rfl⟩
    · rintro ⟨_, _, h, rfl⟩
      cases h
      rfl
  | stop k n => simp [wake?]
  | close k => simp [wake?]

theorem session_of_wake? {origin deadline : Nat} {t t' : Task} (h : t.wake? origin = some (deadline, t')) :
    t'.session = t.session := by
  obtain ⟨k, n, rfl, hx⟩ := wake?_eq_some.mp h
  cases hx
  rfl

end Task

namespace Session

/-- A session once one of its tasks has fired; `id` is that of the task registered on the way. -/
def after (s : Session) (id : Nat) : Task → Session
  | .start .. => { s with unplayed := s.unplayed - 1, sounding := s.sounding + 1, timers := s.timers ++ [id] }
  | .stop .. => { s with sounding := s.sounding - 1 }
  | .close _ => { s with endDue := true }

def isOver (s : Session) : Bool := s.endDue && s.sounding == 0 && s.unplayed == 0

@[simp] theorem after_number (s : Session) (id : Nat) (t : Task) : (s.after id t).number = s.number := by
  cases t <;> rfl

@[simp] theorem after_origin (s : Session) (id : Nat) (t : Task) : (s.after id t).origin = s.origin := by
  cases t <;> rfl

/-- A session keeps its timers, and the stop of a note that starts is one of them. -/
theorem mem_timers_after {s : Session} {id x : Nat} {t : Task} (h : x ∈ s.timers ∨ x = id ∧ t.kind = .start) :
    x ∈ (s.after id t).timers := by
  cases t with
  | start k n =>
    rcases h with h | ⟨rfl, -⟩
    · exact List.mem_append_left _ h
    · exact List.mem_append_right _ (List.mem_singleton_self _)
  | stop k n => simpa [after, Task.kind] using h
  | close k => simpa [after, Task.kind] using h

/-- What a firing leaves of a session is cleared as soon as it is over. -/
theorem goesOn {s s' : Session} (h : (if s.isOver then none else some s) = some s') : s' = s ∧ s'.isOver = false := by
  by_cases hover : s.isOver = true
  · rw [if_pos hover] at h
    cases h
  · rw [if_neg hover] at h
    cases h
    exact ⟨rfl, Bool.eq_false_iff.mpr hover⟩

end Session

namespace Deck

theorem tasks_tasksOf (number origin : Nat) (notes : List Note) (summary : Summary) :
    (tasksOf number origin notes summary).map (·.2) = notes.map (Task.start number) ++ [.close number] := by
  simp [tasksOf]

theorem live?_eq_some {d : Deck} {number : Nat} {s : Session} :
    d.live? number = some s ↔ d.session = some s ∧ s.number = number := by
  simp [live?, Option.filter_eq_some_iff]

theorem live?_eq_none {d : Deck} {number : Nat} :
    d.live? number = none ↔ ∀ s, d.session = some s → s.number ≠ number := by
  simp [live?, Option.filter_eq_none_iff]

theorem fire_dead {d : Deck} {task : Task} (h : d.live? task.session = none) (id : Nat) :
    d.fire id task = ⟨d, [], none⟩ := by
  simp [fire, h]

/-- A task of the session that plays: the deck after it, the events and the task registered. -/
theorem fire_live {d : Deck} {task : Task} {s : Session} (h : d.live? task.session = some s) (id : Nat) :
    (d.fire id task).deck
        = { d with session := if (s.after id task).isOver then none else some (s.after id task) } ∧
      eventsOf (d.fire id task).outputs
        = task.event?.toList ++ (if (s.after id task).isOver then [.finished] else []) ∧
      (d.fire id task).wake = task.wake? s.origin := by
  cases task with
  | start n note => simp [fire, h, Session.after, Session.isOver, eventsOf, Task.event?, Task.wake?]
  | stop n note =>
    have hov : (s.after id (.stop n note)).isOver = (s.endDue && s.sounding - 1 == 0 && s.unplayed == 0) := rfl
    rw [hov]
    simp only [fire, h]
    split <;> exact ⟨rfl, rfl, rfl⟩
  | close n =>
    have hov : (s.after id (.close n)).isOver = (s.sounding == 0 && s.unplayed == 0) := rfl
    rw [hov]
    simp only [fire, h]
    split <;> exact ⟨rfl, rfl, rfl⟩

theorem session_of_fire {d : Deck} {task : Task} {s s' : Session} {id : Nat} (h : d.live? task.session = some s)
    (hs' : (d.fire id task).deck.session = some s') : s' = s.after id task ∧ s'.isOver = false := by
  rw [(fire_live h id).1] at hs'
  exact Session.goesOn hs'

end Deck

/-! ## Counting the tasks that wait -/

/-- A session's counters count its tasks in a pool. -/
structure Tally (s : Session) (pool : List Task) : Prop where
  unplayed : pool.countP (Task.isOf .start s.number) = s.unplayed
  sounding : pool.countP (Task.isOf .stop s.number) = s.sounding
  closing : pool.countP (Task.isOf .close s.number) = (!s.endDue).toNat

namespace Tally

variable {s : Session} {pool : List Task} {task : Task}

theorem perm {pool' : List Task} (h : Tally s pool) (p : pool'.Perm pool) : Tally s pool' :=
  ⟨(p.countP_eq _).trans h.unplayed, (p.countP_eq _).trans h.sounding, (p.countP_eq _).trans h.closing⟩

/-- Tasks of other sessions do not count. -/
theorem append_iff {gone : List Task} (h : ∀ t ∈ gone, t.session ≠ s.number) :
    Tally s (gone ++ pool) ↔ Tally s pool := by
  have absent : ∀ k, gone.countP (Task.isOf k s.number) = 0 := fun k =>
    List.countP_eq_zero.mpr fun t ht hk => h t ht (Task.isOf_iff.mp hk).2
  have same : ∀ k, (gone ++ pool).countP (Task.isOf k s.number) = pool.countP (Task.isOf k s.number) := fun k => by
    rw [List.countP_append, absent k, Nat.zero_add]
  constructor
  · intro ⟨h1, h2, h3⟩
    exact ⟨(same _).symm.trans h1, (same _).symm.trans h2, (same _).symm.trans h3⟩
  · intro ⟨h1, h2, h3⟩
    exact ⟨(same _).trans h1, (same _).trans h2, (same _).trans h3⟩

/-- At its begin, the starts of a session's notes wait, and its end. -/
theorem begin (number origin : Nat) (ids : List Nat) (notes : List Note) :
    Tally ⟨number, origin, ids, 0, notes.length, false, Summary.ofNotes notes⟩
      (notes.map (Task.start number) ++ [.close number]) := by
  have starts : ∀ k, (notes.map (Task.start number)).countP (Task.isOf k number)
      = if k = .start then notes.length else 0 := by
    intro k
    rw [List.countP_map]
    cases k with
    | start => exact List.countP_eq_length.mpr fun n _ => by simp [Task.kind, Task.session]
    | stop => exact List.countP_eq_zero.mpr fun n _ => by simp [Task.kind]
    | close => exact List.countP_eq_zero.mpr fun n _ => by simp [Task.kind]
  refine ⟨?_, ?_, ?_⟩
  · simp [starts, Task.isOf, Task.kind]
  · simp [starts, Task.isOf, Task.kind]
  · simp [starts, Task.isOf, Task.kind, Task.session]

/-- Firing a task of the session keeps the count, with what it registers put into the pool. -/
theorem after (h : Tally s (task :: pool)) (hs : task.session = s.number) (id : Nat) :
    Tally (s.after id task) (pool ++ (task.wake? s.origin).toList.map (·.2)) := by
  obtain ⟨h1, h2, h3⟩ := h
  simp only [List.countP_cons, Task.isOf_iff, hs, and_true] at h1 h2 h3
  cases task with
  | start n note =>
    have hn : n = s.number := hs
    simp only [Task.kind, reduceCtorEq, if_true, if_false] at h1 h2 h3
    refine ⟨?_, ?_, ?_⟩
    · simp [Session.after, Task.wake?, Task.isOf, Task.kind]; omega
    · simp [Session.after, Task.wake?, Task.isOf, Task.kind, Task.session, hn]; omega
    · simpa [Session.after, Task.wake?, Task.isOf, Task.kind] using h3
  | stop n note =>
    simp only [Task.kind, reduceCtorEq, if_true, if_false] at h1 h2 h3
    refine ⟨?_, ?_, ?_⟩
    · simpa [Session.after, Task.wake?] using h1
    · simp [Session.after, Task.wake?]; omega
    · simpa [Session.after, Task.wake?] using h3
  | close n =>
    simp only [Task.kind, reduceCtorEq, if_true, if_false] at h1 h2 h3
    have h0 : pool.countP (Task.isOf .close s.number) = 0 := by
      have := Bool.toNat_le (!s.endDue)
      omega
    refine ⟨?_, ?_, ?_⟩
    · simpa [Session.after, Task.wake?] using h1
    · simpa [Session.after, Task.wake?] using h2
    · simpa [Session.after, Task.wake?] using h0

theorem unplayed_pos (h : Tally s pool) (ht : task ∈ pool) (hs : task.isOf .start s.number) : 0 < s.unplayed := by
  rw [← h.unplayed]
  exact List.countP_pos_iff.mpr ⟨task, ht, hs⟩

theorem sounding_pos (h : Tally s pool) (ht : task ∈ pool) (hs : task.isOf .stop s.number) : 0 < s.sounding := by
  rw [← h.sounding]
  exact List.countP_pos_iff.mpr ⟨task, ht, hs⟩

/-- A session is over exactly when none of its tasks waits. -/
theorem isOver_iff (h : Tally s pool) : s.isOver = true ↔ ∀ t ∈ pool, t.session ≠ s.number := by
  simp only [Session.isOver, Bool.and_eq_true, beq_iff_eq]
  constructor
  · rintro ⟨⟨hc, h0⟩, h1⟩ t ht hs
    have absent : ∀ k, pool.countP (Task.isOf k s.number) = 0 := by
      intro k
      cases k with
      | start => exact h.unplayed.trans h1
      | stop => exact h.sounding.trans h0
      | close => rw [h.closing, hc]; rfl
    exact List.countP_eq_zero.mp (absent t.kind) t ht (Task.isOf_iff.mpr ⟨rfl, hs⟩)
  · intro hp
    have absent : ∀ k, pool.countP (Task.isOf k s.number) = 0 := fun k =>
      List.countP_eq_zero.mpr fun t ht hk => hp t ht (Task.isOf_iff.mp hk).2
    refine ⟨⟨?_, ?_⟩, ?_⟩
    · have := h.closing
      rw [absent] at this
      cases hd : s.endDue with
      | true => rfl
      | false => simp [hd] at this
    · rw [← h.sounding]; exact absent _
    · rw [← h.unplayed]; exact absent _

end Tally

end Ostinato.Playback
