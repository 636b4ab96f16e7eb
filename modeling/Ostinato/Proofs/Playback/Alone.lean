import Ostinato.Proofs.Playback.Operations
import Ostinato.Proofs.Playback.Timetable
import Ostinato.Proofs.Timer.Run

/-!
  Ostinato.Proofs.Playback.Alone: a scheduler on a timer that no other uses.

  An `Act` is anything that can be done with a scheduler and its clock; a history is a list of
  them. `Tidy` holds after every history (`tidy_run`): without a session nothing waits, and
  what waits is registered by the session, which counts it. A stop therefore leaves an empty
  queue (`Tidy.queue_stop`).
-/

namespace Ostinato.Playback

open Score

/-! ## Histories -/

inductive Act where
  | play (text : Text)
  | playNotes (notes : List Note)
  | stop
  | subscribe
  | unsubscribe (index : Nat)
  /-- The listeners take what they have heard. -/
  | read
  | advance (span : Nat)
  | runUntil (moment : Nat) (h : moment ≤ latest)
  | runAll

/-- Whether an act leaves the session to its tasks. -/
def Act.keepsSession : Act → Bool
  | play _ | playNotes _ | stop => false
  | _ => true

namespace Scheduler

/-- An advance past the latest reading is refused. -/
def act (s : Scheduler) : Act → Scheduler
  | .play text => (s.play text).1
  | .playNotes notes => (s.playNotes notes).1
  | .stop => s.stop.1
  | .subscribe => s.subscribe
  | .unsubscribe index => s.unsubscribe index
  | .read => { s with stage := s.stage.drain.2 }
  | .advance span => (s.advance? span).getD s
  | .runUntil moment _ => s.runUntil moment
  | .runAll => s.runAll

def run (s : Scheduler) (acts : List Act) : Scheduler := acts.foldl act s

@[simp] theorem run_nil (s : Scheduler) : s.run [] = s := rfl
@[simp] theorem run_cons (s : Scheduler) (a : Act) (acts : List Act) : s.run (a :: acts) = (s.act a).run acts := rfl

theorem run_append (s : Scheduler) (acts more : List Act) : s.run (acts ++ more) = (s.run acts).run more :=
  List.foldl_append ..

/-- A property that every act keeps holds after every history. -/
theorem run_of_act {P : Scheduler → Prop} (hact : ∀ s a, P s → P (s.act a)) {s : Scheduler} (h : P s)
    (acts : List Act) : P (s.run acts) := by
  induction acts generalizing s with
  | nil => exact h
  | cons a acts ih => exact ih (hact s a h)

end Scheduler

/-! ## What waits is the session's -/

/-- The first tasks of a session carry its number and are due at readings of the clock. -/
theorem Deck.tasksOf_bounds {number origin : Nat} {notes : List Note} {summary : Summary} {x : Nat × Task}
    (h : x ∈ tasksOf number origin notes summary) : x.1 ≤ latest ∧ x.2.session = number := by
  rcases List.mem_append.mp h with h | h
  · obtain ⟨n, -, rfl⟩ := List.mem_map.mp h
    exact ⟨timeOf_le_latest .., rfl⟩
  · cases List.mem_singleton.mp h
    exact ⟨timeOf_le_latest .., rfl⟩

structure Tidy (t : Timer Task) (d : Deck) : Prop where
  now_le : t.now ≤ latest
  deadline_le : ∀ e ∈ t.queue, e.deadline ≤ latest
  id_le : ∀ e ∈ t.queue, e.id ≤ t.registered
  idle : d.session = none → t.queue = []
  registered : ∀ s, d.session = some s → ∀ e ∈ t.queue, e.id ∈ s.timers ∧ e.task.session = s.number
  tally : ∀ s, d.session = some s → Tally s (t.queue.map (·.task))

namespace Tidy

variable {t : Timer Task} {d : Deck}

theorem empty (hn : t.now ≤ latest) (hq : t.queue = []) (hs : d.session = none) : Tidy t d where
  now_le := hn
  deadline_le := by simp [hq]
  id_le := by simp [hq]
  idle := fun _ => hq
  registered := fun s h => by simp [hs] at h
  tally := fun s h => by simp [hs] at h

theorem queue_cancel (h : Tidy t d) : (t.cancelAll ((d.session.map (·.timers)).getD [])).queue = [] := by
  rw [Timer.queue_cancelAll]
  cases hs : d.session with
  | none => simp [h.idle hs]
  | some s =>
    refine List.filter_eq_nil_iff.mpr fun e he => ?_
    simp [(h.registered s hs e he).1]

/-- A session is gone as soon as it is over, and is over once nothing waits. -/
theorem isOver_iff (h : Tidy t d) {s : Session} (hd : d.session = if s.isOver then none else some s) :
    s.isOver = true ↔ t.queue = [] := by
  constructor
  · intro hover
    apply h.idle
    rw [hd]
    exact if_pos hover
  · intro hq
    by_contra hover
    have htally := h.tally s (by rw [hd]; exact if_neg hover)
    rw [hq] at htally
    exact hover (htally.isOver_iff.mpr (by simp))

/-- What waits after the first task has fired waited before, or it is the stop of a note that
    just started. -/
theorem waits_after {e x : Timer.Entry Task} {rest : List (Timer.Entry Task)} (hq : t.queue = e :: rest)
    {s : Session} (hn : e.task.session = s.number) (moment : Nat) :
    let u : Timer Task := { t with now := moment, queue := rest }
    x ∈ (u.scheduleAll (e.task.wake? s.origin).toList).queue → x ∈ t.queue ∨
      (x.deadline ≤ latest ∧ x.task.session = s.number ∧ x.id = u.nextId ∧ e.task.kind = .start) := by
  intro u hx
  rcases Timer.mem_scheduleAll hx with hx | ⟨hwake, hid⟩
  · left
    rw [hq]
    exact List.mem_cons_of_mem _ hx
  · right
    obtain ⟨k, n, ht, hslot⟩ := Task.wake?_eq_some.mp (Option.mem_toList.mp hwake)
    obtain ⟨hdue, htask⟩ := Prod.mk.inj hslot
    have hlen : (e.task.wake? s.origin).toList.length ≤ 1 := by
      cases e.task.wake? s.origin <;> simp
    have hrange := List.mem_range'_1.mp hid
    refine ⟨?_, ?_, by omega, ?_⟩
    · rw [hdue]
      exact timeOf_le_latest ..
    · rw [htask, ← hn, ht]
      rfl
    · rw [ht]
      rfl

/-- The first task fires; the clock reads `moment`, and the task is off the queue. -/
theorem fire {e : Timer.Entry Task} {rest : List (Timer.Entry Task)} (h : Tidy t d) (hq : t.queue = e :: rest)
    {moment : Nat} (hm : moment ≤ latest) : let u : Timer Task := { t with now := moment, queue := rest }
    let o := d.fire u.nextId e.task
    Tidy (u.scheduleAll o.wake.toList) o.deck := by
  intro u o
  have he : e ∈ t.queue := hq ▸ List.mem_cons_self ..
  cases hd : d.session with
  | none =>
    rw [h.idle hd] at hq
    cases hq
  | some s =>
    have hn : e.task.session = s.number := (h.registered s hd e he).2
    have hlive : d.live? e.task.session = some s := Deck.live?_eq_some.mpr ⟨hd, hn.symm⟩
    obtain ⟨hdeck, -, hwake⟩ := Deck.fire_live hlive u.nextId
    have htally : Tally (s.after u.nextId e.task) ((u.scheduleAll o.wake.toList).queue.map (·.task)) := by
      have hpool : Tally s (e.task :: rest.map (·.task)) := by
        have := h.tally s hd
        rwa [hq] at this
      refine (hpool.after hn u.nextId).perm ?_
      rw [← hwake]
      exact Timer.perm_scheduleAll u _
    -- what waits afterwards waited before, or is the stop of the note that starts
    have hwaits : ∀ x ∈ (u.scheduleAll o.wake.toList).queue, x ∈ t.queue ∨
        (x.deadline ≤ latest ∧ x.task.session = s.number ∧ x.id = u.nextId ∧ e.task.kind = .start) := by
      intro x hx
      apply waits_after hq hn moment
      rw [← hwake]
      exact hx
    have hafter : ∀ s', o.deck.session = some s' → s' = s.after u.nextId e.task :=
      fun s' hs' => (Deck.session_of_fire hlive hs').1
    refine ⟨?_, ?_, ?_, ?_, ?_, ?_⟩
    · rw [Timer.now_scheduleAll]
      exact hm
    · intro x hx
      rcases hwaits x hx with hx | ⟨hdue, -⟩
      · exact h.deadline_le x hx
      · exact hdue
    · exact Timer.id_le_scheduleAll (t := u) (fun x hx => h.id_le x (hq ▸ List.mem_cons_of_mem _ hx)) _
    · intro hnone
      have hover : (s.after u.nextId e.task).isOver = true := by
        by_contra hover
        rw [hdeck, if_neg hover] at hnone
        cases hnone
      -- a session is over when none of its tasks is left, and no other session has tasks here
      refine List.eq_nil_iff_forall_not_mem.mpr fun x hx => ?_
      apply htally.isOver_iff.mp hover x.task (List.mem_map_of_mem hx)
      rw [Session.after_number]
      rcases hwaits x hx with hx | ⟨-, hsession, -⟩
      · exact (h.registered s hd x hx).2
      · exact hsession
    · intro s' hs' x hx
      cases hafter s' hs'
      rw [Session.after_number]
      rcases hwaits x hx with hx | ⟨-, hsession, hid, hstart⟩
      · obtain ⟨htimers, hsession⟩ := h.registered s hd x hx
        exact ⟨Session.mem_timers_after (.inl htimers), hsession⟩
      · exact ⟨Session.mem_timers_after (.inr ⟨hid, hstart⟩), hsession⟩
    · intro s' hs'
      cases hafter s' hs'
      exact htally

theorem clock (h : Tidy t d) {moment : Nat} (hm : moment ≤ latest) : Tidy { t with now := moment } d :=
  ⟨hm, h.deadline_le, h.id_le, h.idle, h.registered, h.tally⟩

theorem takeDue {e : Timer.Entry Task} {u : Timer Task} {moment : Nat} {stage : Stage} (h : Tidy t stage.deck)
    (hd : t.takeDue moment = some (e, u)) :
    Tidy (fireTask e (u, stage)).1 (fireTask e (u, stage)).2.deck := by
  obtain ⟨rest, hq, -, rfl⟩ := Timer.takeDue_eq_some.mp hd
  have hm : max t.now e.deadline ≤ latest :=
    Nat.max_le.mpr ⟨h.now_le, h.deadline_le e (hq ▸ List.mem_cons_self ..)⟩
  rw [fireTask_timer, fireTask_deck]
  exact h.fire hq hm

end Tidy

namespace Scheduler

def Tidy (s : Scheduler) : Prop := Playback.Tidy s.timer s.stage.deck

namespace Tidy

variable {s : Scheduler}

theorem queue_stop (h : s.Tidy) : s.stop.1.timer.queue = [] := by
  rw [timer_stop]
  exact Playback.Tidy.queue_cancel h

theorem stop (h : s.Tidy) : s.stop.1.Tidy := by
  refine .empty ?_ h.queue_stop ?_
  · rw [timer_stop, Timer.now_cancelAll]
    exact h.now_le
  · rw [deck_stop]

theorem waits_playNotes (h : s.Tidy) {notes : List Note} {e : Timer.Entry Task}
    (he : e ∈ (s.playNotes notes).1.timer.queue) : e.deadline ≤ latest ∧
      e.task.session = s.stage.deck.generation + 1 ∧ e.id ∈ List.range' s.timer.nextId (notes.length + 1) := by
  rw [timer_playNotes] at he
  rcases Timer.mem_scheduleAll he with he | ⟨htask, hid⟩
  · rw [h.queue_stop] at he
    cases he
  · obtain ⟨hdue, hsession⟩ := Deck.tasksOf_bounds htask
    refine ⟨hdue, hsession, ?_⟩
    have hreg : s.stop.1.timer.registered = s.timer.registered := by
      rw [timer_stop, Timer.registered_cancelAll]
    simpa [Timer.nextId, hreg, Deck.tasksOf] using hid

theorem playNotes (h : s.Tidy) (notes : List Note) : (s.playNotes notes).1.Tidy := by
  refine ⟨?_, ?_, ?_, ?_, ?_, ?_⟩
  · rw [timer_playNotes, Timer.now_scheduleAll]
    exact h.stop.now_le
  · intro e he
    exact (h.waits_playNotes he).1
  · rw [timer_playNotes]
    exact Timer.id_le_scheduleAll h.stop.id_le _
  · intro hn
    rw [deck_playNotes] at hn
    cases hn
  · intro x hx e he
    rw [deck_playNotes] at hx
    cases hx
    obtain ⟨-, hsession, hid⟩ := h.waits_playNotes he
    exact ⟨hid, hsession⟩
  · intro x hx
    rw [deck_playNotes] at hx
    cases hx
    refine (Tally.begin _ s.timer.now _ notes).perm ?_
    rw [timer_playNotes]
    have hp := Timer.perm_scheduleAll s.stop.1.timer
      (Deck.tasksOf (s.stage.deck.generation + 1) s.timer.now notes (Summary.ofNotes notes))
    rw [h.queue_stop, Deck.tasks_tasksOf] at hp
    exact hp

theorem runUntil (h : s.Tidy) {moment : Nat} (hm : moment ≤ latest) : (s.runUntil moment).Tidy := by
  refine Timer.runUntil_induction (P := fun x : Timer Task × Stage => Playback.Tidy x.1 x.2.deck) ?_ ?_ h
  · intro x e u hx hd
    exact Playback.Tidy.takeDue hx hd
  · intro x hx _
    exact hx.clock (Nat.max_le.mpr ⟨hx.now_le, hm⟩)

theorem runAll (h : s.Tidy) : s.runAll.Tidy := by
  refine Timer.runAll_induction (P := fun x : Timer Task × Stage => Playback.Tidy x.1 x.2.deck) ?_ h
  intro x _ hx hlast
  obtain ⟨e, he, rfl⟩ := hlast
  exact Tidy.runUntil (s := ⟨x.1, x.2⟩) hx (hx.deadline_le e he)

theorem act (h : s.Tidy) (a : Act) : (s.act a).Tidy := by
  cases a with
  | play text =>
    simp only [Scheduler.act, Scheduler.play]
    split
    · exact h
    · exact Tidy.playNotes (s := s.note _) h _
  | playNotes notes => exact h.playNotes notes
  | stop => exact h.stop
  | subscribe => exact h
  | unsubscribe index => exact h
  | read => exact h
  | advance span =>
    show ((s.advance? span).getD s).Tidy
    by_cases hs : s.timer.now + span ≤ latest
    · simp only [advance?, Timer.advance?, hs, if_true, Option.map_some, Option.getD_some]
      exact h.runUntil hs
    · simp only [advance?, Timer.advance?, hs, if_false, Option.map_none, Option.getD_none]
      exact h
  | runUntil moment hm => exact h.runUntil hm
  | runAll => exact h.runAll

end Tidy

/-- After every history, what waits is the session's, and without one nothing waits. -/
theorem tidy_run (history : List Act) : (empty.run history).Tidy :=
  run_of_act (P := Tidy) (fun _ a h => h.act a) (.empty (Nat.zero_le _) rfl rfl) history

end Scheduler

end Ostinato.Playback
