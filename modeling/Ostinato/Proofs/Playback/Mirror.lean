import Ostinato.Proofs.Playback.Course
import Ostinato.Proofs.Playback.Recording
import Ostinato.Proofs.Score.Places

/-!
  Ostinato.Proofs.Playback.Mirror: what waits on the timer is what the session has still to do.

  Of the notes that a session plays some are unplayed, some sound, and the others are over; what
  was delivered since it began tells which. A queue mirrors the session when it has the start of
  every unplayed note, the stop of every sounding one, the end until it has come, and nothing
  else, each at its own reading and none in the past (`Mirrors`).

  The books of the session (`Books`) tell which tasks wait, and a queue in the order of its
  deadlines leaves none behind when the clock moves (`InPlay.fire`). So after every history the
  queue mirrors the session that plays, is empty when none does, and is empty for good once the
  scheduler is given up (`queue_mirrors_session`).
-/

namespace Ostinato.Playback

open Score

/-! ## What a session has still to do -/

def startedIn (es : List Event) : List Note := es.filterMap fun
  | .noteOn n => some n
  | _ => none

def stoppedIn (es : List Event) : List Note := es.filterMap fun
  | .noteOff n => some n
  | _ => none

/-- The notes played that have not started. -/
def unplayedOf (notes : List Note) (es : List Event) : List Note := notes.diff (startedIn es)

/-- The notes that have started and not stopped. -/
def soundingOf (es : List Event) : List Note := (startedIn es).diff (stoppedIn es)

theorem count_startedIn (es : List Event) (n : Note) : (startedIn es).count n = es.count (.noteOn n) := by
  induction es with
  | nil => rfl
  | cons e es ih => cases e <;> simp_all [startedIn, List.count_cons]

theorem count_stoppedIn (es : List Event) (n : Note) : (stoppedIn es).count n = es.count (.noteOff n) := by
  induction es with
  | nil => rfl
  | cons e es ih => cases e <;> simp_all [stoppedIn, List.count_cons]

def Session.due (s : Session) : Task → Nat
  | .start _ n => timeOf s.origin n.start
  | .stop _ n => timeOf s.origin n.stop
  | .close _ => timeOf s.origin s.summary.length

@[simp] theorem Session.due_after (s : Session) (id : Nat) (task : Task) : (s.after id task).due = s.due := by
  cases task <;> rfl

/-- What a session has still to do, given the notes that it plays and what was delivered of them. -/
def tasksLeft (s : Session) (notes : List Note) (es : List Event) : List Task :=
  (unplayedOf notes es).map (.start s.number) ++ (soundingOf es).map (.stop s.number)
    ++ if s.endDue then [] else [.close s.number]

theorem countP_tasksLeft (s : Session) (notes : List Note) (es : List Event) (k : Task.Kind) :
    (tasksLeft s notes es).countP (Task.isOf k s.number) = match k with
      | .start => (unplayedOf notes es).length
      | .stop => (soundingOf es).length
      | .close => (!s.endDue).toNat := by
  have hstarts : ((unplayedOf notes es).map (Task.start s.number)).countP (Task.isOf k s.number)
      = if k = .start then (unplayedOf notes es).length else 0 := by
    rw [List.countP_map]
    cases k <;> simp [Function.comp_def, Task.isOf, Task.kind, Task.session]
  have hstops : ((soundingOf es).map (Task.stop s.number)).countP (Task.isOf k s.number)
      = if k = .stop then (soundingOf es).length else 0 := by
    rw [List.countP_map]
    cases k <;> simp [Function.comp_def, Task.isOf, Task.kind, Task.session]
  have hends : (if s.endDue then [] else [Task.close s.number]).countP (Task.isOf k s.number)
      = if k = .close then (!s.endDue).toNat else 0 := by
    cases s.endDue <;> cases k <;> simp [Task.isOf, Task.kind, Task.session]
  rw [tasksLeft, List.countP_append, List.countP_append, hstarts, hstops, hends]
  cases k <;> simp

structure Mirrors (notes : List Note) (es : List Event) (s : Session) (t : Timer Task) : Prop where
  unplayed : (unplayedOf notes es).length = s.unplayed
  sounding : (soundingOf es).length = s.sounding
  queue : (t.queue.map (·.task)).Perm (tasksLeft s notes es)
  deadlines : ∀ e ∈ t.queue, e.deadline = s.due e.task
  now_le : ∀ e ∈ t.queue, t.now ≤ e.deadline
  timers : ∀ e ∈ t.queue, e.id ∈ s.timers

/-- Where the books of a session are kept and its counters count, the tasks that wait are those
    that it has still to do. -/
theorem perm_tasksLeft {s : Session} {notes : List Note} {pool : List Task} {es : List Event}
    (hb : Books s.number notes pool es) (ht : Tally s pool) (hn : ∀ t ∈ pool, t.session = s.number) :
    pool.Perm (tasksLeft s notes es) := by
  have hstart : Function.Injective (Task.start s.number) := by
    intro a b h
    cases h
    rfl
  have hstop : Function.Injective (Task.stop s.number) := by
    intro a b h
    cases h
    rfl
  have hleft : ∀ t ∈ tasksLeft s notes es, t.session = s.number := by
    intro t ht
    simp only [tasksLeft, List.mem_append, List.mem_map] at ht
    rcases ht with (⟨n, -, rfl⟩ | ⟨n, -, rfl⟩) | ht
    · rfl
    · rfl
    · split at ht
      · cases ht
      · cases List.mem_singleton.mp ht
        rfl
  -- Equal notes have equal tasks, so both sides are compared by counting.
  refine List.perm_iff_count.mpr fun t => ?_
  by_cases hk : t.session = s.number
  · cases t with
    | start k n =>
      obtain rfl : k = s.number := hk
      have hnone : (if s.endDue then [] else [Task.close s.number]).count (.start s.number n) = 0 := by
        split <;> rfl
      have hother : ((soundingOf es).map (Task.stop s.number)).count (.start s.number n) = 0 :=
        List.count_eq_zero.mpr (by simp)
      rw [tasksLeft, List.count_append, List.count_append, hnone, hother, List.count_map_of_injective _ _ hstart,
        unplayedOf, List.count_diff, count_startedIn]
      have := hb.starts n
      omega
    | stop k n =>
      obtain rfl : k = s.number := hk
      have hnone : (if s.endDue then [] else [Task.close s.number]).count (.stop s.number n) = 0 := by
        split <;> rfl
      have hother : ((unplayedOf notes es).map (Task.start s.number)).count (.stop s.number n) = 0 :=
        List.count_eq_zero.mpr (by simp)
      rw [tasksLeft, List.count_append, List.count_append, hnone, hother, List.count_map_of_injective _ _ hstop,
        soundingOf, List.count_diff, count_startedIn, count_stoppedIn]
      have := hb.stops n
      omega
    | close k =>
      obtain rfl : k = s.number := hk
      have hstarts : ((unplayedOf notes es).map (Task.start s.number)).count (.close s.number) = 0 :=
        List.count_eq_zero.mpr (by simp)
      have hstops : ((soundingOf es).map (Task.stop s.number)).count (.close s.number) = 0 :=
        List.count_eq_zero.mpr (by simp)
      have hcount : pool.count (.close s.number) = pool.countP (Task.isOf .close s.number) := by
        refine List.countP_congr fun t _ => ?_
        cases t <;> simp [Task.kind, Task.session]
      rw [hcount, ht.closing, tasksLeft, List.count_append, List.count_append, hstarts, hstops]
      cases s.endDue <;> simp
  · rw [List.count_eq_zero_of_not_mem fun hm => hk (hn t hm), List.count_eq_zero_of_not_mem fun hm => hk (hleft t hm)]

/-! ## From act to act -/

/-- A scheduler whose last session plays some notes, or is over; the record is of that session. -/
structure InPlay (notes : List Note) (y : Recorded) : Prop where
  tidy : Tidy y.1 y.2.1.deck
  order : Timer.InOrder y.1.queue
  now_le : ∀ e ∈ y.1.queue, y.1.now ≤ e.deadline
  number : ∀ s, y.2.1.deck.session = some s → s.number = y.2.1.deck.generation
  deadlines : ∀ s, y.2.1.deck.session = some s → ∀ e ∈ y.1.queue, e.deadline = s.due e.task
  course : ∀ s, y.2.1.deck.session = some s → Orderly notes (y.2.2.map (·.2)) ∧
    Books s.number notes (y.1.queue.map (·.task)) (y.2.2.map (·.2))

namespace InPlay

variable {notes : List Note} {y : Recorded}

theorem mirrors (h : InPlay notes y) {s : Session} (hs : y.2.1.deck.session = some s) :
    Mirrors notes (y.2.2.map (·.2)) s y.1 := by
  have htally := h.tidy.tally s hs
  have hnumber : ∀ t ∈ y.1.queue.map (·.task), t.session = s.number := by
    intro t ht
    obtain ⟨e, he, rfl⟩ := List.mem_map.mp ht
    exact (h.tidy.registered s hs e he).2
  have hperm := perm_tasksLeft (h.course s hs).2 htally hnumber
  refine ⟨?_, ?_, hperm, h.deadlines s hs, h.now_le, fun e he => (h.tidy.registered s hs e he).1⟩
  · exact (countP_tasksLeft s notes _ .start).symm.trans ((hperm.countP_eq _).symm.trans htally.unplayed)
  · exact (countP_tasksLeft s notes _ .stop).symm.trans ((hperm.countP_eq _).symm.trans htally.sounding)

theorem waits_fire {origin : Nat} {e x : Timer.Entry Task} {u : Timer Task}
    (hx : x ∈ (u.scheduleAll (e.task.wake? origin).toList).queue) :
    x ∈ u.queue ∨ ∃ k n, e.task = .start k n ∧ x.task = .stop k n ∧ x.deadline = timeOf origin n.stop := by
  rcases Timer.mem_scheduleAll hx with hx | ⟨hwake, -⟩
  · exact .inl hx
  · obtain ⟨k, n, ht, hslot⟩ := Task.wake?_eq_some.mp (Option.mem_toList.mp hwake)
    exact .inr ⟨k, n, ht, congrArg Prod.snd hslot, congrArg Prod.fst hslot⟩

section

variable {s : Session} {e x : Timer.Entry Task} {rest : List (Timer.Entry Task)} {u : Timer Task}

theorem behind (h : InPlay notes y) (hq : y.1.queue = e :: rest) (hx : x ∈ rest) :
    x ∈ y.1.queue ∧ e.deadline ≤ x.deadline := by
  have horder := h.order
  rw [hq] at horder
  exact ⟨hq ▸ List.mem_cons_of_mem _ hx, (List.pairwise_cons.mp horder).1 x hx⟩

/-- A task of the session fires at its own reading, so what it registers is not due before. -/
theorem deadline_le_fire (hn : ∀ n ∈ notes, n.start ≤ maxMillis) (h : InPlay notes y)
    (hs : y.2.1.deck.session = some s) (hq : y.1.queue = e :: rest) (hu : u.queue = rest)
    (hx : x ∈ (u.scheduleAll (e.task.wake? s.origin).toList).queue) : e.deadline ≤ x.deadline := by
  have he : e ∈ y.1.queue := hq ▸ List.mem_cons_self ..
  rcases waits_fire hx with hx | ⟨k, n, ht, -, hdue⟩
  · exact (h.behind hq (hu ▸ hx)).2
  · have hmem : n ∈ notes := by
      have hk : k = s.number := by
        rw [← (h.tidy.registered s hs e he).2, ht]
        rfl
      -- The books count the start that waits among the notes played.
      have hstarts := (h.course s hs).2.starts n
      rw [hq, List.map_cons, ht, hk, List.count_cons_self] at hstarts
      exact List.count_pos_iff.mp (by omega)
    rw [hdue, h.deadlines s hs e he, ht]
    exact timeOf_le_timeOf _ (start_le_stop (hn n hmem))

theorem due_fire (h : InPlay notes y) (hs : y.2.1.deck.session = some s) (hq : y.1.queue = e :: rest)
    (hu : u.queue = rest) (hx : x ∈ (u.scheduleAll (e.task.wake? s.origin).toList).queue) :
    x.deadline = s.due x.task := by
  rcases waits_fire hx with hx | ⟨k, n, -, ht, hdue⟩
  · exact h.deadlines s hs x (h.behind hq (hu ▸ hx)).1
  · rw [hdue, ht]
    rfl

end

theorem fire (hn : ∀ n ∈ notes, n.start ≤ maxMillis) (h : InPlay notes y) {moment : Nat} {e : Timer.Entry Task}
    {u : Timer Task} (hd : y.1.takeDue moment = some (e, u)) : InPlay notes (recordTask e (u, y.2)) := by
  have htidy := h.tidy.takeDue hd
  obtain ⟨rest, hq, -, rfl⟩ := Timer.takeDue_eq_some.mp hd
  have he : e ∈ y.1.queue := hq ▸ List.mem_cons_self ..
  have hnow : max y.1.now e.deadline = e.deadline := Nat.max_eq_right (h.now_le e he)
  rw [hnow] at htidy ⊢
  let u : Timer Task := { y.1 with now := e.deadline, queue := rest }
  show InPlay notes (recordTask e (u, y.2))
  cases hs : y.2.1.deck.session with
  | none =>
    rw [h.tidy.idle hs] at hq
    cases hq
  | some s =>
    have hsession : e.task.session = s.number := (h.tidy.registered s hs e he).2
    have hlive : y.2.1.deck.live? e.task.session = some s := Deck.live?_eq_some.mpr ⟨hs, hsession.symm⟩
    obtain ⟨hdeck, hevents, hwake⟩ := Deck.fire_live hlive u.nextId
    have htimer : (recordTask e (u, y.2)).1 = u.scheduleAll (e.task.wake? s.origin).toList := by
      show (fireTask e (u, y.2.1)).1 = _
      rw [fireTask_timer, hwake]
    have hdeck' : (recordTask e (u, y.2)).2.1.deck = (y.2.1.deck.fire u.nextId e.task).deck := fireTask_deck ..
    have hafter : ∀ s', (recordTask e (u, y.2)).2.1.deck.session = some s' →
        s' = s.after u.nextId e.task ∧ s'.isOver = false := by
      intro s' hs'
      exact Deck.session_of_fire hlive (hdeck' ▸ hs')
    refine ⟨htidy, ?_, ?_, ?_, ?_, ?_⟩
    · rw [htimer]
      apply Timer.inOrder_scheduleAll
      have horder := h.order
      rw [hq] at horder
      exact (List.pairwise_cons.mp horder).2
    · rw [htimer, Timer.now_scheduleAll]
      exact fun x hx => h.deadline_le_fire hn hs hq rfl hx
    · intro s' hs'
      rw [(hafter s' hs').1, Session.after_number, hdeck', hdeck]
      exact h.number s hs
    · intro s' hs' x hx
      rw [(hafter s' hs').1, Session.due_after]
      rw [htimer] at hx
      exact h.due_fire hs hq rfl hx
    · intro s' hs'
      obtain ⟨rfl, hover⟩ := hafter s' hs'
      obtain ⟨horderly, hbooks⟩ := h.course s hs
      rw [hq] at hbooks
      have hrecord : (recordTask e (u, y.2)).2.2.map (·.2) = y.2.2.map (·.2) ++ e.task.event?.toList := by
        show (y.2.2 ++ (eventsOf (y.2.1.deck.fire u.nextId e.task).outputs).map (u.now, ·)).map (·.2) = _
        rw [hevents, hover, List.map_append, List.map_map]
        simp
      obtain ⟨horderly', hbooks'⟩ := hbooks.fire hsession horderly s.origin
      rw [hrecord, Session.after_number]
      refine ⟨horderly', hbooks'.perm ?_⟩
      rw [htimer]
      exact Timer.perm_scheduleAll u _

theorem runUntil (hn : ∀ n ∈ notes, n.start ≤ maxMillis) (h : InPlay notes y) {moment : Nat} (hm : moment ≤ latest) :
    InPlay notes (Timer.runUntil recording moment y) := by
  refine Timer.runUntil_induction (P := InPlay notes) ?_ ?_ h
  · intro x e u hx hd
    exact hx.fire hn hd
  · intro x hx hd
    refine ⟨hx.tidy.clock (Nat.max_le.mpr ⟨hx.tidy.now_le, hm⟩), hx.order, ?_, hx.number, hx.deadlines, hx.course⟩
    intro e he
    exact Nat.max_le.mpr ⟨hx.now_le e he, Nat.le_of_lt (Timer.lt_deadline_of_takeDue hx.order hd e he)⟩

theorem runAll (hn : ∀ n ∈ notes, n.start ≤ maxMillis) (h : InPlay notes y) :
    InPlay notes (Timer.runAll recording y) := by
  refine Timer.runAll_induction (P := InPlay notes) ?_ h
  intro x _ hx hlast
  obtain ⟨e, he, rfl⟩ := hlast
  exact hx.runUntil hn (hx.tidy.deadline_le e he)

theorem of_eq (h : InPlay notes y) {y' : Recorded} (ht : y'.1 = y.1) (hd : y'.2.1.deck = y.2.1.deck)
    (hr : y'.2.2 = y.2.2) : InPlay notes y' := by
  refine ⟨?_, ?_, ?_, ?_, ?_, ?_⟩
  · rw [ht, hd]; exact h.tidy
  · rw [ht]; exact h.order
  · rw [ht]; exact h.now_le
  · rw [hd]; exact h.number
  · rw [ht, hd]; exact h.deadlines
  · rw [ht, hd, hr]; exact h.course

theorem of_idle (h : Tidy y.1 y.2.1.deck) (hs : y.2.1.deck.session = none) : InPlay notes y := by
  have hq := h.idle hs
  refine ⟨h, ?_, ?_, ?_, ?_, ?_⟩
  · rw [hq]; exact .nil
  · rw [hq]; simp
  · rw [hs]; simp
  · rw [hs]; simp
  · rw [hs]; simp

end InPlay

def Act.notes? : Act → Option (List Note)
  | .play text => (compile text).toOption
  | .playNotes notes => some notes
  | _ => none

/-- A score with a fault is played no further than the log. -/
theorem Scheduler.act_of_fault (s : Scheduler) {text : Text} (h : (Act.play text).notes? = none) :
    ∃ lines, s.act (.play text) = s.note lines := by
  cases hc : compile text with
  | error fault =>
    have hresult : (Score.read text : Compilation Float).result = .error fault := hc
    refine ⟨(Score.read text : Compilation Float).remarks.map Score.Remark.line, ?_⟩
    simp only [act, play, hresult]
  | ok notes =>
    rw [Act.notes?, hc] at h
    cases h

/-- What starts no session may stop one, or lets it go on. -/
theorem InPlay.act {notes : List Note} {y : Recorded} (hn : ∀ n ∈ notes, n.start ≤ maxMillis) (h : InPlay notes y)
    {a : Act} (ha : a.notes? = none) : InPlay notes (y.act a) := by
  cases a with
  | play text =>
    obtain ⟨lines, heq⟩ := y.scheduler.act_of_fault ha
    refine h.of_eq ?_ ?_ rfl
    · exact congrArg Scheduler.timer heq
    · exact congrArg (fun s : Scheduler => s.stage.deck) heq
  | playNotes notes => cases ha
  | stop =>
    refine .of_idle (Scheduler.Tidy.stop (s := y.scheduler) h.tidy) ?_
    show y.scheduler.stop.1.stage.deck.session = none
    rw [Scheduler.deck_stop]
  | subscribe => exact h.of_eq rfl rfl rfl
  | unsubscribe index => exact h.of_eq rfl rfl rfl
  | read => exact h.of_eq rfl rfl rfl
  | runUntil moment hm => exact h.runUntil hn hm
  | runAll => exact h.runAll hn
  | advance span =>
    by_cases hs : y.1.now + span ≤ latest
    · simp only [Recorded.act, Timer.advance?, hs, if_true, Option.getD_some]
      exact h.runUntil hn hs
    · simp only [Recorded.act, Timer.advance?, hs, if_false, Option.getD_none]
      exact h

theorem inPlay_playNotes {s : Scheduler} (h : s.Tidy) (notes : List Note) :
    InPlay notes ((s.playNotes notes).1.timer, (s.playNotes notes).1.stage, []) := by
  -- A start cancels what waited, so all that waits is one of the session's first tasks.
  have hslot : ∀ e ∈ (s.playNotes notes).1.timer.queue, (e.deadline, e.task) ∈
      Deck.tasksOf (s.stage.deck.generation + 1) s.timer.now notes (Summary.ofNotes notes) := by
    intro e he
    rw [Scheduler.timer_playNotes] at he
    rcases Timer.mem_scheduleAll he with he | ⟨hslot, -⟩
    · rw [h.queue_stop] at he
      cases he
    · exact hslot
  have hstop : s.stop.1.timer.now = s.timer.now := by rw [Scheduler.timer_stop, Timer.now_cancelAll]
  refine ⟨h.playNotes notes, ?_, ?_, ?_, ?_, ?_⟩
  · rw [Scheduler.timer_playNotes]
    apply Timer.inOrder_scheduleAll
    rw [h.queue_stop]
    exact .nil
  · intro e he
    have hle : ∀ millis, s.timer.now ≤ timeOf s.timer.now millis :=
      fun millis => Nat.le_min.mpr ⟨Nat.le_add_right .., h.now_le⟩
    rw [Scheduler.timer_playNotes, Timer.now_scheduleAll, hstop]
    rcases List.mem_append.mp (hslot e he) with hslot | hslot
    · obtain ⟨n, -, heq⟩ := List.mem_map.mp hslot
      exact (Prod.mk.inj heq).1 ▸ hle n.start
    · exact (Prod.mk.inj (List.mem_singleton.mp hslot)).1 ▸ hle _
  · intro session hs
    rw [Scheduler.deck_playNotes] at hs ⊢
    cases hs
    rfl
  · intro session hs e he
    rw [Scheduler.deck_playNotes] at hs
    cases hs
    rcases List.mem_append.mp (hslot e he) with hslot | hslot
    · obtain ⟨n, -, heq⟩ := List.mem_map.mp hslot
      obtain ⟨hdue, htask⟩ := Prod.mk.inj heq
      rw [← hdue, ← htask]
      rfl
    · obtain ⟨hdue, htask⟩ := Prod.mk.inj (List.mem_singleton.mp hslot)
      rw [hdue, htask]
      rfl
  · intro session hs
    rw [Scheduler.deck_playNotes] at hs
    cases hs
    refine ⟨.nil notes, (Books.begin _ notes).perm ?_⟩
    have hperm := Timer.perm_scheduleAll s.stop.1.timer
      (Deck.tasksOf (s.stage.deck.generation + 1) s.timer.now notes (Summary.ofNotes notes))
    rw [h.queue_stop, Deck.tasks_tasksOf, ← Scheduler.timer_playNotes] at hperm
    exact hperm

namespace Scheduler

/-- What starts a session plays its notes, whatever was said in the log about their score. -/
theorem act_of_notes? (s : Scheduler) {a : Act} {notes : List Note} (ha : a.notes? = some notes) :
    ∃ lines, s.act a = ((s.note lines).playNotes notes).1 := by
  cases a with
  | play text =>
    have hresult : (Score.read text : Compilation Float).result = .ok notes := compile_of_toOption ha
    refine ⟨(Score.read text : Compilation Float).remarks.map Score.Remark.line, ?_⟩
    simp only [act, play, hresult]
  | playNotes notes' =>
    cases ha
    refine ⟨[], ?_⟩
    simp [act, note]
  | _ => cases ha

theorem inPlay_act {s : Scheduler} (h : s.Tidy) {a : Act} {notes : List Note} (ha : a.notes? = some notes) :
    InPlay notes ((s.act a).timer, (s.act a).stage, []) := by
  obtain ⟨lines, heq⟩ := s.act_of_notes? ha
  rw [heq]
  exact inPlay_playNotes (s := s.note lines) h notes

theorem runUntil_idle {s : Scheduler} (h : s.timer.queue = []) (moment : Nat) :
    (s.runUntil moment).stage = s.stage := Timer.runUntil_of_nil firing moment (x := (s.timer, s.stage)) h

/-- Without a session, none comes of what starts none. -/
theorem idle_act {s : Scheduler} (h : s.Tidy) (hs : s.stage.deck.session = none) {a : Act} (ha : a.notes? = none) :
    (s.act a).stage.deck.session = none := by
  have hq := h.idle hs
  cases a with
  | play text =>
    obtain ⟨lines, heq⟩ := s.act_of_fault ha
    rw [heq]
    exact hs
  | playNotes notes => cases ha
  | stop =>
    show s.stop.1.stage.deck.session = none
    rw [deck_stop]
  | subscribe => exact hs
  | unsubscribe index => exact hs
  | read => exact hs
  | runUntil moment hm =>
    show (s.runUntil moment).stage.deck.session = none
    rw [runUntil_idle hq]
    exact hs
  | runAll =>
    show (ofPair (Timer.runAll firing (s.timer, s.stage))).stage.deck.session = none
    rw [Timer.runAll_of_nil firing (x := (s.timer, s.stage)) hq]
    exact hs
  | advance span =>
    show ((s.advance? span).getD s).stage.deck.session = none
    by_cases hle : s.timer.now + span ≤ latest
    · simp only [advance?, Timer.advance?, hle, if_true, Option.map_some, Option.getD_some]
      exact (congrArg (fun x : Stage => x.deck.session) (runUntil_idle hq _)).trans hs
    · simp only [advance?, Timer.advance?, hle, if_false, Option.map_none, Option.getD_none]
      exact hs

/-! ## After every history -/

/-- What comes of a scheduler that is given up: it stops, and its timer goes on without it. -/
def drop (s : Scheduler) : Scheduler := s.stop.1

end Scheduler

/-- Whether an act can be done once the scheduler was given up: it is one of the clock or of a
    listener. -/
def Act.outlives : Act → Bool
  | play _ | playNotes _ | stop | subscribe => false
  | _ => true

theorem Act.notes?_of_outlives {a : Act} (h : a.outlives = true) : a.notes? = none := by
  cases a <;> first | rfl | cases h

/-- Where the last play stands in a history that started a session; its notes are those of its score. -/
structure LastPlay (history before : List Act) (a : Act) (notes : List Note) (after : List Act) : Prop where
  split : history = before ++ a :: after
  notes : a.notes? = some notes
  last : ∀ b ∈ after, b.notes? = none

/-- A session that plays was started by the last play. -/
theorem lastPlay_of_session {history : List Act} {session : Session}
    (h : (Scheduler.empty.run history).stage.deck.session = some session) :
    ∃ before a notes after, LastPlay history before a notes after := by
  induction history using List.reverseRecOn generalizing session with
  | nil => cases h
  | append_singleton history b ih =>
    rw [Scheduler.run_append] at h
    cases hb : b.notes? with
    | some notes => exact ⟨history, b, notes, [], rfl, hb, by simp⟩
    | none =>
      cases hs : (Scheduler.empty.run history).stage.deck.session with
      | none =>
        have hidle := Scheduler.idle_act (Scheduler.tidy_run history) hs hb
        cases hidle.symm.trans h
      | some session' =>
        obtain ⟨before, a, notes, after, hsplit, hnotes, hlast⟩ := ih hs
        refine ⟨before, a, notes, after ++ [b], ?_, hnotes, ?_⟩
        · rw [hsplit, List.append_assoc, List.cons_append]
        · intro c hc
          rcases List.mem_append.mp hc with hc | hc
          · exact hlast c hc
          · exact List.mem_singleton.mp hc ▸ hb

/-- What was delivered since the last play. -/
def deliveredSince (before : List Act) (a : Act) (after : List Act) : List Event :=
  (((Scheduler.empty.run before).act a).record after).map (·.2)

theorem LastPlay.inPlay {history before after : List Act} {a : Act} {notes : List Note}
    (h : LastPlay history before a notes after) (hn : ∀ n ∈ notes, n.start ≤ maxMillis) :
    let s := (Scheduler.empty.run before).act a
    InPlay notes (Recorded.run (s.timer, s.stage, []) after) := by
  intro s
  have hrun : ∀ y, InPlay notes y → ∀ acts : List Act, (∀ b ∈ acts, b.notes? = none) → InPlay notes (y.run acts) := by
    intro y hy acts hacts
    induction acts generalizing y with
    | nil => exact hy
    | cons b acts ih =>
      exact ih _ (hy.act hn (hacts b (List.mem_cons_self ..))) fun c hc => hacts c (List.mem_cons_of_mem _ hc)
  exact hrun _ (Scheduler.inPlay_act (Scheduler.tidy_run before) h.notes) after h.last

/-- A scheduler's queue mirrors its session: it is empty when none plays; while one plays, it has
    what is left to do of the notes of the last play. -/
def MirrorsSession (history : List Act) : Prop :=
  let s := Scheduler.empty.run history
  match s.stage.deck.session with
  | none => s.timer.queue = []
  | some session => session.number = s.stage.deck.generation ∧
    ∃ before a notes after, LastPlay history before a notes after ∧
      Mirrors notes (deliveredSince before a after) session s.timer

theorem mirrorsSession {history : List Act}
    (hn : ∀ notes, Act.playNotes notes ∈ history → ∀ n ∈ notes, n.start ≤ maxMillis) : MirrorsSession history := by
  unfold MirrorsSession
  dsimp only
  cases hs : (Scheduler.empty.run history).stage.deck.session with
  | none => exact (Scheduler.tidy_run history).idle hs
  | some session =>
    obtain ⟨before, a, notes, after, hlast⟩ := lastPlay_of_session hs
    have htimes : ∀ n ∈ notes, n.start ≤ maxMillis := by
      have hnotes := hlast.notes
      cases a with
      | play text => exact compile_start_le (compile_of_toOption hnotes)
      | playNotes notes' =>
        cases hnotes
        exact hn notes (hlast.split ▸ List.mem_append_right _ (List.mem_cons_self ..))
      | _ => cases hnotes
    have hplay := hlast.inPlay htimes
    have hrun : ((Scheduler.empty.run before).act a).run after = Scheduler.empty.run history := by
      rw [hlast.split, Scheduler.run_append, Scheduler.run_cons]
    have hsched := (Recorded.scheduler_run
      (((Scheduler.empty.run before).act a).timer, ((Scheduler.empty.run before).act a).stage, []) after).trans hrun
    have htimer := congrArg Scheduler.timer hsched
    have hdeck := congrArg (fun s : Scheduler => s.stage.deck) hsched
    have hsession := (congrArg Deck.session hdeck).trans hs
    refine ⟨(hplay.number session hsession).trans (congrArg Deck.generation hdeck), before, a, notes, after, hlast, ?_⟩
    exact htimer ▸ hplay.mirrors hsession

/-- What can be done after a scheduler was given up starts no session, so nothing waits any more. -/
theorem nothing_waits_after_drop {s : Scheduler} (h : s.Tidy) {later : List Act}
    (hl : ∀ a ∈ later, a.outlives = true) :
    (s.drop.run later).stage.deck.session = none ∧ (s.drop.run later).timer.queue = [] := by
  have hrun : ∀ u : Scheduler, u.Tidy → u.stage.deck.session = none → ∀ acts : List Act,
      (∀ a ∈ acts, a.outlives = true) → (u.run acts).Tidy ∧ (u.run acts).stage.deck.session = none := by
    intro u hu hs acts hacts
    induction acts generalizing u with
    | nil => exact ⟨hu, hs⟩
    | cons a acts ih =>
      have hnotes := Act.notes?_of_outlives (hacts a (List.mem_cons_self ..))
      apply ih (u.act a) (hu.act a) (Scheduler.idle_act hu hs hnotes)
      intro b hb
      exact hacts b (List.mem_cons_of_mem _ hb)
  obtain ⟨htidy, hsession⟩ := hrun s.drop h.stop (congrArg Deck.session s.deck_stop) later hl
  exact ⟨hsession, htidy.idle hsession⟩

/-- Whatever is done with a scheduler on a timer of its own: without a session nothing waits; while
    one plays, exactly what it has still to do waits, and its timers name all of that; and once
    the scheduler is given up, nothing waits ever after. The start of a note is a reading in 64 bits. -/
theorem queue_mirrors_session (history : List Act)
    (hn : ∀ notes, Act.playNotes notes ∈ history → ∀ n ∈ notes, n.start ≤ maxMillis) :
    MirrorsSession history ∧ ∀ later : List Act, (∀ a ∈ later, a.outlives = true) →
      let s := (Scheduler.empty.run history).drop.run later
      s.stage.deck.session = none ∧ s.timer.queue = [] :=
  ⟨mirrorsSession hn, fun _ hl => nothing_waits_after_drop (Scheduler.tidy_run history) hl⟩

/-- A chord sounds on from before a score with a fault; then the scheduler is given up. -/
theorem queue_mirrors_chord : let m : Note := ⟨0, ['c'], 0, 127, 60, 0, 500⟩
    let n : Note := ⟨1, ['e'], 1, 127, 64, 250, 0⟩
    let history : List Act := [.playNotes [n], .stop, .playNotes [m, n], .advance 0, .subscribe, .play ['?']]
    (∀ notes, Act.playNotes notes ∈ history → ∀ x ∈ notes, x.start ≤ maxMillis) ∧ MirrorsSession history ∧
      (∀ a ∈ [Act.unsubscribe 0, .runAll], a.outlives = true) ∧
      ((Scheduler.empty.run history).drop.run [.unsubscribe 0, .runAll]).timer.queue = [] := by
  intro m n history
  have hn : ∀ notes, Act.playNotes notes ∈ history → ∀ x ∈ notes, x.start ≤ maxMillis := by
    intro notes hnotes x hx
    simp only [history, List.mem_cons, Act.playNotes.injEq, reduceCtorEq, false_or, or_false, List.not_mem_nil] at hnotes
    rcases hnotes with rfl | rfl
    · cases List.mem_singleton.mp hx
      decide
    · rcases List.mem_cons.mp hx with rfl | hx
      · decide
      · cases List.mem_singleton.mp hx
        decide
  have hl : ∀ a ∈ [Act.unsubscribe 0, .runAll], a.outlives = true := by simp [Act.outlives]
  obtain ⟨hmirrors, hdropped⟩ := queue_mirrors_session history hn
  exact ⟨hn, hmirrors, hl, (hdropped _ hl).2⟩

end Ostinato.Playback
