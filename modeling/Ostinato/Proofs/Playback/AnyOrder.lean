import Mathlib.Data.List.Basic
import Ostinato.Proofs.Playback.Operations

/-!
  Ostinato.Proofs.Playback.AnyOrder: sessions on a timer that keeps no promise.

  The timer may fire what is registered with it in any order and at any reading of its clock,
  each task at most once, and it may fire a task that it was asked to cancel (`late`). Starting,
  stopping and firing are the scheduler's own steps (`Scheduler.playNotes`, `Scheduler.stop`,
  `fireTask`); listeners may come, go and read whenever they like. `heard` keeps every event
  that was delivered, with the session whose task delivered it.

  `step_effect` says once what a move can do to the deck, to the tasks that wait and to what
  was heard. Proved from it, over every run:
  - `Sound`: the counters of the session that plays count its tasks that wait, and every task
    that waits is of this session or of an earlier one;
  - `Newer`: once a session has ended, whatever is heard is of a later one;
  - `Books`: while a session plays, the starts of a note that wait and those heard make up its
    occurrences in the notes played, and the stops that wait and those heard make up the
    starts heard. Notes that are equal give equal events, so occurrences are counted.
-/

namespace Ostinato.Playback

open Score

/-- A scheduler on a timer that fires in any order, also what was cancelled. -/
structure AnyTimer where
  scheduler : Scheduler
  /-- What the timer was asked to drop and may fire all the same. -/
  late : List (Timer.Entry Task)
  /-- The events delivered so far, each with its session. -/
  heard : List (Nat × Event)

namespace AnyTimer

inductive Move where
  | play (notes : List Note)
  | stop
  | fire (e : Timer.Entry Task)
  /-- The clock reads some moment from now on. -/
  | tick (moment : Nat)
  /-- Listeners subscribe, hang up or read. -/
  | listen (change : List Listener → List Listener)

def Move.keepsSession : Move → Bool
  | play _ => false
  | stop => false
  | _ => true

def start : AnyTimer := ⟨.empty, [], []⟩

def deck (w : AnyTimer) : Deck := w.scheduler.stage.deck

def timer (w : AnyTimer) : Timer Task := w.scheduler.timer

/-- What may fire next. -/
def waiting (w : AnyTimer) : List (Timer.Entry Task) := w.timer.queue ++ w.late

def pool (w : AnyTimer) : List Task := w.waiting.map (·.task)

/-- What ending the session asks the timer to drop. -/
def cancelled (w : AnyTimer) : List (Timer.Entry Task) :=
  w.timer.queue.filter fun e => ((w.deck.session.map (·.timers)).getD []).contains e.id

/-- A task fires, `t` and `late` being what waits besides it. -/
def fired (w : AnyTimer) (t : Timer Task) (late : List (Timer.Entry Task)) (e : Timer.Entry Task) : AnyTimer :=
  let x := fireTask e (t, w.scheduler.stage)
  ⟨⟨x.1, x.2⟩, late, w.heard ++ (eventsOf (w.deck.fire t.nextId e.task).outputs).map (e.task.session, ·)⟩

/-- An entry that does not wait cannot fire. -/
def step (w : AnyTimer) : Move → AnyTimer
  | .play notes => { w with scheduler := (w.scheduler.playNotes notes).1, late := w.late ++ w.cancelled }
  | .stop => { w with scheduler := w.scheduler.stop.1, late := w.late ++ w.cancelled }
  | .fire e =>
    if e ∈ w.timer.queue then w.fired { w.timer with queue := w.timer.queue.erase e } w.late e
    else if e ∈ w.late then w.fired w.timer (w.late.erase e) e
    else w
  | .tick moment => { w with scheduler := { w.scheduler with timer := { w.timer with now := moment } } }
  | .listen change =>
    { w with scheduler := { w.scheduler with stage :=
      { w.scheduler.stage with listeners := change w.scheduler.stage.listeners } } }

def run (w : AnyTimer) (moves : List Move) : AnyTimer := moves.foldl step w

@[simp] theorem run_nil (w : AnyTimer) : w.run [] = w := rfl
@[simp] theorem run_cons (w : AnyTimer) (m : Move) (moves : List Move) :
    w.run (m :: moves) = (w.step m).run moves := rfl

theorem run_append (w : AnyTimer) (moves more : List Move) : w.run (moves ++ more) = (w.run moves).run more :=
  List.foldl_append ..

/-- A property that every move keeps holds after every run. -/
theorem run_of_step {P : AnyTimer → Prop} (hstep : ∀ w m, P w → P (w.step m)) {w : AnyTimer} (h : P w)
    (moves : List Move) : P (w.run moves) := by
  induction moves generalizing w with
  | nil => exact h
  | cons m moves ih => exact ih (hstep w m h)

/-! ## What a move can do -/

/-- The session of `task` plays, and the task fires. -/
structure Fires (w w' : AnyTimer) (s : Session) (task : Task) (rest : List Task) (id : Nat) : Prop where
  live : w.deck.live? task.session = some s
  before : w.pool.Perm (task :: rest)
  after : w'.pool.Perm (rest ++ (task.wake? s.origin).toList.map (·.2))
  deck : w'.deck = { w.deck with session := if (s.after id task).isOver then none else some (s.after id task) }
  heard : w'.heard = w.heard ++
    (task.event?.toList ++ (if (s.after id task).isOver then [Event.finished] else [])).map (s.number, ·)

inductive Effect (w : AnyTimer) : Move → AnyTimer → Prop
  /-- Nothing happens, but tasks of sessions that do not play may be used up. -/
  | idle {m : Move} {w' : AnyTimer} (gone : List Task) : m.keepsSession = true → w'.deck = w.deck →
      w'.heard = w.heard → w.pool.Perm (gone ++ w'.pool) → (∀ t ∈ gone, w.deck.live? t.session = none) →
      Effect w m w'
  | fires {m : Move} {w' : AnyTimer} (s : Session) (task : Task) (rest : List Task) (id : Nat) :
      m.keepsSession = true → Fires w w' s task rest id → Effect w m w'
  | ends {w' : AnyTimer} : w'.deck = ⟨w.deck.generation + 1, none⟩ → w'.heard = w.heard → w'.pool.Perm w.pool →
      Effect w .stop w'
  | begins {w' : AnyTimer} (notes : List Note) (origin : Nat) (ids : List Nat) :
      w'.deck = Deck.begin ⟨w.deck.generation + 1, none⟩ origin ids (Summary.ofNotes notes) → w'.heard = w.heard →
      w'.pool.Perm (w.pool ++ (notes.map (Task.start (w.deck.generation + 1)) ++ [.close (w.deck.generation + 1)])) →
      Effect w (.play notes) w'

theorem perm_stop (w : AnyTimer) : (w.step .stop).pool.Perm w.pool := by
  simp only [pool, waiting, step, timer, cancelled, deck, Scheduler.timer_stop, Timer.queue_cancelAll]
  refine List.Perm.map _ ?_
  generalize (w.scheduler.stage.deck.session.map (·.timers)).getD [] = ids
  have h := List.filter_append_perm (fun e : Timer.Entry Task => ids.contains e.id) w.scheduler.timer.queue
  refine (List.perm_append_comm.trans ?_).trans List.perm_append_comm
  rw [List.append_assoc]
  exact h.append_left _

theorem perm_play (w : AnyTimer) (notes : List Note) : (w.step (.play notes)).pool.Perm
    (w.pool ++ (notes.map (Task.start (w.deck.generation + 1)) ++ [.close (w.deck.generation + 1)])) := by
  have hstop := perm_stop w
  simp only [pool, waiting, step, timer, List.map_append] at hstop ⊢
  rw [Scheduler.timer_playNotes]
  refine ((Timer.perm_scheduleAll _ _).append_right _).trans ?_
  rw [Deck.tasks_tasksOf, List.append_assoc]
  refine (List.perm_append_comm.append_left _).trans ?_
  rw [← List.append_assoc]
  exact hstop.append_right _

theorem effect_fired (w : AnyTimer) (t : Timer Task) (late : List (Timer.Entry Task)) (e : Timer.Entry Task)
    (h : w.waiting.Perm (e :: (t.queue ++ late))) : Effect w (.fire e) (w.fired t late e) := by
  have hpool : w.pool.Perm (e.task :: (t.queue ++ late).map (·.task)) := h.map _
  have hafter : (w.fired t late e).pool.Perm
      ((t.queue ++ late).map (·.task) ++ ((w.deck.fire t.nextId e.task).wake.toList).map (·.2)) := by
    simp only [pool, waiting, timer, fired, fireTask_timer, List.map_append]
    refine ((Timer.perm_scheduleAll _ _).append_right _).trans ?_
    rw [List.append_assoc, List.append_assoc]
    exact List.perm_append_comm.append_left _
  have hdeck : (w.fired t late e).deck = (w.deck.fire t.nextId e.task).deck := fireTask_deck ..
  cases hl : w.deck.live? e.task.session with
  | none =>
    rw [Deck.fire_dead hl] at hdeck hafter
    refine .idle [e.task] rfl hdeck ?_ ?_ ?_
    · simp [fired, Deck.fire_dead hl, eventsOf]
    · refine hpool.trans (.cons _ ?_)
      simpa using hafter.symm
    · intro t ht
      rw [List.mem_singleton.mp ht]
      exact hl
  | some s =>
    obtain ⟨h1, h2, h3⟩ := Deck.fire_live hl t.nextId
    have hn := (Deck.live?_eq_some.mp hl).2
    rw [h3] at hafter
    refine .fires s e.task _ t.nextId rfl ⟨hl, hpool, hafter, hdeck.trans h1, ?_⟩
    simp only [fired, h2, hn]

theorem step_effect (w : AnyTimer) (m : Move) : Effect w m (w.step m) := by
  cases m with
  | play notes =>
    exact .begins notes w.timer.now _ (Scheduler.deck_playNotes _ _) rfl (perm_play w notes)
  | stop => exact .ends (Scheduler.deck_stop _) rfl (perm_stop w)
  | tick moment => exact .idle [] rfl rfl rfl (.refl _) (by simp)
  | listen change => exact .idle [] rfl rfl rfl (.refl _) (by simp)
  | fire e =>
    simp only [step]
    split
    · rename_i hq
      exact effect_fired w _ _ e ((List.perm_cons_erase hq).append_right _)
    · split
      · rename_i hl
        refine effect_fired w _ _ e ?_
        exact ((List.perm_cons_erase hl).append_left _).trans List.perm_middle
      · exact .idle [] rfl rfl rfl (.refl _) (by simp)

/-- While nothing plays, no firing changes the deck or is heard. -/
theorem step_idle {w : AnyTimer} (h : w.deck.session = none) {m : Move} (hm : m.keepsSession = true) :
    (w.step m).deck = w.deck ∧ (w.step m).heard = w.heard := by
  generalize hw' : w.step m = w'
  cases hw' ▸ step_effect w m with
  | idle gone _ hdeck hheard => exact ⟨hdeck, hheard⟩
  | fires s task rest id _ hf =>
    have hs := (Deck.live?_eq_some.mp hf.live).1
    rw [h] at hs
    cases hs
  | ends => cases hm
  | begins => cases hm

theorem run_idle {w : AnyTimer} (h : w.deck.session = none) {moves : List Move}
    (hm : ∀ m ∈ moves, m.keepsSession = true) : (w.run moves).deck = w.deck ∧ (w.run moves).heard = w.heard := by
  induction moves generalizing w with
  | nil => exact ⟨rfl, rfl⟩
  | cons m moves ih =>
    obtain ⟨hdeck, hheard⟩ := step_idle h (hm m (List.mem_cons_self ..))
    obtain ⟨hdeck', hheard'⟩ := ih (hdeck ▸ h) fun m' hm' => hm m' (List.mem_cons_of_mem _ hm')
    exact ⟨hdeck'.trans hdeck, hheard'.trans hheard⟩

/-- What is heard is what the listeners get, in its order. -/
theorem listeners_step (w : AnyTimer) {m : Move} (hm : ∀ change, m ≠ .listen change) : ∃ new,
    (w.step m).heard = w.heard ++ new ∧
      (w.step m).scheduler.stage.listeners = w.scheduler.stage.listeners.map (·.after (new.map (·.2))) := by
  have hfired : ∀ t late e, ∃ new, (w.fired t late e).heard = w.heard ++ new ∧
      (w.fired t late e).scheduler.stage.listeners = w.scheduler.stage.listeners.map (·.after (new.map (·.2))) := by
    intro t late e
    refine ⟨_, rfl, ?_⟩
    simp only [fired, fireTask_listeners, List.map_map]
    rw [show ((fun x : Nat × Event => x.2) ∘ fun e' => (e.task.session, e')) = id from rfl, List.map_id]
    rfl
  have hquiet : ∀ w' : AnyTimer, w'.heard = w.heard → w'.scheduler.stage.listeners = w.scheduler.stage.listeners →
      ∃ new, w'.heard = w.heard ++ new ∧
        w'.scheduler.stage.listeners = w.scheduler.stage.listeners.map (·.after (new.map (·.2))) := by
    intro w' hh hl
    exact ⟨[], by simp [hh], by simp [hl]⟩
  cases m with
  | play notes => exact hquiet _ rfl (Scheduler.listeners_playNotes ..)
  | stop => exact hquiet _ rfl (Scheduler.listeners_stop _)
  | tick moment => exact hquiet _ rfl rfl
  | listen change => exact absurd rfl (hm change)
  | fire e =>
    simp only [step]
    split
    · exact hfired _ _ e
    · split
      · exact hfired _ _ e
      · exact hquiet _ rfl rfl

theorem listeners_run (w : AnyTimer) {moves : List Move} (hm : ∀ m ∈ moves, ∀ change, m ≠ .listen change) :
    ∃ new, (w.run moves).heard = w.heard ++ new ∧
      (w.run moves).scheduler.stage.listeners = w.scheduler.stage.listeners.map (·.after (new.map (·.2))) := by
  induction moves generalizing w with
  | nil => exact ⟨[], by simp, by simp⟩
  | cons m moves ih =>
    obtain ⟨new, hheard, hl⟩ := listeners_step w (hm m List.mem_cons_self)
    obtain ⟨more, hheard', hl'⟩ := ih (w.step m) fun m' hm' => hm m' (List.mem_cons_of_mem _ hm')
    refine ⟨new ++ more, ?_, ?_⟩
    · rw [run_cons, hheard', hheard, List.append_assoc]
    · rw [run_cons, hl', hl, List.map_map, List.map_append]
      exact List.map_congr_left fun l _ => l.after_after _ _

/-! ## The counters and the tasks that wait -/

structure Sound (w : AnyTimer) : Prop where
  number : ∀ s, w.deck.session = some s → s.number = w.deck.generation
  tally : ∀ s, w.deck.session = some s → Tally s w.pool
  unfinished : ∀ s, w.deck.session = some s → s.isOver = false
  sessions : ∀ t ∈ w.pool, t.session ≤ w.deck.generation
  heardBefore : ∀ x ∈ w.heard, x.1 ≤ w.deck.generation

theorem start_sound : Sound start := by
  constructor
  · intro s h; cases h
  · intro s h; cases h
  · intro s h; cases h
  · intro t h; cases h
  · intro x h; cases h

theorem Fires.session {w w' : AnyTimer} {s s' : Session} {task : Task} {rest : List Task} {id : Nat}
    (h : Fires w w' s task rest id) (hs' : w'.deck.session = some s') :
    s' = s.after id task ∧ s'.isOver = false := by
  rw [h.deck] at hs'
  exact Session.goesOn hs'

theorem fires_sound {w w' : AnyTimer} {s : Session} {task : Task} {rest : List Task} {id : Nat} (hw : Sound w)
    (h : Fires w w' s task rest id) : Sound w' := by
  obtain ⟨hs, hn⟩ := Deck.live?_eq_some.mp h.live
  have htally : Tally (s.after id task) w'.pool :=
    (((hw.tally s hs).perm h.before.symm).after hn.symm id).perm h.after
  have hgen : w'.deck.generation = w.deck.generation := by rw [h.deck]
  refine ⟨?_, ?_, ?_, ?_, ?_⟩
  · intro s' hs'
    rw [(h.session hs').1, hgen, Session.after_number]
    exact hw.number s hs
  · intro s' hs'
    rw [(h.session hs').1]
    exact htally
  · intro s' hs'
    exact (h.session hs').2
  · intro t ht
    rw [hgen]
    rcases List.mem_append.mp (h.after.mem_iff.mp ht) with ht | ht
    · exact hw.sessions t (h.before.mem_iff.mpr (List.mem_cons_of_mem _ ht))
    · obtain ⟨⟨deadline, t'⟩, hw', rfl⟩ := List.mem_map.mp ht
      rw [Task.session_of_wake? (Option.mem_toList.mp hw')]
      exact hw.sessions task (h.before.mem_iff.mpr (List.mem_cons_self ..))
  · intro x hx
    rw [hgen]
    rw [h.heard] at hx
    rcases List.mem_append.mp hx with hx | hx
    · exact hw.heardBefore x hx
    · obtain ⟨e, -, rfl⟩ := List.mem_map.mp hx
      exact Nat.le_of_eq (hw.number s hs)

theorem step_sound (w : AnyTimer) (m : Move) (hw : Sound w) : Sound (w.step m) := by
  generalize hw' : w.step m = w'
  cases hw' ▸ step_effect w m with
  | idle gone _ hdeck hheard hpool hgone =>
    have hsub : ∀ t ∈ w'.pool, t ∈ w.pool := fun t ht => hpool.mem_iff.mpr (List.mem_append_right _ ht)
    refine ⟨?_, ?_, ?_, ?_, ?_⟩
    · rw [hdeck]; exact hw.number
    · intro s hs
      rw [hdeck] at hs
      have hother : ∀ t ∈ gone, t.session ≠ s.number := fun t ht h =>
        Deck.live?_eq_none.mp (hgone t ht) s hs h.symm
      exact (Tally.append_iff hother).mp ((hw.tally s hs).perm hpool.symm)
    · rw [hdeck]; exact hw.unfinished
    · rw [hdeck]; exact fun t ht => hw.sessions t (hsub t ht)
    · rw [hdeck, hheard]; exact hw.heardBefore
  | fires s task rest id _ h => exact fires_sound hw h
  | ends hdeck hheard hpool =>
    refine ⟨?_, ?_, ?_, ?_, ?_⟩
    · rw [hdeck]; intro s h; cases h
    · rw [hdeck]; intro s h; cases h
    · rw [hdeck]; intro s h; cases h
    · rw [hdeck]; exact fun t ht => Nat.le_succ_of_le (hw.sessions t (hpool.mem_iff.mp ht))
    · rw [hdeck, hheard]; exact fun x hx => Nat.le_succ_of_le (hw.heardBefore x hx)
  | begins notes origin ids hdeck hheard hpool =>
    refine ⟨?_, ?_, ?_, ?_, ?_⟩
    · rw [hdeck]; intro s h; cases h; rfl
    · rw [hdeck]
      intro s h
      cases h
      -- What waits from before is of earlier sessions, so it does not count for the new one.
      have hother : ∀ t ∈ w.pool, t.session ≠ w.deck.generation + 1 := fun t ht =>
        Nat.ne_of_lt (Nat.lt_succ_of_le (hw.sessions t ht))
      exact ((Tally.append_iff hother).mpr (Tally.begin _ origin ids notes)).perm hpool
    · rw [hdeck]; intro s h; cases h; rfl
    · rw [hdeck]
      intro t ht
      show t.session ≤ w.deck.generation + 1
      rcases List.mem_append.mp (hpool.mem_iff.mp ht) with ht | ht
      · exact Nat.le_succ_of_le (hw.sessions t ht)
      · rcases List.mem_append.mp ht with ht | ht
        · obtain ⟨n, -, rfl⟩ := List.mem_map.mp ht
          exact Nat.le_refl _
        · rw [List.mem_singleton.mp ht]
          exact Nat.le_refl _
    · rw [hdeck, hheard]; exact fun x hx => Nat.le_succ_of_le (hw.heardBefore x hx)

theorem run_sound (moves : List Move) : Sound (start.run moves) := run_of_step step_sound start_sound moves

/-! ## What is heard once a session has ended -/

/-- Whatever plays, now or later, is of a later session. -/
structure Newer (number : Nat) (w : AnyTimer) : Prop where
  generation : number ≤ w.deck.generation
  session : ∀ s, w.deck.session = some s → number < s.number

theorem step_newer {number : Nat} {w : AnyTimer} (m : Move) (hw : Newer number w) :
    Newer number (w.step m) ∧
      ∃ new, (w.step m).heard = w.heard ++ new ∧ ∀ x ∈ new, number < x.1 := by
  generalize hw' : w.step m = w'
  cases hw' ▸ step_effect w m with
  | idle gone _ hdeck hheard _ _ =>
    refine ⟨⟨?_, ?_⟩, [], by rw [hheard, List.append_nil], by simp⟩
    · rw [hdeck]; exact hw.generation
    · rw [hdeck]; exact hw.session
  | fires s task rest id _ h =>
    obtain ⟨hs, -⟩ := Deck.live?_eq_some.mp h.live
    refine ⟨⟨?_, ?_⟩, _, h.heard, ?_⟩
    · rw [h.deck]; exact hw.generation
    · intro s' hs'
      rw [(h.session hs').1, Session.after_number]
      exact hw.session s hs
    · intro x hx
      obtain ⟨e, -, rfl⟩ := List.mem_map.mp hx
      exact hw.session s hs
  | ends hdeck hheard _ =>
    refine ⟨⟨?_, ?_⟩, [], by rw [hheard, List.append_nil], by simp⟩
    · rw [hdeck]; exact Nat.le_succ_of_le hw.generation
    · rw [hdeck]; intro s h; cases h
  | begins notes origin ids hdeck hheard _ =>
    refine ⟨⟨?_, ?_⟩, [], by rw [hheard, List.append_nil], by simp⟩
    · rw [hdeck]; exact Nat.le_succ_of_le hw.generation
    · rw [hdeck]; intro s h; cases h; exact Nat.lt_succ_of_le hw.generation

theorem run_newer {number : Nat} {w : AnyTimer} (hw : Newer number w) (moves : List Move) :
    Newer number (w.run moves) ∧
      ∃ new, (w.run moves).heard = w.heard ++ new ∧ ∀ x ∈ new, number < x.1 := by
  induction moves generalizing w with
  | nil => exact ⟨hw, [], by simp, by simp⟩
  | cons m moves ih =>
    obtain ⟨h1, new1, he1, hn1⟩ := step_newer m hw
    obtain ⟨h2, new2, he2, hn2⟩ := ih h1
    refine ⟨h2, new1 ++ new2, ?_, ?_⟩
    · rw [run_cons, he2, he1, List.append_assoc]
    · intro x hx
      rcases List.mem_append.mp hx with hx | hx
      · exact hn1 x hx
      · exact hn2 x hx

theorem generation_le_run (w : AnyTimer) (moves : List Move) : w.deck.generation ≤ (w.run moves).deck.generation := by
  refine run_of_step (P := fun w' => w.deck.generation ≤ w'.deck.generation) ?_ (Nat.le_refl _) moves
  intro v m hv
  refine Nat.le_trans hv ?_
  generalize hv' : v.step m = v'
  cases hv' ▸ step_effect v m with
  | idle gone _ hdeck => exact Nat.le_of_eq (by rw [hdeck])
  | fires s task rest id _ h => exact Nat.le_of_eq (by rw [h.deck])
  | ends hdeck => rw [hdeck]; exact Nat.le_succ _
  | begins notes origin ids hdeck => rw [hdeck]; exact Nat.le_succ _

/-- While nothing plays, all that comes is later. -/
theorem newer_of_idle {w : AnyTimer} (h : w.deck.session = none) : Newer w.deck.generation w :=
  ⟨Nat.le_refl _, fun s hs => by rw [h] at hs; cases hs⟩

/-- A stop, and a start as well, ends all that came before it. -/
theorem newer_of_ends {w : AnyTimer} {m : Move} (h : m.keepsSession = false) : Newer w.deck.generation (w.step m) := by
  generalize hw' : w.step m = w'
  cases hw' ▸ step_effect w m with
  | idle gone hk => rw [h] at hk; cases hk
  | fires s task rest id hk => rw [h] at hk; cases hk
  | ends hdeck =>
    refine ⟨?_, ?_⟩
    · rw [hdeck]; exact Nat.le_succ _
    · rw [hdeck]; intro s hs; cases hs
  | begins notes origin ids hdeck =>
    refine ⟨?_, ?_⟩
    · rw [hdeck]; exact Nat.le_succ _
    · rw [hdeck]; intro s hs; cases hs; exact Nat.lt_succ_self _

end AnyTimer

end Ostinato.Playback
