import Ostinato.Proofs.Timer.Queue
import Ostinato.Timer.WallClock
import Mathlib.Logic.Relation

/-!
  Ostinato.Proofs.Timer.Clockwork: the thread of a wall-clock timer, move by move.

  Three parties move. Clients make their requests, one after another; the clock moves on; and
  the thread looks at the task on top of its heap, waits for a command or for that task's
  deadline, or fires: it reads the clock once, and takes off the top while that is due by the
  reading. Any of them may move at any time, also while the thread fires.

  Of the heap nothing is known but that a greatest element is on top (`OnTop`). The comparison
  is turned around, so that the greatest is the one that falls due first (`cmp_eq_gt`); a list
  stands for the heap, and what a pop leaves may stand in any order.

  The channel keeps the order of what is sent, but not time: nothing stops the clock while a
  command lies in it. The thread looks at its heap first, so a task that is due by then fires
  before the command that cancels it is received.

  The thread comes to rest whenever the other two pause (`effort_lt`, `comes_to_rest`). The
  rounds of `WallClock` are one way for it to move (`works_round`, `works_settle`), and a clock
  that goes from deadline to deadline is one way for the clock (`moves_runUntil`).
-/

namespace Ostinato.Timer

open Relation

variable {τ α : Type}

/-! ## The heap -/

/-- The comparison of the heap. -/
def Entry.cmp (a b : Entry τ) : Ordering := (compare b.deadline a.deadline).then (compare b.id a.id)

theorem cmp_eq_gt {a b : Entry τ} : a.cmp b = .gt ↔ a.before b = true := by
  rw [before_iff, Entry.cmp, Ordering.then_eq_gt, Nat.compare_eq_gt, Nat.compare_eq_eq, Nat.compare_eq_gt,
    eq_comm (a := b.deadline)]

/-- Whether an entry may be on top of a heap. -/
def OnTop (heap : List (Entry τ)) (e : Entry τ) : Prop := e ∈ heap ∧ ∀ x ∈ heap, x.cmp e ≠ .gt

theorem onTop_iff {heap : List (Entry τ)} {e : Entry τ} :
    OnTop heap e ↔ e ∈ heap ∧ ∀ x ∈ heap, ¬ x.before e = true := by
  simp only [OnTop, Ne, cmp_eq_gt]

theorem exists_onTop {heap : List (Entry τ)} (h : heap ≠ []) : ∃ e, OnTop heap e := by
  simp only [onTop_iff]
  induction heap with
  | nil => exact absurd rfl h
  | cons x xs ih =>
    have hself : ¬ x.before x = true := by
      rw [before_iff]
      omega
    by_cases hxs : xs = []
    · subst hxs
      exact ⟨x, List.mem_cons_self .., by simpa using hself⟩
    · obtain ⟨e, he, htop⟩ := ih hxs
      by_cases hxe : x.before e = true
      · refine ⟨x, List.mem_cons_self .., fun y hy hyx => ?_⟩
        rcases List.mem_cons.mp hy with rfl | hy
        · exact hself hyx
        · exact htop y hy (before_trans hyx hxe)
      · refine ⟨e, List.mem_cons_of_mem _ he, fun y hy => ?_⟩
        rcases List.mem_cons.mp hy with rfl | hy
        · exact hxe
        · exact htop y hy

/-- Whether something is due by a moment. -/
def dueBy (heap : List (Entry τ)) (moment : Nat) : Bool := heap.any (·.deadline ≤ moment)

theorem dueBy_of_onTop {heap : List (Entry τ)} {e : Entry τ} {moment : Nat} (he : OnTop heap e)
    (hd : e.deadline ≤ moment) : dueBy heap moment = true :=
  List.any_eq_true.mpr ⟨e, he.1, decide_eq_true hd⟩

/-- The top tells whether anything is due. -/
theorem exists_onTop_of_dueBy {heap : List (Entry τ)} {moment : Nat} (h : dueBy heap moment = true) :
    ∃ e, OnTop heap e ∧ e.deadline ≤ moment := by
  obtain ⟨x, hx, hd⟩ := List.any_eq_true.mp h
  obtain ⟨e, he⟩ := exists_onTop (List.ne_nil_of_mem hx)
  have hle := deadline_le_of_not_before ((onTop_iff.mp he).2 x hx)
  exact ⟨e, he, Nat.le_trans hle (of_decide_eq_true hd)⟩

theorem dueBy_eq_false {heap : List (Entry τ)} {moment : Nat} :
    dueBy heap moment = false ↔ ∀ e, OnTop heap e → moment < e.deadline := by
  constructor
  · intro h e he
    refine Nat.lt_of_not_le fun hd => ?_
    rw [dueBy_of_onTop he hd] at h
    cases h
  · intro h
    refine Bool.eq_false_iff.mpr fun hdue => ?_
    obtain ⟨e, he, hd⟩ := exists_onTop_of_dueBy hdue
    exact Nat.not_lt.mpr hd (h e he)

theorem Sorted.onTop {e : Entry τ} {heap : List (Entry τ)} (h : Sorted (e :: heap)) : OnTop (e :: heap) e := by
  refine onTop_iff.mpr ⟨List.mem_cons_self .., fun x hx => ?_⟩
  rcases List.mem_cons.mp hx with rfl | hx
  · rw [before_iff]
    omega
  · exact (List.pairwise_cons.mp h).1 x hx

theorem Sorted.dueBy_cons {e : Entry τ} {heap : List (Entry τ)} (h : Sorted (e :: heap)) {moment : Nat} :
    dueBy (e :: heap) moment = false ↔ moment < e.deadline := by
  rw [dueBy_eq_false]
  constructor
  · exact fun hlater => hlater e h.onTop
  · intro hlt x hx
    exact Nat.lt_of_lt_of_le hlt (deadline_le_of_not_before ((onTop_iff.mp h.onTop).2 x hx.1))

theorem Sorted.lt_of_mem_dropWhile {q : List (Entry τ)} (h : Sorted q) {moment : Nat} :
    ∀ e ∈ q.dropWhile (·.deadline ≤ moment), moment < e.deadline := by
  induction q with
  | nil => simp
  | cons x q ih =>
    obtain ⟨hx, hq⟩ := List.pairwise_cons.mp h
    rw [List.dropWhile_cons]
    split
    · exact ih hq
    · rename_i hd
      have hlt : moment < x.deadline := by simpa using hd
      intro e he
      rcases List.mem_cons.mp he with rfl | he
      · exact hlt
      · exact Nat.lt_of_lt_of_le hlt (deadline_le_of_not_before (hx e he))

theorem loadOf_perm {weight : τ → Nat} {p q : List (Entry τ)} (h : p.Perm q) : loadOf weight p = loadOf weight q := by
  induction h with
  | nil => rfl
  | cons e _ ih => rw [loadOf, loadOf, ih]
  | swap a b q =>
    simp only [loadOf]
    omega
  | trans _ _ ihp ihq => exact ihp.trans ihq

/-! ## Moves -/

/-- What clients ask of a timer. -/
inductive Request (α : Type) where
  | scheduleAt (deadline : Nat) (value : α)
  | cancel (id : Nat)

/-- A request to a timer whose clock is moved by hand, with the ids that were handed out. -/
def Request.ask (x : Timer (Script α) × List Nat) : Request α → Timer (Script α) × List Nat
  | .scheduleAt deadline value => (x.1.scheduleAt deadline ⟨value, []⟩, x.2 ++ [x.1.nextId])
  | .cancel id => (x.1.cancel id, x.2)

def Request.send (w : WallClock α) : Request α → WallClock α
  | .scheduleAt deadline value => w.scheduleAt deadline ⟨value, []⟩
  | .cancel id => w.cancel id

def Request.id? (w : WallClock α) : Request α → Option Nat
  | .scheduleAt .. => some (w.registered + 1)
  | .cancel _ => none

/-- What the thread is at. -/
inductive Doing where
  | looking
  | waiting
  | firing (reading : Nat)

structure Clockwork (α : Type) where
  /-- What clients are still going to ask. -/
  ahead : List (Request α)
  ids : List Nat
  /-- The timer; its queue stands for the heap. -/
  wall : WallClock α
  doing : Doing
  rung : List (Entry (Script α))

def withInbox (w : WallClock α) (inbox : List (Command α)) : WallClock α := { w with inbox := inbox }

def withQueue (w : WallClock α) (queue : List (Entry (Script α))) : WallClock α := { w with queue := queue }

/-- Whether the clock has reached none of the deadlines that are asked for. -/
def Early (requests : List (Request α)) (now : Nat) : Prop :=
  ∀ deadline value, .scheduleAt deadline value ∈ requests → now < deadline

/-- Whether it has come to all of them that it can tell. -/
def Passed (requests : List (Request α)) (horizon now : Nat) : Prop :=
  ∀ deadline value, .scheduleAt deadline value ∈ requests → deadline ≤ horizon → deadline ≤ now

namespace Clockwork

def start (requests : List (Request α)) (horizon now : Nat) : Clockwork α :=
  ⟨requests, [], .start horizon now, .looking, []⟩

inductive Works : Clockwork α → Clockwork α → Prop
  | idle {c : Clockwork α} (hdoing : c.doing = .looking)
      (hdue : ∀ e, OnTop c.wall.queue e → c.wall.now < e.deadline) : Works c { c with doing := .waiting }
  | receive {c : Clockwork α} {command : Command α} {rest : List (Command α)} (hdoing : c.doing = .waiting)
      (hinbox : c.wall.inbox = command :: rest) :
      Works c { c with doing := .looking, wall := (withInbox c.wall rest).receive command }
  | timeOut {c : Clockwork α} {e : Entry (Script α)} (hdoing : c.doing = .waiting) (he : OnTop c.wall.queue e)
      (hdue : e.deadline ≤ c.wall.now) : Works c { c with doing := .looking }
  | begin {c : Clockwork α} {e : Entry (Script α)} (hdoing : c.doing = .looking) (he : OnTop c.wall.queue e)
      (hdue : e.deadline ≤ c.wall.now) : Works c { c with doing := .firing c.wall.now }
  | fire {c : Clockwork α} {reading : Nat} {e : Entry (Script α)} {heap : List (Entry (Script α))}
      (hdoing : c.doing = .firing reading) (he : OnTop c.wall.queue e) (hdue : e.deadline ≤ reading)
      (hpop : c.wall.queue.Perm (e :: heap)) :
      Works c { c with wall := (withQueue c.wall heap).fire e, rung := c.rung ++ [e] }
  | finish {c : Clockwork α} {reading : Nat} (hdoing : c.doing = .firing reading)
      (hdue : ∀ e, OnTop c.wall.queue e → reading < e.deadline) : Works c { c with doing := .looking }

/-- The moves of all three. Clients ask before the clock reaches any of the deadlines that they
    ask for. -/
inductive Moves (requests : List (Request α)) : Clockwork α → Clockwork α → Prop
  | thread {c d : Clockwork α} (h : Works c d) : Moves requests c d
  | client {c : Clockwork α} {r : Request α} {rest : List (Request α)} (hahead : c.ahead = r :: rest)
      (hearly : Early requests c.wall.now) :
      Moves requests c { c with ahead := rest, ids := c.ids ++ (r.id? c.wall).toList, wall := r.send c.wall }
  | clock {c : Clockwork α} (moment : Nat) : Moves requests c { c with wall := c.wall.tick moment }

theorem moves_of_works {requests : List (Request α)} {c d : Clockwork α} (h : ReflTransGen Works c d) :
    ReflTransGen (Moves requests) c d := ReflTransGen.mono (fun _ _ => Moves.thread) c d h

theorem now_performAll (w : WallClock α) (steps : List (Step α)) : (w.performAll steps).now = w.now := by
  induction steps generalizing w with
  | nil => rfl
  | cons s steps ih =>
    refine (ih (w.perform s)).trans ?_
    cases s with
    | after delay value next =>
      simp only [WallClock.perform, WallClock.scheduleAt]
      split <;> rfl
    | due deadline value next =>
      simp only [WallClock.perform, WallClock.scheduleAt]
      split <;> rfl
    | cancel index =>
      simp only [WallClock.perform]
      split <;> rfl

theorem now_works {c d : Clockwork α} (h : Works c d) : d.wall.now = c.wall.now := by
  cases h with
  | @receive command _ _ _ => cases command <;> rfl
  | @fire _ e _ _ _ _ _ => exact now_performAll _ e.task.next
  | _ => rfl

/-! ## Rest -/

/-- Whether the thread waits, and nothing is there that could wake it but the clock. -/
structure AtRest (c : Clockwork α) : Prop where
  doing : c.doing = .waiting
  inbox : c.wall.inbox = []
  idle : dueBy c.wall.queue c.wall.now = false

theorem exists_works {c : Clockwork α} (h : ¬ AtRest c) : ∃ d, Works c d := by
  cases hdoing : c.doing with
  | looking =>
    cases hdue : dueBy c.wall.queue c.wall.now with
    | false => exact ⟨_, .idle hdoing (dueBy_eq_false.mp hdue)⟩
    | true =>
      obtain ⟨e, he, hd⟩ := exists_onTop_of_dueBy hdue
      exact ⟨_, .begin hdoing he hd⟩
  | waiting =>
    cases hinbox : c.wall.inbox with
    | cons command rest => exact ⟨_, .receive hdoing hinbox⟩
    | nil =>
      cases hdue : dueBy c.wall.queue c.wall.now with
      | false => exact absurd ⟨hdoing, hinbox, hdue⟩ h
      | true =>
        obtain ⟨e, he, hd⟩ := exists_onTop_of_dueBy hdue
        exact ⟨_, .timeOut hdoing he hd⟩
  | firing reading =>
    cases hdue : dueBy c.wall.queue reading with
    | false => exact ⟨_, .finish hdoing (dueBy_eq_false.mp hdue)⟩
    | true =>
      obtain ⟨e, he, hd⟩ := exists_onTop_of_dueBy hdue
      obtain ⟨p, q, hsplit⟩ := List.append_of_mem he.1
      exact ⟨_, .fire hdoing he hd (hsplit ▸ List.perm_middle)⟩

/-- A bound on the moves that take nothing off the heap or the channel, until one does. -/
def phase (c : Clockwork α) : Nat :=
  match c.doing with
  | .looking => if dueBy c.wall.queue c.wall.now then 2 else 1
  | .waiting => if dueBy c.wall.queue c.wall.now then 3 else 0
  | .firing reading => if dueBy c.wall.queue reading then 1 else 3

theorem phase_le (c : Clockwork α) : c.phase ≤ 3 := by
  unfold phase
  split <;> split <;> omega

/-- A bound on what the thread has left to do. -/
def effort (c : Clockwork α) : Nat := 4 * c.wall.load + c.phase

theorem effort_lt {c d : Clockwork α} (h : Works c d) : d.effort < c.effort := by
  have hphase := d.phase_le
  cases h with
  | idle hdoing hdue => simp [effort, phase, hdoing, dueBy_eq_false.mpr hdue, WallClock.load]
  | timeOut hdoing he hdue => simp [effort, phase, hdoing, dueBy_of_onTop he hdue, WallClock.load]
  | begin hdoing he hdue => simp [effort, phase, hdoing, dueBy_of_onTop he hdue, WallClock.load]
  | finish hdoing hdue =>
    simp only [effort, phase, hdoing, dueBy_eq_false.mpr hdue]
    split <;> simp
  | @receive command rest hdoing hinbox =>
    have hload : c.wall.load = (withInbox c.wall rest).load + WallClock.commandWeight command := by
      simp only [WallClock.load, withInbox, hinbox, WallClock.inboxWeight]
      omega
    have hless := WallClock.load_receive_lt (withInbox c.wall rest) command
    simp only [effort]
    omega
  | @fire reading e heap hdoing he hdue hpop =>
    have hload : c.wall.load = (withQueue c.wall heap).load + (e.task.weight + 1) := by
      simp only [WallClock.load, withQueue, loadOf_perm hpop, loadOf]
      omega
    have hless := WallClock.load_fire_le (withQueue c.wall heap) e
    simp only [effort]
    omega

theorem works_acc (c : Clockwork α) : Acc (fun d c : Clockwork α => Works c d) c :=
  Subrelation.accessible (fun h => effort_lt h) (InvImage.accessible effort (Nat.lt_wfRel.wf.apply _))

theorem comes_to_rest (c : Clockwork α) : ∃ d, ReflTransGen Works c d ∧ AtRest d := by
  induction works_acc c with
  | intro c _ ih =>
    by_cases hrest : AtRest c
    · exact ⟨c, .refl, hrest⟩
    · obtain ⟨b, hb⟩ := exists_works hrest
      obtain ⟨d, hd, hdrest⟩ := ih b hb
      exact ⟨d, hd.head hb, hdrest⟩

/-! ## Rounds -/

section Rounds

variable (ahead : List (Request α)) (ids : List Nat) (rung : List (Entry (Script α)))

theorem scheduleAt_withQueue (w : WallClock α) (queue : List (Entry (Script α))) (deadline : Nat) (task : Script α) :
    (withQueue w queue).scheduleAt deadline task = withQueue (w.scheduleAt deadline task) queue := by
  by_cases hd : deadline ≤ w.horizon
  · simp [WallClock.scheduleAt, WallClock.send, withQueue, hd]
  · simp [WallClock.scheduleAt, withQueue, hd]

theorem perform_withQueue (w : WallClock α) (queue : List (Entry (Script α))) (s : Step α) :
    (withQueue w queue).perform s = withQueue (w.perform s) queue := by
  cases s with
  | after delay value next => exact scheduleAt_withQueue ..
  | due deadline value next => exact scheduleAt_withQueue ..
  | cancel index =>
    by_cases hindex : index < w.registered
    · simp [WallClock.perform, WallClock.cancel, WallClock.send, withQueue, hindex]
    · simp [WallClock.perform, withQueue, hindex]

theorem performAll_withQueue (w : WallClock α) (queue : List (Entry (Script α))) (steps : List (Step α)) :
    (withQueue w queue).performAll steps = withQueue (w.performAll steps) queue := by
  induction steps generalizing w with
  | nil => rfl
  | cons s steps ih =>
    show ((withQueue w queue).perform s).performAll steps = _
    rw [perform_withQueue, ih]
    rfl

/-- What a task does when it fires goes into the channel, and not into the heap. -/
theorem fire_withQueue (w : WallClock α) (queue : List (Entry (Script α))) (e : Entry (Script α)) :
    (withQueue w queue).fire e = withQueue (w.fire e) queue :=
  performAll_withQueue { w with fired := w.fired ++ [⟨e.task.value, w.now⟩] } queue e.task.next

theorem queue_fire (w : WallClock α) (e : Entry (Script α)) : (w.fire e).queue = w.queue := by
  have h : w.fire e = withQueue (w.fire e) w.queue := fire_withQueue w w.queue e
  rw [h]
  rfl

theorem queue_foldl_fire (batch : List (Entry (Script α))) (w : WallClock α) :
    (batch.foldl WallClock.fire w).queue = w.queue := by
  induction batch generalizing w with
  | nil => rfl
  | cons e batch ih => exact (ih (w.fire e)).trans (queue_fire w e)

/-- A batch that is due, taken off the heap one by one. -/
theorem works_batch {reading : Nat} (batch : List (Entry (Script α))) (w : WallClock α)
    (hs : Sorted (batch ++ w.queue)) (hdue : ∀ e ∈ batch, e.deadline ≤ reading) :
    ReflTransGen Works ⟨ahead, ids, withQueue w (batch ++ w.queue), .firing reading, rung⟩
      ⟨ahead, ids, batch.foldl WallClock.fire w, .firing reading, rung ++ batch⟩ := by
  induction batch generalizing w rung with
  | nil =>
    rw [List.append_nil]
    exact .refl
  | cons e batch ih =>
    have hfire : Works ⟨ahead, ids, withQueue w (e :: batch ++ w.queue), .firing reading, rung⟩
        ⟨ahead, ids, (withQueue w (batch ++ w.queue)).fire e, .firing reading, rung ++ [e]⟩ :=
      .fire rfl hs.onTop (hdue e (List.mem_cons_self ..)) (.refl _)
    rw [fire_withQueue, ← queue_fire w e] at hfire
    have hrest := ih (rung ++ [e]) (w.fire e) (by rw [queue_fire]; exact (List.pairwise_cons.mp hs).2)
      fun x hx => hdue x (List.mem_cons_of_mem _ hx)
    rw [List.append_assoc] at hrest
    exact hrest.head (by rwa [queue_fire] at hfire ⊢)

theorem sorted_round {w : WallClock α} (hs : Sorted w.queue) : Sorted w.round.queue := by
  unfold WallClock.round
  split
  · exact hs
  · rename_i command rest _ _
    cases command with
    | enqueue e => exact sorted_insert hs e
    | cancel id => exact List.Pairwise.sublist List.filter_sublist hs
  · rw [queue_foldl_fire]
    exact List.Pairwise.sublist (List.dropWhile_sublist _) hs

theorem dueBy_waiting {w : WallClock α} (hs : Sorted w.queue) : dueBy w.waiting w.now = false :=
  dueBy_eq_false.mpr fun e he => hs.lt_of_mem_dropWhile e he.1

theorem due_append_waiting (w : WallClock α) : w.due ++ w.waiting = w.queue := List.takeWhile_append_dropWhile

theorem dueBy_of_due_nil {w : WallClock α} (hs : Sorted w.queue) (hdue : w.due = []) : dueBy w.queue w.now = false := by
  rw [← due_append_waiting, hdue]
  exact dueBy_waiting hs

/-- What is due fires as one batch: the clock is read once. -/
theorem works_due {w : WallClock α} (hs : Sorted w.queue) {e : Entry (Script α)} {batch : List (Entry (Script α))}
    (hdue : w.due = e :: batch) :
    ReflTransGen Works ⟨ahead, ids, w, .looking, rung⟩
      ⟨ahead, ids, (e :: batch).foldl WallClock.fire (withQueue w w.waiting), .looking, rung ++ e :: batch⟩ := by
  have hqueue : e :: batch ++ w.waiting = w.queue := hdue ▸ due_append_waiting w
  have hdues : ∀ x ∈ e :: batch, x.deadline ≤ w.now := by
    intro x hx
    rw [← hdue] at hx
    exact of_decide_eq_true (List.all_eq_true.mp List.all_takeWhile x hx)
  have hbegin : Works ⟨ahead, ids, w, .looking, rung⟩ ⟨ahead, ids, w, .firing w.now, rung⟩ := by
    refine .begin rfl (e := e) ?_ (hdues e (List.mem_cons_self ..))
    rw [← hqueue] at hs ⊢
    exact hs.onTop
  have hbatch := works_batch ahead ids rung (e :: batch) (withQueue w w.waiting) (hqueue ▸ hs) hdues
  have hheap : withQueue (withQueue w w.waiting) (e :: batch ++ (withQueue w w.waiting).queue) = w := by
    show withQueue w (e :: batch ++ w.waiting) = w
    rw [hqueue]
    rfl
  rw [hheap] at hbatch
  refine .head hbegin (hbatch.tail (.finish rfl (dueBy_eq_false.mp ?_)))
  rw [queue_foldl_fire]
  exact dueBy_waiting hs

theorem works_round {w : WallClock α} (hs : Sorted w.queue) (h : w.sleeps = false) :
    ReflTransGen Works ⟨ahead, ids, w, .looking, rung⟩ ⟨ahead, ids, w.round, .looking, rung ++ w.due⟩ := by
  unfold WallClock.round
  split
  · simp_all [WallClock.sleeps]
  · rename_i command rest hdue hinbox
    rw [hdue, List.append_nil]
    exact .head (.idle rfl (dueBy_eq_false.mp (dueBy_of_due_nil hs hdue))) (.single (.receive rfl hinbox))
  · rename_i e batch hdue
    rw [hdue]
    exact works_due ahead ids rung hs hdue

/-- What the thread does until it sleeps. -/
theorem works_settle {w : WallClock α} (hs : Sorted w.queue) :
    ∃ rung', ReflTransGen Works ⟨ahead, ids, w, .looking, rung⟩ ⟨ahead, ids, w.settle, .waiting, rung'⟩ ∧
      AtRest ⟨ahead, ids, w.settle, .waiting, rung'⟩ := by
  fun_induction WallClock.settle w generalizing rung with
  | case1 w hsleeps =>
    simp only [WallClock.sleeps, Bool.and_eq_true, List.isEmpty_iff] at hsleeps
    obtain ⟨hdue, hinbox⟩ := hsleeps
    have hidle := dueBy_of_due_nil hs hdue
    exact ⟨rung, .single (.idle rfl (dueBy_eq_false.mp hidle)), rfl, hinbox, hidle⟩
  | case2 w hsleeps ih =>
    obtain ⟨rung', hworks, hrest⟩ := ih (rung ++ w.due) (sorted_round hs)
    exact ⟨rung', (works_round ahead ids rung hs (by simpa using hsleeps)).trans hworks, hrest⟩

theorem sorted_settle {w : WallClock α} (hs : Sorted w.queue) : Sorted w.settle.queue := by
  fun_induction WallClock.settle w with
  | case1 w _ => exact hs
  | case2 w _ ih => exact ih (sorted_round hs)

theorem load_settle_le (w : WallClock α) : w.settle.load ≤ w.load := by
  fun_induction WallClock.settle w with
  | case1 w _ => exact Nat.le_refl _
  | case2 w hsleeps ih => exact Nat.le_trans ih (Nat.le_of_lt (WallClock.load_round_lt (by simpa using hsleeps)))

/-- The clock moves up to a deadline, and the thread wakes. -/
theorem moves_wake (requests : List (Request α)) {w : WallClock α} (hs : Sorted w.queue) {e : Entry (Script α)}
    {rest : List (Entry (Script α))} (hq : w.queue = e :: rest) :
    ∃ rung', ReflTransGen (Moves requests) ⟨ahead, ids, w, .waiting, rung⟩
        ⟨ahead, ids, (w.tick e.deadline).settle, .waiting, rung'⟩ ∧
      AtRest ⟨ahead, ids, (w.tick e.deadline).settle, .waiting, rung'⟩ := by
  have htick : Moves requests ⟨ahead, ids, w, .waiting, rung⟩ ⟨ahead, ids, w.tick e.deadline, .waiting, rung⟩ :=
    .clock e.deadline
  have htop : OnTop w.queue e := by
    rw [hq] at hs ⊢
    exact hs.onTop
  have hlook : Works ⟨ahead, ids, w.tick e.deadline, .waiting, rung⟩ ⟨ahead, ids, w.tick e.deadline, .looking, rung⟩ :=
    .timeOut rfl htop (Nat.le_max_right ..)
  obtain ⟨rung', hsettle, hrest⟩ := works_settle ahead ids rung (w := w.tick e.deadline) hs
  exact ⟨rung', .head htick (.head (.thread hlook) (moves_of_works hsettle)), hrest⟩

theorem moves_wakeWhile (requests : List (Request α)) (more : WallClock α → Entry (Script α) → Bool) (fuel : Nat)
    {w : WallClock α} (hs : Sorted w.queue) (hrest : AtRest ⟨ahead, ids, w, .waiting, rung⟩) :
    ∃ rung', ReflTransGen (Moves requests) ⟨ahead, ids, w, .waiting, rung⟩
        ⟨ahead, ids, WallClock.wakeWhile more fuel w, .waiting, rung'⟩ ∧
      AtRest ⟨ahead, ids, WallClock.wakeWhile more fuel w, .waiting, rung'⟩ := by
  induction fuel generalizing w rung with
  | zero => exact ⟨rung, .refl, hrest⟩
  | succ fuel ih =>
    unfold WallClock.wakeWhile
    split
    · exact ⟨rung, .refl, hrest⟩
    · rename_i e rest hq
      split
      · obtain ⟨woken, hwake, hwoken⟩ := moves_wake ahead ids rung requests hs hq
        obtain ⟨rung', hmoves, hend⟩ := ih woken (sorted_settle (w := w.tick e.deadline) hs) hwoken
        exact ⟨rung', hwake.trans hmoves, hend⟩
      · exact ⟨rung, .refl, hrest⟩

theorem sorted_wakeWhile (more : WallClock α → Entry (Script α) → Bool) (fuel : Nat) {w : WallClock α}
    (hs : Sorted w.queue) : Sorted (WallClock.wakeWhile more fuel w).queue := by
  induction fuel generalizing w with
  | zero => exact hs
  | succ fuel ih =>
    unfold WallClock.wakeWhile
    split
    · exact hs
    · split
      · exact ih (sorted_settle hs)
      · exact hs

theorem sleeps_tick {w : WallClock α} {e : Entry (Script α)} {rest : List (Entry (Script α))}
    (hq : w.queue = e :: rest) : (w.tick e.deadline).sleeps = false := by
  have hdue : e ∈ (w.tick e.deadline).due := by
    have hd : e.deadline ≤ (w.tick e.deadline).now := Nat.le_max_right ..
    have hqueue : (w.tick e.deadline).queue = e :: rest := hq
    rw [WallClock.due, hqueue, List.takeWhile_cons_of_pos (by simpa using hd)]
    exact List.mem_cons_self ..
  simp [WallClock.sleeps, List.ne_nil_of_mem hdue]

theorem load_wake_lt {w : WallClock α} {e : Entry (Script α)} {rest : List (Entry (Script α))}
    (hq : w.queue = e :: rest) : (w.tick e.deadline).settle.load < w.load := by
  have hsleeps := sleeps_tick hq
  have hround : (w.tick e.deadline).round.load < w.load := WallClock.load_round_lt hsleeps
  rw [WallClock.settle, dif_neg (by simp [hsleeps])]
  exact Nat.lt_of_le_of_lt (load_settle_le _) hround

/-- It stops for no other reason than that it was to stop. -/
theorem more_wakeWhile {more : WallClock α → Entry (Script α) → Bool} {fuel : Nat} {w : WallClock α}
    (hfuel : w.load ≤ fuel) {e : Entry (Script α)} {rest : List (Entry (Script α))}
    (hq : (WallClock.wakeWhile more fuel w).queue = e :: rest) : more (WallClock.wakeWhile more fuel w) e = false := by
  induction fuel generalizing w with
  | zero =>
    rw [show (WallClock.wakeWhile more 0 w).queue = w.queue from rfl] at hq
    simp [WallClock.load, hq, loadOf] at hfuel
  | succ fuel ih =>
    cases hw : w.queue with
    | nil =>
      rw [show WallClock.wakeWhile more (fuel + 1) w = w by simp only [WallClock.wakeWhile, hw], hw] at hq
      cases hq
    | cons x xs =>
      have hstep : WallClock.wakeWhile more (fuel + 1) w
          = if more w x then WallClock.wakeWhile more fuel (w.tick x.deadline).settle else w := by
        simp only [WallClock.wakeWhile, hw]
      rw [hstep] at hq ⊢
      split at hq
      · rename_i hmore
        have hless := load_wake_lt hw
        rw [if_pos hmore]
        exact ih (by omega) hq
      · rename_i hmore
        rw [if_neg hmore]
        rw [hw] at hq
        cases hq
        simpa using hmore

/-- The thread wakes at every deadline up to a moment, and the clock moves on to that moment. -/
theorem moves_runUntil (requests : List (Request α)) (moment : Nat) {w : WallClock α} (hs : Sorted w.queue)
    (hrest : AtRest ⟨ahead, ids, w, .waiting, rung⟩) :
    ∃ rung', ReflTransGen (Moves requests) ⟨ahead, ids, w, .waiting, rung⟩
        ⟨ahead, ids, (w.runUntil moment).tick moment, .waiting, rung'⟩ ∧
      AtRest ⟨ahead, ids, (w.runUntil moment).tick moment, .waiting, rung'⟩ := by
  obtain ⟨rung', hwake, hend⟩ : ∃ rung', ReflTransGen (Moves requests) ⟨ahead, ids, w, .waiting, rung⟩
      ⟨ahead, ids, w.runUntil moment, .waiting, rung'⟩ ∧ AtRest ⟨ahead, ids, w.runUntil moment, .waiting, rung'⟩ :=
    moves_wakeWhile ahead ids rung requests (fun _ e => e.deadline ≤ moment) w.load hs hrest
  have hlater : ∀ e rest, (w.runUntil moment).queue = e :: rest → moment < e.deadline := by
    intro e rest hq
    simpa using more_wakeWhile (Nat.le_refl _) hq
  have hsorted : Sorted (w.runUntil moment).queue := sorted_wakeWhile (fun _ e => e.deadline ≤ moment) w.load hs
  generalize w.runUntil moment = u at *
  have hidle : dueBy u.queue (max u.now moment) = false := by
    cases hq : u.queue with
    | nil => rfl
    | cons e rest =>
      have hnow : dueBy u.queue u.now = false := hend.idle
      rw [hq] at hnow hsorted
      exact hsorted.dueBy_cons.mpr (Nat.max_lt.mpr ⟨hsorted.dueBy_cons.mp hnow, hlater e rest hq⟩)
  exact ⟨rung', hwake.tail (.clock moment), rfl, hend.inbox, hidle⟩

end Rounds

end Clockwork

end Ostinato.Timer
