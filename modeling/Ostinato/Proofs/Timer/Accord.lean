import Ostinato.Proofs.Timer.Clockwork
import Ostinato.Proofs.Timer.Program
import Mathlib.Data.List.Induction
import Mathlib.Data.List.Perm.Subperm

/-!
  Ostinato.Proofs.Timer.Accord: a timer with a thread of its own, and one whose clock is moved
  by hand.

  Both get the same requests. By hand, everything fires at the end, first what falls due first.
  The thread has some of it in its heap, some in its channel, and some behind it. As long as each
  task that fires would also go first if the channel were drained (`InTime`), what has fired is how
  the queue by hand begins, and what the channel would make of the heap (`drained`) is the rest
  (`Verdict.begins`).

  The thread does not look into the channel, so a task can fire although its cancellation lies
  there, or before one that falls due earlier. Then clients ask for nothing more, for a deadline
  has passed, and what has fired is never again how that queue begins (`Verdict.strays`). So when
  the clock has passed everything that it can tell and the thread is at rest, the two agree exactly
  if nothing fired late (`agrees_iff_none_late`), and they can disagree (`fires_though_cancelled`).
  On the rounds of `WallClock` nothing comes late (`course_rounds`).
-/

namespace Ostinato.Timer

open Relation

variable {α : Type}

/-! ## By hand -/

/-- The timer whose clock is moved by hand after some requests, with the ids that it handed out. -/
def byHand (requests : List (Request α)) : Timer (Script α) × List Nat := requests.foldl Request.ask (.start, [])

theorem byHand_concat (requests : List (Request α)) (r : Request α) :
    byHand (requests ++ [r]) = r.ask (byHand requests) := List.foldl_append ..

/-- Whether an entry is one that was asked for; it has no steps of its own. -/
def Asked (requests : List (Request α)) (e : Entry (Script α)) : Prop :=
  ∃ value, e.task = ⟨value, []⟩ ∧ .scheduleAt e.deadline value ∈ requests

theorem Asked.append {requests : List (Request α)} {e : Entry (Script α)} (h : Asked requests e)
    (more : List (Request α)) : Asked (requests ++ more) e := by
  obtain ⟨value, htask, hmem⟩ := h
  exact ⟨value, htask, List.mem_append_left _ hmem⟩

/-- A timer whose clock has not been moved, and where nothing waits that was not asked for. -/
structure Plain (requests : List (Request α)) (t : Timer (Script α)) : Prop where
  neat : Neat t
  now : t.now = 0
  asked : ∀ e ∈ t.queue, Asked requests e

theorem plain (requests : List (Request α)) : Plain requests (byHand requests).1 := by
  induction requests using List.reverseRecOn with
  | nil => exact ⟨.start, rfl, fun e he => nomatch he⟩
  | append_singleton requests r ih =>
    rw [byHand_concat]
    cases r with
    | scheduleAt deadline value =>
      refine ⟨ih.neat.scheduleAt .., ih.now, fun e he => ?_⟩
      rcases mem_insert.mp he with rfl | he
      · exact ⟨value, rfl, List.mem_append_right _ (List.mem_singleton_self _)⟩
      · exact (ih.asked e he).append _
    | cancel id => exact ⟨ih.neat.cancel id, ih.now, fun e he => (ih.asked e (List.mem_filter.mp he).1).append _⟩

/-- While tasks without steps fire, what has fired and what waits make up the queue from before. -/
structure Unwinds (queue : List (Entry (Script α))) (x : Timer (Script α) × Past α) : Prop where
  split : ∃ rung, x.2 = rung.map (fun e => .fired e e.deadline) ∧ rung ++ x.1.queue = queue
  ahead : ∀ e ∈ x.1.queue, x.1.now ≤ e.deadline

theorem Unwinds.runUntil {queue : List (Entry (Script α))} (ho : InOrder queue) (hplain : ∀ e ∈ queue, e.task.next = [])
    {x : Timer (Script α) × Past α} (h : Unwinds queue x) (moment : Nat) :
    Unwinds queue (Timer.runUntil recording moment x) := by
  refine runUntil_induction (fun x e t hx htake => ?_) (fun x hx hnone => ?_) h
  · obtain ⟨⟨rung, hpast, hsplit⟩, hahead⟩ := hx
    obtain ⟨rest, hq, -, rfl⟩ := takeDue_eq_some.mp htake
    rw [hq] at hsplit hahead
    have he : e ∈ queue := hsplit ▸ List.mem_append_right _ (List.mem_cons_self ..)
    have hnow : max x.1.now e.deadline = e.deadline := Nat.max_eq_right (hahead e (List.mem_cons_self ..))
    have hrest := (List.pairwise_cons.mp (List.pairwise_append.mp (hsplit ▸ ho)).2.1).1
    simp only [recording, hplain e he, List.foldl_nil, hnow]
    exact ⟨⟨rung ++ [e], by rw [hpast, List.map_append]; rfl, by rw [← hsplit, List.append_assoc]; rfl⟩, hrest⟩
  · obtain ⟨⟨rung, hpast, hsplit⟩, hahead⟩ := hx
    have hdue := lt_deadline_of_takeDue (List.pairwise_append.mp (hsplit ▸ ho)).2.1 hnone
    exact ⟨⟨rung, hpast, hsplit⟩, fun e he => Nat.max_le.mpr ⟨hahead e he, Nat.le_of_lt (hdue e he)⟩⟩

theorem runAll_byHand (requests : List (Request α)) : (Timer.runAll recording ((byHand requests).1, [])).2
    = (byHand requests).1.queue.map fun e => .fired e e.deadline := by
  obtain ⟨hneat, hnow, hasked⟩ := plain requests
  have hplain : ∀ e ∈ (byHand requests).1.queue, e.task.next = [] := by
    intro e he
    obtain ⟨value, htask, -⟩ := hasked e he
    rw [htask]
  have hstart : Unwinds (byHand requests).1.queue ((byHand requests).1, []) :=
    ⟨⟨[], rfl, rfl⟩, fun e _ => hnow ▸ Nat.zero_le _⟩
  have hend := runAll_induction (r := recording) (P := Unwinds (byHand requests).1.queue)
    (fun _ moment hx _ => hx.runUntil hneat.sorted.inOrder hplain moment) hstart
  obtain ⟨⟨rung, hpast, hsplit⟩, -⟩ := hend
  rw [queue_runAll, List.append_nil] at hsplit
  rw [hpast, hsplit]

theorem fired_byHand (requests : List (Request α)) :
    (Timer.runAll recording ((byHand requests).1, [])).2.fired = (byHand requests).1.queue := by
  rw [runAll_byHand]
  simp [Past.fired, List.filterMap_map, Function.comp_def, Deed.fired?]

theorem firings_byHand (requests : List (Request α)) : (Timer.runAll firing ((byHand requests).1, [])).2
    = (byHand requests).1.queue.map fun e => ⟨e.task.value, e.deadline⟩ := by
  have hforget := runAll_forget firing_recording ((byHand requests).1, [])
  have hfirings := congrArg Prod.snd hforget
  rw [runAll_byHand] at hfirings
  refine hfirings.trans ?_
  simp [Past.firings, List.filterMap_map, Function.comp_def, Deed.firing?]

/-! ## The channel -/

def takeIn (queue : List (Entry (Script α))) : Command α → List (Entry (Script α))
  | .enqueue e => insert e queue
  | .cancel id => queue.filter (·.id != id)

/-- What the heap is once everything in the channel was received. -/
def drained (w : WallClock α) : List (Entry (Script α)) := w.inbox.foldl takeIn w.queue

theorem perm_takeIn {p q : List (Entry (Script α))} (h : p.Perm q) (command : Command α) :
    (takeIn p command).Perm (takeIn q command) := by
  cases command with
  | enqueue e => exact ((insert_perm e p).trans (h.cons e)).trans (insert_perm e q).symm
  | cancel id => exact h.filter _

theorem perm_foldl_takeIn {p q : List (Entry (Script α))} (h : p.Perm q) (inbox : List (Command α)) :
    (inbox.foldl takeIn p).Perm (inbox.foldl takeIn q) := by
  induction inbox generalizing p q with
  | nil => exact h
  | cons command inbox ih => exact ih (perm_takeIn h command)

/-- An entry that no command cancels stays where it is. -/
theorem foldl_takeIn_cons {e : Entry (Script α)} {inbox : List (Command α)}
    (h : ∀ id, .cancel id ∈ inbox → e.id ≠ id) (heap : List (Entry (Script α))) :
    (inbox.foldl takeIn (e :: heap)).Perm (e :: inbox.foldl takeIn heap) := by
  induction inbox generalizing heap with
  | nil => exact .refl _
  | cons command inbox ih =>
    have hstep : (takeIn (e :: heap) command).Perm (e :: takeIn heap command) := by
      cases command with
      | enqueue x =>
        exact (insert_perm ..).trans ((List.Perm.swap ..).trans ((insert_perm x heap).symm.cons e))
      | cancel id =>
        have hid : (e.id != id) = true := bne_iff_ne.mpr (h id (List.mem_cons_self ..))
        simp only [takeIn, List.filter_cons, hid, if_true]
        exact .refl _
    exact (perm_foldl_takeIn hstep inbox).trans (ih (fun id hid => h id (List.mem_cons_of_mem _ hid)) _)

theorem mem_takeIn {x : Entry (Script α)} {command : Command α} {heap : List (Entry (Script α))}
    (h : x ∈ takeIn heap command) : x ∈ heap ∨ command = .enqueue x := by
  cases command with
  | enqueue e =>
    rcases mem_insert.mp h with rfl | h
    · exact .inr rfl
    · exact .inl h
  | cancel id => exact .inl (List.mem_filter.mp h).1

theorem mem_foldl_takeIn {x : Entry (Script α)} {inbox : List (Command α)} {heap : List (Entry (Script α))}
    (h : x ∈ inbox.foldl takeIn heap) : x ∈ heap ∨ .enqueue x ∈ inbox := by
  induction inbox generalizing heap with
  | nil => exact .inl h
  | cons command inbox ih =>
    rcases ih h with h | h
    · rcases mem_takeIn h with h | rfl
      · exact .inl h
      · exact .inr (List.mem_cons_self ..)
    · exact .inr (List.mem_cons_of_mem _ h)

/-- What was cancelled is gone, unless it is sent once more. -/
theorem enqueue_of_cancelled {x : Entry (Script α)} {inbox : List (Command α)} {heap : List (Entry (Script α))}
    (hcancel : .cancel x.id ∈ inbox) (h : x ∈ inbox.foldl takeIn heap) : .enqueue x ∈ inbox := by
  induction inbox generalizing heap with
  | nil => cases hcancel
  | cons command inbox ih =>
    rcases List.mem_cons.mp hcancel with rfl | hcancel
    · rw [List.foldl_cons] at h
      rcases mem_foldl_takeIn h with h | h
      · simp [takeIn] at h
      · exact List.mem_cons_of_mem _ h
    · exact List.mem_cons_of_mem _ (ih hcancel h)

def Command.entry? : Command α → Option (Entry (Script α))
  | .enqueue e => some e
  | .cancel _ => none

/-- What the thread holds, and what was sent to it. -/
def outstanding (w : WallClock α) : List (Entry (Script α)) := w.queue ++ w.inbox.filterMap Command.entry?

theorem mem_outstanding {w : WallClock α} {e : Entry (Script α)} :
    e ∈ outstanding w ↔ e ∈ w.queue ∨ .enqueue e ∈ w.inbox := by
  refine List.mem_append.trans (or_congr Iff.rfl ⟨fun h => ?_, fun h => List.mem_filterMap.mpr ⟨_, h, rfl⟩⟩)
  obtain ⟨command, hmem, hentry⟩ := List.mem_filterMap.mp h
  cases command with
  | enqueue x =>
    cases hentry
    exact hmem
  | cancel id => cases hentry

/-- A task that fires, and that nothing in the channel cancels, leaves what the channel makes of
    the others. -/
theorem drained_pop {w : WallClock α} (hnodup : (outstanding w).Nodup) {e : Entry (Script α)}
    {heap : List (Entry (Script α))} (hpop : w.queue.Perm (e :: heap)) (he : e ∈ drained w) :
    (drained w).Perm (e :: drained (withQueue w heap)) := by
  have hqueue : e ∈ w.queue := hpop.mem_iff.mpr (List.mem_cons_self ..)
  have hkept : ∀ id, .cancel id ∈ w.inbox → e.id ≠ id := by
    rintro id hid rfl
    have hsent : e ∈ w.inbox.filterMap Command.entry? :=
      List.mem_filterMap.mpr ⟨_, enqueue_of_cancelled hid he, rfl⟩
    exact (List.nodup_append.mp hnodup).2.2 e hqueue e hsent rfl
  exact (perm_foldl_takeIn hpop w.inbox).trans (foldl_takeIn_cons hkept heap)

/-- Receiving a command puts into the heap what was to be made of it. -/
theorem receive_eq (w : WallClock α) (command : Command α) :
    w.receive command = withQueue w (takeIn w.queue command) := by
  cases command <;> rfl

theorem fire_of_next_nil (w : WallClock α) {e : Entry (Script α)} (h : e.task.next = []) :
    w.fire e = { w with fired := w.fired ++ [⟨e.task.value, w.now⟩] } := by
  simp only [WallClock.fire, h, WallClock.performAll, List.foldl_nil]

/-- What a request puts into the channel. -/
def Request.commands (w : WallClock α) : Request α → List (Command α)
  | .scheduleAt deadline value =>
    if deadline ≤ w.horizon then [.enqueue ⟨deadline, w.registered + 1, ⟨value, []⟩⟩] else []
  | .cancel id => [.cancel id]

theorem send_eq (w : WallClock α) (r : Request α) : r.send w
    = { w with registered := w.registered + (r.id? w).toList.length, inbox := w.inbox ++ r.commands w } := by
  cases r with
  | cancel id => rfl
  | scheduleAt deadline value =>
    by_cases hd : deadline ≤ w.horizon
    · simp [Request.send, Request.commands, Request.id?, WallClock.scheduleAt, WallClock.send, hd]
    · simp [Request.send, Request.commands, Request.id?, WallClock.scheduleAt, hd]

/-- Both timers hand out the same ids. -/
theorem ask_ids {w : WallClock α} {x : Timer (Script α) × List Nat} (h : w.registered = x.1.registered)
    (r : Request α) : (r.ask x).2 = x.2 ++ (r.id? w).toList ∧
      (r.ask x).1.registered = x.1.registered + (r.id? w).toList.length := by
  cases r with
  | cancel id => exact ⟨(List.append_nil _).symm, rfl⟩
  | scheduleAt deadline value =>
    refine ⟨?_, rfl⟩
    simp only [Request.id?, h]
    rfl

/-- It does to the heap what the same request does by hand, but for what the clock cannot tell. -/
theorem perm_commands {requests : List (Request α)} {w : WallClock α} (r : Request α)
    (hregistered : w.registered = (byHand requests).1.registered) {heap : List (Entry (Script α))}
    (h : heap.Perm ((byHand requests).1.queue.filter (·.deadline ≤ w.horizon))) :
    ((r.commands w).foldl takeIn heap).Perm ((byHand (requests ++ [r])).1.queue.filter (·.deadline ≤ w.horizon)) := by
  rw [byHand_concat]
  cases r with
  | cancel id =>
    have hcancel := h.filter (·.id != id)
    rw [List.filter_filter] at hcancel
    simp only [Request.ask, Timer.cancel, List.filter_filter, Bool.and_comm]
    exact hcancel
  | scheduleAt deadline value =>
    have hinsert := (perm_scheduleAt (byHand requests).1 deadline ⟨value, []⟩).filter (·.deadline ≤ w.horizon)
    by_cases hd : deadline ≤ w.horizon
    · rw [List.filter_cons_of_pos (by simpa using hd)] at hinsert
      simp only [Request.commands, hd, if_true, List.foldl_cons, List.foldl_nil, takeIn, hregistered]
      exact ((insert_perm ..).trans (h.cons _)).trans hinsert.symm
    · rw [List.filter_cons_of_neg (by simpa using hd)] at hinsert
      simp only [Request.commands, hd, if_false, List.foldl_nil]
      exact h.trans hinsert.symm

/-- What the clock can tell of what waits by hand. -/
def told (requests : List (Request α)) (horizon : Nat) : List (Entry (Script α)) :=
  (byHand requests).1.queue.filter (·.deadline ≤ horizon)

theorem ranked_told (requests : List (Request α)) (horizon : Nat) : Ranked (told requests horizon) :=
  List.Pairwise.sublist List.filter_sublist (plain requests).neat.ranked

/-- In a ranking, the first is what may be on top. -/
theorem Ranked.onTop_iff {x e : Entry (Script α)} {rest heap : List (Entry (Script α))} (h : Ranked (x :: rest))
    (hheap : heap.Perm (x :: rest)) : OnTop heap e ↔ e = x := by
  have hafter := (List.pairwise_cons.mp h).1
  rw [Timer.onTop_iff]
  constructor
  · rintro ⟨he, htop⟩
    rcases List.mem_cons.mp (hheap.mem_iff.mp he) with he | he
    · exact he
    · exact absurd (hafter e he) (htop x (hheap.mem_iff.mpr (List.mem_cons_self ..)))
  · rintro rfl
    refine ⟨hheap.mem_iff.mpr (List.mem_cons_self ..), fun y hy hye => ?_⟩
    rw [before_iff] at hye
    rcases List.mem_cons.mp (hheap.mem_iff.mp hy) with rfl | hy
    · omega
    · have hey := before_iff.mp (hafter y hy)
      omega

namespace Clockwork

/-! ## Courses -/

/-- Whether what a move fires goes first also by what still lies in the channel. -/
def InTime (c d : Clockwork α) : Prop := ∀ e, d.rung = c.rung ++ [e] → OnTop (drained c.wall) e

/-- What the three can come to, with what fired although a command in the channel would have taken
    it off the heap, or put something on top of it. -/
inductive Course (requests : List (Request α)) (horizon now : Nat) : Clockwork α → List (Entry (Script α)) → Prop
  | start : Course requests horizon now (start requests horizon now) []
  | move {c d : Clockwork α} {late : List (Entry (Script α))} (h : Course requests horizon now c late)
      (hmoves : Moves requests c d) (htime : InTime c d) : Course requests horizon now d late
  | late {c d : Clockwork α} {late : List (Entry (Script α))} {e : Entry (Script α)}
      (h : Course requests horizon now c late) (hmoves : Moves requests c d) (hrung : d.rung = c.rung ++ [e])
      (hlate : ¬ OnTop (drained c.wall) e) : Course requests horizon now d (late ++ [e])

theorem exists_course {requests : List (Request α)} {horizon now : Nat} {c : Clockwork α}
    (h : ReflTransGen (Moves requests) (start requests horizon now) c) :
    ∃ late, Course requests horizon now c late := by
  induction h with
  | refl => exact ⟨[], .start⟩
  | @tail c d _ hmoves ih =>
    obtain ⟨late, hcourse⟩ := ih
    by_cases htime : InTime c d
    · exact ⟨late, hcourse.move hmoves htime⟩
    · simp only [InTime, not_forall] at htime
      obtain ⟨e, hrung, hlate⟩ := htime
      exact ⟨late ++ [e], hcourse.late hmoves hrung hlate⟩

/-! ## What every move keeps -/

/-- What is outstanding was asked for, once, and its ids were handed out. -/
structure Known (requests : List (Request α)) (w : WallClock α) : Prop where
  asked : ∀ e ∈ outstanding w, Asked requests e
  id_le : ∀ e ∈ outstanding w, e.id ≤ w.registered
  nodup : (outstanding w).Nodup

theorem Known.of_subperm {requests : List (Request α)} {v w : WallClock α} (h : Known requests w)
    (hregistered : w.registered ≤ v.registered) (hless : (outstanding v).Subperm (outstanding w)) :
    Known requests v where
  asked e he := h.asked e (hless.subset he)
  id_le e he := Nat.le_trans (h.id_le e (hless.subset he)) hregistered
  nodup := by
    obtain ⟨kept, hperm, hsublist⟩ := hless
    exact hperm.nodup_iff.mp (h.nodup.sublist hsublist)

theorem Known.concat {requests : List (Request α)} {v w : WallClock α} (h : Known requests w) {e : Entry (Script α)}
    (hmore : outstanding v = outstanding w ++ [e]) (hasked : Asked requests e) (hid : w.registered < e.id)
    (hregistered : e.id ≤ v.registered) : Known requests v := by
  have hone : ∀ x ∈ outstanding v, x ∈ outstanding w ∨ x = e := fun x hx =>
    (List.mem_append.mp (hmore ▸ hx)).imp_right List.mem_singleton.mp
  refine ⟨fun x hx => ?_, fun x hx => ?_, ?_⟩
  · rcases hone x hx with hx | rfl
    · exact h.asked x hx
    · exact hasked
  · rcases hone x hx with hx | rfl
    · have hle := h.id_le x hx
      omega
    · exact hregistered
  · rw [hmore]
    refine List.nodup_append.mpr ⟨h.nodup, List.pairwise_singleton .., fun x hx y hy hxy => ?_⟩
    have hle := h.id_le x hx
    rw [hxy, List.mem_singleton.mp hy] at hle
    omega

/-- A request leaves outstanding what was, and may add a task with the next id. -/
theorem Known.send {requests : List (Request α)} {w : WallClock α} (h : Known requests w) {r : Request α}
    (hr : r ∈ requests) : Known requests (r.send w) := by
  cases r with
  | cancel id =>
    refine h.of_subperm (Nat.le_refl _) ?_
    simp only [Request.send, WallClock.cancel, WallClock.send, outstanding, List.filterMap_append]
    exact (List.append_nil _ ▸ List.Subperm.refl _)
  | scheduleAt deadline value =>
    rw [send_eq]
    by_cases hd : deadline ≤ w.horizon
    · refine h.concat (e := ⟨deadline, w.registered + 1, ⟨value, []⟩⟩) ?_ ⟨value, rfl, hr⟩ (Nat.lt_succ_self _)
        (Nat.le_refl _)
      simp [outstanding, Request.commands, Command.entry?, hd]
    · refine h.of_subperm (Nat.le_add_right ..) ?_
      simp [outstanding, Request.commands, hd]
      exact List.Subperm.refl _

/-- How the two timers stand to each other when some of the requests were made. -/
structure Stands (requests : List (Request α)) (horizon : Nat) (asked : List (Request α)) (c : Clockwork α) : Prop where
  requests_eq : requests = asked ++ c.ahead
  ids : c.ids = (byHand asked).2
  registered : c.wall.registered = (byHand asked).1.registered
  horizon_eq : c.wall.horizon = horizon
  known : Known requests c.wall
  past : ∀ e ∈ c.rung, Asked requests e ∧ e.deadline ≤ c.wall.now
  reading : ∀ moment, c.doing = .firing moment → moment ≤ c.wall.now
  noted : c.wall.fired.map (·.value) = c.rung.map (·.task.value)

theorem stands_start (requests : List (Request α)) (horizon now : Nat) :
    Stands requests horizon [] (start requests horizon now) where
  requests_eq := rfl
  ids := rfl
  registered := rfl
  horizon_eq := rfl
  known := ⟨fun _ h => (nomatch h), fun _ h => (nomatch h), .nil⟩
  past _ h := nomatch h
  reading _ h := nomatch h
  noted := rfl

namespace Stands

variable {requests asked : List (Request α)} {horizon : Nat} {c d : Clockwork α}

theorem doing (h : Stands requests horizon asked c) {doing : Doing}
    (hreading : ∀ moment, doing = .firing moment → moment ≤ c.wall.now) :
    Stands requests horizon asked { c with doing := doing } := { h with reading := hreading }

theorem receive (h : Stands requests horizon asked c) {command : Command α} {rest : List (Command α)}
    (hinbox : c.wall.inbox = command :: rest) : Stands requests horizon asked
      { c with doing := .looking, wall := (withInbox c.wall rest).receive command } := by
  have hless : (outstanding ((withInbox c.wall rest).receive command)).Subperm (outstanding c.wall) := by
    rw [receive_eq, outstanding, outstanding, hinbox]
    cases command with
    | enqueue e => exact (((insert_perm e c.wall.queue).append_right _).trans List.perm_middle.symm).subperm
    | cancel id => exact (List.Sublist.append_right List.filter_sublist _).subperm
  have hknown := h.known.of_subperm (Nat.le_of_eq (by rw [receive_eq]; rfl)) hless
  rw [receive_eq] at hknown ⊢
  exact { h with known := hknown, reading := fun _ hdoing => nomatch hdoing }

theorem next_nil (h : Stands requests horizon asked c) {e : Entry (Script α)} (he : e ∈ c.wall.queue) :
    e.task.next = [] := by
  obtain ⟨value, htask, -⟩ := h.known.asked e (mem_outstanding.mpr (.inl he))
  rw [htask]

theorem fire (h : Stands requests horizon asked c) {moment : Nat} {e : Entry (Script α)}
    {heap : List (Entry (Script α))} (hdoing : c.doing = .firing moment) (he : OnTop c.wall.queue e)
    (hdue : e.deadline ≤ moment) (hpop : c.wall.queue.Perm (e :: heap)) : Stands requests horizon asked
      { c with wall := (withQueue c.wall heap).fire e, rung := c.rung ++ [e] } := by
  have hless : (outstanding (withQueue c.wall heap)).Subperm (outstanding c.wall) :=
    ((List.Sublist.append_right (List.sublist_cons_self e heap) _).subperm).trans (hpop.symm.append_right _).subperm
  have hnext : e.task.next = [] := h.next_nil he.1
  have hknown : Known requests ((withQueue c.wall heap).fire e) := by
    rw [fire_of_next_nil _ hnext]
    exact h.known.of_subperm (Nat.le_refl _) hless
  rw [fire_of_next_nil _ hnext] at hknown ⊢
  refine { h with known := hknown, past := fun r hr => ?_, noted := ?_ }
  · rcases List.mem_append.mp hr with hr | hr
    · exact h.past r hr
    · obtain rfl := List.mem_singleton.mp hr
      exact ⟨h.known.asked r (mem_outstanding.mpr (.inl he.1)), Nat.le_trans hdue (h.reading moment hdoing)⟩
  · rw [List.map_append, List.map_append, ← h.noted]
    rfl

theorem works (h : Stands requests horizon asked c) (hworks : Works c d) : Stands requests horizon asked d := by
  cases hworks with
  | idle => exact h.doing fun _ hdoing => nomatch hdoing
  | receive _ hinbox => exact h.receive hinbox
  | timeOut => exact h.doing fun _ hdoing => nomatch hdoing
  | begin =>
    refine h.doing fun moment hdoing => ?_
    cases hdoing
    exact Nat.le_refl _
  | fire hdoing he hdue hpop => exact h.fire hdoing he hdue hpop
  | finish => exact h.doing fun _ hdoing => nomatch hdoing

theorem clock (h : Stands requests horizon asked c) (moment : Nat) :
    Stands requests horizon asked { c with wall := c.wall.tick moment } :=
  { h with
    known := h.known.of_subperm (Nat.le_refl _) (List.Subperm.refl _)
    past := fun r hr => ⟨(h.past r hr).1, Nat.le_trans (h.past r hr).2 (Nat.le_max_left ..)⟩
    reading := fun reading hdoing => Nat.le_trans (h.reading reading hdoing) (Nat.le_max_left ..) }

/-- While clients ask, nothing has fired. -/
theorem rung_eq_nil (h : Stands requests horizon asked c) (hearly : Early requests c.wall.now) : c.rung = [] := by
  refine List.eq_nil_iff_forall_not_mem.mpr fun e he => ?_
  obtain ⟨⟨value, -, hmem⟩, hpast⟩ := h.past e he
  exact Nat.not_lt.mpr hpast (hearly _ value hmem)

theorem client (h : Stands requests horizon asked c) {r : Request α} {rest : List (Request α)}
    (hahead : c.ahead = r :: rest) (hearly : Early requests c.wall.now) :
    Stands requests horizon (asked ++ [r])
      { c with ahead := rest, ids := c.ids ++ (r.id? c.wall).toList, wall := r.send c.wall } := by
  have hrequests : requests = asked ++ r :: rest := hahead ▸ h.requests_eq
  have hr : r ∈ requests := hrequests ▸ List.mem_append_right _ (List.mem_cons_self ..)
  have hknown := h.known.send hr
  obtain ⟨hids, hregistered⟩ := ask_ids h.registered r
  have hnil := h.rung_eq_nil hearly
  rw [send_eq] at hknown ⊢
  refine { h with
    requests_eq := by rw [hrequests, List.append_assoc]; rfl, ids := ?_, registered := ?_, known := hknown, past := ?_ }
  · rw [byHand_concat, hids, h.ids]
  · rw [byHand_concat, hregistered, h.registered]
  · rw [hnil]
    exact fun _ he => nomatch he

end Stands

/-- What a move does to the tasks: it leaves them, it fires one, or it brings a request while none
    has fired. -/
inductive Outcome (requests : List (Request α)) (horizon : Nat) (asked : List (Request α)) (c d : Clockwork α) : Prop
  | leaves (hstands : Stands requests horizon asked d) (hrung : d.rung = c.rung)
      (hdrained : drained d.wall = drained c.wall)
  | fires {e : Entry (Script α)} (hstands : Stands requests horizon asked d) (hrung : d.rung = c.rung ++ [e])
      (hdrained : e ∈ drained c.wall → (drained c.wall).Perm (e :: drained d.wall))
  | asks {r : Request α} (hstands : Stands requests horizon (asked ++ [r]) d) (hnone : c.rung = [])
      (hrung : d.rung = [])
      (hdrained : drained d.wall = (r.commands c.wall).foldl takeIn (drained c.wall))

theorem Stands.moves {requests asked : List (Request α)} {horizon : Nat} {c d : Clockwork α}
    (h : Stands requests horizon asked c) (hmoves : Moves requests c d) : Outcome requests horizon asked c d := by
  cases hmoves with
  | clock moment => exact .leaves (h.clock moment) rfl rfl
  | client hahead hearly =>
    have hnil := h.rung_eq_nil hearly
    refine .asks (h.client hahead hearly) hnil hnil ?_
    simp only [send_eq, drained, List.foldl_append]
  | thread hworks =>
    have hstands := h.works hworks
    cases hworks with
    | @receive command rest _ hinbox =>
      refine .leaves hstands rfl ?_
      rw [receive_eq, drained, drained, hinbox]
      rfl
    | @fire _ e heap _ he _ hpop =>
      refine .fires hstands rfl fun hmem => ?_
      rw [fire_of_next_nil _ (h.next_nil he.1)]
      exact drained_pop h.known.nodup hpop hmem
    | _ => exact .leaves hstands rfl rfl

/-! ## In time, and late -/

/-- What has fired is how the queue by hand begins, as long as nothing fired late, and never again
    once something did. -/
structure Verdict (horizon : Nat) (asked : List (Request α)) (c : Clockwork α) (late : List (Entry (Script α))) :
    Prop where
  begins : late = [] → ∃ rest, c.rung ++ rest = told asked horizon ∧ (drained c.wall).Perm rest
  strays : late ≠ [] → ¬ c.rung <+: told asked horizon

namespace Verdict

variable {requests asked : List (Request α)} {horizon : Nat} {c d : Clockwork α} {late : List (Entry (Script α))}

theorem late_eq_nil (h : Verdict horizon asked c late) (hnone : c.rung = []) : late = [] := by
  by_contra hlate
  exact h.strays hlate (hnone ▸ List.nil_prefix)

/-- The queue by hand goes on with what is on top once the channel was drained. -/
theorem onTop_iff {rest : List (Entry (Script α))} (hsplit : c.rung ++ rest = told asked horizon)
    (hdrained : (drained c.wall).Perm rest) {e : Entry (Script α)} :
    OnTop (drained c.wall) e ↔ c.rung ++ [e] <+: told asked horizon := by
  rw [← hsplit, List.prefix_append_right_inj]
  have hranked : Ranked rest := (List.pairwise_append.mp (hsplit ▸ ranked_told asked horizon)).2.1
  cases rest with
  | nil =>
    rw [List.perm_nil.mp hdrained]
    simp [OnTop]
  | cons x rest => rw [hranked.onTop_iff hdrained, List.cons_prefix_cons, and_iff_left List.nil_prefix]

theorem move (h : Verdict horizon asked c late) (hstands : Stands requests horizon asked c)
    (hmoves : Moves requests c d) (htime : InTime c d) :
    ∃ asked', Stands requests horizon asked' d ∧ Verdict horizon asked' d late := by
  cases hstands.moves hmoves with
  | leaves hd hrung hdrained =>
    refine ⟨asked, hd, ?_, ?_⟩
    · rw [hrung, hdrained]
      exact h.begins
    · rw [hrung]
      exact h.strays
  | @fires e hd hrung hdrained =>
    refine ⟨asked, hd, fun hlate => ?_, fun hlate hprefix => ?_⟩
    -- In time, what fires is the first that is left of the queue by hand.
    · obtain ⟨rest, hsplit, hperm⟩ := h.begins hlate
      have htop := htime e hrung
      obtain ⟨rest', hgoes⟩ := (onTop_iff hsplit hperm).mp htop
      have hrest : rest = e :: rest' := by
        rw [← hsplit, List.append_assoc] at hgoes
        exact (List.append_cancel_left hgoes).symm
      refine ⟨rest', hrung ▸ hgoes, ?_⟩
      exact ((hdrained htop.1).symm.trans (hrest ▸ hperm)).cons_inv
    · exact h.strays hlate (((List.prefix_append c.rung [e]).trans (hrung ▸ hprefix)))
  | @asks r hd hnone hrung hdrained =>
    -- A request changes the queue by hand, but nothing has fired yet that would have to begin it.
    have hlate := h.late_eq_nil hnone
    refine ⟨asked ++ [r], hd, fun _ => ?_, fun hne => absurd hlate hne⟩
    obtain ⟨rest, hsplit, hperm⟩ := h.begins hlate
    rw [hnone, List.nil_append] at hsplit
    refine ⟨told (asked ++ [r]) horizon, by rw [hrung, List.nil_append], ?_⟩
    have hsent := perm_commands r hstands.registered (hstands.horizon_eq ▸ hsplit ▸ hperm)
    rw [hdrained]
    exact hstands.horizon_eq ▸ hsent

theorem stray (h : Verdict horizon asked c late) (hstands : Stands requests horizon asked c)
    (hmoves : Moves requests c d) {e : Entry (Script α)} (hrung : d.rung = c.rung ++ [e])
    (hlate : ¬ OnTop (drained c.wall) e) :
    ∃ asked', Stands requests horizon asked' d ∧ Verdict horizon asked' d (late ++ [e]) := by
  cases hstands.moves hmoves with
  | leaves _ hsame => simp [hsame] at hrung
  | asks _ hnone hsame => simp [hnone, hsame] at hrung
  | fires hd =>
    refine ⟨asked, hd, fun hnil => absurd hnil (by simp), fun _ hprefix => ?_⟩
    rw [hrung] at hprefix
    -- The first that comes late breaks the beginning; what follows cannot mend it.
    by_cases hfirst : late = []
    · obtain ⟨rest, hsplit, hperm⟩ := h.begins hfirst
      exact hlate ((onTop_iff hsplit hperm).mpr hprefix)
    · exact h.strays hfirst ((List.prefix_append c.rung [e]).trans hprefix)

end Verdict

theorem Course.verdict {requests : List (Request α)} {horizon now : Nat} {c : Clockwork α}
    {late : List (Entry (Script α))} (h : Course requests horizon now c late) :
    ∃ asked, Stands requests horizon asked c ∧ Verdict horizon asked c late := by
  induction h with
  | start => exact ⟨[], stands_start requests horizon now, fun _ => ⟨[], rfl, .refl _⟩, fun h => absurd rfl h⟩
  | move _ hmoves htime ih =>
    obtain ⟨asked, hstands, hverdict⟩ := ih
    exact hverdict.move hstands hmoves htime
  | late _ hmoves hrung hlate ih =>
    obtain ⟨asked, hstands, hverdict⟩ := ih
    exact hverdict.stray hstands hmoves hrung hlate

/-! ## At the end -/

/-- What has fired and which ids were handed out is what it is by hand, where everything is fired
    at the end, without what the clock cannot tell. -/
structure AsByHand (requests : List (Request α)) (horizon : Nat) (c : Clockwork α) : Prop where
  ids : c.ids = (byHand requests).2
  tasks : c.rung = (Timer.runAll recording ((byHand requests).1, [])).2.fired.filter (·.deadline ≤ horizon)
  values : c.wall.fired.map (·.value)
    = ((Timer.runAll firing ((byHand requests).1, [])).2.filter (·.now ≤ horizon)).map (·.value)

theorem asByHand_iff {requests : List (Request α)} {horizon : Nat} {c : Clockwork α}
    (h : Stands requests horizon requests c) : AsByHand requests horizon c ↔ c.rung = told requests horizon := by
  constructor
  · exact fun hsame => hsame.tasks.trans (by rw [fired_byHand]; rfl)
  · intro hrung
    refine ⟨h.ids, by rw [hrung, fired_byHand]; rfl, ?_⟩
    rw [h.noted, hrung, firings_byHand, List.filter_map, List.map_map]
    rfl

/-- At rest, once the clock has passed all that it can tell, nothing is left. -/
theorem drained_eq_nil {requests : List (Request α)} {horizon : Nat} {c : Clockwork α} (hrest : AtRest c)
    (hpassed : Passed requests horizon c.wall.now) {rest : List (Entry (Script α))}
    (hsplit : c.rung ++ rest = told requests horizon) (hperm : (drained c.wall).Perm rest) : rest = [] := by
  refine List.eq_nil_iff_forall_not_mem.mpr fun e he => ?_
  have hdrained : drained c.wall = c.wall.queue := by rw [drained, hrest.inbox, List.foldl_nil]
  have hwaits : e ∈ c.wall.queue := hdrained ▸ hperm.mem_iff.mpr he
  obtain ⟨hmem, htells⟩ := List.mem_filter.mp (hsplit ▸ List.mem_append_right c.rung he)
  obtain ⟨value, -, hrequest⟩ := (plain requests).asked e hmem
  have hdue : e.deadline ≤ c.wall.now := hpassed e.deadline value hrequest (of_decide_eq_true htells)
  have hidle := hrest.idle
  rw [dueBy, List.any_eq_false] at hidle
  exact hidle e hwaits (decide_eq_true hdue)

theorem Verdict.asByHand_iff {requests : List (Request α)} {horizon : Nat} {c : Clockwork α}
    {late : List (Entry (Script α))} (h : Verdict horizon requests c late)
    (hstands : Stands requests horizon requests c)
    (hrest : AtRest c) (hpassed : Passed requests horizon c.wall.now) : AsByHand requests horizon c ↔ late = [] := by
  rw [Clockwork.asByHand_iff hstands]
  constructor
  · intro hrung
    by_contra hlate
    exact h.strays hlate (hrung ▸ List.prefix_refl _)
  · intro hlate
    obtain ⟨rest, hsplit, hperm⟩ := h.begins hlate
    have hnil := drained_eq_nil hrest hpassed hsplit hperm
    rwa [hnil, List.append_nil] at hsplit

/-! ## The rounds of the thread -/

/-- A timer with a thread that got some requests and has received none. -/
def sent (requests : List (Request α)) (horizon now : Nat) : WallClock α :=
  requests.foldl Request.send (.start horizon now)

theorem now_send (w : WallClock α) (r : Request α) : (r.send w).now = w.now := by rw [send_eq]

theorem queue_send (w : WallClock α) (r : Request α) : (r.send w).queue = w.queue := by rw [send_eq]

theorem now_sent (requests : List (Request α)) (w : WallClock α) : (requests.foldl Request.send w).now = w.now := by
  induction requests generalizing w with
  | nil => rfl
  | cons r requests ih => exact (ih (r.send w)).trans (now_send w r)

theorem queue_sent (requests : List (Request α)) (w : WallClock α) :
    (requests.foldl Request.send w).queue = w.queue := by
  induction requests generalizing w with
  | nil => rfl
  | cons r requests ih => exact (ih (r.send w)).trans (queue_send w r)

theorem moves_sent {requests : List (Request α)} (ahead : List (Request α)) (ids : List Nat) {w : WallClock α}
    (hearly : Early requests w.now) :
    ∃ ids', ReflTransGen (Moves requests) ⟨ahead, ids, w, .looking, []⟩
      ⟨[], ids', ahead.foldl Request.send w, .looking, []⟩ := by
  induction ahead generalizing ids w with
  | nil => exact ⟨ids, .refl⟩
  | cons r ahead ih =>
    obtain ⟨ids', hrest⟩ := ih (ids ++ (r.id? w).toList) (w := r.send w) ((now_send w r).symm ▸ hearly)
    exact ⟨ids', .head (.client rfl hearly) hrest⟩

/-- While nobody asks and the channel is empty, nothing comes late. -/
theorem Course.move_of_inbox_nil {requests : List (Request α)} {horizon now : Nat} {c d : Clockwork α}
    {late : List (Entry (Script α))} (h : Course requests horizon now c late) (hahead : c.ahead = [])
    (hinbox : c.wall.inbox = []) (hmoves : Moves requests c d) :
    Course requests horizon now d late ∧ d.ahead = [] ∧ d.wall.inbox = [] := by
  obtain ⟨asked, hstands, -⟩ := h.verdict
  have hdrained : drained c.wall = c.wall.queue := by rw [drained, hinbox, List.foldl_nil]
  have hquiet : d.rung = c.rung → InTime c d := fun hsame e hrung => by simp [hsame] at hrung
  cases hmoves with
  | client hask => cases hahead.symm.trans hask
  | clock moment => exact ⟨h.move (.clock moment) (hquiet rfl), hahead, hinbox⟩
  | thread hworks =>
    cases hworks with
    | receive _ hcommand => cases hinbox.symm.trans hcommand
    | @fire moment e heap hdoing he hdue hpop =>
      refine ⟨h.move (.thread (.fire hdoing he hdue hpop)) fun x hrung => ?_, hahead, ?_⟩
      · obtain rfl : e = x := by simpa using hrung
        exact hdrained ▸ he
      · rw [fire_of_next_nil _ (hstands.next_nil he.1)]
        exact hinbox
    | idle hdoing hdue => exact ⟨h.move (.thread (.idle hdoing hdue)) (hquiet rfl), hahead, hinbox⟩
    | timeOut hdoing he hdue => exact ⟨h.move (.thread (.timeOut hdoing he hdue)) (hquiet rfl), hahead, hinbox⟩
    | begin hdoing he hdue => exact ⟨h.move (.thread (.begin hdoing he hdue)) (hquiet rfl), hahead, hinbox⟩
    | finish hdoing hdue => exact ⟨h.move (.thread (.finish hdoing hdue)) (hquiet rfl), hahead, hinbox⟩

theorem Course.moves_of_inbox_nil {requests : List (Request α)} {horizon now : Nat} {c d : Clockwork α}
    {late : List (Entry (Script α))} (h : Course requests horizon now c late) (hahead : c.ahead = [])
    (hinbox : c.wall.inbox = []) (hmoves : ReflTransGen (Moves requests) c d) :
    Course requests horizon now d late ∧ d.ahead = [] ∧ d.wall.inbox = [] := by
  induction hmoves with
  | refl => exact ⟨h, hahead, hinbox⟩
  | tail _ hmove ih => exact ih.1.move_of_inbox_nil ih.2.1 ih.2.2 hmove

/-- Before any deadline, nothing fires, in time or late. -/
theorem Course.late_eq_nil {requests : List (Request α)} {horizon now : Nat} {c : Clockwork α}
    {late : List (Entry (Script α))} (h : Course requests horizon now c late) (hearly : Early requests c.wall.now) :
    late = [] := by
  obtain ⟨asked, hstands, hverdict⟩ := h.verdict
  exact hverdict.late_eq_nil (hstands.rung_eq_nil hearly)

theorem now_works_all {c d : Clockwork α} (h : ReflTransGen Works c d) : d.wall.now = c.wall.now := by
  induction h with
  | refl => rfl
  | tail _ hworks ih => exact (now_works hworks).trans ih

/-- One of the courses: everything is sent, the thread receives it, and then the clock goes from
    deadline to deadline. -/
theorem course_rounds {requests : List (Request α)} (horizon : Nat) {now : Nat} (moment : Nat)
    (hearly : Early requests now) :
    ∃ ids rung, Course requests horizon now
        ⟨[], ids, ((sent requests horizon now).settle.runUntil moment).tick moment, .waiting, rung⟩ [] ∧
      AtRest ⟨[], ids, ((sent requests horizon now).settle.runUntil moment).tick moment, .waiting, rung⟩ := by
  have hs : Sorted (sent requests horizon now).queue := by
    rw [sent, queue_sent]
    exact .nil
  obtain ⟨ids, hsent⟩ := moves_sent requests [] (w := .start horizon now) hearly
  obtain ⟨received, hsettle, hsettled⟩ := works_settle [] ids [] hs
  obtain ⟨rung, hwake, hrest⟩ := moves_runUntil [] ids received requests moment (sorted_settle hs) hsettled
  obtain ⟨late, hcourse⟩ := exists_course (hsent.trans (moves_of_works hsettle))
  have hnow : (sent requests horizon now).settle.now = now := (now_works_all hsettle).trans (now_sent requests _)
  have hlate : late = [] := hcourse.late_eq_nil (hnow.symm ▸ hearly)
  subst hlate
  exact ⟨ids, rung, (hcourse.moves_of_inbox_nil rfl hsettled.inbox hwake).1, hrest⟩

/-! ## Every course -/

/-- Whatever clients ask of a timer with a thread before its clock reaches any deadline that they
    ask for, and however the three take turns: the ids are at every moment those that the timer
    moved by hand gives out; and once the clock has passed all that it can tell, the thread comes
    to rest, whichever way it goes. Then the same tasks have fired as by hand, in the same order,
    without those that the clock cannot tell, exactly if none fired late. -/
theorem agrees_iff_none_late {requests : List (Request α)} {horizon now : Nat} {c : Clockwork α}
    {late : List (Entry (Script α))} (h : Course requests horizon now c late) :
    (∃ asked, requests = asked ++ c.ahead ∧ c.ids = (byHand asked).2) ∧
      (c.ahead = [] → Passed requests horizon c.wall.now →
        Acc (fun e d : Clockwork α => Works d e) c ∧ (∃ d, ReflTransGen Works c d ∧ AtRest d) ∧
          (AtRest c → (AsByHand requests horizon c ↔ late = []))) := by
  obtain ⟨asked, hstands, hverdict⟩ := h.verdict
  refine ⟨⟨asked, hstands.requests_eq, hstands.ids⟩, fun hahead hpassed => ?_⟩
  refine ⟨works_acc c, comes_to_rest c, fun hrest => ?_⟩
  obtain rfl : requests = asked := by rw [hstands.requests_eq, hahead, List.append_nil]
  exact hverdict.asByHand_iff hstands hrest hpassed

/-- Tasks with one deadline, of which one is cancelled, one that falls due before them, and one
    that the clock cannot tell. -/
theorem agrees_on_ties :
    let requests : List (Request Nat) := [.scheduleAt 5 1, .scheduleAt 3 2, .scheduleAt 5 3, .cancel 1, .cancel 1,
      .scheduleAt 99 4, .scheduleAt 5 5, .cancel 9]
    ∃ c, Course requests 50 0 c [] ∧ c.ahead = [] ∧ AtRest c ∧
      c.ids = [1, 2, 3, 4, 5] ∧ c.wall.fired.map (·.value) = [2, 3, 5] := by
  intro requests
  have hearly : Early requests 0 := by
    intro deadline value h
    simp [requests] at h
    omega
  obtain ⟨ids, rung, hcourse, hrest⟩ := course_rounds 50 50 hearly
  have hpassed : Passed requests 50 (((sent requests 50 0).settle.runUntil 50).tick 50).now :=
    fun deadline _ _ htells => Nat.le_trans htells (Nat.le_max_right ..)
  obtain ⟨-, -, hagrees⟩ := (agrees_iff_none_late hcourse).2 rfl hpassed
  have hend := (hagrees hrest).mpr rfl
  refine ⟨_, hcourse, rfl, hrest, hend.ids.trans rfl, ?_⟩
  rw [hend.values, firings_byHand]
  decide

/-- A task and its cancellation are sent before the deadline, and the thread has received the
    first when the clock reaches it: the task fires, and then the thread receives the second. -/
theorem fires_though_cancelled :
    let requests : List (Request Nat) := [.scheduleAt 10 7, .cancel 1]
    ∃ c, ReflTransGen (Moves requests) (start requests 50 0) c ∧ c.ahead = [] ∧ Passed requests 50 c.wall.now ∧
      AtRest c ∧ c.wall.fired.map (·.value) = [7] ∧ (Timer.runAll firing ((byHand requests).1, [])).2 = [] ∧
      ¬ AsByHand requests 50 c := by
  intro requests
  have hearly : Early requests 0 := by
    intro deadline value h
    simp [requests] at h
    omega
  let e : Entry (Script Nat) := ⟨10, 1, ⟨7, []⟩⟩
  have htop : OnTop [e] e := ⟨List.mem_singleton_self e, fun x hx => by rw [List.mem_singleton.mp hx]; decide⟩
  have hnone : ∀ {moment : Nat} (x : Entry (Script Nat)), OnTop [] x → moment < x.deadline := fun x hx => nomatch hx.1
  -- Both are in the channel, and the thread takes the first.
  let sent : Clockwork Nat := ⟨[], [1], ⟨50, 0, 1, [.enqueue e, .cancel 1], [], []⟩, .waiting, []⟩
  let held : Clockwork Nat := ⟨[], [1], ⟨50, 0, 1, [.cancel 1], [e], []⟩, .looking, []⟩
  have hsent : ReflTransGen (Moves requests) (start requests 50 0) sent :=
    .head (.client rfl hearly) <| .head (.client rfl hearly) <| .single (.thread (.idle rfl hnone))
  have hheld : Works sent held := @Works.receive Nat sent (.enqueue e) [.cancel 1] rfl rfl
  -- The clock passes the deadline, and the thread looks at its heap before it looks at the channel.
  let fired : Clockwork Nat := ⟨[], [1], ⟨50, 12, 1, [.cancel 1], [], [⟨7, 12⟩]⟩, .waiting, [e]⟩
  let late : Clockwork Nat := ⟨[], [1], ⟨50, 12, 1, [], [], [⟨7, 12⟩]⟩, .looking, [e]⟩
  have hfired : ReflTransGen (Moves requests) held fired :=
    .head (.clock 12) <| .head (.thread (.begin rfl htop (by decide))) <|
      .head (.thread (.fire rfl htop (by decide) (.refl _))) <| .head (.thread (.finish rfl hnone)) <|
      .single (.thread (.idle rfl hnone))
  have hlate : Works fired late := @Works.receive Nat fired (.cancel 1) [] rfl rfl
  have hall : ReflTransGen (Moves requests) (start requests 50 0) { late with doing := .waiting } :=
    (hsent.trans (.head (.thread hheld) hfired)).trans (.head (.thread hlate) (.single (.thread (.idle rfl hnone))))
  have hhand : (Timer.runAll firing ((byHand requests).1, [])).2 = [] := firings_byHand requests
  refine ⟨_, hall, rfl, ?_, ⟨rfl, rfl, rfl⟩, rfl, hhand, fun hsame => ?_⟩
  · intro deadline value h _
    have hten : deadline = 10 ∧ value = 7 := by simpa [requests] using h
    show deadline ≤ 12
    omega
  · have hvalues := hsame.values
    rw [hhand] at hvalues
    cases hvalues

end Clockwork

end Ostinato.Timer
