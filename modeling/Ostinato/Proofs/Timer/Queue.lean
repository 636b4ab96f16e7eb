import Ostinato.Timer.Basic

/-!
  Ostinato.Proofs.Timer.Queue: what registering and cancelling do to a timer's queue.

  A task registered anew has a larger id than every task that waits, so it goes after those
  of its own deadline (`insert_append`); cancelling takes out exactly the ids named
  (`queue_cancelAll`). A queue in the order of its deadlines stays in it
  (`inOrder_scheduleAll`), and a `Neat` timer, whose queue is sorted by deadline and id, with
  ids of its own, stays neat.
-/

namespace Ostinato.Timer

variable {τ : Type}

/-! ## One task -/

/-- An entry goes between those that it does not precede and those that it precedes. -/
theorem insert_append {e : Entry τ} {p r : List (Entry τ)} (hp : ∀ x ∈ p, e.before x = false)
    (hr : ∀ x ∈ r, e.before x = true) : insert e (p ++ r) = p ++ e :: r := by
  induction p with
  | nil =>
    cases r with
    | nil => rfl
    | cons x r => simp [insert, hr x (List.mem_cons_self ..)]
  | cons x p ih =>
    have hx := hp x (List.mem_cons_self ..)
    have := ih fun y hy => hp y (List.mem_cons_of_mem _ hy)
    simp [insert, hx, this]

theorem mem_insert {e x : Entry τ} {q : List (Entry τ)} : x ∈ insert e q ↔ x = e ∨ x ∈ q := by
  rw [(insert_perm e q).mem_iff, List.mem_cons]

@[simp] theorem now_scheduleAt (t : Timer τ) (deadline : Nat) (task : τ) :
    (t.scheduleAt deadline task).now = t.now := rfl

@[simp] theorem registered_scheduleAt (t : Timer τ) (deadline : Nat) (task : τ) :
    (t.scheduleAt deadline task).registered = t.registered + 1 := rfl

theorem perm_scheduleAt (t : Timer τ) (deadline : Nat) (task : τ) :
    (t.scheduleAt deadline task).queue.Perm (⟨deadline, t.nextId, task⟩ :: t.queue) :=
  insert_perm ..

/-! ## Several tasks -/

def scheduleAll (t : Timer τ) (tasks : List (Nat × τ)) : Timer τ :=
  tasks.foldl (fun t x => t.scheduleAt x.1 x.2) t

@[simp] theorem now_scheduleAll (t : Timer τ) (tasks : List (Nat × τ)) : (t.scheduleAll tasks).now = t.now := by
  induction tasks generalizing t with
  | nil => rfl
  | cons x tasks ih => exact (ih _).trans (now_scheduleAt ..)

@[simp] theorem registered_scheduleAll (t : Timer τ) (tasks : List (Nat × τ)) :
    (t.scheduleAll tasks).registered = t.registered + tasks.length := by
  induction tasks generalizing t with
  | nil => rfl
  | cons x tasks ih =>
    show ((t.scheduleAt x.1 x.2).scheduleAll tasks).registered = _
    rw [ih, registered_scheduleAt, List.length_cons]
    omega

theorem perm_scheduleAll (t : Timer τ) (tasks : List (Nat × τ)) :
    ((t.scheduleAll tasks).queue.map (·.task)).Perm (t.queue.map (·.task) ++ tasks.map (·.2)) := by
  induction tasks generalizing t with
  | nil => simp [scheduleAll]
  | cons x tasks ih =>
    show (((t.scheduleAt x.1 x.2).scheduleAll tasks).queue.map (·.task)).Perm _
    refine (ih _).trans ?_
    have h := ((perm_scheduleAt t x.1 x.2).map (·.task)).append_right (tasks.map (·.2))
    refine h.trans ?_
    rw [List.map_cons, List.map_cons]
    exact List.perm_middle.symm

theorem scheduleAll_concat (t : Timer τ) (tasks : List (Nat × τ)) (x : Nat × τ) :
    t.scheduleAll (tasks ++ [x]) = (t.scheduleAll tasks).scheduleAt x.1 x.2 :=
  List.foldl_append ..

/-- What waits once tasks were registered: what waited before, and they with ids handed out since. -/
theorem mem_scheduleAll {t : Timer τ} {tasks : List (Nat × τ)} {e : Entry τ} (h : e ∈ (t.scheduleAll tasks).queue) :
    e ∈ t.queue ∨ (e.deadline, e.task) ∈ tasks ∧ e.id ∈ List.range' t.nextId tasks.length := by
  induction tasks generalizing t with
  | nil => exact Or.inl h
  | cons x tasks ih =>
    rcases ih (t := t.scheduleAt x.1 x.2) h with h | ⟨hx, hid⟩
    · rcases mem_insert.mp h with rfl | h
      · right
        simp
      · exact Or.inl h
    · right
      refine ⟨List.mem_cons_of_mem _ hx, ?_⟩
      simp only [List.mem_range'_1, List.length_cons, nextId, registered_scheduleAt] at hid ⊢
      omega

/-- No id that waits was handed out later than the last one. -/
theorem id_le_scheduleAll {t : Timer τ} (h : ∀ e ∈ t.queue, e.id ≤ t.registered) (tasks : List (Nat × τ)) :
    ∀ e ∈ (t.scheduleAll tasks).queue, e.id ≤ (t.scheduleAll tasks).registered := by
  intro e he
  rw [registered_scheduleAll]
  rcases mem_scheduleAll he with he | ⟨-, hid⟩
  · exact Nat.le_add_right_of_le (h e he)
  · have hrange := List.mem_range'_1.mp hid
    simp only [nextId] at hrange
    omega

/-! ## Order -/

/-- No entry is due before one that stands ahead of it. -/
def InOrder (q : List (Entry τ)) : Prop := q.Pairwise fun a b => a.deadline ≤ b.deadline

theorem inOrder_insert {q : List (Entry τ)} (h : InOrder q) (e : Entry τ) : InOrder (insert e q) := by
  induction q with
  | nil => exact List.pairwise_singleton ..
  | cons x xs ih =>
    obtain ⟨hx, hxs⟩ := List.pairwise_cons.mp h
    unfold insert
    by_cases hb : e.before x = true
    · rw [if_pos hb]
      have hle : e.deadline ≤ x.deadline := by
        simp only [Entry.before, Bool.or_eq_true, Bool.and_eq_true, decide_eq_true_eq, beq_iff_eq] at hb
        omega
      refine List.pairwise_cons.mpr ⟨fun y hy => ?_, h⟩
      rcases List.mem_cons.mp hy with rfl | hy
      · exact hle
      · exact Nat.le_trans hle (hx y hy)
    · rw [if_neg hb]
      have hle : x.deadline ≤ e.deadline := by
        simp only [Entry.before, Bool.or_eq_true, Bool.and_eq_true, decide_eq_true_eq, beq_iff_eq] at hb
        omega
      refine List.pairwise_cons.mpr ⟨fun y hy => ?_, ih hxs⟩
      rcases mem_insert.mp hy with rfl | hy
      · exact hle
      · exact hx y hy

theorem inOrder_scheduleAll {t : Timer τ} (h : InOrder t.queue) (tasks : List (Nat × τ)) :
    InOrder (t.scheduleAll tasks).queue := by
  induction tasks generalizing t with
  | nil => exact h
  | cons x tasks ih => exact ih (t := t.scheduleAt x.1 x.2) (inOrder_insert h _)

/-! ## Rank -/

theorem before_iff {a b : Entry τ} :
    a.before b = true ↔ a.deadline < b.deadline ∨ a.deadline = b.deadline ∧ a.id < b.id := by
  simp [Entry.before]

theorem before_trans {a b c : Entry τ} (hab : a.before b = true) (hbc : b.before c = true) : a.before c = true := by
  rw [before_iff] at hab hbc ⊢
  omega

theorem deadline_le_of_not_before {a b : Entry τ} (h : ¬ b.before a = true) : a.deadline ≤ b.deadline := by
  rw [before_iff] at h
  omega

/-- No entry falls due before one that stands ahead of it. -/
def Sorted (q : List (Entry τ)) : Prop := q.Pairwise fun a b => ¬ b.before a = true

theorem Sorted.inOrder {q : List (Entry τ)} (h : Sorted q) : InOrder q := List.Pairwise.imp deadline_le_of_not_before h

theorem sorted_insert {q : List (Entry τ)} (h : Sorted q) (e : Entry τ) : Sorted (insert e q) := by
  induction q with
  | nil => exact List.pairwise_singleton ..
  | cons x xs ih =>
    obtain ⟨hx, hxs⟩ := List.pairwise_cons.mp h
    unfold insert
    by_cases hb : e.before x = true
    · rw [if_pos hb]
      refine List.pairwise_cons.mpr ⟨fun y hy hye => ?_, h⟩
      have hyx : y.before x = true := before_trans hye hb
      rcases List.mem_cons.mp hy with rfl | hy
      · rw [before_iff] at hyx
        omega
      · exact hx y hy hyx
    · rw [if_neg hb]
      refine List.pairwise_cons.mpr ⟨fun y hy => ?_, ih hxs⟩
      rcases mem_insert.mp hy with rfl | hy
      · exact hb
      · exact hx y hy

/-- Every entry falls due before those behind it. -/
def Ranked (q : List (Entry τ)) : Prop := q.Pairwise fun a b => a.before b = true

/-- Of two entries with ids of their own, one falls due before the other. -/
theorem Sorted.ranked {q : List (Entry τ)} (h : Sorted q) (hid : (q.map (·.id)).Nodup) : Ranked q := by
  refine (h.and (List.pairwise_map.mp hid)).imp fun {a b} hab => ?_
  obtain ⟨hbefore, hne⟩ := hab
  rw [before_iff] at hbefore ⊢
  omega

/-- The queue is sorted, and each of its ids was handed out and stands there once. -/
structure Neat (t : Timer τ) : Prop where
  sorted : Sorted t.queue
  id_le : ∀ e ∈ t.queue, e.id ≤ t.registered
  nodup : (t.queue.map (·.id)).Nodup

namespace Neat

variable {t u : Timer τ}

theorem start : Neat (Timer.start : Timer τ) := ⟨.nil, by simp [Timer.start], .nil⟩

theorem ranked (h : Neat t) : Ranked t.queue := h.sorted.ranked h.nodup

theorem scheduleAt (h : Neat t) (deadline : Nat) (task : τ) : Neat (t.scheduleAt deadline task) := by
  have hfresh : ∀ x ∈ t.queue, x.id ≠ t.nextId := fun x hx => Nat.ne_of_lt (Nat.lt_succ_of_le (h.id_le x hx))
  refine ⟨sorted_insert h.sorted _, fun e he => ?_, ?_⟩
  · rcases mem_insert.mp he with rfl | he
    · exact Nat.le_refl _
    · exact Nat.le_succ_of_le (h.id_le e he)
  · rw [((perm_scheduleAt t deadline task).map _).nodup_iff, List.map_cons, List.nodup_cons]
    refine ⟨fun hmem => ?_, h.nodup⟩
    obtain ⟨x, hx, hid⟩ := List.mem_map.mp hmem
    exact hfresh x hx hid

/-- Nothing but registering puts entries into the queue. -/
theorem of_sublist (h : Neat t) (hr : u.registered = t.registered) (hq : u.queue.Sublist t.queue) : Neat u :=
  ⟨List.Pairwise.sublist hq h.sorted, fun e he => hr ▸ h.id_le e (hq.subset he), h.nodup.sublist (hq.map _)⟩

theorem cancel (h : Neat t) (id : Nat) : Neat (t.cancel id) := h.of_sublist rfl List.filter_sublist

end Neat

/-! ## Cancelling -/

theorem queue_cancelAll (t : Timer τ) (ids : List Nat) :
    (t.cancelAll ids).queue = t.queue.filter fun e => !ids.contains e.id := by
  induction ids generalizing t with
  | nil => exact (List.filter_eq_self.mpr fun _ _ => rfl).symm
  | cons id ids ih =>
    show ((t.cancel id).cancelAll ids).queue = _
    rw [ih, cancel, List.filter_filter]
    refine List.filter_congr fun e _ => ?_
    simp only [List.contains_cons, Bool.not_or, bne, Bool.and_comm]

@[simp] theorem now_cancelAll (t : Timer τ) (ids : List Nat) : (t.cancelAll ids).now = t.now := by
  induction ids generalizing t with
  | nil => rfl
  | cons id ids ih => exact (ih (t.cancel id)).trans rfl

@[simp] theorem registered_cancelAll (t : Timer τ) (ids : List Nat) :
    (t.cancelAll ids).registered = t.registered := by
  induction ids generalizing t with
  | nil => rfl
  | cons id ids ih => exact (ih (t.cancel id)).trans rfl

end Ostinato.Timer
