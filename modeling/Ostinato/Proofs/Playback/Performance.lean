import Mathlib.Data.List.Induction
import Ostinato.Proofs.Playback.Recording
import Ostinato.Proofs.Playback.Timetable

/-!
  Ostinato.Proofs.Playback.Performance: what an uninterrupted playback delivers, and when.

  While a playback goes on, its agenda falls into the cues that have passed and those to come,
  and the timer's queue has the tasks of the latter in the agenda's order, without the stops
  of notes that have not started: `Stands`. A firing takes the first cue to come (`Stands.fire`), because a stop registered
  on the way goes to its place in the agenda (`queue_after`).

  `events_of_playback`: run to its end in whatever way, a playback delivers its timetable and
  then its end, each at its reading.
-/

namespace Ostinato.Playback

open Score

/-! ## The tasks of the cues to come -/

namespace Cue

variable (origin : Nat) (notes : List Note) (number : Nat)

def task : Cue → Task
  | on _ n => .start number n
  | close => .close number
  | off _ n => .stop number n

/-- What stands on the timer for a cue. -/
def slot (c : Cue) : Nat × Task := (c.due origin notes, c.task number)

/-- Whether the task of a cue is registered, given the cues that have passed. -/
def ready (done : List Cue) : Cue → Bool
  | off i n => decide (.on i n ∈ done)
  | _ => true

/-- What is delivered at a cue, and when. -/
def delivery? (c : Cue) : Option (Nat × Event) := c.event?.map (c.due origin notes, ·)

end Cue

def slotOf (e : Timer.Entry Task) : Nat × Task := (e.deadline, e.task)

variable {origin number : Nat} {notes : List Note} {done rest : List Cue} {c : Cue}

@[simp] theorem session_task (c : Cue) : (c.task number).session = number := by
  cases c <;> rfl

@[simp] theorem event?_task (c : Cue) : (c.task number).event? = c.event? := by
  cases c <;> rfl

/-- The next cue has its task registered, for a note has started before it stops. -/
theorem ready_next (hn : ∀ n ∈ notes, n.start ≤ maxMillis) (h : agenda origin notes = done ++ c :: rest) :
    c.ready done = true := by
  cases c with
  | on i n => rfl
  | close => rfl
  | off i n =>
    have ho : Cue.Ordered origin notes (done ++ .off i n :: rest) := h ▸ agenda_ordered
    have hmem : Cue.off i n ∈ agenda origin notes := h ▸ List.mem_append_right _ (List.mem_cons_self ..)
    have hget : notes[i]? = some n := by
      rcases mem_agenda.mp hmem with hc | hc
      · cases hc
      · exact mem_cuesOf_off.mp hc
    have hon : Cue.on i n ∈ agenda origin notes := mem_agenda.mpr (.inr (mem_cuesOf_on.mpr hget))
    refine decide_eq_true (ho.mem_before.mpr ⟨h ▸ hon, on_before_off (hn n (List.mem_of_getElem? hget))⟩)

theorem slots_eq_nil (hn : ∀ n ∈ notes, n.start ≤ maxMillis) (h : agenda origin notes = done ++ rest)
    {q : List (Timer.Entry Task)}
    (hq : q.map slotOf = (rest.filter (Cue.ready done)).map (Cue.slot origin notes number)) : q = [] ↔ rest = [] := by
  constructor
  · rintro rfl
    cases rest with
    | nil => rfl
    | cons c rest =>
      rw [List.filter_cons_of_pos (ready_next hn h)] at hq
      cases hq
  · rintro rfl
    exact List.map_eq_nil_iff.mp hq

theorem due_last (hn : ∀ n ∈ notes, n.start ≤ maxMillis) (h : agenda origin notes = done ++ [c]) :
    c.due origin notes = timeOf origin (endOf notes) := by
  refine Nat.le_antisymm (due_le_end hn (h ▸ List.mem_append_right _ (List.mem_singleton_self _))) ?_
  have ho : Cue.Ordered origin notes (done ++ [c]) := h ▸ agenda_ordered
  have hclose : Cue.close ∈ done ++ [c] := h ▸ mem_agenda.mpr (.inl rfl)
  rcases List.mem_append.mp hclose with hc | hc
  · exact Cue.due_le_of_key_lt (ho.mem_before.mp hc).2
  · rw [← List.mem_singleton.mp hc]
    exact Nat.le_refl _

/-- An entry goes to the place of its cue, if what comes after it in the agenda is due later. -/
theorem slots_insert {q : List (Timer.Entry Task)} {p r : List Cue} {id : Nat}
    (ho : Cue.Ordered origin notes (p ++ c :: r))
    (hq : q.map slotOf = (p ++ r).map (Cue.slot origin notes number)) (hid : ∀ x ∈ q, x.id < id)
    (hr : ∀ b ∈ r, b.due origin notes ≠ c.due origin notes) :
    (Timer.insert ⟨c.due origin notes, id, c.task number⟩ q).map slotOf
      = (p ++ c :: r).map (Cue.slot origin notes number) := by
  rw [List.map_append] at hq
  obtain ⟨q1, q2, rfl, hq1, hq2⟩ := List.map_eq_append_iff.mp hq
  -- an earlier entry has a reading no later and, of equal readings, a lower id
  have hbefore : ∀ x ∈ q1, Timer.Entry.before ⟨c.due origin notes, id, c.task number⟩ x = false := by
    intro x hx
    have hm : slotOf x ∈ p.map (Cue.slot origin notes number) := hq1 ▸ List.mem_map_of_mem hx
    obtain ⟨b, hb, hbx⟩ := List.mem_map.mp hm
    have hle := Cue.due_le_of_key_lt (ho.mem_before.mp hb).2
    have hd : b.due origin notes = x.deadline := congrArg Prod.fst hbx
    have hlt := hid x (List.mem_append_left _ hx)
    simp only [Timer.Entry.before, Bool.or_eq_false_iff, Bool.and_eq_false_iff, decide_eq_false_iff_not, beq_eq_false_iff_ne]
    omega
  have hafter : ∀ x ∈ q2, Timer.Entry.before ⟨c.due origin notes, id, c.task number⟩ x = true := by
    intro x hx
    have hm : slotOf x ∈ r.map (Cue.slot origin notes number) := hq2 ▸ List.mem_map_of_mem hx
    obtain ⟨b, hb, hbx⟩ := List.mem_map.mp hm
    have hle := Cue.due_le_of_key_lt (ho.mem_after.mp hb).2
    have hd : b.due origin notes = x.deadline := congrArg Prod.fst hbx
    have hne := hr b hb
    simp only [Timer.Entry.before, Bool.or_eq_true, decide_eq_true_eq]
    omega
  rw [Timer.insert_append hbefore hafter, List.map_append, List.map_cons, hq1, hq2, List.map_append, List.map_cons]
  rfl

theorem ready_concat {b : Cue} (hb : ∀ i n, c = .on i n → b ≠ .off i n) : Cue.ready (done ++ [c]) b = Cue.ready done b := by
  cases b with
  | on i n => rfl
  | close => rfl
  | off i n =>
    have hne : Cue.on i n ≠ c := fun hc => hb i n hc.symm rfl
    simp [Cue.ready, hne]

/-- When a note starts, its stop is to come, and is the only cue that becomes ready. -/
theorem ready_start (hn : ∀ n ∈ notes, n.start ≤ maxMillis) {i : Nat} {n : Note}
    (h : agenda origin notes = done ++ .on i n :: rest) : ∃ p r, rest = p ++ .off i n :: r ∧
      rest.filter (Cue.ready done) = p.filter (Cue.ready done) ++ r.filter (Cue.ready done) ∧
      rest.filter (Cue.ready (done ++ [.on i n])) = p.filter (Cue.ready done) ++ .off i n :: r.filter (Cue.ready done) := by
  have ho : Cue.Ordered origin notes (done ++ .on i n :: rest) := h ▸ agenda_ordered
  have hget : notes[i]? = some n := by
    have hmem : Cue.on i n ∈ agenda origin notes := h ▸ List.mem_append_right _ (List.mem_cons_self ..)
    rcases mem_agenda.mp hmem with hc | hc
    · cases hc
    · exact mem_cuesOf_on.mp hc
  have hoff : Cue.off i n ∈ rest := by
    refine ho.mem_after.mpr ⟨?_, on_before_off (hn n (List.mem_of_getElem? hget))⟩
    rw [← h]
    exact mem_agenda.mpr (.inr (mem_cuesOf_off.mpr hget))
  obtain ⟨p, r, rfl⟩ := List.append_of_mem hoff
  have hrest : Cue.Ordered origin notes (p ++ .off i n :: r) := (List.pairwise_cons.mp (List.pairwise_append.mp ho).2.1).2
  have hother : ∀ b, b ∈ p ∨ b ∈ r → Cue.ready (done ++ [.on i n]) b = Cue.ready done b := by
    intro b hb
    apply ready_concat
    intro j m hc
    cases hc
    rintro rfl
    rcases hb with hb | hb
    · exact absurd (hrest.mem_before.mp hb).2 (lt_irrefl _)
    · exact absurd (hrest.mem_after.mp hb).2 (lt_irrefl _)
  have hunready : ¬ Cue.ready done (.off i n) = true := by
    intro hm
    exact absurd (ho.mem_before.mp (of_decide_eq_true hm)).2 (lt_irrefl _)
  have hready : Cue.ready (done ++ [.on i n]) (.off i n) = true := by simp [Cue.ready]
  refine ⟨p, r, rfl, ?_, ?_⟩
  · rw [List.filter_append, List.filter_cons_of_neg hunready]
  · rw [List.filter_append, List.filter_cons_of_pos hready]
    congr 1
    · exact List.filter_congr fun b hb => hother b (.inl hb)
    · congr 1
      exact List.filter_congr fun b hb => hother b (.inr hb)

/-- What waits behind the stop of a note that just started is due later: a stop of the same reading
    would be of a note that started later. -/
theorem due_ne_of_behind {i : Nat} {n : Note} {b : Cue} (ho : Cue.Ordered origin notes (done ++ .on i n :: rest))
    (hready : b.ready done = true) (hb : (Cue.off i n).key origin notes < b.key origin notes) :
    b.due origin notes ≠ (Cue.off i n).due origin notes := by
  intro hdue
  rw [Cue.key_lt_iff] at hb
  cases b with
  | on j m =>
    simp [Cue.rank] at hb
    omega
  | close =>
    simp [Cue.rank] at hb
    omega
  | off j m =>
    -- its note started before this one, so of equal stops it comes first
    have hon : (Cue.on j m).key origin notes < (Cue.on i n).key origin notes :=
      (ho.mem_before.mp (of_decide_eq_true hready)).2
    rw [Cue.key_lt_iff] at hon
    simp only [Cue.rank, Cue.struck, Cue.place, Cue.due] at hb hon hdue
    omega

/-- Once a cue has passed, the tasks that wait are those of the cues after it. -/
theorem queue_after (hn : ∀ n ∈ notes, n.start ≤ maxMillis) (h : agenda origin notes = done ++ c :: rest) {u : Timer Task}
    (hq : u.queue.map slotOf = (rest.filter (Cue.ready done)).map (Cue.slot origin notes number))
    (hid : ∀ e ∈ u.queue, e.id ≤ u.registered) :
    (u.scheduleAll ((c.task number).wake? origin).toList).queue.map slotOf
      = (rest.filter (Cue.ready (done ++ [c]))).map (Cue.slot origin notes number) := by
  cases c with
  | close =>
    rw [List.filter_congr fun b _ => ready_concat fun _ _ hc => by cases hc]
    exact hq
  | off i n =>
    rw [List.filter_congr fun b _ => ready_concat fun _ _ hc => by cases hc]
    exact hq
  | on i n =>
    have ho : Cue.Ordered origin notes (done ++ .on i n :: rest) := h ▸ agenda_ordered
    have hrest : Cue.Ordered origin notes rest := (List.pairwise_cons.mp (List.pairwise_append.mp ho).2.1).2
    obtain ⟨p, r, hsplit, hbefore, hafter⟩ := ready_start hn h
    rw [hafter]
    refine slots_insert (hafter ▸ hrest.filter _) ?_ (fun x hx => Nat.lt_succ_of_le (hid x hx)) ?_
    · rw [hq, hbefore]
    · intro b hb
      obtain ⟨hb, hready⟩ := List.mem_filter.mp hb
      apply due_ne_of_behind ho hready
      rw [hsplit] at hrest
      exact (hrest.mem_after.mp hb).2

/-- Tasks registered on an empty timer stand in the order of their cues, if those of equal readings
    are registered in it. -/
theorem queue_scheduleAll {t : Timer Task} (h : t.queue = []) {cues : List Cue}
    (hc : cues.Pairwise fun a b => a.key origin notes ≠ b.key origin notes ∧
      (a.due origin notes = b.due origin notes → a.key origin notes < b.key origin notes)) :
    (t.scheduleAll (cues.map (Cue.slot origin notes number))).queue.map slotOf
      = (cues.mergeSort (Cue.notAfter origin notes)).map (Cue.slot origin notes number) := by
  induction cues using List.reverseRecOn with
  | nil => simp [Timer.scheduleAll, h]
  | append_singleton cues c ih =>
    obtain ⟨hcues, -, hlast⟩ := List.pairwise_append.mp hc
    have ho := Cue.ordered_mergeSort (hc.imp fun h => h.1)
    have hp := List.mergeSort_perm (cues ++ [c]) (Cue.notAfter origin notes)
    obtain ⟨p, r, hsort⟩ := List.append_of_mem (hp.mem_iff.mpr (List.mem_append_right _ (List.mem_singleton_self c)))
    rw [hsort] at ho hp ⊢
    have hperm : (p ++ r).Perm cues :=
      ((List.perm_middle.symm.trans hp).trans List.perm_append_comm).cons_inv
    have hpr : cues.mergeSort (Cue.notAfter origin notes) = p ++ r := by
      refine (Cue.ordered_mergeSort (hcues.imp fun h => h.1)).eq_of_perm ?_ ((List.mergeSort_perm ..).trans hperm.symm)
      exact ho.sublist ((List.sublist_cons_self ..).append_left p)
    rw [List.map_append, List.map_singleton, Timer.scheduleAll_concat]
    refine slots_insert ho (hpr ▸ ih hcues) ?_ ?_
    · intro x hx
      rcases Timer.mem_scheduleAll hx with hx | ⟨-, hid⟩
      · rw [h] at hx
        cases hx
      · have := List.mem_range'_1.mp hid
        simp only [Timer.nextId, Timer.registered_scheduleAll] at this ⊢
        omega
    · intro b hb hdue
      have hmem : b ∈ cues := hperm.mem_iff.mp (List.mem_append_right _ hb)
      exact lt_asymm (ho.mem_after.mp hb).2 ((hlast b hmem c (List.mem_singleton_self c)).2 hdue)

theorem queue_begin {t : Timer Task} (h : t.queue = []) :
    (t.scheduleAll (Deck.tasksOf number origin notes (Summary.ofNotes notes))).queue.map slotOf
      = ((agenda origin notes).filter (Cue.ready [])).map (Cue.slot origin notes number) := by
  let starts : List Cue := notes.zipIdx.map fun x => .on x.2 x.1
  have htasks : Deck.tasksOf number origin notes (Summary.ofNotes notes)
      = (starts ++ [Cue.close]).map (Cue.slot origin notes number) := by
    have hstarts : starts.map (Cue.slot origin notes number)
        = (notes.zipIdx.map Prod.fst).map fun n => (timeOf origin n.start, Task.start number n) := by
      rw [List.map_map, List.map_map]
      rfl
    rw [List.map_append, hstarts, List.zipIdx_map_fst]
    rfl
  have hpair : (starts ++ [Cue.close]).Pairwise fun a b => a.key origin notes ≠ b.key origin notes ∧
      (a.due origin notes = b.due origin notes → a.key origin notes < b.key origin notes) := by
    refine List.pairwise_append.mpr ⟨List.pairwise_map.mpr ((places_increase notes).imp ?_), List.pairwise_singleton .., ?_⟩
    · intro x y hxy
      refine ⟨Cue.key_ne_of_place (Nat.ne_of_lt hxy), fun hdue => ?_⟩
      exact Cue.key_lt_iff.mpr (.inr ⟨hdue, .inr ⟨rfl, .inr ⟨hdue, hxy⟩⟩⟩)
    · intro a ha b hb
      obtain ⟨x, -, rfl⟩ := List.mem_map.mp ha
      cases List.mem_singleton.mp hb
      exact ⟨Cue.key_ne_of_rank (by simp [Cue.rank]), fun hdue => Cue.key_lt_iff.mpr (.inr ⟨hdue, .inl Nat.zero_lt_one⟩)⟩
  have hready : (Cue.close :: cuesOf notes).filter (Cue.ready []) = .close :: starts := by
    have hon : starts.filter (Cue.ready []) = starts := by
      refine List.filter_eq_self.mpr fun c hc => ?_
      obtain ⟨x, -, rfl⟩ := List.mem_map.mp hc
      rfl
    have hoff : (notes.zipIdx.map fun x => Cue.off x.2 x.1).filter (Cue.ready []) = [] := by
      refine List.filter_eq_nil_iff.mpr fun c hc => ?_
      obtain ⟨x, -, rfl⟩ := List.mem_map.mp hc
      simp [Cue.ready]
    rw [List.filter_cons_of_pos rfl, cuesOf, List.filter_append, hon, hoff, List.append_nil]
  rw [htasks, queue_scheduleAll h hpair]
  refine congrArg _ ((Cue.ordered_mergeSort (hpair.imp fun h => h.1)).eq_of_perm (agenda_ordered.filter _) ?_)
  have hp := (List.mergeSort_perm (Cue.close :: cuesOf notes) (Cue.notAfter origin notes)).filter (Cue.ready [])
  rw [hready] at hp
  exact ((List.mergeSort_perm ..).trans List.perm_append_comm).trans hp.symm

/-! ## A playback that goes on -/

/-- The deliveries of a playback of which some cues have passed, the end's among them once none
    is to come. -/
def deliveries (origin : Nat) (notes : List Note) (done rest : List Cue) : Record :=
  done.filterMap (Cue.delivery? origin notes)
    ++ if rest.isEmpty then [(timeOf origin (endOf notes), .finished)] else []

/-- One cue more delivers its event, and the end with it if it is the last. -/
theorem deliveries_concat (hn : ∀ n ∈ notes, n.start ≤ maxMillis) (h : agenda origin notes = done ++ c :: rest) :
    deliveries origin notes (done ++ [c]) rest = deliveries origin notes done (c :: rest)
      ++ (c.event?.toList ++ if rest = [] then [Event.finished] else []).map (c.due origin notes, ·) := by
  have hc : [c].filterMap (Cue.delivery? origin notes) = (c.event?.toList).map (c.due origin notes, ·) := by
    simp only [Cue.delivery?, List.filterMap_cons, List.filterMap_nil]
    cases c.event? <;> rfl
  rw [deliveries, deliveries, List.filterMap_append, hc, List.map_append]
  by_cases hr : rest = []
  · have hlast : c.due origin notes = timeOf origin (endOf notes) := due_last hn (hr ▸ h)
    simp [hr, hlast]
  · simp [hr]

structure Stands (origin number : Nat) (notes : List Note) (done rest : List Cue) (y : Recorded) : Prop where
  tidy : Tidy y.1 y.2.1.deck
  agenda : agenda origin notes = done ++ rest
  queue : y.1.queue.map slotOf = (rest.filter (Cue.ready done)).map (Cue.slot origin notes number)
  now_le : ∀ c ∈ rest, y.1.now ≤ c.due origin notes
  session : rest ≠ [] → ∃ s, y.2.1.deck.session = some s ∧ s.number = number ∧ s.origin = origin
  ended : rest = [] → y.2.1.deck.session = none
  record : y.2.2 = deliveries origin notes done rest

namespace Stands

variable {y : Recorded}

theorem next (hn : ∀ n ∈ notes, n.start ≤ maxMillis) (h : Stands origin number notes done rest y)
    {e : Timer.Entry Task} {q : List (Timer.Entry Task)} (hq : y.1.queue = e :: q) :
    ∃ c rest', rest = c :: rest' ∧ e.deadline = c.due origin notes ∧ e.task = c.task number ∧
      q.map slotOf = (rest'.filter (Cue.ready done)).map (Cue.slot origin notes number) := by
  cases rest with
  | nil =>
    rw [(slots_eq_nil hn h.agenda h.queue).mpr rfl] at hq
    cases hq
  | cons c rest' =>
    have hqueue := h.queue
    rw [hq, List.filter_cons_of_pos (ready_next hn h.agenda), List.map_cons, List.map_cons] at hqueue
    obtain ⟨hslot, hqueue⟩ := List.cons.inj hqueue
    exact ⟨c, rest', rfl, congrArg Prod.fst hslot, congrArg Prod.snd hslot, hqueue⟩

/-- The first task due is that of the next cue, and fires at its reading. -/
theorem fire (hn : ∀ n ∈ notes, n.start ≤ maxMillis) (h : Stands origin number notes done rest y) {moment : Nat}
    {e : Timer.Entry Task} {u : Timer Task} (hd : y.1.takeDue moment = some (e, u)) :
    ∃ c rest', rest = c :: rest' ∧ Stands origin number notes (done ++ [c]) rest' (recordTask e (u, y.2)) := by
  have htidy := h.tidy.takeDue hd
  obtain ⟨q, hq, -, rfl⟩ := Timer.takeDue_eq_some.mp hd
  obtain ⟨c, rest', rfl, hdue, htask, hqueue⟩ := h.next hn hq
  refine ⟨c, rest', rfl, ?_⟩
  have hnow : max y.1.now e.deadline = c.due origin notes := by
    rw [hdue]
    exact Nat.max_eq_right (h.now_le c (List.mem_cons_self ..))
  rw [hnow] at htidy ⊢
  let u : Timer Task := { y.1 with now := c.due origin notes, queue := q }
  show Stands origin number notes (done ++ [c]) rest' (recordTask e (u, y.2))
  obtain ⟨s, hs, hnum, horig⟩ := h.session (List.cons_ne_nil _ _)
  have hlive : y.2.1.deck.live? e.task.session = some s := by
    rw [htask, session_task]
    exact Deck.live?_eq_some.mpr ⟨hs, hnum⟩
  obtain ⟨hdeck, hevents, hwake⟩ := Deck.fire_live hlive u.nextId
  have hagenda : Playback.agenda origin notes = done ++ [c] ++ rest' := by
    rw [h.agenda, List.append_assoc, List.singleton_append]
  have hqueue' : (fireTask e (u, y.2.1)).1.queue.map slotOf
      = (rest'.filter (Cue.ready (done ++ [c]))).map (Cue.slot origin notes number) := by
    rw [fireTask_timer, hwake, htask, horig]
    exact queue_after hn h.agenda hqueue fun x hx => h.tidy.id_le x (hq ▸ List.mem_cons_of_mem _ hx)
  have hsession : (fireTask e (u, y.2.1)).2.deck.session
      = if (s.after u.nextId e.task).isOver then none else some (s.after u.nextId e.task) := by
    rw [fireTask_deck, hdeck]
  -- The session is over exactly with its last cue, so its end is heard there and nowhere else.
  have hover : (s.after u.nextId e.task).isOver = true ↔ rest' = [] :=
    (htidy.isOver_iff hsession).trans (slots_eq_nil hn hagenda hqueue')
  simp only [hover] at hsession hevents
  refine ⟨htidy, hagenda, hqueue', ?_, ?_, ?_, ?_⟩
  · intro b hb
    show (fireTask e (u, y.2.1)).1.now ≤ _
    rw [fireTask_timer, Timer.now_scheduleAll]
    have ho : Cue.Ordered origin notes (done ++ c :: rest') := h.agenda ▸ agenda_ordered
    exact Cue.due_le_of_key_lt (ho.mem_after.mp hb).2
  · intro hne
    refine ⟨s.after u.nextId e.task, ?_, ?_, ?_⟩
    · exact hsession.trans (if_neg hne)
    · rw [Session.after_number, hnum]
    · rw [Session.after_origin, horig]
  · intro hr
    exact hsession.trans (if_pos hr)
  · show y.2.2 ++ (eventsOf (y.2.1.deck.fire u.nextId e.task).outputs).map (c.due origin notes, ·) = _
    rw [deliveries_concat hn h.agenda, h.record, hevents, htask, event?_task]

theorem lt_due (hn : ∀ n ∈ notes, n.start ≤ maxMillis) (h : Stands origin number notes done rest y) {moment : Nat}
    (hd : y.1.takeDue moment = none) : ∀ c ∈ rest, moment < c.due origin notes := by
  intro c hc
  cases rest with
  | nil => cases hc
  | cons b rest' =>
    have hqueue := h.queue
    rw [List.filter_cons_of_pos (ready_next hn h.agenda), List.map_cons] at hqueue
    obtain ⟨e, q, hq, hslot, -⟩ := List.map_eq_cons_iff.mp hqueue
    have hlt : moment < b.due origin notes := by
      rw [← show e.deadline = b.due origin notes from congrArg Prod.fst hslot]
      exact Timer.takeDue_eq_none.mp hd e q hq
    rcases List.mem_cons.mp hc with rfl | hc
    · exact hlt
    · have ho : Cue.Ordered origin notes (done ++ b :: rest') := h.agenda ▸ agenda_ordered
      exact Nat.lt_of_lt_of_le hlt (Cue.due_le_of_key_lt (ho.mem_after.mp hc).2)

/-- A playback that went on: it stands somewhere, and has nothing to come if nothing was, or if
    it came to its end. -/
def GoesOn (origin number : Nat) (notes : List Note) (rest : List Cue) (ended : Prop) (y : Recorded) : Prop :=
  ∃ done' rest', Stands origin number notes done' rest' y ∧ (rest = [] ∨ ended → rest' = [])

theorem runUntil (hn : ∀ n ∈ notes, n.start ≤ maxMillis) (h : Stands origin number notes done rest y) {moment : Nat}
    (hm : moment ≤ latest) : GoesOn origin number notes rest (timeOf origin (endOf notes) ≤ moment)
      (Timer.runUntil recording moment y) := by
  have hrun : ∃ done' rest', Stands origin number notes done' rest' (Timer.runUntil recording moment y) ∧
      (rest = [] → rest' = []) := by
    refine Timer.runUntil_induction (P := fun y => ∃ done' rest', Stands origin number notes done' rest' y ∧
      (rest = [] → rest' = [])) ?_ ?_ ⟨done, rest, h, id⟩
    · intro x e u hstands hd
      obtain ⟨done', rest', hx, hrest⟩ := hstands
      obtain ⟨c, rest'', rfl, hx'⟩ := hx.fire hn hd
      exact ⟨_, rest'', hx', fun hr => by cases hrest hr⟩
    · intro x hstands hd
      obtain ⟨done', rest', hx, hrest⟩ := hstands
      refine ⟨done', rest', ⟨hx.tidy.clock (Nat.max_le.mpr ⟨hx.tidy.now_le, hm⟩), hx.agenda, hx.queue, ?_, hx.session,
        hx.ended, hx.record⟩, hrest⟩
      intro c hc
      exact Nat.max_le.mpr ⟨hx.now_le c hc, Nat.le_of_lt (hx.lt_due hn hd c hc)⟩
  obtain ⟨done', rest', hy, hrest⟩ := hrun
  refine ⟨done', rest', hy, ?_⟩
  intro hor
  rcases hor with hr | hend
  · exact hrest hr
  · refine List.eq_nil_iff_forall_not_mem.mpr fun c hc => ?_
    have hlt := hy.lt_due hn (Timer.takeDue_runUntil recording moment y) c hc
    have hle := due_le_end hn (hy.agenda ▸ List.mem_append_right _ hc)
    omega

theorem runAll (hn : ∀ n ∈ notes, n.start ≤ maxMillis) (h : Stands origin number notes done rest y) :
    GoesOn origin number notes rest True (Timer.runAll recording y) := by
  have hrun : ∃ done' rest', Stands origin number notes done' rest' (Timer.runAll recording y) := by
    refine Timer.runAll_induction (P := fun y => ∃ done' rest', Stands origin number notes done' rest' y) ?_
      ⟨done, rest, h⟩
    intro x _ hstands hlast
    obtain ⟨done', rest', hx⟩ := hstands
    obtain ⟨e, he, rfl⟩ := hlast
    obtain ⟨done'', rest'', hx', -⟩ := hx.runUntil hn (hx.tidy.deadline_le e he)
    exact ⟨done'', rest'', hx'⟩
  obtain ⟨done', rest', hy⟩ := hrun
  exact ⟨done', rest', hy, fun _ => (slots_eq_nil hn hy.agenda hy.queue).mp (Timer.queue_runAll recording y)⟩

/-- Nothing but a clock that moves changes where a playback stands. -/
theorem goesOn_of_eq (h : Stands origin number notes done rest y) (y' : Recorded) (ht : y'.1 = y.1)
    (hd : y'.2.1.deck = y.2.1.deck) (hr : y'.2.2 = y.2.2) {ended : Prop} (he : ¬ ended) :
    GoesOn origin number notes rest ended y' := by
  refine ⟨done, rest, ⟨?_, h.agenda, ?_, ?_, ?_, ?_, ?_⟩, fun hor => hor.resolve_right he⟩
  · rw [ht, hd]; exact h.tidy
  · rw [ht]; exact h.queue
  · rw [ht]; exact h.now_le
  · rw [hd]; exact h.session
  · rw [hd]; exact h.ended
  · rw [hr]; exact h.record

end Stands

/-! ## Playbacks that nothing ends -/

/-- Whether an act runs a clock that reads `now` to a moment or past it. -/
def Act.reaches (now moment : Nat) : Act → Prop
  | advance span => now + span ≤ latest ∧ moment ≤ now + span
  | runUntil m _ => moment ≤ m
  | runAll => True
  | _ => False

/-- Whether one of some acts runs the clock to a moment or past it. -/
def Scheduler.Reaches (moment : Nat) : Scheduler → List Act → Prop
  | _, [] => False
  | s, a :: acts => a.reaches s.timer.now moment ∨ Reaches moment (s.act a) acts

theorem Stands.act {y : Recorded} (hn : ∀ n ∈ notes, n.start ≤ maxMillis) (h : Stands origin number notes done rest y)
    {a : Act} (ha : a.keepsSession = true) : Stands.GoesOn origin number notes rest
      (a.reaches y.1.now (timeOf origin (endOf notes))) (y.act a) := by
  cases a with
  | play text => cases ha
  | playNotes notes => cases ha
  | stop => cases ha
  | subscribe => exact h.goesOn_of_eq (y.act .subscribe) rfl rfl rfl fun hr => hr
  | unsubscribe index => exact h.goesOn_of_eq (y.act (.unsubscribe index)) rfl rfl rfl fun hr => hr
  | read => exact h.goesOn_of_eq (y.act .read) rfl rfl rfl fun hr => hr
  | runUntil moment hm => exact h.runUntil hn hm
  | runAll => exact h.runAll hn
  | advance span =>
    by_cases hs : y.1.now + span ≤ latest
    · simp only [Recorded.act, Timer.advance?, hs, if_true, Option.getD_some, Act.reaches, true_and]
      exact h.runUntil hn hs
    · simp only [Recorded.act, Timer.advance?, hs, if_false, Option.getD_none]
      exact h.goesOn_of_eq y rfl rfl rfl fun hr => hs hr.1

theorem Stands.run {y : Recorded} (hn : ∀ n ∈ notes, n.start ≤ maxMillis) (h : Stands origin number notes done rest y)
    {acts : List Act} (ha : ∀ a ∈ acts, a.keepsSession = true) : Stands.GoesOn origin number notes rest
      (y.scheduler.Reaches (timeOf origin (endOf notes)) acts) (y.run acts) := by
  induction acts generalizing y done rest with
  | nil => exact h.goesOn_of_eq y rfl rfl rfl id
  | cons a acts ih =>
    obtain ⟨done', rest', hy, hrest⟩ := h.act hn (ha a (List.mem_cons_self ..))
    obtain ⟨done'', rest'', hy', hrest'⟩ := ih hy fun b hb => ha b (List.mem_cons_of_mem _ hb)
    refine ⟨done'', rest'', hy', ?_⟩
    intro hor
    rcases hor with hr | hr | hr
    · exact hrest' (.inl (hrest (.inl hr)))
    · exact hrest' (.inl (hrest (.inr hr)))
    · rw [← Recorded.scheduler_act] at hr
      exact hrest' (.inr hr)

theorem stands_playNotes {s : Scheduler} (h : s.Tidy) (notes : List Note) :
    Stands s.timer.now (s.stage.deck.generation + 1) notes [] (agenda s.timer.now notes)
      ((s.playNotes notes).1.timer, (s.playNotes notes).1.stage, []) := by
  have hne : agenda s.timer.now notes ≠ [] := List.ne_nil_of_mem (mem_agenda.mpr (.inl rfl))
  have hstop : s.stop.1.timer.now = s.timer.now := by rw [Scheduler.timer_stop, Timer.now_cancelAll]
  refine ⟨h.playNotes notes, rfl, ?_, ?_, ?_, fun he => absurd he hne, ?_⟩
  · rw [Scheduler.timer_playNotes]
    exact queue_begin h.queue_stop
  · intro c _
    have hle : ∀ millis, s.timer.now ≤ timeOf s.timer.now millis :=
      fun millis => Nat.le_min.mpr ⟨Nat.le_add_right .., h.now_le⟩
    rw [Scheduler.timer_playNotes, Timer.now_scheduleAll, hstop]
    cases c <;> exact hle _
  · intro _
    rw [Scheduler.deck_playNotes]
    exact ⟨_, rfl, rfl, rfl⟩
  · simp [deliveries, hne]

/-- All that a playback delivers, each event at its reading. -/
def performance (origin : Nat) (notes : List Note) : Record :=
  (timetable origin notes).filterMap (Cue.delivery? origin notes) ++ [(timeOf origin (endOf notes), .finished)]

theorem length_performance : (performance origin notes).length = 2 * notes.length + 1 := by
  have hall : ∀ c ∈ timetable origin notes, (Cue.delivery? origin notes c).isSome := by
    intro c hc
    cases c with
    | on i n => rfl
    | close => exact absurd (List.mem_mergeSort.mp hc) close_notMem_cuesOf
    | off i n => rfl
  rw [performance, List.length_append, List.filterMap_length_eq_length.mpr hall, length_timetable]
  rfl

theorem deliveries_agenda : deliveries origin notes (agenda origin notes) [] = performance origin notes := by
  have hskip : ∀ c, (if Cue.isNote c = true then Cue.delivery? origin notes c else none) = Cue.delivery? origin notes c := by
    intro c
    cases c <;> rfl
  rw [deliveries, performance, ← agenda_filter, List.filterMap_filter]
  simp only [hskip]
  rfl

/-- Wherever a playback stands, what it has delivered begins its performance. -/
theorem Stands.begins {y : Recorded} (h : Stands origin number notes done rest y) : y.2.2 <+: performance origin notes := by
  rw [h.record, ← deliveries_agenda, h.agenda]
  by_cases hr : rest = []
  · subst hr
    simp only [List.append_nil, List.prefix_rfl]
  · have hopen : rest.isEmpty = false := by simp [hr]
    simp only [deliveries, hopen, List.filterMap_append, Bool.false_eq_true, if_false, List.append_nil,
      List.append_assoc]
    exact List.prefix_append ..

theorem record_begins {s : Scheduler} (h : s.Tidy) (notes : List Note) {acts : List Act}
    (hn : ∀ n ∈ notes, n.start ≤ maxMillis) (ha : ∀ a ∈ acts, a.keepsSession = true) :
    (s.playNotes notes).1.record acts <+: performance s.timer.now notes := by
  obtain ⟨done, rest, hy, -⟩ := (stands_playNotes h notes).run hn ha
  exact hy.begins

theorem played_out {s : Scheduler} (h : s.Tidy) (notes : List Note) {acts : List Act}
    (hn : ∀ n ∈ notes, n.start ≤ maxMillis) (ha : ∀ a ∈ acts, a.keepsSession = true)
    (hr : (s.playNotes notes).1.Reaches (timeOf s.timer.now (endOf notes)) acts) :
    (s.playNotes notes).1.record acts = performance s.timer.now notes ∧
      ((s.playNotes notes).1.run acts).stage.deck.session = none ∧ ((s.playNotes notes).1.run acts).timer.queue = [] := by
  obtain ⟨done, rest, hy, hrest⟩ := (stands_playNotes h notes).run hn ha
  have hnil : rest = [] := hrest (.inr hr)
  subst hnil
  have hsched := Recorded.scheduler_run ((s.playNotes notes).1.timer, (s.playNotes notes).1.stage, []) acts
  refine ⟨?_, ?_, ?_⟩
  · have hdone : agenda s.timer.now notes = done := by rw [hy.agenda, List.append_nil]
    exact hy.record.trans (hdone ▸ deliveries_agenda)
  · exact (congrArg (fun s : Scheduler => s.stage.deck.session) hsched).symm.trans (hy.ended rfl)
  · exact (congrArg (fun s : Scheduler => s.timer.queue) hsched).symm.trans ((slots_eq_nil hn hy.agenda hy.queue).mpr rfl)

/-- After any history, a playback that is run to its end without a stop or another play delivers
    its performance, to every listener that stays, and leaves no session and nothing that waits. -/
theorem events_of_playback (history : List Act) (notes : List Note) (acts : List Act)
    (hn : ∀ n ∈ notes, n.start ≤ maxMillis) (ha : ∀ a ∈ acts, a.keepsSession = true) :
    let s := Scheduler.empty.run history
    let p := (s.playNotes notes).1
    p.Reaches (timeOf s.timer.now (endOf notes)) acts →
      p.record acts = performance s.timer.now notes ∧ (p.record acts).length = 2 * notes.length + 1 ∧
      (∀ i inbox, p.stage.listeners[i]? = some (.listening inbox) → (∀ a ∈ acts, a ≠ .unsubscribe i) →
        p.heard i acts = inbox ++ (performance s.timer.now notes).map (·.2)) ∧
      (p.run acts).stage.deck.session = none ∧ (p.run acts).timer.queue = [] := by
  intro s p hreach
  obtain ⟨hrecord, hsession, hqueue⟩ := played_out (Scheduler.tidy_run history) notes hn ha hreach
  refine ⟨hrecord, ?_, ?_, hsession, hqueue⟩
  · rw [show p.record acts = _ from hrecord, length_performance]
  · intro i inbox hi hstays
    rw [← show p.record acts = _ from hrecord]
    exact heard_run hi hstays

/-- Two notes at once, one of them without length, on a clock that moves to the half and on. -/
theorem events_of_chord : let m : Note := ⟨0, ['c'], 0, 127, 60, 0, 500⟩
    let n : Note := ⟨1, ['e'], 1, 127, 64, 0, 0⟩
    let p := (Scheduler.empty.playNotes [m, n]).1
    let acts : List Act := [.advance 250000000, .subscribe, .runAll]
    (∀ x ∈ [m, n], x.start ≤ maxMillis) ∧ (∀ a ∈ acts, a.keepsSession = true) ∧
      p.Reaches (timeOf 0 (endOf [m, n])) acts ∧ p.record acts = [(0, .noteOn m), (0, .noteOn n), (0, .noteOff n),
        (500000000, .noteOff m), (500000000, .finished)] := by
  intro m n p acts
  have hn : ∀ x ∈ [m, n], x.start ≤ maxMillis := by simp [m, n]
  have ha : ∀ a ∈ acts, a.keepsSession = true := by simp [acts, Act.keepsSession]
  have hr : p.Reaches (timeOf 0 (endOf [m, n])) acts := .inr (.inr (.inl trivial))
  have htimes : timetable 0 [m, n] = [.on 0 m, .on 1 n, .off 1 n, .off 0 m] := by
    refine timetable_ordered.eq_of_perm ?_ ((List.mergeSort_perm ..).trans (by decide))
    simp only [Cue.Ordered, Cue.key_lt_iff]
    decide
  refine ⟨hn, ha, hr, (events_of_playback [] [m, n] acts hn ha hr).1.trans ?_⟩
  show performance 0 [m, n] = _
  rw [performance, htimes]
  decide

end Ostinato.Playback
