import Mathlib.Data.Prod.Lex
import Mathlib.Data.List.Nodup
import Ostinato.Playback.Deck

/-!
  Ostinato.Proofs.Playback.Timetable: when the events of a playback are due, and in which order.

  Each note of a playback has two cues, its start and its stop, due at clock readings that
  the playback's origin and the note decide. The timetable has them by reading; among equal
  readings the starts come before the stops, then what started earlier comes first, then what
  stands earlier in the notes (`Cue.key`).

  The playback's end has a cue as well, which delivers nothing itself. The agenda is the
  timetable with this cue in its place (`agenda_filter`), and the tasks on a timer follow it.
-/

namespace Ostinato.Playback

open Score

/-- What falls due in a playback; notes have their place among the notes played. -/
inductive Cue where
  | on (place : Nat) (note : Note)
  | close
  | off (place : Nat) (note : Note)
  deriving DecidableEq, Repr

namespace Cue

def event? : Cue → Option Event
  | on _ n => some (.noteOn n)
  | close => none
  | off _ n => some (.noteOff n)

def isNote : Cue → Bool
  | close => false
  | _ => true

variable (origin : Nat) (notes : List Note)

def due : Cue → Nat
  | on _ n => timeOf origin n.start
  | close => timeOf origin (endOf notes)
  | off _ n => timeOf origin n.stop

/-- Starts before the end, and the end before stops. -/
def rank : Cue → Nat
  | on .. => 0
  | close => 1
  | off .. => 2

def struck : Cue → Nat
  | on _ n => timeOf origin n.start
  | close => 0
  | off _ n => timeOf origin n.start

def place : Cue → Nat
  | on i _ => i
  | close => 0
  | off i _ => i

/-- Cues are ordered by reading, then by kind, then by the start of their note, then by place. -/
def key (c : Cue) : Nat ×ₗ Nat ×ₗ Nat ×ₗ Nat :=
  toLex (c.due origin notes, toLex (c.rank, toLex (c.struck origin, c.place)))

def notAfter (a b : Cue) : Bool := decide (a.key origin notes ≤ b.key origin notes)

end Cue

def cuesOf (notes : List Note) : List Cue :=
  notes.zipIdx.map (fun x => .on x.2 x.1) ++ notes.zipIdx.map fun x => .off x.2 x.1

/-- The cues of the notes of a playback, in the order of their deliveries. -/
def timetable (origin : Nat) (notes : List Note) : List Cue :=
  (cuesOf notes).mergeSort (Cue.notAfter origin notes)

/-- The timetable with the cue of the end. -/
def agenda (origin : Nat) (notes : List Note) : List Cue :=
  (.close :: cuesOf notes).mergeSort (Cue.notAfter origin notes)

/-! ## Order -/

namespace Cue

variable {origin : Nat} {notes : List Note} {a b : Cue}

theorem key_lt_iff : a.key origin notes < b.key origin notes ↔
    a.due origin notes < b.due origin notes ∨ a.due origin notes = b.due origin notes ∧
      (a.rank < b.rank ∨ a.rank = b.rank ∧
        (a.struck origin < b.struck origin ∨ a.struck origin = b.struck origin ∧ a.place < b.place)) := by
  simp [key, Prod.Lex.toLex_lt_toLex]

theorem due_le_of_key_lt (h : a.key origin notes < b.key origin notes) : a.due origin notes ≤ b.due origin notes := by
  rcases key_lt_iff.mp h with h | h
  · exact Nat.le_of_lt h
  · exact Nat.le_of_eq h.1

theorem key_ne_of_rank (h : a.rank ≠ b.rank) : a.key origin notes ≠ b.key origin notes := by
  intro hk
  simp only [key, EmbeddingLike.apply_eq_iff_eq, Prod.mk.injEq] at hk
  exact h hk.2.1

theorem key_ne_of_place (h : a.place ≠ b.place) : a.key origin notes ≠ b.key origin notes := by
  intro hk
  simp only [key, EmbeddingLike.apply_eq_iff_eq, Prod.mk.injEq] at hk
  exact h hk.2.2.2

/-- Cues with keys of their own, in order. -/
def Ordered (origin : Nat) (notes : List Note) (cues : List Cue) : Prop :=
  cues.Pairwise fun a b => a.key origin notes < b.key origin notes

/-- What stands before a cue of an ordered list is what comes before it. -/
theorem Ordered.mem_before {p r : List Cue} (h : Ordered origin notes (p ++ a :: r)) :
    b ∈ p ↔ b ∈ p ++ a :: r ∧ b.key origin notes < a.key origin notes := by
  obtain ⟨-, hr, hpr⟩ := List.pairwise_append.mp h
  constructor
  · intro hb
    exact ⟨List.mem_append_left _ hb, hpr b hb a (List.mem_cons_self ..)⟩
  · intro hleft
    obtain ⟨hb, hlt⟩ := hleft
    rcases List.mem_append.mp hb with hb | hb
    · exact hb
    · rcases List.mem_cons.mp hb with rfl | hb
      · exact absurd hlt (lt_irrefl _)
      · exact absurd hlt (lt_asymm ((List.pairwise_cons.mp hr).1 b hb))

theorem Ordered.mem_after {p r : List Cue} (h : Ordered origin notes (p ++ a :: r)) :
    b ∈ r ↔ b ∈ p ++ a :: r ∧ a.key origin notes < b.key origin notes := by
  obtain ⟨-, hr, hpr⟩ := List.pairwise_append.mp h
  constructor
  · intro hb
    exact ⟨List.mem_append_right _ (List.mem_cons_of_mem _ hb), (List.pairwise_cons.mp hr).1 b hb⟩
  · intro hleft
    obtain ⟨hb, hlt⟩ := hleft
    rcases List.mem_append.mp hb with hb | hb
    · exact absurd hlt (lt_asymm (hpr b hb a (List.mem_cons_self ..)))
    · rcases List.mem_cons.mp hb with rfl | hb
      · exact absurd hlt (lt_irrefl _)
      · exact hb

theorem Ordered.filter {cues : List Cue} (h : Ordered origin notes cues) (p : Cue → Bool) :
    Ordered origin notes (cues.filter p) :=
  List.Pairwise.filter p h

/-- The same cues in order are the same list. -/
theorem Ordered.eq_of_perm {cues cues' : List Cue} (h : Ordered origin notes cues) (h' : Ordered origin notes cues')
    (p : cues.Perm cues') : cues = cues' :=
  p.eq_of_pairwise (fun _ _ _ _ hab hba => absurd hba (lt_asymm hab)) h h'

theorem ordered_mergeSort {cues : List Cue}
    (h : cues.Pairwise fun a b => a.key origin notes ≠ b.key origin notes) :
    Ordered origin notes (cues.mergeSort (notAfter origin notes)) := by
  have htrans : ∀ a b c : Cue, notAfter origin notes a b → notAfter origin notes b c → notAfter origin notes a c := by
    intro a b c hab hbc
    simp only [notAfter, decide_eq_true_eq] at hab hbc ⊢
    exact le_trans hab hbc
  have htotal : ∀ a b : Cue, notAfter origin notes a b || notAfter origin notes b a := by
    intro a b
    simp only [notAfter, Bool.or_eq_true, decide_eq_true_eq]
    exact le_total _ _
  have hle := List.pairwise_mergeSort htrans htotal cues
  have hne : (cues.mergeSort (notAfter origin notes)).Pairwise fun a b => a.key origin notes ≠ b.key origin notes :=
    h.perm (List.mergeSort_perm ..).symm fun hab => Ne.symm hab
  refine (hle.and hne).imp fun hab => ?_
  simp only [notAfter, decide_eq_true_eq] at hab
  exact lt_of_le_of_ne hab.1 hab.2

end Cue

/-! ## Readings -/

theorem timeOf_le_latest (origin millis : Nat) : timeOf origin millis ≤ latest := Nat.min_le_right ..

theorem timeOf_le_timeOf (origin : Nat) {a b : Nat} (h : a ≤ b) : timeOf origin a ≤ timeOf origin b := by
  simp only [timeOf, later, nanosPerMilli]
  omega

theorem start_le_stop {n : Note} (h : n.start ≤ maxMillis) : n.start ≤ n.stop :=
  Nat.le_min.mpr ⟨Nat.le_add_right .., h⟩

theorem stop_le_endOf {notes : List Note} {n : Note} (h : n ∈ notes) : n.stop ≤ endOf notes := by
  have grows : ∀ (notes : List Note) (x : Nat), x ≤ notes.foldl (fun latest n => max latest n.stop) x ∧
      ∀ n ∈ notes, n.stop ≤ notes.foldl (fun latest n => max latest n.stop) x := by
    intro notes
    induction notes with
    | nil => intro x; exact ⟨Nat.le_refl x, by simp⟩
    | cons m notes ih =>
      intro x
      obtain ⟨h1, h2⟩ := ih (max x m.stop)
      refine ⟨Nat.le_trans (Nat.le_max_left ..) h1, fun n hn => ?_⟩
      rcases List.mem_cons.mp hn with rfl | hn
      · exact Nat.le_trans (Nat.le_max_right ..) h1
      · exact h2 n hn
  exact (grows notes 0).2 n h

/-! ## The cues of some notes -/

variable {origin : Nat} {notes : List Note}

theorem mem_cuesOf_on {i : Nat} {n : Note} : Cue.on i n ∈ cuesOf notes ↔ notes[i]? = some n := by
  simp [cuesOf, List.mem_zipIdx_iff_getElem?]

theorem mem_cuesOf_off {i : Nat} {n : Note} : Cue.off i n ∈ cuesOf notes ↔ notes[i]? = some n := by
  simp [cuesOf, List.mem_zipIdx_iff_getElem?]

theorem close_notMem_cuesOf : Cue.close ∉ cuesOf notes := by
  simp [cuesOf]

theorem mem_agenda {c : Cue} : c ∈ agenda origin notes ↔ c = .close ∨ c ∈ cuesOf notes := by
  rw [agenda, List.mem_mergeSort, List.mem_cons]

theorem due_le_end (hn : ∀ n ∈ notes, n.start ≤ maxMillis) {c : Cue} (hc : c ∈ agenda origin notes) :
    c.due origin notes ≤ timeOf origin (endOf notes) := by
  cases c with
  | on i n =>
    rcases mem_agenda.mp hc with hc | hc
    · cases hc
    have hmem := List.mem_of_getElem? (mem_cuesOf_on.mp hc)
    exact timeOf_le_timeOf origin (Nat.le_trans (start_le_stop (hn n hmem)) (stop_le_endOf hmem))
  | close => exact Nat.le_refl _
  | off i n =>
    rcases mem_agenda.mp hc with hc | hc
    · cases hc
    exact timeOf_le_timeOf origin (stop_le_endOf (List.mem_of_getElem? (mem_cuesOf_off.mp hc)))

theorem on_before_off {i : Nat} {n : Note} (h : n.start ≤ maxMillis) :
    (Cue.on i n).key origin notes < (Cue.off i n).key origin notes := by
  have hle := timeOf_le_timeOf origin (start_le_stop h)
  refine Cue.key_lt_iff.mpr ?_
  simp only [Cue.due, Cue.rank]
  omega

theorem length_timetable : (timetable origin notes).length = 2 * notes.length := by
  simp [timetable, cuesOf]
  omega

theorem places_increase (notes : List Note) : notes.zipIdx.Pairwise fun x y => x.2 < y.2 := by
  have h : (notes.zipIdx.map Prod.snd).Pairwise (· < ·) := by
    rw [List.zipIdx_map_snd]
    exact List.pairwise_lt_range'
  exact List.pairwise_map.mp h

theorem cues_keys_ne : (Cue.close :: cuesOf notes).Pairwise fun a b => a.key origin notes ≠ b.key origin notes := by
  have hplaces : notes.zipIdx.Pairwise fun x y => x.2 ≠ y.2 := (places_increase notes).imp fun h => Nat.ne_of_lt h
  refine List.pairwise_cons.mpr ⟨fun c hc => Cue.key_ne_of_rank ?_, List.pairwise_append.mpr ⟨?_, ?_, ?_⟩⟩
  · cases c with
    | on i n => simp [Cue.rank]
    | close => exact absurd hc close_notMem_cuesOf
    | off i n => simp [Cue.rank]
  · exact List.pairwise_map.mpr (hplaces.imp fun h => Cue.key_ne_of_place h)
  · exact List.pairwise_map.mpr (hplaces.imp fun h => Cue.key_ne_of_place h)
  · intro a ha b hb
    obtain ⟨x, -, rfl⟩ := List.mem_map.mp ha
    obtain ⟨y, -, rfl⟩ := List.mem_map.mp hb
    exact Cue.key_ne_of_rank (by simp [Cue.rank])

theorem agenda_ordered : Cue.Ordered origin notes (agenda origin notes) := Cue.ordered_mergeSort cues_keys_ne

theorem timetable_ordered : Cue.Ordered origin notes (timetable origin notes) :=
  Cue.ordered_mergeSort (List.pairwise_cons.mp cues_keys_ne).2

/-- Without the cue of the end, the agenda is the timetable. -/
theorem agenda_filter : (agenda origin notes).filter Cue.isNote = timetable origin notes := by
  refine (agenda_ordered.filter _).eq_of_perm timetable_ordered ?_
  refine ((List.mergeSort_perm _ _).filter _).trans (.trans ?_ (List.mergeSort_perm _ _).symm)
  have hall : (cuesOf notes).filter Cue.isNote = cuesOf notes := by
    refine List.filter_eq_self.mpr fun c hc => ?_
    cases c with
    | on i n => rfl
    | close => exact absurd hc close_notMem_cuesOf
    | off i n => rfl
  rw [List.filter_cons_of_neg (by simp [Cue.isNote]), hall]

end Ostinato.Playback
