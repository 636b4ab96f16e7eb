import Mathlib.Data.List.Count
import Mathlib.Data.List.Induction
import Ostinato.Proofs.History
import Ostinato.Proofs.Playback.AnyOrder

/-!
  Ostinato.Proofs.Playback.Course: the course of one session on a timer that keeps no promise.

  What is heard of a session is orderly (`Orderly`): a note's start at most once for each time
  that the note was played, its stop only after its start, and the end once, after all of them.
  As long as the session plays, its `Books` are kept: for every note, the starts that wait and
  those heard make up its occurrences in what was played, and the stops that wait and those
  heard make up the starts heard. A session that no task is left of cannot still be playing, so
  it has ended by itself (`run_plays`).

  `any_order_is_safe` puts these together over every run.
-/

namespace Ostinato.Playback

open Score

/-! ## Orderly events -/

/-- Whether an event may come after others in a session of some notes. Equal notes give equal
    events, so they are counted. -/
def Fits (notes : List Note) (past : List Event) : Event → Prop
  | .noteOn n => past.count (.noteOn n) < notes.count n
  | .noteOff n => past.count (.noteOff n) < past.count (.noteOn n)
  | .finished => .finished ∉ past ∧
      ∀ n, past.count (.noteOn n) = notes.count n ∧ past.count (.noteOff n) = notes.count n

def Orderly (notes : List Note) (es : List Event) : Prop :=
  ∀ past e rest, es = past ++ e :: rest → Fits notes past e

theorem Orderly.nil (notes : List Note) : Orderly notes [] := by
  intro past e rest h
  simp at h

theorem Orderly.concat {notes : List Note} {es : List Event} {e : Event} (h : Orderly notes es)
    (he : Fits notes es e) : Orderly notes (es ++ [e]) := by
  intro past x rest heq
  rcases place_concat heq with ⟨rfl, rfl, -⟩ | ⟨rest, -, hplace⟩
  · exact he
  · exact h past x rest hplace

theorem Orderly.count_finished_le {notes : List Note} {es : List Event} (h : Orderly notes es) :
    es.count .finished ≤ 1 := by
  by_cases hm : Event.finished ∈ es
  · obtain ⟨past, rest, rfl, hrest⟩ := List.eq_append_cons_of_mem hm
    obtain ⟨hpast, -⟩ := h past _ rest rfl
    have hlast : Event.finished ∉ rest := by
      intro hr
      obtain ⟨mid, rest', rfl⟩ := List.append_of_mem hr
      exact (h (past ++ .finished :: mid) .finished rest' (by simp)).1 (by simp)
    simp [List.count_append, List.count_eq_zero_of_not_mem hpast, List.count_eq_zero_of_not_mem hlast]
  · rw [List.count_eq_zero_of_not_mem hm]
    exact Nat.zero_le _

theorem Orderly.of_append {notes : List Note} {es more : List Event} (h : Orderly notes (es ++ more)) :
    Orderly notes es := by
  intro past e rest heq
  exact h past e (rest ++ more) (by simp [heq])

theorem Orderly.count_noteOff_le {notes : List Note} {es : List Event} (h : Orderly notes es) (n : Note) :
    es.count (.noteOff n) ≤ es.count (.noteOn n) := by
  induction es using List.reverseRecOn with
  | nil => simp
  | append_singleton es e ih =>
    have hbefore := ih h.of_append
    have hfits := h es e [] rfl
    cases e with
    | noteOn m =>
      rw [List.count_append, List.count_append]
      simp [List.count_cons]
      omega
    | noteOff m =>
      by_cases heq : m = n
      · subst heq
        have hlt : es.count (.noteOff m) < es.count (.noteOn m) := hfits
        simp [List.count_append]
        omega
      · simpa [List.count_append, List.count_cons, heq] using hbefore
    | finished => simpa [List.count_append] using hbefore

/-- Once the end has come, every note that started has stopped after that. -/
theorem Orderly.noteOff_after {notes : List Note} {before after : List Event} {n : Note}
    (h : Orderly notes (before ++ .noteOn n :: after)) (hend : .finished ∈ before ++ .noteOn n :: after) :
    .noteOff n ∈ after := by
  obtain ⟨past, rest, heq⟩ := List.append_of_mem hend
  have hstart : before.count (.noteOn n) < notes.count n := h before _ after rfl
  have hstopped : past.count (.noteOff n) = notes.count n := ((h past _ rest heq).2 n).2
  have hbefore : before.count (.noteOff n) ≤ before.count (.noteOn n) := h.of_append.count_noteOff_le n
  have hcount := congrArg (List.count (.noteOff n)) heq
  simp only [List.count_append, List.count_cons, beq_iff_eq, reduceCtorEq, if_false] at hcount
  exact List.count_pos_iff.mp (by omega)

/-! ## The books of a session -/

/-- What waits and what was heard of a session that plays. -/
structure Books (number : Nat) (notes : List Note) (pool : List Task) (es : List Event) : Prop where
  starts : ∀ n, pool.count (.start number n) + es.count (.noteOn n) = notes.count n
  stops : ∀ n, pool.count (.stop number n) + es.count (.noteOff n) = es.count (.noteOn n)
  unended : .finished ∉ es

namespace Books

variable {number : Nat} {notes : List Note} {pool rest : List Task} {es : List Event} {task : Task}

theorem perm {pool' : List Task} (h : Books number notes pool es) (p : pool'.Perm pool) :
    Books number notes pool' es :=
  ⟨fun n => (congrArg (· + _) (p.count_eq _)).trans (h.starts n),
    fun n => (congrArg (· + _) (p.count_eq _)).trans (h.stops n), h.unended⟩

/-- Tasks of other sessions are not in the books. -/
theorem append_iff {gone : List Task} (hg : ∀ t ∈ gone, t.session ≠ number) :
    Books number notes (gone ++ pool) es ↔ Books number notes pool es := by
  have absent : ∀ t : Task, t.session = number → gone.count t = 0 := fun t ht =>
    List.count_eq_zero_of_not_mem fun hm => hg t hm ht
  have hstart : ∀ n, (gone ++ pool).count (.start number n) = pool.count (.start number n) := fun n => by
    rw [List.count_append, absent _ rfl, Nat.zero_add]
  have hstop : ∀ n, (gone ++ pool).count (.stop number n) = pool.count (.stop number n) := fun n => by
    rw [List.count_append, absent _ rfl, Nat.zero_add]
  constructor
  · intro h
    exact ⟨fun n => hstart n ▸ h.starts n, fun n => hstop n ▸ h.stops n, h.unended⟩
  · intro h
    exact ⟨fun n => (hstart n).symm ▸ h.starts n, fun n => (hstop n).symm ▸ h.stops n, h.unended⟩

theorem begin (number : Nat) (notes : List Note) :
    Books number notes (notes.map (Task.start number) ++ [.close number]) [] := by
  have hinj : Function.Injective (Task.start number) := by
    intro a b h
    cases h
    rfl
  refine ⟨fun n => ?_, fun n => ?_, List.not_mem_nil⟩
  · rw [List.count_append, List.count_map_of_injective _ _ hinj]
    simp
  · have hstop : Task.stop number n ∉ notes.map (Task.start number) ++ [.close number] := by simp
    simp [List.count_eq_zero_of_not_mem hstop]

/-- A firing keeps the books, and what it delivers by itself fits. -/
theorem fire (h : Books number notes (task :: rest) es) (ht : task.session = number) (ho : Orderly notes es)
    (origin : Nat) : Orderly notes (es ++ task.event?.toList) ∧
      Books number notes (rest ++ (task.wake? origin).toList.map (·.2)) (es ++ task.event?.toList) := by
  obtain ⟨h1, h2, h3⟩ := h
  cases task with
  | start k note =>
    obtain rfl : k = number := ht
    have hnote := h1 note
    rw [List.count_cons_self] at hnote
    -- The start that fires is one that waited, so the books have room for it.
    refine ⟨ho.concat ?_, ?_, ?_, ?_⟩
    · show es.count (.noteOn note) < notes.count note
      omega
    · intro n
      have := h1 n
      simp [Task.event?, Task.wake?, List.count_append, List.count_cons] at this ⊢
      omega
    · intro n
      have := h2 n
      simp [Task.event?, Task.wake?, List.count_append, List.count_cons] at this ⊢
      omega
    · simpa [Task.event?] using h3
  | stop k note =>
    obtain rfl : k = number := ht
    have hnote := h2 note
    rw [List.count_cons_self] at hnote
    refine ⟨ho.concat ?_, ?_, ?_, ?_⟩
    · show es.count (.noteOff note) < es.count (.noteOn note)
      omega
    · intro n
      have := h1 n
      simp [Task.event?, Task.wake?, List.count_append] at this ⊢
      omega
    · intro n
      have := h2 n
      simp [Task.event?, Task.wake?, List.count_append, List.count_cons] at this ⊢
      omega
    · simpa [Task.event?] using h3
  | close k =>
    refine ⟨by simpa [Task.event?] using ho, ?_, ?_, ?_⟩
    · intro n
      simpa [Task.event?, Task.wake?, List.count_cons] using h1 n
    · intro n
      simpa [Task.event?, Task.wake?, List.count_cons] using h2 n
    · simpa [Task.event?] using h3

/-- Once no task of the session waits, its end fits. -/
theorem fits_finished (h : Books number notes pool es) (hp : ∀ t ∈ pool, t.session ≠ number) :
    Fits notes es .finished := by
  refine ⟨h.unended, fun n => ?_⟩
  have h1 := h.starts n
  have h2 := h.stops n
  rw [List.count_eq_zero_of_not_mem fun hm => hp _ hm rfl] at h1 h2
  omega

end Books

/-! ## A session in a run -/

namespace AnyTimer

def heardOf (number : Nat) (w : AnyTimer) : List Event := (w.heard.filter (·.1 == number)).map (·.2)

theorem heardOf_append {w w' : AnyTimer} {new : List (Nat × Event)} (h : w'.heard = w.heard ++ new) (number : Nat) :
    w'.heardOf number = w.heardOf number ++ (new.filter (·.1 == number)).map (·.2) := by
  simp [heardOf, h]

/-- Nothing more is heard of a session after later ones. -/
theorem heardOf_newer {w w' : AnyTimer} {new : List (Nat × Event)} {number : Nat} (h : w'.heard = w.heard ++ new)
    (hn : ∀ x ∈ new, number < x.1) : w'.heardOf number = w.heardOf number := by
  have hnone : new.filter (·.1 == number) = [] := by
    refine List.filter_eq_nil_iff.mpr fun x hx => ?_
    have := hn x hx
    simp only [beq_iff_eq]
    omega
  rw [heardOf_append h, hnone, List.map_nil, List.append_nil]

/-- A session that plays. -/
structure Plays (number : Nat) (notes : List Note) (w : AnyTimer) : Prop where
  session : ∃ s, w.deck.session = some s ∧ s.number = number
  books : Books number notes w.pool (w.heardOf number)

/-- A session that came to its end by itself, with none after it. -/
structure Finished (number : Nat) (w : AnyTimer) : Prop where
  session : w.deck.session = none
  generation : w.deck.generation = number
  heard : .finished ∈ w.heardOf number

theorem plays_of_play {w : AnyTimer} (hw : Sound w) (notes : List Note) :
    (w.step (.play notes)).heardOf (w.step (.play notes)).deck.generation = [] ∧
      Plays (w.step (.play notes)).deck.generation notes (w.step (.play notes)) := by
  generalize hw' : w.step (.play notes) = w'
  cases hw' ▸ step_effect w (.play notes) with
  | idle gone hk => cases hk
  | fires s task rest id hk => cases hk
  | begins notes origin ids hdeck hheard hpool =>
    have hgen : w'.deck.generation = w.deck.generation + 1 := by rw [hdeck]; rfl
    have hnone : w'.heardOf (w.deck.generation + 1) = [] := by
      have hout : w'.heard.filter (·.1 == w.deck.generation + 1) = [] := by
        rw [hheard]
        refine List.filter_eq_nil_iff.mpr fun x hx => ?_
        have := hw.heardBefore x hx
        simp only [beq_iff_eq]
        omega
      simp [heardOf, hout]
    rw [hgen]
    refine ⟨hnone, ⟨_, by rw [hdeck]; rfl, rfl⟩, ?_⟩
    have hother : ∀ t ∈ w.pool, t.session ≠ w.deck.generation + 1 := fun t ht =>
      Nat.ne_of_lt (Nat.lt_succ_of_le (hw.sessions t ht))
    rw [hnone]
    exact ((Books.append_iff hother).mpr (Books.begin _ notes)).perm hpool

/-- A firing while a session plays: what is heard stays orderly, and the session plays on or
    has come to its end. -/
theorem fires_plays {number : Nat} {notes : List Note} {w w' : AnyTimer} {s : Session} {task : Task}
    {rest : List Task} {id : Nat} (hw : Sound w) (hp : Plays number notes w)
    (ho : Orderly notes (w.heardOf number)) (h : Fires w w' s task rest id) :
    Orderly notes (w'.heardOf number) ∧ (Plays number notes w' ∨ Finished number w') := by
  obtain ⟨hs, hn⟩ := Deck.live?_eq_some.mp h.live
  obtain ⟨s', hs', hn'⟩ := hp.session
  obtain rfl : s' = s := Option.some.inj (hs'.symm.trans hs)
  have htally : Tally (s'.after id task) w'.pool :=
    (((hw.tally s' hs).perm h.before.symm).after hn.symm id).perm h.after
  obtain ⟨ho', hb'⟩ := (hp.books.perm h.before.symm).fire (hn.symm.trans hn') ho s'.origin
  have hbooks := hb'.perm h.after
  have hof : ∀ es : List Event, ((es.map (s'.number, ·)).filter (·.1 == number)).map (·.2) = es := by
    intro es
    rw [List.filter_eq_self.mpr (by simp [hn']), List.map_map]
    exact List.map_id es
  have hheard := heardOf_append h.heard number
  rw [hof, ← List.append_assoc] at hheard
  by_cases hover : (s'.after id task).isOver = true
  · have hnone : ∀ t ∈ w'.pool, t.session ≠ number := by
      have := htally.isOver_iff.mp hover
      rwa [Session.after_number, hn'] at this
    rw [if_pos hover] at hheard
    refine ⟨?_, .inr ⟨?_, ?_, ?_⟩⟩
    · rw [hheard]
      exact ho'.concat (hbooks.fits_finished hnone)
    · rw [h.deck, if_pos hover]
    · rw [h.deck, ← hn']
      exact (hw.number s' hs).symm
    · rw [hheard]
      simp
  · rw [if_neg hover, List.append_nil] at hheard
    refine ⟨hheard ▸ ho', .inl ⟨⟨s'.after id task, ?_, ?_⟩, hheard ▸ hbooks⟩⟩
    · rw [h.deck, if_neg hover]
    · rw [Session.after_number, hn']

theorem step_plays {number : Nat} {notes : List Note} {w : AnyTimer} (m : Move) (hw : Sound w)
    (hp : Plays number notes w) (ho : Orderly notes (w.heardOf number)) :
    Orderly notes ((w.step m).heardOf number) ∧
      (Plays number notes (w.step m) ∨ Finished number (w.step m) ∨
        m.keepsSession = false ∧ Newer number (w.step m)) := by
  obtain ⟨s, hs, hn⟩ := hp.session
  have hgen : w.deck.generation = number := by rw [← hn]; exact (hw.number s hs).symm
  cases hk : m.keepsSession with
  | false =>
    have hnewer := newer_of_ends (w := w) hk
    rw [hgen] at hnewer
    refine ⟨?_, .inr (.inr ⟨rfl, hnewer⟩)⟩
    suffices (w.step m).heard = w.heard by
      rw [heardOf_append (this.trans (List.append_nil _).symm)]
      simpa using ho
    cases m with
    | play notes => rfl
    | stop => rfl
    | fire e => cases hk
    | tick moment => cases hk
    | listen change => cases hk
  | true =>
    generalize hw' : w.step m = w'
    cases hw' ▸ step_effect w m with
    | idle gone _ hdeck hheard hpool hgone =>
      have hsame : w'.heardOf number = w.heardOf number := by simp [heardOf, hheard]
      have hother : ∀ t ∈ gone, t.session ≠ number := fun t ht h =>
        Deck.live?_eq_none.mp (hgone t ht) s hs (hn.trans h.symm)
      refine ⟨hsame ▸ ho, .inl ⟨⟨s, by rw [hdeck]; exact hs, hn⟩, ?_⟩⟩
      rw [hsame]
      exact (Books.append_iff hother).mp (hp.books.perm hpool.symm)
    | fires s task rest id _ h =>
      obtain ⟨ho', hc | hc⟩ := fires_plays hw hp ho h
      · exact ⟨ho', .inl hc⟩
      · exact ⟨ho', .inr (.inl hc)⟩
    | ends => cases hk
    | begins => cases hk

/-- A session that came to its end stays there until another starts. -/
theorem step_finished {number : Nat} {w : AnyTimer} (m : Move) (hf : Finished number w) :
    (w.step m).heardOf number = w.heardOf number ∧
      (Finished number (w.step m) ∨ m.keepsSession = false ∧ Newer number (w.step m)) := by
  generalize hw' : w.step m = w'
  cases hw' ▸ step_effect w m with
  | idle gone _ hdeck hheard _ _ =>
    have hsame : w'.heardOf number = w.heardOf number := by simp [heardOf, hheard]
    refine ⟨hsame, .inl ⟨?_, ?_, ?_⟩⟩
    · rw [hdeck]; exact hf.session
    · rw [hdeck]; exact hf.generation
    · rw [hsame]; exact hf.heard
  | fires s task rest id _ h =>
    have hs := (Deck.live?_eq_some.mp h.live).1
    rw [hf.session] at hs
    cases hs
  | ends hdeck hheard _ =>
    have hnewer := newer_of_ends (w := w) (m := .stop) rfl
    rw [hf.generation, hw'] at hnewer
    exact ⟨by simp [heardOf, hheard], .inr ⟨rfl, hnewer⟩⟩
  | begins notes origin ids hdeck hheard _ =>
    have hnewer := newer_of_ends (w := w) (m := .play notes) rfl
    rw [hf.generation, hw'] at hnewer
    exact ⟨by simp [heardOf, hheard], .inr ⟨rfl, hnewer⟩⟩

/-- The course of a session: it plays, it came to its end, or others came after it. The last
    happens only by a move that ends it. -/
theorem run_plays {number : Nat} {notes : List Note} {w : AnyTimer} (hw : Sound w)
    (hc : Plays number notes w ∨ Finished number w) (ho : Orderly notes (w.heardOf number)) (moves : List Move) :
    Orderly notes ((w.run moves).heardOf number) ∧
      ((∀ m ∈ moves, m.keepsSession = true) → Plays number notes (w.run moves) ∨ Finished number (w.run moves)) := by
  induction moves generalizing w with
  | nil => exact ⟨ho, fun _ => hc⟩
  | cons m moves ih =>
    -- Once a later session has begun, nothing more is heard of this one.
    have hlater : Newer number (w.step m) → Orderly notes ((w.step m).heardOf number) →
        Orderly notes (((w.step m).run moves).heardOf number) := by
      intro hnewer hord
      obtain ⟨-, new, hheard, hnew⟩ := run_newer hnewer moves
      rw [heardOf_newer hheard hnew]
      exact hord
    have hkeeps : m.keepsSession = false → ¬ ∀ m' ∈ m :: moves, m'.keepsSession = true := by
      intro hk hall
      rw [hall m (List.mem_cons_self ..)] at hk
      cases hk
    -- As long as it plays, or has come to its end with none after it, the rest of the run goes on from there.
    have hnext : ∀ h : Orderly notes ((w.step m).heardOf number),
        (Plays number notes (w.step m) ∨ Finished number (w.step m)) →
        Orderly notes ((w.run (m :: moves)).heardOf number) ∧ ((∀ m' ∈ m :: moves, m'.keepsSession = true) →
          Plays number notes (w.run (m :: moves)) ∨ Finished number (w.run (m :: moves))) := by
      intro h hcase
      obtain ⟨h1, h2⟩ := ih (step_sound w m hw) hcase h
      exact ⟨h1, fun hall => h2 fun m' hm' => hall m' (List.mem_cons_of_mem _ hm')⟩
    rcases hc with hp | hf
    · obtain ⟨ho', hp' | hf' | ⟨hk, hnewer⟩⟩ := step_plays m hw hp ho
      · exact hnext ho' (.inl hp')
      · exact hnext ho' (.inr hf')
      · exact ⟨hlater hnewer ho', fun hall => absurd hall (hkeeps hk)⟩
    · obtain ⟨hsame, hf' | ⟨hk, hnewer⟩⟩ := step_finished m hf
      · exact hnext (hsame ▸ ho) (.inr hf')
      · exact ⟨hlater hnewer (hsame ▸ ho), fun hall => absurd hall (hkeeps hk)⟩

/-- All that is heard while a session is left to its tasks is of that session. -/
theorem heard_play {w : AnyTimer} (hw : Sound w) (notes : List Note) {moves : List Move}
    (hm : ∀ m ∈ moves, m.keepsSession = true) : ∃ fresh, ((w.step (.play notes)).run moves).heard = w.heard ++ fresh ∧
      (∀ x ∈ fresh, x.1 = w.deck.generation + 1) ∧ Orderly notes (fresh.map (·.2)) := by
  have hgen : (w.step (.play notes)).deck.generation = w.deck.generation + 1 :=
    congrArg Deck.generation (Scheduler.deck_playNotes ..)
  obtain ⟨hnone, hplays⟩ := plays_of_play hw notes
  rw [hgen] at hnone hplays
  have hstarted := step_sound w (.play notes) hw
  have hlast : Sound ((w.step (.play notes)).run moves) := run_of_step step_sound hstarted moves
  obtain ⟨horderly, hcourse⟩ := run_plays hstarted (.inl hplays) (hnone ▸ .nil notes) moves
  obtain ⟨-, fresh, hheard, hfresh⟩ := run_newer (newer_of_ends (w := w) (m := .play notes) rfl) moves
  have hgeneration : ((w.step (.play notes)).run moves).deck.generation = w.deck.generation + 1 := by
    rcases hcourse hm with hp | hf
    · obtain ⟨s, hs, hn⟩ := hp.session
      exact (hlast.number s hs).symm.trans hn
    · exact hf.generation
  have hall : ∀ x ∈ fresh, x.1 = w.deck.generation + 1 := fun x hx =>
    Nat.le_antisymm (hgeneration ▸ hlast.heardBefore x (hheard ▸ List.mem_append_right _ hx)) (hfresh x hx)
  refine ⟨fresh, hheard, hall, ?_⟩
  have hof : fresh.filter (·.1 == w.deck.generation + 1) = fresh :=
    List.filter_eq_self.mpr fun x hx => by simp [hall x hx]
  rwa [heardOf_append hheard, hnone, List.nil_append, hof] at horderly

/-! ## Safety whatever the timer does -/

/-- No task that may fire takes a counter below zero. -/
def NoUnderflow (w : AnyTimer) : Prop :=
  ∀ e ∈ w.waiting, ∀ s, w.deck.live? e.task.session = some s →
    (e.task.kind = .start → 0 < s.unplayed) ∧ (e.task.kind = .stop → 0 < s.sounding)

/-- Once a stop or a start has ended what played, nothing of it is heard again, nor of any
    session before it. -/
def EndsForGood (w : AnyTimer) : Prop :=
  (∀ s, w.deck.session = some s → s.number ≤ w.deck.generation) ∧
    (∀ x ∈ w.heard, x.1 ≤ w.deck.generation) ∧
    ∀ m : Move, m.keepsSession = false → ∀ moves, ∃ later,
      ((w.step m).run moves).heard = w.heard ++ later ∧ ∀ x ∈ later, w.deck.generation < x.1

/-- A session that starts is heard in an orderly way; once all its tasks have fired, and nothing
    ended it before, its end was heard once and it is cleared. -/
def RunsItsCourse (w : AnyTimer) : Prop :=
  ∀ notes moves, let started := w.step (.play notes)
    let number := started.deck.generation
    let last := started.run moves
    Orderly notes (last.heardOf number) ∧
      ((∀ m ∈ moves, m.keepsSession = true) → (∀ t ∈ last.pool, t.session ≠ number) →
        (last.heardOf number).count .finished = 1 ∧ last.deck.session = none)

/-- What is heard is what the listeners get: every event reaches each of them as it comes, and one that
    listens, and neither reads nor hangs up, has all of them in the order in which they came. -/
def ReachesListeners (w : AnyTimer) : Prop :=
  ∀ moves, (∀ m ∈ moves, ∀ change, m ≠ .listen change) → ∃ new, (w.run moves).heard = w.heard ++ new ∧
    (w.run moves).scheduler.stage.listeners = w.scheduler.stage.listeners.map (·.after (new.map (·.2))) ∧
    ∀ (i : Nat) (inbox : List Event), w.scheduler.stage.listeners[i]? = some (.listening inbox) →
      (w.run moves).scheduler.stage.listeners[i]? = some (.listening (inbox ++ new.map (·.2)))

theorem Sound.noUnderflow {w : AnyTimer} (hw : Sound w) : NoUnderflow w := by
  intro e he s hlive
  obtain ⟨hs, hn⟩ := Deck.live?_eq_some.mp hlive
  have hmem : e.task ∈ w.pool := List.mem_map_of_mem he
  refine ⟨fun hk => ?_, fun hk => ?_⟩
  · exact (hw.tally s hs).unplayed_pos hmem (Task.isOf_iff.mpr ⟨hk, hn.symm⟩)
  · exact (hw.tally s hs).sounding_pos hmem (Task.isOf_iff.mpr ⟨hk, hn.symm⟩)

theorem Sound.endsForGood {w : AnyTimer} (hw : Sound w) : EndsForGood w := by
  refine ⟨fun s hs => Nat.le_of_eq (hw.number s hs), hw.heardBefore, fun m hm moves => ?_⟩
  obtain ⟨-, later, hheard, hlater⟩ := run_newer (newer_of_ends (w := w) hm) moves
  have hquiet : (w.step m).heard = w.heard := by
    cases m with
    | play notes => rfl
    | stop => rfl
    | fire e => cases hm
    | tick moment => cases hm
    | listen change => cases hm
  exact ⟨later, hquiet ▸ hheard, hlater⟩

theorem Sound.runsItsCourse {w : AnyTimer} (hw : Sound w) : RunsItsCourse w := by
  intro notes moves started number last
  obtain ⟨hnone, hplays⟩ := plays_of_play hw notes
  have ho : Orderly notes (started.heardOf number) := by
    rw [hnone]
    exact .nil notes
  obtain ⟨horderly, hcourse⟩ := run_plays (step_sound w _ hw) (.inl hplays) ho moves
  refine ⟨horderly, fun hkeeps hgone => ?_⟩
  rcases hcourse hkeeps with hp | hf
  · obtain ⟨s, hs, hn⟩ := hp.session
    have hlast : Sound last := run_of_step step_sound (step_sound w _ hw) moves
    have hover := (hlast.tally s hs).isOver_iff.mpr (hn ▸ hgone)
    rw [hlast.unfinished s hs] at hover
    cases hover
  · refine ⟨?_, hf.session⟩
    have hle := horderly.count_finished_le
    have hpos : 0 < (last.heardOf number).count .finished := List.count_pos_iff.mpr hf.heard
    exact Nat.le_antisymm hle hpos

theorem reachesListeners (w : AnyTimer) : ReachesListeners w := by
  intro moves hm
  obtain ⟨new, hheard, hlisteners⟩ := listeners_run w hm
  refine ⟨new, hheard, hlisteners, fun i inbox hi => ?_⟩
  rw [hlisteners, List.getElem?_map, hi, Option.map_some, Listener.after_listening]

/-- Whatever the timer does, at every point of every run: no counter is taken below zero, a
    session that was ended is not heard again, one that starts runs its course, and what is heard
    is what the listeners get. -/
theorem any_order_is_safe (moves : List Move) :
    NoUnderflow (start.run moves) ∧ EndsForGood (start.run moves) ∧ RunsItsCourse (start.run moves) ∧
      ReachesListeners (start.run moves) :=
  ⟨(run_sound moves).noUnderflow, (run_sound moves).endsForGood, (run_sound moves).runsItsCourse,
    reachesListeners _⟩

/-- The task of the end fires first, and a task of a session that was replaced fires last. -/
example : let n : Note := ⟨0, ['c'], 0, 127, 60, 0, 500⟩
    let w := start.run [.play [n], .play [n], .fire ⟨500000000, 4, .close 2⟩, .fire ⟨0, 3, .start 2 n⟩,
      .fire ⟨500000000, 5, .stop 2 n⟩, .fire ⟨0, 1, .start 1 n⟩]
    w.heard = [(2, .noteOn n), (2, .noteOff n), (2, .finished)] ∧ w.pool = [.close 1] := by
  decide +kernel

end AnyTimer

end Ostinato.Playback
