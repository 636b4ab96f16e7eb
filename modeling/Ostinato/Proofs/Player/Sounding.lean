import Ostinato.Player.Outputs
import Ostinato.Proofs.Playback.Performance
import Ostinato.Proofs.Score.Places

/-!
  Ostinato.Proofs.Player.Sounding: the keys of a MIDI output and the notes that sound.

  An output keeps the keys that it switched on by channel and key, not by note. So when a note
  stops, its key goes, also if another note of the same channel and key has started by then;
  and notes that follow each other do start before the first of them stops.

  `midi_follows_iff`: the keys switched on are those of the notes that sound, at every point of
  a playback, exactly if no two notes of one channel and key touch or overlap (`Apart`).
-/

namespace Ostinato.Midi

open Score Playback

/-- The channel and key of a note, if it has a key. -/
def slotOf (mode : ChannelMode) (n : Note) : Option (Channel × Key) := n.key?.map (mode.channelOf n.track, ·)

namespace Output

def after (o : Output) (es : List Event) : Output := es.foldl (fun o e => (o.handle e).output) o

variable {o : Output} {n : Note} {slot : Channel × Key}

@[simp] theorem after_nil : o.after [] = o := rfl

theorem after_concat (es : List Event) (e : Event) : o.after (es ++ [e]) = ((o.after es).handle e).output := by
  simp [after]

@[simp] theorem mode_handle (e : Event) : (o.handle e).output.mode = o.mode := by
  cases e with
  | noteOn n => simp only [handle, noteOn]; split <;> rfl
  | noteOff n => simp only [handle, noteOff]; split <;> rfl
  | finished => rfl

@[simp] theorem mode_after (es : List Event) : (o.after es).mode = o.mode := by
  induction es using List.reverseRecOn with
  | nil => rfl
  | append_singleton es e ih => rw [after_concat, mode_handle, ih]

theorem mem_noteOn : slot ∈ (o.noteOn n).output.active ↔ slot ∈ o.active ∨ slotOf o.mode n = some slot := by
  unfold noteOn slotOf
  cases n.key? with
  | none => simp
  | some key =>
    simp only [send, List.mem_insert_iff, Option.map_some, Option.some.injEq]
    constructor
    · intro hmem
      rcases hmem with rfl | h
      · exact .inr rfl
      · exact .inl h
    · intro hmem
      rcases hmem with h | rfl
      · exact .inr h
      · exact .inl rfl

theorem mem_noteOff (h : o.active.Nodup) :
    slot ∈ (o.noteOff n).output.active ↔ slot ∈ o.active ∧ slotOf o.mode n ≠ some slot := by
  unfold noteOff slotOf
  cases n.key? with
  | none => simp
  | some key =>
    simp only [send, h.mem_erase_iff, Option.map_some, ne_eq, Option.some.injEq]
    constructor
    · intro hkey
      obtain ⟨hne, hmem⟩ := hkey
      exact ⟨hmem, fun heq => hne heq.symm⟩
    · intro hkey
      obtain ⟨hmem, hne⟩ := hkey
      exact ⟨fun heq => hne heq.symm, hmem⟩

theorem nodup_handle (h : o.active.Nodup) (e : Event) : (o.handle e).output.active.Nodup := by
  cases e with
  | noteOn n =>
    simp only [handle, noteOn]
    split
    · exact h
    · exact h.insert
  | noteOff n =>
    simp only [handle, noteOff]
    split
    · exact h
    · exact h.erase _
  | finished => exact h

theorem nodup_after (h : o.active.Nodup) (es : List Event) : (o.after es).active.Nodup := by
  induction es using List.reverseRecOn with
  | nil => exact h
  | append_singleton es e ih =>
    rw [after_concat]
    exact nodup_handle ih e

end Output

/-- Whether a note was switched on by some events, and not yet off. -/
def IsOn (es : List Event) (n : Note) : Prop := .noteOn n ∈ es ∧ .noteOff n ∉ es

theorem isOn_noteOn {es : List Event} {m n : Note} :
    IsOn (es ++ [.noteOn n]) m ↔ IsOn es m ∨ m = n ∧ .noteOff n ∉ es := by
  simp only [IsOn, List.mem_append, List.mem_singleton, Event.noteOn.injEq, reduceCtorEq, or_false]
  constructor
  · intro h
    rcases h with ⟨hm | rfl, hoff⟩
    · exact .inl ⟨hm, hoff⟩
    · exact .inr ⟨rfl, hoff⟩
  · intro h
    rcases h with ⟨hm, hoff⟩ | ⟨rfl, hoff⟩
    · exact ⟨.inl hm, hoff⟩
    · exact ⟨.inr rfl, hoff⟩

theorem isOn_noteOff {es : List Event} {m n : Note} : IsOn (es ++ [.noteOff n]) m ↔ IsOn es m ∧ m ≠ n := by
  simp only [IsOn, List.mem_append, List.mem_singleton, Event.noteOff.injEq, reduceCtorEq, or_false, not_or]
  exact and_assoc.symm

/-- Whether some keys are those of the notes that are on. -/
def Follows (mode : ChannelMode) (active : List (Channel × Key)) (es : List Event) : Prop :=
  ∀ slot, slot ∈ active ↔ ∃ n, IsOn es n ∧ slotOf mode n = some slot

/-- No two notes of one channel and key touch or overlap. -/
def Apart (mode : ChannelMode) (origin : Nat) (notes : List Note) : Prop :=
  ∀ m ∈ notes, ∀ n ∈ notes, m ≠ n → ∀ slot, slotOf mode m = some slot → slotOf mode n = some slot →
    timeOf origin m.stop < timeOf origin n.start ∨ timeOf origin n.stop < timeOf origin m.start

/-! ## Along a timetable -/

def eventsAt (cues : List Cue) : List Event := cues.filterMap Cue.event?

theorem noteOn_mem_eventsAt {cues : List Cue} {n : Note} : .noteOn n ∈ eventsAt cues ↔ ∃ i, .on i n ∈ cues := by
  simp only [eventsAt, List.mem_filterMap]
  constructor
  · intro hmem
    obtain ⟨c, hc, he⟩ := hmem
    cases c with
    | on i m => cases he; exact ⟨i, hc⟩
    | close => cases he
    | off i m => cases he
  · intro hon
    obtain ⟨i, hc⟩ := hon
    exact ⟨_, hc, rfl⟩

theorem noteOff_mem_eventsAt {cues : List Cue} {n : Note} : .noteOff n ∈ eventsAt cues ↔ ∃ i, .off i n ∈ cues := by
  simp only [eventsAt, List.mem_filterMap]
  constructor
  · intro hmem
    obtain ⟨c, hc, he⟩ := hmem
    cases c with
    | on i m => cases he
    | close => cases he
    | off i m => cases he; exact ⟨i, hc⟩
  · intro hoff
    obtain ⟨i, hc⟩ := hoff
    exact ⟨_, hc, rfl⟩

variable {mode : ChannelMode} {origin : Nat} {notes : List Note} {done rest : List Cue}

theorem mem_timetable {c : Cue} : c ∈ timetable origin notes ↔ c ∈ cuesOf notes := List.mem_mergeSort

theorem place_eq (hd : notes.Nodup) {i j : Nat} {n : Note} (hi : notes[i]? = some n) (hj : notes[j]? = some n) : i = j :=
  (List.getElem?_inj (List.getElem?_eq_some_iff.mp hi).1 hd).mp (hi.trans hj.symm)

/-- Notes that are apart are not on together, if they have one slot. -/
theorem not_both_on (ha : Apart mode origin notes) (h : timetable origin notes = done ++ rest)
    {m n : Note} (hm : IsOn (eventsAt done) m) (hn : IsOn (eventsAt done) n) (hne : m ≠ n) {slot : Channel × Key}
    (hms : slotOf mode m = some slot) : slotOf mode n ≠ some slot := by
  intro hns
  obtain ⟨i, hi⟩ := noteOn_mem_eventsAt.mp hm.1
  obtain ⟨j, hj⟩ := noteOn_mem_eventsAt.mp hn.1
  have hall : ∀ c ∈ done, c ∈ cuesOf notes := fun c hc => mem_timetable.mp (h ▸ List.mem_append_left _ hc)
  have hgi := mem_cuesOf_on.mp (hall _ hi)
  have hgj := mem_cuesOf_on.mp (hall _ hj)
  -- the stop of a note that is on is to come, so it is not due before the start of the other one
  have hlater : ∀ {k l : Nat} {a b : Note}, .on k a ∈ done → .noteOff b ∉ eventsAt done → notes[l]? = some b →
      ¬ timeOf origin b.stop < timeOf origin a.start := by
    intro k l a b hon hoff hget hlt
    have hmem : Cue.off l b ∈ done ++ rest := h ▸ mem_timetable.mpr (mem_cuesOf_off.mpr hget)
    have hrest : Cue.off l b ∈ rest := by
      rcases List.mem_append.mp hmem with hc | hc
      · exact absurd (noteOff_mem_eventsAt.mpr ⟨l, hc⟩) hoff
      · exact hc
    have ho : Cue.Ordered origin notes (done ++ rest) := h ▸ timetable_ordered
    have hkey := (List.pairwise_append.mp ho).2.2 _ hon _ hrest
    exact Nat.not_lt.mpr (Cue.due_le_of_key_lt hkey) hlt
  rcases ha m (List.mem_of_getElem? hgi) n (List.mem_of_getElem? hgj) hne slot hms hns with hlt | hlt
  · exact hlater hj hm.2 hgi hlt
  · exact hlater hi hn.2 hgj hlt

theorem not_stopped (hd : notes.Nodup) (hstart : ∀ n ∈ notes, n.start ≤ maxMillis) {i : Nat} {n : Note}
    (h : timetable origin notes = done ++ .on i n :: rest) : .noteOff n ∉ eventsAt done := by
  intro hmem
  have ho : Cue.Ordered origin notes (done ++ .on i n :: rest) := h ▸ timetable_ordered
  have hall : ∀ b ∈ done ++ .on i n :: rest, b ∈ cuesOf notes := fun b hb => mem_timetable.mp (h ▸ hb)
  have hget := mem_cuesOf_on.mp (hall _ (List.mem_append_right _ (List.mem_cons_self ..)))
  obtain ⟨j, hj⟩ := noteOff_mem_eventsAt.mp hmem
  have hij := place_eq hd (mem_cuesOf_off.mp (hall _ (List.mem_append_left _ hj))) hget
  subst hij
  exact lt_asymm (ho.mem_before.mp hj).2 (on_before_off (hstart n (List.mem_of_getElem? hget)))

theorem not_started (hd : notes.Nodup) {i : Nat} {n : Note} (h : timetable origin notes = done ++ .on i n :: rest) :
    .noteOn n ∉ eventsAt done := by
  intro hmem
  have ho : Cue.Ordered origin notes (done ++ .on i n :: rest) := h ▸ timetable_ordered
  have hall : ∀ b ∈ done ++ .on i n :: rest, b ∈ cuesOf notes := fun b hb => mem_timetable.mp (h ▸ hb)
  have hget := mem_cuesOf_on.mp (hall _ (List.mem_append_right _ (List.mem_cons_self ..)))
  obtain ⟨j, hj⟩ := noteOn_mem_eventsAt.mp hmem
  have hij := place_eq hd (mem_cuesOf_on.mp (hall _ (List.mem_append_left _ hj))) hget
  subst hij
  exact absurd (ho.mem_before.mp hj).2 (lt_irrefl _)

theorem isOn_of_stops (hd : notes.Nodup) (hstart : ∀ n ∈ notes, n.start ≤ maxMillis) {i : Nat} {n : Note}
    (h : timetable origin notes = done ++ .off i n :: rest) : IsOn (eventsAt done) n := by
  have ho : Cue.Ordered origin notes (done ++ .off i n :: rest) := h ▸ timetable_ordered
  have hall : ∀ b ∈ done ++ .off i n :: rest, b ∈ cuesOf notes := fun b hb => mem_timetable.mp (h ▸ hb)
  have hget := mem_cuesOf_off.mp (hall _ (List.mem_append_right _ (List.mem_cons_self ..)))
  constructor
  · refine noteOn_mem_eventsAt.mpr ⟨i, ho.mem_before.mpr ⟨?_, ?_⟩⟩
    · exact h ▸ mem_timetable.mpr (mem_cuesOf_on.mpr hget)
    · exact on_before_off (hstart n (List.mem_of_getElem? hget))
  · intro hmem
    obtain ⟨j, hj⟩ := noteOff_mem_eventsAt.mp hmem
    have hij := place_eq hd (mem_cuesOf_off.mp (hall _ (List.mem_append_left _ hj))) hget
    subst hij
    exact absurd (ho.mem_before.mp hj).2 (lt_irrefl _)

/-- A start switches its own key on and no other. -/
theorem Follows.noteOn {o : Output} {es : List Event} (h : Follows o.mode (o.after es).active es) {n : Note}
    (hoff : .noteOff n ∉ es) :
    Follows o.mode (o.after (es ++ [.noteOn n])).active (es ++ [.noteOn n]) := by
  intro slot
  rw [Output.after_concat, Output.handle, Output.mem_noteOn, h slot, Output.mode_after]
  simp only [isOn_noteOn]
  constructor
  · intro hkey
    rcases hkey with ⟨m, hm, hs⟩ | hs
    · exact ⟨m, .inl hm, hs⟩
    · exact ⟨n, .inr ⟨rfl, hoff⟩, hs⟩
  · intro hnote
    rcases hnote with ⟨m, hm | ⟨rfl, -⟩, hs⟩
    · exact .inl ⟨m, hm, hs⟩
    · exact .inr hs

/-- A stop switches its own key off, and no other note's unless one of the same slot is on. -/
theorem Follows.noteOff {o : Output} (hact : o.active = []) {es : List Event}
    (h : Follows o.mode (o.after es).active es) {n : Note}
    (halone : ∀ m, IsOn es m → m ≠ n → ∀ slot, slotOf o.mode m = some slot → slotOf o.mode n ≠ some slot) :
    Follows o.mode (o.after (es ++ [.noteOff n])).active (es ++ [.noteOff n]) := by
  intro slot
  have hnodup : (o.after es).active.Nodup := Output.nodup_after (by simp [hact]) es
  rw [Output.after_concat, Output.handle, Output.mem_noteOff hnodup, h slot, Output.mode_after]
  simp only [isOn_noteOff]
  constructor
  · intro hkey
    obtain ⟨⟨m, hm, hs⟩, hne⟩ := hkey
    exact ⟨m, ⟨hm, fun heq => hne (heq ▸ hs)⟩, hs⟩
  · intro hnote
    obtain ⟨m, ⟨hm, hne⟩, hs⟩ := hnote
    exact ⟨⟨m, hm, hs⟩, halone m hm hne slot hs⟩

/-- Along the timetable of notes that are apart, the keys switched on follow the notes that are on. -/
theorem follows_of_apart (hd : notes.Nodup) (hstart : ∀ n ∈ notes, n.start ≤ maxMillis) {o : Output}
    (ha : Apart o.mode origin notes) (hact : o.active = []) (h : timetable origin notes = done ++ rest) :
    Follows o.mode (o.after (eventsAt done)).active (eventsAt done) := by
  induction done using List.reverseRecOn generalizing rest with
  | nil =>
    intro slot
    simp [eventsAt, hact, IsOn]
  | append_singleton done c ih =>
    rw [List.append_assoc, List.singleton_append] at h
    have hfollows := ih h
    have hsplit : eventsAt (done ++ [c]) = eventsAt done ++ c.event?.toList := by
      simp only [eventsAt, List.filterMap_append, List.filterMap_cons, List.filterMap_nil]
      cases c.event? <;> rfl
    rw [hsplit]
    cases c with
    | close =>
      have hc : Cue.close ∈ timetable origin notes := h ▸ List.mem_append_right _ (List.mem_cons_self ..)
      exact absurd (mem_timetable.mp hc) close_notMem_cuesOf
    | on i n => exact hfollows.noteOn (not_stopped hd hstart h)
    | off i n =>
      apply hfollows.noteOff hact
      intro m hm hne slot hs
      exact not_both_on ha h hm (isOn_of_stops hd hstart h) hne hs

/-- Where a note stops while another of its slot is on, the other one's key is lost. -/
theorem lost_of_overlap (hd : notes.Nodup) {o : Output} (hact : o.active = [])
    {i j : Nat} {m n : Note} (hi : notes[i]? = some m) (hj : notes[j]? = some n)
    (hfirst : (Cue.off i m).key origin notes < (Cue.off j n).key origin notes)
    (hover : ¬ timeOf origin m.stop < timeOf origin n.start) {slot : Channel × Key}
    (hms : slotOf o.mode m = some slot) (hns : slotOf o.mode n = some slot) :
    ∃ done rest, timetable origin notes = done ++ rest ∧
      ¬ Follows o.mode (o.after (eventsAt done)).active (eventsAt done) := by
  obtain ⟨done, rest, h⟩ := List.append_of_mem (mem_timetable.mpr (mem_cuesOf_off.mpr hi) : Cue.off i m ∈ timetable origin notes)
  have ho : Cue.Ordered origin notes (done ++ .off i m :: rest) := h ▸ timetable_ordered
  have hall : ∀ b ∈ done ++ .off i m :: rest, b ∈ cuesOf notes := fun b hb => mem_timetable.mp (h ▸ hb)
  refine ⟨done ++ [.off i m], rest, by rw [h, List.append_assoc, List.singleton_append], fun hfollows => ?_⟩
  have hsplit : eventsAt (done ++ [.off i m]) = eventsAt done ++ [.noteOff m] := by
    simp [eventsAt, Cue.event?]
  have hkey : (Cue.on j n).key origin notes < (Cue.off i m).key origin notes := by
    refine Cue.key_lt_iff.mpr ?_
    simp only [Cue.due, Cue.rank]
    omega
  have hon : IsOn (eventsAt (done ++ [.off i m])) n := by
    rw [hsplit, isOn_noteOff]
    refine ⟨⟨noteOn_mem_eventsAt.mpr ⟨j, ?_⟩, fun hmem => ?_⟩, ?_⟩
    · exact ho.mem_before.mpr ⟨h ▸ mem_timetable.mpr (mem_cuesOf_on.mpr hj), hkey⟩
    · obtain ⟨k, hk⟩ := noteOff_mem_eventsAt.mp hmem
      have hjk := place_eq hd (mem_cuesOf_off.mp (hall _ (List.mem_append_left _ hk))) hj
      subst hjk
      exact lt_asymm hfirst (ho.mem_before.mp hk).2
    · intro heq
      subst heq
      have hij := place_eq hd hi hj
      subst hij
      exact absurd hfirst (lt_irrefl _)
  have hin := (hfollows slot).mpr ⟨n, hon, hns⟩
  rw [hsplit, Output.after_concat, Output.handle, Output.mem_noteOff (Output.nodup_after (by simp [hact]) _),
    Output.mode_after] at hin
  exact hin.2 hms

/-- The second of two equal pitches is on, and its key is lost. -/
example : let m : Note := ⟨5, ['c'], 0, 127, 60, 0, 500⟩
    let n : Note := ⟨7, ['c'], 0, 127, 60, 500, 500⟩
    let es : List Event := [.noteOn m, .noteOn n, .noteOff m]
    (Output.idle.after es).active = [] ∧ .noteOn n ∈ es ∧ .noteOff n ∉ es := by
  decide

/-- The keys switched on follow the notes that are on, all along the timetable, exactly if the
    notes are apart. -/
theorem follows_iff_apart (hd : notes.Nodup) (hstart : ∀ n ∈ notes, n.start ≤ maxMillis) {o : Output}
    (hact : o.active = []) : (∀ done rest, timetable origin notes = done ++ rest →
      Follows o.mode (o.after (eventsAt done)).active (eventsAt done)) ↔ Apart o.mode origin notes := by
  constructor
  · intro hall m hm n hn hne slot hms hns
    by_contra hover
    rw [not_or] at hover
    obtain ⟨i, hi⟩ := List.mem_iff_getElem?.mp hm
    obtain ⟨j, hj⟩ := List.mem_iff_getElem?.mp hn
    have hij : i ≠ j := by
      intro heq
      subst heq
      rw [hi] at hj
      exact hne (Option.some.inj hj)
    have hkeys : (Cue.off i m).key origin notes ≠ (Cue.off j n).key origin notes := Cue.key_ne_of_place hij
    rcases lt_or_gt_of_ne hkeys with hlt | hlt
    · obtain ⟨done, rest, h, hlost⟩ := lost_of_overlap hd hact hi hj hlt hover.1 hms hns
      exact hlost (hall done rest h)
    · obtain ⟨done, rest, h, hlost⟩ := lost_of_overlap hd hact hj hi hlt hover.2 hns hms
      exact hlost (hall done rest h)
  · intro ha done rest h
    exact follows_of_apart hd hstart ha hact h

end Ostinato.Midi

namespace Ostinato.Player

open Playback Score Midi

/-! ## Along a playback -/

/-- A MIDI output that is selected gets every event. -/
theorem midi_dispatch (palette : Palette) {o : Outputs} (h : o.selected = .midi) (es : List Event) :
    (es.foldl (Outputs.dispatch palette) o).midi = o.midi.after es ∧
      (es.foldl (Outputs.dispatch palette) o).selected = .midi := by
  induction es using List.reverseRecOn with
  | nil => exact ⟨rfl, h⟩
  | append_singleton es e ih =>
    rw [List.foldl_append, List.foldl_cons, List.foldl_nil, Output.after_concat, ← ih.1]
    simp [Outputs.dispatch, Outputs.forward, Outputs.sent, ih.2]

theorem events_performance (origin : Nat) (notes : List Note) :
    (performance origin notes).map (·.2) = eventsAt (timetable origin notes) ++ [.finished] := by
  have hevent : ∀ c, (Cue.delivery? origin notes c).map (·.2) = c.event? := by
    intro c
    simp [Cue.delivery?]
  simp [performance, eventsAt, List.map_filterMap, hevent]

/-- What a playback delivers first is what some first cues deliver, or all that it delivers. -/
theorem prefix_performance {origin : Nat} {notes : List Note} {es : List Event}
    (h : es <+: (performance origin notes).map (·.2)) :
    (∃ done rest, timetable origin notes = done ++ rest ∧ es = eventsAt done) ∨
      es = eventsAt (timetable origin notes) ++ [.finished] := by
  rw [events_performance] at h
  rcases List.prefix_concat_iff.mp h with h | ⟨more, h⟩
  · exact .inr h
  · obtain ⟨done, rest, htable, hdone, -⟩ := List.filterMap_eq_append_iff.mp h.symm
    exact .inl ⟨done, rest, htable, hdone.symm⟩

/-- What a playback delivers next, unless it is the end, is what its next cue delivers. -/
theorem next_cue {origin : Nat} {notes : List Note} {es more : List Event} {e : Event}
    (h : es ++ e :: more <+: (performance origin notes).map (·.2)) : e = .finished ∨ ∃ done c rest,
      timetable origin notes = done ++ c :: rest ∧ es = eventsAt done ∧ c.event? = some e := by
  have hfirst : es ++ [e] <+: (performance origin notes).map (·.2) := by
    refine List.IsPrefix.trans ⟨more, ?_⟩ h
    rw [List.append_assoc, List.singleton_append]
  rcases prefix_performance hfirst with ⟨done, rest, htable, hes⟩ | hes
  · obtain ⟨before, now, rfl, rfl, hnow⟩ := List.filterMap_eq_append_iff.mp hes.symm
    obtain ⟨skipped, c, after, rfl, hskipped, hc, -⟩ := List.filterMap_eq_cons_iff.mp hnow
    refine .inr ⟨before ++ skipped, c, after ++ rest, ?_, ?_, hc⟩
    · rw [htable]
      simp only [List.append_assoc, List.cons_append]
    · rw [eventsAt, List.filterMap_append, List.filterMap_eq_nil_iff.mpr hskipped, List.append_nil]
  · exact .inl (List.singleton_inj.mp (List.append_inj' hes rfl).2)

/-- However the clock of a playback moves, and however much of what it delivered was dispatched:
    the keys switched on are those of the notes that are on. -/
def MidiFollows (palette : Palette) (o : Outputs) (playback : Scheduler) : Prop :=
  ∀ acts : List Act, (∀ a ∈ acts, a.keepsSession = true) → ∀ es, es <+: (playback.record acts).map (·.2) →
    Follows o.midi.mode (es.foldl (Outputs.dispatch palette) o).midi.active es

theorem midiFollows_playNotes (palette : Palette) {s : Scheduler} (h : s.Tidy) {notes : List Note} (hd : notes.Nodup)
    (hstart : ∀ n ∈ notes, n.start ≤ maxMillis) {o : Outputs} (hsel : o.selected = .midi) (hact : o.midi.active = []) :
    MidiFollows palette o (s.playNotes notes).1 ↔ Apart o.midi.mode s.timer.now notes := by
  rw [← follows_iff_apart hd hstart hact]
  constructor
  · intro hall done rest htable
    have hkeeps : ∀ a ∈ [Act.runAll], a.keepsSession = true := by simp [Act.keepsSession]
    have hplayed := (played_out h notes hstart hkeeps (.inl trivial)).1
    have hes : eventsAt done <+: ((s.playNotes notes).1.record [.runAll]).map (·.2) := by
      rw [hplayed, events_performance, htable]
      simp only [eventsAt, List.filterMap_append, List.append_assoc]
      exact List.prefix_append ..
    have := hall [.runAll] hkeeps (eventsAt done) hes
    rwa [(midi_dispatch palette hsel _).1] at this
  · intro hall acts ha es hes
    rw [(midi_dispatch palette hsel _).1]
    rcases prefix_performance (hes.trans ((record_begins h notes hstart ha).map _)) with ⟨done, rest, htable, rfl⟩ | rfl
    · exact hall done rest htable
    · intro slot
      rw [Output.after_concat]
      refine ((hall _ [] (List.append_nil _).symm) slot).trans ?_
      simp [IsOn]

/-- For every text that compiles, played after any history: the keys that a MIDI output has switched
    on follow the notes that are on, at every point of the playback, exactly if no two notes of one
    channel and key touch or overlap. -/
theorem midi_follows_iff (history : List Act) (text : Text) (palette : Palette) (o : Outputs)
    (hsel : o.selected = .midi) (hact : o.midi.active = []) :
    let s := Scheduler.empty.run history
    match compile text with
    | .error _ => True
    | .ok notes => MidiFollows palette o (s.play text).1 ↔ Apart o.midi.mode s.timer.now notes := by
  intro s
  cases hc : compile text with
  | error fault => trivial
  | ok notes =>
    have hplay : (s.play text).1 = ((s.note ((Score.read text : Compilation Float).remarks.map Score.Remark.line)).playNotes
        notes).1 := by
      have hresult : (Score.read text : Compilation Float).result = .ok notes := hc
      simp only [Scheduler.play, hresult]
    show MidiFollows palette o (s.play text).1 ↔ _
    rw [hplay]
    exact midiFollows_playNotes palette (s := s.note _) (Scheduler.tidy_run history) (compile_nodup hc)
      (compile_start_le hc) hsel hact

/-- A key struck twice, at a port that takes messages. -/
theorem midi_follows_iff_repeated : let port : Port := ⟨"Synth", true, none, true⟩
    let o : Outputs := { Outputs.start .midi .perTrack with
      midi := { Output.idle with connection := some port, port := some port.name } }
    o.selected = .midi ∧ o.midi.active = [] ∧
      match compile "t120 c c".toList with
      | .error _ => True
      | .ok notes => MidiFollows .plain o (Scheduler.empty.play "t120 c c".toList).1 ↔ Apart .perTrack 0 notes :=
  ⟨rfl, rfl, midi_follows_iff [] "t120 c c".toList .plain _ rfl rfl⟩

end Ostinato.Player
