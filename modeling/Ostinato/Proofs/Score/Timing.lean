import Mathlib.Data.List.Forall2
import Ostinato.Proofs.Score.Feeding

/-!
  Ostinato.Proofs.Score.Timing: when something sounds does not hang on what sounds.

  Time is kept by the tempo, the denominator, the track, the cursor and what ties left over.
  Two states that agree on these are in step (`InStep`), and two clauses time alike if they take
  the same time or set it alike, whatever their pitches and volumes (`SameTiming`). Read side
  by side from states in step, such clauses stay in step, are at fault together and for the same
  reason, and yield notes of the same times (`Concurs`, `SameTiming.feed`).

  A note turned into a rest takes the same time (`Clause.silenced`), so it is missing from what
  is read and nothing else changes (`feed_silenced`).
-/

namespace Ostinato.Score

variable {α : Type}

/-- The states agree on all that keeps time. -/
structure InStep (s s' : State α) : Prop where
  tempo : s.tempo = s'.tempo
  denominator : s.denominator = s'.denominator
  track : s.track = s'.track
  cursor : s.cursor = s'.cursor
  pending : s.pending = s'.pending

/-- Whether a command sets how notes sound: their octave or their volume. -/
def Command.setsTone : Command → Bool
  | .octaveUp | .octaveDown | .octave _ | .volume _ => true
  | _ => false

/-- The clauses take the same time, or set it alike, or do neither. -/
inductive SameTiming (c c' : Clause) : Prop
  | time {command command' : Command} (hc : c.command = .ok command) (hc' : c'.command = .ok command')
      (ht : command.takesTime = true) (ht' : command'.takesTime = true)
      (number : c.modifiers.number = c'.modifiers.number) (dots : c.modifiers.dots = c'.modifiers.dots)
      (tie : c.modifiers.tie = c'.modifiers.tie)
  | tempo {n : Option Nat} (hc : c.command = .ok (.tempo n)) (hc' : c'.command = .ok (.tempo n))
  | length {n : Option Nat} (hc : c.command = .ok (.length n)) (hc' : c'.command = .ok (.length n))
  | nextTrack (hc : c.command = .ok .nextTrack) (hc' : c'.command = .ok .nextTrack)
  | tone {command command' : Command} (hc : c.command = .ok command) (hc' : c'.command = .ok command')
      (ht : command.setsTone = true) (ht' : command'.setsTone = true)

/-- The notes sound on the same track at the same time. -/
structure SameSpan (a b : Note) : Prop where
  track : a.track = b.track
  start : a.start = b.start
  duration : a.duration = b.duration

/-- What comes of two clauses agrees in time. -/
structure Concurs (x y : Clause × Reading α) : Prop where
  state : InStep x.2.state y.2.state
  /-- Neither is at fault, or each for the same reason. -/
  fault : (x.2.fault = none ∧ y.2.fault = none) ∨
    ∃ reason, x.2.fault = some (.invalidLength x.1.text x.1.offset reason) ∧
      y.2.fault = some (.invalidLength y.1.text y.1.offset reason)
  /-- Where both are notes that are not tied on, both sound. -/
  note : ∀ letter letter', x.1.command = .ok (.note letter) → y.1.command = .ok (.note letter') →
    x.1.modifiers.tie = false → x.2.fault = none → ∃ a b, x.2.note = some a ∧ y.2.note = some b ∧ SameSpan a b

theorem InStep.symm {s s' : State α} (h : InStep s s') : InStep s' s :=
  ⟨h.tempo.symm, h.denominator.symm, h.track.symm, h.cursor.symm, h.pending.symm⟩

theorem InStep.trans {s s' s'' : State α} (h : InStep s s') (h' : InStep s' s'') : InStep s s'' :=
  ⟨h.tempo.trans h'.tempo, h.denominator.trans h'.denominator, h.track.trans h'.track,
    h.cursor.trans h'.cursor, h.pending.trans h'.pending⟩

theorem takesTime_of_setsTone {command : Command} (h : command.setsTone = true) : command.takesTime = false := by
  cases command with
  | note letter => cases h
  | rest => cases h
  | _ => rfl

variable [Lengths α] {s s' : State α} {c c' : Clause} {cs cs' : List Clause}

/-! ## One clause -/

theorem length_congr {m m' : Modifiers} (hnumber : m.number = m'.number) (hdots : m.dots = m'.dots)
    (tempo denominator : Nat) :
    (m.length tempo denominator : Except (LengthFault α) α) = m'.length tempo denominator := by
  rw [Modifiers.length, Modifiers.length, hnumber, hdots]

theorem inStep_feed {command : Command} (hc : c.command = .ok command) (ht : command.setsTone = true) :
    InStep s (s.feed c).state := by
  unfold State.feed
  rw [hc]
  cases command with
  | octaveUp => exact ⟨rfl, rfl, rfl, rfl, rfl⟩
  | octaveDown => exact ⟨rfl, rfl, rfl, rfl, rfl⟩
  | octave n =>
    exact withNumber_cases (motive := fun r => InStep s r.state) ⟨rfl, rfl, rfl, rfl, rfl⟩
      fun k => ⟨rfl, rfl, rfl, rfl, rfl⟩
  | volume n =>
    exact withNumber_cases (motive := fun r => InStep s r.state) ⟨rfl, rfl, rfl, rfl, rfl⟩
      fun k => ⟨rfl, rfl, rfl, rfl, rfl⟩
  | _ => cases ht

theorem InStep.total (h : InStep s s') (ms : α) : s.total ms = s'.total ms := by
  rw [State.total, State.total, h.pending]

theorem InStep.pass (h : InStep s s') (ms : α) : InStep (s.settled.pass (s.total ms)) (s'.settled.pass (s'.total ms)) where
  tempo := h.tempo
  denominator := h.denominator
  track := h.track
  cursor := by
    rw [h.total]
    exact congrArg (Lengths.add · _) h.cursor
  pending := rfl

theorem InStep.sound (h : InStep s s') (c c' : Clause) (letter letter' : Letter) (ms : α) :
    SameSpan (s.settled.sound c letter (s.total ms)) (s'.settled.sound c' letter' (s'.total ms)) where
  track := h.track
  start := congrArg Lengths.toMillis h.cursor
  duration := by
    rw [h.total]
    show Lengths.toMillis (Lengths.add s.cursor _) - Lengths.toMillis s.cursor = _
    rw [h.cursor]
    rfl

/-- Notes and rests of the same modifiers concur. -/
theorem InStep.feed_time {command command' : Command} (hs : InStep s s') (hc : c.command = .ok command)
    (hc' : c'.command = .ok command') (ht : command.takesTime = true) (ht' : command'.takesTime = true)
    (hnumber : c.modifiers.number = c'.modifiers.number) (hdots : c.modifiers.dots = c'.modifiers.dots)
    (htie : c.modifiers.tie = c'.modifiers.tie) : Concurs (c, s.feed c) (c', s'.feed c') := by
  have hlength : (c'.modifiers.length s'.tempo s'.denominator : Except (LengthFault α) α) =
      c.modifiers.length s.tempo s.denominator := by
    rw [hs.tempo, hs.denominator]
    exact length_congr hnumber.symm hdots.symm ..
  cases hl : (c.modifiers.length s.tempo s.denominator : Except (LengthFault α) α) with
  | error e =>
    rw [hl] at hlength
    rw [feed_lengthless hc ht hl, feed_lengthless hc' ht' hlength]
    exact ⟨hs, .inr ⟨e.message, rfl, rfl⟩, fun _ _ _ _ _ hfault => by cases hfault⟩
  | ok ms =>
    rw [hl] at hlength
    cases hct : c.modifiers.tie with
    | true =>
      rw [feed_tied_of_length hc ht hl hct, feed_tied_of_length hc' ht' hlength (htie ▸ hct)]
      refine ⟨{ hs with pending := ?_ }, .inl ⟨rfl, rfl⟩, fun _ _ _ _ hfalse => ?_⟩
      · exact congrArg (Lengths.add · ms) hs.pending
      · rw [hct] at hfalse
        cases hfalse
    | false =>
      obtain ⟨hstate, hfault⟩ := feed_untied hc ht hl hct
      obtain ⟨hstate', hfault'⟩ := feed_untied hc' ht' hlength (htie ▸ hct)
      refine ⟨?_, .inl ⟨hfault, hfault'⟩, fun letter letter' hnote hnote' _ _ => ?_⟩
      · show InStep (s.feed c).state (s'.feed c').state
        rw [hstate, hstate']
        exact hs.pass ms
      · refine ⟨_, _, ?_, ?_, hs.sound c c' letter letter' ms⟩
        · exact congrArg Reading.note (feed_note_of_length hnote hl hct)
        · exact congrArg Reading.note (feed_note_of_length hnote' hlength (htie ▸ hct))

theorem InStep.concurs {command command' : Command} (hstate : InStep (s.feed c).state (s'.feed c').state)
    (hc : c.command = .ok command) (hc' : c'.command = .ok command') (ht : command.takesTime = false)
    (ht' : command'.takesTime = false) : Concurs (c, s.feed c) (c', s'.feed c') := by
  refine ⟨hstate, .inl ⟨fault_feed_other hc ht, fault_feed_other hc' ht'⟩, fun letter letter' hnote => ?_⟩
  obtain rfl : command = _ := Except.ok.inj (hc.symm.trans hnote)
  cases ht

/-- Clauses that time alike, read from states in step, concur. -/
theorem SameTiming.feed (h : SameTiming c c') (hs : InStep s s') : Concurs (c, s.feed c) (c', s'.feed c') := by
  cases h with
  | time hc hc' ht ht' hnumber hdots htie => exact hs.feed_time hc hc' ht ht' hnumber hdots htie
  | @tempo n hc hc' =>
    refine InStep.concurs ?_ hc hc' rfl rfl
    simp only [State.feed, hc, hc']
    cases n with
    | none => exact hs
    | some n => exact { hs with tempo := rfl }
  | @length n hc hc' =>
    refine InStep.concurs ?_ hc hc' rfl rfl
    simp only [State.feed, hc, hc']
    cases n with
    | none => exact hs
    | some n => exact { hs with denominator := rfl }
  | nextTrack hc hc' =>
    refine InStep.concurs ?_ hc hc' rfl rfl
    rw [feed_nextTrack hc, feed_nextTrack hc']
    exact { hs with track := congrArg (· + 1) hs.track, cursor := rfl }
  | tone hc hc' ht ht' =>
    refine InStep.concurs ?_ hc hc' (takesTime_of_setsTone ht) (takesTime_of_setsTone ht')
    exact (inStep_feed hc ht).symm.trans (hs.trans (inStep_feed hc' ht'))

/-! ## Turning notes into rests -/

/-- A note turned into a rest with its modifiers; any other clause stays. -/
def Clause.silenced (c : Clause) : Clause :=
  match c.command with
  | .ok (.note _) => { c with text := 'r' :: c.body }
  | _ => c

theorem silenced_of_note {letter : Letter} (h : c.command = .ok (.note letter)) :
    c.silenced = { c with text := 'r' :: c.body } := by
  simp only [Clause.silenced, h]

theorem silenced_of_other (h : ∀ letter, c.command ≠ .ok (.note letter)) : c.silenced = c := by
  unfold Clause.silenced
  split
  · rename_i letter hc
    exact absurd hc (h letter)
  · rfl

/-- Notes and rests with the same modifiers lead to the same state. -/
theorem state_feed_congr {command command' : Command} (hc : c.command = .ok command) (hc' : c'.command = .ok command')
    (ht : command.takesTime = true) (ht' : command'.takesTime = true) (h : c'.modifiers = c.modifiers) :
    (s.feed c').state = (s.feed c).state := by
  cases hl : (c.modifiers.length s.tempo s.denominator : Except (LengthFault α) α) with
  | error e => rw [feed_lengthless hc ht hl, feed_lengthless hc' ht' (h ▸ hl)]
  | ok ms =>
    have hl' : s.lengthOf c' ms := by
      rw [State.lengthOf, h]
      exact hl
    cases htie : c.modifiers.tie with
    | true => rw [feed_tied_of_length hc ht hl htie, feed_tied_of_length hc' ht' hl' (h ▸ htie)]
    | false => rw [(feed_untied hc ht hl htie).1, (feed_untied hc' ht' hl' (h ▸ htie)).1]

/-- The rest leads to the state that the note leads to, and yields nothing. -/
theorem feed_silenced (s : State α) (c : Clause) :
    (s.feed c.silenced).state = (s.feed c).state ∧ (s.feed c.silenced).note = none := by
  by_cases h : ∃ letter, c.command = .ok (.note letter)
  · obtain ⟨letter, hc⟩ := h
    have hrest : c.silenced.command = .ok .rest ∧ c.silenced.modifiers = c.modifiers := by
      rw [silenced_of_note hc]
      exact ⟨rfl, rfl⟩
    refine ⟨state_feed_congr hc hrest.1 rfl rfl hrest.2, note_feed_eq_none fun letter hnote => ?_⟩
    rw [hrest.1] at hnote
    cases hnote
  · have hother : ∀ letter, c.command ≠ .ok (.note letter) := fun letter hc => h ⟨letter, hc⟩
    rw [silenced_of_other hother]
    exact ⟨rfl, note_feed_eq_none hother⟩

/-! ## Clause after clause -/

theorem readings_concur (hs : InStep s s') (hcs : List.Forall₂ SameTiming cs cs') :
    List.Forall₂ Concurs (s.readings cs) (s'.readings cs') := by
  induction hcs generalizing s s' with
  | nil => exact .nil
  | cons hc _ ih =>
    have hstep := hc.feed hs
    exact .cons hstep (ih hstep.state)

theorem note_readings_silenced (s : State α) (cs : List Clause) (silent : Nat → Bool) :
    (s.readings (cs.mapIdx fun i c => if silent i then c.silenced else c)).map (·.2.note) =
      (s.readings cs).mapIdx fun i x => if silent i then none else x.2.note := by
  induction cs generalizing s silent with
  | nil => rfl
  | cons c cs ih =>
    obtain ⟨hstate, hnote⟩ := feed_silenced s c
    have hlater := ih (s.feed c).state fun i => silent (i + 1)
    rw [List.mapIdx_cons, State.readings, State.readings, List.map_cons, List.mapIdx_cons]
    cases hsilent : silent 0 with
    | true =>
      simp only [if_true, hstate, hnote]
      rw [hlater]
    | false =>
      simp only [Bool.false_eq_true, if_false]
      rw [hlater]

/-- Clauses that time alike, read from states in step, concur one by one, and turning notes into
    rests removes them from what is read and leaves every other one as it is. -/
theorem timing_ignores_tone :
    (∀ {s s' : State α} {cs cs' : List Clause}, InStep s s' → List.Forall₂ SameTiming cs cs' →
      List.Forall₂ Concurs (s.readings cs) (s'.readings cs')) ∧
    ∀ (s : State α) (cs : List Clause) (silent : Nat → Bool),
      (s.readings (cs.mapIdx fun i c => if silent i then c.silenced else c)).map (·.2.note) =
        (s.readings cs).mapIdx fun i x => if silent i then none else x.2.note :=
  ⟨readings_concur, note_readings_silenced⟩

/-- A tie that a rest begins in one of them, octaves, volumes and accidentals that differ, and a
    fault; then the note that closes the tie is turned into a rest. -/
theorem timing_ignores_tone_in_a_tie : let s : State Float := .initial
    let s' : State Float := { s with octave := 2, volume := 9 }
    let cs : List Clause := [⟨"c4&".toList, 0⟩, ⟨"v20".toList, 3⟩, ⟨"e8.".toList, 6⟩, ⟨"g".toList, 9⟩,
      ⟨"t0".toList, 10⟩, ⟨"d".toList, 12⟩]
    let cs' : List Clause := [⟨"r4&".toList, 0⟩, ⟨"<".toList, 3⟩, ⟨"b-8.".toList, 4⟩, ⟨"g+".toList, 8⟩,
      ⟨"t0".toList, 10⟩, ⟨"r".toList, 12⟩]
    InStep s s' ∧ List.Forall₂ SameTiming cs cs' ∧ List.Forall₂ Concurs (s.readings cs) (s'.readings cs') ∧
      (s.readings (cs.mapIdx fun i c => if i == 2 then c.silenced else c)).map (·.2.note) =
        [none, none, none, some ⟨9, "g".toList, 0, 20, 67, 1750, 1000⟩, none, none] := by
  intro s s' cs cs'
  have hs : InStep s s' := ⟨rfl, rfl, rfl, rfl, rfl⟩
  have hcs : List.Forall₂ SameTiming cs cs' :=
    .cons (.time rfl rfl rfl rfl rfl rfl rfl) <| .cons (.tone rfl rfl rfl rfl) <|
      .cons (.time rfl rfl rfl rfl rfl rfl rfl) <| .cons (.time rfl rfl rfl rfl rfl rfl rfl) <|
      .cons (.tempo rfl rfl) <| .cons (.time rfl rfl rfl rfl rfl rfl rfl) .nil
  refine ⟨hs, hcs, timing_ignores_tone.1 hs hcs, ?_⟩
  exact (timing_ignores_tone.2 s cs (· == 2)).trans (by decide +kernel)

end Ostinato.Score
