import Ostinato.Proofs.Score.Feeding

/-!
  Ostinato.Proofs.Score.Ownership: what a clause may change.

  A command owns some fields of the state (`Command.owns`). A clause that is not at fault leaves
  the others as they are (`same_feed`), and adds a note only if it is a note that is not tied on
  (`untied_of_note`). One at fault leaves all of the state, and adds nothing (`feed_of_fault`): the
  length that may be missing is known before anything changes.
-/

namespace Ostinato.Score

variable {α : Type}

/-- What a state consists of. -/
inductive Field where
  | tempo | denominator | octave | volume | track | cursor | pending
  deriving DecidableEq, Repr

def Field.Same (s s' : State α) : Field → Prop
  | tempo => s'.tempo = s.tempo
  | denominator => s'.denominator = s.denominator
  | octave => s'.octave = s.octave
  | volume => s'.volume = s.volume
  | track => s'.track = s.track
  | cursor => s'.cursor = s.cursor
  | pending => s'.pending = s.pending

/-- The fields that a command may change. -/
def Command.owns : Command → List Field
  | .note _ | .rest => [.cursor, .pending]
  | .octaveUp | .octaveDown | .octave _ => [.octave]
  | .tempo _ => [.tempo]
  | .length _ => [.denominator]
  | .volume _ => [.volume]
  | .nextTrack => [.track, .cursor]

/-- The notes once what comes of a clause is put to those before it. -/
def Reading.notesAfter (r : Reading α) (notes : List Note) : List Note := notes ++ r.note.toList

/-- What a command of a clause may do to the state and to the notes so far. -/
structure Touches [Lengths α] (s : State α) (notes : List Note) (c : Clause) (command : Command)
    (r : Reading α) : Prop where
  others : ∀ f, f ∉ command.owns → f.Same s r.state
  /-- One more note at most, and only of a note that is not tied on. -/
  notes : r.notesAfter notes = notes ∨
    ∃ letter note, command = .note letter ∧ c.modifiers.tie = false ∧ r.notesAfter notes = notes ++ [note]
  volume : r.state.volume = s.volume ∨ r.state.volume ≤ maxVolume
  nextTrack : command = .nextTrack → r.state.track = s.track + 1 ∧ r.state.cursor = Lengths.zero

theorem Field.Same.refl (s : State α) (f : Field) : f.Same s s := by
  cases f <;> rfl

variable [Lengths α] {s : State α} {c : Clause} {command : Command}

theorem feed_of_fault {fault : Fault} (h : (s.feed c).fault = some fault) :
    (s.feed c).state = s ∧ (s.feed c).note = none := by
  cases hc : c.command with
  | error e =>
    simp only [State.feed, hc]
    exact ⟨rfl, rfl⟩
  | ok command =>
    cases ht : command.takesTime with
    | false =>
      rw [fault_feed_other hc ht] at h
      cases h
    | true =>
      cases hl : (c.modifiers.length s.tempo s.denominator : Except (LengthFault α) α) with
      | error e =>
        rw [feed_lengthless hc ht hl]
        exact ⟨rfl, rfl⟩
      | ok ms =>
        rw [fault_feed_of_length hc ht hl] at h
        cases h

theorem same_feed (hc : c.command = .ok command) {f : Field} (hf : f ∉ command.owns) : f.Same s (s.feed c).state := by
  cases ht : command.takesTime with
  | true =>
    have howned : f ∉ [Field.cursor, .pending] := by
      cases command with
      | note letter => exact hf
      | rest => exact hf
      | _ => cases ht
    obtain ⟨cursor, pending, hstate⟩ := state_feed_time s hc ht
    rw [hstate]
    cases f <;> simp_all [Field.Same]
  | false =>
    unfold State.feed
    rw [hc]
    cases command with
    | note letter => cases ht
    | rest => cases ht
    | octaveUp => cases f <;> simp_all [Field.Same, Command.owns, State.only]
    | octaveDown => cases f <;> simp_all [Field.Same, Command.owns, State.only]
    | nextTrack => cases f <;> simp_all [Field.Same, Command.owns, State.only]
    | _ =>
      refine withNumber_cases (motive := fun r => f.Same s r.state) (.refl s f) fun k => ?_
      cases f <;> simp_all [Field.Same, Command.owns, State.only]

theorem untied_of_note (hc : c.command = .ok command) (note : Note) (h : (s.feed c).note = some note) :
    ∃ letter, command = .note letter ∧ c.modifiers.tie = false := by
  cases command with
  | note letter =>
    refine ⟨letter, rfl, ?_⟩
    cases htie : c.modifiers.tie with
    | false => rfl
    | true =>
      cases hl : (c.modifiers.length s.tempo s.denominator : Except (LengthFault α) α) with
      | error e =>
        rw [feed_lengthless hc rfl hl] at h
        cases h
      | ok ms =>
        rw [feed_tied_of_length hc rfl hl htie] at h
        cases h
  | _ =>
    rw [note_feed_eq_none fun letter hletter => by cases hc.symm.trans hletter] at h
    cases h

theorem volume_feed (hc : c.command = .ok command) :
    (s.feed c).state.volume = s.volume ∨ (s.feed c).state.volume ≤ maxVolume := by
  by_cases howned : Field.volume ∈ command.owns
  · unfold State.feed
    rw [hc]
    cases command with
    | volume n =>
      exact withNumber_cases (motive := fun r => r.state.volume = s.volume ∨ r.state.volume ≤ maxVolume) (.inl rfl)
        fun k => .inr (Nat.min_le_right ..)
    | _ => simp [Command.owns] at howned
  · exact .inl (same_feed hc howned)

/-- A clause at fault leaves the state and the notes as they are. Another one changes no field that
    its command does not own, adds a note at most, and only if it is a note that is not tied on,
    keeps the volume in its range if it sets it, and starts the next track from zero if it starts
    one. -/
theorem feed_all_or_nothing (s : State α) (notes : List Note) (c : Clause) :
    (∀ fault, (s.feed c).fault = some fault → (s.feed c).state = s ∧ (s.feed c).notesAfter notes = notes) ∧
    ((s.feed c).fault = none → ∃ command, c.command = .ok command ∧ Touches s notes c command (s.feed c)) := by
  refine ⟨fun fault hfault => ?_, fun hfault => ?_⟩
  · obtain ⟨hstate, hnote⟩ := feed_of_fault hfault
    refine ⟨hstate, ?_⟩
    rw [Reading.notesAfter, hnote, Option.toList_none, List.append_nil]
  · obtain ⟨command, hc⟩ := command_of_feed hfault
    refine ⟨command, hc, fun f hf => same_feed hc hf, ?_, volume_feed hc, ?_⟩
    · cases hnote : (s.feed c).note with
      | none =>
        left
        rw [Reading.notesAfter, hnote, Option.toList_none, List.append_nil]
      | some note =>
        obtain ⟨letter, hletter, htie⟩ := untied_of_note hc note hnote
        right
        exact ⟨letter, note, hletter, htie, by rw [Reading.notesAfter, hnote, Option.toList_some]⟩
    · rintro rfl
      rw [feed_nextTrack hc]
      exact ⟨rfl, rfl⟩

end Ostinato.Score
