import Ostinato.Proofs.History
import Ostinato.Proofs.Score.Binary64
import Ostinato.Proofs.Score.LookingBack

/-!
  Ostinato.Proofs.Score.Gapless: the notes of a track follow one another without a gap.

  On its track a note starts when the one before it stops, and later only if a rest that is
  not tied on stands between them (`FollowsOn`). Start and duration of a note are rounded
  each, but both from the cursor, so the note stops where the cursor stands after it
  (`stop_sound`). At every place of a text the cursor agrees with the notes before it
  (`Flows`): it stands at the last stop of the track unless a rest has moved it on.
-/

namespace Ostinato.Score

/-- Whether a silence stands at a place: a rest that is not tied on. -/
def restsAt (t : Text) (i : Nat) : Bool := t[i]? == some 'r' && !(clauseAt t i).text.contains '&'

/-- Where a note starts, by the notes before it. -/
structure FollowsOn (t : Text) (before : List Note) (a : Note) : Prop where
  /-- No earlier note of the track still sounds. -/
  after : ∀ b ∈ before, b.track = a.track → b.stop ≤ a.start
  /-- Without a rest in between it starts when the one before it stops. -/
  joined : ∀ b, before.getLast? = some b → b.track = a.track →
    (∀ j, b.foundAt < j → j < a.foundAt → restsAt t j = false) → b.stop = a.start
  /-- The first note of a track starts it, unless rests do. -/
  first : (∀ b ∈ before, b.track ≠ a.track) →
    (∀ j < a.foundAt, trackAt t j = a.track → restsAt t j = false) → a.start = 0

def Gapless (t : Text) (notes : List Note) : Prop :=
  ∀ before a after, notes = before ++ a :: after → FollowsOn t before a

variable {t : Text} {i : Nat} {c : Char} {notes past : List Note} {a : Note}

theorem Gapless.nil (t : Text) : Gapless t [] := by
  intro before a after h
  simp at h

theorem Gapless.concat (h : Gapless t notes) (ha : FollowsOn t notes a) : Gapless t (notes ++ [a]) := by
  intro before b after heq
  rcases place_concat heq with ⟨rfl, rfl, -⟩ | ⟨rest, -, hplace⟩
  · exact ha
  · exact h before b rest hplace

/-! ## The cursor agrees -/

variable {α : Type} [Lengths α] {s s' : State α}

/-- What the cursor at a place says of the notes before it. -/
structure Flows (t : Text) (i : Nat) (s : State α) (past : List Note) : Prop where
  recalls : Recalls t i s
  pending : Lengths.IsLength s.pending
  place : ∀ b ∈ past, b.foundAt < i
  track : ∀ b ∈ past, b.track ≤ s.track
  after : ∀ b ∈ past, b.track = s.track → b.stop ≤ Lengths.toMillis s.cursor
  joined : ∀ b, past.getLast? = some b → b.track = s.track →
    (∀ j, b.foundAt < j → j < i → restsAt t j = false) → b.stop = Lengths.toMillis s.cursor
  first : (∀ b ∈ past, b.track ≠ s.track) →
    (∀ j < i, trackAt t j = s.track → restsAt t j = false) → Lengths.toMillis s.cursor = 0
  gapless : Gapless t past

theorem Flows.quiet (h : Flows t i s past) (hr : Recalls t (i + 1) s') (htrack : s'.track = s.track)
    (hcursor : s'.cursor = s.cursor) (hpending : Lengths.IsLength s'.pending) : Flows t (i + 1) s' past where
  recalls := hr
  pending := hpending
  place b hb := Nat.lt_succ_of_lt (h.place b hb)
  track b hb := htrack ▸ h.track b hb
  after b hb hsame := hcursor ▸ h.after b hb (hsame.trans htrack)
  joined b hlast hsame hno :=
    hcursor ▸ h.joined b hlast (hsame.trans htrack) fun j hj hlt => hno j hj (Nat.lt_succ_of_lt hlt)
  first hnone hno := hcursor ▸ h.first (fun b hb => htrack ▸ hnone b hb)
    fun j hj hsame => hno j (Nat.lt_succ_of_lt hj) (hsame.trans htrack.symm)
  gapless := h.gapless

variable [LawfulLengths α]

/-- A note stops where the cursor stands after it. -/
theorem stop_sound (s : State α) (clause : Clause) (letter : Letter) {ms : α} (h : Lengths.isPositive ms = true) :
    (s.sound clause letter ms).stop = Lengths.toMillis (s.pass ms).cursor := by
  have hle : Lengths.toMillis s.cursor ≤ Lengths.toMillis (Lengths.add s.cursor ms) := LawfulLengths.toMillis_le_add h
  have hmax := LawfulLengths.toMillis_le (Lengths.add s.cursor ms)
  simp only [Note.stop, State.sound, State.pass]
  omega

namespace Flows

theorem initial (t : Text) : Flows t 0 (State.initial : State α) [] where
  recalls := .initial t
  pending := .inl rfl
  place := by simp
  track := by simp
  after := by simp
  joined := by simp
  first _ _ := LawfulLengths.toMillis_zero
  gapless := .nil t

theorem nextTrack (h : Flows t i s past)
    (hr : Recalls t (i + 1) { s with track := s.track + 1, cursor := Lengths.zero }) :
    Flows t (i + 1) { s with track := s.track + 1, cursor := Lengths.zero } past where
  recalls := hr
  pending := h.pending
  place b hb := Nat.lt_succ_of_lt (h.place b hb)
  track b hb := Nat.le_succ_of_le (h.track b hb)
  after b hb hsame := absurd (hsame ▸ h.track b hb) (Nat.not_succ_le_self _)
  joined b hlast hsame _ := absurd (hsame ▸ h.track b (List.mem_of_getLast? hlast)) (Nat.not_succ_le_self _)
  first _ _ := LawfulLengths.toMillis_zero
  gapless := h.gapless

theorem rest {ms : α} (h : Flows t i s past) (hrests : restsAt t i = true) (hms : Lengths.isPositive ms = true)
    (hr : Recalls t (i + 1) (s.settled.pass ms)) : Flows t (i + 1) (s.settled.pass ms) past where
  recalls := hr
  pending := .inl rfl
  place b hb := Nat.lt_succ_of_lt (h.place b hb)
  track := h.track
  after b hb hsame := Nat.le_trans (h.after b hb hsame) (LawfulLengths.toMillis_le_add hms)
  joined b hlast hsame hno := by
    have := hno i (h.place b (List.mem_of_getLast? hlast)) (Nat.lt_succ_self i)
    simp [hrests] at this
  first _ hno := by
    have := hno i (Nat.lt_succ_self i) h.recalls.track.symm
    simp [hrests] at this
  gapless := h.gapless

/-- A note starts at the cursor, and stops where it moves on to. -/
theorem note {ms : α} (h : Flows t i s past) (hms : Lengths.isPositive ms = true) (letter : Letter)
    (hr : Recalls t (i + 1) (s.settled.pass ms)) :
    Flows t (i + 1) (s.settled.pass ms) (past ++ [s.settled.sound (clauseAt t i) letter ms]) := by
  have hstop := stop_sound s.settled (clauseAt t i) letter hms
  have hcursor : Lengths.toMillis s.cursor ≤ Lengths.toMillis (s.settled.pass ms).cursor :=
    LawfulLengths.toMillis_le_add hms
  have hmem : ∀ {b}, b ∈ past ++ [s.settled.sound (clauseAt t i) letter ms] →
      b ∈ past ∨ b = s.settled.sound (clauseAt t i) letter ms := by simp
  refine ⟨hr, .inl rfl, fun b hb => ?_, fun b hb => ?_, fun b hb hsame => ?_, fun b hlast hsame hno => ?_,
    fun hnone hno => ?_, h.gapless.concat ⟨h.after, h.joined, h.first⟩⟩
  · rcases hmem hb with hb | rfl
    · exact Nat.lt_succ_of_lt (h.place b hb)
    · exact Nat.lt_succ_self i
  · rcases hmem hb with hb | rfl
    · exact h.track b hb
    · exact Nat.le_refl _
  · rcases hmem hb with hb | rfl
    · exact Nat.le_trans (h.after b hb hsame) hcursor
    · exact Nat.le_of_eq hstop
  · obtain rfl : s.settled.sound (clauseAt t i) letter ms = b := by simpa using hlast
    exact hstop
  · exact absurd rfl (hnone _ (List.mem_append_right _ (List.mem_singleton_self _)))

theorem isPositive_total {clause : Clause} {ms : α} (h : Flows t i s past) (hms : s.lengthOf clause ms) :
    Lengths.isPositive (s.total ms) = true :=
  LawfulLengths.isPositive_add (.inr (isPositive_length hms)) h.pending (.inl (isPositive_length hms))

theorem feed (h : Flows t i s past) (hget : t[i]? = some c) (hf : (s.feed (clauseAt t i)).fault = none) :
    Flows t (i + 1) (s.feed (clauseAt t i)).state (past ++ (s.feed (clauseAt t i)).note.toList) := by
  have hr := h.recalls.feed hget hf
  obtain ⟨command, hcommand⟩ := command_of_feed hf
  -- What yields no note and leaves the cursor where it is keeps everything, ties included.
  have hquiet : (s.feed (clauseAt t i)).note = none → (s.feed (clauseAt t i)).state.track = s.track →
      (s.feed (clauseAt t i)).state.cursor = s.cursor → Lengths.IsLength (s.feed (clauseAt t i)).state.pending →
      Flows t (i + 1) (s.feed (clauseAt t i)).state (past ++ (s.feed (clauseAt t i)).note.toList) := by
    intro hnote htrack hcursor hpending
    rw [hnote, Option.toList_none, List.append_nil]
    exact h.quiet hr htrack hcursor hpending
  have htied : command.takesTime = true → (clauseAt t i).modifiers.tie = true →
      Flows t (i + 1) (s.feed (clauseAt t i)).state (past ++ (s.feed (clauseAt t i)).note.toList) := by
    intro ht htie
    obtain ⟨ms, hms, heq⟩ := feed_tied hcommand ht hf htie
    have hpositive : Lengths.isPositive ms = true := isPositive_length hms
    rw [heq] at hquiet ⊢
    exact hquiet rfl rfl rfl (.inr (LawfulLengths.isPositive_add h.pending (.inr hpositive) (.inr hpositive)))
  cases starts_clauseAt hget hcommand with
  | note hl =>
    cases htie : (clauseAt t i).modifiers.tie with
    | true => exact htied rfl htie
    | false =>
      obtain ⟨ms, hms, heq⟩ := feed_note hcommand hf htie
      rw [heq] at hr ⊢
      exact h.note (h.isPositive_total hms) _ hr
  | rest =>
    cases htie : (clauseAt t i).modifiers.tie with
    | true => exact htied rfl htie
    | false =>
      obtain ⟨ms, hms, heq⟩ := feed_rest hcommand hf htie
      have hrests : restsAt t i = true := by
        rw [restsAt, hget, tie_clauseAt hget (by decide), htie]
        rfl
      rw [heq] at hr ⊢
      simpa [State.only] using h.rest hrests (h.isPositive_total hms) hr
  | nextTrack =>
    rw [feed_nextTrack hcommand] at hr ⊢
    simpa [State.only] using h.nextTrack hr
  | _ =>
    obtain ⟨hnote, htrack, hcursor, hpending⟩ := feed_other (s := s) hcommand rfl (by simp)
    exact hquiet hnote htrack hcursor (hpending ▸ h.pending)

end Flows

/-! ## The notes -/

/-- On every track of a score a note starts when the one before it stops, or after it if a rest
    stands between them, and the first starts at zero unless rests come before it. -/
theorem compile_gapless (h : compile t = .ok notes) : Gapless (normalize t) notes := by
  obtain ⟨s, hflows⟩ : ∃ s : State Float, Flows (normalize t) (normalize t).length s notes := by
    refine walk_of_read h (motive := Flows (normalize t)) (.initial _) ?_ ?_
    · intro i s past c hget hc hflows
      exact hflows.quiet (hflows.recalls.skip hget hc) rfl rfl hflows.pending
    · intro i s past c hget hf hflows
      exact hflows.feed hget hf
  exact hflows.gapless

/-- A rest between two notes, notes that close ties, one of them begun by a rest, and a second
    track. -/
theorem compile_gapless_across_tracks : let source := "c r8 d& e, r& f g2".toList
    let notes : List Note := [⟨0, "c ".toList, 0, 127, 60, 0, 1000⟩, ⟨8, "e".toList, 0, 127, 64, 1500, 2000⟩,
      ⟨14, "f ".toList, 1, 127, 65, 0, 2000⟩, ⟨16, "g2".toList, 1, 127, 67, 2000, 2000⟩]
    compile source = .ok notes ∧ Gapless (normalize source) notes := by
  intro source notes
  have h : compile source = .ok notes := compile_of_toOption (by decide +kernel)
  exact ⟨h, compile_gapless h⟩

end Ostinato.Score
