import Ostinato.Score.Compile

/-!
  Ostinato.Proofs.Score.Pitches: how near the pitch of a note is to what it should be.

  A pitch is worked out in steps, each of which stops at the ends of the range: the octave, the
  semitone of the letter, a sharp, a flat. Steps that lead the same way stop where one step does
  (`clampPitch_add_up`), so the semitone and the sharp count as one (`pitchOf_eq`). A step back from
  an end that the step before went past starts at the end, though, and not from where the exact
  number is (`clampPitch_add_iff`).

  So the pitch is the number of the range nearest to the exact one, unless a flat follows a pitch
  past the upper end, or an octave below the lower end is followed by more semitones up than down; a
  sharp and a flat cancel below the upper end only (`pitch_exact_iff`).
-/

namespace Ostinato.Score

def Modifiers.raise (m : Modifiers) : Int := if m.sharp then 1 else 0

def Modifiers.lower (m : Modifiers) : Int := if m.flat then 1 else 0

/-- The pitch of a letter in an octave, without a range. -/
def exactPitch (octave : Int) (letter : Letter) (m : Modifiers) : Int :=
  octave * 12 + letter.semitone + m.raise - m.lower

variable {n k octave : Int}

theorem Letter.semitone_bounds (letter : Letter) : 0 ≤ letter.semitone ∧ letter.semitone ≤ 11 := by
  cases letter <;> decide

theorem Modifiers.raise_bounds (m : Modifiers) : 0 ≤ m.raise ∧ m.raise ≤ 1 := by
  unfold raise
  split <;> omega

theorem Modifiers.lower_bounds (m : Modifiers) : 0 ≤ m.lower ∧ m.lower ≤ 1 := by
  unfold lower
  split <;> omega

theorem Modifiers.lower_nonpos_iff (m : Modifiers) : m.lower ≤ 0 ↔ m.flat = false := by
  unfold lower
  cases m.flat <;> simp

/-! ## Steps -/

theorem clampPitch_mono {a b : Int} (h : a ≤ b) : clampPitch a ≤ clampPitch b := by
  unfold clampPitch
  omega

theorem clampPitch_bounds (n : Int) : minPitch ≤ clampPitch n ∧ clampPitch n ≤ maxPitch := by
  unfold clampPitch minPitch maxPitch
  omega

theorem clampPitch_of_bounds (hlow : minPitch ≤ n) (hhigh : n ≤ maxPitch) : clampPitch n = n := by
  unfold clampPitch
  omega

theorem clampPitch_of_lt (h : n < minPitch) : clampPitch n = minPitch := by
  unfold clampPitch
  omega

/-- From within the range or above it, a step up stops where it would have without the first stop. -/
theorem clampPitch_add_up (hn : minPitch ≤ n) (hk : 0 ≤ k) :
    clampPitch (clampPitch n + k) = clampPitch (n + k) := by
  unfold clampPitch
  omega

/-- A step shorter than the range starts from the wrong place exactly if it leads back from an end
    that was passed. -/
theorem clampPitch_add_iff (hup : minPitch + k ≤ maxPitch) (hdown : minPitch ≤ maxPitch + k) :
    clampPitch (clampPitch n + k) = clampPitch (n + k) ↔ (n < minPitch → k ≤ 0) ∧ (maxPitch < n → 0 ≤ k) := by
  unfold clampPitch
  omega

/-- The semitone of the letter and a sharp are one step up, a flat is one down. -/
theorem pitchOf_eq (octave : Int) (letter : Letter) (m : Modifiers) : pitchOf octave letter m =
    clampPitch (clampPitch (clampPitch (octave * 12) + (letter.semitone + m.raise)) - m.lower) := by
  obtain ⟨hlow, -⟩ := clampPitch_bounds (octave * 12)
  obtain ⟨hsemitone, -⟩ := letter.semitone_bounds
  have hraised : (if m.sharp then clampPitch (clampPitch (clampPitch (octave * 12) + letter.semitone) + 1)
      else clampPitch (clampPitch (octave * 12) + letter.semitone)) =
        clampPitch (clampPitch (octave * 12) + (letter.semitone + m.raise)) := by
    unfold Modifiers.raise
    split
    · rw [clampPitch_add_up (by omega) (by decide), Int.add_assoc]
    · rw [Int.add_zero]
  unfold pitchOf Modifiers.lower
  dsimp only
  rw [hraised]
  split
  · rfl
  · obtain ⟨hmin, hmax⟩ := clampPitch_bounds (clampPitch (octave * 12) + (letter.semitone + m.raise))
    rw [Int.sub_zero, clampPitch_of_bounds hmin hmax]

/-! ## The whole way -/

/-- The pitch is the nearest one to the exact number unless the way to it turns back at an end. -/
theorem pitchOf_eq_clampPitch_iff (octave : Int) (letter : Letter) (m : Modifiers) :
    pitchOf octave letter m = clampPitch (exactPitch octave letter m) ↔
      (octave * 12 < minPitch → letter.semitone + m.raise ≤ m.lower) ∧
        (maxPitch < octave * 12 + letter.semitone + m.raise → m.flat = false) := by
  obtain ⟨hsemitone, hsemitone'⟩ := letter.semitone_bounds
  obtain ⟨hraise, hraise'⟩ := m.raise_bounds
  obtain ⟨hlower, hlower'⟩ := m.lower_bounds
  have hrange : maxPitch - minPitch = 4294967295 := rfl
  have hexact : exactPitch octave letter m = octave * 12 + (letter.semitone + m.raise) + -m.lower := by
    unfold exactPitch
    omega
  rw [pitchOf_eq, hexact, Int.sub_eq_add_neg, ← m.lower_nonpos_iff]
  by_cases hlow : octave * 12 < minPitch
  · -- The way up from the lower end stays within the range, so only the first step stops.
    have hup : clampPitch (minPitch + (letter.semitone + m.raise)) = minPitch + (letter.semitone + m.raise) :=
      clampPitch_of_bounds (by omega) (by omega)
    have hturn := clampPitch_add_iff (n := octave * 12) (k := letter.semitone + m.raise + -m.lower) (by omega) (by omega)
    rw [clampPitch_of_lt hlow] at hturn ⊢
    rw [hup, Int.add_assoc, Int.add_assoc (octave * 12), hturn]
    omega
  · -- From within the range or above it, the steps up are one, so only the flat may turn back.
    have hup : clampPitch (clampPitch (octave * 12) + (letter.semitone + m.raise)) =
        clampPitch (octave * 12 + (letter.semitone + m.raise)) := clampPitch_add_up (by omega) (by omega)
    rw [hup, clampPitch_add_iff (by omega) (by omega)]
    omega

/-- A flat takes a sharp back unless the sharp had no room. -/
theorem pitchOf_cancel_iff (octave : Int) (letter : Letter) (m : Modifiers) :
    pitchOf octave letter { m with sharp := true, flat := true } =
        pitchOf octave letter { m with sharp := false, flat := false } ↔
      octave * 12 + letter.semitone < maxPitch := by
  obtain ⟨hsemitone, hsemitone'⟩ := letter.semitone_bounds
  have hboth : pitchOf octave letter { m with sharp := true, flat := true } =
      clampPitch (clampPitch (clampPitch (octave * 12) + letter.semitone + 1) + -1) := by
    rw [pitchOf_eq, ← Int.add_assoc]
    rfl
  have hneither : pitchOf octave letter { m with sharp := false, flat := false } =
      clampPitch (clampPitch (octave * 12) + letter.semitone + 1 + -1) := by
    obtain ⟨hmin, hmax⟩ := clampPitch_bounds (clampPitch (octave * 12) + letter.semitone)
    rw [pitchOf_eq, Int.add_neg_cancel_right]
    simp only [Modifiers.raise, Modifiers.lower, Bool.false_eq_true, if_false, Int.add_zero, Int.sub_zero]
    exact clampPitch_of_bounds hmin hmax
  have hroom : clampPitch (octave * 12) + letter.semitone < maxPitch ↔ octave * 12 + letter.semitone < maxPitch := by
    have hrange : minPitch + 11 < maxPitch := by decide
    unfold clampPitch
    omega
  rw [hboth, hneither, clampPitch_add_iff (by decide) (by decide), ← hroom]
  omega

theorem pitchOf_mono {higher : Int} (letter : Letter) (m : Modifiers) (h : octave ≤ higher) :
    pitchOf octave letter m ≤ pitchOf higher letter m := by
  rw [pitchOf_eq, pitchOf_eq]
  have hoctave : clampPitch (octave * 12) ≤ clampPitch (higher * 12) := clampPitch_mono (by omega)
  have hraised : clampPitch (clampPitch (octave * 12) + (letter.semitone + m.raise)) ≤
      clampPitch (clampPitch (higher * 12) + (letter.semitone + m.raise)) := clampPitch_mono (by omega)
  exact clampPitch_mono (by omega)

/-- A pitch is the number of the range nearest to the exact one if and only if no octave below the
    range is followed by more semitones up than down, and no pitch above it by a flat. A sharp and a
    flat cancel if and only if there is room for the sharp. A higher octave never gives a lower
    pitch. -/
theorem pitch_exact_iff (octave : Int) (letter : Letter) (m : Modifiers) :
    (pitchOf octave letter m = clampPitch (exactPitch octave letter m) ↔
      (octave * 12 < minPitch → letter.semitone + m.raise ≤ m.lower) ∧
        (maxPitch < octave * 12 + letter.semitone + m.raise → m.flat = false)) ∧
    (pitchOf octave letter { m with sharp := true, flat := true } =
        pitchOf octave letter { m with sharp := false, flat := false } ↔
      octave * 12 + letter.semitone < maxPitch) ∧
    ∀ higher, octave ≤ higher → pitchOf octave letter m ≤ pitchOf higher letter m :=
  ⟨pitchOf_eq_clampPitch_iff octave letter m, pitchOf_cancel_iff octave letter m, fun _ h => pitchOf_mono letter m h⟩

/-- Far up, a sharp with a flat gives a pitch below that of the letter alone; far down, a letter
    comes to stand above the end of the range by its semitone. -/
theorem pitch_inexact_at_the_ends :
    let both : Modifiers := ⟨none, true, true, 0, false⟩
    let plain : Modifiers := ⟨none, false, false, 0, false⟩
    (compile "o200000000c+-c".toList).toOption.map (·.map (·.pitch)) = some [maxPitch - 1, maxPitch] ∧
      pitchOf 200000000 .c both ≠ pitchOf 200000000 .c plain ∧
      pitchOf minPitch .b plain ≠ clampPitch (exactPitch minPitch .b plain) := by
  intro both plain
  refine ⟨by decide +kernel, fun hcancel => ?_, fun hexact => ?_⟩
  · exact absurd ((pitch_exact_iff 200000000 .c both).2.1.mp hcancel) (by decide)
  · exact absurd (((pitch_exact_iff minPitch .b plain).1.mp hexact).1 (by decide)) (by decide)

end Ostinato.Score
