import Mathlib.Algebra.Order.Archimedean.Real.Basic
import Mathlib.Tactic.Linarith
import Mathlib.Tactic.NormNum.OfScientific
import Mathlib.Tactic.Positivity
import Ostinato.Sound.Envelope

/-!
  Ostinato.Proofs.Sound.Contour: the course of an envelope in real numbers.

  A sample of a moving stage covers a part of the way to where the stage leads, so it goes no
  further than there and never back (`le_approach`, `approach_le`). From that the level stays
  between zero and the peak, on whatever side of it an envelope is triggered or released, and
  a decay stays above the level that it leads to (`Bounded`, kept by every act). Where the end
  of a stage is cut short the level goes to the target at once, in the direction in which it went.

  A released level is no more than a power of the part that a sample leaves, and that comes
  below every threshold (`comes_to_rest`).
-/

namespace Ostinato.Sound

/-! ## Acts -/

/-- What is done to an envelope. -/
inductive Act where
  | trigger | release | forceStop
  | sample
  deriving DecidableEq, Repr

/-- The changes of stage that there are. -/
inductive Stage.Changes : Act → Stage → Stage → Prop
  | triggered (stage : Stage) : Changes .trigger stage .attack
  | peaked : Changes .sample .attack .decay
  | settled : Changes .sample .decay .sustain
  | released {stage : Stage} (hstage : stage ≠ .idle) : Changes .release stage .release
  | faded : Changes .sample .release .idle
  | stopped (stage : Stage) : Changes .forceStop stage .idle

namespace Envelope

variable {R : Type} [Add R] [Sub R] [Mul R] [OfScientific R] [LT R] [LE R] [DecidableLT R] [DecidableLE R]

def after (e : Envelope R) : Act → Envelope R
  | .trigger => e.trigger
  | .release => e.release
  | .forceStop => e.forceStop
  | .sample => e.next

def run (e : Envelope R) (acts : List Act) : Envelope R := acts.foldl after e

def samples (e : Envelope R) (n : ℕ) : Envelope R := next^[n] e

theorem samples_succ (e : Envelope R) (n : ℕ) : e.samples (n + 1) = (e.samples n).next :=
  Function.iterate_succ_apply' next n e

/-- Only the stage and the level move. -/
theorem next_eq (e : Envelope R) : ∃ stage level, e.next = { e with stage, level } := by
  obtain ⟨sustain, attackPart, decayPart, releasePart, peak, stage, level⟩ := e
  cases stage with
  | idle => exact ⟨_, _, rfl⟩
  | sustain => exact ⟨_, _, rfl⟩
  | attack => unfold next; dsimp only; split <;> exact ⟨_, _, rfl⟩
  | decay => unfold next; dsimp only; split <;> exact ⟨_, _, rfl⟩
  | release => unfold next; dsimp only; split <;> exact ⟨_, _, rfl⟩

theorem after_eq (e : Envelope R) (a : Act) : ∃ stage level, e.after a = { e with stage, level } := by
  cases a with
  | trigger => exact ⟨_, _, rfl⟩
  | forceStop => exact ⟨_, _, rfl⟩
  | sample => exact e.next_eq
  | release =>
    by_cases h : e.stage = .idle
    · exact ⟨e.stage, e.level, if_pos h⟩
    · exact ⟨.release, e.level, if_neg h⟩

theorem run_eq (e : Envelope R) (acts : List Act) : ∃ stage level, e.run acts = { e with stage, level } := by
  induction acts using List.reverseRecOn with
  | nil => exact ⟨_, _, rfl⟩
  | append_singleton acts a ih =>
    obtain ⟨stage, level, h⟩ := ih
    obtain ⟨stage', level', h'⟩ := (e.run acts).after_eq a
    refine ⟨stage', level', ?_⟩
    rw [run, List.foldl_concat]
    exact h'.trans (by rw [h])

end Envelope

/-! ## A part of the way -/

section

variable {level target part : ℝ}

theorem le_approach (h : level ≤ target) (hpart : part ∈ Set.Icc 0 1) : level ≤ level + (target - level) * part := by
  have := mul_nonneg (sub_nonneg.mpr h) hpart.1
  linarith

theorem approach_le (h : level ≤ target) (hpart : part ∈ Set.Icc 0 1) : level + (target - level) * part ≤ target := by
  have := mul_le_of_le_one_right (sub_nonneg.mpr h) hpart.2
  linarith

theorem approach_le_start (h : target ≤ level) (hpart : part ∈ Set.Icc 0 1) :
    level + (target - level) * part ≤ level := by
  have := mul_nonneg (sub_nonneg.mpr h) hpart.1
  linarith

theorem target_le_approach (h : target ≤ level) (hpart : part ∈ Set.Icc 0 1) :
    target ≤ level + (target - level) * part := by
  have := mul_le_of_le_one_right (sub_nonneg.mpr h) hpart.2
  linarith

end

theorem clamp_eq (x : ℝ) : clamp 0.0 1.0 x = max 0 (min x 1) := by
  have hzero : (0.0 : ℝ) = 0 := by norm_num
  have hone : (1.0 : ℝ) = 1 := by norm_num
  rw [clamp, hzero, hone]
  by_cases hlow : x < 0
  · rw [if_pos hlow, max_eq_left ((min_le_left x 1).trans hlow.le)]
  · by_cases hhigh : 1 < x
    · rw [if_neg hlow, if_pos hhigh, min_eq_right hhigh.le, max_eq_right zero_le_one]
    · rw [if_neg hlow, if_neg hhigh, min_eq_left (not_lt.mp hhigh), max_eq_right (not_lt.mp hlow)]

theorem clamp_mem (x : ℝ) : clamp 0.0 1.0 x ∈ Set.Icc 0 1 := by
  rw [clamp_eq]
  exact ⟨le_max_left _ _, max_le zero_le_one (min_le_right _ _)⟩

/-! ## Within bounds -/

namespace Envelope

/-- Numbers within their bounds, and a level that goes with the stage. -/
structure Bounded (e : Envelope ℝ) : Prop where
  sustain : e.sustain ∈ Set.Icc 0 1
  attackPart : e.attackPart ∈ Set.Icc 0 1
  decayPart : e.decayPart ∈ Set.Icc 0 1
  releasePart : e.releasePart ∈ Set.Icc 0 1
  peak : e.peak ∈ Set.Icc 0 1
  level : e.level ∈ Set.Icc 0 e.peak
  idle : e.stage = .idle → e.level = 0
  decay : e.stage = .decay → e.held ≤ e.level
  sustained : e.stage = .sustain → e.level = e.held

/-- What a sample makes of the stage and the level. -/
inductive Sampled (e : Envelope ℝ) : Stage → ℝ → Prop
  | idles (hstage : e.stage = .idle) : Sampled e .idle 0
  | rises {level : ℝ} (hstage : e.stage = .attack) (hlow : e.level ≤ level) (hhigh : level ≤ e.peak) :
      Sampled e .attack level
  | peaks (hstage : e.stage = .attack) : Sampled e .decay e.peak
  | decays {level : ℝ} (hstage : e.stage = .decay) (hlow : e.held ≤ level) (hhigh : level ≤ e.level) :
      Sampled e .decay level
  | settles (hstage : e.stage = .decay) : Sampled e .sustain e.held
  | holds (hstage : e.stage = .sustain) : Sampled e .sustain e.held
  | falls (hstage : e.stage = .release) (hloud : 0.0001 ≤ e.level * (1 - e.releasePart)) :
      Sampled e .release (e.level * (1 - e.releasePart))
  | fades (hstage : e.stage = .release) : Sampled e .idle 0

variable {e : Envelope ℝ}

namespace Bounded

theorem held (h : e.Bounded) : e.held ∈ Set.Icc 0 e.peak :=
  ⟨mul_nonneg h.peak.1 h.sustain.1, mul_le_of_le_one_right h.peak.1 h.sustain.2⟩

theorem sampled (h : e.Bounded) : Sampled e e.next.stage e.next.level := by
  have hzero : (0.0 : ℝ) = 0 := by norm_num
  cases hstage : e.stage with
  | idle =>
    rw [next, hstage, hzero]
    exact .idles hstage
  | attack =>
    simp only [next, hstage]
    split
    · exact .peaks hstage
    · exact .rises hstage (le_approach h.level.2 h.attackPart) (approach_le h.level.2 h.attackPart)
  | decay =>
    simp only [next, hstage]
    split
    · exact .settles hstage
    · have hheld := h.decay hstage
      exact .decays hstage (target_le_approach hheld h.decayPart) (approach_le_start hheld h.decayPart)
  | sustain =>
    rw [next, hstage]
    exact .holds hstage
  | release =>
    simp only [next, hstage]
    split
    · rw [hzero]
      exact .fades hstage
    · next hloud =>
      have heq : e.level - e.level * e.releasePart = e.level * (1 - e.releasePart) := by ring
      rw [heq] at hloud ⊢
      exact .falls hstage (not_lt.mp hloud)

theorem withLevel (h : e.Bounded) {stage : Stage} {level : ℝ} (hlevel : level ∈ Set.Icc 0 e.peak)
    (hidle : stage = .idle → level = 0) (hdecay : stage = .decay → e.held ≤ level)
    (hsustain : stage = .sustain → level = e.held) : Bounded { e with stage, level } :=
  ⟨h.sustain, h.attackPart, h.decayPart, h.releasePart, h.peak, hlevel, hidle, hdecay, hsustain⟩

theorem next (h : e.Bounded) : e.next.Bounded := by
  obtain ⟨stage, level, heq⟩ := e.next_eq
  have hsampled := h.sampled
  rw [heq] at hsampled ⊢
  have hlevel := h.level
  have hheld := h.held
  cases hsampled with
  | idles => exact h.withLevel ⟨le_refl _, h.peak.1⟩ (fun _ => rfl) nofun nofun
  | rises _ hlow hhigh => exact h.withLevel ⟨hlevel.1.trans hlow, hhigh⟩ nofun nofun nofun
  | peaks => exact h.withLevel ⟨h.peak.1, le_refl _⟩ nofun (fun _ => hheld.2) nofun
  | decays _ hlow hhigh =>
    exact h.withLevel ⟨hheld.1.trans hlow, hhigh.trans hlevel.2⟩ nofun (fun _ => hlow) nofun
  | settles => exact h.withLevel hheld nofun nofun fun _ => rfl
  | holds => exact h.withLevel hheld nofun nofun fun _ => rfl
  | falls _ hloud =>
    have hless := mul_le_of_le_one_right hlevel.1 (sub_le_self 1 h.releasePart.1)
    have hpos : (0 : ℝ) ≤ 0.0001 := by norm_num
    exact h.withLevel ⟨hpos.trans hloud, hless.trans hlevel.2⟩ nofun nofun nofun
  | fades => exact h.withLevel ⟨le_refl _, h.peak.1⟩ (fun _ => rfl) nofun nofun

theorem release (h : e.Bounded) : e.release.Bounded := by
  unfold Envelope.release
  split
  · exact h
  · exact h.withLevel h.level nofun nofun nofun

theorem after (h : e.Bounded) (a : Act) : (e.after a).Bounded := by
  cases a with
  | trigger => exact h.withLevel h.level nofun nofun nofun
  | release => exact h.release
  | forceStop =>
    have hzero : (0.0 : ℝ) = 0 := by norm_num
    exact h.withLevel ⟨hzero.ge, hzero.le.trans h.peak.1⟩ (fun _ => hzero) nofun nofun
  | sample => exact h.next

theorem run (h : e.Bounded) (acts : List Act) : (e.run acts).Bounded := by
  induction acts generalizing e with
  | nil => exact h
  | cons a acts ih => exact ih (h.after a)

end Bounded

/-! ## Moves -/

/-- What an act may make of the stage and the level. -/
structure Moves (e : Envelope ℝ) (a : Act) (stage : Stage) (level : ℝ) : Prop where
  /-- Nothing but being stopped lets a level fall that rises to the peak. -/
  rises : e.stage = .attack → a ≠ .forceStop → e.level ≤ level
  /-- Nothing lets a level rise that falls to silence. -/
  falls : e.stage = .release → level ≤ e.level
  /-- Between samples the level stays, unless it is stopped. -/
  stays : a = .trigger ∨ a = .release → level = e.level
  changes : stage = e.stage ∨ Stage.Changes a e.stage stage

theorem Sampled.moves {stage : Stage} {level : ℝ} (h : e.Bounded) (hsampled : Sampled e stage level) :
    Moves e .sample stage level := by
  have hstays : Act.sample = .trigger ∨ Act.sample = .release → level = e.level := by rintro (h | h) <;> cases h
  cases hsampled with
  | idles hstage => exact ⟨by simp [hstage], by simp [hstage], hstays, .inl hstage.symm⟩
  | rises hstage hlow => exact ⟨fun _ _ => hlow, by simp [hstage], hstays, .inl hstage.symm⟩
  | peaks hstage => exact ⟨fun _ _ => h.level.2, by simp [hstage], hstays, .inr (hstage ▸ .peaked)⟩
  | decays hstage => exact ⟨by simp [hstage], by simp [hstage], hstays, .inl hstage.symm⟩
  | settles hstage => exact ⟨by simp [hstage], by simp [hstage], hstays, .inr (hstage ▸ .settled)⟩
  | holds hstage => exact ⟨by simp [hstage], by simp [hstage], hstays, .inl hstage.symm⟩
  | falls hstage =>
    have hless := mul_le_of_le_one_right h.level.1 (sub_le_self 1 h.releasePart.1)
    exact ⟨by simp [hstage], fun _ => hless, hstays, .inl hstage.symm⟩
  | fades hstage => exact ⟨by simp [hstage], fun _ => h.level.1, hstays, .inr (hstage ▸ .faded)⟩

theorem Bounded.moves (h : e.Bounded) (a : Act) : Moves e a (e.after a).stage (e.after a).level := by
  cases a with
  | trigger => exact ⟨fun _ _ => le_refl _, fun _ => le_refl _, fun _ => rfl, .inr (.triggered _)⟩
  | release =>
    by_cases hidle : e.stage = .idle
    · have heq : e.after .release = e := if_pos hidle
      rw [heq]
      exact ⟨fun _ _ => le_refl _, fun _ => le_refl _, fun _ => rfl, .inl rfl⟩
    · have heq : e.after .release = { e with stage := .release } := if_neg hidle
      rw [heq]
      exact ⟨fun _ _ => le_refl _, fun _ => le_refl _, fun _ => rfl, .inr (.released hidle)⟩
  | forceStop =>
    have hzero : (0.0 : ℝ) = 0 := by norm_num
    refine ⟨fun _ h => absurd rfl h, fun _ => hzero.le.trans h.level.1, ?_, .inr (.stopped _)⟩
    rintro (h | h) <;> cases h
  | sample => exact h.sampled.moves h

/-! ## Coming to rest -/

/-- An envelope that was released so many samples ago: it is at rest, or still heard and no louder
    than what that many samples leave. -/
structure Fading (part : ℝ) (n : ℕ) (e : Envelope ℝ) : Prop where
  bounded : e.Bounded
  keeps : e.releasePart = part
  rest : e.stage = .idle ∨ e.stage = .release ∧ e.level ≤ (1 - part) ^ n ∧ (0 < n → 0.0001 ≤ e.level)

theorem fading_release (h : e.Bounded) : Fading e.releasePart 0 e.release := by
  refine ⟨h.release, ?_, ?_⟩
  · obtain ⟨stage, level, heq⟩ := e.after_eq .release
    change (e.after .release).releasePart = _
    rw [heq]
  · by_cases hidle : e.stage = .idle
    · exact .inl (by rw [Envelope.release, if_pos hidle, hidle])
    · rw [Envelope.release, if_neg hidle, pow_zero]
      exact .inr ⟨rfl, h.level.2.trans h.peak.2, fun hn => absurd hn (lt_irrefl 0)⟩

theorem Fading.next {part : ℝ} {n : ℕ} (h : Fading part n e) : Fading part (n + 1) e.next := by
  have hleft : 0 ≤ 1 - part := sub_nonneg.mpr (h.keeps ▸ h.bounded.releasePart.2)
  have hsampled := h.bounded.sampled
  refine ⟨h.bounded.next, ?_, ?_⟩
  · obtain ⟨stage, level, heq⟩ := e.next_eq
    rw [heq]
    exact h.keeps
  · rcases h.rest with hidle | ⟨hrelease, hlevel, -⟩
    · generalize e.next.stage = stage, e.next.level = level at hsampled ⊢
      cases hsampled with
      | idles => exact .inl rfl
      | fades => exact .inl rfl
      | _ hstage => simp [hidle] at hstage
    -- each sample takes the same part of what is left, until that is too quiet to go on
    · generalize e.next.stage = stage, e.next.level = level at hsampled ⊢
      cases hsampled with
      | fades => exact .inl rfl
      | falls _ hloud =>
        rw [h.keeps] at hloud ⊢
        exact .inr ⟨rfl, (pow_succ (1 - part) n).symm ▸ mul_le_mul_of_nonneg_right hlevel hleft, fun _ => hloud⟩
      | _ hstage => simp [hrelease] at hstage

theorem Fading.samples {part : ℝ} (h : Fading part 0 e) (n : ℕ) : Fading part n (e.samples n) := by
  induction n with
  | zero => exact h
  | succ n ih =>
    rw [samples_succ]
    exact ih.next

/-- An envelope is at rest when what its samples leave is not heard. -/
theorem Fading.atRest {part : ℝ} {n : ℕ} (h : Fading part n e) (hsilent : (1 - part) ^ n < 0.0001) :
    e.stage = .idle ∧ e.level = 0 := by
  have hidle : e.stage = .idle := by
    refine h.rest.resolve_right fun hrelease => ?_
    obtain ⟨-, hlevel, hloud⟩ := hrelease
    have hn : 0 < n := by
      refine Nat.pos_of_ne_zero fun hn => ?_
      rw [hn, pow_zero] at hsilent
      norm_num at hsilent
    linarith [hloud hn]
  exact ⟨hidle, h.bounded.idle hidle⟩

/-- Released with a part above zero, an envelope is at rest from some sample on. -/
theorem Bounded.comes_to_rest (h : e.Bounded) (hpart : 0 < e.releasePart) :
    ∃ n, ∀ m, n ≤ m → (e.release.samples m).stage = .idle ∧ (e.release.samples m).level = 0 := by
  have hleft : 0 ≤ 1 - e.releasePart := sub_nonneg.mpr h.releasePart.2
  obtain ⟨n, hn⟩ := exists_pow_lt_of_lt_one (by norm_num : (0 : ℝ) < 0.0001) (sub_lt_self 1 hpart)
  refine ⟨n, fun m hm => ((fading_release h).samples m).atRest ?_⟩
  exact (pow_le_pow_of_le_one hleft (sub_le_self 1 hpart.le) hm).trans_lt hn

theorem bounded_rest {sustain attackPart decayPart releasePart : ℝ} (hsustain : sustain ∈ Set.Icc 0 1)
    (hattack : attackPart ∈ Set.Icc 0 1) (hdecay : decayPart ∈ Set.Icc 0 1) (hrelease : releasePart ∈ Set.Icc 0 1)
    (peak : ℝ) : (rest sustain attackPart decayPart releasePart peak).Bounded := by
  have hzero : (0.0 : ℝ) = 0 := by norm_num
  have hpeak := clamp_mem peak
  exact ⟨hsustain, hattack, hdecay, hrelease, hpeak, ⟨hzero.ge, hzero.le.trans hpeak.1⟩, fun _ => hzero, nofun, nofun⟩

end Envelope

/-- Whatever is done to an envelope, its level stays between zero and its peak `p` and goes the way of
    its stage: up to the peak, down to the held part of it and not below, and down to silence. The
    stage changes only as `Stage.Changes` says, and a release ends. -/
theorem level_follows_stage {attackPart decayPart releasePart : ℝ} (hattack : attackPart ∈ Set.Icc 0 1)
    (hdecay : decayPart ∈ Set.Icc 0 1) (hrelease : releasePart ∈ Set.Icc 0 1) (attack decay sustain release peak : ℝ)
    (acts : List Act) :
    let settings := Settings.of attack decay sustain release
    let e := (Envelope.rest settings.sustain attackPart decayPart releasePart peak).run acts
    let p := max 0 (min peak 1)
    let s := max 0 (min sustain 1)
    (0 ≤ e.level ∧ e.level ≤ p) ∧
    (e.stage = .decay → p * s ≤ e.level) ∧ (e.stage = .sustain → e.level = p * s) ∧
    (∀ a, e.Moves a (e.after a).stage (e.after a).level) ∧
    (0 < releasePart →
      ∃ n, ∀ m, n ≤ m → (e.release.samples m).stage = .idle ∧ (e.release.samples m).level = 0) := by
  intro settings e p s
  have hbounded : e.Bounded := (Envelope.bounded_rest (clamp_mem sustain) hattack hdecay hrelease peak).run acts
  obtain ⟨stage, level, heq⟩ := (Envelope.rest settings.sustain attackPart decayPart releasePart peak).run_eq acts
  have hpeak : e.peak = p := (congrArg Envelope.peak heq).trans (clamp_eq peak)
  have hsustain : e.sustain = s := (congrArg Envelope.sustain heq).trans (clamp_eq sustain)
  have hheld : e.held = p * s := by rw [Envelope.held, hpeak, hsustain]
  have hpart : e.releasePart = releasePart := congrArg Envelope.releasePart heq
  rw [← hheld, ← hpeak, ← hpart]
  exact ⟨hbounded.level, hbounded.decay, hbounded.sustained, hbounded.moves, hbounded.comes_to_rest⟩

/-- A tone that is released on its way to the peak. -/
theorem level_follows_stage_half_way :
    ((1 / 2 : ℝ) ∈ Set.Icc 0 1 ∧ (0 : ℝ) < 1 / 2) ∧
    let e := (Envelope.rest (Settings.of 0.01 0.2 0.8 0.5 : Settings ℝ).sustain (1 / 2) (1 / 2) (1 / 2) 1).run
      [.trigger, .sample, .release]
    (e.level = 1 / 2 ∧ e.stage = .release) ∧ e.level ≤ max 0 (min 1 1) ∧
      ∃ n, ∀ m, n ≤ m → (e.release.samples m).stage = .idle ∧ (e.release.samples m).level = 0 := by
  have hhalf : (1 / 2 : ℝ) ∈ Set.Icc 0 1 := by norm_num
  have hpos : (0 : ℝ) < 1 / 2 := by norm_num
  obtain ⟨hlevel, -, -, -, hrest⟩ :=
    level_follows_stage hhalf hhalf hhalf 0.01 0.2 0.8 0.5 1 [.trigger, .sample, .release]
  refine ⟨⟨hhalf, hpos⟩, ?_, hlevel.2, hrest hpos⟩
  norm_num [Envelope.run, Envelope.after, Envelope.rest, Envelope.trigger, Envelope.next, Envelope.release, clamp]
  exact ⟨rfl, rfl⟩

end Ostinato.Sound
