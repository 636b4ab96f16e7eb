import Ostinato.Proofs.Sound.Elementary
import Ostinato.Proofs.Sound.Lives
import Ostinato.Score.Compile

/-!
  Ostinato.Proofs.Sound.Range: samples are numbers from minus one to one.

  That is so of whatever is played, as long as the notes are steady (`samples_in_range_iff`).
  A note is steady when the angle that its modulator turns by is still a number before it is
  divided by the rate. Then the levels of a voice stay between zero and two, its angles within
  a turn of zero, and the sum of the voices is a number (`InBounds`, `Voice.InBounds.next`); the rest is
  clamping.

  A note that is audible and not steady has a finite frequency that the turn makes infinite. The
  remainder of that is no number: the modulator is lost after one sample, the carrier after two
  at the latest, and the third sample with them (`lost_of_unsteady`).

  The order in which the voices are added up does not matter for any of this (`of_sameVoices`).
-/

namespace Ostinato.Sound

open Score Single

/-- A sample that a device can play. -/
def InRange (x : Float32) : Prop := -1.0 ≤ x ∧ x ≤ 1.0

instance (x : Float32) : Decidable (InRange x) := inferInstanceAs (Decidable (_ ∧ _))

/-! ## Levels -/

structure Envelope.InBounds (e : Envelope Float32) : Prop where
  sustain : Between 0 1 e.sustain
  attackPart : Between 0 1 e.attackPart
  decayPart : Between 0 1 e.decayPart
  releasePart : Between 0 1 e.releasePart
  peak : Between 0 1 e.peak
  level : Between 0 2 e.level

/-- A part of the way to a target leads no further than the target, or back. -/
theorem between_approach {level target part : Float32} (hl : Between 0 2 level) (ht : Between 0 1 target)
    (hp : Between 0 1 part) : Between 0 2 (level + (target - level) * part) := by
  obtain ⟨l, hl, hl0, hl2⟩ := hl
  obtain ⟨t, ht, ht0, ht1⟩ := ht
  obtain ⟨p, hp, hp0, hp1⟩ := hp
  rcases le_total l t with hle | hle
  · obtain ⟨d, hd, hd0, hd1⟩ := (rounds_sub ht hl).between isSingle_zero isSingle_one (by linarith) (by linarith)
    obtain ⟨w, hw, hw0, hw1⟩ := (rounds_mul hd hp).between isSingle_zero isSingle_one (mul_nonneg hd0 hp0)
      (mul_le_one₀ hd1 hp0 hp1)
    exact (rounds_add hl hw).between isSingle_zero isSingle_two (by linarith) (by linarith)
  · have hsingle := (isSingle_of_value hl).neg
    obtain ⟨d, hd, hd0, hd1⟩ := (rounds_sub ht hl).between hsingle isSingle_zero (by linarith) (by linarith)
    obtain ⟨w, hw, hw0, hw1⟩ := (rounds_mul hd hp).between hsingle isSingle_zero (by nlinarith) (by nlinarith)
    exact (rounds_add hl hw).between isSingle_zero isSingle_two (by linarith) (by linarith)

theorem between_fade {level part : Float32} (hl : Between 0 2 level) (hp : Between 0 1 part) :
    Between 0 2 (level - level * part) := by
  obtain ⟨l, hl, hl0, hl2⟩ := hl
  obtain ⟨p, hp, hp0, hp1⟩ := hp
  obtain ⟨w, hw, hw0, hw1⟩ := (rounds_mul hl hp).between isSingle_zero (isSingle_of_value hl) (by nlinarith)
    (by nlinarith)
  exact (rounds_sub hl hw).between isSingle_zero isSingle_two (by linarith) (by linarith)

theorem between_product {x y : Float32} (hx : Between 0 1 x) (hy : Between 0 1 y) : Between 0 1 (x * y) := by
  obtain ⟨p, hp, hp0, hp1⟩ := hx
  obtain ⟨q, hq, hq0, hq1⟩ := hy
  exact (rounds_mul hp hq).between isSingle_zero isSingle_one (mul_nonneg hp0 hq0) (mul_le_one₀ hp1 hq0 hq1)

namespace Envelope.InBounds

variable {e : Envelope Float32}

theorem withLevel (h : e.InBounds) (stage : Stage) {level : Float32} (hl : Between 0 2 level) :
    Envelope.InBounds { e with stage, level } :=
  ⟨h.sustain, h.attackPart, h.decayPart, h.releasePart, h.peak, hl⟩

theorem held (h : e.InBounds) : Between 0 1 e.held := between_product h.peak h.sustain

theorem next (h : e.InBounds) : e.next.InBounds := by
  have hzero : Between 0 2 0.0 := ⟨0, value_zero, by norm_num⟩
  have hpeak : Between 0 2 e.peak := Between.mono h.peak (le_refl _) one_le_two
  have hheld : Between 0 2 e.held := Between.mono h.held (le_refl _) one_le_two
  have hattack := between_approach h.level h.peak h.attackPart
  have hdecay := between_approach h.level h.held h.decayPart
  have hrelease := between_fade h.level h.releasePart
  obtain ⟨sustain, attackPart, decayPart, releasePart, peak, stage, level⟩ := e
  unfold Envelope.next
  cases stage with
  | idle => exact h.withLevel .idle hzero
  | attack =>
    dsimp only
    split
    · exact h.withLevel .decay hpeak
    · exact h.withLevel .attack hattack
  | decay =>
    dsimp only
    split
    · exact h.withLevel .sustain hheld
    · exact h.withLevel .decay hdecay
  | sustain => exact h.withLevel .sustain hheld
  | release =>
    dsimp only
    split
    · exact h.withLevel .idle hzero
    · exact h.withLevel .release hrelease

theorem release (h : e.InBounds) : e.release.InBounds := by
  unfold Envelope.release
  split
  · exact h
  · exact h.withLevel .release h.level

end Envelope.InBounds

/-! ## Sums -/

/-- A sum of samples is a number, however many they are. -/
theorem isFinite_foldl {α : Type} {f : α → Float32} {l : List α} (h : ∀ a ∈ l, Between (-2) 2 (f a)) {sum : Float32}
    (hs : sum.isFinite = true) : (l.foldl (fun sum a => sum + f a) sum).isFinite = true := by
  induction l generalizing sum with
  | nil => exact hs
  | cons a l ih =>
    obtain ⟨s, hs⟩ := isFinite_iff.mp hs
    obtain ⟨x, hx, hx'⟩ := (h a (List.mem_cons_self ..)).magnitude
    have hsum : |s + x| < 2 ^ 128 - 2 ^ 103 := by
      have htriangle := abs_add_le s x
      have hlargest := abs_le_largest hs
      have hroom : largest + 2 < 2 ^ 128 - 2 ^ 103 := by norm_num [largest]
      linarith
    exact ih (fun b hb => h b (List.mem_cons_of_mem a hb)) (isFinite_iff.mpr ((rounds_add hs hx).isSome hsum))

theorem inRange_of_between {x : Float32} (h : Between (-1) 1 x) : InRange x := by
  have hvalue : value? (-1.0) = some (-1) := by decide +kernel
  obtain ⟨q, hq, hl, hh⟩ := h
  exact ⟨(le_iff hvalue hq).mpr hl, (le_iff hq value_one).mpr hh⟩

theorem not_inRange_of_isNaN {x : Float32} (h : IsNaN x) : ¬ InRange x := fun hx => (h.incomparable 1.0).2.2.1 hx.2

/-! ## Angles -/

theorem value_turn : value? 6.283185307179586 = some (13176795 / 2097152) := by decide +kernel

theorem value_three : value? 3.0 = some 3 := by decide +kernel

theorem value_depth : value? 0.2 = some (13421773 / 67108864) := by decide +kernel

variable [Elementary]

/-- Whether the angle that a frequency's modulator turns by is a number. -/
def Holds (frequency : Float32) : Prop := (Signal.turn * frequency * 3.0 : Float32).isFinite = true

/-- A note whose modulator can be followed. -/
def Steady (n : Note) : Prop := Holds (voiceFrequency n.pitch)

instance (n : Note) : Decidable (Steady n) := inferInstanceAs (Decidable (_ = true))

variable {f rate phase : Float32} {p q r low high : ℚ}

theorem between_turn : Between 6 7 (Signal.turn : Float32) :=
  ⟨_, value_turn, by norm_num, by norm_num⟩

theorem Holds.isFinite (h : Holds f) : (Signal.turn * f : Float32).isFinite = true ∧ f.isFinite = true := by
  have hangle := (isFinite_of_mul h).1
  exact ⟨hangle, (isFinite_of_mul hangle).2⟩

/-- A frequency that holds leaves room for what moves it. -/
theorem Holds.frequency (h : Holds f) : Between (-2 ^ 124) (2 ^ 124) f := by
  obtain ⟨t, ht, ht6, -⟩ := between_turn
  obtain ⟨a, ha⟩ := isFinite_iff.mp h.isFinite.1
  obtain ⟨p, hp⟩ := isFinite_iff.mp h.isFinite.2
  refine ⟨p, hp, abs_le.mp ?_⟩
  by_contra hlarge
  rw [not_le] at hlarge
  -- times a turn and three it would be no less than 2 ^ 128
  have hta : 3 * 2 ^ 125 ≤ |a| := by
    refine (rounds_mul ht hp).le_abs ha (isNumber_of_two_pow (k := 3) (d := 125) (by norm_num) (by norm_num)) ?_
    rw [abs_mul, abs_of_nonneg (by linarith)]
    nlinarith
  have hinfinite := (rounds_mul ha value_three).infinite (by rw [abs_mul, abs_of_pos (three_pos (α := ℚ))]; linarith)
  exact absurd h (by rw [Holds, hinfinite]; exact Bool.false_ne_true)

/-- An angle, and what a sample adds to it, leave less than a turn. -/
theorem between_angle {angle : Float32} (hphase : Between (-8) 8 phase) (hangle : angle.isFinite = true)
    (hrate : Between 1 (2 ^ 32) rate) : Between (-8) 8 (Signal.remainder (phase + angle / rate) Signal.turn) := by
  obtain ⟨a, ha⟩ := isFinite_iff.mp hangle
  obtain ⟨r, hr, hr1, -⟩ := hrate
  obtain ⟨p, hp, hp8⟩ := hphase.magnitude
  have hquotient : |a / r| ≤ largest := by
    rw [abs_div, abs_of_pos (by linarith : 0 < r)]
    exact (div_le_self (abs_nonneg a) hr1).trans (abs_le_largest ha)
  obtain ⟨q, hq, hq'⟩ := ((rounds_div ha hr (by linarith)).between_neg isSingle_largest hquotient).magnitude
  have hsum : |p + q| < 2 ^ 128 - 2 ^ 103 := by
    have htriangle := abs_add_le p q
    have hroom : largest + 8 < 2 ^ 128 - 2 ^ 103 := by norm_num [largest]
    linarith
  obtain ⟨w, hw⟩ := (rounds_add hp hq).isSome hsum
  obtain ⟨t, ht, ht6, ht7⟩ := between_turn
  exact (between_remainder hw ht (by linarith)).mono (by linarith) (by linarith)

variable [LawfulElementary]

theorem between_sin (h : f.isFinite = true) : Between (-1) 1 (Signal.sin f) := by
  have hvalue : value? (-1.0) = some (-1) := by decide +kernel
  obtain ⟨hl, hh⟩ := LawfulElementary.sin_between f h
  exact between_of_le hvalue value_one hl hh

/-- What moves a frequency leaves its angle a number. -/
theorem isFinite_angle {modulator : Float32} (hf : Holds f) (hm : Between (-8) 8 modulator) :
    (Signal.turn * (f * (1.0 + 0.2 * Signal.sin modulator)) : Float32).isFinite = true := by
  obtain ⟨t, ht, ht6, ht7⟩ := between_turn
  obtain ⟨p, hp, hp'⟩ := hf.frequency.magnitude
  obtain ⟨s, hs, hs'⟩ := (between_sin hm.isFinite).magnitude
  have hdepth : |(13421773 / 67108864 : ℚ) * s| ≤ 1 := by
    rw [abs_mul, abs_of_pos (by norm_num)]
    linarith
  obtain ⟨d, hd, hd'⟩ := ((rounds_mul value_depth hs).between_neg isSingle_one hdepth).magnitude
  have hfactor : |1 + d| ≤ 2 := by
    have := abs_add_le 1 d
    rw [abs_one] at this
    linarith
  obtain ⟨k, hk, hk'⟩ := ((rounds_add value_one hd).between_neg isSingle_two hfactor).magnitude
  have hmoved : |p * k| ≤ 2 ^ 125 := by
    rw [abs_mul]
    nlinarith [abs_nonneg p, abs_nonneg k]
  have hpow : IsSingle (2 ^ 125) := by
    simpa using isSingle_of_two_pow (k := 1) (d := 125) (by norm_num) (by norm_num) (by norm_num)
  obtain ⟨g, hg, hg'⟩ := ((rounds_mul hp hk).between_neg hpow hmoved).magnitude
  have hangle : |t * g| < 2 ^ 128 - 2 ^ 103 := by
    rw [abs_mul, abs_of_pos (by linarith : 0 < t)]
    have hroom : (7 : ℚ) * 2 ^ 125 < 2 ^ 128 - 2 ^ 103 := by norm_num
    nlinarith [abs_nonneg g]
  exact isFinite_iff.mpr ((rounds_mul ht hg).isSome hangle)

/-! ## Voices -/

structure Voice.InBounds (v : Voice Float32) : Prop where
  frequency : Holds v.frequency
  carrier : Between (-8) 8 v.carrier
  modulator : Between (-8) 8 v.modulator
  envelope : v.envelope.InBounds

structure Synth.InBounds (s : Synth Float32) : Prop where
  rate : Between 1 (2 ^ 32) s.rate
  gain : Between 0 1 s.gain
  settings : s.settings = .standard
  held : ∀ x ∈ s.held, x.2.InBounds
  releasing : ∀ v ∈ s.releasing, v.InBounds

/-- A sample of a voice lies between minus two and two, and leaves the voice within its bounds. -/
theorem Voice.InBounds.next {v : Voice Float32} (h : v.InBounds) (hrate : Between 1 (2 ^ 32) rate) :
    Between (-2) 2 (v.next rate).1 ∧ (v.next rate).2.InBounds := by
  have henvelope := h.envelope.next
  refine ⟨?_, h.frequency, between_angle h.carrier (isFinite_angle h.frequency h.modulator) hrate,
    between_angle h.modulator h.frequency hrate, henvelope⟩
  obtain ⟨s, hs, hs'⟩ := (between_sin h.carrier.isFinite).magnitude
  obtain ⟨l, hl, hl0, hl2⟩ := henvelope.level
  refine (rounds_mul hs hl).between_neg isSingle_two ?_
  rw [abs_mul, abs_of_nonneg hl0]
  nlinarith [abs_nonneg s]

theorem between_partOf {seconds : Float32} (hs : Between (1 / 128) 1 seconds) (hrate : Between 1 (2 ^ 32) rate) :
    Between 0 1 (partOf seconds rate) := by
  obtain ⟨t, ht, ht0, ht1⟩ := hs
  obtain ⟨r, hr, hr1, hr32⟩ := hrate
  unfold partOf
  split
  · obtain ⟨d, hd, hd0, hd32⟩ := (rounds_mul ht hr).between (isSingle_of_value ht) (isSingle_of_value hr) (by nlinarith)
      (by nlinarith)
    have hdecay : value? (0.0 - 6.9) = some (-14470349 / 2097152) := by decide +kernel
    have hpos : 0 < d := by linarith
    have hlow : -896 ≤ -14470349 / 2097152 / d := by
      rw [le_div_iff₀ hpos]
      linarith
    have hhigh : -14470349 / 2097152 / d ≤ 0 := div_nonpos_of_nonpos_of_nonneg (by norm_num) hpos.le
    have hsingle : IsSingle (-896) := by simpa using isSingle_of_le (k := -896) (by norm_num)
    obtain ⟨x, hx, -, hx0⟩ := (rounds_div hdecay hd hpos.ne').between hsingle isSingle_zero hlow hhigh
    obtain ⟨hl, hh⟩ := LawfulElementary.exp_between _ (isFinite_iff.mpr ⟨x, hx⟩) ((le_iff hx value_zero).mpr hx0)
    obtain ⟨e, he, he0, he1⟩ := between_of_le value_zero value_one hl hh
    exact (rounds_sub value_one he).between isSingle_zero isSingle_one (by linarith) (by linarith)
  · exact ⟨1, value_one, zero_le_one, le_refl _⟩

omit [LawfulElementary] in
theorem between_levelOf {n : Note} (hn : n.volume ≤ maxVolume) : Between 0 1 (levelOf n : Float32) := by
  have h127 : value? (ofInt 127) = some 127 := by decide +kernel
  have hle : (n.volume : ℚ) ≤ 127 := by exact_mod_cast hn
  have hsingle : IsSingle 127 := by simpa using isSingle_of_le (k := 127) (by norm_num)
  obtain ⟨v, hv, hv0, hv127⟩ := (rounds_ofInt n.volume).between isSingle_zero hsingle (by simp) (by simpa using hle)
  refine (rounds_div hv h127 (by norm_num)).between isSingle_zero isSingle_one (by positivity) ?_
  rw [div_le_one (by norm_num)]
  exact hv127

omit [LawfulElementary] in
theorem between_gainOf (percent : ℕ) : Between 0 1 (gainOf percent : Float32) := by
  have htenth : value? 0.1 = some (13421773 / 134217728) := by decide +kernel
  have hundred : value? 100.0 = some 100 := by decide +kernel
  have hle : ((min percent 100 : ℕ) : ℚ) ≤ 100 := by exact_mod_cast min_le_right percent 100
  have hsingle : IsSingle 100 := by simpa using isSingle_of_le (k := 100) (by norm_num)
  obtain ⟨v, hv, hv0, hv100⟩ := (rounds_ofInt (min percent 100 : ℕ)).between isSingle_zero hsingle (by simp)
    (by simp)
  obtain ⟨w, hw, hw0, hw100⟩ := (rounds_mul htenth hv).between isSingle_zero hsingle (by positivity) (by linarith)
  refine (rounds_div hw hundred (by norm_num)).between isSingle_zero isSingle_one (by positivity) ?_
  rw [div_le_one (by norm_num)]
  exact hw100

theorem Voice.inBounds_strike {n : Note} (hn : n.volume ≤ maxVolume) (hsteady : Steady n)
    (hrate : Between 1 (2 ^ 32) rate) :
    (Voice.strike n .standard rate).InBounds := by
  have hphase : Between (-8) 8 0.0 := ⟨0, value_zero, by norm_num⟩
  obtain ⟨level, hlevel, -⟩ := between_levelOf hn
  have hattack : value? 0.01 = some (5368709 / 536870912) := by decide +kernel
  have hdecay : value? 0.2 = some (13421773 / 67108864) := by decide +kernel
  have hsustain : value? 0.8 = some (13421773 / 16777216) := by decide +kernel
  have hrelease : value? 0.5 = some (1 / 2) := by decide +kernel
  refine ⟨hsteady, hphase, hphase, ?_⟩
  refine ⟨⟨_, hsustain, by norm_num⟩, between_partOf ⟨_, hattack, by norm_num⟩ hrate,
    between_partOf ⟨_, hdecay, by norm_num⟩ hrate, between_partOf ⟨_, hrelease, by norm_num⟩ hrate,
    between_clamp value_zero value_one zero_le_one hlevel, ⟨0, value_zero, by norm_num⟩⟩

omit [LawfulElementary] in
theorem Voice.InBounds.release {v : Voice Float32} (h : v.InBounds) : v.release.InBounds :=
  ⟨h.frequency, h.carrier, h.modulator, h.envelope.release⟩

/-- A sample of a synthesizer is in its range, and leaves it within its bounds. -/
theorem Synth.InBounds.next {s : Synth Float32} (h : s.InBounds) : InRange s.next.1 ∧ s.next.2.InBounds := by
  have hheld : ∀ x ∈ s.held.map fun v => (v.1, v.2.next s.rate), Between (-2) 2 x.2.1 ∧ x.2.2.InBounds :=
    List.forall_mem_map.mpr fun x hx => (h.held x hx).next h.rate
  have hreleasing : ∀ x ∈ s.releasing.map (·.next s.rate), Between (-2) 2 x.1 ∧ x.2.InBounds :=
    List.forall_mem_map.mpr fun v hv => (h.releasing v hv).next h.rate
  constructor
  · have hsum := isFinite_foldl (fun x hx => (hreleasing x hx).1)
      (isFinite_foldl (fun x hx => (hheld x hx).1) (isFinite_iff.mpr ⟨0, value_zero⟩))
    obtain ⟨q, hq⟩ := isFinite_iff.mp hsum
    obtain ⟨g, hg, hg0, hg1⟩ := h.gain
    have hproduct : |q * g| ≤ largest := by
      rw [abs_mul, abs_of_nonneg hg0]
      exact (mul_le_of_le_one_right (abs_nonneg q) hg1).trans (abs_le_largest hq)
    obtain ⟨w, hw, -⟩ := (rounds_mul hq hg).between_neg isSingle_largest hproduct
    have hlow : value? (0.0 - 1.0) = some (-1) := by decide +kernel
    exact inRange_of_between (between_clamp hlow value_one (by norm_num) hw)
  · refine ⟨h.rate, h.gain, h.settings, ?_, ?_⟩
    · exact List.forall_mem_map.mpr fun x hx => (hheld x hx).2
    · intro v hv
      obtain ⟨x, hx, rfl⟩ := List.mem_map.mp (List.mem_of_mem_filter hv)
      exact (hreleasing x hx).2

namespace Synth.InBounds

variable {s : Synth Float32}

omit [LawfulElementary] in
theorem releaseIf (h : s.InBounds) (p : Nat × Nat → Bool) : (s.releaseIf p).InBounds where
  rate := h.rate
  gain := h.gain
  settings := h.settings
  held x hx := h.held x (List.mem_of_mem_filter hx)
  releasing := by
    refine List.forall_mem_append.mpr ⟨h.releasing, List.forall_mem_map.mpr fun x hx => ?_⟩
    exact (h.held x (List.mem_of_mem_filter hx)).release

/-- A request keeps a synthesizer within its bounds, if the note that it strikes is steady or not
    audible. -/
theorem after (h : s.InBounds) (r : Request)
    (hnote : ∀ n, r = .noteOn n → n.volume ≤ maxVolume ∧ (Audible Float32 n → Steady n)) : (s.after r).InBounds := by
  cases r with
  | noteOn n =>
    obtain ⟨hvolume, hsteady⟩ := hnote n rfl
    by_cases ha : Audible Float32 n
    · have hreleased := h.releaseIf (· == n.id)
      rw [Synth.after, s.noteOn_audible ha, noteOff_eq]
      refine ⟨h.rate, h.gain, h.settings, List.forall_mem_append.mpr ⟨hreleased.held, ?_⟩, hreleased.releasing⟩
      rw [List.forall_mem_singleton, h.settings]
      exact Voice.inBounds_strike hvolume (hsteady ha) h.rate
    · rw [Synth.after, s.noteOn_inaudible ha]
      exact h
  | noteOff n => exact h.releaseIf (· == n.id)
  | releaseAll =>
    rw [Synth.after, releaseAll_eq]
    exact h.releaseIf fun _ => true
  | setVolume percent => exact ⟨h.rate, between_gainOf percent, h.settings, h.held, h.releasing⟩
  | sample => exact h.next.2

theorem run (h : s.InBounds) {requests : List Request}
    (hnotes : ∀ n, .noteOn n ∈ requests → n.volume ≤ maxVolume ∧ (Audible Float32 n → Steady n)) :
    (s.run requests).InBounds := by
  induction requests generalizing s with
  | nil => exact h
  | cons r requests ih =>
    refine ih (h.after r fun n hn => hnotes n (hn ▸ List.mem_cons_self ..)) fun n hn => ?_
    exact hnotes n (List.mem_cons_of_mem r hn)

omit [LawfulElementary] in
theorem of_sameVoices (h : s.InBounds) {s' : Synth Float32} (hsame : SameVoices s s') : s'.InBounds where
  rate := hsame.rate ▸ h.rate
  gain := hsame.gain ▸ h.gain
  settings := hsame.settings.trans h.settings
  held x hx := h.held x (hsame.held.mem_iff.mp hx)
  releasing v hv := h.releasing v (hsame.releasing.mem_iff.mp hv)

end Synth.InBounds

omit [LawfulElementary] in
theorem between_rate {hertz : Nat} (hpos : 0 < hertz) (hlt : hertz < 2 ^ 32) :
    Between 1 (2 ^ 32) (Signal.ofNat hertz : Float32) := by
  have hsingle : IsSingle (2 ^ 32) := by
    simpa using isSingle_of_two_pow (k := 1) (d := 32) (by norm_num) (by norm_num) (by norm_num)
  refine (rounds_ofInt hertz).between isSingle_one hsingle ?_ ?_
  · exact_mod_cast hpos
  · exact_mod_cast hlt.le

omit [LawfulElementary] in
theorem Synth.inBounds_silent (hrate : Between 1 (2 ^ 32) rate) : (Synth.silent rate).InBounds where
  rate := hrate
  gain := by
    have hgain : value? 0.05 = some (13421773 / 268435456) := by decide +kernel
    exact ⟨_, hgain, by norm_num⟩
  settings := rfl
  held _ hx := absurd hx List.not_mem_nil
  releasing _ hv := absurd hv List.not_mem_nil

/-! ## Voices that are lost -/

omit [LawfulElementary] in
/-- An angle that is no number leaves none. -/
theorem isNaN_angle {angle : Float32} (hangle : angle.isFinite = false) (hrate : rate.isFinite = true) :
    IsNaN (Signal.remainder (phase + angle / rate) Signal.turn) := by
  refine isNaN_remainder (Bool.not_eq_true _ ▸ fun hsum => ?_) value_turn
  rw [isFinite_of_div (isFinite_of_add hsum).2 hrate] at hangle
  cases hangle

namespace Voice

variable {v : Voice Float32}

omit [LawfulElementary] in
theorem isNaN_modulator (h : ¬ Holds v.frequency) (hrate : rate.isFinite = true) :
    IsNaN (v.next rate).2.modulator :=
  isNaN_angle (Bool.not_eq_true _ ▸ h) hrate

theorem isNaN_carrier (h : IsNaN v.modulator) (hrate : rate.isFinite = true) : IsNaN (v.next rate).2.carrier := by
  have hsin : IsNaN (Signal.sin v.modulator) := isNaN_iff.mp (LawfulElementary.sin_isNaN _ h.not_finite)
  have hfactor : IsNaN (1.0 + 0.2 * Signal.sin v.modulator) := (hsin.mul 0.2).add 1.0
  exact isNaN_angle ((hfactor.mul v.frequency).mul Signal.turn).not_finite hrate

theorem isNaN_sample (h : IsNaN v.carrier) : IsNaN (v.next rate).1 :=
  (isNaN_iff.mp (LawfulElementary.sin_isNaN _ h.not_finite)).mul_right _

end Voice

/-- The third sample of an audible note that is not steady is no number. -/
theorem lost_of_unsteady {n : Note} (haudible : Audible Float32 n) (hsteady : ¬ Steady n)
    (hrate : rate.isFinite = true) :
    ¬ InRange ((Synth.silent rate).run [.noteOn n, .sample, .sample]).next.1 := by
  let v : Voice Float32 := .strike n .standard rate
  have hmodulator : IsNaN (v.next rate).2.modulator := Voice.isNaN_modulator hsteady hrate
  have hcarrier : IsNaN ((v.next rate).2.next rate).2.carrier := Voice.isNaN_carrier hmodulator hrate
  have hsample : IsNaN (((v.next rate).2.next rate).2.next rate).1 := Voice.isNaN_sample hcarrier
  have hsum : IsNaN ((0.0 + (((v.next rate).2.next rate).2.next rate).1) * 0.05) := (hsample.add 0.0).mul_right 0.05
  have hstruck : (Synth.silent rate).after (.noteOn n) = ⟨rate, 0.05, .standard, [(n.id, v)], []⟩ :=
    (Synth.silent rate).noteOn_audible haudible
  have hrun : ((Synth.silent rate).run [.noteOn n, .sample, .sample]).next.1 =
      clamp (0.0 - 1.0) 1.0 ((0.0 + (((v.next rate).2.next rate).2.next rate).1) * 0.05) := by
    rw [Synth.run, List.foldl_cons, hstruck]
    rfl
  rw [hrun, clamp, if_neg (hsum.incomparable _).1, if_neg (hsum.incomparable _).2.1]
  exact not_inRange_of_isNaN hsum

/-- Whatever is requested of a synthesizer, with notes from some repertoire, its samples are in range. -/
def AlwaysInRange (hertz : Nat) (playable : Note → Prop) : Prop :=
  ∀ requests : List Request, (∀ n, .noteOn n ∈ requests → playable n) →
    InRange ((Synth.silent (Signal.ofNat hertz)).run requests).next.1

/-- Samples are always in range if and only if every note of the repertoire that is not skipped is
    steady; and if they are, then in whatever order the voices are added up. -/
theorem samples_in_range_iff {hertz : Nat} (hpos : 0 < hertz) (hlt : hertz < 2 ^ 32) {playable : Note → Prop}
    (hvolume : ∀ n, playable n → n.volume ≤ maxVolume) :
    (AlwaysInRange hertz playable ↔ ∀ n, playable n → Audible Float32 n → Steady n) ∧
    (AlwaysInRange hertz playable → ∀ requests, (∀ n, .noteOn n ∈ requests → playable n) →
      ∀ s, Shuffled (Synth.silent (Signal.ofNat hertz : Float32)) requests s → InRange s.next.1) := by
  have hrate := between_rate hpos hlt
  have hbounds (h : ∀ n, playable n → Audible Float32 n → Steady n) (requests : List Request)
      (hrequests : ∀ n, .noteOn n ∈ requests → playable n) :
      ((Synth.silent (Signal.ofNat hertz : Float32)).run requests).InBounds :=
    Synth.InBounds.run (Synth.inBounds_silent hrate) fun n hn =>
      ⟨hvolume n (hrequests n hn), h n (hrequests n hn)⟩
  have hsteady (h : AlwaysInRange hertz playable) (n : Note) (hn : playable n) (haudible : Audible Float32 n) :
      Steady n := by
    by_contra hunsteady
    refine lost_of_unsteady haudible hunsteady hrate.isFinite (h _ fun m hm => ?_)
    obtain rfl : m = n := by simpa using hm
    exact hn
  refine ⟨⟨hsteady, fun h requests hrequests => (hbounds h requests hrequests).next.1⟩, ?_⟩
  intro h requests hrequests s hs
  exact ((hbounds (hsteady h) requests hrequests).of_sameVoices hs.sameVoices).next.1

omit [Elementary] [LawfulElementary] in
/-- So is concert a, but not as far up as a text may raise it: there its frequency is finite and its
    angle is not. -/
theorem samples_in_range_but_far_up : letI := FixedPoint.elementary
    ∃ a raised : Note, compile "a".toList = .ok [a] ∧ AlwaysInRange 44100 (· = a) ∧
      compile "o123a".toList = .ok [raised] ∧ Audible Float32 raised ∧ ¬ AlwaysInRange 44100 (· = raised) := by
  let _ := FixedPoint.elementary
  have _ := FixedPoint.lawful
  have h44100 : 0 < 44100 ∧ 44100 < 2 ^ 32 := by decide
  let a : Note := ⟨0, "a".toList, 0, 127, 69, 0, 1000⟩
  let raised : Note := ⟨4, "a".toList, 0, 127, 1485, 0, 1000⟩
  have ha : ∀ n, n = a → n.volume ≤ maxVolume := by
    rintro _ rfl
    decide
  have hraised : ∀ n, n = raised → n.volume ≤ maxVolume := by
    rintro _ rfl
    decide
  have haudible : Audible Float32 raised := by decide +kernel
  have hsteady : Steady a ∧ ¬ Steady raised := by decide +kernel
  refine ⟨a, raised, by decide +kernel, ?_, by decide +kernel, haudible, fun hrange => ?_⟩
  · exact (samples_in_range_iff h44100.1 h44100.2 ha).1.mpr fun n hn _ => hn ▸ hsteady.1
  · exact hsteady.2 ((samples_in_range_iff h44100.1 h44100.2 hraised).1.mp hrange raised rfl haudible)

end Ostinato.Sound
