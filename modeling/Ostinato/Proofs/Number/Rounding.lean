import Mathlib

/-!
  Ostinato.Proofs.Number.Rounding: what rounding does to a number.

  The numbers of a format are the whole multiples of powers of two that its mantissas give
  (`IsNumber`); how large they may be is a matter of packing. Rounding gives the one that is
  nearest (`Nearest`), and all that the arithmetic needs follows from that: no number of the
  format is passed by (`Nearest.le`, `Nearest.ge`), and the next one is not reached from below
  the middle (`Nearest.lt_of_middle`).

  A mantissa and its two residual bits stand for a number between whole ones
  (`Approximates`), shifting keeps what they stand for, and rounding it to a whole number gives
  the nearest multiple of a power of two. Numbers of lower powers are no nearer, because those
  that have a full mantissa less do not reach so far (`nearest_of_half`).
-/

namespace Ostinato.Number

open Float.Model Float.Model.UnpackedFloat

/-! ## Numbers of a format -/

/-- The number that an unpacked one stands for; infinity stands for none. -/
def value? : UnpackedFloat → Option ℚ
  | .zero _ => some 0
  | .finite s m e _ => some (s.apply m * 2 ^ e)
  | .infinity _ => none
  | .notANumber => none

/-- The numbers that a format has mantissas for. -/
def IsNumber (spec : Format) (w : ℚ) : Prop :=
  ∃ k d : ℤ, |k| ≤ 2 ^ spec.mantissaBits ∧ spec.minExponent ≤ d ∧ w = k * 2 ^ d

/-- The numbers of the format that are nearest to one. -/
structure Nearest (spec : Format) (v z : ℚ) : Prop where
  isNumber : IsNumber spec z
  nearest : ∀ w, IsNumber spec w → |v - z| ≤ |v - w|

/-- The mantissas and exponents that numbers are written with. -/
structure Canonical (spec : Format) (m : ℕ) (e : ℤ) : Prop where
  small : m < 2 ^ spec.mantissaBits
  least : spec.minExponent ≤ e
  full : 2 ^ spec.mantissaBitsWithoutImplicit ≤ m ∨ e = spec.minExponent

def IsCanonical (spec : Format) : UnpackedFloat → Prop
  | .finite _ m e _ => Canonical spec m e
  | _ => True

/-- What rounding a number gives. -/
structure Rounded (spec : Format) (v : ℚ) (x : UnpackedFloat) : Prop where
  canonical : IsCanonical spec x
  nearest : ∃ z, value? x = some z ∧ Nearest spec v z

variable {spec : Format} {v w z : ℚ} {x y : UnpackedFloat} {s : Sign} {m : ℕ} {e t : ℤ}

theorem two_pow_pos (e : ℤ) : (0 : ℚ) < 2 ^ e := zpow_pos two_pos e

theorem two_pow_le {d e : ℤ} (h : d ≤ e) : (2 : ℚ) ^ d ≤ 2 ^ e := zpow_le_zpow_right₀ one_le_two h

theorem two_pow_add (d e : ℤ) : (2 : ℚ) ^ (d + e) = 2 ^ d * 2 ^ e := zpow_add₀ two_ne_zero d e

theorem magnitude_pos (hm : 0 < m) : (0 : ℚ) < m * 2 ^ e := mul_pos (Nat.cast_pos.mpr hm) (two_pow_pos e)

theorem magnitude_nonneg (m : ℕ) (e : ℤ) : (0 : ℚ) ≤ m * 2 ^ e := mul_nonneg (Nat.cast_nonneg m) (two_pow_pos e).le

theorem value_positive {hm : 0 < m} : value? (.finite .positive m e hm) = some ((m : ℚ) * 2 ^ e) := rfl

theorem value_negative {hm : 0 < m} : value? (.finite .negative m e hm) = some (-((m : ℚ) * 2 ^ e)) := by
  rw [value?, Sign.apply]
  push_cast
  rw [neg_mul]

theorem mantissaBits_eq (spec : Format) : spec.mantissaBits = spec.mantissaBitsWithoutImplicit + 1 :=
  Nat.add_comm ..

theorem mantissaBits_pos (spec : Format) : 1 < spec.mantissaBits := by
  have := spec.hm
  rw [mantissaBits_eq]
  omega

theorem IsNumber.neg (h : IsNumber spec w) : IsNumber spec (-w) := by
  obtain ⟨k, d, hk, hd, rfl⟩ := h
  exact ⟨-k, d, by rwa [abs_neg], hd, by push_cast; ring⟩

theorem isNumber_zero (spec : Format) : IsNumber spec 0 :=
  ⟨0, spec.minExponent, by simp, le_refl _, by simp⟩

/-- What is written with a canonical mantissa is a number of the format. -/
theorem isNumber_of_value (hx : IsCanonical spec x) (h : value? x = some v) : IsNumber spec v := by
  cases x with
  | infinity s => cases h
  | notANumber => cases h
  | zero s =>
    cases h
    exact isNumber_zero spec
  | finite s m e hpos =>
    cases h
    have hsmall : (m : ℤ) ≤ 2 ^ spec.mantissaBits := by exact_mod_cast le_of_lt hx.small
    refine ⟨s.apply m, e, ?_, hx.least, rfl⟩
    cases s <;> simpa [Sign.apply] using hsmall

namespace Nearest

theorem refl (h : IsNumber spec v) : Nearest spec v v :=
  ⟨h, fun w _ => by simp⟩

theorem neg (h : Nearest spec v z) : Nearest spec (-v) (-z) := by
  refine ⟨h.isNumber.neg, fun w hw => ?_⟩
  have hle := h.nearest (-w) hw.neg
  rw [abs_sub_comm] at hle
  calc |-v - -z| = |z - v| := by ring_nf
    _ ≤ |v - -w| := hle
    _ = |-v - w| := by rw [← abs_neg]; ring_nf

theorem le (h : Nearest spec v z) (hw : IsNumber spec w) (hle : v ≤ w) : z ≤ w := by
  by_contra hlt
  have hnear := h.nearest w hw
  rw [abs_of_nonpos (by linarith), abs_of_nonpos (by linarith)] at hnear
  linarith

theorem ge (h : Nearest spec v z) (hw : IsNumber spec w) (hle : w ≤ v) : w ≤ z := by
  have hneg := h.neg.le hw.neg (neg_le_neg hle)
  linarith

/-- From below the middle between two numbers the upper one is not reached. -/
theorem lt_of_middle (h : Nearest spec v z) {w' : ℚ} (hw : IsNumber spec w) (hww : w < w')
    (hlt : 2 * v < w + w') : z < w' := by
  by_contra hle
  have hnear := h.nearest w hw
  rw [abs_of_nonpos (by linarith)] at hnear
  rcases abs_cases (v - w) with ⟨habs, -⟩ | ⟨habs, -⟩
  all_goals
    rw [habs] at hnear
    linarith

end Nearest

/-! ## Mantissas -/

/-- The number that a mantissa and its residual bits stand for, as far as they say. -/
def Approximates (em : ExtendedMantissa) (x : ℚ) : Prop :=
  match em.roundBit, em.stickyBit with
  | false, false => x = em.mantissa
  | false, true => em.mantissa < x ∧ x < em.mantissa + 1 / 2
  | true, false => x = em.mantissa + 1 / 2
  | true, true => em.mantissa + 1 / 2 < x ∧ x < em.mantissa + 1

namespace Approximates

variable {em : ExtendedMantissa} {x : ℚ}

theorem exact (m : ℕ) : Approximates (.ofMantissaAndAccuracy m .exact) m := rfl

theorem bounds (h : Approximates em x) : em.mantissa ≤ x ∧ x < em.mantissa + 1 := by
  obtain ⟨m, r, s⟩ := em
  cases r <;> cases s <;> simp only [Approximates] at h ⊢
  all_goals constructor <;> linarith

theorem shiftRightOne (h : Approximates em x) : Approximates em.shiftRightOne (x / 2) := by
  obtain ⟨m, r, s⟩ := em
  have hm : ((m % 2 : ℕ) : ℚ) + 2 * (m / 2 : ℕ) = m := by exact_mod_cast Nat.mod_add_div m 2
  rcases Nat.mod_two_eq_zero_or_one m with hr | hr
  all_goals
    rw [hr] at hm
    cases r <;> cases s <;> simp [Approximates, ExtendedMantissa.shiftRightOne, hr] at h ⊢ hm
  all_goals first
    | linarith
    | constructor <;> linarith

theorem shiftRight (h : Approximates em x) (n : ℕ) : Approximates (em >>> n) (x / 2 ^ n) := by
  induction n with
  | zero => simpa [HShiftRight.hShiftRight, Nat.repeat] using h
  | succ n ih =>
    rw [pow_succ, ← div_div]
    exact ih.shiftRightOne

/-- The whole number that the bits say to round to is not more than a half away. -/
theorem half (h : Approximates em x) : |x - em.roundedMantissa| ≤ 1 / 2 := by
  obtain ⟨m, r, s⟩ := em
  rw [abs_le]
  cases r <;> cases s <;>
    simp only [Approximates, ExtendedMantissa.roundedMantissa, ExtendedMantissa.accuracy,
      Accuracy.roundToNearestEven] at h ⊢
  case true.false =>
    have hmod : ((m % 2 : ℕ) : ℚ) ≤ 1 := by exact_mod_cast Nat.le_of_lt_succ (Nat.mod_lt m two_pos)
    have hnonneg : (0 : ℚ) ≤ (m % 2 : ℕ) := Nat.cast_nonneg _
    push_cast
    constructor <;> linarith
  all_goals
    push_cast
    constructor <;> linarith

end Approximates

/-- A whole number that is not more than a half away is as near as any. -/
theorem abs_sub_le_of_half {x : ℚ} {r j : ℤ} (h : |x - r| ≤ 1 / 2) : |x - r| ≤ |x - j| := by
  rcases eq_or_ne j r with rfl | hne
  · exact le_refl _
  · have hone : (1 : ℚ) ≤ |(j : ℚ) - r| := by exact_mod_cast Int.one_le_abs (sub_ne_zero.mpr hne)
    have htriangle : |(j : ℚ) - r| ≤ |(j : ℚ) - x| + |x - r| := abs_sub_le ..
    rw [abs_sub_comm (j : ℚ) x] at htriangle
    linarith

/-- Rounding to a whole multiple of a power of two gives a nearest number, if the mantissa is full
    there, or the power is the least. -/
theorem nearest_of_half {x : ℚ} {r : ℕ} (hr : |x - r| ≤ 1 / 2) (hsmall : r ≤ 2 ^ spec.mantissaBits)
    (ht : spec.minExponent ≤ t) (hfull : 2 ^ spec.mantissaBitsWithoutImplicit ≤ x ∨ t = spec.minExponent) :
    Nearest spec (x * 2 ^ t) (r * 2 ^ t) := by
  have hscale : ∀ j : ℤ, |x * 2 ^ t - r * 2 ^ t| ≤ |x * 2 ^ t - j * 2 ^ t| := by
    intro j
    rw [← sub_mul, ← sub_mul, abs_mul, abs_mul]
    exact mul_le_mul_of_nonneg_right (abs_sub_le_of_half (r := r) (by exact_mod_cast hr)) (abs_nonneg _)
  refine ⟨⟨r, t, by rw [Nat.abs_cast]; exact_mod_cast hsmall, ht, by push_cast; rfl⟩, ?_⟩
  rintro w ⟨k, d, hk, hd, rfl⟩
  rcases le_or_gt t d with hle | hlt
  · -- a multiple of a higher power is a multiple of this one
    have hd : (k : ℚ) * 2 ^ d = (k * 2 ^ (d - t).toNat : ℤ) * 2 ^ t := by
      have hexp : d = (d - t).toNat + t := by omega
      conv_lhs => rw [hexp, two_pow_add, zpow_natCast]
      push_cast
      ring
    rw [hd]
    exact hscale _
  · -- one of a lower power does not reach the least full mantissa
    have hx := hfull.resolve_right (by omega)
    have hfirst : (k : ℚ) * 2 ^ d ≤ (2 ^ spec.mantissaBitsWithoutImplicit : ℤ) * 2 ^ t := by
      have hk' : (k : ℚ) ≤ 2 ^ spec.mantissaBits := by exact_mod_cast le_trans (le_abs_self k) hk
      calc (k : ℚ) * 2 ^ d ≤ 2 ^ spec.mantissaBits * 2 ^ d :=
            mul_le_mul_of_nonneg_right hk' (le_of_lt (two_pow_pos d))
        _ = 2 ^ spec.mantissaBitsWithoutImplicit * 2 ^ (d + 1) := by
            rw [mantissaBits_eq, pow_succ, two_pow_add]; ring
        _ ≤ 2 ^ spec.mantissaBitsWithoutImplicit * 2 ^ t :=
            mul_le_mul_of_nonneg_left (two_pow_le (by omega)) (by positivity)
        _ = _ := by push_cast; rfl
    have hlow : ((2 ^ spec.mantissaBitsWithoutImplicit : ℤ) : ℚ) * 2 ^ t ≤ x * 2 ^ t := by
      push_cast
      exact mul_le_mul_of_nonneg_right hx (le_of_lt (two_pow_pos t))
    refine le_trans (hscale (2 ^ spec.mantissaBitsWithoutImplicit)) ?_
    rw [abs_of_nonneg (by linarith), abs_of_nonneg (by linarith)]
    linarith

/-! ## Rounding -/

theorem targetExponent_eq (spec : Format) (m : ℕ) (e : ℤ) : spec.targetExponent (totalExponent m e) =
    max (m.log2 + e - spec.mantissaBitsWithoutImplicit) spec.minExponent := by
  simp only [Format.targetExponent, totalExponent, mantissaBits_eq]
  congr 1
  omega

theorem shiftToTargetExponent_small (hm : m < 2 ^ spec.mantissaBits) (he : spec.minExponent ≤ e) :
    shiftToTargetExponent spec m e .exact = (⟨m, false, false⟩, e) := by
  have hlog : m.log2 ≤ spec.mantissaBitsWithoutImplicit := by
    rcases Nat.eq_zero_or_pos m with rfl | hpos
    · simp
    · have := (Nat.log2_lt hpos.ne').mpr hm
      rw [mantissaBits_eq] at this
      omega
  have hshift : (spec.targetExponent (totalExponent m e) - e).toNat = 0 := by
    rw [targetExponent_eq]
    omega
  simp [shiftToTargetExponent, shiftToExponent, hshift, HShiftRight.hShiftRight, Nat.repeat,
    ExtendedMantissa.ofMantissaAndAccuracy]

theorem shiftToTargetExponent_carried (he : spec.minExponent ≤ e) :
    shiftToTargetExponent spec (2 ^ spec.mantissaBits) e .exact =
      (⟨2 ^ spec.mantissaBitsWithoutImplicit, false, false⟩, e + 1) := by
  have hshift : (spec.targetExponent (totalExponent (2 ^ spec.mantissaBits) e) - e).toNat = 1 := by
    rw [targetExponent_eq, Nat.log2_two_pow, mantissaBits_eq]
    omega
  have hhalf : 2 ^ spec.mantissaBits / 2 = 2 ^ spec.mantissaBitsWithoutImplicit := by
    rw [mantissaBits_eq, pow_succ, Nat.mul_div_cancel _ two_pos]
  have heven : 2 ^ spec.mantissaBits % 2 = 0 := by
    rw [mantissaBits_eq, pow_succ, Nat.mul_mod_left]
  simp [shiftToTargetExponent, shiftToExponent, hshift, HShiftRight.hShiftRight, Nat.repeat,
    ExtendedMantissa.ofMantissaAndAccuracy, ExtendedMantissa.shiftRightOne, hhalf, heven]

theorem mantissa_ofMantissaAndAccuracy (m : ℕ) (accuracy : Accuracy) :
    (ExtendedMantissa.ofMantissaAndAccuracy m accuracy).mantissa = m := by
  match accuracy with
  | .exact => rfl
  | .inexact .lt => rfl
  | .inexact .eq => rfl
  | .inexact .gt => rfl

/-- What is left of a mantissa at the exponent that it is rounded at has the right size. -/
theorem cut_bounds {x : ℚ} {n : ℕ} (hm : m ≤ x) (hx : x < m + 1)
    (ht : max (m.log2 + e - spec.mantissaBitsWithoutImplicit) spec.minExponent = e + n) :
    x / 2 ^ n < 2 ^ spec.mantissaBits ∧
      (2 ^ spec.mantissaBitsWithoutImplicit ≤ x / 2 ^ n ∨ e + n = spec.minExponent) := by
  have hmul : ∀ j : ℕ, (2 : ℚ) ^ j * 2 ^ n = 2 ^ (j + n) := fun j => (pow_add ..).symm
  have hpos : (0 : ℚ) < 2 ^ n := by positivity
  have hbits := mantissaBits_eq spec
  constructor
  · rw [div_lt_iff₀ hpos, hmul]
    have hlt : ((m + 1 : ℕ) : ℚ) ≤ ((2 ^ (m.log2 + 1) : ℕ) : ℚ) := Nat.cast_le.mpr Nat.lt_log2_self
    push_cast at hlt
    refine lt_of_lt_of_le (lt_of_lt_of_le hx hlt) (pow_le_pow_right₀ one_le_two ?_)
    omega
  · rcases eq_or_ne (e + n) spec.minExponent with heq | hne
    · exact .inr heq
    · left
      have hlog : m.log2 + e - spec.mantissaBitsWithoutImplicit = e + n := by omega
      have hne : m ≠ 0 := by
        rintro rfl
        have := spec.hm
        simp only [Nat.log2_zero] at hlog
        omega
      rw [le_div_iff₀ hpos, hmul]
      have hle : ((2 ^ m.log2 : ℕ) : ℚ) ≤ m := Nat.cast_le.mpr (Nat.log2_self_le hne)
      push_cast at hle
      refine le_trans (pow_le_pow_right₀ one_le_two ?_) (le_trans hle hm)
      omega

def unit : Sign → ℚ
  | .negative => -1
  | .positive => 1

theorem apply_eq (s : Sign) (m : ℕ) : ((s.apply m : ℤ) : ℚ) = unit s * m := by
  cases s <;> simp [Sign.apply, unit]

theorem abs_unit (s : Sign) : |unit s| = 1 := by
  cases s <;> simp [unit]

theorem unit_mul (s r : Sign) : unit (s * r) = unit s * unit r := by
  cases s <;> cases r <;> decide +kernel

theorem Nearest.signed (s : Sign) (h : Nearest spec v z) : Nearest spec (unit s * v) (unit s * z) := by
  cases s with
  | negative => simpa [unit] using h.neg
  | positive => simpa [unit] using h

theorem roundedMantissa_bounds (em : ExtendedMantissa) :
    em.mantissa ≤ em.roundedMantissa ∧ em.roundedMantissa ≤ em.mantissa + 1 := by
  obtain ⟨m, r, s⟩ := em
  cases r <;> cases s
  all_goals simp [ExtendedMantissa.roundedMantissa, ExtendedMantissa.accuracy, Accuracy.roundToNearestEven]
  omega

/-- The number that a rounded mantissa is made into, carried if need be. -/
def settle (spec : Format) (s : Sign) (r : ℕ) (t : ℤ) : UnpackedFloat :=
  let (em, e) := shiftToTargetExponent spec r t .exact
  if h : em.mantissa = 0 then .zero s else .finite s em.mantissa e (Nat.pos_of_ne_zero h)

theorem rounded_settle {r : ℕ} (s : Sign) (hr : r ≤ 2 ^ spec.mantissaBits) (ht : spec.minExponent ≤ t)
    (hfull : 2 ^ spec.mantissaBitsWithoutImplicit ≤ r ∨ t = spec.minExponent) (h : Nearest spec v (r * 2 ^ t)) :
    Rounded spec (unit s * v) (settle spec s r t) := by
  unfold settle
  rcases Nat.lt_or_eq_of_le hr with hlt | rfl
  · rw [shiftToTargetExponent_small hlt ht]
    dsimp only
    split
    · rename_i hzero
      rw [hzero, Nat.cast_zero, zero_mul] at h
      exact ⟨trivial, 0, rfl, by simpa using h.signed s⟩
    · refine ⟨⟨hlt, ht, hfull⟩, _, rfl, ?_⟩
      rw [apply_eq, mul_assoc]
      exact h.signed s
  · have hcarried : ((2 ^ spec.mantissaBits : ℕ) : ℚ) * 2 ^ t =
        (2 ^ spec.mantissaBitsWithoutImplicit : ℕ) * 2 ^ (t + 1) := by
      rw [mantissaBits_eq, two_pow_add]
      push_cast
      ring
    rw [shiftToTargetExponent_carried ht]
    dsimp only
    rw [dif_neg (by positivity)]
    refine ⟨⟨Nat.pow_lt_pow_right one_lt_two ?_, by omega, .inl (le_refl _)⟩, _, rfl, ?_⟩
    · rw [mantissaBits_eq]
      exact Nat.lt_succ_self _
    · rw [apply_eq, mul_assoc, ← hcarried]
      exact h.signed s

/-- Rounding a mantissa of which more is known gives a nearest number. -/
theorem rounded_roundWithAccuracy {x : ℚ} {accuracy : Accuracy} (s : Sign)
    (hx : Approximates (.ofMantissaAndAccuracy m accuracy) x) (he : e ≤ spec.targetExponent (totalExponent m e)) :
    Rounded spec (unit s * (x * 2 ^ e)) (roundWithAccuracy spec s m e accuracy) := by
  obtain ⟨n, ht⟩ : ∃ n : ℕ, spec.targetExponent (totalExponent m e) = e + n :=
    ⟨(spec.targetExponent (totalExponent m e) - e).toNat, by omega⟩
  have hn : (e + n - e).toNat = n := by omega
  have hshift : shiftToTargetExponent spec m e accuracy =
      (ExtendedMantissa.ofMantissaAndAccuracy m accuracy >>> n, e + n) := by
    unfold shiftToTargetExponent shiftToExponent
    rw [ht]
    dsimp only
    rw [hn]
  have hvalue : x * 2 ^ e = x / 2 ^ n * 2 ^ (e + n) := by
    rw [two_pow_add, zpow_natCast]
    field_simp
  have hbounds := hx.bounds
  rw [mantissa_ofMantissaAndAccuracy] at hbounds
  rw [targetExponent_eq] at ht
  obtain ⟨hsmall, hfull⟩ := cut_bounds hbounds.1 hbounds.2 ht
  have hcut := hx.shiftRight n
  rw [hvalue, roundWithAccuracy, hshift]
  generalize ExtendedMantissa.ofMantissaAndAccuracy m accuracy >>> n = em at hcut ⊢
  obtain ⟨hlow, hhigh⟩ := hcut.bounds
  obtain ⟨hround, hround'⟩ := roundedMantissa_bounds em
  have hmantissa : em.mantissa < 2 ^ spec.mantissaBits := by exact_mod_cast lt_of_le_of_lt hlow hsmall
  refine rounded_settle s (by omega) (by omega) (hfull.imp_left fun h => ?_)
    (nearest_of_half hcut.half (by omega) (by omega) hfull)
  have hlt : 2 ^ spec.mantissaBitsWithoutImplicit < em.mantissa + 1 := by exact_mod_cast lt_of_le_of_lt h hhigh
  omega

theorem decreaseExponent_value (m : ℕ) (e t : ℤ) :
    ((decreaseExponent m e t).1 : ℚ) * 2 ^ (decreaseExponent m e t).2 = m * 2 ^ e := by
  have hexp : e = (e - t).toNat + (e - (e - t).toNat) := by omega
  simp only [decreaseExponent, Nat.shiftLeft_eq]
  conv_rhs => rw [hexp, two_pow_add, zpow_natCast]
  push_cast
  ring

theorem log2_shiftLeft (hm : m ≠ 0) (n : ℕ) : (m <<< n).log2 = m.log2 + n := by
  have hpos : m <<< n ≠ 0 := by simp [Nat.shiftLeft_eq, hm]
  rw [Nat.log2_eq_iff hpos, Nat.shiftLeft_eq]
  obtain ⟨hlow, hhigh⟩ := (Nat.log2_eq_iff hm).mp rfl
  constructor
  · rw [pow_add]
    exact Nat.mul_le_mul_right _ hlow
  · rw [Nat.add_right_comm, pow_add]
    exact Nat.mul_lt_mul_of_pos_right hhigh (Nat.two_pow_pos n)

theorem zero_shiftRight (n : ℕ) :
    (ExtendedMantissa.ofMantissaAndAccuracy 0 .exact) >>> n = ⟨0, false, false⟩ := by
  induction n with
  | zero => rfl
  | succ n ih =>
    show ExtendedMantissa.shiftRightOne (ExtendedMantissa.ofMantissaAndAccuracy 0 .exact >>> n) = _
    rw [ih]
    rfl

theorem roundWithAccuracy_zero (spec : Format) (s : Sign) (e : ℤ) :
    roundWithAccuracy spec s 0 e .exact = .zero s := by
  have hrounded : (⟨0, false, false⟩ : ExtendedMantissa).roundedMantissa = 0 := rfl
  simp only [roundWithAccuracy, shiftToTargetExponent, shiftToExponent, zero_shiftRight, hrounded, dite_true]

theorem rounded_round (s : Sign) (m : ℕ) (e : ℤ) :
    Rounded spec (unit s * (m * 2 ^ e)) (UnpackedFloat.round spec s m e) := by
  unfold UnpackedFloat.round
  rcases eq_or_ne m 0 with rfl | hm
  · simp only [decreaseExponent, Nat.zero_shiftLeft, roundWithAccuracy_zero]
    exact ⟨trivial, 0, rfl, by simpa using Nearest.refl (isNumber_zero spec)⟩
  · rw [← decreaseExponent_value m e (spec.targetExponent (totalExponent m e))]
    refine rounded_roundWithAccuracy s (.exact _) ?_
    rw [targetExponent_eq, targetExponent_eq]
    simp only [decreaseExponent, log2_shiftLeft hm]
    omega

theorem rounded_normalize (n : ℤ) (e : ℤ) (s : Sign) : Rounded spec (n * 2 ^ e) (UnpackedFloat.normalize spec n e s) := by
  unfold UnpackedFloat.normalize
  rcases lt_trichotomy n 0 with h | rfl | h
  · rw [Int.compare_eq_lt.mpr h]
    have hround : Rounded spec _ _ := rounded_round .negative (-n).toNat e
    have hn : ((-n).toNat : ℚ) = -n := by exact_mod_cast Int.toNat_of_nonneg (by omega)
    rw [hn] at hround
    simpa [unit] using hround
  · exact ⟨trivial, 0, rfl, by simpa using Nearest.refl (isNumber_zero spec)⟩
  · rw [Int.compare_eq_gt.mpr h]
    have hround : Rounded spec _ _ := rounded_round .positive n.toNat e
    have hn : (n.toNat : ℚ) = n := by exact_mod_cast Int.toNat_of_nonneg (le_of_lt h)
    rw [hn] at hround
    simpa [unit] using hround

/-! ## Arithmetic -/

variable {p q : ℚ}

theorem rounded_of_value (hx : IsCanonical spec x) (h : value? x = some v) : Rounded spec v x :=
  ⟨hx, v, h, .refl (isNumber_of_value hx h)⟩

theorem rounded_zero (s : Sign) : Rounded spec 0 (.zero s) := rounded_of_value trivial rfl

theorem aligned_value (s : Sign) (m : ℕ) {e t : ℤ} (h : t ≤ e) :
    ((s.apply (decreaseExponent m e t).1 : ℤ) : ℚ) * 2 ^ t = s.apply m * 2 ^ e := by
  have hexp : (decreaseExponent m e t).2 = t := by
    simp only [decreaseExponent]
    omega
  have hvalue := decreaseExponent_value m e t
  rw [hexp] at hvalue
  rw [apply_eq, apply_eq, mul_assoc, hvalue, mul_assoc]

theorem rounded_add (hx : IsCanonical spec x) (hy : IsCanonical spec y) (hp : value? x = some p)
    (hq : value? y = some q) : Rounded spec (p + q) (UnpackedFloat.add spec x y) := by
  cases x with
  | infinity s => cases hp
  | notANumber => cases hp
  | zero s => cases y with
    | infinity r => cases hq
    | notANumber => cases hq
    | zero r =>
      cases hp
      cases hq
      rw [add_zero]
      cases s <;> cases r <;> exact rounded_zero _
    | finite r k d hk =>
      cases hp
      rw [zero_add]
      exact rounded_of_value hy hq
  | finite s m e hm => cases y with
    | infinity r => cases hq
    | notANumber => cases hq
    | zero r =>
      cases hq
      rw [add_zero]
      exact rounded_of_value hx hp
    | finite r k d hk =>
      cases hp
      cases hq
      have hround : Rounded spec _ _ := rounded_normalize (s.apply (decreaseExponent m e (min e d)).1 +
        r.apply (decreaseExponent k d (min e d)).1) (min e d) .positive
      push_cast at hround
      rw [add_mul, aligned_value s m (min_le_left e d), aligned_value r k (min_le_right e d)] at hround
      exact hround

theorem apply_neg (s : Sign) (n : ℤ) : (-s).apply n = -s.apply n := by
  cases s with
  | negative => exact (neg_neg n).symm
  | positive => rfl

theorem value_neg (h : value? x = some p) : value? x.neg = some (-p) := by
  cases x with
  | infinity s => cases h
  | notANumber => cases h
  | zero s =>
    cases h
    rfl
  | finite s m e hm =>
    cases h
    simp only [UnpackedFloat.neg, value?, apply_neg]
    push_cast
    rw [neg_mul]

theorem IsCanonical.neg (h : IsCanonical spec x) : IsCanonical spec x.neg := by
  cases x <;> exact h

theorem sub_eq_add (spec : Format) (x y : UnpackedFloat) :
    UnpackedFloat.sub spec x y = UnpackedFloat.add spec x y.neg := by
  cases x with
  | finite s m e hm => cases y with
    | finite r k d hk =>
      simp only [UnpackedFloat.sub, UnpackedFloat.add, UnpackedFloat.neg, apply_neg, Int.sub_eq_add_neg]
    | _ => rfl
  | _ => cases y <;> rfl

theorem rounded_sub (hx : IsCanonical spec x) (hy : IsCanonical spec y) (hp : value? x = some p)
    (hq : value? y = some q) : Rounded spec (p - q) (UnpackedFloat.sub spec x y) := by
  rw [sub_eq_add, sub_eq_add_neg]
  exact rounded_add hx hy.neg hp (value_neg hq)

theorem minExponent_nonpos (spec : Format) : spec.minExponent ≤ 0 := by
  have hpow : (1 : ℤ) ≤ 2 ^ (spec.exponentBits - 1) := one_le_pow₀ (by norm_num)
  have hbits := mantissaBits_pos spec
  unfold Format.minExponent
  omega

/-- The exponents of two numbers add up to no more than their product is rounded at. -/
theorem exponent_le_of_mul {k : ℕ} {d : ℤ} (hm : Canonical spec m e) (hk : Canonical spec k d) (hmpos : 0 < m)
    (hkpos : 0 < k) : e + d ≤ spec.targetExponent (totalExponent (m * k) (e + d)) := by
  rw [targetExponent_eq]
  by_cases hfull : 2 ^ spec.mantissaBitsWithoutImplicit ≤ m * k
  · have hlog := (Nat.le_log2 (Nat.mul_pos hmpos hkpos).ne').mpr hfull
    omega
  · have hmleast : e = spec.minExponent :=
      hm.full.resolve_left fun h => hfull (h.trans (Nat.le_mul_of_pos_right m hkpos))
    have hkleast : d = spec.minExponent :=
      hk.full.resolve_left fun h => hfull (h.trans (Nat.le_mul_of_pos_left k hmpos))
    have := minExponent_nonpos spec
    omega

theorem rounded_mul (hx : IsCanonical spec x) (hy : IsCanonical spec y) (hp : value? x = some p)
    (hq : value? y = some q) : Rounded spec (p * q) (UnpackedFloat.mul spec x y) := by
  cases x with
  | infinity s => cases hp
  | notANumber => cases hp
  | zero s =>
    cases hp
    rw [zero_mul]
    cases y with
    | infinity r => cases hq
    | notANumber => cases hq
    | zero r => exact rounded_zero _
    | finite r k d hk => exact rounded_zero _
  | finite s m e hm => cases y with
    | infinity r => cases hq
    | notANumber => cases hq
    | zero r =>
      cases hq
      rw [mul_zero]
      exact rounded_zero _
    | finite r k d hk =>
      cases hp
      cases hq
      have hround := rounded_roundWithAccuracy (s * r) (.exact (m * k)) (exponent_le_of_mul hx hy hm hk)
      have hvalue : (s.apply m * 2 ^ e : ℚ) * (r.apply k * 2 ^ d) = unit (s * r) * ((m * k : ℕ) * 2 ^ (e + d)) := by
        rw [apply_eq, apply_eq, unit_mul, two_pow_add]
        push_cast
        ring
      rw [hvalue]
      exact hround

/-- A quotient and what the division leaves tell where the fraction lies. -/
theorem approximates_div (m : ℕ) {k : ℕ} (hk : 0 < k) :
    Approximates (.ofMantissaAndAccuracy (m / k) (accuracyOfFraction (m % k) k)) ((m : ℚ) / k) := by
  have hkpos : (0 : ℚ) < k := Nat.cast_pos.mpr hk
  have hsplit : (m : ℚ) / k = (m / k : ℕ) + ((m % k : ℕ) : ℚ) / k := by
    have hmod : ((m % k : ℕ) : ℚ) + k * (m / k : ℕ) = m := by exact_mod_cast Nat.mod_add_div m k
    rw [← hmod]
    field_simp
    ring
  have hlt : ((m % k : ℕ) : ℚ) / k < 1 := (div_lt_one hkpos).mpr (Nat.cast_lt.mpr (Nat.mod_lt m hk))
  rw [hsplit, accuracyOfFraction]
  generalize m % k = r at hlt ⊢
  split
  · rename_i hr
    rw [hr]
    simp [ExtendedMantissa.ofMantissaAndAccuracy, Approximates]
  · rename_i hr
    have hpos : (0 : ℚ) < r / k := div_pos (Nat.cast_pos.mpr (Nat.pos_of_ne_zero hr)) hkpos
    rcases Nat.lt_trichotomy (2 * r) k with hcmp | hcmp | hcmp
    · have hhalf : (r : ℚ) / k < 1 / 2 := by
        rw [div_lt_iff₀ hkpos]
        have : (2 : ℚ) * r < k := by exact_mod_cast hcmp
        linarith
      rw [Nat.compare_eq_lt.mpr hcmp]
      simp only [ExtendedMantissa.ofMantissaAndAccuracy, Approximates]
      constructor <;> linarith
    · have hhalf : (r : ℚ) / k = 1 / 2 := by
        rw [div_eq_iff hkpos.ne']
        have : (2 : ℚ) * r = k := by exact_mod_cast hcmp
        linarith
      rw [Nat.compare_eq_eq.mpr hcmp, hhalf]
      rfl
    · have hhalf : 1 / 2 < (r : ℚ) / k := by
        rw [lt_div_iff₀ hkpos]
        have : (k : ℚ) < 2 * r := by exact_mod_cast hcmp
        linarith
      rw [Nat.compare_eq_gt.mpr hcmp]
      simp only [ExtendedMantissa.ofMantissaAndAccuracy, Approximates]
      constructor <;> linarith

/-- The exponent that a quotient is computed at leaves no fewer bits than are needed. -/
theorem exponent_le_of_div {k : ℕ} {d : ℤ} (hm : 0 < m) (hk : 0 < k)
    (ht : t = min (e - d) (spec.targetExponent (totalExponent m e - totalExponent k d))) :
    t ≤ spec.targetExponent (totalExponent (m <<< (e - d - t).toNat / k) t) := by
  rw [targetExponent_eq]
  rcases le_or_gt t spec.minExponent with hle | hlt
  · omega
  · have hbits := mantissaBits_eq spec
    simp only [Format.targetExponent, totalExponent] at ht
    generalize hn : (e - d - t).toNat = n
    have hmlog := Nat.log2_self_le hm.ne'
    have hklog := @Nat.lt_log2_self k
    -- the quotient has a full mantissa: the dividend was shifted as far as the divisor is long
    have hfull : 2 ^ spec.mantissaBitsWithoutImplicit ≤ m <<< n / k := by
      rw [Nat.le_div_iff_mul_le hk, Nat.shiftLeft_eq]
      calc 2 ^ spec.mantissaBitsWithoutImplicit * k
        _ ≤ 2 ^ spec.mantissaBitsWithoutImplicit * 2 ^ (k.log2 + 1) := Nat.mul_le_mul_left _ hklog.le
        _ = 2 ^ (spec.mantissaBitsWithoutImplicit + (k.log2 + 1)) := (pow_add ..).symm
        _ ≤ 2 ^ (m.log2 + n) := Nat.pow_le_pow_right two_pos (by omega)
        _ = 2 ^ m.log2 * 2 ^ n := pow_add ..
        _ ≤ m * 2 ^ n := Nat.mul_le_mul_right _ hmlog
    have hne : m <<< n / k ≠ 0 := fun h => by
      rw [h] at hfull
      exact absurd hfull (Nat.not_le_of_lt (Nat.two_pow_pos _))
    have hlog := (Nat.le_log2 hne).mpr hfull
    omega

theorem unit_div (s r : Sign) : unit (s / r) = unit s / unit r := by
  cases s <;> cases r <;> decide +kernel

theorem rounded_div (hp : value? x = some p) (hq : value? y = some q) (hne : q ≠ 0) :
    Rounded spec (p / q) (UnpackedFloat.div spec x y) := by
  cases y with
  | infinity r => cases hq
  | notANumber => cases hq
  | zero r =>
    cases hq
    exact absurd rfl hne
  | finite r k d hk => cases x with
    | infinity s => cases hp
    | notANumber => cases hp
    | zero s =>
      cases hp
      rw [zero_div]
      exact rounded_zero _
    | finite s m e hm =>
      cases hp
      cases hq
      obtain ⟨t, ht⟩ : ∃ t, min (e - d) (spec.targetExponent (totalExponent m e - totalExponent k d)) = t := ⟨_, rfl⟩
      have hround : Rounded spec _ _ := rounded_roundWithAccuracy (s / r)
        (approximates_div (m <<< (e - d - t).toNat) hk) (exponent_le_of_div hm hk ht.symm)
      have hvalue : (s.apply m * 2 ^ e : ℚ) / (r.apply k * 2 ^ d) =
          unit (s / r) * ((m <<< (e - d - t).toNat : ℕ) / k * 2 ^ t) := by
        have hexp : e = (e - d - t).toNat + (d + t) := by omega
        rw [apply_eq, apply_eq, unit_div, Nat.shiftLeft_eq]
        conv_lhs => rw [hexp, two_pow_add, two_pow_add d t, zpow_natCast]
        push_cast
        have := (two_pow_pos d).ne'
        field_simp
      rw [hvalue]
      simp only [UnpackedFloat.div, divCore, ht]
      exact hround

end Ostinato.Number
