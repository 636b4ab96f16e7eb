import Ostinato.Proofs.Number.Rounding

/-!
  Ostinato.Proofs.Number.Order: how numbers are compared.

  Canonical numbers are compared by their exponents first, and by their mantissas if those are
  the same. That is the order of what they stand for (`compare_value`): a full mantissa at a
  higher exponent is more than any at a lower one (`magnitude_lt`).
-/

namespace Ostinato.Number

open Float.Model (Format UnpackedFloat)
open Float.Model.UnpackedFloat

variable {spec : Format} {p q : ℚ} {x y : UnpackedFloat} {m k : ℕ} {e d : ℤ}

theorem magnitude_lt (hm : Canonical spec m e) (hk : Canonical spec k d) (h : e < d) :
    (m : ℚ) * 2 ^ e < k * 2 ^ d := by
  have hsmall : (m : ℚ) < 2 ^ spec.mantissaBits := by exact_mod_cast hm.small
  have hfull : (2 : ℚ) ^ spec.mantissaBitsWithoutImplicit ≤ k := by
    have hleast := hm.least
    exact_mod_cast hk.full.resolve_right (by omega)
  calc (m : ℚ) * 2 ^ e < 2 ^ spec.mantissaBits * 2 ^ e := mul_lt_mul_of_pos_right hsmall (two_pow_pos e)
    _ = 2 ^ spec.mantissaBitsWithoutImplicit * 2 ^ (e + 1) := by
        rw [mantissaBits_eq, pow_succ, two_pow_add]; ring
    _ ≤ 2 ^ spec.mantissaBitsWithoutImplicit * 2 ^ d :=
        mul_le_mul_of_nonneg_left (two_pow_le (by omega)) (by positivity)
    _ ≤ k * 2 ^ d := mul_le_mul_of_nonneg_right hfull (two_pow_pos d).le

theorem compare_magnitudes (hm : Canonical spec m e) (hk : Canonical spec k d) :
    (compare e d).then (compare m k) = compare ((m : ℚ) * 2 ^ e) (k * 2 ^ d) := by
  rcases lt_trichotomy e d with h | rfl | h
  · rw [compare_lt_iff_lt.mpr h, compare_lt_iff_lt.mpr (magnitude_lt hm hk h)]
    rfl
  · rw [compare_eq_iff_eq.mpr rfl, Ordering.eq_then]
    rcases lt_trichotomy m k with h | rfl | h
    · have hlt : (m : ℚ) * 2 ^ e < k * 2 ^ e := mul_lt_mul_of_pos_right (Nat.cast_lt.mpr h) (two_pow_pos e)
      rw [compare_lt_iff_lt.mpr h, compare_lt_iff_lt.mpr hlt]
    · rw [compare_eq_iff_eq.mpr rfl, compare_eq_iff_eq.mpr rfl]
    · have hlt : (k : ℚ) * 2 ^ e < m * 2 ^ e := mul_lt_mul_of_pos_right (Nat.cast_lt.mpr h) (two_pow_pos e)
      rw [compare_gt_iff_gt.mpr h, compare_gt_iff_gt.mpr hlt]
  · rw [compare_gt_iff_gt.mpr h, compare_gt_iff_gt.mpr (magnitude_lt hk hm h)]
    rfl

theorem compare_neg_neg (p q : ℚ) : compare (-p) (-q) = (compare p q).swap := by
  rcases lt_trichotomy p q with h | rfl | h
  · rw [compare_lt_iff_lt.mpr h, compare_gt_iff_gt.mpr (neg_lt_neg h)]
    rfl
  · rw [compare_eq_iff_eq.mpr rfl, compare_eq_iff_eq.mpr rfl]
    rfl
  · rw [compare_gt_iff_gt.mpr h, compare_lt_iff_lt.mpr (neg_lt_neg h)]
    rfl

/-- Comparing canonical numbers is comparing what they stand for. -/
theorem compare_value (hx : IsCanonical spec x) (hy : IsCanonical spec y) (hp : value? x = some p)
    (hq : value? y = some q) : x.compare y = some (compare p q) := by
  match x, y with
  | .zero _, .zero _ =>
    cases hp
    cases hq
    rfl
  | .zero _, .finite .positive k d hk =>
    cases hp
    cases value_positive.symm.trans hq
    rw [compare_lt_iff_lt.mpr (magnitude_pos hk)]
    rfl
  | .zero _, .finite .negative k d hk =>
    cases hp
    cases value_negative.symm.trans hq
    rw [compare_gt_iff_gt.mpr (neg_neg_of_pos (magnitude_pos hk))]
    rfl
  | .finite .positive m e hm, .zero _ =>
    cases value_positive.symm.trans hp
    cases hq
    rw [compare_gt_iff_gt.mpr (magnitude_pos hm)]
    rfl
  | .finite .negative m e hm, .zero _ =>
    cases value_negative.symm.trans hp
    cases hq
    rw [compare_lt_iff_lt.mpr (neg_neg_of_pos (magnitude_pos hm))]
    rfl
  | .finite .positive m e hm, .finite .positive k d hk =>
    cases value_positive.symm.trans hp
    cases value_positive.symm.trans hq
    rw [← compare_magnitudes hx hy]
    rfl
  | .finite .positive m e hm, .finite .negative k d hk =>
    cases value_positive.symm.trans hp
    cases value_negative.symm.trans hq
    rw [compare_gt_iff_gt.mpr ((neg_neg_of_pos (magnitude_pos hk)).trans (magnitude_pos hm))]
    rfl
  | .finite .negative m e hm, .finite .positive k d hk =>
    cases value_negative.symm.trans hp
    cases value_positive.symm.trans hq
    rw [compare_lt_iff_lt.mpr ((neg_neg_of_pos (magnitude_pos hm)).trans (magnitude_pos hk))]
    rfl
  | .finite .negative m e hm, .finite .negative k d hk =>
    cases value_negative.symm.trans hp
    cases value_negative.symm.trans hq
    rw [compare_neg_neg, ← compare_magnitudes hx hy]
    rfl
  | .infinity _, _ => cases hp
  | .notANumber, _ => cases hp
  | .zero _, .infinity _ => cases hq
  | .zero _, .notANumber => cases hq
  | .finite .., .infinity _ => cases hq
  | .finite .., .notANumber => cases hq

theorem compare_notANumber (x : UnpackedFloat) :
    UnpackedFloat.compare .notANumber x = none ∧ x.compare .notANumber = none := by
  cases x <;> exact ⟨rfl, rfl⟩

theorem lt_value (hx : IsCanonical spec x) (hy : IsCanonical spec y) (hp : value? x = some p)
    (hq : value? y = some q) : x.lt y = true ↔ p < q := by
  rw [UnpackedFloat.lt, compare_value hx hy hp hq, ← compare_lt_iff_lt (a := p)]
  cases compare p q <;> decide

theorem le_value (hx : IsCanonical spec x) (hy : IsCanonical spec y) (hp : value? x = some p)
    (hq : value? y = some q) : x.le y = true ↔ p ≤ q := by
  rw [UnpackedFloat.le, compare_value hx hy hp hq, ← compare_le_iff_le (a := p)]
  cases compare p q <;> decide

end Ostinato.Number
