import Ostinato.Proofs.Number.Order
import Ostinato.Proofs.Number.Packing
import Ostinato.Sound.Envelope
import Ostinato.Sound.Signal

/-!
  Ostinato.Proofs.Sound.Single: what the arithmetic of binary32 gives.

  Sums, differences, products and quotients of numbers are rounded to a nearest one
  (`Rounds`), so they lie between any two numbers of the format that the exact result lies
  between (`Rounds.between`), and are finite up to half a unit above the largest number
  (`Rounds.isSome`). What is no number remains so through all of them (`IsNaN`).
-/

namespace Ostinato.Sound.Single

open Number
open Float.Model (Format UnpackedFloat)

/-! ## Numbers -/

def value? (x : Float32) : Option ℚ := Number.value? x.toModel.unpack

def Between (low high : ℚ) (x : Float32) : Prop := ∃ q, value? x = some q ∧ low ≤ q ∧ q ≤ high

/-- The numbers of binary32. -/
structure IsSingle (w : ℚ) : Prop where
  isNumber : IsNumber Format.binary32 w
  bounded : |w| < 2 ^ 128

def IsNaN (x : Float32) : Prop := x.toModel.unpack = .notANumber

/-- A float that has come of rounding a number. -/
def Rounds (v : ℚ) (x : Float32) : Prop :=
  ∃ z, Nearest Format.binary32 v z ∧ (|z| < 2 ^ 128 → value? x = some z) ∧ (2 ^ 128 ≤ |z| → x.isFinite = false)

def largest : ℚ := 2 ^ 128 - 2 ^ 104

variable {x y : Float32} {v w p q low high : ℚ}

theorem fits (x : Float32) : Fits Format.binary32 x.toModel.unpack := fits_unpack (by decide) _

theorem isCanonical (x : Float32) : IsCanonical Format.binary32 x.toModel.unpack := (fits x).canonical

theorem isNumber_of_two_pow {k d : ℤ} (hk : |k| ≤ 2 ^ 24) (hd : -149 ≤ d) :
    IsNumber Format.binary32 (k * 2 ^ d) := ⟨k, d, hk, hd, rfl⟩

/-- A number is zero, or has a mantissa of 24 bits and an exponent of no more than 104. -/
theorem value_cases (h : value? x = some q) :
    q = 0 ∨ ∃ (m : ℕ) (e : ℤ), |q| = m * 2 ^ e ∧ m + 1 ≤ 2 ^ 24 ∧ e ≤ 104 := by
  have hfits := fits x
  unfold value? at h
  cases hx : x.toModel.unpack with
  | infinity s =>
    rw [hx] at h
    cases h
  | notANumber =>
    rw [hx] at h
    cases h
  | zero s =>
    rw [hx] at h
    cases h
    exact .inl rfl
  | finite s m e hm =>
    rw [hx] at h hfits
    have hsmall : m < 2 ^ 24 := hfits.1.small
    have hlarge : e + (23 : ℕ) ≤ (127 : ℕ) := hfits.2
    exact .inr ⟨m, e, abs_value h, hsmall, by omega⟩

theorem abs_le_largest (h : value? x = some q) : |q| ≤ largest := by
  rcases value_cases h with rfl | ⟨m, e, hq, hm, he⟩
  · norm_num [largest]
  · have hm' : (m : ℚ) ≤ 2 ^ 24 - 1 := by
      have : (m : ℚ) + 1 ≤ 2 ^ 24 := by exact_mod_cast hm
      linarith
    calc |q| = m * 2 ^ e := hq
      _ ≤ (2 ^ 24 - 1) * 2 ^ e := mul_le_mul_of_nonneg_right hm' (two_pow_pos e).le
      _ ≤ (2 ^ 24 - 1) * 2 ^ (104 : ℤ) := mul_le_mul_of_nonneg_left (two_pow_le he) (by norm_num)
      _ = largest := by norm_num [largest]

theorem isSingle_of_value (h : value? x = some q) : IsSingle q :=
  ⟨isNumber_of_value (isCanonical x) h, (abs_le_largest h).trans_lt (by norm_num [largest])⟩

theorem IsSingle.neg (h : IsSingle w) : IsSingle (-w) := ⟨h.isNumber.neg, by rw [abs_neg]; exact h.bounded⟩

theorem isSingle_largest : IsSingle largest where
  isNumber := by
    have hvalue : largest = (2 ^ 24 - 1 : ℤ) * 2 ^ (104 : ℤ) := by
      norm_num [largest]
    rw [hvalue]
    exact isNumber_of_two_pow (by norm_num) (by norm_num)
  bounded := by norm_num [largest]

theorem isSingle_of_two_pow {k d : ℤ} (hk : |k| ≤ 2 ^ 24) (hd : -149 ≤ d) (hlt : |(k : ℚ) * 2 ^ d| < 2 ^ 128) :
    IsSingle (k * 2 ^ d) := ⟨isNumber_of_two_pow hk hd, hlt⟩

theorem isSingle_of_le {k : ℤ} (hk : |k| ≤ 2 ^ 24) : IsSingle k := by
  have hlt : |(k : ℚ)| ≤ 2 ^ 24 := by exact_mod_cast hk
  have hpow : (2 : ℚ) ^ 24 < 2 ^ 128 := by norm_num
  simpa using isSingle_of_two_pow (d := 0) hk (by norm_num) (by simpa using hlt.trans_lt hpow)

theorem isSingle_zero : IsSingle 0 := by simpa using isSingle_of_le (k := 0) (by norm_num)

theorem isSingle_one : IsSingle 1 := by simpa using isSingle_of_le (k := 1) (by norm_num)

theorem isSingle_two : IsSingle 2 := by simpa using isSingle_of_le (k := 2) (by norm_num)

theorem isFinite_iff : x.isFinite = true ↔ ∃ q, value? x = some q := by
  show x.toModel.unpack.isFinite = true ↔ _
  unfold value?
  cases x.toModel.unpack <;> simp [UnpackedFloat.isFinite, Number.value?]

theorem Between.mono {low' high' : ℚ} (h : Between low high x) (hl : low' ≤ low) (hh : high ≤ high') :
    Between low' high' x := by
  obtain ⟨q, hq, hlow, hhigh⟩ := h
  exact ⟨q, hq, hl.trans hlow, hhigh.trans hh⟩

theorem Between.isFinite (h : Between low high x) : x.isFinite = true := by
  obtain ⟨q, hq, -⟩ := h
  exact isFinite_iff.mpr ⟨q, hq⟩

theorem Between.magnitude (h : Between (-w) w x) : ∃ q, value? x = some q ∧ |q| ≤ w := by
  obtain ⟨q, hq, hlow, hhigh⟩ := h
  exact ⟨q, hq, abs_le.mpr ⟨hlow, hhigh⟩⟩

/-! ## Rounding -/

theorem unpack_add (x y : Float32) : (x + y).toModel.unpack = UnpackedFloat.unpack Format.binary32
    (UnpackedFloat.pack Format.binary32 (UnpackedFloat.add Format.binary32 x.toModel.unpack y.toModel.unpack)) := rfl

theorem unpack_sub (x y : Float32) : (x - y).toModel.unpack = UnpackedFloat.unpack Format.binary32
    (UnpackedFloat.pack Format.binary32 (UnpackedFloat.sub Format.binary32 x.toModel.unpack y.toModel.unpack)) := rfl

theorem unpack_mul (x y : Float32) : (x * y).toModel.unpack = UnpackedFloat.unpack Format.binary32
    (UnpackedFloat.pack Format.binary32 (UnpackedFloat.mul Format.binary32 x.toModel.unpack y.toModel.unpack)) := rfl

theorem unpack_div (x y : Float32) : (x / y).toModel.unpack = UnpackedFloat.unpack Format.binary32
    (UnpackedFloat.pack Format.binary32 (UnpackedFloat.div Format.binary32 x.toModel.unpack y.toModel.unpack)) := rfl

theorem unpack_ofModel (u : UnpackedFloat) : (Float32.ofModel (.pack u)).toModel.unpack =
    UnpackedFloat.unpack Format.binary32 (UnpackedFloat.pack Format.binary32 u) := rfl

theorem rounds_of_rounded {u : UnpackedFloat} (h : Rounded Format.binary32 v u)
    (hx : x.toModel.unpack = UnpackedFloat.unpack Format.binary32 (UnpackedFloat.pack Format.binary32 u)) :
    Rounds v x := by
  obtain ⟨z, hnearest, hsmall, hlarge⟩ := h.packed (by decide)
  refine ⟨z, hnearest, fun hlt => ?_, fun hle => ?_⟩
  · rw [value?, hx]
    exact hsmall hlt
  · obtain ⟨s, hs⟩ := hlarge hle
    show x.toModel.unpack.isFinite = false
    rw [hx, hs]
    rfl

theorem rounds_add (hx : value? x = some p) (hy : value? y = some q) : Rounds (p + q) (x + y) :=
  rounds_of_rounded (rounded_add (isCanonical x) (isCanonical y) hx hy) (unpack_add x y)

theorem rounds_sub (hx : value? x = some p) (hy : value? y = some q) : Rounds (p - q) (x - y) :=
  rounds_of_rounded (rounded_sub (isCanonical x) (isCanonical y) hx hy) (unpack_sub x y)

theorem rounds_mul (hx : value? x = some p) (hy : value? y = some q) : Rounds (p * q) (x * y) :=
  rounds_of_rounded (rounded_mul (isCanonical x) (isCanonical y) hx hy) (unpack_mul x y)

theorem rounds_div (hx : value? x = some p) (hy : value? y = some q) (hne : q ≠ 0) : Rounds (p / q) (x / y) :=
  rounds_of_rounded (rounded_div hx hy hne) (unpack_div x y)

theorem rounds_ofInt (n : ℤ) : Rounds n (ofInt n) := by
  have hround : Rounded Format.binary32 _ _ := rounded_normalize n 0 .positive
  rw [zpow_zero, mul_one] at hround
  exact rounds_of_rounded hround (unpack_ofModel _)

namespace Rounds

theorem between (h : Rounds v x) (hlow : IsSingle low) (hhigh : IsSingle high) (hl : low ≤ v) (hh : v ≤ high) :
    Between low high x := by
  obtain ⟨z, hnearest, hsmall, -⟩ := h
  have hzlow := hnearest.ge hlow.isNumber hl
  have hzhigh := hnearest.le hhigh.isNumber hh
  refine ⟨z, hsmall ?_, hzlow, hzhigh⟩
  exact abs_lt.mpr ⟨lt_of_lt_of_le (abs_lt.mp hlow.bounded).1 hzlow, lt_of_le_of_lt hzhigh (abs_lt.mp hhigh.bounded).2⟩

theorem between_neg (h : Rounds v x) (hw : IsSingle w) (hv : |v| ≤ w) : Between (-w) w x :=
  h.between hw.neg hw (abs_le.mp hv).1 (abs_le.mp hv).2

theorem nearest (h : Rounds v x) (hx : value? x = some q) : Nearest Format.binary32 v q := by
  obtain ⟨z, hnearest, hsmall, hlarge⟩ := h
  rcases lt_or_ge |z| (2 ^ 128) with hlt | hge
  · cases (hsmall hlt).symm.trans hx
    exact hnearest
  · have hinfinite := hlarge hge
    rw [isFinite_iff.mpr ⟨q, hx⟩] at hinfinite
    cases hinfinite

/-- No magnitude is passed by. -/
theorem le_abs (h : Rounds v x) (hx : value? x = some q) (hw : IsNumber Format.binary32 w) (hv : w ≤ |v|) : w ≤ |q| := by
  rcases le_abs'.mp hv with hv | hv
  · have hle := (h.nearest hx).le hw.neg hv
    exact le_abs'.mpr (.inl hle)
  · exact le_abs'.mpr (.inr ((h.nearest hx).ge hw hv))

/-- Half a unit above the largest number, rounding does not lead there. -/
theorem isSome (h : Rounds v x) (hv : |v| < 2 ^ 128 - 2 ^ 103) : ∃ q, value? x = some q := by
  obtain ⟨z, hnearest, hsmall, -⟩ := h
  have hpow : (largest : ℚ) < 2 ^ 128 ∧ 2 * (2 ^ 128 - 2 ^ 103 : ℚ) = largest + 2 ^ 128 := by
    constructor <;> norm_num [largest]
  obtain ⟨hv, hv'⟩ := abs_lt.mp hv
  have habove := hnearest.lt_of_middle isSingle_largest.isNumber hpow.1 (by linarith)
  have hbelow := hnearest.neg.lt_of_middle isSingle_largest.isNumber hpow.1 (by linarith)
  exact ⟨z, hsmall (abs_lt.mpr ⟨by linarith, habove⟩)⟩

/-- What is too large becomes infinite. -/
theorem infinite (h : Rounds v x) (hv : 2 ^ 128 ≤ |v|) : x.isFinite = false := by
  obtain ⟨z, hnearest, -, hlarge⟩ := h
  have hnumber : IsNumber Format.binary32 (2 ^ 128) := by
    simpa using isNumber_of_two_pow (k := 1) (d := 128) (by norm_num) (by norm_num)
  refine hlarge ?_
  rcases le_abs'.mp hv with hv | hv
  · exact le_abs'.mpr (.inl (hnearest.le hnumber.neg hv))
  · exact le_abs'.mpr (.inr (hnearest.ge hnumber hv))

end Rounds

/-! ## Order -/

theorem lt_iff (hx : value? x = some p) (hy : value? y = some q) : x < y ↔ p < q := by
  rw [← lt_value (isCanonical x) (isCanonical y) hx hy]
  show decide (x.toModel.unpack.lt y.toModel.unpack = true) = true ↔ _
  rw [decide_eq_true_iff]

theorem le_iff (hx : value? x = some p) (hy : value? y = some q) : x ≤ y ↔ p ≤ q := by
  rw [← le_value (isCanonical x) (isCanonical y) hx hy]
  show decide (x.toModel.unpack.le y.toModel.unpack = true) = true ↔ _
  rw [decide_eq_true_iff]

theorem value_zero : value? 0.0 = some 0 := by decide +kernel

theorem value_one : value? 1.0 = some 1 := by decide +kernel

theorem between_clamp {a b : Float32} (ha : value? a = some low) (hb : value? b = some high) (hle : low ≤ high)
    (hx : value? x = some q) : Between low high (clamp a b x) := by
  unfold clamp
  split
  · exact ⟨low, ha, le_refl _, hle⟩
  · rename_i hlow
    split
    · exact ⟨high, hb, hle, le_refl _⟩
    · rename_i hhigh
      rw [lt_iff hx ha] at hlow
      rw [lt_iff hb hx] at hhigh
      exact ⟨q, hx, not_lt.mp hlow, not_lt.mp hhigh⟩

/-! ## Remainders -/

/-- What is left of a number is no larger than what was taken away. -/
theorem between_remainder (hx : value? x = some p) (hy : value? y = some q) (hq : 0 < q) :
    Between (-q) q (remainder x y) := by
  unfold remainder
  split
  · rename_i h
    rw [le_iff value_zero hx, lt_iff hx hy] at h
    exact ⟨p, hx, by linarith [h.1], h.2.le⟩
  -- Brought to the lower of their exponents, the two are whole numbers, and the remainder is theirs.
  · obtain ⟨v, hv, hround⟩ : ∃ v, |v| ≤ q ∧
        Rounded Format.binary32 v (remainderOf x.toModel.unpack y.toModel.unpack) := by
      unfold value? at hx hy
      generalize x.toModel.unpack = x at hx ⊢
      generalize y.toModel.unpack = y at hy ⊢
      cases y with
      | infinity r => cases hy
      | notANumber => cases hy
      | zero r =>
        cases hy
        exact absurd hq (lt_irrefl 0)
      | finite r k d hk => cases x with
        | infinity s => cases hx
        | notANumber => cases hx
        | zero s => exact ⟨0, by simpa using hq.le, rounded_zero s⟩
        | finite s m e hm =>
          refine ⟨_, ?_, rounded_round s _ _⟩
          have hq' : |q| = k * 2 ^ d := abs_value hy
          have hlow : (0 : ℚ) < 2 ^ min e d := two_pow_pos _
          have hmod := Nat.mod_lt (m <<< (e - min e d).toNat)
            (Nat.shiftLeft_pos_iff.mpr hk : 0 < k <<< (d - min e d).toNat)
          have hle : ((m <<< (e - min e d).toNat % k <<< (d - min e d).toNat : ℕ) : ℚ) ≤
              (k <<< (d - min e d).toNat : ℕ) := Nat.cast_le.mpr hmod.le
          rw [abs_mul, abs_unit, one_mul, abs_of_nonneg (mul_nonneg (Nat.cast_nonneg _) hlow.le)]
          calc _ ≤ ((k <<< (d - min e d).toNat : ℕ) : ℚ) * 2 ^ min e d := mul_le_mul_of_nonneg_right hle hlow.le
            _ = k * 2 ^ d := by
                have hexp := decreaseExponent_value k d (min e d)
                have hsame : d - ((d - min e d).toNat : ℤ) = min e d := by omega
                simp only [Float.Model.UnpackedFloat.decreaseExponent, hsame] at hexp
                exact hexp
            _ = q := by rw [← hq', abs_of_pos hq]
    have hrounds : Rounds v (.ofModel (.pack (remainderOf x.toModel.unpack y.toModel.unpack))) :=
      rounds_of_rounded hround (unpack_ofModel _)
    have hsingle := isSingle_of_value hy
    exact hrounds.between hsingle.neg hsingle (abs_le.mp hv).1 (abs_le.mp hv).2

/-! ## What is no number -/

theorem isNaN_iff : x.isNaN = true ↔ IsNaN x := by
  show x.toModel.unpack.isNaN = true ↔ x.toModel.unpack = .notANumber
  cases x.toModel.unpack <;> simp [UnpackedFloat.isNaN]

/-- What is not finite is packed as it is. -/
theorem unpack_of_special {u : UnpackedFloat} (hu : u.isFinite = false)
    (hx : x.toModel.unpack = UnpackedFloat.unpack Format.binary32 (UnpackedFloat.pack Format.binary32 u)) :
    x.toModel.unpack = u := hx.trans (unpack_pack_special hu)

namespace IsNaN

theorem not_finite (h : IsNaN x) : x.isFinite = false := by
  show x.toModel.unpack.isFinite = false
  rw [h]
  rfl

theorem add (x : Float32) (h : IsNaN y) : IsNaN (x + y) := by
  have hu : UnpackedFloat.add Format.binary32 x.toModel.unpack y.toModel.unpack = .notANumber := by
    rw [h]
    cases x.toModel.unpack <;> rfl
  exact (unpack_of_special (by rw [hu]; rfl) (unpack_add x y)).trans hu

theorem mul (x : Float32) (h : IsNaN y) : IsNaN (x * y) := by
  have hu : UnpackedFloat.mul Format.binary32 x.toModel.unpack y.toModel.unpack = .notANumber := by
    rw [h]
    cases x.toModel.unpack <;> rfl
  exact (unpack_of_special (by rw [hu]; rfl) (unpack_mul x y)).trans hu

theorem mul_right (y : Float32) (h : IsNaN x) : IsNaN (x * y) := by
  have hu : UnpackedFloat.mul Format.binary32 x.toModel.unpack y.toModel.unpack = .notANumber := by
    rw [h]
    rfl
  exact (unpack_of_special (by rw [hu]; rfl) (unpack_mul x y)).trans hu

theorem div (y : Float32) (h : IsNaN x) : IsNaN (x / y) := by
  have hu : UnpackedFloat.div Format.binary32 x.toModel.unpack y.toModel.unpack = .notANumber := by
    rw [h]
    rfl
  exact (unpack_of_special (by rw [hu]; rfl) (unpack_div x y)).trans hu

theorem incomparable (h : IsNaN x) (y : Float32) : ¬ x < y ∧ ¬ y < x ∧ ¬ x ≤ y ∧ ¬ y ≤ x := by
  show ¬ decide (x.toModel.unpack.lt y.toModel.unpack = true) = true ∧
    ¬ decide (y.toModel.unpack.lt x.toModel.unpack = true) = true ∧
    ¬ decide (x.toModel.unpack.le y.toModel.unpack = true) = true ∧
    ¬ decide (y.toModel.unpack.le x.toModel.unpack = true) = true
  obtain ⟨hleft, hright⟩ := compare_notANumber y.toModel.unpack
  rw [h]
  simp [UnpackedFloat.lt, UnpackedFloat.le, hleft, hright]

end IsNaN

/-- What is finite has come of a finite result. -/
theorem isFinite_of_unpacked {u : UnpackedFloat} (h : x.isFinite = true)
    (hx : x.toModel.unpack = UnpackedFloat.unpack Format.binary32 (UnpackedFloat.pack Format.binary32 u)) :
    u.isFinite = true := by
  by_contra hu
  rw [Bool.not_eq_true] at hu
  replace h : x.toModel.unpack.isFinite = true := h
  rw [unpack_of_special hu hx, hu] at h
  cases h

theorem isFinite_of_add (h : (x + y).isFinite = true) : x.isFinite = true ∧ y.isFinite = true :=
  Number.isFinite_of_add (isFinite_of_unpacked h (unpack_add x y))

theorem isFinite_of_mul (h : (x * y).isFinite = true) : x.isFinite = true ∧ y.isFinite = true :=
  Number.isFinite_of_mul (isFinite_of_unpacked h (unpack_mul x y))

/-- Divided by a number, infinity remains infinite. -/
theorem isFinite_of_div (h : (x / y).isFinite = true) (hy : y.isFinite = true) : x.isFinite = true :=
  Number.isFinite_of_div (isFinite_of_unpacked h (unpack_div x y)) hy

theorem le_of_lt (h : x < y) : x ≤ y := by
  replace h : decide (x.toModel.unpack.lt y.toModel.unpack = true) = true := h
  show decide (x.toModel.unpack.le y.toModel.unpack = true) = true
  rw [decide_eq_true_iff] at h ⊢
  rw [UnpackedFloat.lt, beq_iff_eq] at h
  rw [UnpackedFloat.le, h]
  rfl

theorem between_of_le {a b : Float32} (ha : value? a = some low) (hb : value? b = some high) (hl : a ≤ x) (hh : x ≤ b) :
    Between low high x := by
  cases hx : x.isFinite with
  | true =>
    obtain ⟨q, hq⟩ := isFinite_iff.mp hx
    exact ⟨q, hq, (le_iff ha hq).mp hl, (le_iff hq hb).mp hh⟩
  | false =>
    replace hl : decide (a.toModel.unpack.le x.toModel.unpack = true) = true := hl
    replace hh : decide (x.toModel.unpack.le b.toModel.unpack = true) = true := hh
    replace hx : x.toModel.unpack.isFinite = false := hx
    unfold value? at ha hb
    cases hux : x.toModel.unpack with
    | zero s =>
      rw [hux] at hx
      cases hx
    | finite s m e hm =>
      rw [hux] at hx
      cases hx
    | notANumber => exact absurd hh (IsNaN.incomparable hux b).2.2.1
    | infinity s =>
      rw [hux] at hl hh
      cases s with
      | negative =>
        revert ha hl
        cases a.toModel.unpack <;> intro ha hl <;> cases ha <;> cases hl
      | positive =>
        revert hb hh
        cases b.toModel.unpack <;> intro hb hh <;> cases hb <;> cases hh

/-- Nothing is left of what is not finite. -/
theorem isNaN_remainder (hx : x.isFinite = false) (hy : value? y = some q) : IsNaN (remainder x y) := by
  have hcmp : ¬ ((0.0 : Float32) ≤ x ∧ x < y) := by
    rintro ⟨hl, hh⟩
    obtain ⟨p, hp, -⟩ := between_of_le value_zero hy hl (le_of_lt hh)
    rw [isFinite_iff.mpr ⟨p, hp⟩] at hx
    cases hx
  rw [remainder, if_neg hcmp]
  have hu : remainderOf x.toModel.unpack y.toModel.unpack = .notANumber := by
    replace hx : x.toModel.unpack.isFinite = false := hx
    revert hx
    cases x.toModel.unpack <;> intro hx <;> trivial
  exact (unpack_of_special (by rw [hu]; rfl) (unpack_ofModel _)).trans hu

end Ostinato.Sound.Single
