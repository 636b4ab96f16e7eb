import Ostinato.Proofs.Number.Packing
import Ostinato.Score.Length

/-!
  Ostinato.Proofs.Score.Binary64: what adding and multiplying do to lengths.

  `LawfulLengths` says what the reading of scores relies on, and binary64 keeps it. Positive
  numbers are told apart by what they are at least (`AtLeast`). A sum is exact before it is
  rounded, and rounding it passes neither of its terms by (`AtLeast.add`). Packing keeps a
  number, or leaves infinity (`AtLeast.pack`), and readings follow the order of the numbers
  (`readingOf_mono`).

  A product has the sign of its factors (`HasSign.mul`), and zero, infinity and what is no
  number remain so (`IsSpecial.mul`). So dots give no length to what has none of itself
  (`positive_of_dotted`).
-/

namespace Ostinato.Score

/-- A length, or none. -/
def Lengths.IsLength {α : Type} [Lengths α] (a : α) : Prop := a = Lengths.zero ∨ Lengths.isPositive a = true

/-- What the reading of scores relies on: lengths add up to a length, and adding one never leads
    to an earlier reading of the clock. -/
class LawfulLengths (α : Type) [Lengths α] : Prop where
  toMillis_zero : Lengths.toMillis (Lengths.zero : α) = 0
  toMillis_le (a : α) : Lengths.toMillis a ≤ maxMillis
  isPositive_add {a b : α} : Lengths.IsLength a → Lengths.IsLength b →
    Lengths.isPositive a = true ∨ Lengths.isPositive b = true → Lengths.isPositive (Lengths.add a b) = true
  toMillis_le_add {a b : α} : Lengths.isPositive b = true → Lengths.toMillis a ≤ Lengths.toMillis (Lengths.add a b)

namespace Binary64

open Float.Model Float.Model.UnpackedFloat Number

/-! ## Sums -/

/-- Greater than zero, and not less than a number. -/
inductive AtLeast (q : ℚ) : UnpackedFloat → Prop
  | infinity : AtLeast q (.infinity .positive)
  | finite {m : ℕ} {e : ℤ} {hpos : 0 < m} : q ≤ m * 2 ^ e → AtLeast q (.finite .positive m e hpos)

variable {m : ℕ} {e : ℤ} {x y : UnpackedFloat} {q z : ℚ}

theorem atLeast_of_value (hz : value? x = some z) (hpos : 0 < z) (hle : q ≤ z) : AtLeast q x := by
  cases x with
  | infinity s => cases hz
  | notANumber => cases hz
  | zero s =>
    cases hz
    exact absurd hpos (lt_irrefl 0)
  | finite s m e hm =>
    cases s with
    | positive =>
      cases value_positive.symm.trans hz
      exact .finite hle
    | negative =>
      cases value_negative.symm.trans hz
      exact absurd hpos (not_lt.mpr (neg_nonpos.mpr (magnitude_nonneg m e)))

theorem isCanonical_unpack (b : BitVec Format.binary64.numBits) :
    IsCanonical Format.binary64 (UnpackedFloat.unpack Format.binary64 b) := (fits_unpack (by decide) b).canonical

theorem AtLeast.pack (h : AtLeast q x) (hx : IsCanonical Format.binary64 x) :
    AtLeast q (UnpackedFloat.unpack Format.binary64 (UnpackedFloat.pack Format.binary64 x)) := by
  cases h with
  | infinity => exact (unpack_pack_infinity _ .positive).symm ▸ .infinity
  | @finite m e hm hle =>
    rcases le_or_gt (e + Format.binary64.mantissaBitsWithoutImplicit) Format.binary64.exponentBias with hfits | hlarge
    · exact (unpack_pack (x := .finite .positive m e hm) ⟨hx, hfits⟩).symm ▸ .finite hle
    · exact (unpack_pack_large hlarge).symm ▸ .infinity

/-- Adding a positive number leads to no smaller one. -/
theorem AtLeast.add (hx : AtLeast q x) (hy : AtLeast 0 y) (hcx : IsCanonical Format.binary64 x)
    (hcy : IsCanonical Format.binary64 y) :
    AtLeast q (UnpackedFloat.add Format.binary64 x y) ∧
      IsCanonical Format.binary64 (UnpackedFloat.add Format.binary64 x y) := by
  cases hx with
  | infinity =>
    cases hy with
    | infinity => exact ⟨.infinity, trivial⟩
    | finite => exact ⟨.infinity, trivial⟩
  | @finite m e hm hle =>
    cases hy with
    | infinity => exact ⟨.infinity, trivial⟩
    | @finite k d hk hnonneg =>
      obtain ⟨hcanonical, z, hz, hnearest⟩ := rounded_add hcx hcy value_positive value_positive
      have hterm : (m : ℚ) * 2 ^ e ≤ z :=
        hnearest.ge (isNumber_of_value hcx value_positive) (le_add_of_nonneg_right hnonneg)
      exact ⟨atLeast_of_value hz ((magnitude_pos hm).trans_le hterm) (hle.trans hterm), hcanonical⟩

theorem AtLeast.add_zero (hx : AtLeast q x) : UnpackedFloat.add Format.binary64 x (.zero .positive) = x := by
  cases hx <;> rfl

theorem AtLeast.zero_add (hx : AtLeast q x) : UnpackedFloat.add Format.binary64 (.zero .positive) x = x := by
  cases hx <;> rfl

/-! ## Readings of the clock -/

def readingOf : UnpackedFloat → Nat
  | .infinity .positive => maxMillis
  | .finite .positive m e _ => min (Decimal.Binary.nearest ⟨m, e, false⟩) maxMillis
  | _ => 0

theorem nearest_eq (m : ℕ) (e : ℤ) (low : Bool) :
    Decimal.Binary.nearest ⟨m, e, low⟩ = ⌊(m : ℚ) * 2 ^ e + 1 / 2⌋₊ := by
  have hpos : (0 : ℚ) < 2 ^ (-e).toNat := by positivity
  have hvalue : (m : ℚ) * 2 ^ e = (m * 2 ^ e.toNat) / 2 ^ (-e).toNat := by
    have hexp : e = e.toNat - (-e).toNat := by omega
    conv_lhs => rw [hexp, zpow_sub₀ two_ne_zero, zpow_natCast, zpow_natCast]
    rw [mul_div_assoc]
  have hsum : (m : ℚ) * 2 ^ e + 1 / 2 =
      ((2 * (m * 2 ^ e.toNat) + 2 ^ (-e).toNat : ℕ) : ℚ) / (2 * 2 ^ (-e).toNat : ℕ) := by
    rw [hvalue]
    push_cast
    field_simp
  rw [hsum, Nat.floor_div_eq_div]
  simp only [Decimal.Binary.nearest, Nat.shiftLeft_eq, Nat.one_mul]

/-- What is at least as large has no earlier reading. -/
theorem readingOf_mono (h : ∀ q, AtLeast q x → AtLeast q y) : readingOf x ≤ readingOf y := by
  have hpositive : ∀ q, AtLeast q x → readingOf x ≤ readingOf y := by
    intro q hle
    cases hle with
    | infinity =>
      cases h 0 .infinity with
      | infinity => exact Nat.le_refl _
      | @finite m e hpos hy =>
        cases h ((m : ℚ) * 2 ^ e + 1) .infinity with
        | finite hlt => exact absurd hlt (not_le.mpr (lt_add_one _))
    | @finite m e hpos =>
      cases h ((m : ℚ) * 2 ^ e) (.finite (le_refl _)) with
      | infinity => exact Nat.min_le_right ..
      | finite hle =>
        simp only [readingOf, nearest_eq]
        exact min_le_min_right _ (Nat.floor_mono (add_le_add_left hle _))
  match x with
  | .infinity .positive => exact hpositive 0 .infinity
  | .finite .positive m e _ => exact hpositive 0 (.finite (magnitude_nonneg m e))
  | .infinity .negative => exact Nat.zero_le _
  | .finite .negative _ _ _ => exact Nat.zero_le _
  | .zero _ => exact Nat.zero_le _
  | .notANumber => exact Nat.zero_le _

variable (b : BitVec Format.binary64.numBits)

theorem toNat_unpackMantissa : (unpackMantissa b).toNat = b.toNat % (1 <<< 52) := by
  simp [unpackMantissa]

theorem toNat_unpackExponent : (unpackExponent b).toNat = b.toNat >>> 52 % 2048 := by
  simp [unpackExponent]

theorem ofBitVec_unpackSign :
    Sign.ofBitVec (unpackSign b) = if b.toNat >>> 63 == 1 then .negative else .positive := by
  have hlt : b.toNat < 2 ^ 64 := b.isLt
  have hbit : (unpackSign b).toNat = b.toNat >>> 63 := by
    simp [unpackSign]
    omega
  rw [← hbit]
  rcases BitVec.eq_zero_or_eq_one (unpackSign b) with h | h
  all_goals
    rw [h]
    rfl

/-- The bits of a number read by themselves give what unpacking gives. -/
theorem readingOf_unpack (a : Float) : Lengths.readingOf a = readingOf a.toModel.unpack := by
  obtain ⟨b, hb⟩ : ∃ b : BitVec Format.binary64.numBits, a.toModel.toBits.toBitVec = b := ⟨_, rfl⟩
  have hn : a.toBits.toNat = b.toNat := congrArg BitVec.toNat hb
  have hmantissa : unpackMantissa b = 0#_ ↔ b.toNat % (1 <<< 52) = 0 := by
    rw [← toNat_unpackMantissa, ← BitVec.toNat_inj]
    rfl
  have hexponent : unpackExponent b = 0#_ ↔ b.toNat >>> 52 % 2048 = 0 := by
    rw [← toNat_unpackExponent, ← BitVec.toNat_inj]
    rfl
  have hall : unpackExponent b = -1#_ ↔ b.toNat >>> 52 % 2048 = 2047 := by
    rw [← toNat_unpackExponent, ← BitVec.toNat_inj]
    rfl
  show Lengths.readingOf a = readingOf (UnpackedFloat.unpack Format.binary64 a.toModel.toBits.toBitVec)
  rw [hb]
  unfold Lengths.readingOf Decimal.ofBits UnpackedFloat.unpack
  have hbias : Format.binary64.exponentBias = 1023 := by decide
  have himplicit := toNat_implicit (unpackMantissa b)
  simp only [hn, hmantissa, hexponent, hall, ofBitVec_unpackSign, himplicit, toNat_unpackMantissa,
    toNat_unpackExponent, hbias]
  generalize (b.toNat >>> 63 == 1) = negative
  by_cases htop : b.toNat >>> 52 % 2048 = 2047
  · rw [if_pos htop, if_pos htop]
    by_cases hzero : b.toNat % (1 <<< 52) = 0
    · rw [if_pos hzero, if_pos hzero]
      cases negative <;> rfl
    · rw [if_neg hzero, if_neg hzero]
      rfl
  · rw [if_neg htop, if_neg htop]
    by_cases hlow : b.toNat >>> 52 % 2048 = 0
    · rw [if_pos hlow, if_pos hlow]
      by_cases hzero : b.toNat % (1 <<< 52) = 0
      · rw [dif_pos hzero, hzero]
        cases negative <;> decide +kernel
      · rw [dif_neg hzero]
        cases negative with
        | true => rfl
        | false =>
          rw [hlow]
          rfl
    · rw [if_neg hlow, if_neg hlow]
      cases negative with
      | true => rfl
      | false => rfl

/-- Exactly the positive numbers are greater than zero. -/
theorem lt_iff (x : UnpackedFloat) : UnpackedFloat.lt (.zero .positive) x = true ↔ AtLeast 0 x := by
  constructor
  · intro h
    match x, h with
    | .infinity .positive, _ => exact .infinity
    | .finite .positive _ _ _, _ => exact .finite (magnitude_nonneg ..)
  · intro h
    cases h <;> rfl

theorem isPositive_iff (a : Float) : Lengths.isPositive a = true ↔ AtLeast 0 a.toModel.unpack := by
  rw [← lt_iff]
  show decide (Float.lt 0.0 a = true) = true ↔ _
  rw [Bool.decide_eq_true]
  show decide (Float.Model.lt _ _ = true) = true ↔ _
  rw [Bool.decide_eq_true]
  rfl

/-! ## Lengths -/

theorem unpack_zero : (Lengths.zero : Float).toModel.unpack = .zero .positive := rfl

theorem unpack_add (a b : Float) : (Lengths.add a b).toModel.unpack = UnpackedFloat.unpack Format.binary64
    (UnpackedFloat.pack Format.binary64 (UnpackedFloat.add Format.binary64 a.toModel.unpack b.toModel.unpack)) := rfl

/-- Adding a length leads to no smaller number. -/
theorem atLeast_add {a b : Float} (ha : AtLeast q a.toModel.unpack) (hb : Lengths.isPositive b = true) :
    AtLeast q (Lengths.add a b).toModel.unpack := by
  obtain ⟨hsum, hcanonical⟩ := ha.add ((isPositive_iff b).mp hb) (isCanonical_unpack _) (isCanonical_unpack _)
  rw [unpack_add]
  exact hsum.pack hcanonical

/-- Nothing and a length are the length, packed anew. -/
theorem atLeast_add_zero {a : Float} (ha : AtLeast q a.toModel.unpack) :
    AtLeast q (Lengths.add a Lengths.zero).toModel.unpack ∧
      AtLeast q (Lengths.add Lengths.zero a).toModel.unpack := by
  rw [unpack_add, unpack_add, unpack_zero, ha.add_zero, ha.zero_add]
  exact ⟨ha.pack (isCanonical_unpack _), ha.pack (isCanonical_unpack _)⟩

instance : LawfulLengths Float where
  toMillis_zero := readingOf_unpack _
  toMillis_le := Lengths.readingOf_le
  isPositive_add := by
    intro a b ha hb hpositive
    have hzero : ¬ Lengths.isPositive (Lengths.zero : Float) = true := by decide +kernel
    rw [isPositive_iff]
    rcases ha with rfl | ha
    · exact (atLeast_add_zero ((isPositive_iff b).mp (hpositive.resolve_left hzero))).2
    · rcases hb with rfl | hb
      · exact (atLeast_add_zero ((isPositive_iff a).mp ha)).1
      · exact atLeast_add ((isPositive_iff a).mp ha) hb
  toMillis_le_add := by
    intro a b hb
    show Lengths.readingOf a ≤ Lengths.readingOf (Lengths.add a b)
    rw [readingOf_unpack, readingOf_unpack]
    exact readingOf_mono fun q ha => atLeast_add ha hb

/-! ## Products -/

variable {s r : Sign}

/-- No number, or one of that sign. -/
inductive HasSign (s : Sign) : UnpackedFloat → Prop
  | notANumber : HasSign s .notANumber
  | infinity : HasSign s (.infinity s)
  | zero : HasSign s (.zero s)
  | finite {m : Nat} {e : Int} {hpos : 0 < m} : HasSign s (.finite s m e hpos)

theorem hasSign_unpack_packComponents (s : Sign) (exponent : BitVec Format.binary64.exponentBits)
    (mantissa : BitVec Format.binary64.mantissaBitsWithoutImplicit) :
    HasSign s (UnpackedFloat.unpack Format.binary64 (packComponents Format.binary64 s exponent mantissa)) := by
  rw [unpack_packComponents]
  split
  · split
    · exact .infinity
    · exact .notANumber
  · split
    · split
      · exact .zero
      · exact .finite
    · exact .finite

theorem HasSign.pack (h : HasSign s x) :
    HasSign s (UnpackedFloat.unpack Format.binary64 (UnpackedFloat.pack Format.binary64 x)) := by
  cases h with
  | notANumber =>
    have hnan : UnpackedFloat.unpack Format.binary64 (UnpackedFloat.pack Format.binary64 .notANumber) = .notANumber :=
      rfl
    exact hnan ▸ .notANumber
  | infinity => exact (unpack_pack_infinity _ s).symm ▸ .infinity
  | zero => exact hasSign_unpack_packComponents ..
  | finite =>
    unfold UnpackedFloat.pack
    dsimp only
    split
    · exact hasSign_unpack_packComponents ..
    · split
      · exact hasSign_unpack_packComponents ..
      · exact hasSign_unpack_packComponents ..

theorem hasSign_roundWithAccuracy (s : Sign) (m : Nat) (e : Int) (accuracy : Accuracy) :
    HasSign s (roundWithAccuracy Format.binary64 s m e accuracy) := by
  unfold roundWithAccuracy
  dsimp only
  split
  · exact .zero
  · exact .finite

theorem HasSign.mul (hx : HasSign s x) (hy : HasSign r y) :
    HasSign (s * r) (UnpackedFloat.mul Format.binary64 x y) := by
  cases hx with
  | notANumber => exact .notANumber
  | infinity => cases hy with
    | zero => exact .notANumber
    | notANumber => exact .notANumber
    | _ => exact .infinity
  | zero => cases hy with
    | infinity => exact .notANumber
    | notANumber => exact .notANumber
    | _ => exact .zero
  | finite => cases hy with
    | notANumber => exact .notANumber
    | infinity => exact .infinity
    | zero => exact .zero
    | finite => exact hasSign_roundWithAccuracy ..

theorem AtLeast.hasSign (h : AtLeast q x) : HasSign .positive x := by
  cases h with
  | infinity => exact .infinity
  | finite => exact .finite

theorem HasSign.not_atLeast (h : HasSign .negative x) : ¬ AtLeast q x := by
  intro hpositive
  cases h <;> cases hpositive

theorem unpack_mul (a b : Float) : (a * b).toModel.unpack = UnpackedFloat.unpack Format.binary64
    (UnpackedFloat.pack Format.binary64 (UnpackedFloat.mul Format.binary64 a.toModel.unpack b.toModel.unpack)) := rfl

theorem hasSign_mul {a b : Float} (ha : HasSign s a.toModel.unpack) (hb : HasSign r b.toModel.unpack) :
    HasSign (s * r) (a * b).toModel.unpack :=
  unpack_mul a b ▸ (ha.mul hb).pack

/-- What products keep, a power keeps. -/
theorem powerFrom_induction {P : Float → Prop} (hmul : ∀ {a b : Float}, P a → P b → P (a * b))
    {a result : Float} (n : Nat)
    (ha : P a) (hresult : P result) : P (Lengths.powerFrom result a n) := by
  have hnext : ∀ {b result : Float} {n : Nat}, P b → P result → P (if n % 2 = 1 then result * b else result) := by
    intro b result n hb hresult
    split
    · exact hmul hresult hb
    · exact hresult
  fun_induction Lengths.powerFrom result a n with
  | case1 result a n next hn => exact hnext ha hresult
  | case2 result a n next hn ih => exact ih (hmul ha ha) (hnext ha hresult)

theorem hasSign_powerFrom {a result : Float} (n : Nat) (ha : HasSign .positive a.toModel.unpack)
    (hresult : HasSign .positive result.toModel.unpack) :
    HasSign .positive (Lengths.powerFrom result a n).toModel.unpack :=
  powerFrom_induction (P := fun x => HasSign .positive x.toModel.unpack) (fun ha hb => hasSign_mul ha hb) n ha hresult

/-- Zero, infinity, or no number. -/
inductive IsSpecial : UnpackedFloat → Prop
  | notANumber : IsSpecial .notANumber
  | infinity (s : Sign) : IsSpecial (.infinity s)
  | zero (s : Sign) : IsSpecial (.zero s)

theorem IsSpecial.unpack_pack (h : IsSpecial x) :
    UnpackedFloat.unpack Format.binary64 (UnpackedFloat.pack Format.binary64 x) = x :=
  Number.unpack_pack (by cases h <;> trivial)

/-- Multiplied by anything it remains one of these. -/
theorem IsSpecial.mul (h : IsSpecial x) (y : UnpackedFloat) : IsSpecial (UnpackedFloat.mul Format.binary64 x y) := by
  cases h with
  | notANumber => exact .notANumber
  | infinity s => cases y with
    | notANumber => exact .notANumber
    | zero r => exact .notANumber
    | infinity r => exact .infinity _
    | finite r => exact .infinity _
  | zero s => cases y with
    | notANumber => exact .notANumber
    | infinity r => exact .notANumber
    | zero r => exact .zero _
    | finite r => exact .zero _

theorem IsSpecial.not_positive (h : IsSpecial x) (hfinite : x.isFinite = true) : ¬ AtLeast 0 x := by
  intro hpositive
  cases h with
  | infinity s => cases hfinite
  | _ => cases hpositive

/-- A factor of a positive number is positive, unless the other factor is less than zero. -/
theorem positive_of_mul {a b : Float} (hb : HasSign .positive b.toModel.unpack)
    (hfinite : (a * b).isFinite = true) (hpositive : Lengths.isPositive (a * b) = true) :
    a.isFinite = true ∧ Lengths.isPositive a = true := by
  have hmul := (isPositive_iff _).mp hpositive
  have hspecial : ¬ IsSpecial a.toModel.unpack := by
    intro h
    have hpack := (h.mul b.toModel.unpack).unpack_pack
    rw [← unpack_mul] at hpack
    exact (h.mul b.toModel.unpack).not_positive (hpack ▸ hfinite) (hpack ▸ hmul)
  have hsign : ¬ HasSign .negative a.toModel.unpack := fun h => (hasSign_mul h hb).not_atLeast hmul
  rw [isPositive_iff]
  show a.toModel.unpack.isFinite = true ∧ _
  cases hx : a.toModel.unpack with
  | notANumber => exact absurd (hx ▸ .notANumber) hspecial
  | infinity s => exact absurd (hx ▸ .infinity s) hspecial
  | zero s => exact absurd (hx ▸ .zero s) hspecial
  | finite s m e hpos => cases s with
    | negative => exact absurd (hx ▸ .finite) hsign
    | positive => exact ⟨rfl, .finite (magnitude_nonneg ..)⟩

/-- Dots make no length of a number that is none. -/
theorem positive_of_dotted {a : Float} {dots : Nat} (hfinite : Lengths.isFinite (Lengths.dotted a dots) = true)
    (hpositive : Lengths.isPositive (Lengths.dotted a dots) = true) :
    Lengths.isFinite a = true ∧ Lengths.isPositive a = true := by
  refine positive_of_mul (hasSign_powerFrom _ ?_ ?_) hfinite hpositive
  · exact ((isPositive_iff 1.5).mp (by decide +kernel)).hasSign
  · exact ((isPositive_iff 1.0).mp (by decide +kernel)).hasSign

/-! ## Too many dots -/

def isEndless (a : Float) : Bool :=
  match a.toModel.unpack with
  | .infinity .positive => true
  | _ => false

theorem isEndless_iff {a : Float} : isEndless a = true ↔ a.toModel.unpack = .infinity .positive := by
  unfold isEndless
  split
  · simp_all
  · rename_i hne
    exact iff_of_false Bool.false_ne_true hne

theorem isEndless_mul {a b : Float} (ha : isEndless a = true) (hb : isEndless b = true) : isEndless (a * b) = true := by
  rw [isEndless_iff] at ha hb ⊢
  rw [unpack_mul, ha, hb]
  exact (IsSpecial.infinity .positive).unpack_pack

/-- A number with so many more bits below it, all of them set. -/
def withOnes : Nat → Nat → Nat
  | 0, n => n
  | k + 1, n => 2 * withOnes k n + 1

/-- What so many steps of a power make of what is multiplied and what is squared. -/
def squarings : Nat → Float × Float → Float × Float
  | 0, x => x
  | k + 1, x => squarings k (x.1 * x.2, x.2 * x.2)

theorem powerFrom_squarings (k : Nat) {n : Nat} (hn : 0 < n) (x : Float × Float) :
    Lengths.powerFrom x.1 x.2 (withOnes k n) = Lengths.powerFrom (squarings k x).1 (squarings k x).2 n := by
  induction k generalizing x with
  | zero => rfl
  | succ k ih =>
    have hpos : 0 < withOnes k n := by
      cases k with
      | zero => exact hn
      | succ k => exact Nat.succ_pos _
    have hodd : (2 * withOnes k n + 1) % 2 = 1 := by omega
    have hhalf : (2 * withOnes k n + 1) / 2 = withOnes k n := by omega
    rw [withOnes, Lengths.powerFrom, if_pos hodd, hhalf, if_neg (Nat.ne_of_gt hpos)]
    exact ih (x.1 * x.2, x.2 * x.2)

/-- Dots that are as many as count lead out of all numbers. -/
theorem isEndless_maxDots : isEndless (Lengths.powerFrom 1.0 1.5 Lengths.maxDots) = true := by
  have hones : Lengths.maxDots = withOnes 11 1048575 := by decide
  rw [hones, powerFrom_squarings 11 (by decide) (1.0, 1.5)]
  exact powerFrom_induction (P := (isEndless · = true)) isEndless_mul _ (by decide +kernel) (by decide +kernel)

/-- Multiplied with what is past all numbers, nothing stays a number. -/
theorem isSpecial_mul_endless (x : UnpackedFloat) :
    IsSpecial (UnpackedFloat.mul Format.binary64 x (.infinity .positive)) ∧
    (UnpackedFloat.mul Format.binary64 x (.infinity .positive)).isFinite = false := by
  cases x with
  | notANumber => exact ⟨.notANumber, rfl⟩
  | zero s => exact ⟨.notANumber, rfl⟩
  | infinity s => exact ⟨.infinity _, rfl⟩
  | finite s => exact ⟨.infinity _, rfl⟩

theorem isFinite_dotted_of_maxDots_le {dots : Nat} (h : Lengths.maxDots ≤ dots) (a : Float) :
    Lengths.isFinite (Lengths.dotted a dots) = false := by
  obtain ⟨hspecial, hfinite⟩ := isSpecial_mul_endless a.toModel.unpack
  show (a * Lengths.powerFrom 1.0 1.5 (min dots Lengths.maxDots)).toModel.unpack.isFinite = false
  rwa [Nat.min_eq_right h, unpack_mul, isEndless_iff.mp isEndless_maxDots, hspecial.unpack_pack]

end Binary64

end Ostinato.Score
