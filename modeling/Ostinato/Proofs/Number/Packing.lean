import Ostinato.Proofs.Number.Rounding

/-!
  Ostinato.Proofs.Number.Packing: the bits that a number is kept in.

  Unpacking gives canonical numbers within the bounds of the format (`fits_unpack`), and
  packing keeps every such number (`unpack_pack`); one that lies beyond them becomes infinity.
  So an operation that rounds before it packs gives a nearest number, unless that one is
  beyond the bounds (`Rounded.packed`).
-/

namespace Ostinato.Number

open Float.Model (Format UnpackedFloat)
open Float.Model.UnpackedFloat

variable {spec : Format} {v z : ℚ} {x y : UnpackedFloat} {s : Sign} {m : ℕ} {e : ℤ}

/-- All numbers of the format are less than that. -/
def bound (spec : Format) : ℚ := 2 ^ (spec.exponentBias + 1)

/-- A number that is written with an exponent that can be packed. -/
def Fits (spec : Format) : UnpackedFloat → Prop
  | .finite _ m e _ => Canonical spec m e ∧ e + spec.mantissaBitsWithoutImplicit ≤ spec.exponentBias
  | _ => True

/-! ## Exponents -/

theorem two_pow_exponentBits (spec : Format) : 2 ^ spec.exponentBits = 2 * spec.exponentBias + 2 := by
  have hpos : 0 < 2 ^ (spec.exponentBits - 1) := Nat.two_pow_pos _
  have hsplit : 2 ^ spec.exponentBits = 2 * 2 ^ (spec.exponentBits - 1) := by
    rw [← pow_succ', Nat.sub_add_cancel spec.he]
  rw [hsplit, Format.exponentBias]
  omega

theorem minExponent_eq (spec : Format) :
    spec.minExponent = 1 - spec.exponentBias - spec.mantissaBitsWithoutImplicit := by
  have hpos : 1 ≤ 2 ^ (spec.exponentBits - 1) := Nat.one_le_two_pow
  unfold Format.minExponent Format.exponentBias
  rw [mantissaBits_eq, Nat.cast_sub hpos]
  push_cast
  ring

theorem toNat_ofNat_exponent {b : ℕ} (hb : b + 1 < 2 ^ spec.exponentBits) :
    (BitVec.ofNat spec.exponentBits b).toNat = b := by
  rw [BitVec.toNat_ofNat, Nat.mod_eq_of_lt (by omega)]

theorem toNat_neg_one (spec : Format) : (-1#(spec.exponentBits)).toNat = 2 ^ spec.exponentBits - 1 := by
  rw [BitVec.neg_one_eq_allOnes, BitVec.toNat_allOnes]

theorem toNat_implicit (mantissa : BitVec spec.mantissaBitsWithoutImplicit) :
    (1#1 ++ mantissa).toNat = 2 ^ spec.mantissaBitsWithoutImplicit + mantissa.toNat := by
  rw [BitVec.toNat_append, ← Nat.shiftLeft_add_eq_or_of_lt mantissa.isLt, Nat.shiftLeft_eq]
  simp

theorem ofBitVec_unpackSign_packComponents (s : Sign) (exponent : BitVec spec.exponentBits)
    (mantissa : BitVec spec.mantissaBitsWithoutImplicit) :
    Sign.ofBitVec (unpackSign (packComponents spec s exponent mantissa)) = s := by
  have hsign : unpackSign (packComponents spec s exponent mantissa) = s.toBitVec := by
    refine BitVec.eq_of_getLsbD_eq fun i hi => ?_
    obtain rfl : i = 0 := by omega
    simp [unpackSign, packComponents, BitVec.getLsbD_append, BitVec.getElem_append]
  rw [hsign]
  cases s <;> rfl

/-! ## Unpacking -/

theorem unpack_packComponents (s : Sign) (exponent : BitVec spec.exponentBits)
    (mantissa : BitVec spec.mantissaBitsWithoutImplicit) :
    unpack spec (packComponents spec s exponent mantissa) =
      if exponent = -1#_ then if mantissa = 0#_ then .infinity s else .notANumber
      else if exponent = 0#_ then
        if h : mantissa = 0#_ then .zero s
        else .finite s mantissa.toNat (exponent.toNat - (spec.exponentBias + spec.mantissaBitsWithoutImplicit) + 1)
          (by simpa [BitVec.toNat_pos, BitVec.pos_iff_ne_zero])
      else .finite s (1#1 ++ mantissa).toNat (exponent.toNat - (spec.exponentBias + spec.mantissaBitsWithoutImplicit))
        (by simp) := by
  unfold unpack
  simp only [unpackMantissa_packComponents, unpackExponent_packComponents, ofBitVec_unpackSign_packComponents]

/-- Unpacking gives canonical numbers, in a format that has exponents for some. -/
theorem fits_unpack (hspec : 0 < spec.exponentBias) (b : BitVec spec.numBits) : Fits spec (unpack spec b) := by
  have hmantissa := (unpackMantissa b).isLt
  have hexponent := (unpackExponent b).isLt
  have hbits := mantissaBits_eq spec
  have hfull : 2 ^ spec.mantissaBits = 2 * 2 ^ spec.mantissaBitsWithoutImplicit := by rw [hbits, pow_succ']
  have hleast := minExponent_eq spec
  have hcapacity := two_pow_exponentBits spec
  unfold unpack
  dsimp only
  split
  · split <;> trivial
  · rename_i hlast
    have hlast : (unpackExponent b).toNat ≠ 2 ^ spec.exponentBits - 1 := fun h =>
      hlast (BitVec.eq_of_toNat_eq (h.trans (toNat_neg_one spec).symm))
    split
    · rename_i hzero
      split
      · trivial
      · have h0 : (unpackExponent b).toNat = 0 := by
          rw [hzero]
          rfl
        refine ⟨⟨by omega, by omega, .inr (by omega)⟩, by omega⟩
    · rename_i hzero
      have h0 : (unpackExponent b).toNat ≠ 0 := fun h => hzero (BitVec.eq_of_toNat_eq h)
      have himplicit := toNat_implicit (unpackMantissa b)
      refine ⟨⟨by omega, by omega, .inl (by omega)⟩, by omega⟩

theorem Fits.canonical (h : Fits spec x) : IsCanonical spec x := by
  cases x with
  | finite s m e hm => exact h.1
  | _ => trivial

/-! ## Packing -/

theorem zero_ne_neg_one (spec : Format) : 0#(spec.exponentBits) ≠ -1#_ := by
  intro h
  have hnat := congrArg BitVec.toNat h
  rw [toNat_neg_one, two_pow_exponentBits, BitVec.toNat_zero] at hnat
  omega

theorem unpack_pack_zero (spec : Format) (s : Sign) : unpack spec (pack spec (.zero s)) = .zero s := by
  show unpack spec (packComponents spec s 0#_ 0#_) = _
  rw [unpack_packComponents, if_neg (zero_ne_neg_one spec), if_pos rfl, dif_pos rfl]

theorem unpack_pack_infinity (spec : Format) (s : Sign) :
    unpack spec (pack spec (.infinity s)) = .infinity s := by
  show unpack spec (packComponents spec s (-1#_) 0#_) = _
  rw [unpack_packComponents, if_pos rfl, if_pos rfl]

theorem unpack_pack_notANumber (spec : Format) : unpack spec (pack spec .notANumber) = .notANumber := by
  show unpack spec (packComponents spec .positive (-1#_) _) = _
  rw [unpack_packComponents, if_pos rfl, if_neg]
  intro h
  have hbit := congrArg (fun b => b.getLsbD (spec.mantissaBitsWithoutImplicit - 1)) h
  have := spec.hm
  simp at hbit
  omega

/-- Packing keeps a number that fits. -/
theorem unpack_pack (h : Fits spec x) : unpack spec (pack spec x) = x := by
  cases x with
  | infinity s => exact unpack_pack_infinity spec s
  | notANumber => exact unpack_pack_notANumber spec
  | zero s => exact unpack_pack_zero spec s
  | finite s m e hm =>
    obtain ⟨⟨hsmall, hleast, hfull⟩, hfits⟩ := h
    have hbits := mantissaBits_eq spec
    have hmin := minExponent_eq spec
    have hcapacity := two_pow_exponentBits spec
    obtain ⟨b, hb⟩ : ∃ b : ℕ, e + spec.exponentBias + spec.mantissaBitsWithoutImplicit = b :=
      ⟨_, (Int.toNat_of_nonneg (by omega)).symm⟩
    have hlast : b + 1 < 2 ^ spec.exponentBits := by omega
    have hlog := (Nat.log2_lt hm.ne').mpr hsmall
    have hfulllog := Nat.le_log2 (k := spec.mantissaBitsWithoutImplicit) hm.ne'
    unfold pack
    simp only [hb, Int.toNat_natCast]
    rw [if_neg (by omega)]
    -- a full mantissa leaves its highest bit out, a smaller one has the exponent field 0
    by_cases hnormal : 2 ^ spec.mantissaBitsWithoutImplicit ≤ m
    · have := hfulllog.mpr hnormal
      have hexponent := toNat_ofNat_exponent hlast
      have hmantissa : (1#1 ++ BitVec.ofNat spec.mantissaBitsWithoutImplicit m).toNat = m := by
        have hdouble : 2 ^ spec.mantissaBits = 2 * 2 ^ spec.mantissaBitsWithoutImplicit := by rw [hbits, pow_succ']
        rw [toNat_implicit, BitVec.toNat_ofNat, Nat.mod_eq_sub_mod hnormal, Nat.mod_eq_of_lt (by omega)]
        omega
      have hinfinite : BitVec.ofNat spec.exponentBits b ≠ -1#_ := fun h => by
        rw [h, toNat_neg_one] at hexponent
        omega
      have hzero : BitVec.ofNat spec.exponentBits b ≠ 0#_ := fun h => by
        rw [h, BitVec.toNat_zero] at hexponent
        omega
      rw [if_pos (by omega), unpack_packComponents, if_neg hinfinite, if_neg hzero]
      simp only [hmantissa, hexponent]
      congr 1
      omega
    · have hnot := mt hfulllog.mp hnormal
      have hmantissa : (BitVec.ofNat spec.mantissaBitsWithoutImplicit m).toNat = m := by
        rw [BitVec.toNat_ofNat, Nat.mod_eq_of_lt (by omega)]
      have hzero : BitVec.ofNat spec.mantissaBitsWithoutImplicit m ≠ 0#_ := fun h => by
        rw [h, BitVec.toNat_zero] at hmantissa
        omega
      rw [if_neg (by omega), unpack_packComponents, if_neg (zero_ne_neg_one spec), if_pos rfl, dif_neg hzero]
      simp only [hmantissa, BitVec.toNat_zero]
      congr 1
      have := hfull.resolve_left hnormal
      push_cast
      omega

/-- One that does not fit becomes infinity. -/
theorem unpack_pack_large {hm : 0 < m} (h : spec.exponentBias < e + spec.mantissaBitsWithoutImplicit) :
    unpack spec (pack spec (.finite s m e hm)) = .infinity s := by
  have hcapacity := two_pow_exponentBits spec
  unfold pack
  rw [if_pos (by omega)]
  exact unpack_pack_infinity spec s

theorem abs_value {hm : 0 < m} (hz : value? (.finite s m e hm) = some z) : |z| = m * 2 ^ e := by
  cases hz
  rw [apply_eq, mul_assoc, abs_mul, abs_unit, one_mul, abs_of_nonneg (magnitude_nonneg m e)]

/-- What fits is what is less than the bound. -/
theorem fits_iff (hspec : 0 < spec.exponentBias) {hm : 0 < m} (h : Canonical spec m e)
    (hz : value? (.finite s m e hm) = some z) :
    e + spec.mantissaBitsWithoutImplicit ≤ spec.exponentBias ↔ |z| < bound spec := by
  have hbits := mantissaBits_eq spec
  rw [abs_value hz, bound, ← zpow_natCast (2 : ℚ) (spec.exponentBias + 1)]
  constructor
  · intro hfits
    have hsmall : (m : ℚ) < 2 ^ spec.mantissaBits := by exact_mod_cast h.small
    calc (m : ℚ) * 2 ^ e < 2 ^ spec.mantissaBits * 2 ^ e := mul_lt_mul_of_pos_right hsmall (two_pow_pos e)
      _ = 2 ^ (spec.mantissaBits + e) := by rw [two_pow_add, zpow_natCast]
      _ ≤ _ := two_pow_le (by push_cast; omega)
  · intro hlt
    by_contra hlarge
    have hfull : ((2 ^ spec.mantissaBitsWithoutImplicit : ℕ) : ℚ) ≤ m := by
      have hmin := minExponent_eq spec
      exact Nat.cast_le.mpr (h.full.resolve_right (by omega))
    push_cast at hfull
    refine absurd hlt (not_lt.mpr ?_)
    calc (2 : ℚ) ^ ((spec.exponentBias + 1 : ℕ) : ℤ)
      _ ≤ 2 ^ (spec.mantissaBitsWithoutImplicit + e) := two_pow_le (by push_cast; omega)
      _ = 2 ^ spec.mantissaBitsWithoutImplicit * 2 ^ e := by rw [two_pow_add, zpow_natCast]
      _ ≤ m * 2 ^ e := mul_le_mul_of_nonneg_right hfull (two_pow_pos e).le

/-- What is packed after rounding is a nearest number, or beyond the bounds. -/
theorem Rounded.packed (hspec : 0 < spec.exponentBias) (h : Rounded spec v x) : ∃ z, Nearest spec v z ∧
    (|z| < bound spec → value? (unpack spec (pack spec x)) = some z) ∧
    (bound spec ≤ |z| → ∃ s, unpack spec (pack spec x) = .infinity s) := by
  obtain ⟨hcanonical, z, hz, hnearest⟩ := h
  refine ⟨z, hnearest, fun hlt => ?_, fun hle => ?_⟩
  · have hfits : Fits spec x := by
      cases x with
      | finite s m e hm => exact ⟨hcanonical, (fits_iff hspec hcanonical hz).mpr hlt⟩
      | _ => trivial
    rw [unpack_pack hfits, hz]
  · cases x with
    | infinity s => cases hz
    | notANumber => cases hz
    | zero s =>
      cases hz
      rw [abs_zero] at hle
      exact absurd hle (not_le.mpr (pow_pos two_pos _))
    | finite s m e hm =>
      have hlarge := mt (fits_iff hspec hcanonical hz).mp (not_lt.mpr hle)
      exact ⟨s, unpack_pack_large (by omega)⟩

/-! ## What is not finite -/

/-- It is packed as it is. -/
theorem unpack_pack_special (h : x.isFinite = false) : unpack spec (pack spec x) = x := by
  refine unpack_pack ?_
  cases x with
  | finite s m e hm => cases h
  | _ => trivial

theorem isFinite_of_add (h : (UnpackedFloat.add spec x y).isFinite = true) : x.isFinite = true ∧ y.isFinite = true := by
  cases x with
  | infinity s => cases y with
    | infinity r => cases s <;> cases r <;> cases h
    | _ => cases h
  | notANumber => cases h
  | zero s => cases y with
    | infinity r => cases h
    | notANumber => cases h
    | _ => exact ⟨rfl, rfl⟩
  | finite s m e hm => cases y with
    | infinity r => cases h
    | notANumber => cases h
    | _ => exact ⟨rfl, rfl⟩

theorem isFinite_of_mul (h : (UnpackedFloat.mul spec x y).isFinite = true) : x.isFinite = true ∧ y.isFinite = true := by
  cases x with
  | infinity s => cases y <;> cases h
  | notANumber => cases h
  | zero s => cases y with
    | infinity r => cases h
    | notANumber => cases h
    | _ => exact ⟨rfl, rfl⟩
  | finite s m e hm => cases y with
    | infinity r => cases h
    | notANumber => cases h
    | _ => exact ⟨rfl, rfl⟩

theorem isFinite_of_div (h : (UnpackedFloat.div spec x y).isFinite = true) (hy : y.isFinite = true) :
    x.isFinite = true := by
  cases x with
  | infinity s => cases y with
    | infinity r => cases hy
    | _ => cases h
  | notANumber => cases h
  | _ => rfl

end Ostinato.Number
