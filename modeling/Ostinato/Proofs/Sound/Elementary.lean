import Ostinato.Proofs.Sound.Single

/-!
  Ostinato.Proofs.Sound.Elementary: what is known of the functions of a platform.

  No format says what their last digits are, so nothing is said of them. All that the range of
  the samples hangs on is that a sine lies from minus one to one and is lost with its angle, and
  that an exponential lies from zero to one where it decays (`LawfulElementary`).

  Platforms of that kind exist: `FixedPoint.elementary` computes the functions by their series,
  in whole numbers of 60 bits after the point, and so can be evaluated in a proof.
-/

namespace Ostinato.Sound

open Single
open Float.Model (Format UnpackedFloat)

class LawfulElementary [Elementary] : Prop where
  sin_between (x : Float32) : x.isFinite = true → -1.0 ≤ Elementary.sin x ∧ Elementary.sin x ≤ 1.0
  sin_isNaN (x : Float32) : x.isFinite = false → (Elementary.sin x).isNaN = true
  exp_between (x : Float32) : x.isFinite = true → x ≤ 0.0 → 0.0 ≤ Elementary.exp x ∧ Elementary.exp x ≤ 1.0

namespace FixedPoint

def one : Int := 2 ^ 60

/-- A whole turn in radians. -/
def turn : Int := 7244019458077122842

/-- The natural logarithm of two. -/
def logTwo : Int := 799144290325165978

/-- The whole number of units that a finite number comes to. -/
def units? (x : Float32) : Option Int :=
  match x.toModel.unpack with
  | .zero _ => some 0
  | .finite s m e _ => some (s.apply m * 2 ^ (e + 60).toNat / 2 ^ (-60 - e).toNat)
  | _ => none

/-- The number nearest to some units times a power of two. -/
def single (u e : Int) : Float32 := .ofModel (.pack (.normalize Format.binary32 u (e - 60) .positive))

/-- The sum of one, `x / d₁`, `x / d₁ * x / d₂` and so on. -/
def series (x : Int) (divisors : List Int) : Int :=
  divisors.foldr (fun d tail => one + x * tail / (one * d)) one

def sine (u : Int) : Int :=
  let angle := u % turn
  let sum := series (-(angle * angle / one)) ((List.range 20).map fun k => (2 * k + 2) * (2 * k + 3))
  max (-one) (min one (angle * sum / one))

/-- The series of a part of the exponent, squared as often as the exponent was halved. -/
def exponential (u : Int) : Int :=
  let part := max (-1024 * one) (min u (1024 * one)) / 1024
  let root := series part ((List.range 20).map fun k => k + 1)
  let power := (List.range 10).foldl (fun power _ => power * power / one) root
  if u ≤ 0 then max 0 (min one power) else power

def sin (x : Float32) : Float32 :=
  match units? x with
  | some u => single (sine u) 0
  | none => 0.0 / 0.0

def exp (x : Float32) : Float32 :=
  match units? x with
  | some u => single (exponential u) 0
  | none => if x < 0.0 then 0.0 else x

/-- A power of two; no other base is asked for. -/
def pow (x : Float32) : Float32 :=
  match units? x with
  | some u => single (exponential (u % one * logTwo / one)) (u / one)
  | none => if x < 0.0 then 0.0 else x

@[reducible] def elementary : Elementary := ⟨sin, exp, fun _ => pow⟩

/-! ## Bounds -/

variable {x : Float32} {q : ℚ} {u low high : Int}

theorem isSome_units (h : x.isFinite = true) : ∃ u, units? x = some u := by
  replace h : x.toModel.unpack.isFinite = true := h
  unfold units?
  cases hx : x.toModel.unpack with
  | zero s => exact ⟨_, rfl⟩
  | finite s m e hm => exact ⟨_, rfl⟩
  | infinity s => simp [hx, UnpackedFloat.isFinite] at h
  | notANumber => simp [hx, UnpackedFloat.isFinite] at h

theorem units_of_special (h : x.isFinite = false) : units? x = none := by
  replace h : x.toModel.unpack.isFinite = false := h
  unfold units?
  cases hx : x.toModel.unpack with
  | zero s => simp [hx, UnpackedFloat.isFinite] at h
  | finite s m e hm => simp [hx, UnpackedFloat.isFinite] at h
  | infinity s => rfl
  | notANumber => rfl

/-- Rounding to a whole number of units does not change the sign. -/
theorem units_nonpos (hx : value? x = some q) (hq : q ≤ 0) (hu : units? x = some u) : u ≤ 0 := by
  unfold value? at hx
  unfold units? at hu
  cases hux : x.toModel.unpack with
  | zero s =>
    rw [hux] at hu
    exact (Option.some.inj hu).ge
  | finite s m e hm =>
    rw [hux] at hx hu
    obtain rfl := Option.some.inj hx
    obtain rfl := Option.some.inj hu
    have hsigned : s.apply (m : ℤ) ≤ 0 := by
      exact_mod_cast nonpos_of_mul_nonpos_left hq (Number.two_pow_pos e)
    exact Int.ediv_nonpos_of_nonpos_of_neg (mul_nonpos_of_nonpos_of_nonneg hsigned (by positivity)) (by positivity)
  | infinity s =>
    rw [hux] at hu
    cases hu
  | notANumber =>
    rw [hux] at hu
    cases hu

theorem between_single (hl : IsSingle low) (hh : IsSingle high) (h : low * one ≤ u ∧ u ≤ high * one) :
    Between low high (single u 0) := by
  have hround : Rounds (u * 2 ^ (0 - 60 : ℤ)) (single u 0) :=
    rounds_of_rounded (Number.rounded_normalize u (0 - 60) .positive) (unpack_ofModel _)
  have hpos : (0 : ℚ) < one := by norm_num [one]
  have hvalue : (u : ℚ) * 2 ^ (0 - 60 : ℤ) = u / one := by
    rw [div_eq_mul_inv]
    norm_num [one]
  rw [hvalue] at hround
  refine hround.between hl hh ?_ ?_
  · rw [le_div_iff₀ hpos]
    exact_mod_cast h.1
  · rw [div_le_iff₀ hpos]
    exact_mod_cast h.2

theorem sine_between (u : Int) : -1 * one ≤ sine u ∧ sine u ≤ 1 * one := by
  have hone : (0 : ℤ) < one := by decide
  unfold sine
  dsimp only
  omega

theorem exponential_between (h : u ≤ 0) : 0 * one ≤ exponential u ∧ exponential u ≤ 1 * one := by
  have hone : (0 : ℤ) < one := by decide
  unfold exponential
  dsimp only
  rw [if_pos h]
  omega

theorem sin_between (h : x.isFinite = true) : -1.0 ≤ sin x ∧ sin x ≤ 1.0 := by
  obtain ⟨u, hu⟩ := isSome_units h
  have hminus : value? (-1.0) = some (-1) := by decide +kernel
  have hbounds : Between (-1 : ℤ) (1 : ℤ) (single (sine u) 0) :=
    between_single (by simpa using isSingle_one.neg) (by simpa using isSingle_one) (sine_between u)
  obtain ⟨q, hq, hl, hh⟩ := hbounds
  simp only [sin, hu]
  exact ⟨(le_iff hminus hq).mpr (by simpa using hl), (le_iff hq value_one).mpr (by simpa using hh)⟩

theorem isNaN_sin (h : x.isFinite = false) : (sin x).isNaN = true := by
  simp only [sin, units_of_special h]
  decide +kernel

theorem exp_between (h : x.isFinite = true) (hle : x ≤ 0.0) : 0.0 ≤ exp x ∧ exp x ≤ 1.0 := by
  obtain ⟨u, hu⟩ := isSome_units h
  obtain ⟨q, hq⟩ := isFinite_iff.mp h
  have hnonpos := units_nonpos hq ((le_iff hq value_zero).mp hle) hu
  have hbounds : Between (0 : ℤ) (1 : ℤ) (single (exponential u) 0) :=
    between_single (by simpa using isSingle_zero) (by simpa using isSingle_one) (exponential_between hnonpos)
  obtain ⟨p, hp, hl, hh⟩ := hbounds
  simp only [exp, hu]
  exact ⟨(le_iff value_zero hp).mpr (by simpa using hl), (le_iff hp value_one).mpr (by simpa using hh)⟩

theorem lawful : @LawfulElementary elementary :=
  @LawfulElementary.mk elementary (fun _ => sin_between) (fun _ => isNaN_sin) fun _ => exp_between

end FixedPoint

end Ostinato.Sound
