/-!
  Ostinato.Sound.Signal: the numbers that sound is made of (`pitch_to_frequency` and the
  arithmetic of samples).

  `Signal` is what the synthesizer asks of them; binary32 is what it runs on. The remainder
  by a whole turn is exact: the difference of a number and a multiple of another of the same
  format can always be written in it. Sines and powers are those of the platform
  (`Elementary`): no format says what their last digit is.
-/

namespace Ostinato.Sound

class Signal (R : Type) extends Add R, Sub R, Mul R, Div R, OfScientific R, LT R, LE R where
  decLt : DecidableLT R
  decLe : DecidableLE R
  ofNat : Nat → R
  sin : R → R
  exp : R → R
  floor : R → R
  isFinite : R → Bool
  /-- What is left of the first number when multiples of the second are taken away. -/
  remainder : R → R → R
  /-- A whole turn in radians. -/
  turn : R
  /-- The frequency of a pitch in hertz, twelve semitones doubling it; pitch 69 has 440. -/
  frequency : Int → R

instance Signal.decidableLT {R : Type} [Signal R] : DecidableLT R := Signal.decLt

instance Signal.decidableLE {R : Type} [Signal R] : DecidableLE R := Signal.decLe

/-- The functions that a platform has of its own. -/
class Elementary where
  sin : Float32 → Float32
  exp : Float32 → Float32
  pow : Float32 → Float32 → Float32

instance platform : Elementary := ⟨Float32.sin, Float32.exp, Float32.pow⟩

namespace Single

open Float.Model (Format UnpackedFloat)

/-- The number nearest to a whole one. -/
def ofInt (n : Int) : Float32 := .ofModel (.ofInt n)

def floor (x : Float32) : Float32 :=
  match x.toModel.unpack with
  | .finite s m e _ => if 0 ≤ e then x else ofInt (s.apply m >>> (-e).toNat)
  | _ => x

/-- The remainder of two numbers; it has the sign of the first. -/
def remainderOf : UnpackedFloat → UnpackedFloat → UnpackedFloat
  | .finite s m e _, .finite _ k d _ =>
    let low := min e d
    .round Format.binary32 s ((m <<< (e - low).toNat) % (k <<< (d - low).toNat)) low
  | .finite s m e h, .infinity _ => .finite s m e h
  | .zero s, .finite .. => .zero s
  | .zero s, .infinity _ => .zero s
  | _, _ => .notANumber

def remainder (x y : Float32) : Float32 :=
  if 0.0 ≤ x ∧ x < y then x else .ofModel (.pack (remainderOf x.toModel.unpack y.toModel.unpack))

/-- The lowest pitch is as far below 69 as pitches go. -/
def frequency [Elementary] (pitch : Int) : Float32 :=
  440.0 * Elementary.pow 2.0 (ofInt (max (pitch - 69) (-2147483648)) / 12.0)

end Single

instance [Elementary] : Signal Float32 where
  decLt := inferInstance
  decLe := inferInstance
  ofNat n := Single.ofInt n
  sin := Elementary.sin
  exp := Elementary.exp
  floor := Single.floor
  isFinite := Float32.isFinite
  remainder := Single.remainder
  turn := 6.283185307179586
  frequency := Single.frequency

end Ostinato.Sound
