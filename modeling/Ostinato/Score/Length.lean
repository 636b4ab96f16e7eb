import Ostinato.Score.Note
import Ostinato.Text.Decimal

/-!
  Ostinato.Score.Length: how long notes and rests are, in milliseconds (`base_duration_ms`,
  `apply_dots`, `clause_duration`, `fold_tie`).

  Four beats make a whole note, so at `tempo` beats a minute it takes 240000 / tempo
  milliseconds; a clause's number divides that, and each dot adds half. Lengths are
  computed in an arithmetic of their own (`Lengths`), of which binary64 is the one that
  scores are read with.
-/

namespace Ostinato.Score

/-- Arithmetic on lengths in milliseconds. -/
class Lengths (α : Type) where
  zero : α
  add : α → α → α
  /-- The `denominator`-th part of a whole note at `tempo` beats a minute, both not zero. -/
  fraction : (tempo denominator : Nat) → α
  dotted : α → Nat → α
  isFinite : α → Bool
  isPositive : α → Bool
  /-- The nearest whole number of milliseconds, kept within the range of clock readings. -/
  toMillis : α → Nat
  write : α → String

namespace Lengths

/-- A number multiplied with itself by repeated squaring, low bits of the exponent first. -/
def powerFrom (result a : Float) (n : Nat) : Float :=
  let result := if n % 2 = 1 then result * a else result
  if n / 2 = 0 then result else powerFrom result (a * a) (n / 2)
termination_by n
decreasing_by omega

/-- No clause has more dots that count. -/
def maxDots : Nat := 2147483647

/-- The clock reading nearest to a number of milliseconds; one that is no number reads zero. -/
def readingOf (ms : Float) : Nat :=
  match Decimal.ofBits ms.toBits with
  | .finite false b => min b.nearest maxMillis
  | .infinite false => maxMillis
  | _ => 0

theorem readingOf_le (ms : Float) : readingOf ms ≤ maxMillis := by
  unfold readingOf
  split
  · exact Nat.min_le_right ..
  · exact Nat.le_refl _
  · exact Nat.zero_le _

instance : Lengths Float where
  zero := 0.0
  add := (· + ·)
  fraction tempo denominator := 240.0 / (Float.ofNat tempo * Float.ofNat denominator) * 1000.0
  dotted ms dots := ms * powerFrom 1.0 1.5 (min dots maxDots)
  isFinite := Float.isFinite
  isPositive := (0.0 < ·)
  toMillis := readingOf
  write := Decimal.write

end Lengths

variable {α : Type} [Lengths α]

inductive LengthFault (α : Type) where
  | zeroTempo
  | zeroDenominator
  | notPositive (ms : α)

def LengthFault.message : LengthFault α → String
  | zeroTempo => "tempo is zero"
  | zeroDenominator => "length denominator is zero"
  | notPositive ms => "duration " ++ Lengths.write ms ++ " ms is not positive"

def positive (ms : α) : Except (LengthFault α) α :=
  if Lengths.isFinite ms && Lengths.isPositive ms then .ok ms else .error (.notPositive ms)

def undotted (tempo denominator : Nat) : Except (LengthFault α) α :=
  if tempo = 0 then .error .zeroTempo
  else if denominator = 0 then .error .zeroDenominator
  else positive (Lengths.fraction tempo denominator)

/-- The length of a note or rest; one without a number has the default denominator. -/
def Modifiers.length (m : Modifiers) (tempo denominator : Nat) : Except (LengthFault α) α := do
  let ms ← undotted tempo (m.number.getD denominator)
  positive (Lengths.dotted ms m.dots)

/-- A length joined to what earlier ties left over: a tied one is left over in turn (`none`),
    another takes all of it. The second component is what is left over now. -/
def joinTie (pending ms : α) (tied : Bool) : Option α × α :=
  if tied then (none, Lengths.add pending ms) else (some (Lengths.add ms pending), Lengths.zero)

end Ostinato.Score
