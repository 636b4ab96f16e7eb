/-!
  Ostinato.Text.Decimal: binary64 numbers written in decimal.

  A finite number is `mantissa · 2 ^ exponent` (`Binary`). `shortest` finds the fewest digits
  that read back as the same number, and of those the nearest to it; `positional` writes them
  without an exponent. `places` rounds to a fixed number of places, a half to the even
  neighbour; `nearest` rounds to a whole number, a half upwards.
-/

namespace Ostinato.Decimal

/-- The magnitude of a finite number, `mantissa · 2 ^ exponent`; `isLowest` marks the first
    number of a binade, whose lower neighbour is nearer than its upper one. -/
structure Binary where
  mantissa : Nat
  exponent : Int
  isLowest : Bool

inductive Number where
  | nan
  | infinite (negative : Bool)
  | finite (negative : Bool) (magnitude : Binary)

/-- Sign bit, eleven bits of exponent, fifty-two of fraction. -/
def ofBits (bits : UInt64) : Number :=
  let n : Nat := bits.toNat
  let negative := n >>> 63 == 1
  let e : Nat := (n >>> 52) % 2048
  let f : Nat := n % (1 <<< 52)
  if e = 2047 then if f = 0 then .infinite negative else .nan
  else if e = 0 then .finite negative ⟨f, -1074, false⟩
  else .finite negative ⟨(1 <<< 52) + f, (e : Int) - 1075, f == 0 && e != 1⟩

/-- The nearest whole number; a half is rounded up. -/
def Binary.nearest (b : Binary) : Nat :=
  let half := 1 <<< (-b.exponent).toNat
  (2 * (b.mantissa <<< b.exponent.toNat) + half) / (2 * half)

/-- The interval of the reals that round to a number, on a common denominator, with the number
    itself; its ends belong to it when the mantissa is even. -/
structure Interval where
  low : Nat
  value : Nat
  high : Nat
  den : Nat
  closed : Bool

def Binary.interval (b : Binary) : Interval :=
  let v := 4 * b.mantissa
  let low := if b.isLowest then v - 1 else v - 2
  let e := b.exponent - 2
  let s := e.toNat
  ⟨low <<< s, v <<< s, (v + 2) <<< s, 1 <<< (-e).toNat, b.mantissa % 2 == 0⟩

def tenTo (n : Nat) : Nat := Nat.pow 10 n

/-- Whether `digits · 10 ^ e` lies in the interval. -/
def Interval.holds (i : Interval) (digits : Nat) (e : Int) : Bool :=
  let x := digits * tenTo e.toNat * i.den
  let s := tenTo (-e).toNat
  if i.closed then i.low * s ≤ x && x ≤ i.high * s else i.low * s < x && x < i.high * s

/-- The number of digits before the point of `num / den`, counted down from `guess`. -/
def magnitude (num den : Nat) : Nat → Int → Int
  | 0, guess => guess
  | fuel + 1, guess =>
    if num * tenTo (1 - guess).toNat < den * tenTo (guess - 1).toNat then magnitude num den fuel (guess - 1)
    else guess

/-- The nearer of the number's two neighbours on the grid of `10 ^ e` that lie in the interval;
    from the middle, the upper one. -/
def Interval.onGrid (i : Interval) (e : Int) : Option Nat :=
  let num := i.value * tenTo (-e).toNat
  let den := i.den * tenTo e.toNat
  let below := num / den
  match i.holds below e, i.holds (below + 1) e with
  | true, true => some (if 2 * (num % den) < den then below else below + 1)
  | true, false => some below
  | false, true => some (below + 1)
  | false, false => none

/-- The first grid with a hit, from coarse to fine. -/
def Interval.search (i : Interval) : Nat → Int → Nat × Int
  | 0, e => (i.value * tenTo (-e).toNat / (i.den * tenTo e.toNat), e)
  | fuel + 1, e => match i.onGrid e with
    | some digits => (digits, e)
    | none => i.search fuel (e - 1)

/-- The fewest digits that read back, as `digits · 10 ^ e`. -/
def Binary.shortest (b : Binary) : Nat × Int :=
  let i := b.interval
  i.search 18 (magnitude i.value i.den 700 330)

def digitText (n : Nat) : String := String.ofList (Nat.toDigits 10 n)

def zeros (n : Nat) : String := String.ofList (List.replicate n '0')

/-- `digits · 10 ^ e` without an exponent and without a point after a whole number. -/
def positional (digits : Nat) (e : Int) : String :=
  let d := Nat.toDigits 10 digits
  if 0 ≤ e then String.ofList d ++ zeros e.toNat
  else
    let after := (-e).toNat
    if d.length ≤ after then "0." ++ zeros (after - d.length) ++ String.ofList d
    else String.ofList (d.take (d.length - after)) ++ "." ++ String.ofList (d.drop (d.length - after))

/-- A number as messages show it: the fewest digits that read back, never an exponent. -/
def write (x : Float) : String :=
  match ofBits x.toBits with
  | .nan => "NaN"
  | .infinite negative => if negative then "-inf" else "inf"
  | .finite negative b =>
    let digits := if b.mantissa = 0 then "0" else
      let (d, e) := b.shortest
      positional d e
    if negative then "-" ++ digits else digits

/-- The whole number nearest to `num / den`; a half goes to the even one. -/
def roundDiv (num den : Nat) : Nat :=
  let q := num / den
  let r := num % den
  if 2 * r < den then q else if den < 2 * r then q + 1 else if q % 2 = 0 then q else q + 1

/-- A non-negative finite number with one place after the point. -/
def onePlace (x : Float) : String :=
  match ofBits x.toBits with
  | .finite _ b =>
    let tenths := roundDiv ((b.mantissa * 10) <<< b.exponent.toNat) (1 <<< (-b.exponent).toNat)
    digitText (tenths / 10) ++ "." ++ digitText (tenths % 10)
  | _ => write x

end Ostinato.Decimal
