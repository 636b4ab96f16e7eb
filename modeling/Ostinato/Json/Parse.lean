import Ostinato.Json.Basic

/-!
  Ostinato.Json.Parse: reading JSON text.

  Each reader takes what it understands off the front of a text and gives back the rest.
  Every value takes at least one character, so the length of the text bounds the depth that
  is followed. What was read is then held to the limits that such readers have: 127 levels of
  nesting, and no number that rounds to infinity. Like the writer it stands for the library that
  the program calls, and nothing that is proved of the program rests on it but through `Codec`.
-/

namespace Ostinato.Json

def isSpace (c : Char) : Bool := c == ' ' || c == '\t' || c == '\n' || c == '\r'

def skip (t : Text) : Text := t.dropWhile isSpace

/-! ## Strings -/

def hexValue? (c : Char) : Option Nat :=
  if c.isDigit then some (c.toNat - '0'.toNat)
  else if 'a' ≤ c ∧ c ≤ 'f' then some (c.toNat - 'a'.toNat + 10)
  else if 'A' ≤ c ∧ c ≤ 'F' then some (c.toNat - 'A'.toNat + 10)
  else none

def unit? (a b c d : Char) : Option Nat := do
  return ((← hexValue? a) * 4096 + (← hexValue? b) * 256 + (← hexValue? c) * 16 + (← hexValue? d))

def simpleEscape? : Char → Option Char
  | '"' => some '"'
  | '\\' => some '\\'
  | '/' => some '/'
  | 'b' => some '\x08'
  | 'f' => some '\x0c'
  | 'n' => some '\n'
  | 'r' => some '\r'
  | 't' => some '\t'
  | _ => none

/-- The character of a code unit, or of a leading and a trailing one. -/
def ofUnit? (u : Nat) : Option Char :=
  if 0xD800 ≤ u ∧ u < 0xE000 then none else some (Char.ofNat u)

def ofUnits? (u v : Nat) : Option Char :=
  if 0xD800 ≤ u ∧ u < 0xDC00 ∧ 0xDC00 ≤ v ∧ v < 0xE000 then
    some (Char.ofNat (0x10000 + (u - 0xD800) * 1024 + (v - 0xDC00)))
  else none

def consTo (c : Char) : Option (Text × Text) → Option (Text × Text)
  | some (s, rest) => some (c :: s, rest)
  | none => none

/-- The rest of a string after its opening quote. -/
def readString : Text → Option (Text × Text)
  | [] => none
  | '"' :: rest => some ([], rest)
  | '\\' :: 'u' :: a :: b :: c :: d :: rest =>
    match (unit? a b c d).bind ofUnit? with
    | some ch => consTo ch (readString rest)
    | none => match rest with
      | '\\' :: 'u' :: e :: f :: g :: h :: rest =>
        match (do ofUnits? (← unit? a b c d) (← unit? e f g h)) with
        | some ch => consTo ch (readString rest)
        | none => none
      | _ => none
  | '\\' :: c :: rest => match simpleEscape? c with
    | some ch => consTo ch (readString rest)
    | none => none
  | c :: rest => if c.toNat < 32 then none else consTo c (readString rest)

/-! ## Numbers -/

def digitsOf (t : Text) : Text × Text := (t.takeWhile Char.isDigit, t.dropWhile Char.isDigit)

/-- The whole part: no digit may follow a leading zero. -/
def wholePart? (t : Text) : Option (Text × Text) :=
  match digitsOf t with
  | ([], _) => none
  | ('0' :: _ :: _, _) => none
  | (digits, rest) => some (digits, rest)

/-- The digits after a point, if there is one. -/
def fraction? : Text → Option (Option Text × Text)
  | '.' :: rest => match digitsOf rest with
    | ([], _) => none
    | (digits, rest) => some (some digits, rest)
  | rest => some (none, rest)

def exponentDigits? (negative : Bool) (t : Text) : Option (Option Int × Text) :=
  match digitsOf t with
  | ([], _) => none
  | (digits, rest) =>
    let n : Int := Nat.ofDigitChars 10 digits 0
    some (some (if negative then -n else n), rest)

def exponent? : Text → Option (Option Int × Text)
  | 'e' :: '-' :: rest => exponentDigits? true rest
  | 'E' :: '-' :: rest => exponentDigits? true rest
  | 'e' :: '+' :: rest => exponentDigits? false rest
  | 'E' :: '+' :: rest => exponentDigits? false rest
  | 'e' :: rest => exponentDigits? false rest
  | 'E' :: rest => exponentDigits? false rest
  | rest => some (none, rest)

/-- Whether a whole number of this size fits 64 bits, with a sign if it has one. -/
def isWhole (negative : Bool) (n : Nat) : Bool :=
  if negative then 0 < n && n ≤ 9223372036854775808 else n < 18446744073709551616

/-- The value of a number's parts. -/
def number (negative : Bool) (whole : Text) (fraction : Option Text) (exponent : Option Int) : Json :=
  match fraction, exponent with
  | none, none =>
    let n := Nat.ofDigitChars 10 whole 0
    if isWhole negative n then int (if negative then -n else n) else real negative n 0
  | _, _ =>
    let after := fraction.getD []
    real negative (Nat.ofDigitChars 10 (whole ++ after) 0) (exponent.getD 0 - after.length)

def readNumber (t : Text) : Option (Json × Text) := do
  let (negative, t) := match t with
    | '-' :: rest => (true, rest)
    | _ => (false, t)
  let (whole, t) ← wholePart? t
  let (fraction, t) ← fraction? t
  let (exponent, t) ← exponent? t
  return (number negative whole fraction exponent, t)

/-! ## Values -/

mutual

def readValue : Nat → Text → Option (Json × Text)
  | 0, _ => none
  | depth + 1, t => match skip t with
    | 'n' :: 'u' :: 'l' :: 'l' :: rest => some (null, rest)
    | 't' :: 'r' :: 'u' :: 'e' :: rest => some (bool true, rest)
    | 'f' :: 'a' :: 'l' :: 's' :: 'e' :: rest => some (bool false, rest)
    | '"' :: rest => (readString rest).map fun r => (str (String.ofList r.1), r.2)
    | '[' :: rest => match skip rest with
      | ']' :: rest => some (arr [], rest)
      | rest => (readItems depth rest).map fun r => (arr r.1, r.2)
    | '\x7b' :: rest => match skip rest with
      | '\x7d' :: rest => some (obj [], rest)
      | rest => (readMembers depth rest).map fun r => (obj r.1, r.2)
    | t => readNumber t

/-- Items up to the closing bracket, at least one. -/
def readItems : Nat → Text → Option (List Json × Text)
  | 0, _ => none
  | depth + 1, t => match readValue depth t with
    | none => none
    | some (x, rest) => match skip rest with
      | ']' :: rest => some ([x], rest)
      | ',' :: rest => (readItems depth rest).map fun r => (x :: r.1, r.2)
      | _ => none

/-- Members up to the closing brace, at least one. -/
def readMembers : Nat → Text → Option (List (String × Json) × Text)
  | 0, _ => none
  | depth + 1, t => match skip t with
    | '"' :: rest => match readString rest with
      | none => none
      | some (k, rest) => match skip rest with
        | ':' :: rest => match readValue depth rest with
          | none => none
          | some (v, rest) => match skip rest with
            | '\x7d' :: rest => some ([(String.ofList k, v)], rest)
            | ',' :: rest => (readMembers depth rest).map fun r => ((String.ofList k, v) :: r.1, r.2)
            | _ => none
        | _ => none
    | _ => none

end

/-! ## Limits -/

/-- Half of the last place beyond the largest number of 64 bits: from here on it rounds to infinity. -/
def infinite : Nat := 1 <<< 1024 - 1 <<< 970

/-- Whether `digits · 10 ^ exponent` rounds to a finite number. The power is only taken where the
number of places does not decide. -/
def isFinite (digits : Nat) (exponent : Int) : Bool :=
  let places : Int := (writeNat digits).length + exponent
  if digits = 0 ∨ places ≤ 308 then true
  else if 309 < places then false
  else digits * Nat.pow 10 exponent.toNat < infinite * Nat.pow 10 (-exponent).toNat

def maxNesting : Nat := 127

mutual

/-- Finite numbers only, and no more levels than these. -/
def isWithin (levels : Nat) : Json → Bool
  | real _ digits exponent => isFinite digits exponent
  | arr items => 0 < levels && areWithin (levels - 1) items
  | obj members => 0 < levels && membersWithin (levels - 1) members
  | _ => true

def areWithin (levels : Nat) : List Json → Bool
  | [] => true
  | x :: rest => isWithin levels x && areWithin levels rest

def membersWithin (levels : Nat) : List (String × Json) → Bool
  | [] => true
  | (_, v) :: rest => isWithin levels v && membersWithin levels rest

end

def parse (t : Text) : Option Json :=
  match readValue (2 * t.length + 2) t with
  | some (j, rest) => if (skip rest).isEmpty && j.isWithin maxNesting then some j else none
  | none => none

end Ostinato.Json
