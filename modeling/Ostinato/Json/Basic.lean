import Ostinato.Text.Basic

/-!
  Ostinato.Json.Basic: JSON values and how they are written.

  Whole numbers of 64 bits are kept apart from all other numbers, because a field that holds
  a count takes the former only. `compact` writes a value without blanks, `pretty` with two
  blanks per level. The program has no writer of JSON of its own; this stands for the library
  that it calls.
-/

namespace Ostinato

inductive Json where
  | null
  | bool (b : Bool)
  | int (n : Int)
  /-- Any other number, `digits · 10 ^ exponent`: one with a point or an exponent, a negative
  zero, or a whole number beyond 64 bits. -/
  | real (negative : Bool) (digits : Nat) (exponent : Int)
  | str (s : String)
  | arr (items : List Json)
  | obj (members : List (String × Json))
  deriving Inhabited, BEq, Repr

namespace Json

/-! ## Reading values -/

/-- The values of an object's members of a name. -/
def named (name : String) : Json → List Json
  | obj members => (members.filter (·.1 == name)).map (·.2)
  | _ => []

/-- A member of an object, where there is one and no other has its name. -/
def member? (name : String) (j : Json) : Option Json :=
  match j.named name with
  | [v] => some v
  | _ => none

def str? : Json → Option String
  | str s => some s
  | _ => none

def bool? : Json → Option Bool
  | bool b => some b
  | _ => none

def int? : Json → Option Int
  | int n => some n
  | _ => none

def items? : Json → Option (List Json)
  | arr items => some items
  | _ => none

/-! ## Writing values -/

def hexDigit (n : Nat) : Char :=
  if n < 10 then Char.ofNat ('0'.toNat + n) else Char.ofNat ('a'.toNat + n - 10)

/-- A character inside a string: quotes, backslashes and control characters are escaped. -/
def escape (c : Char) : Text :=
  if c = '"' then ['\\', '"']
  else if c = '\\' then ['\\', '\\']
  else if c = '\x08' then ['\\', 'b']
  else if c = '\t' then ['\\', 't']
  else if c = '\n' then ['\\', 'n']
  else if c = '\x0c' then ['\\', 'f']
  else if c = '\r' then ['\\', 'r']
  else if c.toNat < 32 then ['\\', 'u', '0', '0', hexDigit (c.toNat / 16), hexDigit (c.toNat % 16)]
  else [c]

def quote (s : String) : Text := '"' :: (s.toList.flatMap escape ++ ['"'])

def writeNat (n : Nat) : Text := Nat.toDigits 10 n

def writeInt (n : Int) : Text := if n < 0 then '-' :: writeNat n.natAbs else writeNat n.natAbs

def writeReal (negative : Bool) (digits : Nat) (exponent : Int) : Text :=
  (if negative then ['-'] else []) ++ writeNat digits ++ 'e' :: writeInt exponent

mutual

def compact : Json → Text
  | null => "null".toList
  | bool b => if b then "true".toList else "false".toList
  | int n => writeInt n
  | real negative digits exponent => writeReal negative digits exponent
  | str s => quote s
  | arr items => '[' :: (compactItems items ++ [']'])
  | obj members => '\x7b' :: (compactMembers members ++ ['\x7d'])

def compactItems : List Json → Text
  | [] => []
  | [x] => compact x
  | x :: y :: rest => compact x ++ ',' :: compactItems (y :: rest)

def compactMembers : List (String × Json) → Text
  | [] => []
  | [(k, v)] => quote k ++ ':' :: compact v
  | (k, v) :: y :: rest => quote k ++ ':' :: (compact v ++ ',' :: compactMembers (y :: rest))

end

/-- A line end and the blanks of a level. -/
def newLine (level : Nat) : Text := '\n' :: List.replicate (2 * level) ' '

mutual

/-- A value whose lines after the first stand at `level`. -/
def pretty (level : Nat) : Json → Text
  | arr [] => ['[', ']']
  | arr (x :: rest) => '[' :: (prettyItems level (x :: rest) ++ newLine level ++ [']'])
  | obj [] => ['\x7b', '\x7d']
  | obj (m :: rest) => '\x7b' :: (prettyMembers level (m :: rest) ++ newLine level ++ ['\x7d'])
  | null => compact null
  | bool b => compact (bool b)
  | int n => compact (int n)
  | real negative digits exponent => compact (real negative digits exponent)
  | str s => compact (str s)

def prettyItems (level : Nat) : List Json → Text
  | [] => []
  | [x] => newLine (level + 1) ++ pretty (level + 1) x
  | x :: y :: rest => newLine (level + 1) ++ pretty (level + 1) x ++ ',' :: prettyItems level (y :: rest)

def prettyMembers (level : Nat) : List (String × Json) → Text
  | [] => []
  | [(k, v)] => newLine (level + 1) ++ quote k ++ ':' :: ' ' :: pretty (level + 1) v
  | (k, v) :: y :: rest =>
    newLine (level + 1) ++ quote k ++ ':' :: ' '
      :: (pretty (level + 1) v ++ ',' :: prettyMembers level (y :: rest))

end

end Json

end Ostinato
