import Ostinato.Score.Comment
import Ostinato.Score.Fault

/-!
  Ostinato.Score.Clause: the units of the notation (`Tokenizer`, `classify`, `extract_number`).

  A clause is a command symbol and everything up to the next one. The symbol says which
  command it is (`Clause.command`), the rest holds its number, accidentals, dots and tie
  (`Modifiers`). `clauses` cuts a normalized text into its clauses: nothing after the first
  symbol is lost, and the offset of each clause counts the characters before it.
-/

namespace Ostinato.Score

/-- The letters of the natural scale. -/
inductive Letter where
  | c | d | e | f | g | a | b
  deriving DecidableEq, Repr

def Letter.ofChar? : Char → Option Letter
  | 'c' => some .c
  | 'd' => some .d
  | 'e' => some .e
  | 'f' => some .f
  | 'g' => some .g
  | 'a' => some .a
  | 'b' => some .b
  | _ => none

/-- Whether a character starts a note or a rest. -/
def startsNote (c : Char) : Bool := "abcdefgr".toList.contains c

/-- Whether a character starts a command that only changes the state. -/
def startsState (c : Char) : Bool := "<>otvl,".toList.contains c

def isSymbol (c : Char) : Bool := startsNote c || startsState c

/-! ## Numbers and modifiers -/

/-- The largest number a clause can hold; larger ones stand for it. -/
def maxNumber : Nat := 4294967295

def digit? (c : Char) : Option Nat := if c.isDigit then some (c.toNat - '0'.toNat) else none

def appendDigit (n : Option Nat) (digit : Nat) : Option Nat :=
  some (min (n.getD 0 * 10 + digit) maxNumber)

/-- All ASCII digits of a text read as one number, whatever stands between them. -/
def number? (t : Text) : Option Nat := (t.filterMap digit?).foldl appendDigit none

structure Modifiers where
  number : Option Nat
  sharp : Bool
  flat : Bool
  /-- The number of dots, in 32 bits. -/
  dots : Nat
  tie : Bool
  deriving DecidableEq, Repr

def Modifiers.ofText (t : Text) : Modifiers where
  number := number? t
  sharp := t.contains '+' || t.contains '#'
  flat := t.contains '-'
  dots := t.count '.' % UInt32.size
  tie := t.contains '&'

/-! ## Clauses and commands -/

structure Clause where
  text : Text
  offset : Nat
  deriving DecidableEq, Repr

inductive Command where
  | note (letter : Letter)
  | rest
  | octaveUp
  | octaveDown
  | octave (n : Option Nat)
  | tempo (n : Option Nat)
  | length (n : Option Nat)
  | volume (n : Option Nat)
  | nextTrack
  deriving DecidableEq, Repr

namespace Clause

def symbol? (c : Clause) : Option Char := c.text.head?

def body (c : Clause) : Text := c.text.tail

def modifiers (c : Clause) : Modifiers := .ofText c.body

/-- A clause cut at a symbol. -/
def cut (text : Text) (offset : Nat) : Except Fault Clause :=
  match text.head? with
  | some c => if isSymbol c then .ok ⟨text, offset⟩ else .error (.malformedClause text offset)
  | none => .error (.malformedClause text offset)

def command (c : Clause) : Except Fault Command :=
  let n := number? c.body
  match c.symbol? with
  | some '>' => .ok .octaveUp
  | some '<' => .ok .octaveDown
  | some 'r' => .ok .rest
  | some 'o' => .ok (.octave n)
  | some 't' => .ok (.tempo n)
  | some 'l' => .ok (.length n)
  | some 'v' => .ok (.volume n)
  | some ',' => .ok .nextTrack
  | some s => match Letter.ofChar? s with
    | some letter => .ok (.note letter)
    | none => .error (.unknownClause c.text c.offset)
  | none => .error (.unknownClause c.text c.offset)

def render (c : Clause) : String := String.ofList c.text ++ "@" ++ toString c.offset

end Clause

/-! ## Cutting a text -/

/-- Whether a text without symbols says nothing: blanks and what is left of comments. -/
def isSilent (t : Text) : Bool := t.all fun c => Text.isBlank c || c == filler

/-- The clauses of a text that starts at `offset` with a symbol, or is empty. -/
def clausesFrom (offset : Nat) (t : Text) : List (Except Fault Clause) :=
  match t with
  | [] => []
  | c :: cs =>
    let rest := cs.takeWhile (!isSymbol ·)
    Clause.cut (c :: rest) offset :: clausesFrom (offset + 1 + rest.length) (cs.dropWhile (!isSymbol ·))
termination_by t.length
decreasing_by exact Nat.lt_succ_of_le (List.dropWhile_sublist _).length_le

/-- The clauses of a normalized text. What stands before the first symbol is dropped; a text
    without symbols that says something is one clause. -/
def clauses (t : Text) : List (Except Fault Clause) :=
  let before := t.takeWhile (!isSymbol ·)
  match t.dropWhile (!isSymbol ·) with
  | [] => if isSilent t then [] else [.ok ⟨t, 0⟩]
  | rest => clausesFrom before.length rest

end Ostinato.Score
