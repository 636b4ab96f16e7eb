import Ostinato.Text.Extender
import Ostinato.Text.Printable

/-!
  Ostinato.Text.Quoted: a text between quotation marks, with nothing left in it that does not
  show.

  The marks themselves, backslashes and the commonest controls stand as a letter after a
  backslash, and what else does not show by itself as its code point in braces. No mark is
  left bare, so that the text ends where the closing mark is.
-/

namespace Ostinato.Text

/-- The letter that stands for a character after a backslash. -/
def escapeLetter? : Char → Option Char
  | '\x00' => some '0'
  | '\t' => some 't'
  | '\n' => some 'n'
  | '\r' => some 'r'
  | '\\' => some '\\'
  | '"' => some '"'
  | _ => none

/-- A code point, in the fewest hexadecimal digits. -/
def codePoint (c : Char) : Text := ['\\', 'u', '\x7b'] ++ Nat.toDigits 16 c.toNat ++ ['\x7d']

/-- A character within quotation marks. -/
def escape (c : Char) : Text :=
  match escapeLetter? c with
  | some letter => ['\\', letter]
  | none => if isExtender c || !isPrintable c then codePoint c else [c]

def quote (t : Text) : Text := '"' :: t.flatMap escape ++ ['"']

end Ostinato.Text
