import Ostinato.Text.Basic

/-!
  Ostinato.Score.Comment: the text that the rest of the notation reads (`strip_comments`,
  `normalize`).

  A number sign opens a comment at the start of the text and after a blank, so that the sign
  of `c#` stays a sharp; a line end closes it. Comments are written over with a filler, so
  every character keeps its offset (`length_normalize`), and ASCII capitals are folded.
-/

namespace Ostinato.Score

/-- Written over every character of a comment; no part of the notation reads it. -/
def filler : Char := '@'

def endsLine (c : Char) : Bool := c == '\n' || c == '\r'

def opensComment (before : Option Char) (c : Char) : Bool := c == '#' && before.all Text.isBlank

/-- The text after a character, `inside` a comment or not, with its comments written over. -/
def blankFrom (inside : Bool) (before : Option Char) : Text → Text
  | [] => []
  | c :: cs =>
    if endsLine c then c :: blankFrom false (some c) cs
    else if inside || opensComment before c then filler :: blankFrom true (some c) cs
    else c :: blankFrom false (some c) cs

def blankComments (t : Text) : Text := blankFrom false none t

def normalize (t : Text) : Text := (blankComments t).map Char.toLower

theorem length_blankFrom (inside : Bool) (before : Option Char) (t : Text) :
    (blankFrom inside before t).length = t.length := by
  induction t generalizing inside before with
  | nil => rfl
  | cons c cs ih =>
    unfold blankFrom
    split
    · simp [ih]
    · split <;> simp [ih]

theorem length_normalize (t : Text) : (normalize t).length = t.length := by
  simp [normalize, blankComments, length_blankFrom]

end Ostinato.Score
