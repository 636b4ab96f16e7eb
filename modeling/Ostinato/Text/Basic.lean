/-!
  Ostinato.Text.Basic: text as a list of Unicode scalar values, so that offsets, columns
  and widths count characters.

  Blank characters are those with the Unicode property White_Space (`isBlank`), of which
  `Char.isWhitespace` knows only the first few. Letters are folded within ASCII only, so
  folding never changes a length.
-/

namespace Ostinato

/-- A text, one entry per Unicode scalar value. -/
abbrev Text := List Char

namespace Text

/-- Whether a character is in one of some closed ranges of code points. -/
def inRanges (ranges : List (Nat × Nat)) (c : Char) : Bool :=
  ranges.any fun r => r.1 ≤ c.toNat && c.toNat ≤ r.2

/-- The code points with the property White_Space, as closed ranges. -/
def blankRanges : List (Nat × Nat) :=
  [(0x09, 0x0D), (0x20, 0x20), (0x85, 0x85), (0xA0, 0xA0), (0x1680, 0x1680), (0x2000, 0x200A),
   (0x2028, 0x2029), (0x202F, 0x202F), (0x205F, 0x205F), (0x3000, 0x3000)]

def isBlank (c : Char) : Bool := inRanges blankRanges c

/-- No letter is a blank. -/
theorem isBlank_of_isAlpha {c : Char} (h : c.isAlpha = true) : isBlank c = false := by
  have hval : 65 ≤ c.toNat ∧ c.toNat ≤ 122 := by
    rcases (Bool.or_eq_true_iff ..).mp h with hupper | hlower
    · obtain ⟨hlow, hhigh⟩ := of_decide_eq_true hupper
      have hA : 65 ≤ c.toNat := UInt32.le_iff_toNat_le.mp hlow
      have hZ : c.toNat ≤ 90 := UInt32.le_iff_toNat_le.mp hhigh
      omega
    · obtain ⟨hlow, hhigh⟩ := (Bool.and_eq_true_iff ..).mp hlower
      have ha : 97 ≤ c.toNat := UInt32.le_iff_toNat_le.mp (of_decide_eq_true hlow)
      have hz : c.toNat ≤ 122 := UInt32.le_iff_toNat_le.mp (of_decide_eq_true hhigh)
      omega
  refine Bool.eq_false_iff.mpr fun hblank => ?_
  simp only [isBlank, inRanges, blankRanges, List.any_cons, List.any_nil, Bool.or_eq_true,
    Bool.and_eq_true, decide_eq_true_eq, Bool.or_false] at hblank
  omega

def trimStart (t : Text) : Text := t.dropWhile isBlank

def trimEnd (t : Text) : Text := (t.reverse.dropWhile isBlank).reverse

/-- A text without the blanks around it. -/
def trim (t : Text) : Text := trimEnd (trimStart t)

def startsWith (t start : Text) : Bool := start.isPrefixOf t

/-- The letter that a comparison of ASCII words takes a character for: capitals are folded, and
    of the characters beyond ASCII only the Kelvin sign is a form of an ASCII letter. -/
def wordLetter (c : Char) : Char := if c = '\u212A' then 'k' else c.toLower

/-- Written numbers of at most `max`: digits, after an optional plus sign. -/
def bounded? (max : Nat) (t : Text) : Option Nat :=
  let digits := match t with
    | '+' :: rest => rest
    | _ => t
  if digits.isEmpty || !digits.all Char.isDigit then none
  else
    let n := Nat.ofDigitChars 10 digits 0
    if n ≤ max then some n else none

end Text

/-- The number of copies of a character that fill a text up to a width. -/
def fill (width : Nat) (s : String) : String := String.ofList (List.replicate (width - s.length) ' ')

def flushRight (width : Nat) (s : String) : String := fill width s ++ s

def flushLeft (width : Nat) (s : String) : String := s ++ fill width s

end Ostinato
