import Ostinato.Score.Fault
import Ostinato.Text.Paint

/-!
  Ostinato.Score.Location: where in a source a fault stands (`locate`), and how it is shown there
  (`render_diagnostic`).

  Offsets and columns are numbers of 64 bits. An offset may lie past the end of its source; the
  column that follows the last number is 0. No string is as long as the columns go, so far out
  the drawing of a fault breaks off.
-/

namespace Ostinato.Score

/-- Line and column, both counted from one, and the line itself. -/
structure Location where
  line : Nat
  column : Nat
  lineText : Text
  deriving DecidableEq, Repr

def lineAt (t : Text) : Text := t.takeWhile fun c => c != '\n' && c != '\r'

/-- The place `offset` characters on in a text, `line` and `column` being those of its start and
    `here` the text from the start of that line. -/
def locateFrom (line column : Nat) (here : Text) : Text → Nat → Location
  | _, 0 => ⟨line, column, lineAt here⟩
  -- In a text the column stays below its length, which is far from the last number.
  | [], n => ⟨line, (column + n) % UInt64.size, lineAt here⟩
  | c :: cs, n + 1 =>
    if c = '\n' then locateFrom (line + 1) 1 cs cs n else locateFrom line (column + 1) here cs n

/-- The place of an offset; past the end it counts on from the last line. -/
def locate (source : Text) (offset : Nat) : Location := locateFrom 1 1 source source offset

/-- What a string that would be too long is refused with. -/
def tooLong : String := "capacity overflow"

/-- The characters of the longest string. -/
def longest : Nat := 9223372036854775807

/-- The columns before one; below column 0 the numbers start again at the last. -/
def Location.indent (l : Location) : Nat := (l.column + (UInt64.size - 1)) % UInt64.size

/-- A fault with its line and carets under its clause. -/
def diagnostic (p : Palette) (source : Text) (fault : Fault) : String :=
  let place := locate source fault.offset
  let width := max 1 (Text.trimEnd fault.clause).length
  let gutter := toString place.line
  let pad := fill gutter.length ""
  let carets := fill (place.column - 1) "" ++ String.ofList (List.replicate width '^')
  p.paint [.bold, .brightRed] "error:" ++ " " ++ fault.message
    ++ "\n" ++ pad ++ " --> line " ++ toString place.line ++ ", column " ++ toString place.column
    ++ "\n" ++ pad ++ " |"
    ++ "\n" ++ gutter ++ " | " ++ String.ofList place.lineText
    ++ "\n" ++ pad ++ " | " ++ p.paint [.brightRed] carets

/-- The same, broken off if the carets are to stand further out than a string can reach. -/
def diagnostic? (p : Palette) (source : Text) (fault : Fault) : Except String String :=
  if longest < (locate source fault.offset).indent then .error tooLong else .ok (diagnostic p source fault)

end Ostinato.Score
