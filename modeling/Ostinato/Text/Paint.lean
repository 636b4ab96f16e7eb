import Ostinato.Text.Basic

/-!
  Ostinato.Text.Paint: text with terminal styles.

  A painted text is its style's codes, the text, and the reset code. Where the text already
  holds a reset, from something painted inside it, the outer style is opened again after it.
  Without colours (`Palette.plain`) every text stays as it is. The program only says which
  styles a text has; `paint` stands for the styling library that writes the codes.
-/

namespace Ostinato

/-- Styles and colours by their codes. -/
inductive Style where
  | bold | dimmed
  | red | green | yellow | cyan
  | brightRed | brightGreen | brightYellow | brightBlue | brightMagenta | brightCyan

def Style.code : Style → String
  | .bold => "1"
  | .dimmed => "2"
  | .red => "31"
  | .green => "32"
  | .yellow => "33"
  | .cyan => "36"
  | .brightRed => "91"
  | .brightGreen => "92"
  | .brightYellow => "93"
  | .brightBlue => "94"
  | .brightMagenta => "95"
  | .brightCyan => "96"

/-- Whether output shows colours. -/
inductive Palette where
  | plain
  | colored
  deriving DecidableEq, Repr

namespace Paint

def escapeCode (codes : String) : Text := '\x1b' :: '[' :: (codes.toList ++ ['m'])

def reset : Text := escapeCode "0"

/-- A text with `style` written again after every reset in it. -/
def reopen (style : Text) (text : Text) : Text :=
  match text with
  | [] => []
  | c :: cs =>
    if Text.startsWith (c :: cs) reset then reset ++ style ++ reopen style (cs.drop 3)
    else c :: reopen style cs
termination_by text.length
decreasing_by
  · simp only [List.length_drop, List.length_cons]; omega
  · simp

end Paint

/-- A text in some styles; those that are no colours are given first. -/
def Palette.paint (p : Palette) (styles : List Style) (s : String) : String :=
  match p with
  | .plain => s
  | .colored =>
    let opening := Paint.escapeCode (String.intercalate ";" (styles.map Style.code))
    String.ofList (opening ++ Paint.reopen opening s.toList ++ Paint.reset)

end Ostinato
