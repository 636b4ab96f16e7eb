import Ostinato.Text.Basic

/-!
  Ostinato.Console.Registry: commands by the words that a line starts with (`CommandRegistry`).

  The commands stand longest first, and in the order of their registration among those of
  one length; a line is looked up from the front. So the longest command that a line starts
  with is found, whenever it was registered.
-/

namespace Ostinato.Console

/-- The words of a command, and what the command is. -/
structure Command (η : Type) where
  words : Text
  handler : η

structure Registry (η : Type) where
  commands : List (Command η)

namespace Registry

variable {η : Type}

def empty : Registry η := ⟨[]⟩

/-- The length by which commands are ordered, in bytes of UTF-8. -/
def sizeOf (words : Text) : Nat := (String.ofList words).utf8ByteSize

/-- Puts a command before the first one that is shorter. -/
def insert (c : Command η) : List (Command η) → List (Command η)
  | [] => [c]
  | x :: xs => if sizeOf x.words < sizeOf c.words then c :: x :: xs else x :: insert c xs

def register (r : Registry η) (words : Text) (handler : η) : Registry η :=
  ⟨insert ⟨words, handler⟩ r.commands⟩

/-- Whether a line is some words, or starts with them and a space. -/
def accepts (words line : Text) : Bool := line == words || Text.startsWith line (words ++ [' '])

/-- The command of a line and what the line says after its words, without the blanks around. -/
def find? (r : Registry η) (line : Text) : Option (η × Text) :=
  (r.commands.find? fun c => accepts c.words line).map fun c =>
    (c.handler, Text.trim (line.drop c.words.length))

/-- The words of every command, in the order in which lines are looked up. -/
def words (r : Registry η) : List Text := r.commands.map (·.words)

end Registry

end Ostinato.Console
