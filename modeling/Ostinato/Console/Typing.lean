import Ostinato.Text.Cluster

/-!
  Ostinato.Console.Typing: what a line says once the backspaces in it are carried out.

  A backspace takes back the cluster typed before it, if one is left. This stands for what the
  line editor of `Repl` does with input that comes from no terminal.
-/

namespace Ostinato.Console

/-- A line while it is typed: its characters, and the bytes that each of its clusters takes,
    the latest first in both. -/
structure Draft where
  characters : List Char
  sizes : List Nat
  deriving DecidableEq, Repr

namespace Draft

def empty : Draft := ⟨[], []⟩

def toText (d : Draft) : Text := d.characters.reverse

/-- The bytes of a cluster, as a line keeps them: of their number the lowest byte. -/
def sizeOf (cluster : Text) : Nat := (cluster.map Char.utf8Size).foldl (· + ·) 0 % 256

def type (d : Draft) (cluster : Text) : Draft :=
  ⟨cluster.reverse ++ d.characters, sizeOf cluster :: d.sizes⟩

/-- Characters without the first ones, so many bytes of them. -/
def dropBytes : Nat → List Char → List Char
  | _, [] => []
  | 0, cs => cs
  | n + 1, c :: cs => dropBytes (n + 1 - c.utf8Size) cs

def takeBack (d : Draft) : Draft :=
  match d.sizes with
  | [] => d
  | size :: sizes => ⟨dropBytes size d.characters, sizes⟩

/-- What is typed, or for a backspace taken back. -/
def step (d : Draft) (cluster : Text) : Draft := if cluster = ['\x08'] then d.takeBack else d.type cluster

end Draft

def typed (line : Text) : Text := ((Text.clusters line).foldl Draft.step .empty).toText

end Ostinato.Console
