import Ostinato.Text.Basic

/-!
  Ostinato.Score.Fault: why a score cannot be read (`MmlError`). Every fault carries the clause at fault
  and its offset, so that it can be shown in the source.
-/

namespace Ostinato.Score

inductive Fault where
  /-- No command starts with the clause's first character. -/
  | unknownClause (clause : Text) (offset : Nat)
  /-- A clause was cut at a character that starts no command. -/
  | malformedClause (clause : Text) (offset : Nat)
  | invalidLength (clause : Text) (offset : Nat) (reason : String)
  deriving DecidableEq, Repr

namespace Fault

def clause : Fault → Text
  | unknownClause c _ => c
  | malformedClause c _ => c
  | invalidLength c _ _ => c

def offset : Fault → Nat
  | unknownClause _ n => n
  | malformedClause _ n => n
  | invalidLength _ n _ => n

private def quoted (clause : Text) (offset : Nat) : String :=
  "clause '" ++ String.ofList clause ++ "' at character " ++ toString offset

def message : Fault → String
  | unknownClause c n => "unknown " ++ quoted c n
  | malformedClause c n => "malformed " ++ quoted c n
  | invalidLength c n reason => "invalid length in " ++ quoted c n ++ ": " ++ reason

end Fault

end Ostinato.Score
