import Ostinato.Console.Registry
import Ostinato.Player.Basic

/-!
  Ostinato.Console.Reply: what comes of a command line (`CommandResult`).
-/

namespace Ostinato.Console

inductive Reply where
  /-- There is nothing to say. -/
  | done
  | message (text : String)
  | exit
  /-- The line is no command; it may be a score. -/
  | notACommand
  | error (text : String)
  /-- A file is to be played again whenever it changes, or no longer. -/
  | watch (path : String)
  | unwatch (path : String)
  deriving DecidableEq, Repr

/-- A command at work on a player, with what the line says after its words. -/
abbrev Handler := Player.Surroundings → Player → Text → Player × Reply

def Registry.run (r : Registry Handler) (s : Player.Surroundings) (p : Player) (line : Text) :
    Player × Reply :=
  match r.find? line with
  | some (handler, args) => handler s p args
  | none => (p, .notACommand)

end Ostinato.Console
