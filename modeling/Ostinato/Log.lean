/-!
  Ostinato.Log: what the parts of the player report about themselves.

  Every part has its own type of remarks; a remark becomes a line with a level.
-/

namespace Ostinato

inductive Level where
  | trace | debug | warn
  deriving DecidableEq, Repr

def Level.name : Level → String
  | .trace => "TRACE"
  | .debug => "DEBUG"
  | .warn => "WARN"

structure LogLine where
  level : Level
  text : String
  deriving DecidableEq, Repr

def LogLine.render (l : LogLine) : String := l.level.name ++ " " ++ l.text

end Ostinato
