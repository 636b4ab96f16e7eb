import Ostinato.Score.Note
import Ostinato.Text.Paint

/-!
  Ostinato.Playback.Event: what a playback tells its listeners (`PlaybackEvent`, `format_event`).
-/

namespace Ostinato.Playback

open Score

inductive Event where
  | noteOn (note : Note)
  | noteOff (note : Note)
  /-- Every note of the session has sounded. -/
  | finished
  deriving DecidableEq, Repr

namespace Event

def note? : Event → Option Note
  | noteOn n => some n
  | noteOff n => some n
  | finished => none

def kind : Event → String
  | noteOn _ => "note-on"
  | noteOff _ => "note-off"
  | finished => "end"

def render (e : Event) : String :=
  match e.note? with
  | some n => e.kind ++ " " ++ n.render
  | none => e.kind

private def clauseColumn (p : Palette) (n : Note) : String :=
  p.paint [.cyan] (flushLeft 6 (String.ofList (Text.trim n.clause)))

def line (p : Palette) : Event → String
  | noteOn n =>
    flushRight 6 (toString n.start) ++ "ms  " ++ p.paint [.brightGreen] "on " ++ "  " ++ clauseColumn p n
      ++ " track " ++ toString n.track ++ " pitch " ++ flushRight 3 (toString n.pitch)
      ++ " vol " ++ flushRight 3 (toString n.volume)
  | noteOff n =>
    flushRight 6 (toString n.stop) ++ "ms  " ++ p.paint [.dimmed] "off" ++ "  " ++ clauseColumn p n
      ++ " track " ++ toString n.track
  | finished => p.paint [.bold, .brightBlue] "■ end"

end Event

end Ostinato.Playback
