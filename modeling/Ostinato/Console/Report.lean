import Ostinato.Player.Basic

/-!
  Ostinato.Console.Report: what the commands show of scores, ports and players (`cmd_notes`,
  `cmd_midi_devices`, `cmd_midi_status`, `cmd_status`).
-/

namespace Ostinato.Console.Report

open Score Playback Player

variable (p : Palette)

def seconds (millis : Nat) : String := Decimal.onePlace (Float.ofNat millis / 1000.0) ++ "s"

def playback (s : Summary) : String :=
  toString s.notes ++ " notes, " ++ toString s.tracks ++ " tracks, " ++ seconds s.length

/-! ## Notes -/

/-- A row of the table of notes; the clause fills its column by itself. -/
def row (foundAt clause track pitch volume start length : String) : String :=
  flushRight 5 foundAt ++ "  " ++ clause ++ " " ++ flushRight 5 track ++ " " ++ flushRight 5 pitch ++ " "
    ++ flushRight 4 volume ++ " " ++ flushRight 7 start ++ " " ++ flushRight 7 length

def heading : String := row "at" (flushLeft 8 "clause") "track" "pitch" "vol" "start" "length"

def noteRow (n : Note) : String :=
  row (toString n.foundAt) (p.paint [.cyan] (flushLeft 8 (String.ofList (Text.trim n.clause))))
    (toString n.track) (toString n.pitch) (toString n.volume) (toString n.start) (toString n.duration)

def noteTable (notes : List Note) : String :=
  p.paint [.bold] heading ++ "\n" ++ String.join (notes.map fun n => noteRow p n ++ "\n")
    ++ toString notes.length ++ " notes"

/-! ## MIDI -/

/-- Ports, counted from one. -/
def portList (ports : List String) : String :=
  let lines := ports.zipIdx.map fun x => "  " ++ toString (x.2 + 1) ++ ". " ++ p.paint [.cyan] x.1 ++ "\n"
  p.paint [.bold] "🎹 Available MIDI Output Ports:" ++ "\n" ++ String.join lines
    ++ "\n" ++ p.paint [.dimmed] "Use" ++ " " ++ p.paint [.green] "midi connect <port name>"

def connection : Option String → String
  | some port =>
    "  Status: " ++ p.paint [.bold, .green] "Connected" ++ "\n  Port: " ++ p.paint [.cyan] port ++ "\n"
  | none => "  Status: " ++ p.paint [.yellow] "Not connected" ++ "\n"

def midiStatus (o : Midi.Output) : String :=
  p.paint [.bold] "🎹 MIDI Status:" ++ "\n" ++ connection p o.port
    ++ "  Channel mode: " ++ o.mode.render ++ "\n  Sounding notes: " ++ toString o.active.length

/-! ## Players -/

def status (x : Player) : String :=
  let playing := match x.scheduler.current? with
    | some s => p.paint [.bold, .green] "playing" ++ " (" ++ playback s ++ ")"
    | none => p.paint [.yellow] "idle"
  let port := match x.outputs.midi.port with
    | some port => p.paint [.cyan] port
    | none => p.paint [.dimmed] "not connected"
  p.paint [.bold] "🎵 Player Status:"
    ++ "\n  Playback: " ++ playing
    ++ "\n  Output: " ++ p.paint [.cyan] x.config.output.name
    ++ "\n  Volume: " ++ toString x.config.volume ++ "%"
    ++ "\n  MIDI: " ++ port
    ++ "\n  Events delivered: " ++ toString x.outputs.delivered
    ++ " (" ++ toString x.outputs.sessionsFinished ++ " sessions finished)"

end Ostinato.Console.Report
