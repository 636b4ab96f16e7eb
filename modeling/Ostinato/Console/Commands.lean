import Ostinato.Console.Reply
import Ostinato.Console.Report
import Ostinato.Console.Help

/-!
  Ostinato.Console.Commands: the commands that the console knows, as `create_registry` registers
  them.

  Every command reads its arguments, asks the player, and says what came of it. A command
  that answers with an error leaves the player as it was.
-/

namespace Ostinato.Console.Commands

open Score Player

/-- Says something about a player that stays as it is. -/
def say (p : Player) (text : String) : Player × Reply := (p, .message text)

def refuse (p : Player) (text : String) : Player × Reply := (p, .error text)

/-- What an operation made of a player, or why it failed. -/
def after {α : Type} (s : Surroundings) (p : Player) (r : Except Player.Fault (Player × α))
    (text : α → String) : Player × Reply :=
  match r with
  | .ok (p, x) => (p, .message (text x))
  | .error fault => refuse p (fault.message s.palette)

/-! ## Playback -/

def play : Handler := fun s p args =>
  if args.isEmpty then refuse p "Usage: play <file>"
  else
    let path := String.ofList args
    after s p (p.playFile s path) fun summary =>
      s.palette.paint [.brightGreen] ("▶ Playing " ++ path ++ " (" ++ Report.playback summary ++ ")")

def stop : Handler := fun s p _ =>
  let (p, wasPlaying) := p.stop
  say p (if wasPlaying then s.palette.paint [.yellow] "⏹ Stopped"
    else s.palette.paint [.dimmed] "Nothing is playing")

def notes : Handler := fun s p args =>
  if args.isEmpty then refuse p "Usage: notes <mml>"
  else match compile args with
    | .error fault => refuse p ("\n" ++ diagnostic s.palette args fault)
    | .ok [] => say p (s.palette.paint [.dimmed] "No notes")
    | .ok all => say p (Report.noteTable s.palette all)

def volume : Handler := fun s p args =>
  if args.isEmpty then say p ("🔊 Volume: " ++ toString p.config.volume ++ "%")
  else match parseVolume args with
    | .error fault => refuse p fault.message
    | .ok percent =>
      say (p.setVolume percent)
        (s.palette.paint [.brightGreen] ("🔊 Volume set to " ++ toString percent ++ "%"))

def output : Handler := fun s p args =>
  if args.isEmpty then say p ("🔊 Output: " ++ s.palette.paint [.cyan] p.config.output.name)
  else match OutputMode.parse args with
    | .error fault => refuse p fault.message
    | .ok mode =>
      after s p ((p.setOutput s mode).map (·, mode)) fun mode =>
        s.palette.paint [.brightGreen] ("🔊 Output set to " ++ mode.name)

/-! ## MIDI -/

def midiDevices : Handler := fun s p _ =>
  match s.midi.listPorts with
  | .error fault => refuse p ("Failed to list MIDI ports: " ++ fault.message)
  | .ok [] => say p (s.palette.paint [.yellow]
      "No MIDI output ports found. Make sure a MIDI device or virtual port is connected.")
  | .ok ports => say p (Report.portList s.palette ports)

def midiConnect : Handler := fun s p args =>
  if args.isEmpty then refuse p "Usage: midi connect <port name>\nUse 'midi devices' to see available ports"
  else
    let wanted := String.ofList args
    match p.connectMidi s wanted with
    | .error fault => refuse p ("Failed to connect to '" ++ wanted ++ "': " ++ fault.message s.palette)
    | .ok (p, port) => say p ("🎹 Connected to MIDI port: " ++ s.palette.paint [.green] port)

def midiDisconnect : Handler := fun _ p _ => say p.disconnectMidi "🎹 Disconnected from MIDI"

/-- Words for a channel of its own for every track. -/
def perTrackWords : List String := ["auto", "per-track", "pertrack"]

/-- Channels are numbered from one. -/
def midiChannel : Handler := fun s p args =>
  let word := args.map Text.wordLetter
  if args.isEmpty then say p ("🎹 Current MIDI channel mode: " ++ p.outputs.midi.mode.render)
  else if perTrackWords.contains (String.ofList word) then
    say (p.setChannelMode .perTrack)
      (s.palette.paint [.green] "🎹 MIDI channel mode: Per-track (Track 1→Ch 1, Track 2→Ch 2, etc.)")
  else match Text.bounded? 255 word with
    | none => refuse p ("Usage: midi channel <1-16|auto>\n  1-16: Send all tracks to this channel\n"
        ++ "  auto: Each track uses its own channel")
    | some n =>
      if 1 ≤ n ∧ n ≤ 16 then
        say (p.setChannelMode (.mono (n - 1).toUInt8))
          (s.palette.paint [.green]
            ("🎹 MIDI channel mode: Mono (all tracks→Channel " ++ toString n ++ ")"))
      else refuse p "Channel must be 1-16, or 'auto' for per-track mode"

def midiStatus : Handler := fun s p _ => say p (Report.midiStatus s.palette p.outputs.midi)

def midiPanic : Handler := fun s p _ =>
  say p.panic (s.palette.paint [.yellow] "🎹 MIDI Panic: All Notes Off sent to all channels")

/-! ## General -/

def status : Handler := fun s p _ => say p (Report.status s.palette p)

def help : Handler := fun s p _ => (p.print (Help.lines s.palette), .done)

def quit : Handler := fun _ p _ => (p, .exit)

def watch : Handler := fun _ p args =>
  if args.isEmpty then refuse p "Usage: watch <file>" else (p, .watch (String.ofList args))

def unwatch : Handler := fun _ p args =>
  if args.isEmpty then refuse p "Usage: unwatch <file>" else (p, .unwatch (String.ofList args))

/-- Every command, in the order of registration. -/
def all : List (String × Handler) := [
  ("play", play), ("stop", stop), ("notes", notes), ("volume", volume), ("output", output),
  ("midi devices", midiDevices), ("midi connect", midiConnect), ("midi disconnect", midiDisconnect),
  ("midi channel", midiChannel), ("midi status", midiStatus), ("midi panic", midiPanic),
  ("status", status), ("help", help), ("quit", quit), ("exit", quit), ("watch", watch), ("unwatch", unwatch)]

def registry : Registry Handler := all.foldl (fun r c => r.register c.1.toList c.2) .empty

end Ostinato.Console.Commands
