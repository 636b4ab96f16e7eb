import Ostinato.Console.Commands
import Ostinato.Console.Typing
import Ostinato.Files.Watcher

/-!
  Ostinato.Console.Conversation: a conversation with a player, line by line (`Repl`, its
  `handle_line`, `play_line` and `replay`).

  A line is a command or a score to play. What the session says goes the way of everything
  that the player prints. The watcher of files is made when the first file is to be watched.
-/

namespace Ostinato.Console

open Player

structure Conversation where
  player : Player
  watcher : Option Files.Watcher

namespace Conversation

def greeting (p : Palette) : List String := [
  p.paint [.brightYellow] "🎵" ++ " " ++ p.paint [.bold, .brightCyan] "MML Player",
  "Type notation like: " ++ p.paint [.cyan] "t120 l8 c d e f g" ++ ", " ++ p.paint [.cyan] "o4 c2 e2, o3 c1",
  "Type '" ++ p.paint [.brightGreen] "help" ++ "' for more information, '" ++ p.paint [.brightRed] "quit"
    ++ "' or " ++ p.paint [.brightRed] "Ctrl+C" ++ " to exit.",
  ""]

def farewell (p : Palette) : List String := [p.paint [.brightCyan] "Goodbye!" ++ " 🎵"]

def say (x : Conversation) (line : String) : Conversation := { x with player := x.player.print [line] }

def start (s : Surroundings) (player : Player) : Conversation := ⟨player.print (greeting s.palette), none⟩

/-- Stops what plays and takes leave. -/
def finish (x : Conversation) (s : Surroundings) : Conversation :=
  { x with player := x.player.stop.1.print (farewell s.palette) }

def complain (x : Conversation) (s : Surroundings) (text : String) : Conversation :=
  x.say (s.palette.paint [.bold, .brightRed] "Error:" ++ " " ++ s.palette.paint [.red] text)

def playLine (x : Conversation) (s : Surroundings) (line : Text) : Conversation :=
  match x.player.playSource line with
  | .ok (player, _) => { x with player }
  | .error fault => x.say (fault.message s.palette)

def replay (x : Conversation) (s : Surroundings) (path : String) : Conversation :=
  match x.player.playFile s path with
  | .ok (player, summary) =>
    { x with player }.say (s.palette.paint [.brightGreen] "✓" ++ " Reloaded " ++ path ++ " ("
      ++ toString summary.notes ++ " notes)")
  | .error fault => x.say (fault.message s.palette)

def watch (x : Conversation) (s : Surroundings) (path : String) : Conversation :=
  let watcher := x.watcher.getD .empty
  match watcher.watch s.files path with
  | .error fault =>
    { x with watcher := some watcher }.complain s ("Failed to watch " ++ path ++ ": " ++ fault.message)
  | .ok (watcher, file) =>
    let file := Files.display file
    let x := { x with watcher := some watcher }.say (s.palette.paint [.brightCyan] "👀" ++ " Watching "
      ++ s.palette.paint [.brightGreen] file ++ " for changes...")
    x.replay s file

def unwatch (x : Conversation) (s : Surroundings) (path : String) : Conversation :=
  match x.watcher with
  | none => x.complain s "Not watching any files"
  | some watcher => match watcher.unwatch s.files path with
    | (watcher, some fault) =>
      { x with watcher := some watcher }.complain s ("Failed to unwatch " ++ path ++ ": " ++ fault.message)
    | (watcher, none) =>
      { x with watcher := some watcher }.say (s.palette.paint [.brightGreen] "✓"
        ++ " Stopped watching " ++ path ++ " (" ++ toString watcher.files.length ++ " still watched)")

/-- What is carried out for a line: what it says, blanks around that aside. -/
def lineOf (line : Text) : Text := Text.trim (typed line)

/-- Carries a line out, after the orders of those before it. Says whether it goes on. -/
def readLine (x : Conversation) (s : Surroundings) (line : Text) : Conversation × Bool :=
  let line := lineOf line
  if line.isEmpty then (x, true)
  else
    let (player, reply) := Commands.registry.run s x.player.obey line
    let x := { x with player }
    match reply with
    | .done => (x, true)
    | .message text => (x.say text, true)
    | .exit => (x, false)
    | .error text => (x.complain s text, true)
    | .watch path => (x.watch s path, true)
    | .unwatch path => (x.unwatch s path, true)
    | .notACommand => (x.playLine s line, true)

end Conversation

end Ostinato.Console
