import Ostinato.CommandLine.Program

/-!
  Ostinato.Main: the program at a terminal.

  Everything is decided by `CommandLine.begin`; here the files that the arguments and lines
  speak of are read, time passes, and lines are printed.
-/

namespace Ostinato.CommandLine

open Player Console

def look (path : String) : IO (Option Files.Node) := do
  try return some (.file (← IO.FS.readBinFile path))
  catch
    | .noFileOrDirectory .. => return none
    | .noSuchThing .. => return none
    | _ => return some .directory

/-- The working directory with what is at some paths. -/
def treeOf (paths : List String) : IO Files.Tree := do
  let home := Files.namesOf (← IO.currentDir).toString |>.filter (· != "")
  paths.foldlM (fun t path => do
    match ← look path with
    | some node => return t.add (t.written path) node
    | none => return t) ⟨home, []⟩

def surroundingsOf (palette : Palette) (paths : List String) : IO Surroundings := do
  return ⟨← treeOf paths, .ports [], none, palette⟩

def flush (player : Player) : IO Player := do
  let (traffic, player) := player.take
  traffic.lines.forM IO.println
  return player

/-- Lets time pass up to each deadline in turn. -/
partial def playOn (s : Surroundings) (player : Player) : IO Unit := do
  let player ← flush (player.settle s)
  match player.scheduler.timer.queue with
  | [] => return
  | e :: _ =>
    let wait := e.deadline - player.scheduler.timer.now
    IO.sleep (wait / nanosPerMilli).toUInt32
    match player.advance? wait with
    | some player => playOn s player
    | none => return

/-- Reads lines, with the time that each of them took. -/
partial def converse (palette : Palette) (prompt : String) (talk : Conversation) (last : Nat) : IO Unit := do
  (← IO.getStdout).putStr prompt
  (← IO.getStdout).flush
  let line ← (← IO.getStdin).getLine
  let operand := (Commands.registry.find? (Conversation.lineOf line.toList)).map (String.ofList ·.2)
  let s ← surroundingsOf palette operand.toList
  if line.isEmpty then
    let _ ← flush (talk.finish s).player
  else
    let now ← IO.monoNanosNow
    let player := (talk.player.advance? (now - last)).getD talk.player
    let (talk, goesOn) := { talk with player := player.settle s }.readLine s line.toList
    if goesOn then converse palette prompt { talk with player := ← flush talk.player } now
    else
      let _ ← flush (talk.finish s).player

end Ostinato.CommandLine

open Ostinato CommandLine in
def main (args : List String) : IO UInt32 := do
  let names := ["MML_OUTPUT", "MML_MIDI_PORT", "MML_VOLUME", "CLICOLOR_FORCE", "NO_COLOR", "CLICOLOR", "TERM"]
  let environment ← names.mapM fun name => do return (name, ← IO.getEnv name)
  let lookup (name : String) := (environment.find? (·.1 == name)).bind (·.2)
  let palette := paletteOf lookup (← (← IO.getStdout).isTty)
  let s ← surroundingsOf palette args
  match begin s lookup args with
  | .finished outcome =>
    (← IO.getStdout).putStr outcome.stdout
    (← IO.getStderr).putStr outcome.stderr
    return outcome.code.toUInt32
  | .playing player =>
    playOn s player
    return 0
  | .conversing talk =>
    let prompt := promptOf palette lookup (← (← IO.getStdin).isTty)
    converse palette prompt { talk with player := ← flush talk.player } (← IO.monoNanosNow)
    return 0
