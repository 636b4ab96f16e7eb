import Ostinato.CommandLine.Arguments
import Ostinato.Console.Conversation
import Ostinato.Playback.Wire

/-!
  Ostinato.CommandLine.Program: the program, from its arguments to what it prints (`build_config`,
  `run_compile`, `run_play`).

  Arguments are carried out at once (`finished`), by playing to the end (`playing`), or in a
  conversation (`conversing`); how time passes meanwhile is for the caller to say. `run` lets
  a playback run out and reads a conversation in no time.
-/

namespace Ostinato.CommandLine

open Score Playback Player Console

structure Outcome where
  code : Nat
  stdout : String
  stderr : String
  deriving DecidableEq, Repr

def unlines (lines : List String) : String := String.join (lines.map (· ++ "\n"))

def Outcome.success (lines : List String) : Outcome := ⟨0, unlines lines, ""⟩

/-- An error, and below it what caused it. -/
def Outcome.failure (lines : List String) : List String → Outcome
  | [] => ⟨1, unlines lines, "Error: \n"⟩
  | [error] => ⟨1, unlines lines, "Error: " ++ error ++ "\n"⟩
  | error :: cause :: _ =>
    ⟨1, unlines lines, "Error: " ++ error ++ "\n\nCaused by:\n    " ++ cause ++ "\n"⟩

def usage : String := "Usage: ostinato [OPTIONS] [repl|play|compile] [FILE|-e TEXT]"

def Outcome.refused : Refusal → Outcome
  | .help => ⟨0, usage ++ "\n", ""⟩
  | .invalid => ⟨2, "", usage ++ "\n"⟩

/-- Colours, as the environment wants them: they can be forced or forbidden, and a terminal
    shows them unless they are turned off. -/
def paletteOf (lookup : String → Option String) (isTerminal : Bool) : Palette :=
  if (lookup "CLICOLOR_FORCE").any (· != "0") then .colored
  else if (lookup "NO_COLOR").isSome then .plain
  else if isTerminal && (lookup "CLICOLOR").all (· != "0") then .colored
  else .plain

/-- The kinds of terminals on which a line cannot be edited while it is typed. -/
def plainTerminals : List String := ["dumb", "cons25", "emacs"]

/-- What is printed before a line is read: something at a terminal, and on a plain one also
    where the lines do not come from it. -/
def promptOf (p : Palette) (lookup : String → Option String) (atTerminal : Bool) : String :=
  let isPlain := (lookup "TERM").any fun kind => plainTerminals.contains (kind.map Char.toLower)
  if atTerminal || isPlain then p.paint [.bold, .brightMagenta] "mml>" ++ " " else ""

/-! ## Commands -/

/-- The text of a score, or why it cannot be read. -/
def Source.read (s : Surroundings) : Source → Except (List String) Text
  | .text score => .ok score.toList
  | .file path => match s.files.readText path with
    | .ok score => .ok score
    | .error cause => .error ["Failed to read " ++ path, cause.message]

def listing (p : Palette) (notes : List Note) : List String :=
  notes.map Note.render
    ++ [p.paint [.dimmed] (toString notes.length ++ " notes, " ++ toString (endOf notes) ++ " ms")]

def compileSource (s : Surroundings) (source : Source) (json : Bool) : Outcome :=
  match source.read s with
  | .error chain => .failure [] chain
  | .ok text => match compile text with
    | .error fault => .failure [] [diagnostic s.palette text fault]
    | .ok notes =>
      .success (if json then [String.ofList (Json.pretty 0 (.arr (notes.map noteToJson)))]
        else listing s.palette notes)

/-- The configuration of the environment with what the arguments say. -/
def configure (lookup : String → Option String) (o : Overrides) : Except ConfigFault Config := do
  let c ← Config.ofEnvironment lookup
  let c ← c.withOutput o.output
  let c := match o.port with
    | some port => { c with port := some port }
    | none => c
  c.withVolume o.volume

/-- What carrying arguments out comes to. -/
inductive Course where
  | finished (outcome : Outcome)
  | playing (player : Player)
  | conversing (conversation : Conversation)

def playWatched (s : Surroundings) (player : Player) (path : String) : Except (List String) Player :=
  match Files.Watcher.empty.watch s.files path with
  | .error fault => .error ["Failed to watch " ++ path ++ ": " ++ fault.message]
  | .ok (_, file) =>
    let file := Files.display file
    match player.playFile s file with
    | .error fault => .error (fault.chain s.palette)
    | .ok (player, _) => .ok (player.print [s.palette.paint [.brightCyan] "👀" ++ " Watching "
        ++ s.palette.paint [.brightGreen] file ++ " for changes (Ctrl+C to quit)..."])

def playSource (s : Surroundings) (player : Player) (source : Source) : Except (List String) Player :=
  match source.read s with
  | .error chain => .error chain
  | .ok text => match player.playSource text with
    | .error fault => .error (fault.chain s.palette)
    | .ok (player, _) => .ok player

def startPlaying (s : Surroundings) (player : Player) (source : Source) (watch : Bool) :
    Except (List String) Player :=
  match watch, source with
  | true, .file path => playWatched s player path
  | _, _ => playSource s player source

/-- Builds a player for what arguments ask, and starts with it. -/
def withPlayer (s : Surroundings) (lookup : String → Option String) (o : Overrides)
    (next : Player → Course) : Course :=
  match configure lookup o with
  | .error fault => .finished (.failure [] [fault.message])
  | .ok config => match Player.build s config with
    | .error fault => .finished (.failure [] (fault.chain s.palette))
    | .ok player => next player

def begin (s : Surroundings) (lookup : String → Option String) (args : List String) : Course :=
  match parseArguments args with
  | .error refusal => .finished (.refused refusal)
  | .ok (_, .compile source json) => .finished (compileSource s source json)
  | .ok (o, .play source watch) => withPlayer s lookup o fun player =>
    match startPlaying s player source watch with
    | .error chain => .finished (.failure [] chain)
    | .ok player => .playing player
  | .ok (o, .repl) => withPlayer s lookup o fun player => .conversing (.start s player)

/-! ## Running -/

/-- The lines of a text; nothing follows the end of the last one. -/
def linesOf (t : Text) : List Text :=
  let lines := (String.ofList t).splitOn "\n" |>.map String.toList
  if lines.getLast? == some [] then lines.dropLast else lines

/-- What a conversation has printed, which is thereby taken. -/
def takePrinted (x : Conversation) : String × Conversation :=
  let (traffic, player) := x.player.take
  (unlines traffic.lines, { x with player })

/-- What a conversation prints while it reads lines, up to the one that ends it or the end. -/
def transcript (s : Surroundings) (prompt : String) (x : Conversation) (lines : List Text) : String :=
  let (printed, x) := takePrinted x
  printed ++ prompt ++ match lines with
    | [] => (takePrinted (x.finish s)).1
    | line :: rest => match x.readLine s line with
      | (x, true) => transcript s prompt x rest
      | (x, false) => (takePrinted (x.finish s)).1

/-- Carries arguments out to the end; `input` is what a conversation reads. -/
def run (s : Surroundings) (lookup : String → Option String) (args : List String)
    (input : Text) : Outcome :=
  match begin s lookup args with
  | .finished outcome => outcome
  | .playing player => .success (player.playOut s).outputs.traffic.lines
  | .conversing conversation =>
    ⟨0, transcript s (promptOf s.palette lookup false) conversation (linesOf input), ""⟩

end Ostinato.CommandLine
