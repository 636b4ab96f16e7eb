import Ostinato.Player.Config

/-!
  Ostinato.CommandLine.Arguments: what the program is asked to do.

  The options of the output may stand before the command and after it; those after it count.
  An option is given once per side, with its value attached or in the next argument, which
  then must not look like an option. After two dashes everything is an operand. The program
  declares its options in `Cli`; reading arguments and refusing them stands for the library
  that parses them.
-/

namespace Ostinato.CommandLine

open Player

/-- The commands, and what comes before them. -/
inductive Scope where
  | top | repl | play | compile
  deriving DecidableEq, Repr

inductive Flag where
  | output | midiPort | volume | expr | watch | json | help
  deriving DecidableEq, Repr

namespace Flag

def long : Flag → String
  | output => "output"
  | midiPort => "midi-port"
  | volume => "volume"
  | expr => "expr"
  | watch => "watch"
  | json => "json"
  | help => "help"

def short? : Flag → Option Char
  | output => some 'o'
  | expr => some 'e'
  | watch => some 'w'
  | help => some 'h'
  | _ => none

def takesValue : Flag → Bool
  | output => true
  | midiPort => true
  | volume => true
  | expr => true
  | _ => false

end Flag

def Scope.flags : Scope → List Flag
  | top => [.output, .midiPort, .volume, .help]
  | repl => [.output, .midiPort, .volume, .help]
  | play => [.output, .midiPort, .volume, .expr, .watch, .help]
  | compile => [.output, .midiPort, .volume, .expr, .json, .help]

def Scope.takesFile : Scope → Bool
  | play => true
  | compile => true
  | _ => false

def Scope.ofName? : String → Option Scope
  | "repl" => some .repl
  | "play" => some .play
  | "compile" => some .compile
  | _ => none

/-- Why arguments are not carried out. -/
inductive Refusal where
  /-- They ask for help instead. -/
  | help
  | invalid
  deriving DecidableEq, Repr

/-- What was given to a command. -/
structure Given where
  values : List (Flag × String)
  file : Option String

namespace Given

def nothing : Given := ⟨[], none⟩

def value? (g : Given) (f : Flag) : Option String := (g.values.find? (·.1 == f)).map (·.2)

def has (g : Given) (f : Flag) : Bool := g.values.any (·.1 == f)

def accepts (f : Flag) (value : String) : Bool :=
  match f with
  | .output => (OutputMode.parse value.toList).isOk
  | .volume => (parseVolume value.toList).isOk
  | _ => true

def add (g : Given) (f : Flag) (value : String) : Except Refusal Given :=
  if f = .help then .error .help
  else if g.has f || !accepts f value then .error .invalid
  else .ok { g with values := g.values ++ [(f, value)] }

def operand (g : Given) (scope : Scope) (file : String) : Except Refusal Given :=
  if scope.takesFile && g.file.isNone then .ok { g with file := some file } else .error .invalid

end Given

/-! ## Options -/

/-- An option's name and, after an equals sign, its value. -/
def splitValue (t : Text) : String × Option String :=
  match t.dropWhile (· != '=') with
  | _ :: value => (String.ofList (t.takeWhile (· != '=')), some (String.ofList value))
  | [] => (String.ofList t, none)

/-- Reads an option of a long name. The second component is the flag whose value is still to
    come. -/
def readLong (scope : Scope) (g : Given) (t : Text) : Except Refusal (Given × Option Flag) :=
  let (name, value) := splitValue t
  match scope.flags.find? (·.long == name), value with
  | none, _ => .error .invalid
  | some f, none => if f.takesValue then .ok (g, some f) else (g.add f "").map (·, none)
  | some f, some v => if f.takesValue then (g.add f v).map (·, none) else .error .invalid

/-- Reads options of one letter, up to one that takes a value. -/
def readShort (scope : Scope) (g : Given) : Text → Except Refusal (Given × Option Flag)
  | [] => .ok (g, none)
  | c :: rest => match scope.flags.find? (·.short? == some c) with
    | none => .error .invalid
    | some f =>
      if f.takesValue then
        match rest with
        | [] => .ok (g, some f)
        | '=' :: value => (g.add f (String.ofList value)).map (·, none)
        | value => (g.add f (String.ofList value)).map (·, none)
      else match g.add f "" with
        | .ok g => readShort scope g rest
        | .error refusal => .error refusal

def isOption (arg : String) : Bool :=
  match arg.toList with
  | '-' :: _ :: _ => true
  | _ => false

def readOption (scope : Scope) (g : Given) (arg : String) : Except Refusal (Given × Option Flag) :=
  match arg.toList with
  | '-' :: '-' :: name => readLong scope g name
  | _ :: letters => readShort scope g letters
  | [] => .error .invalid

/-- Why help is not given, or that it is: it is for one command at most, and itself counts as one. -/
def helpFor : List String → Refusal
  | [] => .help
  | [name] => if name = "help" ∨ (Scope.ofName? name).isSome then .help else .invalid
  | _ => .invalid

/-- Reads the arguments of a command, or those before it. The second component is the command
    that follows, with the arguments after it. -/
def readArguments (scope : Scope) (operandsOnly : Bool) (g : Given) :
    List String → Except Refusal (Given × Option (Scope × List String))
  | [] => .ok (g, none)
  | arg :: rest =>
    if !operandsOnly && arg == "--" then readArguments scope true g rest
    else if !operandsOnly && isOption arg then
      match readOption scope g arg with
      | .error refusal => .error refusal
      | .ok (g, none) => readArguments scope operandsOnly g rest
      | .ok (g, some f) => match rest with
        | [] => .error .invalid
        | value :: rest =>
          if isOption value then .error .invalid
          else match g.add f value with
            | .error refusal => .error refusal
            | .ok g => readArguments scope operandsOnly g rest
    else if !operandsOnly && scope == .top then
      if arg = "help" then .error (helpFor rest)
      else match Scope.ofName? arg with
        | some command => .ok (g, some (command, rest))
        | none => .error .invalid
    else match g.operand scope arg with
      | .error refusal => .error refusal
      | .ok g => readArguments scope operandsOnly g rest

/-! ## Requests -/

/-- Settings that the arguments make. -/
structure Overrides where
  output : Option String
  port : Option String
  volume : Option String

/-- A score: the text given, or that of a file. -/
inductive Source where
  | text (score : String)
  | file (path : String)
  deriving DecidableEq, Repr

inductive Request where
  | repl
  | play (source : Source) (watch : Bool)
  | compile (source : Source) (json : Bool)
  deriving DecidableEq, Repr

/-- The score of a command: exactly one of the text and the file is given. -/
def Given.source (g : Given) : Except Refusal Source :=
  match g.value? .expr, g.file with
  | some score, none => .ok (.text score)
  | none, some path => .ok (.file path)
  | _, _ => .error .invalid

def Given.request (g : Given) : Scope → Except Refusal Request
  | .play => do return .play (← g.source) (g.has .watch)
  | .compile => do return .compile (← g.source) (g.has .json)
  | _ => return .repl

/-- The settings of the arguments before a command and after it. -/
def overridesOf (before after : Given) : Overrides :=
  let value (f : Flag) := (after.value? f).or (before.value? f)
  ⟨value .output, value .midiPort, value .volume⟩

def parseArguments (args : List String) : Except Refusal (Overrides × Request) := do
  match ← readArguments .top false .nothing args with
  | (before, none) => return (overridesOf before .nothing, .repl)
  | (before, some (command, rest)) =>
    let (after, _) ← readArguments command false .nothing rest
    return (overridesOf before after, ← after.request command)

end Ostinato.CommandLine
