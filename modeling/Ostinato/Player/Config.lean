import Ostinato.Midi.Output

/-!
  Ostinato.Player.Config: what a player is set to (`PlayerConfig`, `parse_volume`).

  Settings come from the defaults, then from the environment, then from the command line.
-/

namespace Ostinato.Player

inductive OutputMode where
  | console
  | synth
  | midi
  deriving DecidableEq, Repr

def OutputMode.name : OutputMode → String
  | console => "console"
  | synth => "synth"
  | midi => "midi"

inductive ConfigFault where
  | unknownOutput (name : String)
  | invalidVolume (text : String)
  | volumeOutOfRange (n : Nat)
  deriving DecidableEq, Repr

def ConfigFault.message : ConfigFault → String
  | unknownOutput name => "Unknown output '" ++ name ++ "'. Expected console, synth or midi"
  | invalidVolume text => "Invalid volume '" ++ text ++ "'. Expected 0-100"
  | volumeOutOfRange n => "Volume " ++ toString n ++ " out of range. Expected 0-100"

/-- Names are read in any case, with blanks around them. -/
def OutputMode.parse (t : Text) : Except ConfigFault OutputMode :=
  let name := String.ofList ((Text.trim t).map Char.toLower)
  if name = "console" ∨ name = "print" then .ok console
  else if name = "synth" ∨ name = "audio" then .ok synth
  else if name = "midi" then .ok midi
  else .error (.unknownOutput name)

def maxPercent : Nat := 100

/-- A volume in percent, with blanks around it. -/
def parseVolume (t : Text) : Except ConfigFault Nat :=
  match Text.bounded? 255 (Text.trim t) with
  | none => .error (.invalidVolume (String.ofList (Text.trim t)))
  | some n => if n ≤ maxPercent then .ok n else .error (.volumeOutOfRange n)

structure Config where
  output : OutputMode
  /-- In percent. -/
  volume : Nat
  port : Option String
  channelMode : Midi.ChannelMode
  deriving DecidableEq, Repr

namespace Config

def default : Config := ⟨.console, 50, none, .perTrack⟩

def withOutput (c : Config) : Option String → Except ConfigFault Config
  | none => .ok c
  | some s => (OutputMode.parse s.toList).map fun output => { c with output }

def withPort (c : Config) : Option String → Config
  | none => c
  | some s => if (Text.trim s.toList).isEmpty then c else { c with port := some s }

def withVolume (c : Config) : Option String → Except ConfigFault Config
  | none => .ok c
  | some s => (parseVolume s.toList).map fun volume => { c with volume }

/-- The defaults with what the environment says; the output is read first, the volume last. -/
def ofEnvironment (lookup : String → Option String) : Except ConfigFault Config := do
  let c ← default.withOutput (lookup "MML_OUTPUT")
  (c.withPort (lookup "MML_MIDI_PORT")).withVolume (lookup "MML_VOLUME")

end Config

end Ostinato.Player
