import Ostinato.Midi.Message
import Ostinato.Playback.Event
import Ostinato.Log

/-!
  Ostinato.Midi.Output: notes on a MIDI port (`MidiOutputHandle` with the thread it talks to).

  The output keeps the keys that it switched on, by channel and key; a note's channel follows
  from its track and the channel mode of the moment. What it sends reaches the port that is
  connected, if there is one that takes messages.
-/

namespace Ostinato.Midi

open Score Playback

/-- How tracks are given channels. -/
inductive ChannelMode where
  /-- Track by track, again from the first one after sixteen. -/
  | perTrack
  /-- All on one; only the low four bits of its number count. -/
  | mono (channel : UInt8)
  deriving DecidableEq, Repr

def ChannelMode.render : ChannelMode → String
  | perTrack => "per-track"
  | mono n => "mono (channel " ++ toString (n + 1) ++ ")"

def ChannelMode.channelOf (track : Nat) : ChannelMode → Channel
  | perTrack => Fin.ofNat 16 track
  | mono n => Fin.ofNat 16 n.toNat

/-! ## Ports -/

/-- A port: whether it can tell its name, why it cannot be connected to, if so, and whether it
    takes what is sent. -/
structure Port where
  name : String
  isNamed : Bool
  refusal : Option String
  takesMessages : Bool
  deriving DecidableEq, Repr

/-- The MIDI system, or why there is none: the fault's message and its name. -/
inductive System where
  | unavailable (message : String) (name : String)
  | ports (all : List Port)
  deriving DecidableEq, Repr

inductive Fault where
  | unavailable (message : String)
  | notFound (wanted : String)
  | refused (port reason : String)
  | unlisted (name : String)
  deriving DecidableEq, Repr

def Fault.message : Fault → String
  | unavailable message => message
  | notFound wanted => "MIDI port '" ++ wanted ++ "' not found"
  | refused port reason => "Failed to connect to '" ++ port ++ "': " ++ reason
  | unlisted name => "MIDI initialization failed after 3 attempts: Some(" ++ name ++ ")"

def occursIn (part : Text) : Text → Bool
  | [] => part.isEmpty
  | c :: cs => Text.startsWith (c :: cs) part || occursIn part cs

def findPort (wanted : String) (ports : List Port) : Option Port :=
  ports.find? fun p => p.isNamed && occursIn wanted.toList p.name.toList

def System.listPorts : System → Except Fault (List String)
  | unavailable _ name => .error (.unlisted name)
  | ports all => .ok ((all.filter (·.isNamed)).map (·.name))

def System.openPort (wanted : String) : System → Except Fault Port
  | unavailable message _ => .error (.unavailable message)
  | ports all => match findPort wanted all with
    | none => .error (.notFound wanted)
    | some p => match p.refusal with
      | some reason => .error (.refused p.name reason)
      | none => .ok p

/-! ## The output -/

structure Output where
  mode : ChannelMode
  /-- The keys switched on, each once. -/
  active : List (Channel × Key)
  /-- The connection that messages go over. -/
  connection : Option Port
  /-- The name of the port that the output takes for connected. -/
  port : Option String
  deriving DecidableEq, Repr

inductive Remark where
  | connected (port : String)
  | outOfRange (pitch : Int)
  deriving DecidableEq, Repr

def Remark.line : Remark → LogLine
  | connected port => ⟨.debug, "MIDI connected to '" ++ port ++ "'"⟩
  | outOfRange p => ⟨.debug, "pitch " ++ toString p ++ " outside MIDI range, skipped"⟩

structure Sent where
  output : Output
  messages : List Message
  remark : Option Remark

namespace Output

def idle : Output := ⟨.perTrack, [], none, none⟩

def setMode (o : Output) (mode : ChannelMode) : Output := { o with mode }

def isConnected (o : Output) : Bool := o.port.isSome

/-- What of some messages reaches the port. -/
def reach (o : Output) (messages : List Message) : List Message :=
  match o.connection with
  | some p => if p.takesMessages then messages else []
  | none => []

def send (o : Output) (messages : List Message) : Sent := ⟨o, o.reach messages, none⟩

/-- Velocities have seven bits. -/
def velocityOf (n : Note) : Fin 128 := Fin.ofNat 128 n.volume

def noteOn (o : Output) (n : Note) : Sent :=
  match n.key? with
  | none => ⟨o, [], some (.outOfRange n.pitch)⟩
  | some key =>
    let channel := o.mode.channelOf n.track
    { o with active := o.active.insert (channel, key) }.send [.noteOn channel key (velocityOf n)]

def noteOff (o : Output) (n : Note) : Sent :=
  match n.key? with
  | none => ⟨o, [], none⟩
  | some key =>
    let channel := o.mode.channelOf n.track
    { o with active := o.active.erase (channel, key) }.send [.noteOff channel key]

def handle (o : Output) : Event → Sent
  | .noteOn n => o.noteOn n
  | .noteOff n => o.noteOff n
  | .finished => ⟨o, [], none⟩

def keyBefore (a b : Channel × Key) : Bool := a.1 < b.1 || (a.1 == b.1 && a.2 ≤ b.2)

/-- Switches off what was switched on, in the order of channels and keys. -/
def releaseActive (o : Output) : Sent :=
  { o with active := [] }.send
    ((o.active.mergeSort keyBefore).map fun (k : Channel × Key) => Message.noteOff k.1 k.2)

def panicAll (o : Output) : Sent := { o with active := [] }.send panic

/-- Connects to the first port whose name holds a text, in place of the port connected. -/
def connect (o : Output) (system : System) (wanted : String) : Except Fault Sent :=
  (system.openPort wanted).map fun p =>
    ⟨{ o with connection := some p, port := some p.name }, [], some (.connected p.name)⟩

def disconnect (o : Output) : Sent :=
  ⟨{ o with active := [], connection := none, port := none }, [], none⟩

/-- What is sent when the output is given up. -/
def close (o : Output) : List Message := o.reach panic

end Output

end Ostinato.Midi
