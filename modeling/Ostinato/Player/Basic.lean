import Ostinato.Files.Tree
import Ostinato.Player.Outputs
import Ostinato.Playback.Scheduler
import Ostinato.Score.Location

/-!
  Ostinato.Player.Basic: a scheduler and the outputs that its events go to (`Player`, and the
  `run_loop` of `EventDispatcher`).

  Between them stands a dispatcher: it takes events from the scheduler's one listener and
  orders from the player, either of them first (`takeEvent`, `takeOrder`). Who asks for
  silence waits until the orders up to that one are carried out. So stopping takes three
  steps, in this sequence: the scheduler stops, the events that still wait are dropped, and
  what sounds is released; nothing of a session that was stopped sounds later. An operation
  that fails leaves the player as it was.
-/

namespace Ostinato.Player

open Playback Score

/-- What a player finds around it. -/
structure Surroundings where
  files : Files.Tree
  midi : Midi.System
  audio : Option Sound.Device
  palette : Palette

inductive Fault where
  | score (source : Text) (fault : Score.Fault)
  | unreadable (path : String) (cause : Files.Fault)
  | audio (cause : Sound.OpenFault)
  | noPort
  | midi (cause : Midi.Fault)

/-- A fault and, after it, what caused it. -/
def Fault.chain (p : Palette) : Fault → List String
  | score source fault => [diagnostic p source fault]
  | unreadable path cause => ["Failed to read " ++ path, cause.message]
  | audio cause => ["Failed to open audio output", cause.message]
  | noPort => ["No MIDI port connected. Use 'midi connect <port>' first"]
  | midi cause => [cause.message]

def Fault.message (p : Palette) (f : Fault) : String := String.intercalate ": " (f.chain p)

/-- What the dispatcher is asked to do. -/
inductive Order where
  | select (output : OutputMode)
  /-- Events are to find their way to the open stream. -/
  | attach
  /-- What waits is to be dropped, and what sounds is to be released. -/
  | silence
  deriving DecidableEq, Repr

end Player

open Playback Score Player

structure Player where
  config : Config
  scheduler : Scheduler
  outputs : Outputs
  /-- What the dispatcher was asked and has not taken up, in order. -/
  orders : List Order

namespace Player

/-! ## The dispatcher -/

/-- The events that wait for the outputs. -/
def queued (p : Player) : List Event :=
  p.scheduler.stage.listeners.flatMap fun
    | .listening inbox => inbox
    | _ => []

def dropQueued (p : Player) : Player :=
  { p with scheduler := { p.scheduler with stage := p.scheduler.stage.drain.2 } }

def dispatch (s : Surroundings) (p : Player) (e : Event) : Player :=
  { p with outputs := p.outputs.dispatch s.palette e }

def takeEvent (p : Player) (s : Surroundings) : Player :=
  match p.queued with
  | [] => p
  | e :: _ => dispatch s { p with scheduler := { p.scheduler with stage := p.scheduler.stage.dropFirst } } e

def carryOut (p : Player) : Order → Player
  | .select output => { p with outputs := p.outputs.select output }
  | .attach => { p with outputs := p.outputs.attach }
  | .silence => { p.dropQueued with outputs := p.outputs.silence }

def takeOrder (p : Player) : Player :=
  match p.orders with
  | [] => p
  | o :: rest => { p with orders := rest }.carryOut o

def ask (p : Player) (o : Order) : Player := { p with orders := p.orders ++ [o] }

def obey (p : Player) : Player := p.orders.foldl carryOut { p with orders := [] }

/-- Takes up every order, then every event that waits. -/
def settle (p : Player) (s : Surroundings) : Player :=
  let p := p.obey
  p.queued.foldl (dispatch s) p.dropQueued

/-- Asks for silence and waits for it. -/
def silence (p : Player) : Player := (p.ask .silence).obey

/-! ## Operations -/

/-- Stops what plays and what sounds. Says whether something played. -/
def stop (p : Player) : Player × Bool :=
  let (scheduler, wasPlaying) := p.scheduler.stop
  ({ p with scheduler }.silence, wasPlaying)

def playSource (p : Player) (source : Text) : Except Fault (Player × Summary) :=
  match compile source with
  | .error fault => .error (.score source fault)
  | .ok notes =>
    let p := p.stop.1
    let (scheduler, summary) := p.scheduler.playNotes notes
    .ok ({ p with scheduler }, summary)

def playFile (p : Player) (s : Surroundings) (path : String) : Except Fault (Player × Summary) :=
  match s.files.readText path with
  | .error cause => .error (.unreadable path cause)
  | .ok source => p.playSource source

def openAudio (p : Player) (s : Surroundings) : Except Fault Player :=
  match p.outputs.stream with
  | some _ => .ok p
  | none => match Sound.Stream.openOn? s.audio with
    | .error cause => .error (.audio cause)
    | .ok stream => .ok ({ p with outputs := { p.outputs with stream := some stream } }.ask .attach)

/-- Whether an output can be selected; the synthesizer is opened for it. -/
def prepare (p : Player) (s : Surroundings) : OutputMode → Except Fault Player
  | .console => .ok p
  | .synth => (p.openAudio s).map fun p =>
    { p with outputs := p.outputs.onSynth (·.setVolume p.config.volume) }
  | .midi => if p.outputs.midi.isConnected then .ok p else .error .noPort

def setOutput (p : Player) (s : Surroundings) (output : OutputMode) : Except Fault Player :=
  (p.prepare s output).map fun p => { p with config := { p.config with output } }.ask (.select output)

def setVolume (p : Player) (percent : Nat) : Player :=
  let volume := min percent maxPercent
  { p with config := { p.config with volume }, outputs := p.outputs.onSynth (·.setVolume volume) }

def connectMidi (p : Player) (s : Surroundings) (wanted : String) : Except Fault (Player × String) :=
  match p.outputs.midi.connect s.midi wanted with
  | .error cause => .error (.midi cause)
  | .ok sent =>
    let outputs := p.outputs.sent sent
    let port := outputs.midi.port
    .ok ({ p with config := { p.config with port }, outputs }, port.getD wanted)

/-- Gives the MIDI port up; the console takes over from it. -/
def disconnectMidi (p : Player) : Player :=
  let outputs := p.outputs.sent p.outputs.midi.disconnect
  let p := { p with config := { p.config with port := none }, outputs }
  if p.config.output = .midi then
    { p with config := { p.config with output := .console } }.ask (.select .console)
  else p

def setChannelMode (p : Player) (mode : Midi.ChannelMode) : Player :=
  { p with outputs := { p.outputs with midi := p.outputs.midi.setMode mode } }

def panic (p : Player) : Player := { p with outputs := p.outputs.sent p.outputs.midi.panicAll }

/-- Connects to the port that the configuration names. -/
def connectConfigured (p : Player) (s : Surroundings) : Except Fault Player :=
  match p.config.port with
  | none => .ok p
  | some port => (p.connectMidi s port).map (·.1)

/-- A player of a configuration, which must be possible in its surroundings. -/
def build (s : Surroundings) (config : Config) : Except Fault Player := do
  let p : Player := ⟨config, Scheduler.empty.subscribe, .start config.output config.channelMode, []⟩
  let p ← p.connectConfigured s
  if config.output = .console then return p else p.setOutput s config.output

def advance? (p : Player) (span : Nat) : Option Player :=
  (p.scheduler.advance? span).map fun scheduler => { p with scheduler }

/-- The player after everything that it plays has been dispatched. -/
def playOut (p : Player) (s : Surroundings) : Player := { p with scheduler := p.scheduler.runAll }.settle s

def print (p : Player) (lines : List String) : Player := { p with outputs := p.outputs.printed lines }

/-- What left the player since it was last asked. -/
def take (p : Player) : Traffic × Player :=
  let (traffic, outputs) := p.outputs.take
  (traffic, { p with outputs })

/-- The player after it is given up: the outputs are silenced and the port is left quiet. -/
def close (p : Player) : Player :=
  let p := p.stop.1
  { p with outputs := p.outputs.sent (p.outputs.midi.send p.outputs.midi.close) }

end Player

end Ostinato
