import Ostinato.Player.Config
import Ostinato.Sound.Stream

/-!
  Ostinato.Player.Outputs: where events go (`dispatch` and `silence` of `EventDispatcher`).

  Every event goes to the output that is selected. Selecting another one, or asking for
  silence, releases what sounds on all of them. What leaves the outputs is kept in order
  (`Traffic`) until somebody takes it.
-/

namespace Ostinato.Player

open Playback

/-- What left some outputs: the events dispatched, the messages that reached the MIDI port, and
    the lines printed. -/
structure Traffic where
  events : List Event
  messages : List Midi.Message
  lines : List String

def Traffic.none : Traffic := ⟨[], [], []⟩

structure Outputs where
  selected : OutputMode
  midi : Midi.Output
  stream : Option Sound.Stream
  /-- Whether events find their way to the stream. -/
  attached : Bool
  delivered : Nat
  sessionsFinished : Nat
  traffic : Traffic

namespace Outputs

def start (selected : OutputMode) (mode : Midi.ChannelMode) : Outputs :=
  ⟨selected, Midi.Output.idle.setMode mode, none, false, 0, 0, .none⟩

def sent (o : Outputs) (s : Midi.Sent) : Outputs :=
  { o with midi := s.output, traffic := { o.traffic with messages := o.traffic.messages ++ s.messages } }

def printed (o : Outputs) (lines : List String) : Outputs :=
  { o with traffic := { o.traffic with lines := o.traffic.lines ++ lines } }

/-- Changes the synthesizer, if there is one. -/
def onSynth (o : Outputs) (f : Sound.Synth Float32 → Sound.Synth Float32) : Outputs :=
  { o with stream := o.stream.map fun s => { s with synth := f s.synth } }

/-- Changes the synthesizer that events go to, if they go to one. -/
def onAttached (o : Outputs) (f : Sound.Synth Float32 → Sound.Synth Float32) : Outputs :=
  if o.attached then o.onSynth f else o

def forward (p : Palette) (o : Outputs) (e : Event) : Outputs :=
  match o.selected with
  | .console => o.printed [e.line p]
  | .synth => match e with
    | .noteOn n => o.onAttached fun s => (s.noteOn n).1
    | .noteOff n => o.onAttached (·.noteOff n)
    | .finished => o
  | .midi => o.sent (o.midi.handle e)

def dispatch (p : Palette) (o : Outputs) (e : Event) : Outputs :=
  let o := o.forward p e
  { o with
    delivered := o.delivered + 1
    sessionsFinished := o.sessionsFinished + if e = .finished then 1 else 0
    traffic := { o.traffic with events := o.traffic.events ++ [e] } }

def silence (o : Outputs) : Outputs :=
  let o := o.onAttached Sound.Synth.releaseAll
  o.sent o.midi.releaseActive

def attach (o : Outputs) : Outputs := { o with attached := true }

def select (o : Outputs) (output : OutputMode) : Outputs :=
  if output = o.selected then o else { o.silence with selected := output }

/-- What left the outputs, which is thereby taken. -/
def take (o : Outputs) : Traffic × Outputs := (o.traffic, { o with traffic := .none })

end Outputs

end Ostinato.Player
