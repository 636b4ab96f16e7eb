import Ostinato.Sound.Envelope
import Ostinato.Sound.Signal
import Ostinato.Score.Note
import Ostinato.Log

/-!
  Ostinato.Sound.Synth: a synthesizer by frequency modulation (`SynthState` and `Voice`).

  A voice is a sine whose frequency another sine moves, three times as fast as the first, and
  an envelope shapes. The synthesizer holds a voice for every note that is on; a note that
  goes off, or is struck again, leaves its voice to die away among the releasing ones. The held
  voices stand in the order in which they were struck; the map that holds them has an order of
  its own, and nothing that is proved of the synthesizer hangs on it (`Shuffled`).
-/

namespace Ostinato.Sound

open Score

variable {R : Type} [Signal R]

/-- The part of its way that a sample covers: nearly all of it within the time given. -/
def partOf (seconds rate : R) : R :=
  if 0.0 < seconds then 1.0 - Signal.exp ((0.0 - 6.9) / (seconds * rate)) else 1.0

def Envelope.ofSettings (s : Settings R) (rate peak : R) : Envelope R :=
  .rest s.sustain (partOf s.attack rate) (partOf s.decay rate) (partOf s.release rate) peak

def levelOf (n : Note) : R := Signal.ofNat n.volume / Signal.ofNat maxVolume

/-- A voice sounds at whole hertz. -/
def voiceFrequency (pitch : Int) : R := Signal.floor (Signal.frequency pitch)

/-- The gain of a volume in percent. -/
def gainOf (percent : Nat) : R := 0.1 * Signal.ofNat (min percent 100) / 100.0

structure Voice (R : Type) where
  frequency : R
  carrier : R
  modulator : R
  envelope : Envelope R

namespace Voice

def strike (n : Note) (s : Settings R) (rate : R) : Voice R where
  frequency := voiceFrequency n.pitch
  carrier := 0.0
  modulator := 0.0
  envelope := (Envelope.ofSettings s rate (levelOf n)).trigger

def release (v : Voice R) : Voice R := { v with envelope := v.envelope.release }

@[specialize] def next (rate : R) (v : Voice R) : R × Voice R :=
  let momentary := v.frequency * (1.0 + 0.2 * Signal.sin v.modulator)
  let envelope := v.envelope.next
  (Signal.sin v.carrier * envelope.level,
    { v with
      envelope
      carrier := Signal.remainder (v.carrier + Signal.turn * momentary / rate) Signal.turn
      modulator := Signal.remainder (v.modulator + Signal.turn * v.frequency * 3.0 / rate) Signal.turn })

end Voice

/-- A synthesizer: the voices of the notes that are on, by what identifies a note, and those
    that die away. -/
structure Synth (R : Type) where
  rate : R
  gain : R
  settings : Settings R
  held : List ((Nat × Nat) × Voice R)
  releasing : List (Voice R)

inductive Remark where
  | inaudible (pitch : Int)
  deriving DecidableEq, Repr

def Remark.line : Remark → LogLine
  | inaudible p => ⟨.debug, "pitch " ++ toString p ++ " has no audible frequency, skipped"⟩

namespace Synth

def silent (rate : R) : Synth R := ⟨rate, 0.05, .standard, [], []⟩

/-- Takes the voice of a note, if it has one, from the held to the releasing ones. -/
def noteOff (s : Synth R) (n : Note) : Synth R :=
  { s with
    held := s.held.filter (·.1 != n.id)
    releasing := s.releasing ++ (s.held.filter (·.1 == n.id)).map fun v => v.2.release }

/-- Strikes a note; one that has a voice gets a new one. -/
def noteOn (s : Synth R) (n : Note) : Synth R × Option Remark :=
  let v := Voice.strike n s.settings s.rate
  if Signal.isFinite v.frequency then
    let s := s.noteOff n
    ({ s with held := s.held ++ [(n.id, v)] }, none)
  else (s, some (.inaudible n.pitch))

def releaseAll (s : Synth R) : Synth R :=
  { s with held := [], releasing := s.releasing ++ s.held.map fun v => v.2.release }

def setVolume (s : Synth R) (percent : Nat) : Synth R := { s with gain := gainOf percent }

def voices (s : Synth R) : Nat := s.held.length + s.releasing.length

/-- The next sample, and the synthesizer after it; a voice that died away is dropped. -/
@[specialize] def next (s : Synth R) : R × Synth R :=
  let held := s.held.map fun v => (v.1, v.2.next s.rate)
  let releasing := s.releasing.map (·.next s.rate)
  let sum := held.foldl (fun sum v => sum + v.2.1) 0.0
  let sum := releasing.foldl (fun sum v => sum + v.1) sum
  (clamp (0.0 - 1.0) 1.0 (sum * s.gain),
    { s with
      held := held.map fun v => (v.1, v.2.2)
      releasing := (releasing.map (·.2)).filter fun v => !v.envelope.isFinished })

/-- Samples one after another, put to an accumulator. -/
@[specialize] def render {σ : Type} (note : σ → R → σ) : Nat → σ → Synth R → σ × Synth R
  | 0, acc, s => (acc, s)
  | n + 1, acc, s =>
    let (x, s) := s.next
    render note n (note acc x) s

end Synth

end Ostinato.Sound
