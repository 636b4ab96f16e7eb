import Ostinato.Sound.Synth

/-!
  Ostinato.Sound.Stream: a synthesizer on an audio device (`open_stream`, `build_stream`).

  Opening a stream asks the device for its configuration, then builds and starts the stream;
  each step may fail, and a format that no stream is built for fails between the first two.
  Every sample of the synthesizer goes to all channels of a frame.
-/

namespace Ostinato.Sound

inductive SampleFormat where
  | f32 | i16 | u16
  | other (name : String)
  deriving DecidableEq, Repr

inductive OpenStep where
  | configure | build | play
  deriving DecidableEq, Repr

/-- A device: its format, and the step of opening that fails with its reason, if one does. -/
structure Device where
  format : SampleFormat
  rate : Nat
  channels : Nat
  failure : Option (OpenStep × String)
  deriving DecidableEq, Repr

inductive OpenFault where
  | noDevice
  | unsupported (format : String)
  | failed (step : OpenStep) (reason : String)
  deriving DecidableEq, Repr

def OpenFault.message : OpenFault → String
  | noDevice => "No output device available"
  | unsupported format => "Unsupported sample format: " ++ format
  | failed .configure reason => reason
  | failed .build reason => "Failed to build output stream: " ++ reason
  | failed .play reason => "Failed to play stream: " ++ reason

structure Stream where
  synth : Synth Float32
  format : SampleFormat
  channels : Nat

namespace Stream

def attempt (d : Device) (step : OpenStep) : Except OpenFault Unit :=
  match d.failure with
  | some (failing, reason) => if failing = step then .error (.failed step reason) else .ok ()
  | none => .ok ()

def supported : SampleFormat → Except OpenFault Unit
  | .other name => .error (.unsupported name)
  | _ => .ok ()

def openOn? : Option Device → Except OpenFault Stream
  | none => .error .noDevice
  | some d => do
    attempt d .configure
    supported d.format
    attempt d .build
    attempt d .play
    return ⟨.silent (Signal.ofNat d.rate), d.format, d.channels⟩

/-- A sample of sixteen bits with a sign: the sample's part of 32768, toward zero. -/
def toI16 (x : Float32) : Int := (x * 32768.0).toInt16.toInt

/-- What a device of whole-number samples gets; devices of others get the sample itself. -/
def encode : SampleFormat → Float32 → Option Int
  | .i16, x => some (toI16 x)
  | .u16, x => some (toI16 x + 32768)
  | _, _ => none

end Stream

/-- What is noted of rendered samples: the last one and the largest magnitude. -/
structure Meter where
  last : Float32
  peak : Float32

def Meter.zero : Meter := ⟨0.0, 0.0⟩

def Meter.note (m : Meter) (x : Float32) : Meter := ⟨x, atLeast m.peak x.abs⟩

def Synth.meter (s : Synth Float32) (frames : Nat) : Meter × Synth Float32 :=
  s.render Meter.note frames .zero

/-- A sample in units of 10⁻⁵, a half away from zero. -/
def scaled (x : Float32) : Option Int :=
  let y := (x.toFloat * 100000.0).round
  if y.isNaN then none else some (y.toInt64.toInt)

end Ostinato.Sound
