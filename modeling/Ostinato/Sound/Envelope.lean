/-!
  Ostinato.Sound.Envelope: how loud a voice is, sample by sample (`AdsrEnvelope`, `coefficient`).

  A triggered envelope rises to its peak (`attack`), falls to a part of it (`decay`) and
  stays there (`sustain`); released, it falls to silence. Every sample covers a fixed part of
  the way to where the stage leads, so a stage ends when the rest of the way no longer
  counts. The numbers may be any with these operations and comparisons.
-/

namespace Ostinato.Sound

inductive Stage where
  | idle | attack | decay | sustain | release
  deriving DecidableEq, Repr

section

variable {R : Type} [Add R] [Sub R] [Mul R] [OfScientific R] [LT R] [LE R] [DecidableLT R] [DecidableLE R]

/-- The greater of two numbers, the first one unless the second is known to be greater. -/
@[specialize] def atLeast (low x : R) : R := if low < x then x else low

@[specialize] def clamp (low high x : R) : R := if x < low then low else if high < x then high else x

@[specialize] def magnitude (x : R) : R := if x < 0.0 then 0.0 - x else x

end

/-- Times in seconds, and the part of the peak that is held. -/
structure Settings (R : Type) where
  attack : R
  decay : R
  sustain : R
  release : R

/-- An envelope: the part of the peak that it holds, the parts of the way that a sample of
    each moving stage covers, its peak, and where it is. -/
structure Envelope (R : Type) where
  sustain : R
  attackPart : R
  decayPart : R
  releasePart : R
  peak : R
  stage : Stage
  level : R

variable {R : Type} [Add R] [Sub R] [Mul R] [OfScientific R] [LT R] [LE R] [DecidableLT R] [DecidableLE R]

/-- Settings within their bounds; a millisecond is the least that avoids clicks. -/
def Settings.of (attack decay sustain release : R) : Settings R :=
  ⟨atLeast 0.001 attack, atLeast 0.0 decay, clamp 0.0 1.0 sustain, atLeast 0.001 release⟩

/-- Ten milliseconds to the peak, a fifth of a second down to eighty percent, half a second to
    silence. -/
def Settings.standard : Settings R := .of 0.01 0.2 0.8 0.5

namespace Envelope

def rest (sustain attackPart decayPart releasePart peak : R) : Envelope R :=
  ⟨sustain, attackPart, decayPart, releasePart, clamp 0.0 1.0 peak, .idle, 0.0⟩

def trigger (e : Envelope R) : Envelope R := { e with stage := .attack }

def release (e : Envelope R) : Envelope R := if e.stage = .idle then e else { e with stage := .release }

def forceStop (e : Envelope R) : Envelope R := { e with stage := .idle, level := 0.0 }

def isFinished (e : Envelope R) : Bool := e.stage == .idle

/-- The level that a decay leads to. -/
@[specialize] def held (e : Envelope R) : R := e.peak * e.sustain

@[specialize] def next (e : Envelope R) : Envelope R :=
  match e.stage with
  | .idle => { e with level := 0.0 }
  | .attack =>
    let level := e.level + (e.peak - e.level) * e.attackPart
    if e.peak * 0.999 ≤ level then { e with level := e.peak, stage := .decay } else { e with level }
  | .decay =>
    let target := e.held
    let level := e.level + (target - e.level) * e.decayPart
    if magnitude (level - target) < 0.001 then { e with level := target, stage := .sustain }
    else { e with level }
  | .sustain => { e with level := e.held }
  | .release =>
    let level := e.level - e.level * e.releasePart
    if level < 0.0001 then { e with level := 0.0, stage := .idle } else { e with level }

end Envelope

end Ostinato.Sound
