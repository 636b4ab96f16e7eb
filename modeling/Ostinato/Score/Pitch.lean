import Ostinato.Score.Clause

/-!
  Ostinato.Score.Pitch: pitches as semitone numbers, sixty for c in octave five (`resolve_pitch`).

  Pitches lie in the range of 32-bit integers, and every step of their arithmetic stops at
  its ends.
-/

namespace Ostinato.Score

def minPitch : Int := -2147483648

def maxPitch : Int := 2147483647

/-- The number of the range that is nearest. -/
def clampPitch (n : Int) : Int := max minPitch (min n maxPitch)

/-- Semitones above c. -/
def Letter.semitone : Letter → Int
  | .c => 0
  | .d => 2
  | .e => 4
  | .f => 5
  | .g => 7
  | .a => 9
  | .b => 11

/-- The pitch of a letter in an octave; a sharp adds a semitone, a flat then takes one away. -/
def pitchOf (octave : Int) (letter : Letter) (m : Modifiers) : Int :=
  let natural := clampPitch (clampPitch (octave * 12) + letter.semitone)
  let raised := if m.sharp then clampPitch (natural + 1) else natural
  if m.flat then clampPitch (raised - 1) else raised

end Ostinato.Score
