import Ostinato.Score.Pitch

/-!
  Ostinato.Score.Note: notes with their place in time (`Note`, `end_time`, `midi_key`).
-/

namespace Ostinato.Score

/-- The largest clock reading in milliseconds; later times stand at it. -/
def maxMillis : Nat := 18446744073709551615

def maxVolume : Nat := 127

structure Note where
  foundAt : Nat
  clause : Text
  track : Nat
  volume : Nat
  pitch : Int
  start : Nat
  duration : Nat
  deriving DecidableEq, Repr

namespace Note

def stop (n : Note) : Nat := min (n.start + n.duration) maxMillis

def key? (n : Note) : Option (Fin 128) :=
  if h : 0 ≤ n.pitch ∧ n.pitch < 128 then some ⟨n.pitch.toNat, by omega⟩ else none

/-- What the note's two events share. -/
def id (n : Note) : Nat × Nat := (n.track, n.foundAt)

def render (n : Note) : String :=
  String.ofList (Text.trim n.clause) ++ " (pitch " ++ toString n.pitch ++ ", track " ++ toString n.track
    ++ ", " ++ toString n.start ++ "ms +" ++ toString n.duration ++ "ms, vol " ++ toString n.volume ++ ")"

end Note

/-- When the last of some notes stops, zero without notes. -/
def endOf (notes : List Note) : Nat := notes.foldl (fun latest n => max latest n.stop) 0

end Ostinato.Score
