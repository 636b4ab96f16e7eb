import Ostinato.Score.Length
import Ostinato.Score.Note
import Ostinato.Log

/-!
  Ostinato.Score.Compile: from the text of a score to its notes (`Compiler`, its `feed`,
  `complete_length`, `emit` and `finish`).

  Reading a clause (`State.feed`) changes the musical state and yields at most one note. A
  note tied onward yields nothing: its length is left over for the next one that is not. A
  clause at fault changes nothing. `compile` reads the clauses in order, up to the first
  fault.
-/

namespace Ostinato.Score

variable {α : Type} [Lengths α]

/-- The musical state: beats a minute, the denominator of notes without a number, octave,
    volume and track, the time passed on the track, and the length that ties left over. -/
structure State (α : Type) where
  tempo : Nat
  denominator : Nat
  octave : Int
  volume : Nat
  track : Nat
  cursor : α
  pending : α

def State.initial : State α where
  tempo := 60
  denominator := 4
  octave := 5
  volume := maxVolume
  track := 0
  cursor := Lengths.zero
  pending := Lengths.zero

/-- What reading a score reports without failing. -/
inductive Remark where
  | missingNumber (clause : Clause)
  | loudVolume (clause : Clause) (volume : Nat)
  | droppedTie (ms : String)
  deriving DecidableEq, Repr

private def Clause.named (c : Clause) : String :=
  "'" ++ String.ofList (Text.trim c.text) ++ "' at " ++ toString c.offset

def Remark.line : Remark → LogLine
  | missingNumber c => ⟨.warn, c.named ++ " has no numeric value, state unchanged"⟩
  | loudVolume c n =>
    ⟨.warn, "volume " ++ toString n ++ " in " ++ c.named ++ " clamped to " ++ toString maxVolume⟩
  | droppedTie ms => ⟨.debug, "dropping " ++ ms ++ " ms of tie with no following note"⟩

structure Reading (α : Type) where
  state : State α
  note : Option Note
  remark : Option Remark
  fault : Option Fault

/-- The state changes and nothing else comes of it. -/
def State.only (s : State α) : Reading α := ⟨s, none, none, none⟩

/-- A state command's number; without one the state stays, and a remark says so. -/
def State.withNumber (s : State α) (c : Clause) (n : Option Nat) (read : Nat → Reading α) : Reading α :=
  match n with
  | some n => read n
  | none => { s.only with remark := some (.missingNumber c) }

/-- A clause's length put to the ties before it; `finished` gets what is complete. -/
def State.withLength (s : State α) (c : Clause) (finished : State α → α → Reading α) : Reading α :=
  match c.modifiers.length s.tempo s.denominator with
  | .error e => { s.only with fault := some (.invalidLength c.text c.offset e.message) }
  | .ok ms =>
    match joinTie s.pending ms c.modifiers.tie with
    | (none, pending) => { s with pending }.only
    | (some total, pending) => finished { s with pending } total

/-- The state after a silence. -/
def State.pass (s : State α) (ms : α) : State α := { s with cursor := Lengths.add s.cursor ms }

/-- A note from the cursor on; both of its ends are rounded. -/
def State.sound (s : State α) (c : Clause) (letter : Letter) (ms : α) : Note :=
  let start := Lengths.toMillis s.cursor
  { foundAt := c.offset
    clause := c.text
    track := s.track
    volume := s.volume
    pitch := pitchOf s.octave letter c.modifiers
    start
    duration := Lengths.toMillis (Lengths.add s.cursor ms) - start }

def State.feed (s : State α) (c : Clause) : Reading α :=
  match c.command with
  | .error fault => { s.only with fault := some fault }
  | .ok (.note letter) => s.withLength c fun s ms =>
    { (s.pass ms).only with note := some (s.sound c letter ms) }
  | .ok .rest => s.withLength c fun s ms => (s.pass ms).only
  | .ok .octaveUp => { s with octave := clampPitch (s.octave + 1) }.only
  | .ok .octaveDown => { s with octave := clampPitch (s.octave - 1) }.only
  | .ok (.octave n) => s.withNumber c n fun n => { s with octave := min (n : Int) maxPitch }.only
  | .ok (.tempo n) => s.withNumber c n fun n => { s with tempo := n }.only
  | .ok (.length n) => s.withNumber c n fun n => { s with denominator := n }.only
  | .ok (.volume n) => s.withNumber c n fun n =>
    { { s with volume := min n maxVolume }.only with
      remark := if maxVolume < n then some (.loudVolume c n) else none }
  | .ok .nextTrack => { s with track := s.track + 1, cursor := Lengths.zero }.only

/-- What comes of reading clauses up to the first fault. -/
structure Compilation (α : Type) where
  state : State α
  notes : List Note
  remarks : List Remark
  fault : Option Fault

def State.feedAll (s : State α) : List (Except Fault Clause) → Compilation α
  | [] => ⟨s, [], [], none⟩
  | .error fault :: _ => ⟨s, [], [], some fault⟩
  | .ok c :: cs =>
    let r := s.feed c
    match r.fault with
    | some fault => ⟨r.state, r.note.toList, r.remark.toList, some fault⟩
    | none =>
      let after := r.state.feedAll cs
      { after with notes := r.note.toList ++ after.notes, remarks := r.remark.toList ++ after.remarks }

/-- What is remarked when no clause follows. -/
def State.finish (s : State α) : Option Remark :=
  if Lengths.isPositive s.pending then some (.droppedTie (Lengths.write s.pending)) else none

def read (t : Text) : Compilation α :=
  let c := (State.initial : State α).feedAll (clauses (normalize t))
  match c.fault with
  | some _ => c
  | none => { c with remarks := c.remarks ++ c.state.finish.toList }

/-- The notes of a score in the order of their clauses, or its first fault. -/
def Compilation.result (c : Compilation α) : Except Fault (List Note) :=
  match c.fault with
  | some fault => .error fault
  | none => .ok c.notes

def compile (t : Text) : Except Fault (List Note) := (read t : Compilation Float).result

end Ostinato.Score
