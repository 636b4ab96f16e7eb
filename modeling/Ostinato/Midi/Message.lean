import Ostinato.Score.Note

/-!
  Ostinato.Midi.Message: the messages that a MIDI port gets, and their three bytes (`note_on`,
  `note_off`, `panic_all`).
-/

namespace Ostinato.Midi

abbrev Channel := Fin 16

abbrev Key := Fin 128

inductive Message where
  | noteOn (channel : Channel) (key : Key) (velocity : Fin 128)
  | noteOff (channel : Channel) (key : Key)
  /-- Controller 123. -/
  | allNotesOff (channel : Channel)
  deriving DecidableEq, Repr

def Message.bytes : Message → List Nat
  | noteOn c k v => [0x90 + c.val, k.val, v.val]
  | noteOff c k => [0x80 + c.val, k.val, 0]
  | allNotesOff c => [0xB0 + c.val, 123, 0]

/-- All notes off on every channel. -/
def panic : List Message := (List.finRange 16).map .allNotesOff

end Ostinato.Midi
