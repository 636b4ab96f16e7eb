import Ostinato.Playback.Event
import Ostinato.Score.Fault
import Ostinato.Wire.Tree

/-!
  Ostinato.Playback.Wire: what `PlaybackEvent`, `Note` and `MmlError` declare of their wire form.

  An event has its tag in `type` beside its note in `note`, a fault has its tag in `kind` among
  its own members. Both are written and read by whatever `Codec` is at hand; `toJson` and
  `ofJson?` go by trees.
-/

namespace Ostinato.Playback

open Score Wire

/-- The numbers of a word without a sign, of a byte, and of half a word with a sign. -/
def word : FieldType := .whole 0 18446744073709551615 (by decide)

def byte : FieldType := .whole 0 255 (by decide)

def signed : FieldType := .whole minPitch maxPitch (by decide)

/-! ## Notes -/

def noteRecord : Wire.Record where
  case := .camel
  fields := [⟨"found_at", word⟩, ⟨"clause", .text⟩, ⟨"track", word⟩, ⟨"volume", byte⟩, ⟨"pitch", signed⟩,
    ⟨"start_time", word⟩, ⟨"duration", word⟩]
  distinct := by decide

def noteData (n : Note) : List Datum :=
  [.whole n.foundAt, .text n.clause, .whole n.track, .whole n.volume, .whole n.pitch, .whole n.start,
    .whole n.duration]

def noteOfData? : List Datum → Option Note
  | [.whole foundAt, .text clause, .whole track, .whole volume, .whole pitch, .whole start, .whole duration] =>
    some {
      foundAt := foundAt.toNat
      clause := clause
      track := track.toNat
      volume := volume.toNat
      pitch := pitch
      start := start.toNat
      duration := duration.toNat }
  | _ => none

def noteToJson (n : Note) : Json := noteRecord.tree (noteData n)

def noteOfJson? (j : Json) : Option Note := (noteRecord.ofTree? j).bind noteOfData?

/-! ## Events -/

namespace Event

def choice : Choice where
  layout := .adjacent "type" "note"
  case := .kebab
  variants := [⟨"NoteOn", some noteRecord⟩, ⟨"NoteOff", some noteRecord⟩, ⟨"End", none⟩]
  distinct := by decide
  apart := by decide

def value : Event → Value
  | noteOn n => ⟨"NoteOn", noteData n⟩
  | noteOff n => ⟨"NoteOff", noteData n⟩
  | finished => ⟨"End", []⟩

def ofValue? (v : Value) : Option Event :=
  if v.variant = "NoteOn" then (noteOfData? v.data).map noteOn
  else if v.variant = "NoteOff" then (noteOfData? v.data).map noteOff
  else if v = ⟨"End", []⟩ then some finished
  else none

def encode (k : Codec) (e : Event) : Text := k.write choice e.value

def decode? (k : Codec) (t : Text) : Option Event := (k.read? choice t).bind ofValue?

def toJson (e : Event) : Json := choice.tree e.value

def ofJson? (j : Json) : Option Event := (choice.ofTree? j).bind ofValue?

end Event

/-! ## Faults -/

def plainFault : Wire.Record where
  case := .declared
  fields := [⟨"clause", .text⟩, ⟨"offset", word⟩]
  distinct := by decide

def reasonedFault : Wire.Record where
  case := .declared
  fields := plainFault.fields ++ [⟨"reason", .text⟩]
  distinct := by decide

def faultChoice : Choice where
  layout := .internal "kind"
  case := .camel
  variants := [⟨"UnknownClause", some plainFault⟩, ⟨"MalformedClause", some plainFault⟩,
    ⟨"InvalidLength", some reasonedFault⟩]
  distinct := by decide
  apart := by decide

def faultValue : Fault → Value
  | .unknownClause clause offset => ⟨"UnknownClause", [.text clause, .whole offset]⟩
  | .malformedClause clause offset => ⟨"MalformedClause", [.text clause, .whole offset]⟩
  | .invalidLength clause offset reason => ⟨"InvalidLength", [.text clause, .whole offset, .text reason.toList]⟩

def faultOfValue? (v : Value) : Option Fault :=
  match v.data with
  | [.text clause, .whole offset] =>
    if v.variant = "UnknownClause" then some (.unknownClause clause offset.toNat)
    else if v.variant = "MalformedClause" then some (.malformedClause clause offset.toNat)
    else none
  | [.text clause, .whole offset, .text reason] =>
    if v.variant = "InvalidLength" then some (.invalidLength clause offset.toNat (String.ofList reason)) else none
  | _ => none

def encodeFault (k : Codec) (f : Fault) : Text := k.write faultChoice (faultValue f)

def decodeFault? (k : Codec) (t : Text) : Option Fault := (k.read? faultChoice t).bind faultOfValue?

def faultToJson (f : Fault) : Json := faultChoice.tree (faultValue f)

def faultOfJson? (j : Json) : Option Fault := (faultChoice.ofTree? j).bind faultOfValue?

end Ostinato.Playback
