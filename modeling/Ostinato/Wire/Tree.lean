import Ostinato.Json.Parse
import Ostinato.Wire.Shape

/-!
  Ostinato.Wire.Tree: a codec that writes and reads described values by their trees.

  Members that are not asked for are passed over; a member that is asked for is there once.
  Where an object of fields is expected, their values may also stand in an array in the order
  of the fields.
-/

namespace Ostinato.Wire

/-! ## Writing -/

namespace Record

def tree (r : Record) (data : List Datum) : Json := .obj (r.members data)

end Record

namespace Choice

/-- What is written of a variant with its data. -/
def treeOf (c : Choice) (v : Variant) (data : List Datum) : Json :=
  let tag : String × Json := (c.layout.tag, .str (c.tag v))
  match v.record?, c.layout with
  | none, _ => .obj [tag]
  | some r, .adjacent _ content => .obj [tag, (content, r.tree data)]
  | some r, .internal _ => .obj (tag :: r.members data)

def tree (c : Choice) (v : Value) : Json :=
  match c.variants.find? (·.name == v.variant) with
  | some variant => c.treeOf variant v.data
  | none => .null

end Choice

/-! ## Reading -/

namespace FieldType

def ofTree? : FieldType → Json → Option Datum
  | text, .str s => some (.text s.toList)
  | whole low high _, .int n => if low ≤ n ∧ n ≤ high then some (.whole n) else none
  | _, _ => none

end FieldType

namespace Record

def ofTree? (r : Record) : Json → Option (List Datum)
  | .obj members => r.fields.mapM fun f => ((Json.obj members).member? (r.case.field f.name)).bind f.type.ofTree?
  | .arr items =>
    if items.length = r.fields.length then (r.fields.zip items).mapM fun p => p.1.type.ofTree? p.2 else none
  | _ => none

end Record

namespace Variant

/-- A value from what stands beside its tag. -/
def ofContents? (v : Variant) (contents : List Json) : Option Value :=
  match v.record?, contents with
  | some r, [j] => (r.ofTree? j).map (⟨v.name, ·⟩)
  | none, [] => some ⟨v.name, []⟩
  | none, [.null] => some ⟨v.name, []⟩
  | _, _ => none

/-- A value from what its tag stands among. -/
def ofFields? (v : Variant) (j : Json) : Option Value :=
  match v.record? with
  | some r => (r.ofTree? j).map (⟨v.name, ·⟩)
  | none => some ⟨v.name, []⟩

end Variant

namespace Choice

def variant? (c : Choice) (tag : String) : Option Variant := c.variants.find? (c.tag · == tag)

/-- A tag beside its content is a text, or the name of the one member, null, of an object. -/
def tagOf? : Json → Option String
  | .str tag => some tag
  | .obj [(tag, .null)] => some tag
  | _ => none

def ofTree? (c : Choice) (j : Json) : Option Value :=
  match c.layout, j with
  | .adjacent tag content, .obj _ => do
    let v ← c.variant? (← tagOf? (← j.member? tag))
    v.ofContents? (j.named content)
  | .adjacent .., .arr [tag, content] => do
    let v ← c.variant? (← tagOf? tag)
    v.ofContents? [content]
  | .internal tag, .obj _ => do
    let v ← c.variant? (← (← j.member? tag).str?)
    v.ofFields? j
  | .internal _, .arr (tag :: items) => do
    let v ← c.variant? (← tag.str?)
    v.ofFields? (.arr items)
  | _, _ => none

end Choice

namespace Codec

def json : Codec where
  tree? := Json.parse
  write c v := (c.tree v).compact
  read? c t := (Json.parse t).bind c.ofTree?

end Codec

end Ostinato.Wire
