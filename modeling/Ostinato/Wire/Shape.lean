import Ostinato.Json.Basic

/-!
  Ostinato.Wire.Shape: described types, and a library that writes and reads them as JSON.

  A record is described by the names and types of its fields, a choice by its variants and by
  where their tag stands: the attributes `rename_all`, `tag` and `content` of a declaration.
  The writers and readers that are derived from such a description are not the program's own;
  `Codec` is what the program uses of them.
-/

namespace Ostinato.Wire

/-! ## Names -/

/-- How names are spelled on the wire; `declared` leaves them as they are. -/
inductive Case where
  | declared
  | kebab
  | camel

namespace Case

/-- Words that start with capitals, from words joined by underscores. -/
def capitalized (starts : Bool) : Text → Text
  | [] => []
  | c :: rest =>
    if c = '_' then capitalized true rest
    else (if starts then c.toUpper else c) :: capitalized false rest

def lowerFirst : Text → Text
  | [] => []
  | c :: rest => c.toLower :: rest

/-- Small words joined by dashes, from words that start with capitals. -/
def dashed : Text → Text
  | [] => []
  | c :: rest => c.toLower :: rest.flatMap fun c => if c.isUpper then ['-', c.toLower] else [c]

/-- A field's name, which is declared as words joined by underscores. -/
def field (case : Case) (name : String) : String :=
  match case with
  | declared => name
  | kebab => String.ofList (name.toList.map fun c => if c = '_' then '-' else c)
  | camel => String.ofList (lowerFirst (capitalized true name.toList))

/-- A variant's name, which is declared as words that start with capitals. -/
def variant (case : Case) (name : String) : String :=
  match case with
  | declared => name
  | kebab => String.ofList (dashed name.toList)
  | camel => String.ofList (lowerFirst name.toList)

end Case

/-! ## Types -/

inductive FieldType where
  | text
  /-- Whole numbers of a width that is no more than 64 bits. -/
  | whole (low high : Int) (fits : -9223372036854775808 ≤ low ∧ high < 18446744073709551616)

structure Field where
  name : String
  type : FieldType

structure Record where
  case : Case
  fields : List Field
  distinct : (fields.map fun f => case.field f.name).Nodup

namespace Record

def names (r : Record) : List String := r.fields.map fun f => r.case.field f.name

end Record

/-- A variant with the record that it carries, if any. -/
structure Variant where
  name : String
  record? : Option Record

/-- Where a choice has its tag: beside one member with what the variant carries, or among
the members of the record that it carries. -/
inductive Layout where
  | adjacent (tag content : String)
  | internal (tag : String)

namespace Layout

def tag : Layout → String
  | adjacent tag _ => tag
  | internal tag => tag

/-- The names that a variant's own members must not have. -/
def isApart (v : Variant) : Layout → Bool
  | adjacent tag content => tag != content
  | internal tag => v.record?.all fun r => !r.names.contains tag

end Layout

structure Choice where
  layout : Layout
  case : Case
  variants : List Variant
  distinct : (variants.map fun v => case.variant v.name).Nodup
  apart : ∀ v ∈ variants, layout.isApart v

namespace Choice

def tag (c : Choice) (v : Variant) : String := c.case.variant v.name

end Choice

/-! ## Values -/

inductive Datum where
  | text (t : Text)
  | whole (n : Int)
  deriving DecidableEq

namespace Datum

def tree : Datum → Json
  | text t => .str (String.ofList t)
  | whole n => .int n

end Datum

namespace Record

/-- The members that show the data of a record's fields. -/
def members (r : Record) (data : List Datum) : List (String × Json) := r.names.zip (data.map Datum.tree)

end Record

/-- A value of a choice: its variant and what that carries, in the order of the fields. -/
structure Value where
  variant : String
  data : List Datum
  deriving DecidableEq

/-- A library that reads JSON texts as trees, and writes and reads described values. A text
that is no JSON, or is beyond the library's limits, has no tree. -/
structure Codec where
  tree? : Text → Option Json
  write : Choice → Value → Text
  read? : Choice → Text → Option Value

end Ostinato.Wire
