import Ostinato.Text.Basic

/-!
  Ostinato.Files.Tree: a file system, as far as it is known; it stands for the one that the
  program runs on.

  Names are looked up one by one, through links, from the working directory or, where a path
  starts with a slash, from the root; the root is its own parent. `Tree.resolve` gives the
  place that a path leads to, without links and without steps back, or why there is none.
  All the links that one look-up goes through count together. An operation on a file takes
  a path of limited length, `Tree.resolve` one of any length.
-/

namespace Ostinato.Files

/-- A place in the tree: the names on the way to it from the root. -/
abbrev Place := List String

inductive Node where
  | directory
  | file (content : ByteArray)
  /-- A link to what a path names. -/
  | link (target : String)

inductive Fault where
  | notFound
  | exists
  | notDirectory
  | isDirectory
  | nameTooLong
  | tooManyLinks
  /-- A name with a zero character. -/
  | zeroInName
  | notText
  deriving DecidableEq, Repr

def Fault.message : Fault → String
  | notFound => "No such file or directory (os error 2)"
  | .exists => "File exists (os error 17)"
  | notDirectory => "Not a directory (os error 20)"
  | isDirectory => "Is a directory (os error 21)"
  | nameTooLong => "File name too long (os error 36)"
  | tooManyLinks => "Too many levels of symbolic links (os error 40)"
  | zeroInName => "file name contained an unexpected NUL byte"
  | notText => "stream did not contain valid UTF-8"

structure Tree where
  /-- The working directory. -/
  home : Place
  nodes : List (Place × Node)

def namesOf (path : String) : List String := path.splitOn "/"

def isAbsolute (path : String) : Bool := path.toList.head? == some '/'

def display (p : Place) : String := "/" ++ "/".intercalate p

/-- The directory that a place is in; the root is in none. -/
def parent? (p : Place) : Option Place := if p.isEmpty then none else some p.dropLast

namespace Tree

/-- The node of a place; what is above the working directory is known to be there. -/
def node? (t : Tree) (p : Place) : Option Node :=
  if p.isPrefixOf t.home then some .directory else (t.nodes.find? (·.1 == p)).map (·.2)

def isDirectory (t : Tree) (p : Place) : Bool :=
  match t.node? p with
  | some .directory => true
  | _ => false

def maxName : Nat := 255

def maxPath : Nat := 4095

def maxLinks : Nat := 40

/-- Where the names of a path are looked up, if it is not absolute `here`. -/
def startOf (path : String) (here : Place) : Place := if isAbsolute path then [] else here

/-- The place that a path names as it is written: without empty names and single dots. -/
def written (t : Tree) (path : String) : Place :=
  startOf path t.home ++ (namesOf path).filter fun n => n != "" && n != "."

/-- Whether a name is the last one, slashes aside, and one that a file can have. -/
def isLast (name : String) (rest : List String) : Bool :=
  name != "" && name != "." && name != ".." && rest.all (· == "")

/-- Follows names from a place, through at most so many links. Where a file is to be made, the
    last name need not be there yet, and no slash may follow it. -/
def follow (t : Tree) (making : Bool) (links : Nat) (p : Place) (names : List String) : Except Fault Place :=
  match names with
  | [] => .ok p
  | name :: rest =>
    if !t.isDirectory p then .error .notDirectory
    else if making && isLast name rest && !rest.isEmpty then .error .isDirectory
    else if name = "" ∨ name = "." then t.follow making links p rest
    else if name = ".." then t.follow making links p.dropLast rest
    else if maxName < name.utf8ByteSize then .error .nameTooLong
    else match t.node? (p ++ [name]) with
      | none => if making && rest.isEmpty then .ok (p ++ [name]) else .error .notFound
      | some (.link target) => match links with
        | 0 => .error .tooManyLinks
        | links + 1 => t.follow making links (startOf target p) (namesOf target ++ rest)
      | some _ => t.follow making links (p ++ [name]) rest
termination_by (links, names.length)

def hasZero (path : String) : Bool := path.toList.contains '\x00'

def resolve (t : Tree) (path : String) : Except Fault Place :=
  if hasZero path then .error .zeroInName
  else if path = "" then .error .notFound
  else t.follow false maxLinks (startOf path t.home) (namesOf path)

/-- Whether an operation on a file takes a path. -/
def checkPath (path : String) : Except Fault Unit :=
  if hasZero path then .error .zeroInName
  else if path = "" then .error .notFound
  else if maxPath < path.utf8ByteSize then .error .nameTooLong
  else .ok ()

def readBytes (t : Tree) (path : String) : Except Fault ByteArray := do
  checkPath path
  match t.node? (← t.resolve path) with
  | some (.file content) => return content
  | some _ => throw .isDirectory
  | none => throw .notFound

def readText (t : Tree) (path : String) : Except Fault Text := do
  match String.fromUTF8? (← t.readBytes path) with
  | some s => return s.toList
  | none => throw .notText

/-! ## Changes -/

def put (t : Tree) (p : Place) (n : Node) : Tree := { t with nodes := t.nodes.filter (·.1 != p) ++ [(p, n)] }

def add (t : Tree) (p : Place) (n : Node) : Tree :=
  let above := ((List.range p.length).map p.take).filter fun q => (t.node? q).isNone
  { t with nodes := t.nodes ++ above.map (·, Node.directory) }.put p n

/-- The directory that the last name of a path is in, that name, and whether a slash follows it. -/
def target (t : Tree) (path : String) : Except Fault (Place × String × Bool) := do
  checkPath path
  let names := (namesOf path).reverse
  let last := names.dropWhile (· == "")
  let p ← t.follow false maxLinks (startOf path t.home) last.tail.reverse
  if t.isDirectory p then return (p, last.headD ".", last.length < names.length) else throw .notDirectory

def isDots (name : String) : Bool := name == "." || name == ".."

/-- Writes the file that a path leads to, and makes it if need be. -/
def write (t : Tree) (path : String) (content : ByteArray) : Except Fault Tree := do
  checkPath path
  let p ← t.follow true maxLinks (startOf path t.home) (namesOf path)
  if t.isDirectory p then throw .isDirectory else return t.put p (.file content)

def remove (t : Tree) (path : String) : Except Fault Tree := do
  let (p, name, slash) ← t.target path
  if isDots name then throw .isDirectory
  if maxName < name.utf8ByteSize then throw .nameTooLong
  match t.node? (p ++ [name]) with
  | none => throw .notFound
  | some .directory => throw .isDirectory
  | some _ =>
    if slash then throw .notDirectory
    else return { t with nodes := t.nodes.filter (·.1 != p ++ [name]) }

def link (t : Tree) (next path : String) : Except Fault Tree := do
  if hasZero next || hasZero path then throw .zeroInName
  checkPath next
  let (p, name, slash) ← t.target path
  if isDots name then throw .exists
  if maxName < name.utf8ByteSize then throw .nameTooLong
  match t.node? (p ++ [name]) with
  | some _ => throw .exists
  | none => if slash then throw .notFound else return t.put (p ++ [name]) (.link next)

end Tree

end Ostinato.Files
