import Ostinato.Text.Joining

/-!
  Ostinato.Text.Cluster: what a reader takes for one character.

  `clusters` cuts a text into extended grapheme clusters, after the rules of Unicode text
  segmentation: a character joins the cluster before it or begins a new one, and the end of
  the cluster so far (`Ending`) is all that decides it. The cutting is the line editor's, not
  the program's; it stands here for what the editor does with a line.
-/

namespace Ostinato.Text

/-- The end of a cluster, as far as it decides which characters still join. -/
inductive Ending where
  | carriageReturn
  | control
  /-- A sign that joins what follows. -/
  | prepend
  | indicator
  | leading | vowel | trailing
  /-- A pictograph, perhaps extended. -/
  | pictograph
  /-- The same and a joiner. -/
  | joinedPictograph
  /-- A consonant, perhaps extended, and whether a linker is among what extends it. -/
  | consonant (linked : Bool)
  | other
  deriving DecidableEq, Repr

/-- The end of a cluster that begins, or after a sign that joins what follows goes on, with a
    character. -/
def Joining.ending : Joining → Ending
  | .carriageReturn => .carriageReturn
  | .lineFeed => .control
  | .control => .control
  | .prepend => .prepend
  | .indicator => .indicator
  | .leading => .leading
  | .vowel => .vowel
  | .openSyllable => .vowel
  | .trailing => .trailing
  | .closedSyllable => .trailing
  | .pictograph => .pictograph
  | .consonant => .consonant false
  | _ => .other

namespace Ending

/-- The end of a cluster after a character that extends it. -/
def extend : Ending → Joining → Ending
  | pictograph, .joiner => joinedPictograph
  | pictograph, .spacing => other
  | pictograph, _ => pictograph
  | consonant _, .linker => consonant true
  | consonant linked, .extender => consonant linked
  | consonant linked, .joiner => consonant linked
  | _, _ => other

/-- The end of a cluster after a character that joins it; none if the character begins a new
    one. -/
def join? : Ending → Joining → Option Ending
  | carriageReturn, .lineFeed => some control
  | carriageReturn, _ => none
  | control, _ => none
  | _, .carriageReturn => none
  | _, .lineFeed => none
  | _, .control => none
  | e, .extender => some (e.extend .extender)
  | e, .linker => some (e.extend .linker)
  | e, .nonJoiner => some (e.extend .nonJoiner)
  | e, .joiner => some (e.extend .joiner)
  | e, .spacing => some (e.extend .spacing)
  | prepend, j => some j.ending
  | leading, .leading => some leading
  | leading, .vowel => some vowel
  | leading, .openSyllable => some vowel
  | leading, .closedSyllable => some trailing
  | vowel, .vowel => some vowel
  | vowel, .trailing => some trailing
  | trailing, .trailing => some trailing
  | indicator, .indicator => some other
  | joinedPictograph, .pictograph => some pictograph
  | consonant true, .consonant => some (consonant false)
  | _, _ => none

end Ending

/-- Cuts the text after a cluster that ends so: what still belongs to it, and the clusters that
    follow. -/
def cutClusters (e : Ending) : Text → Text × List Text
  | [] => ([], [])
  | c :: rest => match e.join? (.ofChar c) with
    | some e =>
      let (more, others) := cutClusters e rest
      (c :: more, others)
    | none =>
      let (more, others) := cutClusters (Joining.ofChar c).ending rest
      ([], (c :: more) :: others)

def clusters (t : Text) : List Text := (cutClusters .control t).2

end Ostinato.Text
