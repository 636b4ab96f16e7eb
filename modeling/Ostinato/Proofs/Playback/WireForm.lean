import Mathlib.Data.Set.Function
import Ostinato.Playback.Wire
import Ostinato.Proofs.Wire.Laws

/-!
  Ostinato.Proofs.Playback.WireForm: what goes over the wire comes back.

  `PlaybackEvent`, `Note` and `MmlError` are written and read by what is derived from their
  declarations, of which no more is known than `Codec.Documented`. An event or a fault whose
  numbers are as wide as their fields (`Storable`) is read from its text as it was written, and
  from every other text with the members that show it (`Shows`), whatever members stand beside
  them. The tag of an event is the name of its variant as `rename_all` spells it, which is `kind`
  (`tag_variant`); a note is refused unless it is `Complete`.
-/

namespace Ostinato.Playback

open Score Wire

/-! ## Numbers -/

theorem admits_text {d : Datum} : FieldType.text.Admits d ↔ ∃ t, d = .text t := by
  cases d <;> simp [FieldType.Admits]

theorem admits_word {d : Datum} : word.Admits d ↔ ∃ n : ℕ, d = .whole n ∧ n ≤ 18446744073709551615 := by
  cases d with
  | text t => simp [word, FieldType.Admits]
  | whole n =>
    simp only [word, FieldType.Admits, Datum.whole.injEq]
    constructor
    · rintro ⟨hlow, hhigh⟩
      exact ⟨n.toNat, by omega, by omega⟩
    · rintro ⟨n, rfl, hn⟩
      omega

theorem admits_byte {d : Datum} : byte.Admits d ↔ ∃ n : ℕ, d = .whole n ∧ n ≤ 255 := by
  cases d with
  | text t => simp [byte, FieldType.Admits]
  | whole n =>
    simp only [byte, FieldType.Admits, Datum.whole.injEq]
    constructor
    · rintro ⟨hlow, hhigh⟩
      exact ⟨n.toNat, by omega, by omega⟩
    · rintro ⟨n, rfl, hn⟩
      omega

theorem admits_signed {d : Datum} : signed.Admits d ↔ ∃ n : ℤ, d = .whole n ∧ -2147483648 ≤ n ∧ n ≤ 2147483647 := by
  cases d <;> simp [signed, FieldType.Admits, minPitch, maxPitch]

/-! ## Notes -/

/-- Every number of a note is as wide as its field. -/
structure Storable (n : Note) : Prop where
  foundAt : n.foundAt ≤ 18446744073709551615
  track : n.track ≤ 18446744073709551615
  volume : n.volume ≤ 255
  lowest : -2147483648 ≤ n.pitch
  highest : n.pitch ≤ 2147483647
  start : n.start ≤ 18446744073709551615
  duration : n.duration ≤ 18446744073709551615

theorem Storable.admits {n : Note} (h : Storable n) : noteRecord.Admits (noteData n) :=
  .cons (admits_word.mpr ⟨_, rfl, h.foundAt⟩) <| .cons (admits_text.mpr ⟨_, rfl⟩) <|
  .cons (admits_word.mpr ⟨_, rfl, h.track⟩) <| .cons (admits_byte.mpr ⟨_, rfl, h.volume⟩) <|
  .cons (admits_signed.mpr ⟨_, rfl, h.lowest, h.highest⟩) <| .cons (admits_word.mpr ⟨_, rfl, h.start⟩) <|
  .cons (admits_word.mpr ⟨_, rfl, h.duration⟩) .nil

theorem exists_noteData {data : List Datum} (h : noteRecord.Admits data) : ∃ n, Storable n ∧ data = noteData n := by
  simp only [Wire.Record.Admits, noteRecord, List.forall₂_cons_left_iff, List.forall₂_nil_left_iff, admits_text,
    admits_word, admits_byte, admits_signed] at h
  obtain ⟨_, _, ⟨foundAt, rfl, hfoundAt⟩, ⟨_, _, ⟨clause, rfl⟩, ⟨_, _, ⟨track, rfl, htrack⟩,
    ⟨_, _, ⟨volume, rfl, hvolume⟩, ⟨_, _, ⟨pitch, rfl, hlowest, hhighest⟩, ⟨_, _, ⟨start, rfl, hstart⟩,
    ⟨_, _, ⟨duration, rfl, hduration⟩, rfl, rfl⟩, rfl⟩, rfl⟩, rfl⟩, rfl⟩, rfl⟩, rfl⟩ := h
  exact ⟨⟨foundAt, clause, track, volume, pitch, start, duration⟩,
    ⟨hfoundAt, htrack, hvolume, hlowest, hhighest, hstart, hduration⟩, rfl⟩

/-- A note's members, by the names that they have on the wire. -/
def noteMembers (n : Note) : List (String × Json) :=
  [("foundAt", .int n.foundAt), ("clause", .str (String.ofList n.clause)), ("track", .int n.track),
    ("volume", .int n.volume), ("pitch", .int n.pitch), ("startTime", .int n.start), ("duration", .int n.duration)]

def noteFields : List String := ["foundAt", "clause", "track", "volume", "pitch", "startTime", "duration"]

/-- The value of a note's field, in an object or in an array with all of them. -/
def noteField? (name : String) : Json → Option Json
  | .obj members => (Json.obj members).member? name
  | .arr items => if items.length = noteFields.length then items[noteFields.idxOf name]? else none
  | _ => none

/-- JSON that has the members of a note; what else it has does not matter. -/
def ShowsNote (n : Note) (j : Json) : Prop := ∀ m ∈ noteMembers n, noteField? m.1 j = some m.2

/-- What the value of a note's field may be. -/
def Suits (name : String) (v : Json) : Prop :=
  if name = "clause" then ∃ s, v = .str s
  else if name = "volume" then ∃ n : ℤ, v = .int n ∧ 0 ≤ n ∧ n ≤ 255
  else if name = "pitch" then ∃ n : ℤ, v = .int n ∧ -2147483648 ≤ n ∧ n ≤ 2147483647
  else ∃ n : ℤ, v = .int n ∧ 0 ≤ n ∧ n ≤ 18446744073709551615

/-- Every field of a note is there, and has a value that it may have. -/
def Complete (j : Json) : Prop := ∀ name ∈ noteFields, ∃ v, noteField? name j = some v ∧ Suits name v

/-- A note is shown by an array only where that has its seven values in order. -/
theorem eq_of_showsNote_arr {n : Note} {items : List Json} (h : ShowsNote n (.arr items)) :
    items = (noteMembers n).map (·.2) := by
  have hlength : items.length = noteFields.length := by
    by_contra hne
    have hfoundAt := h ("foundAt", .int n.foundAt) List.mem_cons_self
    rw [noteField?, if_neg hne] at hfoundAt
    cases hfoundAt
  match items, hlength with
  | [foundAt, clause, track, volume, pitch, start, duration], _ =>
    simp only [ShowsNote, noteMembers, List.forall_mem_cons] at h
    obtain ⟨⟨⟩, ⟨⟩, ⟨⟩, ⟨⟩, ⟨⟩, ⟨⟩, ⟨⟩, -⟩ := h
    rfl

theorem shows_noteData {n : Note} (h : Storable n) (j : Json) :
    noteRecord.Shows (noteData n) j ↔ ShowsNote n j := by
  cases j with
  | obj members => exact Wire.Record.shows_obj.trans (and_iff_right h.admits)
  | arr items =>
    refine (and_iff_left h.admits).trans ⟨?_, eq_of_showsNote_arr⟩
    rintro rfl m hm
    simp only [noteMembers, List.mem_cons, List.not_mem_nil, or_false] at hm
    rcases hm with rfl | rfl | rfl | rfl | rfl | rfl | rfl <;> rfl
  | _ => exact iff_of_false id fun hshows => nomatch hshows _ List.mem_cons_self

theorem suits_count {name : String} (h : name ∉ ["clause", "volume", "pitch"]) {v : Json} :
    Suits name v ↔ ∃ n : ℕ, v = .int n ∧ n ≤ 18446744073709551615 := by
  simp only [List.mem_cons, List.not_mem_nil, or_false, not_or] at h
  obtain ⟨hclause, hvolume, hpitch⟩ := h
  rw [Suits, if_neg hclause, if_neg hvolume, if_neg hpitch]
  constructor
  · rintro ⟨n, rfl, hlow, hhigh⟩
    exact ⟨n.toNat, by rw [Int.toNat_of_nonneg hlow], by omega⟩
  · rintro ⟨n, rfl, hn⟩
    exact ⟨n, rfl, by omega, by omega⟩

theorem suits_volume {v : Json} : Suits "volume" v ↔ ∃ n : ℕ, v = .int n ∧ n ≤ 255 := by
  rw [Suits, if_neg (by decide), if_pos rfl]
  constructor
  · rintro ⟨n, rfl, hlow, hhigh⟩
    exact ⟨n.toNat, by rw [Int.toNat_of_nonneg hlow], by omega⟩
  · rintro ⟨n, rfl, hn⟩
    exact ⟨n, rfl, by omega, by omega⟩

theorem complete_iff {j : Json} : Complete j ↔ ∃ n, Storable n ∧ ShowsNote n j := by
  simp (disch := decide) only [Complete, noteFields, ShowsNote, noteMembers, List.forall_mem_cons, suits_count,
    suits_volume]
  constructor
  · rintro ⟨⟨_, hfoundAt, foundAt, rfl, hfoundAtLe⟩, ⟨_, hclause, clause, rfl⟩, ⟨_, htrack, track, rfl, htrackLe⟩,
      ⟨_, hvolume, volume, rfl, hvolumeLe⟩, ⟨_, hpitch, pitch, rfl, hlowest, hhighest⟩,
      ⟨_, hstart, start, rfl, hstartLe⟩, ⟨_, hduration, duration, rfl, hdurationLe⟩, -⟩
    exact ⟨⟨foundAt, clause.toList, track, volume, pitch, start, duration⟩,
      ⟨hfoundAtLe, htrackLe, hvolumeLe, hlowest, hhighest, hstartLe, hdurationLe⟩,
      hfoundAt, by rwa [String.ofList_toList], htrack, hvolume, hpitch, hstart, hduration, List.forall_mem_nil _⟩
  · rintro ⟨n, ⟨hfoundAtLe, htrackLe, hvolumeLe, hlowest, hhighest, hstartLe, hdurationLe⟩,
      hfoundAt, hclause, htrack, hvolume, hpitch, hstart, hduration, -⟩
    exact ⟨⟨_, hfoundAt, _, rfl, hfoundAtLe⟩, ⟨_, hclause, _, rfl⟩, ⟨_, htrack, _, rfl, htrackLe⟩,
      ⟨_, hvolume, _, rfl, hvolumeLe⟩, ⟨_, hpitch, _, rfl, hlowest, hhighest⟩, ⟨_, hstart, _, rfl, hstartLe⟩,
      ⟨_, hduration, _, rfl, hdurationLe⟩, List.forall_mem_nil _⟩

/-! ## Events -/

namespace Event

/-- The numbers of an event's note, if it has one, are as wide as their fields. -/
def Storable (e : Event) : Prop := ∀ n ∈ e.note?, Playback.Storable n

def members (e : Event) : List (String × Json) :=
  ("type", .str e.kind) :: e.note?.toList.map fun n => ("note", .obj (noteMembers n))

/-- An object that has the members of an event; what else it has does not matter. -/
def Shows (e : Event) (found : List (String × Json)) : Prop :=
  (Json.obj found).member? "type" = some (.str e.kind) ∧
    match e.note? with
    | some n => ∃ note, (Json.obj found).member? "note" = some note ∧ ShowsNote n note
    | none => (Json.obj found).named "note" = []

def variant : Event → Variant
  | noteOn _ => ⟨"NoteOn", some noteRecord⟩
  | noteOff _ => ⟨"NoteOff", some noteRecord⟩
  | finished => ⟨"End", none⟩

theorem variant_mem (e : Event) : e.variant ∈ choice.variants := by
  cases e <;> simp [choice, variant]

/-- The name of an event's variant, as it is spelled on the wire, is the event's kind. -/
theorem tag_variant (e : Event) : choice.tag e.variant = e.kind := by
  have hon : Case.kebab.variant "NoteOn" = "note-on" := rfl
  have hoff : Case.kebab.variant "NoteOff" = "note-off" := rfl
  have hend : Case.kebab.variant "End" = "end" := rfl
  cases e with
  | noteOn n => exact hon
  | noteOff n => exact hoff
  | finished => exact hend

theorem layout_choice : choice.layout = .adjacent "type" "note" := rfl

variable {k : Codec} {e : Event} {t : Text} {found : List (String × Json)}

theorem tree?_encode (hk : k.Documented) (h : Storable e) : k.tree? (encode k e) = some (.obj e.members) := by
  have hmem := variant_mem e
  rw [members, ← tag_variant e]
  cases e with
  | noteOn n => exact hk.writes_beside layout_choice hmem rfl (h n rfl).admits
  | noteOff n => exact hk.writes_beside layout_choice hmem rfl (h n rfl).admits
  | finished => exact hk.writes_unit layout_choice hmem rfl

theorem shows_members (h : Storable e) : e.Shows e.members := by
  have hnote (n : Note) (hn : Playback.Storable n) : ShowsNote n (.obj (noteMembers n)) :=
    (shows_noteData hn _).mp (Wire.Record.shows_members hn.admits)
  cases e with
  | noteOn n => exact ⟨rfl, _, rfl, hnote n (h n rfl)⟩
  | noteOff n => exact ⟨rfl, _, rfl, hnote n (h n rfl)⟩
  | finished => exact ⟨rfl, rfl⟩

/-- Which texts are read as a variant with a note, and with which note. -/
theorem read?_eq_some (hk : k.Documented) {v : Variant} (hv : v ∈ choice.variants) (hr : v.record? = some noteRecord)
    (ht : k.tree? t = some (.obj found)) (htype : (Json.obj found).member? "type" = some (.str (choice.tag v)))
    (value : Value) : k.read? choice t = some value ↔ ∃ n note, value = ⟨v.name, noteData n⟩ ∧ Playback.Storable n ∧
      (Json.obj found).member? "note" = some note ∧ ShowsNote n note := by
  rw [hk.reads_beside layout_choice hv hr ht htype]
  constructor
  · rintro ⟨data, note, rfl, hmember, hshows⟩
    obtain ⟨n, hn, rfl⟩ := exists_noteData (Wire.Record.admits_of_shows hshows)
    exact ⟨n, note, rfl, hn, hmember, (shows_noteData hn note).mp hshows⟩
  · rintro ⟨n, note, rfl, hn, hmember, hshows⟩
    exact ⟨_, note, rfl, hmember, (shows_noteData hn note).mpr hshows⟩

theorem decode?_of_shows (hk : k.Documented) (h : Storable e) (ht : k.tree? t = some (.obj found))
    (hshows : e.Shows found) : decode? k t = some e := by
  have hmem := variant_mem e
  obtain ⟨htype, hnote⟩ := hshows
  rw [← tag_variant e] at htype
  rw [decode?]
  cases e with
  | noteOn n =>
    obtain ⟨note, hmember, hshows⟩ := hnote
    rw [(read?_eq_some hk hmem rfl ht htype _).mpr ⟨n, note, rfl, h n rfl, hmember, hshows⟩]
    rfl
  | noteOff n =>
    obtain ⟨note, hmember, hshows⟩ := hnote
    rw [(read?_eq_some hk hmem rfl ht htype _).mpr ⟨n, note, rfl, h n rfl, hmember, hshows⟩]
    rfl
  | finished =>
    rw [hk.reads_unit layout_choice hmem rfl ht htype hnote]
    rfl

theorem decode?_encode (hk : k.Documented) (h : Storable e) : decode? k (encode k e) = some e :=
  decode?_of_shows hk h (tree?_encode hk h) (shows_members h)

theorem type_of_encode (hk : k.Documented) (h : Storable e) :
    (k.tree? (encode k e)).bind (Json.member? "type") = some (.str e.kind) := by
  rw [tree?_encode hk h]
  exact (shows_members h).1

/-- The kinds of events with a note are those of variants with a note. -/
theorem exists_variant {kind : String} (hkind : kind ∈ ["note-on", "note-off"]) :
    ∃ v ∈ choice.variants, v.record? = some noteRecord ∧ choice.tag v = kind ∧
      ∀ n, (ofValue? ⟨v.name, noteData n⟩).isSome := by
  simp only [List.mem_cons, List.not_mem_nil, or_false] at hkind
  rcases hkind with rfl | rfl
  · exact ⟨⟨"NoteOn", some noteRecord⟩, by simp [choice], rfl, rfl, fun n => rfl⟩
  · exact ⟨⟨"NoteOff", some noteRecord⟩, by simp [choice], rfl, rfl, fun n => rfl⟩

/-- A text that names the kind of an event with a note is read exactly where the note is whole. -/
theorem isSome_decode? (hk : k.Documented) (ht : k.tree? t = some (.obj found)) {kind : String}
    (htype : (Json.obj found).member? "type" = some (.str kind)) (hkind : kind ∈ ["note-on", "note-off"]) :
    (decode? k t).isSome ↔ ∃ note, (Json.obj found).member? "note" = some note ∧ Complete note := by
  -- The codec speaks of variants, the text of kinds; the two are tied by how names are spelled.
  obtain ⟨v, hv, hr, rfl, hevent⟩ := exists_variant hkind
  have hread := read?_eq_some hk hv hr ht htype
  simp only [complete_iff, Option.isSome_iff_exists, decode?, Option.bind_eq_some_iff, hread]
  constructor
  · rintro ⟨e, value, ⟨n, note, rfl, hn, hmember, hshows⟩, -⟩
    exact ⟨note, hmember, n, hn, hshows⟩
  · rintro ⟨note, hmember, n, hn, hshows⟩
    obtain ⟨e, he⟩ := Option.isSome_iff_exists.mp (hevent n)
    exact ⟨e, _, ⟨n, note, rfl, hn, hmember, hshows⟩, he⟩

end Event

/-! ## Faults -/

def faultKind : Fault → String
  | .unknownClause .. => "unknownClause"
  | .malformedClause .. => "malformedClause"
  | .invalidLength .. => "invalidLength"

def faultReason? : Fault → Option String
  | .invalidLength _ _ reason => some reason
  | _ => none

def faultMembers (f : Fault) : List (String × Json) :=
  [("kind", .str (faultKind f)), ("clause", .str (String.ofList f.clause)), ("offset", .int f.offset)]
    ++ (faultReason? f).toList.map fun reason => ("reason", .str reason)

/-- An object that has the members of a fault; what else it has does not matter. -/
def ShowsFault (f : Fault) (found : List (String × Json)) : Prop :=
  ∀ m ∈ faultMembers f, (Json.obj found).member? m.1 = some m.2

def faultRecord : Fault → Wire.Record
  | .invalidLength .. => reasonedFault
  | _ => plainFault

def faultVariant (f : Fault) : Variant := ⟨(faultValue f).variant, some (faultRecord f)⟩

theorem faultVariant_mem (f : Fault) : faultVariant f ∈ faultChoice.variants := by
  cases f <;> simp [faultChoice, faultVariant, faultValue, faultRecord]

theorem tag_faultVariant (f : Fault) : faultChoice.tag (faultVariant f) = faultKind f := by
  have hunknown : Case.camel.variant "UnknownClause" = "unknownClause" := rfl
  have hmalformed : Case.camel.variant "MalformedClause" = "malformedClause" := rfl
  have hinvalid : Case.camel.variant "InvalidLength" = "invalidLength" := rfl
  cases f with
  | unknownClause clause offset => exact hunknown
  | malformedClause clause offset => exact hmalformed
  | invalidLength clause offset reason => exact hinvalid

theorem layout_faultChoice : faultChoice.layout = .internal "kind" := rfl

theorem faultMembers_eq (f : Fault) :
    faultMembers f = ("kind", .str (faultKind f)) :: (faultRecord f).members (faultValue f).data := by
  cases f with
  | invalidLength clause offset reason =>
    have hreason : Json.str reason = (Datum.text reason.toList).tree := by rw [Datum.tree, String.ofList_toList]
    rw [faultMembers, faultReason?, Option.toList_some, List.map_singleton, hreason]
    rfl
  | _ => rfl

theorem faultOfValue?_faultValue (f : Fault) : faultOfValue? (faultValue f) = some f := by
  cases f <;> simp [faultOfValue?, faultValue]

section

variable {k : Codec} {f : Fault} {t : Text} {found : List (String × Json)}

theorem admits_faultValue (h : f.offset ≤ 18446744073709551615) : (faultRecord f).Admits (faultValue f).data := by
  have hoffset := admits_word.mpr ⟨f.offset, rfl, h⟩
  cases f with
  | unknownClause clause offset => exact .cons (admits_text.mpr ⟨clause, rfl⟩) (.cons hoffset .nil)
  | malformedClause clause offset => exact .cons (admits_text.mpr ⟨clause, rfl⟩) (.cons hoffset .nil)
  | invalidLength clause offset reason =>
    exact .cons (admits_text.mpr ⟨clause, rfl⟩) (.cons hoffset (.cons (admits_text.mpr ⟨reason.toList, rfl⟩) .nil))

theorem tree?_encodeFault (hk : k.Documented) (h : f.offset ≤ 18446744073709551615) :
    k.tree? (encodeFault k f) = some (.obj (faultMembers f)) := by
  rw [faultMembers_eq, ← tag_faultVariant]
  exact hk.writes_among layout_faultChoice (faultVariant_mem f) rfl (admits_faultValue h)

theorem showsFault_faultMembers (f : Fault) : ShowsFault f (faultMembers f) := by
  intro m hm
  refine Json.member?_eq_some.mpr (Json.named_of_nodup ?_ hm)
  cases f with
  | invalidLength clause offset reason => exact (by decide : ["kind", "clause", "offset", "reason"].Nodup)
  | _ => exact (by decide : ["kind", "clause", "offset"].Nodup)

theorem decodeFault?_of_shows (hk : k.Documented) (h : f.offset ≤ 18446744073709551615)
    (ht : k.tree? t = some (.obj found)) (hshows : ShowsFault f found) : decodeFault? k t = some f := by
  rw [ShowsFault, faultMembers_eq, List.forall_mem_cons, ← tag_faultVariant] at hshows
  obtain ⟨hkind, hfields⟩ := hshows
  have hread := (hk.reads_among layout_faultChoice (faultVariant_mem f) rfl ht hkind).mpr
    ⟨_, rfl, Wire.Record.shows_obj.mpr ⟨admits_faultValue h, hfields⟩⟩
  rw [decodeFault?, hread]
  exact faultOfValue?_faultValue f

theorem decodeFault?_encodeFault (hk : k.Documented) (h : f.offset ≤ 18446744073709551615) :
    decodeFault? k (encodeFault k f) = some f :=
  decodeFault?_of_shows hk h (tree?_encodeFault hk h) (showsFault_faultMembers f)

end

/-! ## The wire -/

/-- What is read as it was written is written apart from everything else. -/
theorem injOn_of_read {α : Type} {write : α → Text} {read? : Text → Option α} {s : Set α}
    (h : ∀ a ∈ s, read? (write a) = some a) : Set.InjOn write s := by
  intro a ha b hb heq
  have hread := h a ha
  rw [heq, h b hb] at hread
  exact (Option.some.inj hread).symm

open Event in
/-- With any codec that does what is documented, events and faults come back as they were sent, an event under
its kind, and no two of them share a text. They are read from every text that shows them, whatever other members
it has, and a note is refused for any field that is missing or has a value out of its range. -/
theorem wire_form_loses_nothing {k : Codec} (hk : k.Documented) :
    (∀ e : Event, e.Storable → decode? k (encode k e) = some e ∧
      (k.tree? (encode k e)).bind (Json.member? "type") = some (.str e.kind)) ∧
    (∀ f : Fault, f.offset ≤ 18446744073709551615 → decodeFault? k (encodeFault k f) = some f) ∧
    Set.InjOn (encode k) {e | e.Storable} ∧ Set.InjOn (encodeFault k) {f | f.offset ≤ 18446744073709551615} ∧
    ∀ (t : Text) (found : List (String × Json)), k.tree? t = some (.obj found) →
      (∀ e : Event, e.Storable → e.Shows found → decode? k t = some e) ∧
      (∀ f : Fault, f.offset ≤ 18446744073709551615 → ShowsFault f found → decodeFault? k t = some f) ∧
      ∀ kind ∈ ["note-on", "note-off"], (Json.obj found).member? "type" = some (.str kind) →
        ((decode? k t).isSome ↔ ∃ note, (Json.obj found).member? "note" = some note ∧ Complete note) := by
  refine ⟨fun e h => ⟨decode?_encode hk h, type_of_encode hk h⟩, fun f h => decodeFault?_encodeFault hk h,
    injOn_of_read fun e h => decode?_encode hk h, injOn_of_read fun f h => decodeFault?_encodeFault hk h,
    fun t found ht => ⟨fun e h hshows => ?_, fun f h hshows => ?_, fun kind hkind htype => ?_⟩⟩
  · exact decode?_of_shows hk h ht hshows
  · exact decodeFault?_of_shows hk h ht hshows
  · exact isSome_decode? hk ht htype hkind

/-- Every number at the end of its range, and a clause with all that is escaped. -/
def brimful : Note where
  foundAt := 18446744073709551615
  clause := ['c', '"', '\\', '\n', '\x01', '\x7f', '😀']
  track := 18446744073709551615
  volume := 255
  pitch := -2147483648
  start := 18446744073709551615
  duration := 18446744073709551615

/-- The brimful note switched on, out of order and with members that nobody knows. -/
def annotated : List (String × Json) :=
  [("version", .int 2), ("note", .obj (("tie", .bool true) :: noteMembers brimful)), ("type", .str "note-on")]

/-- A note of which there is no more than where it was found. -/
def truncated : List (String × Json) := [("type", .str "note-on"), ("note", .obj [("foundAt", .int 3)])]

open Event in
theorem wire_form_of_brimful :
    decode? .json (encode .json (noteOn brimful)) = some (noteOn brimful) ∧
    decode? .json (Json.obj annotated).compact = some (noteOn brimful) ∧
    (decode? .json (Json.obj truncated).compact).isSome = false := by
  have hbrimful : Storable brimful := by constructor <;> decide
  have hevent : (noteOn brimful).Storable := fun _ hn => Option.some.inj hn ▸ hbrimful
  obtain ⟨hround, -, -, -, htext⟩ := wire_form_loses_nothing Codec.documented_json
  refine ⟨(hround _ hevent).1, ?_, ?_⟩
  · have hmembers : Json.FitMembers (noteMembers brimful) := Wire.Record.fits_members hbrimful.admits
    have hfits : (Json.obj annotated).Fits := ⟨⟨by decide, by decide⟩, ⟨trivial, hmembers⟩, trivial, trivial⟩
    have hshows : ShowsNote brimful (.obj (("tie", .bool true) :: noteMembers brimful)) := fun m hm =>
      Json.member?_eq_some.mpr (Json.named_of_nodup (by decide) (List.mem_cons_of_mem _ hm))
    have htree := Codec.tree?_json_compact hfits rfl
    exact (htext _ annotated htree).1 _ hevent ⟨rfl, _, rfl, hshows⟩
  · have hfits : (Json.obj truncated).Fits := ⟨trivial, ⟨⟨by decide, by decide⟩, trivial⟩, trivial⟩
    have hnote : (Json.obj truncated).member? "note" = some (.obj [("foundAt", .int 3)]) := rfl
    have htree := Codec.tree?_json_compact hfits rfl
    have hread := (htext _ truncated htree).2.2 "note-on" (by decide) rfl
    rw [Bool.eq_false_iff, ne_eq, hread, hnote]
    rintro ⟨note, ⟨⟩, hcomplete⟩
    obtain ⟨v, hclause, -⟩ := hcomplete "clause" (by decide)
    cases hclause

end Ostinato.Playback
