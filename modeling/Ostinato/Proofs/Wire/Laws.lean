import Mathlib.Data.List.Forall2
import Mathlib.Data.List.Nodup
import Ostinato.Proofs.Json.Reading
import Ostinato.Wire.Tree

/-!
  Ostinato.Proofs.Wire.Laws: what a codec is relied on for.

  `Codec.Documented` has one law for each thing that the documentation of the derived writers
  and readers says: how a unit variant, a variant beside its content and one among its fields are
  written, and which texts are read as one of them. A reader is held to nothing for texts
  without a tree, for tags that are no strings, or for content beside a unit variant.
  - `documented_json`: the codec that goes by trees keeps the laws.
-/

namespace Ostinato

namespace Json

theorem member?_eq_some {name : String} {j v : Json} : j.member? name = some v ↔ j.named name = [v] := by
  rw [member?]
  constructor
  · intro h
    split at h
    · next heq => rw [heq, Option.some.inj h]
    · cases h
  · intro h
    rw [h]

/-- Where no two members share a name each is found by its own. -/
theorem named_of_nodup {members : List (String × Json)} (hnodup : (members.map (·.1)).Nodup) {name : String}
    {v : Json} (h : (name, v) ∈ members) : (obj members).named name = [v] := by
  induction members with
  | nil => cases h
  | cons m members ih =>
    rw [List.map_cons, List.nodup_cons] at hnodup
    obtain ⟨hnotMem, hnodup⟩ := hnodup
    rw [named, List.filter_cons]
    rcases List.mem_cons.mp h with rfl | h
    · have hnone : members.filter (·.1 == name) = [] := by
        rw [List.filter_eq_nil_iff]
        intro other hother hname
        exact hnotMem (List.mem_map.mpr ⟨other, hother, by simpa using hname⟩)
      simp [hnone]
    · have hne : m.1 ≠ name := fun heq => hnotMem (List.mem_map.mpr ⟨(name, v), h, heq.symm⟩)
      simpa [hne, named] using ih hnodup h

end Json

namespace Wire

/-! ## Fields -/

namespace FieldType

/-- What the value of a field may be. -/
def Admits : FieldType → Datum → Prop
  | text, .text _ => True
  | whole low high _, .whole n => low ≤ n ∧ n ≤ high
  | _, _ => False

theorem ofTree?_eq_some {type : FieldType} {j : Json} {d : Datum} :
    type.ofTree? j = some d ↔ j = d.tree ∧ type.Admits d := by
  cases type with
  | text =>
    cases d with
    | text t =>
      cases j <;> simp [ofTree?, Datum.tree, Admits]
      exact ⟨fun h => by rw [← h, String.ofList_toList], fun h => by rw [h, String.toList_ofList]⟩
    | whole n => cases j <;> simp [ofTree?, Admits]
  | whole low high fits =>
    cases d with
    | text t => cases j <;> simp [ofTree?, Admits]
    | whole n =>
      cases j <;> simp [ofTree?, Datum.tree, Admits]
      exact ⟨fun ⟨h, heq⟩ => ⟨heq, heq ▸ h⟩, fun ⟨heq, h⟩ => ⟨heq ▸ h, heq⟩⟩

end FieldType

namespace Datum

theorem fits_tree {type : FieldType} {d : Datum} (h : type.Admits d) : d.tree.Fits := by
  cases d with
  | text t => trivial
  | whole n =>
    cases type with
    | text => cases h
    | whole low high fits =>
      obtain ⟨hlow, hhigh⟩ := h
      exact ⟨by omega, by omega⟩

theorem isWithin_tree (d : Datum) (levels : ℕ) : d.tree.isWithin levels := by
  cases d <;> rfl

end Datum

/-! ## Records -/

namespace Record

def Admits (r : Record) (data : List Datum) : Prop := List.Forall₂ (fun f d => f.type.Admits d) r.fields data

/-- JSON that shows the data of a record: an object with each field as one of its members, or an
array with the fields in order. -/
def Shows (r : Record) (data : List Datum) : Json → Prop
  | .obj members => List.Forall₂
      (fun f d => (Json.obj members).member? (r.case.field f.name) = some d.tree ∧ f.type.Admits d) r.fields data
  | .arr items => items = data.map Datum.tree ∧ r.Admits data
  | _ => False

variable {r : Record} {data : List Datum}

theorem mapM_eq_some {α β : Type} {f : α → Option β} {as : List α} {bs : List β} :
    as.mapM f = some bs ↔ List.Forall₂ (fun a b => f a = some b) as bs := by
  induction as generalizing bs with
  | nil => simp [eq_comm]
  | cons a as ih =>
    simp only [List.mapM_cons, Option.bind_eq_bind, Option.bind_eq_some_iff, Option.pure_def, Option.some.injEq, ih,
      List.forall₂_cons_left_iff]
    constructor
    · rintro ⟨b, hb, rest, hrest, rfl⟩
      exact ⟨b, rest, hb, hrest, rfl⟩
    · rintro ⟨b, rest, hb, hrest, rfl⟩
      exact ⟨b, hb, rest, hrest, rfl⟩

theorem forall₂_zip {items : List Json} {fields : List Field} (hlength : items.length = fields.length) :
    List.Forall₂ (fun p d => p.1.type.ofTree? p.2 = some d) (fields.zip items) data ↔
      items = data.map Datum.tree ∧ List.Forall₂ (fun f d => f.type.Admits d) fields data := by
  induction fields generalizing items data with
  | nil =>
    obtain rfl := List.eq_nil_of_length_eq_zero hlength
    simp
  | cons f fields ih =>
    obtain ⟨j, items, rfl⟩ := List.exists_cons_of_length_eq_add_one hlength
    rw [List.zip_cons_cons]
    cases data with
    | nil => simp
    | cons d data =>
      rw [List.forall₂_cons, List.forall₂_cons, ih (by simpa using hlength), FieldType.ofTree?_eq_some, List.map_cons,
        List.cons.injEq, and_and_and_comm]

theorem ofTree?_eq_some {j : Json} : r.ofTree? j = some data ↔ r.Shows data j := by
  cases j with
  | obj members =>
    rw [ofTree?, Shows, mapM_eq_some]
    simp only [Option.bind_eq_some_iff, FieldType.ofTree?_eq_some]
    refine Iff.of_eq (congrArg (List.Forall₂ · r.fields data) ?_)
    funext f d
    refine propext ⟨?_, ?_⟩
    · rintro ⟨_, hmember, rfl, hadmits⟩
      exact ⟨hmember, hadmits⟩
    · rintro ⟨hmember, hadmits⟩
      exact ⟨_, hmember, rfl, hadmits⟩
  | arr items =>
    rw [ofTree?, Shows]
    split
    · next hlength => rw [mapM_eq_some, forall₂_zip hlength, Admits]
    · next hlength =>
      refine iff_of_false (by simp) ?_
      rintro ⟨rfl, hadmits⟩
      exact hlength (by rw [List.length_map, hadmits.length_eq])
  | _ => simp [ofTree?, Shows]

theorem fst_members (hadmits : r.Admits data) : (r.members data).map (·.1) = r.names := by
  rw [members]
  exact List.map_fst_zip (by rw [names, List.length_map, List.length_map, hadmits.length_eq])

theorem fits_members (hadmits : r.Admits data) : Json.FitMembers (r.members data) := by
  rw [Admits] at hadmits
  rw [members, names]
  generalize r.fields = fields at hadmits
  induction hadmits with
  | nil => trivial
  | cons hd _ ih => exact ⟨Datum.fits_tree hd, ih⟩

theorem membersWithin_members (levels : ℕ) : Json.membersWithin levels (r.members data) := by
  rw [members]
  generalize r.names = names
  induction names generalizing data with
  | nil => rfl
  | cons name names ih =>
    cases data with
    | nil => rfl
    | cons d data => exact Bool.and_eq_true_iff.mpr ⟨d.isWithin_tree levels, ih⟩

/-- An object shows the data of a record by the members that the record writes. -/
theorem shows_obj {members : List (String × Json)} : r.Shows data (.obj members) ↔
    r.Admits data ∧ ∀ m ∈ r.members data, (Json.obj members).member? m.1 = some m.2 := by
  rw [Shows, Admits, Record.members, names]
  generalize r.fields = fields
  induction fields generalizing data with
  | nil => simp
  | cons f fields ih =>
    cases data with
    | nil => simp
    | cons d data =>
      rw [List.forall₂_cons, List.forall₂_cons, ih, List.map_cons, List.map_cons, List.zip_cons_cons,
        List.forall_mem_cons, and_comm (a := _ = _), and_and_and_comm]

theorem shows_members (hadmits : r.Admits data) : r.Shows data (.obj (r.members data)) := by
  refine shows_obj.mpr ⟨hadmits, fun m hm => Json.member?_eq_some.mpr ?_⟩
  exact Json.named_of_nodup (fst_members hadmits ▸ r.distinct) hm

theorem admits_of_shows {j : Json} (h : r.Shows data j) : r.Admits data := by
  cases j with
  | obj members => exact h.imp fun _ _ hf => hf.2
  | arr items => exact h.2
  | _ => cases h

end Record

/-! ## The laws -/

/-- What is documented of the writers and readers of described types. -/
structure Codec.Documented (k : Codec) : Prop where
  -- Under `tag` with `content` the name of the variant stands beside one member for all its fields;
  -- a variant without fields has the tag only.
  writes_unit {c : Choice} {v : Variant} {tag content : String} : c.layout = .adjacent tag content → v ∈ c.variants →
    v.record? = none → k.tree? (k.write c ⟨v.name, []⟩) = some (.obj [(tag, .str (c.tag v))])
  writes_beside {c : Choice} {v : Variant} {tag content : String} {r : Record} {data : List Datum} :
    c.layout = .adjacent tag content → v ∈ c.variants → v.record? = some r → r.Admits data →
    k.tree? (k.write c ⟨v.name, data⟩) = some (.obj [(tag, .str (c.tag v)), (content, .obj (r.members data))])
  -- Under `tag` alone it stands among the fields themselves.
  writes_among {c : Choice} {v : Variant} {tag : String} {r : Record} {data : List Datum} :
    c.layout = .internal tag → v ∈ c.variants → v.record? = some r → r.Admits data →
    k.tree? (k.write c ⟨v.name, data⟩) = some (.obj ((tag, .str (c.tag v)) :: r.members data))
  -- What has other names is passed over; a name that is asked for must not be given twice.
  reads_unit {c : Choice} {v : Variant} {tag content : String} {t : Text} {members : List (String × Json)} :
    c.layout = .adjacent tag content → v ∈ c.variants → v.record? = none → k.tree? t = some (.obj members) →
    (Json.obj members).member? tag = some (.str (c.tag v)) → (Json.obj members).named content = [] →
    k.read? c t = some ⟨v.name, []⟩
  reads_beside {c : Choice} {v : Variant} {tag content : String} {r : Record} {t : Text}
      {members : List (String × Json)} {value : Value} :
    c.layout = .adjacent tag content → v ∈ c.variants → v.record? = some r → k.tree? t = some (.obj members) →
    (Json.obj members).member? tag = some (.str (c.tag v)) →
    (k.read? c t = some value ↔
      ∃ data j, value = ⟨v.name, data⟩ ∧ (Json.obj members).member? content = some j ∧ r.Shows data j)
  reads_among {c : Choice} {v : Variant} {tag : String} {r : Record} {t : Text}
      {members : List (String × Json)} {value : Value} :
    c.layout = .internal tag → v ∈ c.variants → v.record? = some r → k.tree? t = some (.obj members) →
    (Json.obj members).member? tag = some (.str (c.tag v)) →
    (k.read? c t = some value ↔ ∃ data, value = ⟨v.name, data⟩ ∧ r.Shows data (.obj members))

/-! ## A codec that keeps them -/

/-- Among the variants of a choice each is found by its tag, and so by its name. -/
theorem Choice.find?_eq_some {c : Choice} {v : Variant} (h : v ∈ c.variants) {p : Variant → Bool} (hv : p v)
    (hp : ∀ other, p other → c.tag other = c.tag v) : c.variants.find? p = some v := by
  obtain ⟨other, hfind⟩ := Option.isSome_iff_exists.mp (List.find?_isSome.mpr ⟨v, h, hv⟩)
  have htag := hp other (List.find?_some hfind)
  have hsame := List.inj_on_of_nodup_map c.distinct (List.mem_of_find?_eq_some hfind) h htag
  rw [hfind, hsame]

namespace Choice

variable {c : Choice} {v : Variant}

theorem tree_of_mem (h : v ∈ c.variants) (data : List Datum) : c.tree ⟨v.name, data⟩ = c.treeOf v data := by
  have hfind : c.variants.find? (·.name == v.name) = some v := by
    refine find?_eq_some h (by simp) fun other hother => ?_
    rw [tag, tag, beq_iff_eq.mp hother]
  rw [tree, hfind]

theorem variant?_of_mem (h : v ∈ c.variants) : c.variant? (c.tag v) = some v :=
  find?_eq_some h (by simp) fun _ hother => beq_iff_eq.mp hother

theorem ofTree?_beside {tag content : String} {members : List (String × Json)}
    (hlayout : c.layout = .adjacent tag content)
    (hv : v ∈ c.variants) (htag : (Json.obj members).member? tag = some (.str (c.tag v))) :
    c.ofTree? (.obj members) = v.ofContents? ((Json.obj members).named content) := by
  simp [ofTree?, hlayout, htag, tagOf?, variant?_of_mem hv]

theorem ofTree?_among {tag : String} {members : List (String × Json)} (hlayout : c.layout = .internal tag)
    (hv : v ∈ c.variants) (htag : (Json.obj members).member? tag = some (.str (c.tag v))) :
    c.ofTree? (.obj members) = v.ofFields? (.obj members) := by
  simp [ofTree?, hlayout, htag, Json.str?, variant?_of_mem hv]

end Choice

namespace Variant

variable {v : Variant} {r : Record} {value : Value}

theorem map_ofTree?_eq_some {j : Json} :
    (r.ofTree? j).map (⟨v.name, ·⟩) = some value ↔ ∃ data, value = ⟨v.name, data⟩ ∧ r.Shows data j := by
  simp only [Option.map_eq_some_iff, Record.ofTree?_eq_some]
  exact exists_congr fun data => by rw [and_comm, eq_comm]

theorem ofContents?_eq_some (hr : v.record? = some r) {content : String} {j : Json} :
    v.ofContents? (j.named content) = some value ↔
      ∃ data i, value = ⟨v.name, data⟩ ∧ j.member? content = some i ∧ r.Shows data i := by
  simp only [Json.member?_eq_some]
  constructor
  · intro h
    match heq : j.named content with
    | [i] =>
      simp only [heq, ofContents?, hr] at h
      obtain ⟨data, hvalue, hshows⟩ := map_ofTree?_eq_some.mp h
      exact ⟨data, i, hvalue, rfl, hshows⟩
    | [] => simp [heq, ofContents?, hr] at h
    | _ :: _ :: _ => simp [heq, ofContents?, hr] at h
  · rintro ⟨data, i, hvalue, heq, hshows⟩
    simp only [heq, ofContents?, hr]
    exact map_ofTree?_eq_some.mpr ⟨data, hvalue, hshows⟩

end Variant

namespace Codec

theorem tree?_json_compact {j : Json} (h : j.Fits) (hwithin : j.isWithin Json.maxNesting) :
    json.tree? j.compact = some j := Json.parse_compact h hwithin

theorem read?_json {c : Choice} {t : Text} {j : Json} (h : json.tree? t = some j) : json.read? c t = c.ofTree? j := by
  have hparse : Json.parse t = some j := h
  simp only [json, hparse, Option.bind_some]

/-- The codec that goes by trees does what is documented. -/
theorem documented_json : json.Documented where
  writes_unit hlayout hv hr := by
    simp only [json, Choice.tree_of_mem hv, Choice.treeOf, hr, hlayout, Layout.tag]
    exact Json.parse_compact ⟨trivial, trivial⟩ rfl
  writes_beside hlayout hv hr hadmits := by
    simp only [json, Choice.tree_of_mem hv, Choice.treeOf, hr, hlayout, Layout.tag]
    refine Json.parse_compact ⟨trivial, Record.fits_members hadmits, trivial⟩ ?_
    simp [Json.isWithin, Json.membersWithin, Json.maxNesting, Record.tree, Record.membersWithin_members]
  writes_among hlayout hv hr hadmits := by
    simp only [json, Choice.tree_of_mem hv, Choice.treeOf, hr, hlayout, Layout.tag]
    refine Json.parse_compact ⟨trivial, Record.fits_members hadmits⟩ ?_
    simp [Json.isWithin, Json.membersWithin, Json.maxNesting, Record.membersWithin_members]
  reads_unit hlayout hv hr ht htag hcontent := by
    rw [read?_json ht, Choice.ofTree?_beside hlayout hv htag, hcontent]
    simp only [Variant.ofContents?, hr]
  reads_beside hlayout hv hr ht htag := by
    rw [read?_json ht, Choice.ofTree?_beside hlayout hv htag, Variant.ofContents?_eq_some hr]
  reads_among hlayout hv hr ht htag := by
    rw [read?_json ht, Choice.ofTree?_among hlayout hv htag, Variant.ofFields?, hr]
    exact Variant.map_ofTree?_eq_some

end Codec

end Wire

end Ostinato
