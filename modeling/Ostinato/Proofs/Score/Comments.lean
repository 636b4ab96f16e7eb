import Mathlib.Data.List.Basic
import Ostinato.Score.Clause

/-!
  Ostinato.Proofs.Score.Comments: which characters of a text are comments.

  A comment opens at a number sign that starts the text or follows a blank (`OpensAt`), and
  stays open until its line ends (`CommentOpen`). Normalizing writes over the characters that a
  comment is open at, and no others (`blankComments_eq`); every other one is folded in its
  place. Whether a comment is open hangs on the text before it only, so a text put after
  another one is normalized as if it stood alone, unless a comment is open where they meet
  (`normalize_append`).
-/

namespace Ostinato.Score

def OpensAt (t : Text) (i : Nat) : Prop := t[i]? = some '#' ∧ (i = 0 ∨ t[i - 1]?.any Text.isBlank = true)

/-- Whether a comment is open after the first `n` characters: it was opened at one of them, and no
    line has ended since. -/
def CommentOpen (t : Text) (n : Nat) : Prop :=
  ∃ i < n, OpensAt t i ∧ ∀ j < n, i < j → t[j]?.any endsLine = false

instance (t : Text) (i : Nat) : Decidable (OpensAt t i) := inferInstanceAs (Decidable (_ ∧ _))

instance (t : Text) (n : Nat) : Decidable (CommentOpen t n) := inferInstanceAs (Decidable (∃ i < n, _))

variable {t u : Text} {i n : Nat}

theorem not_commentOpen_zero : ¬ CommentOpen t 0 := fun ⟨_, hi, _⟩ => absurd hi (Nat.not_lt_zero _)

/-- A line end closes a comment; another character leaves it open, or opens one. -/
theorem commentOpen_succ :
    CommentOpen t (n + 1) ↔ t[n]?.any endsLine = false ∧ (CommentOpen t n ∨ OpensAt t n) := by
  constructor
  · rintro ⟨i, hi, hopens, hline⟩
    rcases Nat.lt_succ_iff_lt_or_eq.mp hi with hlt | rfl
    · exact ⟨hline n (Nat.lt_succ_self n) hlt, .inl ⟨i, hlt, hopens, fun j hj => hline j (Nat.lt_succ_of_lt hj)⟩⟩
    · exact ⟨by rw [hopens.1]; rfl, .inr hopens⟩
  · rintro ⟨hend, ⟨i, hi, hopens, hline⟩ | hopens⟩
    · refine ⟨i, Nat.lt_succ_of_lt hi, hopens, fun j hj hij => ?_⟩
      rcases Nat.lt_succ_iff_lt_or_eq.mp hj with hlt | rfl
      · exact hline j hlt hij
      · exact hend
    · exact ⟨n, Nat.lt_succ_self n, hopens, fun j hj hij => absurd hij (Nat.not_lt.mpr (Nat.le_of_lt_succ hj))⟩

/-! ## Writing over -/

theorem opensAt_iff (before after : Text) (c : Char) :
    OpensAt (before ++ c :: after) before.length ↔ opensComment before.getLast? c = true := by
  rcases List.eq_nil_or_concat before with rfl | ⟨rest, b, rfl⟩
  · simp [OpensAt, opensComment]
  · simp [OpensAt, opensComment]

/-- What follows some text is written over where a comment is open. -/
theorem blankFrom_eq (before after : Text) :
    blankFrom (decide (CommentOpen (before ++ after) before.length)) before.getLast? after =
      after.mapIdx fun i c => if CommentOpen (before ++ after) (before.length + i + 1) then filler else c := by
  induction after generalizing before with
  | nil => rfl
  | cons c after ih =>
    have hrest := ih (before ++ [c])
    have hopen := commentOpen_succ (t := before ++ c :: after) (n := before.length)
    have hget : (before ++ c :: after)[before.length]? = some c := by simp
    rw [hget, Option.any_some, opensAt_iff] at hopen
    rw [List.append_assoc, List.singleton_append, List.length_append, List.length_singleton,
      List.getLast?_concat] at hrest
    rw [List.mapIdx_cons, blankFrom]
    have hshift : ∀ i, before.length + (i + 1) + 1 = before.length + 1 + i + 1 := fun i => by omega
    simp only [Nat.add_zero, hshift, ← hrest, hopen]
    cases endsLine c
    · by_cases h : CommentOpen (before ++ c :: after) before.length ∨ opensComment before.getLast? c = true
      · simp [h]
      · simp [h]
    · simp

theorem blankComments_eq (t : Text) :
    blankComments t = t.mapIdx fun i c => if CommentOpen t (i + 1) then filler else c := by
  have h := blankFrom_eq [] t
  simpa [blankComments, not_commentOpen_zero] using h

theorem getElem?_normalize (t : Text) (i : Nat) :
    (normalize t)[i]? = t[i]?.map fun c => if CommentOpen t (i + 1) then filler else c.toLower := by
  have hfiller : filler.toLower = filler := by decide
  rw [normalize, blankComments_eq, List.getElem?_map, List.getElem?_mapIdx, Option.map_map]
  congr 1
  funext c
  simp only [Function.comp_apply, apply_ite Char.toLower, hfiller]

/-- A character that is no filler is that of the text there, folded. -/
theorem toLower_of_normalize {c : Char} (h : (normalize t)[i]? = some c) (hc : c ≠ filler) :
    t[i]?.map Char.toLower = some c := by
  rw [getElem?_normalize] at h
  obtain ⟨d, hd, heq⟩ := Option.map_eq_some_iff.mp h
  split at heq
  · exact absurd heq.symm hc
  · rw [hd, Option.map_some, heq]

/-! ## Text after text -/

/-- The text before a place decides whether a comment is open there. -/
theorem commentOpen_append_left (h : n ≤ t.length) : CommentOpen (t ++ u) n ↔ CommentOpen t n := by
  have hget : ∀ i < n, (t ++ u)[i]? = t[i]? := fun i hi => List.getElem?_append_left (by omega)
  have hopens : ∀ i < n, (OpensAt (t ++ u) i ↔ OpensAt t i) := fun i hi => by
    rw [OpensAt, OpensAt, hget i hi, hget (i - 1) (by omega)]
  constructor
  · rintro ⟨i, hi, ho, hline⟩
    exact ⟨i, hi, (hopens i hi).mp ho, fun j hj hij => hget j hj ▸ hline j hj hij⟩
  · rintro ⟨i, hi, ho, hline⟩
    exact ⟨i, hi, (hopens i hi).mpr ho, fun j hj hij => (hget j hj).symm ▸ hline j hj hij⟩

/-- After a text that leaves no comment open another one is read as if alone. -/
theorem commentOpen_append_right (ht : ¬ CommentOpen t t.length) (hu : u.head? ≠ some '#') :
    CommentOpen (t ++ u) (t.length + n) ↔ CommentOpen u n := by
  induction n with
  | zero => exact iff_of_false (mt (commentOpen_append_left (Nat.le_refl _)).mp ht) not_commentOpen_zero
  | succ n ih =>
    have hget : ∀ i, (t ++ u)[t.length + i]? = u[i]? := fun i => by
      rw [List.getElem?_append_right (Nat.le_add_right ..), Nat.add_sub_cancel_left]
    have hopens : OpensAt (t ++ u) (t.length + n) ↔ OpensAt u n := by
      rw [OpensAt, OpensAt, hget]
      cases n with
      | zero => exact iff_of_false (fun h => hu (List.head?_eq_getElem? ▸ h.1)) fun h => hu (List.head?_eq_getElem? ▸ h.1)
      | succ n =>
        rw [show t.length + (n + 1) - 1 = t.length + n from rfl, hget]
        simp
    rw [← Nat.add_assoc, commentOpen_succ, commentOpen_succ, ih, hopens, hget]

theorem normalize_append (ht : ¬ CommentOpen t t.length) (hu : u.head? ≠ some '#') :
    normalize (t ++ u) = normalize t ++ normalize u := by
  unfold normalize
  rw [← List.map_append]
  congr 1
  rw [blankComments_eq, blankComments_eq, blankComments_eq, List.mapIdx_append]
  congr 1
  · refine List.ext_getElem (by simp) fun i h1 h2 => ?_
    have hi : i < t.length := by simpa using h1
    simp [commentOpen_append_left (Nat.succ_le_of_lt hi)]
  · congr 1
    funext i c
    rw [Nat.add_comm i, Nat.add_assoc]
    simp only [commentOpen_append_right ht hu]

end Ostinato.Score
