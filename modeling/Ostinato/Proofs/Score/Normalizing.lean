import Mathlib
import Ostinato.Proofs.Score.Comments

/-!
  Ostinato.Proofs.Score.Normalizing: what normalizing makes of a text, place by place.

  A character is one of a comment if a number sign opens one at it or before it and no line ends
  in between (`InComment`). Normalizing writes a filler over these characters and folds the
  others.

  A text whose comments are written over has none left, whatever was written over them and
  whichever case its letters are in (`Overwritten.not_inComment`): a number sign that is left
  follows the character that it followed before, and that one is still no blank. So normalizing
  twice is normalizing once. A line end closes every comment, and the next character can open
  one as the first of a text can, so a text is normalized line by line
  (`blankComments_append_line`).
-/

namespace Ostinato.Score

/-- Whether a character is one of a comment: a number sign at it or before it starts the text or
    follows a blank, and no line ends from there to it. -/
def InComment (t : Text) (i : Nat) : Prop :=
  ∃ j ≤ i, t[j]? = some '#' ∧ (j = 0 ∨ t[j - 1]?.any Text.isBlank = true) ∧
    ∀ k ≤ i, j ≤ k → t[k]? ≠ some '\n' ∧ t[k]? ≠ some '\r'

variable {t u : Text} {i : Nat} {c mark : Char}

theorem any_endsLine_eq_false : t[i]?.any endsLine = false ↔ t[i]? ≠ some '\n' ∧ t[i]? ≠ some '\r' := by
  cases h : t[i]? with
  | none => simp
  | some c => simp [endsLine]

/-- A character is one of a comment if one is open after it. -/
theorem inComment_iff : InComment t i ↔ CommentOpen t (i + 1) := by
  constructor
  · rintro ⟨j, hj, hsign, hbefore, hline⟩
    refine ⟨j, by omega, ⟨hsign, hbefore⟩, fun k hk hjk => ?_⟩
    exact any_endsLine_eq_false.mpr (hline k (by omega) (by omega))
  · rintro ⟨j, hj, ⟨hsign, hbefore⟩, hline⟩
    refine ⟨j, by omega, hsign, hbefore, fun k hk hjk => ?_⟩
    rcases Nat.eq_or_lt_of_le hjk with rfl | hlt
    · rw [hsign]
      exact ⟨by decide, by decide⟩
    · exact any_endsLine_eq_false.mp (hline k (by omega) hlt)

instance (t : Text) (i : Nat) : Decidable (InComment t i) := decidable_of_iff _ inComment_iff.symm

/-! ## Letters in either case -/

/-- What is true of no letter does not hang on the case of letters. -/
theorem toLower_congr {p : Char → Bool} (hp : ∀ d : Char, d.isAlpha = true → p d = false) (c : Char) :
    p c.toLower = p c := by
  by_cases hc : c.isUpper = true
  · have halpha : c.isAlpha = true := by rw [Char.isAlpha, hc, Bool.true_or]
    rw [hp c halpha, hp c.toLower ((Char.isAlpha_toLower_eq_isAlpha c).trans halpha)]
  · rw [Char.toLower_eq_of_not_isUpper hc]

theorem isBlank_toLower (c : Char) : Text.isBlank c.toLower = Text.isBlank c :=
  toLower_congr (fun _ => Text.isBlank_of_isAlpha) c

theorem eq_sign_of_toLower (h : c.toLower = '#') : c = '#' := by
  have hsign := toLower_congr (p := (· == '#')) (fun d hd => by
    by_cases hc : d = '#'
    · rw [hc] at hd
      cases hd
    · simpa using hc) c
  simpa [h] using hsign.symm

/-! ## Comments written over -/

/-- `u` is `t` with `mark` for every character of its comments, and its other letters in either
    case. -/
structure Overwritten (mark : Char) (t u : Text) : Prop where
  length : u.length = t.length
  comment : ∀ i < t.length, InComment t i → u[i]? = some mark
  letter : ∀ i < t.length, ¬ InComment t i → u[i]? ∈ [t[i]?, t[i]?.map Char.toLower, t[i]?.map Char.toUpper]

instance (mark : Char) (t u : Text) : Decidable (Overwritten mark t u) :=
  decidable_of_iff (u.length = t.length ∧ (∀ i < t.length, InComment t i → u[i]? = some mark) ∧
      ∀ i < t.length, ¬ InComment t i → u[i]? ∈ [t[i]?, t[i]?.map Char.toLower, t[i]?.map Char.toUpper])
    ⟨fun ⟨h1, h2, h3⟩ => ⟨h1, h2, h3⟩, fun h => ⟨h.length, h.comment, h.letter⟩⟩

theorem overwritten_normalize (t : Text) : Overwritten filler t (normalize t) where
  length := length_normalize t
  comment i hi h := by
    rw [getElem?_normalize, List.getElem?_eq_getElem hi, Option.map_some, if_pos (inComment_iff.mp h)]
  letter i hi h := by
    rw [getElem?_normalize, List.getElem?_eq_getElem hi]
    simp [mt inComment_iff.mpr h]

namespace Overwritten

/-- Outside comments nothing changes but the case of letters. -/
theorem map_toLower (h : Overwritten mark t u) (hc : ¬ InComment t i) :
    u[i]?.map Char.toLower = t[i]?.map Char.toLower := by
  by_cases hi : i < t.length
  · have hmem := h.letter i hi hc
    rw [List.getElem?_eq_getElem hi] at hmem ⊢
    simp only [Option.map_some, List.mem_cons, List.not_mem_nil, or_false] at hmem
    rcases hmem with hd | hd | hd
    · rw [hd]
    · rw [hd, Option.map_some, Option.map_some, Char.toLower_toLower_eq_toLower]
    · rw [hd, Option.map_some, Option.map_some, Char.toLower_toUpper_eq_toLower]
  · have hlength := h.length
    rw [List.getElem?_eq_none (by omega), List.getElem?_eq_none (by omega)]

theorem not_opensAt (h : Overwritten mark t u) (hmark : mark ≠ '#') : ¬ OpensAt u i := by
  rintro ⟨hsign, hbefore⟩
  have hi : i < t.length := by
    have := (List.getElem?_eq_some_iff.mp hsign).1
    have := h.length
    omega
  have hout : ¬ InComment t i := by
    intro hin
    rw [h.comment i hi hin] at hsign
    exact hmark (Option.some.inj hsign)
  have hfolded := h.map_toLower hout
  rw [hsign, List.getElem?_eq_getElem hi, Option.map_some, Option.map_some] at hfolded
  have hthere : t[i]? = some '#' := by
    rw [List.getElem?_eq_getElem hi, eq_sign_of_toLower (Option.some.inj hfolded).symm]
  -- The sign opened no comment before, so it did not follow a blank.
  have hclosed : ¬ CommentOpen t i ∧ ¬ OpensAt t i := by
    rw [inComment_iff, commentOpen_succ, hthere] at hout
    exact not_or.mp fun hor => hout ⟨rfl, hor⟩
  refine hclosed.2 ⟨hthere, ?_⟩
  rcases Nat.eq_zero_or_pos i with hzero | hpos
  · exact .inl hzero
  · refine .inr ?_
    have hblank := hbefore.resolve_left (by omega)
    obtain ⟨d, hd, hblank⟩ := (Option.any_eq_true ..).mp hblank
    have hprev : ¬ InComment t (i - 1) := by
      rw [inComment_iff, Nat.sub_add_cancel hpos]
      exact hclosed.1
    have hsame := h.map_toLower hprev
    rw [hd, Option.map_some] at hsame
    obtain ⟨e, he, heq⟩ := Option.map_eq_some_iff.mp hsame.symm
    rw [he, Option.any_some, ← isBlank_toLower, heq, isBlank_toLower, hblank]

theorem not_inComment (h : Overwritten mark t u) (hmark : mark ≠ '#') : ¬ InComment u i := by
  rw [inComment_iff]
  rintro ⟨j, -, hopens, -⟩
  exact h.not_opensAt hmark hopens

theorem getElem?_normalize (h : Overwritten mark t u) (hmark : mark ≠ '#') (i : Nat) :
    (normalize u)[i]? = t[i]?.map fun c => if InComment t i then mark.toLower else c.toLower := by
  rw [Score.getElem?_normalize]
  simp only [← inComment_iff, h.not_inComment hmark, if_false]
  by_cases hc : InComment t i
  · simp only [hc, if_true]
    by_cases hi : i < t.length
    · rw [h.comment i hi hc, List.getElem?_eq_getElem hi]
      rfl
    · have hlength := h.length
      rw [List.getElem?_eq_none (by omega), List.getElem?_eq_none (by omega)]
      rfl
  · simp only [hc, if_false]
    exact h.map_toLower hc

end Overwritten

theorem normalize_normalize (t : Text) : normalize (normalize t) = normalize t := by
  refine List.ext_getElem? fun i => ?_
  rw [(overwritten_normalize t).getElem?_normalize (by decide), getElem?_normalize]
  simp only [inComment_iff]
  rfl

/-! ## Line by line -/

/-- The first character of a line can open a comment as that of a text can. -/
theorem blankFrom_line (t : Text) : blankFrom false (some '\n') t = blankComments t := by
  cases t with
  | nil => rfl
  | cons c cs => rfl

theorem blankFrom_append_line (inside : Bool) (before : Option Char) (t u : Text) :
    blankFrom inside before (t ++ '\n' :: u) = blankFrom inside before t ++ '\n' :: blankComments u := by
  induction t generalizing inside before with
  | nil =>
    show '\n' :: blankFrom false (some '\n') u = '\n' :: blankComments u
    rw [blankFrom_line]
  | cons c cs ih =>
    rw [List.cons_append, blankFrom, blankFrom]
    by_cases hline : endsLine c = true
    · rw [if_pos hline, if_pos hline, ih, List.cons_append]
    · rw [if_neg hline, if_neg hline]
      split
      · rw [ih, List.cons_append]
      · rw [ih, List.cons_append]

theorem blankComments_append_line (t u : Text) :
    blankComments (t ++ '\n' :: u) = blankComments t ++ '\n' :: blankComments u :=
  blankFrom_append_line false none t u

/-- Normalizing keeps every character in its place, a filler for those of comments and folded
    elsewhere; so it changes nothing a second time, and each line is read by itself. -/
theorem normalized_place_by_place :
    (∀ t : Text, (normalize t).length = t.length) ∧
    (∀ (t : Text) (i : Nat),
      (normalize t)[i]? = t[i]?.map fun c => if InComment t i then '@' else c.toLower) ∧
    (∀ t : Text, normalize (normalize t) = normalize t) ∧
    ∀ t u : Text, blankComments (t ++ "\n".toList ++ u) = blankComments t ++ "\n".toList ++ blankComments u := by
  refine ⟨length_normalize, fun t i => ?_, normalize_normalize, fun t u => ?_⟩
  · rw [getElem?_normalize]
    simp only [inComment_iff]
    rfl
  · have h := blankComments_append_line t u
    simpa using h

/-- A sign glued to a note, a carriage return, a blank beyond ASCII, and a sign in a comment. -/
example : normalize "C# #x #\r#Y\u00a0#z\n D".toList = "c# @@@@\r@@@@@\n d".toList := by decide

end Ostinato.Score
