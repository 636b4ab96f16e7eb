import Ostinato.Score.Clause

/-!
  Ostinato.Proofs.Score.Numbers: the number that a text holds.

  Digits are put to a number one after another, and after each the number stops at the largest one.
  Once there it stays there, so stopping after every digit comes to stopping after the last
  (`foldl_appendDigit`): the number is what all the digits of the text say, or the largest
  (`number?_eq`). The same holds in words of sixty-four bits, whose product and sum stop at ends of
  their own, far past the largest number (`toNat_numberWord?`), and thirty-two bits hold the result
  (`number_saturates`).
-/

namespace Ostinato.Score

variable {t : Text} {n : Nat}

def digitValue (c : Char) : Nat := c.toNat - '0'.toNat

theorem filterMap_digit? (t : Text) : t.filterMap digit? = (t.filter Char.isDigit).map digitValue := by
  induction t with
  | nil => rfl
  | cons c cs ih =>
    by_cases hc : c.isDigit = true
    · have hdigit : digit? c = some (digitValue c) := if_pos hc
      rw [List.filterMap_cons_some hdigit, List.filter_cons_of_pos hc, List.map_cons, ih]
    · have hother : digit? c = none := if_neg hc
      rw [List.filterMap_cons_none hother, List.filter_cons_of_neg hc, ih]

/-! ## One stop for all digits -/

theorem appendDigit_stopped (n digit : Nat) :
    appendDigit (some (min n maxNumber)) digit = some (min (10 * n + digit) maxNumber) := by
  unfold appendDigit
  rw [Option.getD_some, Option.some_inj]
  omega

/-- Stopping at each of some digits comes to stopping after the last. -/
theorem foldl_appendDigit (ds : Text) (n : Nat) :
    (ds.map digitValue).foldl appendDigit (some (min n maxNumber)) = some (min (Nat.ofDigitChars 10 ds n) maxNumber) := by
  induction ds generalizing n with
  | nil => rfl
  | cons c ds ih =>
    rw [List.map_cons, List.foldl_cons, appendDigit_stopped, ih, Nat.ofDigitChars_cons]
    rfl

theorem le_ofDigitChars (ds : Text) (n : Nat) : n ≤ Nat.ofDigitChars 10 ds n := by
  induction ds generalizing n with
  | nil => exact Nat.le_refl n
  | cons c ds ih =>
    have hfirst := ih (10 * n + digitValue c)
    rw [Nat.ofDigitChars_cons]
    exact Nat.le_trans (by omega) hfirst

theorem number?_append (t u : Text) : number? (t ++ u) = (u.filterMap digit?).foldl appendDigit (number? t) := by
  rw [number?, List.filterMap_append, List.foldl_append, number?]

/-- The number is what all the digits say, or the largest. -/
theorem number?_eq (t : Text) : number? t =
    if t.any Char.isDigit then some (min (Nat.ofDigitChars 10 (t.filter Char.isDigit) 0) maxNumber) else none := by
  rw [number?, filterMap_digit?]
  cases hdigits : t.filter Char.isDigit with
  | nil =>
    have hnone : t.any Char.isDigit = false := by
      rw [List.any_eq_false]
      exact List.filter_eq_nil_iff.mp hdigits
    rw [hnone]
    rfl
  | cons c ds =>
    have hsome : t.any Char.isDigit = true := by
      have hc : c ∈ t.filter Char.isDigit := hdigits ▸ List.mem_cons_self
      exact List.any_eq_true.mpr ⟨c, List.mem_filter.mp hc⟩
    have hzero : appendDigit none (digitValue c) = some (min (digitValue c) maxNumber) := by
      rw [appendDigit, Option.getD_none, Nat.zero_mul, Nat.zero_add]
    rw [if_pos hsome, List.map_cons, List.foldl_cons, hzero, foldl_appendDigit, Nat.ofDigitChars_cons, Nat.mul_zero,
      Nat.zero_add]
    rfl

theorem number?_le (h : number? t = some n) : n ≤ maxNumber := by
  rw [number?_eq] at h
  split at h
  · cases h
    exact Nat.min_le_right ..
  · cases h

/-- At the largest number no digit leads away from it. -/
theorem number?_append_of_eq_max (u : Text) (h : number? t = some maxNumber) : number? (t ++ u) = some maxNumber := by
  have hmax : number? t = some (min maxNumber maxNumber) := by rw [h, Nat.min_self]
  rw [number?_append, hmax, filterMap_digit?, foldl_appendDigit, Nat.min_eq_right (le_ofDigitChars _ _)]

/-! ## In words -/

/-- A number in sixty-four bits, or the largest that they hold. -/
def toWord (n : Nat) : UInt64 := UInt64.ofNat (min n (UInt64.size - 1))

/-- A number with one more digit; the product and the sum are kept in words. -/
def appendDigitWord (n : Option UInt64) (digit : Nat) : Option UInt64 :=
  let tenfold := toWord ((n.getD 0).toNat * 10)
  some (min (toWord (tenfold.toNat + digit)) 4294967295)

/-- The number of a text, kept in a word while it is read. -/
def numberWord? (t : Text) : Option UInt64 := (t.filterMap digit?).foldl appendDigitWord none

theorem toNat_toWord (n : Nat) : (toWord n).toNat = min n (UInt64.size - 1) := by
  rw [toWord, UInt64.toNat_ofNat']
  exact Nat.mod_eq_of_lt (Nat.lt_of_le_of_lt (Nat.min_le_right ..) (by decide))

theorem toNat_min (a b : UInt64) : (min a b).toNat = min a.toNat b.toNat := by
  show (if a ≤ b then a else b).toNat = min a.toNat b.toNat
  split
  · rename_i hle
    exact (Nat.min_eq_left (UInt64.le_iff_toNat_le.mp hle)).symm
  · rename_i hlt
    rw [UInt64.le_iff_toNat_le] at hlt
    omega

/-- The largest number comes long before the end of a word, so words do what numbers without a bound
    do. -/
theorem toNat_appendDigitWord (n : Option UInt64) (digit : Nat) :
    (appendDigitWord n digit).map UInt64.toNat = appendDigit (n.map UInt64.toNat) digit := by
  have hstart : (n.getD 0).toNat = (n.map UInt64.toNat).getD 0 := by cases n <;> rfl
  have hmax : (4294967295 : UInt64).toNat = maxNumber := rfl
  have hlarge : maxNumber ≤ UInt64.size - 1 := by decide
  rw [appendDigitWord, Option.map_some, appendDigit, toNat_min, toNat_toWord, toNat_toWord, hstart, hmax, Option.some_inj]
  omega

theorem toNat_numberWord? (t : Text) : (numberWord? t).map UInt64.toNat = number? t := by
  have hrun : ∀ (ds : List Nat) (n : Option UInt64),
      (ds.foldl appendDigitWord n).map UInt64.toNat = ds.foldl appendDigit (n.map UInt64.toNat) := by
    intro ds
    induction ds with
    | nil => exact fun n => rfl
    | cons d ds ih =>
      intro n
      rw [List.foldl_cons, ih, toNat_appendDigitWord, List.foldl_cons]
  exact hrun (t.filterMap digit?) none

theorem numberWord?_le {v : UInt64} (h : numberWord? t = some v) : v.toNat ≤ maxNumber := by
  refine number?_le (t := t) ?_
  rw [← toNat_numberWord?, h, Option.map_some]

/-- A text without ASCII digits has no number. The number of any other is what all of them say in
    their order, whatever stands between them, or the largest number of thirty-two bits if that is
    less. Kept in a word, it is past that number after no part of the text, so it loses nothing when
    it is cut to thirty-two bits; and once there no further text leads back. -/
theorem number_saturates (t : Text) :
    number? t = (if t.any Char.isDigit then
      some (min (Nat.ofDigitChars 10 (t.filter Char.isDigit) 0) (UInt32.size - 1)) else none) ∧
    (∀ n v, numberWord? (t.take n) = some v → v.toNat ≤ UInt32.size - 1) ∧
    (numberWord? t).map (fun v => v.toUInt32.toNat) = number? t ∧
    ∀ u, number? t = some (UInt32.size - 1) → number? (t ++ u) = some (UInt32.size - 1) := by
  refine ⟨number?_eq t, fun n v h => numberWord?_le h, ?_, fun u h => number?_append_of_eq_max u h⟩
  rw [← toNat_numberWord?]
  cases hword : numberWord? t with
  | none => rfl
  | some v =>
    have hle : v.toNat ≤ 4294967295 := numberWord?_le hword
    rw [Option.map_some, Option.map_some, UInt64.toNat_toUInt32, Nat.mod_eq_of_lt (by omega)]

/-- Digits of other scripts say nothing, and a number past the largest stays there. -/
theorem number_saturates_between_letters :
    let t : Text := "42x9.49\u0663 6-7295".toList
    numberWord? (t.take 20) = some 4294967295 ∧ (4294967295 : UInt64).toNat ≤ UInt32.size - 1 ∧
      number? t = some (UInt32.size - 1) ∧ number? (t ++ "0".toList) = some (UInt32.size - 1) := by
  intro t
  have hrun : numberWord? (t.take 20) = some 4294967295 := by decide +kernel
  have hmax : number? t = some (UInt32.size - 1) := by decide +kernel
  exact ⟨hrun, (number_saturates t).2.1 20 _ hrun, hmax, (number_saturates t).2.2.2 _ hmax⟩

end Ostinato.Score
