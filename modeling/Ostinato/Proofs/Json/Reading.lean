import Mathlib.Data.List.Basic
import Mathlib.Tactic.Ring
import Ostinato.Json.Parse

/-!
  Ostinato.Proofs.Json.Reading: what is written is read back.

  Each writer is followed by its reader, with whatever comes after the text: an escaped character
  by one step of the string reader, digits by the readers of a number's parts as long as no
  further digit, point or exponent comes (`Ends`), and a value by `readValue`. Every level of nesting
  writes a character, so the length of a text is as much depth as its value needs.
-/

namespace Ostinato.Json

/-! ## Strings -/

theorem hexValue?_hexDigit {n : ℕ} (h : n < 16) : hexValue? (hexDigit n) = some n := by
  have hall : ∀ n : Fin 16, hexValue? (hexDigit n) = some n.val := by decide
  exact hall ⟨n, h⟩

theorem unit?_control {n : ℕ} (h : n < 32) : unit? '0' '0' (hexDigit (n / 16)) (hexDigit (n % 16)) = some n := by
  have hzero : hexValue? '0' = some 0 := rfl
  have hhigh : hexValue? (hexDigit (n / 16)) = some (n / 16) := hexValue?_hexDigit (by omega)
  have hlow : hexValue? (hexDigit (n % 16)) = some (n % 16) := hexValue?_hexDigit (by omega)
  simp only [unit?, hzero, hhigh, hlow, Option.bind_eq_bind, Option.bind_some, Option.pure_def]
  congr 1
  omega

theorem readString_unit {a b c d ch : Char} (h : (unit? a b c d).bind ofUnit? = some ch) (rest : Text) :
    readString ('\\' :: 'u' :: a :: b :: c :: d :: rest) = consTo ch (readString rest) := by
  rw [readString.eq_def]
  simp only [h]

theorem readString_escape (c : Char) (rest : Text) : readString (escape c ++ rest) = consTo c (readString rest) := by
  by_cases hnamed : c ∈ ['"', '\\', '\x08', '\t', '\n', '\x0c', '\r']
  · simp only [List.mem_cons, List.not_mem_nil, or_false] at hnamed
    rcases hnamed with rfl | rfl | rfl | rfl | rfl | rfl | rfl <;> rfl
  · simp only [List.mem_cons, List.not_mem_nil, or_false, not_or] at hnamed
    obtain ⟨hquote, hslash, hback, htab, hline, hform, hreturn⟩ := hnamed
    rw [escape, if_neg hquote, if_neg hslash, if_neg hback, if_neg htab, if_neg hline, if_neg hform, if_neg hreturn]
    by_cases hcontrol : c.toNat < 32
    · have hchar : ofUnit? c.toNat = some c := by rw [ofUnit?, if_neg (by omega), Char.ofNat_toNat]
      rw [if_pos hcontrol]
      exact readString_unit (by rw [unit?_control hcontrol, Option.bind_some, hchar]) rest
    · rw [if_neg hcontrol]
      simp [readString, hslash, hcontrol]

theorem readString_flatMap (s rest : Text) : readString (s.flatMap escape ++ '"' :: rest) = some (s, rest) := by
  induction s with
  | nil => rfl
  | cons c s ih => rw [List.flatMap_cons, List.append_assoc, readString_escape, ih, consTo]

/-! ## Numbers -/

/-- A text that does not go on with the number before it. -/
def Ends (rest : Text) : Prop := ∀ c ∈ rest.head?, c.isDigit = false ∧ c ≠ '.' ∧ c ≠ 'e' ∧ c ≠ 'E'

theorem isDigit_of_mem_writeNat {n : ℕ} {c : Char} (h : c ∈ writeNat n) : c.isDigit = true :=
  Nat.isDigit_of_mem_toDigits (by decide) (by decide) h

theorem ofDigitChars_writeNat (n : ℕ) : Nat.ofDigitChars 10 (writeNat n) 0 = n :=
  Nat.ofDigitChars_toDigits (by decide) (by decide)

theorem head_writeNat (n : ℕ) : ∃ c digits, writeNat n = c :: digits ∧ c.isDigit = true := by
  obtain ⟨c, digits, h⟩ := List.exists_cons_of_ne_nil (Nat.toDigits_ne_nil (n := n) (b := 10))
  exact ⟨c, digits, h, isDigit_of_mem_writeNat (h ▸ List.mem_cons_self ..)⟩

/-- Only zero is written with a zero in front. -/
theorem head_writeNat_ne_zero {n : ℕ} (h : 0 < n) : (writeNat n).head? ≠ some '0' := by
  induction n using Nat.strongRecOn with
  | _ n ih =>
    rw [writeNat, Nat.toDigits_eq_if (by decide)]
    by_cases hlt : n < 10
    · have hall : ∀ n : Fin 10, 0 < n.val → Nat.digitChar n ≠ '0' := by decide
      rw [if_pos hlt]
      simpa using hall ⟨n, hlt⟩ h
    · rw [if_neg hlt, List.head?_append_of_ne_nil _ Nat.toDigits_ne_nil]
      exact ih (n / 10) (by omega) (by omega)

theorem digitsOf_append {digits rest : Text} (hdigits : ∀ c ∈ digits, c.isDigit = true)
    (hrest : ∀ c ∈ rest.head?, c.isDigit = false) : digitsOf (digits ++ rest) = (digits, rest) := by
  rw [digitsOf, List.takeWhile_append_of_pos hdigits, List.dropWhile_append_of_pos hdigits]
  cases rest with
  | nil => simp
  | cons c rest =>
    simp [hrest c rfl]

theorem digitsOf_writeNat (n : ℕ) {rest : Text} (hrest : ∀ c ∈ rest.head?, c.isDigit = false) :
    digitsOf (writeNat n ++ rest) = (writeNat n, rest) := digitsOf_append (fun _ => isDigit_of_mem_writeNat) hrest

theorem wholePart?_writeNat (n : ℕ) {rest : Text} (hrest : ∀ c ∈ rest.head?, c.isDigit = false) :
    wholePart? (writeNat n ++ rest) = some (writeNat n, rest) := by
  have hdigits := digitsOf_writeNat n hrest
  obtain ⟨c, digits, heq, -⟩ := head_writeNat n
  rw [wholePart?, hdigits, heq]
  by_cases hzero : n = 0
  · subst hzero
    obtain ⟨rfl, rfl⟩ := List.cons.inj heq
    rfl
  · have hhead : c ≠ '0' := by simpa [heq] using head_writeNat_ne_zero (Nat.pos_of_ne_zero hzero)
    split
    · next h => simp at h
    · next h => simp [hhead] at h
    · next h => simp [h]

namespace Ends

variable {rest : Text}

theorem noDigit (h : Ends rest) : ∀ c ∈ rest.head?, c.isDigit = false := fun c hc => (h c hc).1

theorem fraction? (h : Ends rest) : fraction? rest = some (none, rest) := by
  cases rest with
  | nil => rfl
  | cons c rest =>
    obtain ⟨-, hpoint, -, -⟩ := h c rfl
    simp [Json.fraction?, hpoint]

theorem exponent? (h : Ends rest) : exponent? rest = some (none, rest) := by
  cases rest with
  | nil => rfl
  | cons c rest =>
    obtain ⟨-, -, hsmall, hcapital⟩ := h c rfl
    simp [Json.exponent?, hsmall, hcapital]

end Ends

theorem exponentDigits?_writeNat (negative : Bool) (n : ℕ) {rest : Text} (h : Ends rest) :
    exponentDigits? negative (writeNat n ++ rest) = some (some (if negative then -(n : ℤ) else n), rest) := by
  have hdigits := digitsOf_writeNat n h.noDigit
  have hvalue := ofDigitChars_writeNat n
  obtain ⟨c, digits, heq, -⟩ := head_writeNat n
  rw [exponentDigits?, hdigits]
  rw [heq] at hvalue ⊢
  simp [hvalue]

theorem exponent?_writeInt (n : ℤ) {rest : Text} (h : Ends rest) :
    exponent? ('e' :: (writeInt n ++ rest)) = some (some n, rest) := by
  rw [writeInt]
  by_cases hneg : n < 0
  · rw [if_pos hneg, List.cons_append, exponent?, exponentDigits?_writeNat true n.natAbs h, if_pos rfl]
    congr 3
    omega
  · have hdigits := exponentDigits?_writeNat false n.natAbs h
    obtain ⟨c, digits, heq, hc⟩ := head_writeNat n.natAbs
    have hminus : c ≠ '-' := by rintro rfl; cases hc
    have hplus : c ≠ '+' := by rintro rfl; cases hc
    have hunsigned : exponent? ('e' :: (writeNat n.natAbs ++ rest)) =
        exponentDigits? false (writeNat n.natAbs ++ rest) := by
      rw [heq]
      simp [exponent?, hminus, hplus]
    have habs : (n.natAbs : ℤ) = n := by omega
    rw [if_neg hneg, hunsigned, hdigits, if_neg Bool.false_ne_true, habs]

def readUnsigned (negative : Bool) (t : Text) : Option (Json × Text) := do
  let (whole, t) ← wholePart? t
  let (fraction, t) ← fraction? t
  let (exponent, t) ← exponent? t
  return (number negative whole fraction exponent, t)

theorem readNumber_minus (t : Text) : readNumber ('-' :: t) = readUnsigned true t := rfl

theorem readNumber_digit {c : Char} (hc : c.isDigit = true) (t : Text) :
    readNumber (c :: t) = readUnsigned false (c :: t) := by
  have hminus : c ≠ '-' := by rintro rfl; cases hc
  simp [readNumber, readUnsigned, hminus]

theorem readUnsigned_writeNat (negative : Bool) (n : ℕ) {rest : Text} (h : Ends rest) :
    readUnsigned negative (writeNat n ++ rest) = some (number negative (writeNat n) none none, rest) := by
  simp [readUnsigned, wholePart?_writeNat n h.noDigit, h.fraction?, h.exponent?]

theorem readUnsigned_exponent (negative : Bool) (n : ℕ) (e : ℤ) {rest : Text} (h : Ends rest) :
    readUnsigned negative (writeNat n ++ 'e' :: (writeInt e ++ rest)) =
      some (number negative (writeNat n) none (some e), rest) := by
  have hwhole : wholePart? (writeNat n ++ 'e' :: (writeInt e ++ rest)) =
      some (writeNat n, 'e' :: (writeInt e ++ rest)) := wholePart?_writeNat n (by simp)
  have hfraction : fraction? ('e' :: (writeInt e ++ rest)) = some (none, 'e' :: (writeInt e ++ rest)) := rfl
  simp [readUnsigned, hwhole, hfraction, exponent?_writeInt e h]

/-! ## Values -/

mutual

/-- Whole numbers of 64 bits only, at any depth. -/
def Fits : Json → Prop
  | int n => -9223372036854775808 ≤ n ∧ n < 18446744073709551616
  | arr items => FitItems items
  | obj members => FitMembers members
  | _ => True

def FitItems : List Json → Prop
  | [] => True
  | x :: rest => Fits x ∧ FitItems rest

def FitMembers : List (String × Json) → Prop
  | [] => True
  | (_, v) :: rest => Fits v ∧ FitMembers rest

end

theorem readNumber_writeInt {n : ℤ} (hn : Fits (int n)) {rest : Text} (h : Ends rest) :
    readNumber (writeInt n ++ rest) = some (int n, rest) := by
  have hvalue := ofDigitChars_writeNat n.natAbs
  rw [Fits] at hn
  rw [writeInt]
  by_cases hneg : n < 0
  · have hwhole : isWhole true n.natAbs = true := by
      simp only [isWhole, if_true, Bool.and_eq_true, decide_eq_true_eq]
      omega
    have habs : -(n.natAbs : ℤ) = n := by omega
    rw [if_pos hneg, List.cons_append, readNumber_minus, readUnsigned_writeNat true n.natAbs h]
    simp only [number, hvalue, hwhole, if_true, habs]
  · have hwhole : isWhole false n.natAbs = true := by
      simp only [isWhole, Bool.false_eq_true, if_false, decide_eq_true_eq]
      omega
    have habs : (n.natAbs : ℤ) = n := by omega
    have hread := readUnsigned_writeNat false n.natAbs h
    obtain ⟨c, digits, heq, hc⟩ := head_writeNat n.natAbs
    rw [if_neg hneg]
    rw [heq] at hread hvalue ⊢
    rw [List.cons_append, readNumber_digit hc, ← List.cons_append, hread]
    simp only [number, hvalue, hwhole, if_true, Bool.false_eq_true, if_false, habs]

theorem readNumber_writeReal (negative : Bool) (n : ℕ) (e : ℤ) {rest : Text} (h : Ends rest) :
    readNumber (writeReal negative n e ++ rest) = some (real negative n e, rest) := by
  have hvalue := ofDigitChars_writeNat n
  have hnumber : number negative (writeNat n) none (some e) = real negative n e := by simp [number, hvalue]
  have hread := readUnsigned_exponent negative n e h
  rw [hnumber] at hread
  rw [writeReal]
  cases negative with
  | true => simpa [readNumber_minus] using hread
  | false =>
    obtain ⟨c, digits, heq, hc⟩ := head_writeNat n
    rw [heq] at hread ⊢
    simpa [readNumber_digit hc] using hread

/-- A character that a value may start with. -/
def Opens (c : Char) : Prop := isSpace c = false ∧ c ≠ ']'

theorem skip_of_opens {c : Char} (h : isSpace c = false) (t : Text) : skip (c :: t) = c :: t := by
  rw [skip, List.dropWhile_cons_of_neg (by simp [h])]

theorem opens_of_isDigit {c : Char} (h : c.isDigit = true) : Opens c := by
  refine ⟨?_, by rintro rfl; cases h⟩
  refine Bool.eq_false_iff.mpr fun hspace => ?_
  simp only [isSpace, Bool.or_eq_true, beq_iff_eq] at hspace
  rcases hspace with ((rfl | rfl) | rfl) | rfl <;> cases h

theorem head_writeInt (n : ℤ) : ∃ c t, writeInt n = c :: t ∧ (c = '-' ∨ c.isDigit = true) := by
  obtain ⟨c, digits, heq, hc⟩ := head_writeNat n.natAbs
  rw [writeInt]
  by_cases hneg : n < 0
  · exact ⟨'-', _, if_pos hneg, .inl rfl⟩
  · exact ⟨c, digits, by rw [if_neg hneg, heq], .inr hc⟩

theorem head_writeReal (negative : Bool) (n : ℕ) (e : ℤ) :
    ∃ c t, writeReal negative n e = c :: t ∧ (c = '-' ∨ c.isDigit = true) := by
  obtain ⟨c, digits, heq, hc⟩ := head_writeNat n
  cases negative with
  | true => exact ⟨'-', _, rfl, .inl rfl⟩
  | false => exact ⟨c, _, by rw [writeReal, heq]; rfl, .inr hc⟩

theorem opens_of_number {c : Char} (h : c = '-' ∨ c.isDigit = true) : Opens c := by
  rcases h with rfl | h
  · exact ⟨rfl, by decide⟩
  · exact opens_of_isDigit h

theorem head_compact (j : Json) : ∃ c t, compact j = c :: t ∧ Opens c := by
  cases j with
  | null => exact ⟨_, _, by rw [compact]; rfl, rfl, by decide⟩
  | bool b => cases b <;> exact ⟨_, _, by rw [compact]; rfl, rfl, by decide⟩
  | int n =>
    obtain ⟨c, t, heq, hc⟩ := head_writeInt n
    exact ⟨c, t, by rw [compact, heq], opens_of_number hc⟩
  | real negative n e =>
    obtain ⟨c, t, heq, hc⟩ := head_writeReal negative n e
    exact ⟨c, t, by rw [compact, heq], opens_of_number hc⟩
  | str s => exact ⟨_, _, by rw [compact, quote], rfl, by decide⟩
  | arr items => exact ⟨_, _, by rw [compact], rfl, by decide⟩
  | obj members => exact ⟨_, _, by rw [compact], rfl, by decide⟩

theorem readValue_number {t : Text} (h : ∃ c t', t = c :: t' ∧ (c = '-' ∨ c.isDigit = true)) (d : ℕ) (rest : Text) :
    readValue (d + 1) (t ++ rest) = readNumber (t ++ rest) := by
  obtain ⟨c, t, rfl, hc⟩ := h
  have hskip : skip (c :: t ++ rest) = c :: (t ++ rest) := skip_of_opens (opens_of_number hc).1 _
  have hother : ∀ x ∈ ['n', 't', 'f', '"', '[', '\x7b'], c ≠ x := by
    rintro x hx rfl
    rcases hc with rfl | hc
    · simp at hx
    · simp only [List.mem_cons, List.not_mem_nil, or_false] at hx
      rcases hx with rfl | rfl | rfl | rfl | rfl | rfl <;> cases hc
  simp only [List.mem_cons, List.not_mem_nil, or_false, forall_eq_or_imp, forall_eq] at hother
  obtain ⟨hnull, htrue, hfalse, hquote, hbracket, hbrace⟩ := hother
  rw [readValue, hskip]
  split <;> simp_all

theorem ends_of_closes {c : Char} (h : c ∈ [',', ']', '\x7d']) (rest : Text) : Ends (c :: rest) := by
  intro x hx
  obtain rfl : c = x := by simpa using hx
  simp only [List.mem_cons, List.not_mem_nil, or_false] at h
  rcases h with rfl | rfl | rfl <;> decide

theorem ends_nil : Ends [] := by simp [Ends]

theorem compact_length_pos (j : Json) : 0 < (compact j).length := by
  obtain ⟨c, t, heq, -⟩ := head_compact j
  simp [heq]

theorem head_compactItems (x : Json) (items : List Json) :
    ∃ c t, compactItems (x :: items) = c :: t ∧ Opens c := by
  obtain ⟨c, t, heq, hc⟩ := head_compact x
  cases items with
  | nil => exact ⟨c, t, by rw [compactItems, heq], hc⟩
  | cons y items => exact ⟨c, _, by rw [compactItems, heq, List.cons_append], hc⟩

theorem head_compactMembers (m : String × Json) (members : List (String × Json)) :
    ∃ t, compactMembers (m :: members) = '"' :: t := by
  cases members with
  | nil => exact ⟨_, by rw [compactMembers, quote, List.cons_append]⟩
  | cons y members => exact ⟨_, by rw [compactMembers, quote, List.cons_append]⟩

theorem skip_quote (s : String) (rest : Text) :
    skip (quote s ++ rest) = '"' :: (s.toList.flatMap escape ++ '"' :: rest) := by
  rw [quote, List.cons_append, skip_of_opens rfl, List.append_assoc, List.singleton_append]

theorem readMembers_last {d : ℕ} {k : String} {v : Json} {t rest : Text}
    (hread : readValue d t = some (v, '\x7d' :: rest)) :
    readMembers (d + 1) (quote k ++ ':' :: t) = some ([(k, v)], rest) := by
  have hcolon : skip (':' :: t) = ':' :: t := skip_of_opens rfl t
  have hbrace : skip ('\x7d' :: rest) = '\x7d' :: rest := skip_of_opens rfl rest
  rw [readMembers, skip_quote]
  simp only [readString_flatMap, hcolon, hread, hbrace, String.ofList_toList]

theorem readMembers_more {d : ℕ} {k : String} {v : Json} {t rest : Text}
    (hread : readValue d t = some (v, ',' :: rest)) :
    readMembers (d + 1) (quote k ++ ':' :: t) = (readMembers d rest).map fun r => ((k, v) :: r.1, r.2) := by
  have hcolon : skip (':' :: t) = ':' :: t := skip_of_opens rfl t
  have hcomma : skip (',' :: rest) = ',' :: rest := skip_of_opens rfl rest
  rw [readMembers, skip_quote]
  simp only [readString_flatMap, hcolon, hread, hcomma, String.ofList_toList]

-- The recursion is on the value. What a value encloses is written with fewer characters than the
-- value, so the depth that is left is enough for it.
mutual

/-- A written value is read as itself, whatever follows. -/
theorem readValue_compact (j : Json) (d : ℕ) (rest : Text) (hj : Fits j) (h : Ends rest)
    (hd : (compact j).length ≤ d) : readValue d (compact j ++ rest) = some (j, rest) := by
  obtain ⟨d, rfl⟩ : ∃ e, d = e + 1 := ⟨d - 1, by have := compact_length_pos j; omega⟩
  cases j with
  | null => rw [compact]; rfl
  | bool b => cases b <;> rw [compact] <;> rfl
  | int n => rw [compact, readValue_number (head_writeInt n), readNumber_writeInt hj h]
  | real negative n e => rw [compact, readValue_number (head_writeReal negative n e), readNumber_writeReal _ _ _ h]
  | str s =>
    rw [compact, readValue, skip_quote]
    simp only [readString_flatMap, Option.map_some, String.ofList_toList]
  | arr items =>
    cases items with
    | nil => rw [compact, compactItems]; rfl
    | cons x items =>
      obtain ⟨c, t, heq, hspace, hbracket⟩ := head_compactItems x items
      rw [compact, List.length_cons, List.length_append, List.length_singleton] at hd
      have hitems := readItems_compact (x :: items) d rest (by simp) hj (by omega)
      have hskip : skip ('[' :: (c :: t ++ ']' :: rest)) = '[' :: (c :: (t ++ ']' :: rest)) := skip_of_opens rfl _
      have hinner : skip (c :: (t ++ ']' :: rest)) = c :: (t ++ ']' :: rest) := skip_of_opens hspace _
      rw [heq, List.cons_append] at hitems
      rw [compact, List.cons_append, List.append_assoc, List.singleton_append, heq, readValue, hskip]
      simp only [hinner]
      simp [hbracket, hitems]
  | obj members =>
    cases members with
    | nil => rw [compact, compactMembers]; rfl
    | cons m members =>
      obtain ⟨t, heq⟩ := head_compactMembers m members
      rw [compact, List.length_cons, List.length_append, List.length_singleton] at hd
      have hmembers := readMembers_compact (m :: members) d rest (by simp) hj (by omega)
      have hskip : skip ('\x7b' :: ('"' :: t ++ '\x7d' :: rest)) = '\x7b' :: '"' :: (t ++ '\x7d' :: rest) :=
        skip_of_opens rfl _
      have hinner : skip ('"' :: (t ++ '\x7d' :: rest)) = '"' :: (t ++ '\x7d' :: rest) := skip_of_opens rfl _
      rw [heq, List.cons_append] at hmembers
      rw [compact, List.cons_append, List.append_assoc, List.singleton_append, heq, readValue, hskip]
      simp only [hinner]
      simp [hmembers]

theorem readItems_compact (items : List Json) (d : ℕ) (rest : Text) (hsome : items ≠ []) (h : FitItems items)
    (hd : (compactItems items).length + 1 ≤ d) :
    readItems d (compactItems items ++ ']' :: rest) = some (items, rest) := by
  obtain ⟨d, rfl⟩ : ∃ e, d = e + 1 := ⟨d - 1, by omega⟩
  match items with
  | [x] =>
    rw [compactItems] at hd ⊢
    have hread := readValue_compact x d (']' :: rest) h.1 (ends_of_closes (by simp) rest) (by omega)
    have hskip : skip (']' :: rest) = ']' :: rest := skip_of_opens rfl rest
    rw [readItems, hread]
    simp only [hskip]
  | x :: y :: items =>
    rw [compactItems, List.length_append, List.length_cons] at hd
    have hread := readValue_compact x d (',' :: (compactItems (y :: items) ++ ']' :: rest)) h.1
      (ends_of_closes (by simp) _) (by omega)
    have hitems := readItems_compact (y :: items) d rest (by simp) h.2 (by omega)
    have hskip (t : Text) : skip (',' :: t) = ',' :: t := skip_of_opens rfl t
    rw [compactItems, List.append_assoc, List.cons_append, readItems, hread]
    simp only [hskip, hitems, Option.map_some]

theorem readMembers_compact (members : List (String × Json)) (d : ℕ) (rest : Text) (hsome : members ≠ [])
    (h : FitMembers members) (hd : (compactMembers members).length + 1 ≤ d) :
    readMembers d (compactMembers members ++ '\x7d' :: rest) = some (members, rest) := by
  obtain ⟨d, rfl⟩ : ∃ e, d = e + 1 := ⟨d - 1, by omega⟩
  match members with
  | [(k, v)] =>
    rw [compactMembers, List.length_append, List.length_cons] at hd
    have hread := readValue_compact v d ('\x7d' :: rest) h.1 (ends_of_closes (by simp) rest) (by omega)
    rw [compactMembers, List.append_assoc, List.cons_append, readMembers_last hread]
  | (k, v) :: m :: members =>
    rw [compactMembers, List.length_append, List.length_cons, List.length_append, List.length_cons] at hd
    have hread := readValue_compact v d (',' :: (compactMembers (m :: members) ++ '\x7d' :: rest)) h.1
      (ends_of_closes (by simp) _) (by omega)
    have hmembers := readMembers_compact (m :: members) d rest (by simp) h.2 (by omega)
    rw [compactMembers, List.append_assoc, List.cons_append, List.append_assoc, List.cons_append,
      readMembers_more hread, hmembers, Option.map_some]

end

/-- The text of a value within the limits is read as that value. -/
theorem parse_compact {j : Json} (h : Fits j) (hwithin : j.isWithin maxNesting) : parse j.compact = some j := by
  have hread := readValue_compact j (2 * j.compact.length + 2) [] h ends_nil (by omega)
  rw [List.append_nil] at hread
  simp only [parse, hread, hwithin]
  rfl

end Ostinato.Json
