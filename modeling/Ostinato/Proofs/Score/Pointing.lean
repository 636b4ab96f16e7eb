import Ostinato.Proofs.Score.Faults
import Ostinato.Proofs.Score.Lines
import Ostinato.Proofs.Score.Normalizing

/-!
  Ostinato.Proofs.Score.Pointing: whether a fault is shown where it is.

  A fault is shown by the line of its offset, with as many carets under it as its clause has
  characters up to its last one that is no blank (`caretsIn_diagnostic`). The clause is what stands
  at the offset, normalized (`stands_of_compile`), and goes on to the next symbol, over line ends
  and comments; of the source one line is shown, up to a newline or a carriage return.

  So the carets point at the clause and stay under the line exactly if no line ends in the clause
  before its last character that is no blank, and no carriage return stands before it on its line
  (`points_at_clause_iff`). A comment on the line after a note is enough for carets that stand
  under nothing (`points_past_the_line`).
-/

namespace Ostinato.Score

/-- The carets on the last line of a drawing. -/
def caretsIn (drawing : String) : Nat := (drawing.toList.rtakeWhile (· != '\n')).count '^'

/-- The line shown for an offset has the character there at its column, and so many carets from
    there on stay under it. -/
structure PointsAt (source : Text) (offset width : Nat) : Prop where
  column : (locate source offset).column - 1 < (locate source offset).lineText.length
  character : (locate source offset).lineText[(locate source offset).column - 1]? = source[offset]?
  underline : (locate source offset).column - 1 + width ≤ (locate source offset).lineText.length

variable {source t : Text} {fault : Fault} {offset width n : Nat} {c : Char}

/-! ## Carets -/

/-- Nothing is opened again in a text that holds no codes. -/
theorem reopen_of_plain (style : Text) (h : '\x1b' ∉ t) : Paint.reopen style t = t := by
  fun_induction Paint.reopen style t with
  | case1 => rfl
  | case2 c cs hreset ih =>
    have hc : c = '\x1b' := by
      have hbegins := List.isPrefixOf_iff_prefix.mp hreset
      exact (List.cons_prefix_cons.mp hbegins).1.symm
    exact absurd (hc ▸ List.mem_cons_self) h
  | case3 c cs _ ih =>
    rw [ih fun hmem => h (List.mem_cons_of_mem c hmem)]

/-- Painting a plain text adds none of the characters that its codes do not have. -/
theorem count_paint (p : Palette) {styles : List Style} {s : String} (h : '\x1b' ∉ s.toList)
    (hopening : c ∉ Paint.escapeCode (String.intercalate ";" (styles.map Style.code))) (hreset : c ∉ Paint.reset) :
    (p.paint styles s).toList.count c = s.toList.count c := by
  cases p with
  | plain => rfl
  | colored =>
    simp only [Palette.paint, reopen_of_plain _ h, String.toList_ofList, List.count_append,
      List.count_eq_zero.mpr hopening, List.count_eq_zero.mpr hreset, Nat.zero_add, Nat.add_zero]

theorem caretsIn_append_line (above last : String) (h : '\n' ∉ last.toList) :
    caretsIn (above ++ "\n" ++ last) = last.toList.count '^' := by
  have hlast : ∀ c ∈ last.toList, c ≠ '\n' := by
    rintro c hc rfl
    exact h hc
  have hsplit : (above ++ "\n" ++ last).toList = above.toList ++ '\n' :: last.toList := by simp
  rw [caretsIn, hsplit, rtakeWhile_append_newline, rtakeWhile_of_no_newline hlast]

@[simp] theorem toList_fill (n : Nat) : (fill n "").toList = List.replicate n ' ' := by
  simp [fill]

/-- As many carets are drawn as the clause has characters up to its last one that is no blank. -/
theorem caretsIn_diagnostic (p : Palette) (source : Text) (fault : Fault) :
    caretsIn (diagnostic p source fault) = max 1 (Text.trimEnd fault.clause).length := by
  have hcarets : ∀ (n width : Nat) (c : Char), (c = '^' ∨ c = '\n') →
      (p.paint [.brightRed] (fill n "" ++ String.ofList (List.replicate width '^'))).toList.count c =
        if c = '^' then width else 0 := by
    intro n width c hc
    rw [count_paint]
    · rcases hc with rfl | rfl <;> simp [List.count_replicate]
    · simp
    · rcases hc with rfl | rfl <;> decide +kernel
    · rcases hc with rfl | rfl <;> decide +kernel
  have hlast : ∀ above pad bar carets : String, above ++ "\n" ++ pad ++ bar ++ carets = above ++ "\n" ++ (pad ++ bar ++ carets) :=
    fun above pad bar carets => by simp only [String.append_assoc]
  unfold diagnostic
  dsimp only
  rw [hlast, caretsIn_append_line]
  · simp [hcarets, List.count_replicate]
  · rw [← List.count_eq_zero]
    simp [hcarets, List.count_replicate]

/-! ## Lines -/

theorem le_length_takeWhile_iff {p : Char → Bool} (hn : n ≤ t.length) :
    n ≤ (t.takeWhile p).length ↔ ∀ c ∈ t.take n, p c = true := by
  have htake : (t.takeWhile p).take n = (t.take n).takeWhile p := List.take_takeWhile
  rw [← List.takeWhile_eq_self_iff]
  constructor
  · intro h
    have hbegins : (t.take n).takeWhile p <+: t.take n := List.takeWhile_prefix p
    refine hbegins.eq_of_length ?_
    rw [← htake, List.length_take, List.length_take]
    omega
  · intro h
    have hlength := congrArg List.length (htake.trans h)
    rw [List.length_take, List.length_take] at hlength
    omega

/-- The line shown for a place reaches so far past it if no line ends in between, and no carriage
    return stands before the place on its line. -/
theorem le_length_lineText_iff (hwidth : offset + width ≤ source.length) :
    (lineBefore source offset).length + width ≤ (locate source offset).lineText.length ↔
      (∀ c ∈ lineBefore source offset, c ≠ '\r') ∧
        ∀ c ∈ (source.drop offset).take width, endsLine c = false := by
  rw [lineText_locate, lineAt, le_length_takeWhile_iff, List.take_length_add_append, List.forall_mem_append]
  · refine and_congr (forall₂_congr fun c hc => ?_) (forall₂_congr fun c _ => ?_)
    · simp [ne_newline_of_mem_lineBefore hc]
    · simp [endsLine]
  · rw [List.length_append, List.length_drop]
    omega

theorem getElem?_lineText (h : (lineBefore source offset).length < (locate source offset).lineText.length) :
    (locate source offset).lineText[(lineBefore source offset).length]? = source[offset]? := by
  have hbegins : (locate source offset).lineText <+: lineBefore source offset ++ source.drop offset := by
    rw [lineText_locate]
    exact List.takeWhile_prefix _
  rw [List.prefix_iff_eq_take.mp hbegins, List.getElem?_take_of_lt h, List.getElem?_append_right (Nat.le_refl _),
    Nat.sub_self, List.getElem?_drop, Nat.add_zero]

/-- Carets from an offset on stay under the line if no line ends in the characters that they stand
    for, and no carriage return stands before the offset on its line. -/
theorem pointsAt_iff (hpos : 0 < width) (hwidth : offset + width ≤ source.length) :
    PointsAt source offset width ↔ (∀ c ∈ lineBefore source offset, c ≠ '\r') ∧
      ∀ c ∈ (source.drop offset).take width, endsLine c = false := by
  have hcolumn : (locate source offset).column - 1 = (lineBefore source offset).length := by
    rw [column_locate (by omega), Nat.add_sub_cancel]
  rw [← le_length_lineText_iff hwidth]
  constructor
  · intro h
    have hwithin := h.underline
    rwa [hcolumn] at hwithin
  · intro hwithin
    have hshown : (lineBefore source offset).length < (locate source offset).lineText.length := by omega
    constructor
    · rwa [hcolumn]
    · rw [hcolumn]
      exact getElem?_lineText hshown
    · rwa [hcolumn]

/-! ## The clause at fault -/

theorem endsLine_of_isAlpha (h : c.isAlpha = true) : endsLine c = false := by
  refine Bool.eq_false_iff.mpr fun hline => ?_
  simp only [endsLine, Bool.or_eq_true, beq_iff_eq] at hline
  rcases hline with rfl | rfl <;> cases h

theorem map_endsLine_normalize (t : Text) : (normalize t).map endsLine = t.map endsLine := by
  refine List.ext_getElem? fun i => ?_
  rw [List.getElem?_map, List.getElem?_map, getElem?_normalize, Option.map_map]
  cases hget : t[i]? with
  | none => rfl
  | some c =>
    rw [Option.map_some, Option.map_some, Function.comp_apply]
    by_cases hopen : CommentOpen t (i + 1)
    · have hline := (commentOpen_succ.mp hopen).1
      rw [hget, Option.any_some] at hline
      rw [if_pos hopen, hline]
      rfl
    · rw [if_neg hopen]
      exact congrArg some (toLower_congr (fun _ => endsLine_of_isAlpha) c)

/-- The clause of a fault is what stands at its offset, normalized, and not all of it is blank. -/
structure Stands (source : Text) (fault : Fault) : Prop where
  clause : fault.clause <+: (normalize source).drop fault.offset
  said : ∃ c ∈ fault.clause, Text.isBlank c = false

theorem isBlank_of_startsNote (h : startsNote c = true) : Text.isBlank c = false := by
  have hmem : c ∈ ['a', 'b', 'c', 'd', 'e', 'f', 'g', 'r'] := by
    simpa [startsNote, List.contains_iff_mem] using h
  fin_cases hmem
  all_goals rfl

theorem stands_of_compile (h : compile source = .error fault) : Stands source fault := by
  have houtcome := outcome_compile source
  rw [h] at houtcome
  cases houtcome with
  | unknown hsaid =>
    obtain ⟨c, hc, hblank, -⟩ := hsaid.said
    exact ⟨List.prefix_rfl, c, hc, hblank⟩
  | @refused i reason hfirst =>
    obtain ⟨c, hget, hnote⟩ := (Option.any_eq_true ..).mp hfirst.holds.starts
    have htext : (clauseAt (normalize source) i).text =
        c :: ((normalize source).drop (i + 1)).takeWhile (!isSymbol ·) := by
      rw [clauseAt, hget]
      rfl
    obtain ⟨hi, hat⟩ := List.getElem?_eq_some_iff.mp hget
    constructor
    · show (clauseAt (normalize source) i).text <+: (normalize source).drop i
      rw [htext, List.drop_eq_getElem_cons hi, hat]
      exact List.cons_prefix_cons.mpr ⟨rfl, List.takeWhile_prefix _⟩
    · refine ⟨c, ?_, isBlank_of_startsNote hnote⟩
      show c ∈ (clauseAt (normalize source) i).text
      rw [htext]
      exact List.mem_cons_self

namespace Stands

theorem trimmed (h : Stands source fault) : 0 < (Text.trimEnd fault.clause).length ∧
    Text.trimEnd fault.clause =
      ((normalize source).drop fault.offset).take (Text.trimEnd fault.clause).length := by
  have hbegins : Text.trimEnd fault.clause <+: fault.clause := List.rdropWhile_prefix ..
  constructor
  · obtain ⟨c, hc, hblank⟩ := h.said
    refine List.length_pos_of_ne_nil fun hnil => ?_
    have hall := List.rdropWhile_eq_nil_iff.mp hnil c hc
    rw [hblank] at hall
    cases hall
  · exact List.prefix_iff_eq_take.mp (hbegins.trans h.clause)

/-- Its last character that is no blank is one of the source. -/
theorem trimmed_le (h : Stands source fault) :
    fault.offset + (Text.trimEnd fault.clause).length ≤ source.length := by
  obtain ⟨hpos, htake⟩ := h.trimmed
  have hlength := congrArg List.length htake
  rw [List.length_take, List.length_drop, length_normalize] at hlength
  omega

theorem endsLine_iff (h : Stands source fault) : (∀ c ∈ Text.trimEnd fault.clause, endsLine c = false) ↔
    ∀ c ∈ (source.drop fault.offset).take (Text.trimEnd fault.clause).length, endsLine c = false := by
  have hmap : ∀ u : Text, (∀ c ∈ u, endsLine c = false) ↔ ∀ b ∈ u.map endsLine, b = false := fun u => by simp
  have htake := congrArg (List.map endsLine) h.trimmed.2
  rw [hmap, hmap, htake, List.map_take, List.map_drop, map_endsLine_normalize, List.map_take, List.map_drop]

end Stands

/-- The drawing of what is wrong with a score does not break off. -/
theorem diagnostic?_of_compile (p : Palette) (h : compile source = .error fault) (hlength : source.length ≤ longest) :
    diagnostic? p source fault = .ok (diagnostic p source fault) := by
  have hle := (stands_of_compile h).trimmed_le
  exact diagnostic?_of_offset_le p (by omega) hlength

/-- Carets drawn for a fault point at its clause and stay under the line shown exactly if no line
    ends in the clause before its last character that is no blank, and no carriage return stands
    before it on its line. -/
theorem points_at_clause_iff (p : Palette) (h : compile source = .error fault) :
    PointsAt source fault.offset (caretsIn (diagnostic p source fault)) ↔
      (∀ c ∈ lineBefore source fault.offset, c ≠ '\r') ∧
        ∀ c ∈ Text.trimEnd fault.clause, endsLine c = false := by
  have hstands := stands_of_compile h
  obtain ⟨hpos, -⟩ := hstands.trimmed
  have hwidth : caretsIn (diagnostic p source fault) = (Text.trimEnd fault.clause).length := by
    rw [caretsIn_diagnostic]
    omega
  rw [hwidth, hstands.endsLine_iff]
  exact pointsAt_iff hpos hstands.trimmed_le

/-- A comment on the line after a note without a length belongs to the note's clause and gives carets
    that stand under nothing. A carriage return before the note leaves it out of the line shown. -/
theorem points_past_the_line :
    let commented : Text := "t120 c0\n# melody\nd".toList
    let returned : Text := "c\rd0".toList
    let atComment : Fault := .invalidLength "c0\n@@@@@@@@\n".toList 5 "length denominator is zero"
    let atReturn : Fault := .invalidLength "d0".toList 2 "length denominator is zero"
    compile commented = .error atComment ∧
      ¬ PointsAt commented 5 (caretsIn (diagnostic .plain commented atComment)) ∧
      compile returned = .error atReturn ∧
      ¬ PointsAt returned 2 (caretsIn (diagnostic .plain returned atReturn)) := by
  intro commented returned atComment atReturn
  have hcommented : compile commented = .error atComment := by decide +kernel
  have hreturned : compile returned = .error atReturn := by decide +kernel
  refine ⟨hcommented, ?_, hreturned, ?_⟩
  · intro hpoints
    have hclause := ((points_at_clause_iff .plain hcommented).mp hpoints).2
    exact absurd (hclause '\n' (by decide)) (by decide)
  · intro hpoints
    have hline := ((points_at_clause_iff .plain hreturned).mp hpoints).1
    exact hline '\r' (by decide) rfl

end Ostinato.Score
