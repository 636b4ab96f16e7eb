import Ostinato.Proofs.Score.Feeding

/-!
  Ostinato.Proofs.Score.Places: where the notes of a score come from.

  Clauses are cut one after another, so each has an offset of its own (`clauses_increase`).
  A clause yields at most one note, which keeps its offset (`foundAt_feed`), so the notes of a
  score come in the order of their clauses and no two are equal (`compile_increases`). A
  score's times are clock readings (`compile_start_le`).
-/

namespace Ostinato.Score

def clausesOf (cs : List (Except Fault Clause)) : List Clause := cs.filterMap Except.toOption

theorem clausesOf_cut (text : Text) (offset : Nat) (cs : List (Except Fault Clause)) :
    clausesOf (Clause.cut text offset :: cs) = clausesOf cs ∨
      clausesOf (Clause.cut text offset :: cs) = ⟨text, offset⟩ :: clausesOf cs := by
  unfold Clause.cut
  split
  · split
    · exact .inr rfl
    · exact .inl rfl
  · exact .inl rfl

theorem clausesFrom_increase (offset : Nat) (t : Text) :
    (clausesOf (clausesFrom offset t)).Pairwise (fun a b => a.offset < b.offset) ∧
      ∀ c ∈ clausesOf (clausesFrom offset t), offset ≤ c.offset := by
  fun_induction clausesFrom offset t with
  | case1 offset => simp [clausesOf]
  | case2 offset c cs rest ih =>
    obtain ⟨hpair, hle⟩ := ih
    have hlater : ∀ x ∈ clausesOf (clausesFrom (offset + 1 + rest.length) (cs.dropWhile (!isSymbol ·))),
        offset < x.offset := fun x hx => by
      have := hle x hx
      omega
    rcases clausesOf_cut (c :: rest) offset _ with h | h
    · rw [h]
      exact ⟨hpair, fun x hx => Nat.le_of_lt (hlater x hx)⟩
    · rw [h]
      refine ⟨List.pairwise_cons.mpr ⟨hlater, hpair⟩, fun x hx => ?_⟩
      rcases List.mem_cons.mp hx with rfl | hx
      · exact Nat.le_refl _
      · exact Nat.le_of_lt (hlater x hx)

theorem clauses_increase (t : Text) : (clausesOf (clauses t)).Pairwise fun a b => a.offset < b.offset := by
  unfold clauses
  split
  · split
    · exact .nil
    · exact List.pairwise_singleton ..
  · exact (clausesFrom_increase ..).1

/-! ## Notes -/

variable {α : Type}

theorem note_withNumber {s : State α} {c : Clause} {number : Option Nat} {read : Nat → Reading α} {n : Note}
    (h : (s.withNumber c number read).note = some n) : ∃ k, (read k).note = some n := by
  cases number with
  | none => cases h
  | some k => exact ⟨k, h⟩

variable [Lengths α]

theorem note_withLength {s : State α} {c : Clause} {finished : State α → α → Reading α} {n : Note}
    (h : (s.withLength c finished).note = some n) : ∃ s' ms, (finished s' ms).note = some n := by
  unfold State.withLength at h
  split at h
  · cases h
  · split at h
    · cases h
    · exact ⟨_, _, h⟩

/-- A note has the offset of its clause, and starts at a reading of the cursor. -/
theorem note_feed {s : State α} {c : Clause} {n : Note} (h : (s.feed c).note = some n) :
    n.foundAt = c.offset ∧ ∃ cursor : α, n.start = Lengths.toMillis cursor := by
  unfold State.feed at h
  split at h
  · cases h
  · obtain ⟨s', ms, h⟩ := note_withLength h
    cases h
    exact ⟨rfl, s'.cursor, rfl⟩
  · obtain ⟨s', ms, h⟩ := note_withLength h
    cases h
  · cases h
  · cases h
  · obtain ⟨k, h⟩ := note_withNumber h
    cases h
  · obtain ⟨k, h⟩ := note_withNumber h
    cases h
  · obtain ⟨k, h⟩ := note_withNumber h
    cases h
  · obtain ⟨k, h⟩ := note_withNumber h
    cases h
  · cases h

/-- A clause's note comes before those of the clauses after it; a fault ends them. -/
theorem notes_feedAll (s : State α) (c : Clause) (cs : List (Except Fault Clause)) :
    (s.feedAll (.ok c :: cs)).notes = (s.feed c).note.toList ∨
      (s.feedAll (.ok c :: cs)).notes = (s.feed c).note.toList ++ ((s.feed c).state.feedAll cs).notes := by
  cases hf : (s.feed c).fault with
  | some fault => exact .inl (by rw [feedAll_ok_of_some _ hf])
  | none => exact .inr (by rw [feedAll_ok_of_none _ hf])

/-- The notes of some clauses come in their order, each from a clause of its own. -/
theorem foundAt_feedAll (s : State α) (cs : List (Except Fault Clause)) :
    ((s.feedAll cs).notes.map (·.foundAt)).Sublist ((clausesOf cs).map (·.offset)) := by
  induction cs generalizing s with
  | nil => exact .slnil
  | cons x cs ih =>
    cases x with
    | error fault => exact List.nil_sublist _
    | ok c =>
      have hnote : ((s.feed c).note.toList.map (·.foundAt)).Sublist [c.offset] := by
        cases hn : (s.feed c).note with
        | none => exact List.nil_sublist _
        | some n =>
          show [n.foundAt].Sublist [c.offset]
          simp only [(note_feed hn).1, List.Sublist.refl]
      show ((s.feedAll (.ok c :: cs)).notes.map (·.foundAt)).Sublist ([c.offset] ++ (clausesOf cs).map (·.offset))
      rcases notes_feedAll s c cs with h | h
      · rw [h]
        exact hnote.trans (List.sublist_append_left ..)
      · rw [h, List.map_append]
        exact hnote.append (ih _)

theorem start_feedAll (s : State α) (cs : List (Except Fault Clause)) :
    ∀ n ∈ (s.feedAll cs).notes, ∃ cursor : α, n.start = Lengths.toMillis cursor := by
  induction cs generalizing s with
  | nil => intro n hn; cases hn
  | cons x cs ih =>
    cases x with
    | error fault => intro n hn; cases hn
    | ok c =>
      have hnote : ∀ n ∈ (s.feed c).note.toList, ∃ cursor : α, n.start = Lengths.toMillis cursor :=
        fun n hn => (note_feed (Option.mem_toList.mp hn)).2
      rcases notes_feedAll s c cs with h | h
      · rw [h]
        exact hnote
      · rw [h]
        intro n hn
        rcases List.mem_append.mp hn with hn | hn
        · exact hnote n hn
        · exact ih _ n hn

/-! ## Scores -/

theorem notes_of_compile {t : Text} {notes : List Note} (h : compile t = .ok notes) :
    notes = ((State.initial : State Float).feedAll (clauses (normalize t))).notes :=
  (result_eq_ok.mp ((compile_eq t).symm.trans h)).2.symm

theorem compile_of_toOption {t : Text} {notes : List Note} (h : (compile t).toOption = some notes) :
    compile t = .ok notes := by
  cases hc : compile t with
  | error fault => rw [hc] at h; cases h
  | ok all => rw [hc] at h; cases h; rfl

/-- The notes of a score come from further and further on in its text. -/
theorem compile_increases {t : Text} {notes : List Note} (h : compile t = .ok notes) :
    notes.Pairwise fun a b => a.foundAt < b.foundAt := by
  have hoffsets : ((clausesOf (clauses (normalize t))).map (·.offset)).Pairwise (· < ·) :=
    List.pairwise_map.mpr (clauses_increase _)
  rw [notes_of_compile h]
  exact List.pairwise_map.mp (hoffsets.sublist (foundAt_feedAll ..))

/-- So no two of them are equal. -/
theorem compile_nodup {t : Text} {notes : List Note} (h : compile t = .ok notes) : notes.Nodup :=
  (compile_increases h).imp fun hlt heq => Nat.ne_of_lt hlt (congrArg Note.foundAt heq)

theorem compile_start_le {t : Text} {notes : List Note} (h : compile t = .ok notes) :
    ∀ n ∈ notes, n.start ≤ maxMillis := by
  intro n hn
  rw [notes_of_compile h] at hn
  obtain ⟨cursor, hc⟩ := start_feedAll _ _ n hn
  rw [hc]
  exact Lengths.readingOf_le cursor

end Ostinato.Score
