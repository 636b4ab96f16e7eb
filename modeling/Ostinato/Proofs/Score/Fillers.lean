import Mathlib.Data.List.Forall2
import Ostinato.Proofs.Score.Cutting
import Ostinato.Proofs.Score.Labels
import Ostinato.Proofs.Score.Normalizing

/-!
  Ostinato.Proofs.Score.Fillers: comments and the case of letters say nothing.

  A comment stays in the text as fillers, inside the clause that it follows. No part of the
  notation tells a filler from a space (`SaysSame`): neither is a symbol, a digit or a modifier,
  and a text of both says nothing. So two texts that differ in these alone are cut at the same
  places (`startsAt_congr`) into clauses that read the same (`readsSame_clauseAt`), and what comes
  of them differs in the texts of clauses only. Such are a text and the same text with spaces for
  its comments and other letters in either case, once they are normalized (`Overwritten.saysSame`).
-/

namespace Ostinato.Score

/-- The same character, or a space for a filler. -/
def SaysSame (a b : Char) : Prop := b = a ∨ (a = filler ∧ b = ' ')

/-- Clauses at one offset that say the same. -/
structure Clause.SaysSame (c c' : Clause) : Prop where
  text : List.Forall₂ Score.SaysSame c.text c'.text
  offset : c'.offset = c.offset

/-- Notes equal in every field, but for fillers in their clauses. -/
structure Note.SaysSame (a b : Note) : Prop where
  clause : List.Forall₂ Score.SaysSame a.clause b.clause
  others : b = { a with clause := b.clause }

/-- Two scores both have notes, which are equal but for fillers, or both the same fault at the same
    offset and for the same reason. -/
inductive SameOutcome : Except Fault (List Note) → Except Fault (List Note) → Prop
  | notes {notes notes' : List Note} : List.Forall₂ Note.SaysSame notes notes' → SameOutcome (.ok notes) (.ok notes')
  | unknown {clause clause' : Text} {offset : Nat} :
      SameOutcome (.error (.unknownClause clause offset)) (.error (.unknownClause clause' offset))
  | malformed {clause clause' : Text} {offset : Nat} :
      SameOutcome (.error (.malformedClause clause offset)) (.error (.malformedClause clause' offset))
  | lengthless {clause clause' : Text} {offset : Nat} {reason : String} :
      SameOutcome (.error (.invalidLength clause offset reason)) (.error (.invalidLength clause' offset reason))

variable {t u : Text} {i : Nat}

/-! ## Characters -/

theorem SaysSame.congr {β : Type} {f : Char → β} (hf : f ' ' = f filler) {a b : Char} (h : SaysSame a b) : f b = f a := by
  rcases h with rfl | ⟨rfl, rfl⟩
  · rfl
  · exact hf

/-- What takes a space for a filler takes two such texts for one. -/
theorem map_congr_fillers {β : Type} {f : Char → β} (hf : f ' ' = f filler) (h : List.Forall₂ SaysSame t u) :
    u.map f = t.map f := by
  induction h with
  | nil => rfl
  | cons hab _ ih => rw [List.map_cons, List.map_cons, hab.congr hf, ih]

theorem contains_congr_fillers {c : Char} (hspace : c ≠ ' ') (hfiller : c ≠ filler) (h : List.Forall₂ SaysSame t u) :
    u.contains c = t.contains c := by
  have hmap := map_congr_fillers (f := (c == ·)) (by simp [hspace, hfiller]) h
  have hany : ∀ l : Text, l.contains c = (l.map (c == ·)).any id := fun l => by
    rw [List.contains_eq_any_beq, List.any_map]
    rfl
  rw [hany, hany, hmap]

theorem modifiers_congr_fillers (h : List.Forall₂ SaysSame t u) : Modifiers.ofText u = Modifiers.ofText t := by
  have hdigits : u.filterMap digit? = t.filterMap digit? := by
    have hmap := congrArg (List.filterMap id) (map_congr_fillers (f := digit?) rfl h)
    simpa only [List.filterMap_map, Function.id_comp] using hmap
  have hdots : u.count '.' = t.count '.' := by
    have hmap := congrArg (List.count true) (map_congr_fillers (f := (· == '.')) rfl h)
    simpa only [List.count, List.countP_map, Function.comp_def, beq_true] using hmap
  rw [Modifiers.ofText, Modifiers.ofText, number?, number?, hdigits, hdots,
    contains_congr_fillers (by decide) (by decide) h, contains_congr_fillers (by decide) (by decide) h,
    contains_congr_fillers (by decide) (by decide) h, contains_congr_fillers (by decide) (by decide) h]

theorem all_congr_fillers {p : Char → Bool} (hp : p ' ' = p filler) (h : List.Forall₂ SaysSame t u) :
    u.all p = t.all p := by
  have hmap := congrArg (List.all · id) (map_congr_fillers hp h)
  simpa only [List.all_map, Function.id_comp] using hmap

theorem takeWhile_congr_fillers {p : Char → Bool} (hp : p ' ' = p filler) (h : List.Forall₂ SaysSame t u) :
    List.Forall₂ SaysSame (t.takeWhile p) (u.takeWhile p) := by
  induction h with
  | nil => exact .nil
  | cons hab _ ih =>
    rw [List.takeWhile_cons, List.takeWhile_cons, hab.congr hp]
    split
    · exact .cons hab ih
    · exact .nil

theorem getElem?_congr_fillers (h : List.Forall₂ SaysSame t u) (i : Nat) : Option.Rel SaysSame t[i]? u[i]? := by
  induction h generalizing i with
  | nil => exact .none
  | cons hab _ ih =>
    cases i with
    | zero => exact .some hab
    | succ i => exact ih i

/-! ## Cutting -/

theorem startsAt_congr (h : List.Forall₂ SaysSame t u) (i : Nat) : startsAt u i = startsAt t i := by
  have hget := getElem?_congr_fillers h i
  unfold startsAt
  generalize t[i]? = a, u[i]? = b at hget
  cases hget with
  | none => rfl
  | some hab => exact hab.congr (f := isSymbol) rfl

theorem saysSame_clauseAt (h : List.Forall₂ SaysSame t u) (i : Nat) : (clauseAt t i).SaysSame (clauseAt u i) := by
  have hbody := takeWhile_congr_fillers (p := (!isSymbol ·)) rfl (List.forall₂_drop (i + 1) h)
  have hget := getElem?_congr_fillers h i
  refine ⟨?_, rfl⟩
  unfold clauseAt
  generalize t[i]? = a, u[i]? = b at hget
  cases hget with
  | none => exact hbody
  | some hab => exact .cons hab hbody

theorem modifiers_of_saysSame {c c' : Clause} (h : c.SaysSame c') : c'.modifiers = c.modifiers := by
  refine modifiers_congr_fillers ?_
  have hbody := List.forall₂_drop 1 h.text
  rwa [List.drop_one, List.drop_one] at hbody

/-- A symbol is no filler, so it stands in both texts. -/
theorem readsSame_clauseAt (h : List.Forall₂ SaysSame t u) (hstart : startsAt t i = true) :
    ReadsSame (clauseAt t i) (clauseAt u i) := by
  obtain ⟨c, hget, hsymbol⟩ := startsAt_iff.mp hstart
  refine readsSame_of_symbol ?_ (modifiers_of_saysSame (saysSame_clauseAt h i))
  have hboth := getElem?_congr_fillers h i
  rw [hget] at hboth
  cases hu : u[i]? with
  | none =>
    rw [hu] at hboth
    cases hboth
  | some d =>
    rw [hu] at hboth
    cases hboth with
    | some hab =>
      rcases hab with rfl | ⟨rfl, rfl⟩
      · rw [symbol_clauseAt hget, symbol_clauseAt hu]
      · cases hsymbol

theorem unintelligible_iff : Unintelligible t ↔ t.all (!isSymbol ·) = true ∧ isSilent t = false := by
  constructor
  · intro h
    refine ⟨List.all_eq_true.mpr fun c hc => ?_, isSilent_eq_false.mpr h.said⟩
    rw [h.noSymbol c hc]
    rfl
  · rintro ⟨hsymbol, hsilent⟩
    refine ⟨fun c hc => ?_, isSilent_eq_false.mp hsilent⟩
    simpa using List.all_eq_true.mp hsymbol c hc

theorem unintelligible_congr (h : List.Forall₂ SaysSame t u) : Unintelligible u ↔ Unintelligible t := by
  have hsymbol := all_congr_fillers (p := (!isSymbol ·)) rfl h
  have hsilent : isSilent u = isSilent t := all_congr_fillers (p := fun c => Text.isBlank c || c == filler) rfl h
  rw [unintelligible_iff, unintelligible_iff, hsymbol, hsilent]

/-- A text that says something without symbols is no command either way. -/
theorem readsSame_of_unintelligible (h : List.Forall₂ SaysSame t u) (ht : Unintelligible t) :
    ReadsSame ⟨t, 0⟩ ⟨u, 0⟩ := by
  refine ⟨?_, modifiers_of_saysSame ⟨h, rfl⟩⟩
  have hnone : ∀ {v : Text}, Unintelligible v → (⟨v, 0⟩ : Clause).command.toOption = none := by
    intro v hv
    cases hc : (⟨v, 0⟩ : Clause).command with
    | error fault => rfl
    | ok command => exact absurd hc (hv.command_ne 0 command)
  rw [hnone ht, hnone ((unintelligible_congr h).mpr ht)]

/-- Both texts are cut into clauses that say the same and read the same. -/
theorem clauses_congr (h : List.Forall₂ SaysSame t u) :
    ∃ cs cs', clauses t = cs.map .ok ∧ clauses u = cs'.map .ok ∧
      List.Forall₂ (fun c c' => Clause.SaysSame c c' ∧ ReadsSame c c') cs cs' := by
  by_cases ht : Unintelligible t
  · refine ⟨[⟨t, 0⟩], [⟨u, 0⟩], clauses_of_unintelligible ht,
      clauses_of_unintelligible ((unintelligible_congr h).mpr ht), .cons ⟨⟨h, rfl⟩, ?_⟩ .nil⟩
    exact readsSame_of_unintelligible h ht
  · refine ⟨_, _, clauses_of_intelligible ht, clauses_of_intelligible (mt (unintelligible_congr h).mp ht), ?_⟩
    rw [clausesIn, clausesIn, funext (startsAt_congr h), ← h.length_eq, List.forall₂_map_left_iff,
      List.forall₂_map_right_iff, List.forall₂_same]
    intro i hi
    exact ⟨saysSame_clauseAt h i, readsSame_clauseAt h (List.mem_filter.mp hi).2⟩

/-! ## Scores -/

/-- Normalized, a text says the same as with spaces for its comments and letters in either case. -/
theorem Overwritten.saysSame (h : Overwritten ' ' t u) : List.Forall₂ SaysSame (normalize t) (normalize u) := by
  refine List.forall₂_iff_get.mpr ⟨?_, fun i h1 h2 => ?_⟩
  · rw [length_normalize, length_normalize, h.length]
  · have ht := (overwritten_normalize t).getElem?_normalize (by decide) i
    have hu := h.getElem?_normalize (by decide) i
    rw [normalize_normalize] at ht
    have hi : i < t.length := by rwa [length_normalize] at h1
    rw [List.getElem?_eq_getElem h1, List.getElem?_eq_getElem hi] at ht
    rw [List.getElem?_eq_getElem h2, List.getElem?_eq_getElem hi] at hu
    rw [List.get_eq_getElem, List.get_eq_getElem, Option.some.inj ht, Option.some.inj hu]
    by_cases hc : InComment t i
    · simp only [hc, if_true]
      exact .inr ⟨rfl, rfl⟩
    · simp only [hc, if_false]
      exact .inl rfl

theorem saysSame_of_alike {a b : Note} (h : Note.Alike Clause.SaysSame a b) : a.SaysSame b := by
  refine ⟨h.label.text, ?_⟩
  have hoffset : b.foundAt = a.foundAt := h.label.offset
  have hsame := h.same
  simp only [Note.relabel, Note.label, hoffset] at hsame
  exact hsame

theorem sameOutcome_of_alike {a b : Fault} (h : Fault.Alike Clause.SaysSame a b) : SameOutcome (.error a) (.error b) := by
  have hoffset : b.offset = a.offset := h.label.offset
  rw [h.same]
  cases a with
  | unknownClause clause offset =>
    simp only [Fault.relabel, Fault.label, hoffset]
    exact .unknown
  | malformedClause clause offset =>
    simp only [Fault.relabel, Fault.label, hoffset]
    exact .malformed
  | invalidLength clause offset reason =>
    simp only [Fault.relabel, Fault.label, hoffset]
    exact .lengthless

/-- Spaces for comments and letters in either case change nothing that a score says: not its notes
    but for fillers in their clauses, nor the kind, the offset and the reason of its fault. -/
theorem comments_and_case_say_nothing (h : Overwritten ' ' t u) : SameOutcome (compile t) (compile u) := by
  obtain ⟨cs, cs', ht, hu, hcs⟩ := clauses_congr h.saysSame
  obtain ⟨hnotes, hfault⟩ := feedAll_relabelled (State.initial : State Float) hcs
  rw [compile_eq, compile_eq, ht, hu]
  generalize (State.initial : State Float).feedAll (cs.map .ok) = r at hnotes hfault ⊢
  generalize (State.initial : State Float).feedAll (cs'.map .ok) = r' at hnotes hfault ⊢
  cases hr : r.fault with
  | none =>
    cases hr' : r'.fault with
    | none =>
      rw [result_eq_ok.mpr ⟨hr, rfl⟩, result_eq_ok.mpr ⟨hr', rfl⟩]
      exact .notes (hnotes.imp fun _ _ => saysSame_of_alike)
    | some fault' =>
      rw [hr, hr'] at hfault
      cases hfault
  | some fault =>
    cases hr' : r'.fault with
    | none =>
      rw [hr, hr'] at hfault
      cases hfault
    | some fault' =>
      rw [hr, hr'] at hfault
      rw [result_eq_error.mpr hr, result_eq_error.mpr hr']
      cases hfault with
      | some halike => exact sameOutcome_of_alike halike

/-- A comment inside a clause, with digits, dots and a tie in it, and a sign that stays a sharp;
    then a comment before a note that has no length. -/
theorem comments_say_nothing_inside_clauses :
    let scored := "T90 C#8 # 4..&\n.E #".toList
    let respelled := "t90 c#8       \n.e  ".toList
    let faulty := "l0 #l4\rC".toList
    let alsoFaulty := "L0    \rc".toList
    (Overwritten ' ' scored respelled ∧ Overwritten ' ' faulty alsoFaulty) ∧
    compile scored = .ok [⟨4, "c#8 @@@@@@\n.".toList, 0, 127, 61, 0, 500⟩,
      ⟨16, "e @".toList, 0, 127, 64, 500, 667⟩] ∧
    compile alsoFaulty = .error (.invalidLength "c".toList 7 "length denominator is zero") ∧
    SameOutcome (compile scored) (compile respelled) ∧ SameOutcome (compile faulty) (compile alsoFaulty) := by
  intro scored respelled faulty alsoFaulty
  have hscored : Overwritten ' ' scored respelled := by decide
  have hfaulty : Overwritten ' ' faulty alsoFaulty := by decide
  refine ⟨⟨hscored, hfaulty⟩, by decide +kernel, by decide +kernel, ?_, ?_⟩
  · exact comments_and_case_say_nothing hscored
  · exact comments_and_case_say_nothing hfaulty

end Ostinato.Score
