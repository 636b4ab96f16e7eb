import Mathlib.Data.List.Chain
import Ostinato.Proofs.Score.Cutting

/-!
  Ostinato.Proofs.Score.Partition: cutting a text loses nothing of it.

  Clauses tile a text if each begins where the one before it ends, with a symbol and no other in
  it (`Tiles`). What is cut from a text that starts with a symbol tiles it (`tiles_clausesFrom`),
  and clauses that tile a text are its parts one after another: nothing is missing between them
  and nothing stands in two of them (`Tiles.partition`). So a text with a symbol is cut into all
  that stands from its first symbol on, and cutting never fails (`clauses_partition`).
-/

namespace Ostinato.Score

/-- Clauses that stand one after another and make up a text, the first at the text's offset; in
    each of them a symbol stands first and no other one. -/
inductive Tiles : Nat → List Clause → Text → Prop
  | nil (offset : Nat) : Tiles offset [] []
  | cons {offset : Nat} {symbol : Char} {body rest : Text} {cs : List Clause} :
      isSymbol symbol = true → (∀ c ∈ body, isSymbol c = false) → Tiles (offset + 1 + body.length) cs rest →
      Tiles offset (⟨symbol :: body, offset⟩ :: cs) (symbol :: (body ++ rest))

/-- Clauses are the parts of a text from a place on. -/
structure Partition (t : Text) (first : Nat) (cs : List Clause) : Prop where
  text : cs.flatMap (·.text) = t.drop first
  start : cs.head?.map (·.offset) = some first
  next : cs.IsChain fun a b => b.offset = a.offset + a.text.length
  symbol : ∀ c ∈ cs, c.text.head?.any isSymbol = true ∧ ∀ d ∈ c.text.tail, isSymbol d = false

variable {t : Text} {offset first : Nat} {cs : List Clause}

theorem tiles_clausesFrom (offset : Nat) (t : Text) (h : ∀ c, t.head? = some c → isSymbol c = true) :
    ∃ cs, clausesFrom offset t = cs.map .ok ∧ Tiles offset cs t := by
  fun_induction clausesFrom offset t with
  | case1 offset => exact ⟨[], rfl, .nil offset⟩
  | case2 offset c cs body ih =>
    have hc : isSymbol c = true := h c rfl
    have hbody : ∀ d ∈ body, isSymbol d = false := fun d hd => isSymbol_of_mem_takeWhile hd
    have hcs : body ++ cs.dropWhile (!isSymbol ·) = cs := List.takeWhile_append_dropWhile ..
    obtain ⟨later, hcut, htiles⟩ := ih fun d hd => isSymbol_of_head_dropWhile hd
    refine ⟨⟨c :: body, offset⟩ :: later, ?_, ?_⟩
    · rw [hcut]
      simp [Clause.cut, hc]
    · have htiled := Tiles.cons hc hbody htiles
      rwa [hcs] at htiled

namespace Tiles

theorem flatMap_text (h : Tiles offset cs t) : cs.flatMap (·.text) = t := by
  induction h with
  | nil => rfl
  | cons _ _ _ ih => rw [List.flatMap_cons, ih, List.cons_append]

theorem head_offset (h : Tiles offset cs t) : ∀ c ∈ cs.head?, c.offset = offset := by
  cases h with
  | nil => simp
  | cons => simp

theorem isChain (h : Tiles offset cs t) : cs.IsChain fun a b => b.offset = a.offset + a.text.length := by
  induction h with
  | nil => exact .nil
  | cons _ _ hrest ih =>
    refine List.isChain_cons.mpr ⟨fun b hb => ?_, ih⟩
    simp only [hrest.head_offset b hb, List.length_cons]
    omega

theorem symbol_first (h : Tiles offset cs t) :
    ∀ c ∈ cs, c.text.head?.any isSymbol = true ∧ ∀ d ∈ c.text.tail, isSymbol d = false := by
  induction h with
  | nil => simp
  | cons hsymbol hbody _ ih =>
    intro c hc
    rcases List.mem_cons.mp hc with rfl | hc
    · exact ⟨hsymbol, hbody⟩
    · exact ih c hc

theorem partition (h : Tiles first cs (t.drop first)) (hfirst : first < t.length) : Partition t first cs where
  text := h.flatMap_text
  start := by
    cases hcs : cs with
    | nil =>
      have htext := h.flatMap_text
      rw [hcs, List.flatMap_nil] at htext
      have hlength := congrArg List.length htext
      rw [List.length_nil, List.length_drop] at hlength
      omega
    | cons c cs =>
      rw [hcs] at h
      rw [List.head?_cons, Option.map_some, h.head_offset c rfl]
  next := h.isChain
  symbol := h.symbol_first

end Tiles

theorem clauses_of_findIdx (h : t.findIdx? isSymbol = some first) : clauses t = clausesFrom first (t.drop first) := by
  obtain ⟨hlt, hfirst⟩ := List.findIdx?_eq_some_iff_findIdx_eq.mp h
  have hbefore : t.takeWhile (!isSymbol ·) = t.take first := by
    rw [List.takeWhile_eq_take_findIdx_not]
    simp only [Bool.not_not]
    rw [hfirst]
  have hafter : t.dropWhile (!isSymbol ·) = t.drop first := by
    rw [List.dropWhile_eq_drop_findIdx_not]
    simp only [Bool.not_not]
    rw [hfirst]
  rw [clauses, hbefore, hafter, List.length_take, Nat.min_eq_left (by omega)]
  have hne : t.drop first ≠ [] := by
    intro hnil
    have := List.drop_eq_nil_iff.mp hnil
    omega
  split
  · rename_i hnil
    exact absurd hnil hne
  · rfl

/-- Cutting never fails. A text with a symbol is cut into its parts from the first symbol on; one
    without is one clause, or none if it is blank but for fillers. -/
theorem clauses_partition (t : Text) : match t.findIdx? isSymbol with
    | some first => ∃ cs, clauses t = cs.map .ok ∧ Partition t first cs
    | none => clauses t = if t.all fun c => Text.isBlank c || c == '@' then [] else [.ok ⟨t, 0⟩] := by
  cases h : t.findIdx? isSymbol with
  | some first =>
    obtain ⟨hlt, hsymbol, -⟩ := List.findIdx?_eq_some_iff_getElem.mp h
    obtain ⟨cs, hcut, htiles⟩ := tiles_clausesFrom first (t.drop first) fun c hc => by
      rw [List.head?_drop, List.getElem?_eq_getElem hlt] at hc
      rw [← Option.some.inj hc, hsymbol]
    exact ⟨cs, (clauses_of_findIdx h).trans hcut, htiles.partition hlt⟩
  | none =>
    have hnone : t.dropWhile (!isSymbol ·) = [] := by
      rw [List.dropWhile_eq_nil_iff]
      intro c hc
      rw [List.findIdx?_eq_none_iff.mp h c hc]
      rfl
    rw [clauses, hnone]
    rfl

/-- Text before the first symbol, two symbols side by side, and one at the end. -/
example : clauses "4 c\u00e98>,".toList =
    [.ok ⟨"c\u00e98".toList, 2⟩, .ok ⟨">".toList, 5⟩, .ok ⟨",".toList, 6⟩] := by decide +kernel

end Ostinato.Score
