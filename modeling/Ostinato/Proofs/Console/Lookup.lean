import Mathlib.Data.List.Perm.Basic
import Mathlib.Data.List.Infix
import Ostinato.Console.Reply

/-!
  Ostinato.Proofs.Console.Lookup: which command a line is meant for.

  A registry has its commands by size, the longest first, and those of one size in the order in
  which they came (`Arranged`, kept by every registration). All words that a line starts with
  start each other, so of these the size tells which are longer, and two of one size are the same.
  So the first command that accepts a line is the one with the longest words, and the
  earliest with these (`find?_eq_some_iff`). Where no words were given twice, that says
  nothing about the order of registration.
-/

namespace Ostinato.Console

variable {η : Type}

/-- A line is meant for some words if it is them, or goes on after them with a space. -/
def Addresses (words line rest : Text) : Prop := line = words ++ rest ∧ (rest = [] ∨ ∃ more, rest = ' ' :: more)

/-- The command that a line is meant for: the longest one, and the earliest with its words. -/
structure Chosen (entries : List (Command η)) (line : Text) (c : Command η) (rest : Text) : Prop where
  addressed : Addresses c.words line rest
  longest : ∀ d ∈ entries, ∀ rest', Addresses d.words line rest' → d.words.length ≤ c.words.length
  earliest : ∃ before after, entries = before ++ c :: after ∧ ∀ d ∈ before, d.words ≠ c.words

namespace Registry

def ofEntries (entries : List (Command η)) : Registry η :=
  entries.foldl (fun r c => r.register c.words c.handler) .empty

theorem ofEntries_concat (entries : List (Command η)) (c : Command η) :
    ofEntries (entries ++ [c]) = (ofEntries entries).register c.words c.handler := by
  rw [ofEntries, List.foldl_concat]
  rfl

/-! ## Words and lines -/

theorem accepts_iff {words line : Text} : accepts words line = true ↔ ∃ rest, Addresses words line rest := by
  rw [accepts, Bool.or_eq_true, beq_iff_eq, Text.startsWith, List.isPrefixOf_iff_prefix]
  constructor
  · intro h
    rcases h with rfl | ⟨more, rfl⟩
    · exact ⟨[], (List.append_nil _).symm, .inl rfl⟩
    · exact ⟨' ' :: more, by simp, .inr ⟨more, rfl⟩⟩
  · intro h
    obtain ⟨rest, rfl, rfl | ⟨more, rfl⟩⟩ := h
    · exact .inl (List.append_nil _)
    · exact .inr ⟨more, by simp⟩

theorem sizeOf_append (a b : Text) : sizeOf (a ++ b) = sizeOf a + sizeOf b := by
  rw [sizeOf, String.ofList_append, String.utf8ByteSize_append]
  rfl

theorem sizeOf_eq_zero {a : Text} (h : sizeOf a = 0) : a = [] := by
  rw [sizeOf, String.utf8ByteSize_eq_zero_iff] at h
  exact String.ofList_eq_empty_iff.mp h

/-- Of two words that a line starts with, those of no greater size are no longer. -/
theorem prefix_of_size {a b line : Text} (ha : a <+: line) (hb : b <+: line) (h : sizeOf a ≤ sizeOf b) : a <+: b := by
  rcases List.prefix_or_prefix_of_prefix ha hb with hab | ⟨rest, rfl⟩
  · exact hab
  · rw [sizeOf_append] at h
    have hrest : rest = [] := sizeOf_eq_zero (by omega)
    rw [hrest, List.append_nil]

/-! ## Order of the commands -/

variable {c : Command η} {entries commands : List (Command η)}

/-- The longest first, and those of one size in the order in which they came. -/
structure Arranged (entries commands : List (Command η)) : Prop where
  perm : commands.Perm entries
  sorted : commands.Pairwise fun a b => sizeOf b.words ≤ sizeOf a.words
  stable : ∀ size, (commands.filter fun c => sizeOf c.words = size) = entries.filter fun c => sizeOf c.words = size

theorem perm_insert (c : Command η) (commands : List (Command η)) : (insert c commands).Perm (c :: commands) := by
  induction commands with
  | nil => exact .refl _
  | cons x xs ih =>
    unfold insert
    split
    · exact .refl _
    · exact (ih.cons x).trans (.swap ..)

theorem sorted_insert (h : commands.Pairwise fun a b => sizeOf b.words ≤ sizeOf a.words) :
    (insert c commands).Pairwise fun a b => sizeOf b.words ≤ sizeOf a.words := by
  induction commands with
  | nil => exact List.pairwise_singleton _ _
  | cons x xs ih =>
    obtain ⟨hx, hxs⟩ := List.pairwise_cons.mp h
    unfold insert
    split
    · next hlt =>
      refine List.pairwise_cons.mpr ⟨fun y hy => ?_, h⟩
      rcases List.mem_cons.mp hy with rfl | hy
      · exact hlt.le
      · exact (hx y hy).trans hlt.le
    · next hge =>
      refine List.pairwise_cons.mpr ⟨fun y hy => ?_, ih hxs⟩
      rcases List.mem_cons.mp ((perm_insert c xs).mem_iff.mp hy) with rfl | hy
      · exact not_lt.mp hge
      · exact hx y hy

/-- Among the commands of one size a new one is the last. -/
theorem filter_insert (h : commands.Pairwise fun a b => sizeOf b.words ≤ sizeOf a.words) (size : ℕ) :
    ((insert c commands).filter fun d => sizeOf d.words = size) =
      (commands ++ [c]).filter fun d => sizeOf d.words = size := by
  induction commands with
  | nil => rfl
  | cons x xs ih =>
    obtain ⟨hx, hxs⟩ := List.pairwise_cons.mp h
    unfold insert
    split
    · next hlt =>
      by_cases hsize : sizeOf c.words = size
      · -- what stands after a command of this size is smaller
        have hnone : ((x :: xs).filter fun d => sizeOf d.words = size) = [] := by
          refine List.filter_eq_nil_iff.mpr fun d hd => ?_
          rw [decide_eq_true_eq]
          rcases List.mem_cons.mp hd with rfl | hd
          · omega
          · have := hx d hd
            omega
        rw [List.filter_append, hnone, List.filter_cons_of_pos (by simpa using hsize), hnone,
          List.filter_cons_of_pos (by simpa using hsize)]
        rfl
      · rw [List.filter_append, List.filter_cons_of_neg (by simpa using hsize),
          List.filter_cons_of_neg (a := c) (by simpa using hsize), List.filter_nil, List.append_nil]
    · rw [List.cons_append, List.filter_cons, List.filter_cons, ih hxs]

theorem Arranged.concat (h : Arranged entries commands) (c : Command η) :
    Arranged (entries ++ [c]) (insert c commands) where
  perm := (perm_insert c commands).trans ((h.perm.cons c).trans (List.perm_append_singleton c entries).symm)
  sorted := sorted_insert h.sorted
  stable size := by
    rw [filter_insert h.sorted, List.filter_append, List.filter_append, h.stable size]

theorem arranged_ofEntries (entries : List (Command η)) : Arranged entries (ofEntries entries).commands := by
  induction entries using List.reverseRecOn with
  | nil => exact ⟨.refl _, .nil, fun _ => rfl⟩
  | append_singleton entries c ih =>
    rw [ofEntries_concat]
    exact ih.concat c

theorem Arranged.filter_words (h : Arranged entries commands) (words : Text) :
    (commands.filter fun c => c.words = words) = entries.filter fun c => c.words = words := by
  have hsplit (l : List (Command η)) : (l.filter fun c => c.words = words) =
      (l.filter fun c => sizeOf c.words = sizeOf words).filter fun c => c.words = words := by
    rw [List.filter_filter]
    refine List.filter_congr fun c _ => ?_
    by_cases hc : c.words = words
    · simp [hc]
    · simp [hc]
  rw [hsplit, h.stable, ← hsplit]

/-! ## Look-up -/

variable {line : Text}

/-- The first command that accepts a line is the one that the line is meant for. -/
theorem Arranged.chosen (h : Arranged entries commands)
    (hfind : commands.find? (fun c => accepts c.words line) = some c) : ∃ rest, Chosen entries line c rest := by
  obtain ⟨haccepts, before, after, hsplit, hbefore⟩ := List.find?_eq_some_iff_append.mp hfind
  obtain ⟨rest, hrest⟩ := accepts_iff.mp haccepts
  have hrefused : ∀ d ∈ before, ∀ rest', ¬ Addresses d.words line rest' := by
    intro d hd rest' haddressed
    simpa [accepts_iff.mpr ⟨rest', haddressed⟩] using hbefore d hd
  refine ⟨rest, hrest, fun d hd rest' haddressed => ?_, ?_⟩
  · rcases List.mem_append.mp (hsplit ▸ h.perm.mem_iff.mpr hd) with hd | hd
    · exact absurd haddressed (hrefused d hd rest')
    -- Of two prefixes of the line the one of less size is the shorter.
    · have hsize : sizeOf d.words ≤ sizeOf c.words := by
        rcases List.mem_cons.mp hd with rfl | hd
        · exact le_refl _
        · have hsorted := (List.pairwise_append.mp (hsplit ▸ h.sorted)).2.1
          exact (List.pairwise_cons.mp hsorted).1 d hd
      exact (prefix_of_size ⟨rest', haddressed.1.symm⟩ ⟨rest, hrest.1.symm⟩ hsize).length_le
  · have hfirst : (before.filter fun d => d.words = c.words) = [] := by
      refine List.filter_eq_nil_iff.mpr fun d hd => ?_
      rw [decide_eq_true_eq]
      intro heq
      exact hrefused d hd rest (heq ▸ hrest)
    have hfilter := h.filter_words c.words
    rw [hsplit, List.filter_append, hfirst, List.nil_append, List.filter_cons_of_pos (by simp)] at hfilter
    obtain ⟨before', after', hentries, hbefore', -, -⟩ := List.filter_eq_cons_iff.mp hfilter.symm
    exact ⟨before', after', hentries, fun d hd => by simpa using hbefore' d hd⟩

end Registry

namespace Chosen

variable {entries entries' : List (Command η)} {c c' : Command η} {line rest rest' : Text}

theorem find? (h : Chosen entries line c rest) : entries.find? (fun d => d.words = c.words) = some c := by
  obtain ⟨before, after, hsplit, hbefore⟩ := h.earliest
  refine List.find?_eq_some_iff_append.mpr ⟨by simp, before, after, hsplit, fun d hd => ?_⟩
  simpa using hbefore d hd

theorem mem (h : Chosen entries line c rest) : c ∈ entries := List.mem_of_find?_eq_some h.find?

theorem unique (h : Chosen entries line c rest) (h' : Chosen entries line c' rest') : c = c' ∧ rest = rest' := by
  have hle := h'.longest c h.mem rest h.addressed
  have hge := h.longest c' h'.mem rest' h'.addressed
  have hwords : c.words = c'.words := by
    have hprefix : c.words <+: c'.words :=
      List.prefix_of_prefix_length_le ⟨rest, h.addressed.1.symm⟩ ⟨rest', h'.addressed.1.symm⟩ hle
    exact hprefix.eq_of_length_le hge
  have hfind := h'.find?
  rw [← hwords, h.find?] at hfind
  obtain rfl := Option.some.inj hfind
  exact ⟨rfl, List.append_cancel_left (h.addressed.1.symm.trans h'.addressed.1)⟩

/-- Where no words were given twice the order of registration does not matter. -/
theorem perm (h : Chosen entries line c rest) (hperm : entries.Perm entries')
    (hnodup : (entries.map (·.words)).Nodup) : Chosen entries' line c rest := by
  refine ⟨h.addressed, fun d hd => h.longest d (hperm.mem_iff.mpr hd), ?_⟩
  obtain ⟨before, after, rfl⟩ := List.append_of_mem (hperm.mem_iff.mp h.mem)
  refine ⟨before, after, rfl, fun d hd heq => ?_⟩
  have hnodup' := (hperm.map (·.words)).nodup_iff.mp hnodup
  rw [List.map_append, List.map_cons] at hnodup'
  obtain ⟨-, -, hdisjoint⟩ := List.nodup_append.mp hnodup'
  exact hdisjoint d.words (List.mem_map_of_mem hd) c.words (List.mem_cons_self ..) heq

end Chosen

namespace Registry

variable {entries entries' : List (Command η)} {c : Command η} {line rest : Text}

/-- A line is looked up as the command that it is meant for, with what it says after the words. -/
theorem find?_of_chosen (h : Chosen entries line c rest) :
    (ofEntries entries).find? line = some (c.handler, Text.trim rest) := by
  have harranged := arranged_ofEntries entries
  cases hfind : (ofEntries entries).commands.find? (fun d => accepts d.words line) with
  | none =>
    have hnone := List.find?_eq_none.mp hfind c (harranged.perm.mem_iff.mpr h.mem)
    exact absurd (accepts_iff.mpr ⟨rest, h.addressed⟩) hnone
  | some d =>
    obtain ⟨rest', h'⟩ := harranged.chosen hfind
    obtain ⟨rfl, rfl⟩ := h.unique h'
    have hdrop : line.drop c.words.length = rest := by rw [h.addressed.1, List.drop_left]
    rw [Registry.find?, hfind, Option.map_some, hdrop]

theorem chosen_or_none (entries : List (Command η)) (line : Text) :
    (∃ c rest, Chosen entries line c rest) ∨
      (∀ c ∈ entries, ∀ rest, ¬ Addresses c.words line rest) ∧ (ofEntries entries).find? line = none := by
  have harranged := arranged_ofEntries entries
  cases hfind : (ofEntries entries).commands.find? (fun d => accepts d.words line) with
  | none =>
    refine .inr ⟨fun c hc rest haddressed => ?_, by rw [Registry.find?, hfind, Option.map_none]⟩
    have hnone := List.find?_eq_none.mp hfind c (harranged.perm.mem_iff.mpr hc)
    exact absurd (accepts_iff.mpr ⟨rest, haddressed⟩) hnone
  | some d =>
    obtain ⟨rest, h⟩ := harranged.chosen hfind
    exact .inl ⟨d, rest, h⟩

theorem find?_eq_none_iff (entries : List (Command η)) (line : Text) :
    (ofEntries entries).find? line = none ↔ ∀ c ∈ entries, ∀ rest, ¬ Addresses c.words line rest := by
  rcases chosen_or_none entries line with ⟨c, rest, h⟩ | ⟨hnone, hfind⟩
  · rw [find?_of_chosen h]
    exact ⟨nofun, fun hnone => absurd h.addressed (hnone c h.mem rest)⟩
  · exact ⟨fun _ => hnone, fun _ => hfind⟩

theorem find?_perm (hperm : entries.Perm entries') (hnodup : (entries.map (·.words)).Nodup) (line : Text) :
    (ofEntries entries').find? line = (ofEntries entries).find? line := by
  rcases chosen_or_none entries line with ⟨c, rest, h⟩ | ⟨hnone, hfind⟩
  · rw [find?_of_chosen h, find?_of_chosen (h.perm hperm hnodup)]
  · rw [hfind]
    exact (find?_eq_none_iff entries' line).mpr fun c hc => hnone c (hperm.mem_iff.mpr hc)

/-- Whatever commands were registered, in whatever order, a line is carried out by the one with the
    longest words that it is meant for, the earliest with these, and by none only if it is meant for
    none. -/
theorem longest_words_win (entries : List (Command Handler)) (line : Text) :
    (∀ c rest, Chosen entries line c rest →
      ∀ s p, (ofEntries entries).run s p line = c.handler s p (Text.trim rest)) ∧
    ((ofEntries entries).find? line = none ↔ ∀ c ∈ entries, ∀ rest, ¬ Addresses c.words line rest) ∧
    ((∀ c ∈ entries, ∀ rest, ¬ Addresses c.words line rest) →
      ∀ s p, (ofEntries entries).run s p line = (p, .notACommand)) ∧
    ((∃ c ∈ entries, ∃ rest, Addresses c.words line rest) → ∃ c rest, Chosen entries line c rest) ∧
    ((entries.map (·.words)).Nodup → ∀ entries', entries.Perm entries' →
      ∀ s p, (ofEntries entries').run s p line = (ofEntries entries).run s p line) := by
  refine ⟨fun c rest h s p => ?_, find?_eq_none_iff entries line, fun hnone s p => ?_, fun hsome => ?_,
    fun hnodup entries' hperm s p => ?_⟩
  · rw [Registry.run, find?_of_chosen h]
  · rw [Registry.run, (find?_eq_none_iff entries line).mpr hnone]
  · obtain ⟨c, hc, rest, haddressed⟩ := hsome
    exact (chosen_or_none entries line).resolve_right fun h => h.1 c hc rest haddressed
  · rw [Registry.run, Registry.run, find?_perm hperm hnodup]

end Registry

end Ostinato.Console
