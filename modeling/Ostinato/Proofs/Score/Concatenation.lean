import Ostinato.Proofs.Score.Comments
import Ostinato.Proofs.Score.Cutting
import Ostinato.Proofs.Score.Labels

/-!
  Ostinato.Proofs.Score.Concatenation: a score put after another one.

  A text is continued at a symbol (`Continues`). If the text before it leaves no comment open,
  nothing looks across the place where the two meet: no comment reaches over it
  (`normalize_append`), the last clause ends there, and the clauses after it are those of the
  second text by itself, further on (`clausesIn_append`). Only how far on a clause stands
  changes then, which reading it does not look at (`readsSame_shift`). So the notes of both are
  those of the first, and those that the second yields from the state that the first leads to
  (`compile_append`); a fault of the first is a fault of both.

  What is neither blank nor a comment has to be said with symbols in the first text: without
  one it is a fault there, and dropped as what stands before the first symbol in both.
-/

namespace Ostinato.Score

/-- Whether a text has a symbol, of either case, that is no part of a comment. -/
def HasSymbol (t : Text) : Prop := ∃ i < t.length, t[i]?.any (isSymbol ·.toLower) = true ∧ ¬ CommentOpen t (i + 1)

/-- Whether a text consists of blanks and comments. -/
def SaysNothing (t : Text) : Prop := ∀ i < t.length, t[i]?.any Text.isBlank = true ∨ CommentOpen t (i + 1)

instance (t : Text) : Decidable (HasSymbol t) := inferInstanceAs (Decidable (∃ i < t.length, _))

instance (t : Text) : Decidable (SaysNothing t) := inferInstanceAs (Decidable (∀ i < t.length, _))

/-- A text starts with a symbol, of either case. -/
def StartsWithSymbol (t : Text) : Prop := t.head?.any (isSymbol ·.toLower) = true

instance (t : Text) : Decidable (StartsWithSymbol t) := inferInstanceAs (Decidable (_ = true))

variable {t u : Text} {i n : Nat}

/-! ## Moving on -/

def Clause.shift (n : Nat) (c : Clause) : Clause := { c with offset := c.offset + n }

def Note.shift (n : Nat) (a : Note) : Note := { a with foundAt := a.foundAt + n }

def Fault.shift (n : Nat) : Fault → Fault
  | unknownClause clause offset => unknownClause clause (offset + n)
  | malformedClause clause offset => malformedClause clause (offset + n)
  | invalidLength clause offset reason => invalidLength clause (offset + n) reason

theorem readsSame_shift (n : Nat) (c : Clause) : ReadsSame c (c.shift n) := readsSame_of_symbol rfl rfl

variable {α : Type} [Lengths α]

theorem feedAll_shift (n : Nat) (s : State α) (cs : List Clause) :
    (s.feedAll ((cs.map (Clause.shift n)).map .ok)).notes = (s.feedAll (cs.map .ok)).notes.map (Note.shift n) ∧
      (s.feedAll ((cs.map (Clause.shift n)).map .ok)).fault = (s.feedAll (cs.map .ok)).fault.map (Fault.shift n) := by
  have hcs : List.Forall₂ (fun c c' => c' = c.shift n ∧ ReadsSame c c') cs (cs.map (Clause.shift n)) := by
    rw [List.forall₂_map_right_iff, List.forall₂_same]
    exact fun c _ => ⟨rfl, readsSame_shift n c⟩
  obtain ⟨hnotes, hfault⟩ := feedAll_relabelled s hcs
  constructor
  · have heq : List.Forall₂ (fun a b => b = Note.shift n a) (s.feedAll (cs.map .ok)).notes
        (s.feedAll ((cs.map (Clause.shift n)).map .ok)).notes := by
      refine hnotes.imp fun a b hab => ?_
      rw [hab.same, hab.label]
      rfl
    rw [← List.forall₂_eq_eq_eq, List.forall₂_map_right_iff]
    exact heq.flip
  · generalize (s.feedAll (cs.map .ok)).fault = fault, (s.feedAll ((cs.map (Clause.shift n)).map .ok)).fault = fault'
      at hfault ⊢
    cases hfault with
    | none => rfl
    | @some a b hab =>
      rw [Option.map_some, hab.same, hab.label]
      cases a <;> rfl

/-! ## Cutting at a symbol -/

theorem clauseAt_append_left (h : i < t.length) (hu : u.head?.any isSymbol = true) :
    clauseAt (t ++ u) i = clauseAt t i := by
  obtain ⟨c, cs, rfl⟩ : ∃ c cs, u = c :: cs := List.ne_nil_iff_exists_cons.mp (by rintro rfl; cases hu)
  have hc : (!isSymbol c) = false := by simpa using hu
  have hdrop : (t ++ c :: cs).drop (i + 1) = t.drop (i + 1) ++ c :: cs := List.drop_append_of_le_length h
  have hends : ∀ body : Text, (body ++ c :: cs).takeWhile (!isSymbol ·) = body.takeWhile (!isSymbol ·) := by
    intro body
    induction body with
    | nil => rw [List.nil_append, List.takeWhile_cons, hc]; rfl
    | cons d body ih => rw [List.cons_append, List.takeWhile_cons, List.takeWhile_cons, ih]
  rw [clauseAt, clauseAt, List.getElem?_append_left h, hdrop, hends]

theorem clauseAt_append_right (t u : Text) (i : Nat) : clauseAt (t ++ u) (t.length + i) = (clauseAt u i).shift t.length := by
  have hdrop : (t ++ u).drop (t.length + i + 1) = u.drop (i + 1) := by
    rw [Nat.add_assoc, List.drop_length_add_append]
  have hget : (t ++ u)[t.length + i]? = u[i]? := by
    rw [List.getElem?_append_right (Nat.le_add_right ..), Nat.add_sub_cancel_left]
  rw [clauseAt, hget, hdrop, Nat.add_comm t.length]
  rfl

theorem startsAt_append_left (h : i < t.length) : startsAt (t ++ u) i = startsAt t i := by
  rw [startsAt, startsAt, List.getElem?_append_left h]

theorem startsAt_append_right (t u : Text) (i : Nat) : startsAt (t ++ u) (t.length + i) = startsAt u i := by
  rw [startsAt, startsAt, List.getElem?_append_right (Nat.le_add_right ..), Nat.add_sub_cancel_left]

theorem clausesIn_append_left (hu : u.head?.any isSymbol = true) (h : i + n ≤ t.length) :
    clausesIn (t ++ u) i n = clausesIn t i n := by
  induction n generalizing i with
  | zero => rfl
  | succ n ih =>
    have hi : i < t.length := by omega
    rw [clausesIn_succ, clausesIn_succ, startsAt_append_left hi, clauseAt_append_left hi hu, ih (by omega)]

theorem clausesIn_append_right (t u : Text) (i n : Nat) :
    clausesIn (t ++ u) (t.length + i) n = (clausesIn u i n).map (Clause.shift t.length) := by
  induction n generalizing i with
  | zero => rfl
  | succ n ih =>
    rw [clausesIn_succ, clausesIn_succ, startsAt_append_right, clauseAt_append_right, Nat.add_assoc, ih]
    split <;> rfl

/-- The clauses of a text that goes on with a symbol are those of both parts. -/
theorem clausesIn_append (hu : u.head?.any isSymbol = true) : clausesIn (t ++ u) 0 (t ++ u).length =
    clausesIn t 0 t.length ++ (clausesIn u 0 u.length).map (Clause.shift t.length) := by
  rw [List.length_append, clausesIn_add, clausesIn_append_left hu (Nat.zero_add _).le, Nat.add_comm 0,
    clausesIn_append_right]

/-! ## Normalized texts -/

theorem head_normalize (h : StartsWithSymbol t) : (normalize t).head?.any isSymbol = true := by
  cases t with
  | nil => cases h
  | cons c cs =>
    have hget := getElem?_normalize (c :: cs) 0
    have hopen : ¬ CommentOpen (c :: cs) (0 + 1) := by
      rw [commentOpen_succ]
      rintro ⟨-, hopen | ⟨hsign, -⟩⟩
      · exact not_commentOpen_zero hopen
      · cases hsign
        cases h
    rw [List.getElem?_cons_zero, Option.map_some, if_neg hopen] at hget
    rw [List.head?_eq_getElem?, hget]
    exact h

theorem toLower_of_isBlank {c : Char} (h : Text.isBlank c = true) : c.toLower = c := by
  refine dif_neg fun hupper => ?_
  have halpha : c.isAlpha = true := (Bool.or_eq_true_iff ..).mpr (.inl (decide_eq_true hupper))
  rw [Text.isBlank_of_isAlpha halpha] at h
  cases h

theorem not_unintelligible_of_mem {c : Char} (hc : c ∈ t) (hsymbol : isSymbol c = true) : ¬ Unintelligible t := by
  intro h
  rw [h.noSymbol c hc] at hsymbol
  cases hsymbol

theorem not_unintelligible_of_hasSymbol (h : HasSymbol t) : ¬ Unintelligible (normalize t) := by
  obtain ⟨i, hi, hsymbol, hopen⟩ := h
  have hget := getElem?_normalize t i
  rw [List.getElem?_eq_getElem hi] at hget hsymbol
  rw [Option.map_some, if_neg hopen] at hget
  exact not_unintelligible_of_mem (List.mem_of_getElem? hget) hsymbol

theorem not_unintelligible_of_saysNothing (h : SaysNothing t) : ¬ Unintelligible (normalize t) := by
  rintro ⟨-, c, hc, hblank, hfiller⟩
  obtain ⟨i, hi⟩ := List.mem_iff_getElem?.mp hc
  have hget := getElem?_normalize t i
  rw [hi] at hget
  obtain ⟨d, hd, heq⟩ := Option.map_eq_some_iff.mp hget.symm
  split at heq
  · exact hfiller heq.symm
  · rename_i hopen
    have := (h i (List.getElem?_eq_some_iff.mp hd).1).resolve_right hopen
    rw [hd, Option.any_some] at this
    rw [← heq, toLower_of_isBlank this, this] at hblank
    cases hblank

/-! ## Scores -/

/-- The clauses of both texts, one after another. -/
theorem clauses_append (hopen : ¬ CommentOpen t t.length) (ht : HasSymbol t ∨ SaysNothing t)
    (hu : StartsWithSymbol u) : clauses (normalize (t ++ u)) = clauses (normalize t) ++
      ((clausesIn (normalize u) 0 (normalize u).length).map (Clause.shift t.length)).map .ok ∧
    clauses (normalize u) = (clausesIn (normalize u) 0 (normalize u).length).map .ok := by
  have hhead := head_normalize hu
  have hsign : u.head? ≠ some '#' := by
    intro h
    rw [StartsWithSymbol, h] at hu
    cases hu
  obtain ⟨c, hc, hsymbol⟩ : ∃ c ∈ normalize u, isSymbol c = true := by
    obtain ⟨c, hc, hsymbol⟩ := (Option.any_eq_true ..).mp hhead
    exact ⟨c, List.mem_of_mem_head? hc, hsymbol⟩
  have hfirst : ¬ Unintelligible (normalize t) :=
    ht.elim not_unintelligible_of_hasSymbol not_unintelligible_of_saysNothing
  refine ⟨?_, clauses_of_intelligible (not_unintelligible_of_mem hc hsymbol)⟩
  -- The second text starts with a symbol, so no clause of the first reaches into it.
  rw [normalize_append hopen hsign,
    clauses_of_intelligible (not_unintelligible_of_mem (List.mem_append_right _ hc) hsymbol),
    clausesIn_append hhead, List.map_append, clauses_of_intelligible hfirst, length_normalize t]

/-- A score that goes on with a symbol, outside comments, has the notes of its first part and
    those that the second yields from the state that the first leads to; it has the first fault
    of the two. -/
theorem compile_append (hopen : ¬ CommentOpen t t.length) (ht : HasSymbol t ∨ SaysNothing t) (hu : StartsWithSymbol u) :
    compile (t ++ u) = match compile t with
      | .error fault => .error fault
      | .ok notes => match ((read t : Compilation Float).state.feedAll (clauses (normalize u))).result with
        | .error fault => .error (fault.shift t.length)
        | .ok more => .ok (notes ++ more.map (Note.shift t.length)) := by
  obtain ⟨hboth, hsecond⟩ := clauses_append hopen ht hu
  rw [compile_eq, compile_eq, state_read, hboth, hsecond]
  cases hf : ((State.initial : State Float).feedAll (clauses (normalize t))).fault with
  | some fault =>
    rw [feedAll_append_of_some _ hf, result_eq_error.mpr hf]
  | none =>
    rw [feedAll_append_of_none _ hf, result_eq_ok.mpr ⟨hf, rfl⟩]
    obtain ⟨hnotes, hfault⟩ := feedAll_shift t.length
      ((State.initial : State Float).feedAll (clauses (normalize t))).state
      (clausesIn (normalize u) 0 (normalize u).length)
    dsimp only
    cases hg : (((State.initial : State Float).feedAll (clauses (normalize t))).state.feedAll
        ((clausesIn (normalize u) 0 (normalize u).length).map .ok)).fault with
    | some fault =>
      rw [hg] at hfault
      rw [result_eq_error.mpr hg]
      exact result_eq_error.mpr hfault
    | none =>
      rw [hg] at hfault
      rw [result_eq_ok.mpr ⟨hg, rfl⟩]
      exact result_eq_ok.mpr ⟨hfault, by rw [hnotes]⟩

/-- A comment before the place where two texts meet, a tie over it, and a fault after it. -/
theorem compile_append_across_tie : let first := "x T90 o4 C& # d\n".toList
    (¬ CommentOpen first first.length ∧ HasSymbol first ∧ StartsWithSymbol "E8 f".toList ∧
      StartsWithSymbol "E8 c0".toList) ∧
    compile (first ++ "E8 f".toList) =
      .ok [⟨16, "e8 ".toList, 0, 127, 52, 0, 1000⟩, ⟨19, "f".toList, 0, 127, 53, 1000, 667⟩] ∧
    compile (first ++ "E8 c0".toList) = .error (.invalidLength "c0".toList 19 "length denominator is zero") := by
  intro first
  have hopen : ¬ CommentOpen first first.length := by decide
  have hfirst : HasSymbol first := by decide
  have hnotes : StartsWithSymbol "E8 f".toList := by decide
  have hfault : StartsWithSymbol "E8 c0".toList := by decide
  refine ⟨⟨hopen, hfirst, hnotes, hfault⟩, ?_, ?_⟩
  · exact (compile_append hopen (.inl hfirst) hnotes).trans (by decide +kernel)
  · exact (compile_append hopen (.inl hfirst) hfault).trans (by decide +kernel)

end Ostinato.Score
