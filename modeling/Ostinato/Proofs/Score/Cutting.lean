import Mathlib.Data.List.TakeWhile
import Ostinato.Proofs.Score.Feeding
import Ostinato.Proofs.Score.Places

/-!
  Ostinato.Proofs.Score.Cutting: the clauses of a text, place by place.

  A clause stands at every place that holds a symbol, and reaches up to the next one
  (`clauseAt`). Cutting a text gives these clauses in the order of their places
  (`clauses_of_intelligible`), save one that says something without a symbol, which is a clause
  as a whole. A text that has no fault yields what reading its clauses one after another
  yields (`Reads`, `reads_of_read`), so what holds of its notes is shown one place at a time
  (`walk_of_read`).
-/

namespace Ostinato.Score

/-! ## Places -/

/-- Whether a clause starts at a place of a text. -/
def startsAt (t : Text) (i : Nat) : Bool := t[i]?.any isSymbol

/-- The clause at a place: the character there and everything up to the next symbol. -/
def clauseAt (t : Text) (i : Nat) : Clause := ⟨t[i]?.toList ++ (t.drop (i + 1)).takeWhile (!isSymbol ·), i⟩

/-- The clauses that start in a stretch of a text. -/
def clausesIn (t : Text) (start length : Nat) : List Clause :=
  ((List.range' start length).filter (startsAt t)).map (clauseAt t)

variable {t : Text} {i : Nat}

@[simp] theorem offset_clauseAt : (clauseAt t i).offset = i := rfl

theorem startsAt_iff : startsAt t i = true ↔ ∃ c, t[i]? = some c ∧ isSymbol c = true := by
  unfold startsAt
  cases t[i]? with
  | none => simp
  | some c => simp

theorem symbol_clauseAt {c : Char} (h : t[i]? = some c) : (clauseAt t i).symbol? = some c := by
  simp [clauseAt, Clause.symbol?, h]

theorem clausesIn_succ (t : Text) (start length : Nat) : clausesIn t start (length + 1) =
    if startsAt t start then clauseAt t start :: clausesIn t (start + 1) length
    else clausesIn t (start + 1) length := by
  simp only [clausesIn, List.range'_succ, List.filter_cons]
  split <;> rfl

theorem clausesIn_add (t : Text) (start m n : Nat) :
    clausesIn t start (m + n) = clausesIn t start m ++ clausesIn t (start + m) n := by
  simp only [clausesIn, ← List.range'_append_1, List.filter_append, List.map_append]

theorem clausesIn_eq_nil (pre : Text) {mid : Text} (post : Text) (h : ∀ c ∈ mid, isSymbol c = false) :
    clausesIn (pre ++ (mid ++ post)) pre.length mid.length = [] := by
  refine List.map_eq_nil_iff.mpr (List.filter_eq_nil_iff.mpr fun i hi => ?_)
  obtain ⟨h1, h2⟩ := List.mem_range'_1.mp hi
  have hget : (pre ++ (mid ++ post))[i]? = some mid[i - pre.length] := by
    rw [List.getElem?_append_right h1, List.getElem?_append_left (by omega), List.getElem?_eq_getElem]
  simp [startsAt, hget, h _ (List.getElem_mem _)]

/-! ## Cutting -/

theorem isSymbol_of_mem_takeWhile {c : Char} (h : c ∈ t.takeWhile (!isSymbol ·)) : isSymbol c = false := by
  have := List.all_eq_true.mp (List.all_takeWhile (p := (!isSymbol ·)) (l := t)) c h
  simpa using this

theorem isSymbol_of_head_dropWhile {c : Char} (h : (t.dropWhile (!isSymbol ·)).head? = some c) :
    isSymbol c = true := by
  have := List.head?_dropWhile_not (!isSymbol ·) t
  rw [h] at this
  simpa using this

theorem clausesFrom_eq (pre rest : Text) (h : ∀ c, rest.head? = some c → isSymbol c = true) :
    clausesFrom pre.length rest = (clausesIn (pre ++ rest) pre.length rest.length).map .ok := by
  generalize hoffset : pre.length = offset
  fun_induction clausesFrom offset rest generalizing pre with
  | case1 offset => rfl
  | case2 offset c cs body ih =>
    subst hoffset
    have hc : isSymbol c = true := h c rfl
    have hbody : ∀ d ∈ body, isSymbol d = false := fun d hd => isSymbol_of_mem_takeWhile hd
    have hafter : ∀ d, (cs.dropWhile (!isSymbol ·)).head? = some d → isSymbol d = true :=
      fun d hd => isSymbol_of_head_dropWhile hd
    have hcs : body ++ cs.dropWhile (!isSymbol ·) = cs := List.takeWhile_append_dropWhile ..
    have hclause : clauseAt (pre ++ c :: cs) pre.length = ⟨c :: body, pre.length⟩ := by simp [clauseAt, body]
    generalize cs.dropWhile (!isSymbol ·) = after at hcs hafter ih ⊢
    have hlater := ih (pre ++ c :: body) hafter (by simp; omega)
    have hsilent := clausesIn_eq_nil (pre ++ [c]) after hbody
    rw [List.append_assoc, List.cons_append, hcs] at hlater
    rw [hcs, List.append_assoc, List.singleton_append, List.length_append, List.length_singleton] at hsilent
    have hlength : (c :: cs).length = body.length + after.length + 1 := by
      rw [← hcs, List.length_cons, List.length_append]
    have hstart : startsAt (pre ++ c :: cs) pre.length = true := startsAt_iff.mpr ⟨c, by simp, hc⟩
    rw [hlength, clausesIn_succ, if_pos hstart, hclause, clausesIn_add, hsilent, List.nil_append, hlater]
    simp [Clause.cut, hc]

/-- A text that says something, and has no symbol to say it with. -/
structure Unintelligible (t : Text) : Prop where
  noSymbol : ∀ c ∈ t, isSymbol c = false
  said : ∃ c ∈ t, Text.isBlank c = false ∧ c ≠ filler

theorem isSilent_eq_false : isSilent t = false ↔ ∃ c ∈ t, Text.isBlank c = false ∧ c ≠ filler := by
  simp [isSilent, List.all_eq_false]

theorem clauses_of_unintelligible (h : Unintelligible t) : clauses t = [.ok ⟨t, 0⟩] := by
  have hall : ∀ c ∈ t, (!isSymbol c) = true := fun c hc => by rw [h.noSymbol c hc]; rfl
  rw [clauses, List.dropWhile_eq_nil_iff.mpr hall]
  simp only [isSilent_eq_false.mpr h.said, Bool.false_eq_true, if_false]

/-- Cutting any other text gives the clauses at its places. -/
theorem clauses_of_intelligible (h : ¬ Unintelligible t) : clauses t = (clausesIn t 0 t.length).map .ok := by
  have hbefore : ∀ c ∈ t.takeWhile (!isSymbol ·), isSymbol c = false := fun c hc => isSymbol_of_mem_takeWhile hc
  have hafter : ∀ c, (t.dropWhile (!isSymbol ·)).head? = some c → isSymbol c = true :=
    fun c hc => isSymbol_of_head_dropWhile hc
  have ht : t.takeWhile (!isSymbol ·) ++ t.dropWhile (!isSymbol ·) = t := List.takeWhile_append_dropWhile ..
  unfold clauses
  generalize t.takeWhile (!isSymbol ·) = before at hbefore ht
  have hsilent := clausesIn_eq_nil [] (t.dropWhile (!isSymbol ·)) hbefore
  rw [List.nil_append, ht, List.length_nil] at hsilent
  split
  · rename_i hnil
    rw [hnil, List.append_nil] at ht
    subst ht
    split
    · rw [hsilent]
      rfl
    · rename_i hsaid
      exact absurd ⟨hbefore, isSilent_eq_false.mp (Bool.eq_false_iff.mpr hsaid)⟩ h
  · show clausesFrom before.length (t.dropWhile (!isSymbol ·)) = _
    have hlength : t.length = before.length + (t.dropWhile (!isSymbol ·)).length := by
      rw [← List.length_append, ht]
    rw [clausesFrom_eq _ _ hafter, ht, hlength, clausesIn_add, hsilent, List.nil_append, Nat.zero_add]

/-! ## Reading clause by clause -/

/-- Which command a symbol starts, in a clause with that number. -/
inductive Starts (n : Option Nat) : Char → Command → Prop
  | note {symbol : Char} {letter : Letter} : Letter.ofChar? symbol = some letter → Starts n symbol (.note letter)
  | rest : Starts n 'r' .rest
  | octaveUp : Starts n '>' .octaveUp
  | octaveDown : Starts n '<' .octaveDown
  | octave : Starts n 'o' (.octave n)
  | tempo : Starts n 't' (.tempo n)
  | length : Starts n 'l' (.length n)
  | volume : Starts n 'v' (.volume n)
  | nextTrack : Starts n ',' .nextTrack

theorem starts_of_command {c : Clause} {command : Command} (h : c.command = .ok command) :
    ∃ symbol, c.symbol? = some symbol ∧ Starts c.modifiers.number symbol command := by
  unfold Clause.command at h
  dsimp only at h
  split at h
  case h_9 symbol _ _ _ _ _ _ _ _ hs =>
    cases hl : Letter.ofChar? symbol with
    | none => simp [hl] at h
    | some letter =>
      rw [hl] at h
      cases h
      exact ⟨symbol, hs, .note hl⟩
  case h_10 => cases h
  all_goals
    cases h
    exact ⟨_, ‹_›, by constructor⟩

theorem starts_clauseAt {c : Char} {command : Command} (hget : t[i]? = some c)
    (hcommand : (clauseAt t i).command = .ok command) : Starts (clauseAt t i).modifiers.number c command := by
  obtain ⟨symbol, hsymbol, hstarts⟩ := starts_of_command hcommand
  obtain rfl : c = symbol := Option.some.inj ((symbol_clauseAt hget).symm.trans hsymbol)
  exact hstarts

theorem Starts.isSymbol {n : Option Nat} {symbol : Char} {command : Command} (h : Starts n symbol command) :
    isSymbol symbol = true := by
  cases h with
  | note hl =>
    unfold Letter.ofChar? at hl
    split at hl
    case h_8 => cases hl
    all_goals rfl
  | _ => rfl

theorem Unintelligible.command_ne (h : Unintelligible t) (offset : Nat) (command : Command) :
    (⟨t, offset⟩ : Clause).command ≠ .ok command := by
  intro hcommand
  obtain ⟨symbol, hsymbol, hstarts⟩ := starts_of_command hcommand
  have hnone := h.noSymbol symbol (List.mem_of_mem_head? hsymbol)
  rw [hstarts.isSymbol] at hnone
  cases hnone

variable {α : Type} [Lengths α]

/-- Clauses read one after another without a fault, and the notes that they yield. -/
inductive Reads : State α → List Clause → List Note → Prop
  | nil (s : State α) : Reads s [] []
  | cons {s : State α} {c : Clause} {cs : List Clause} {notes : List Note} :
      (s.feed c).fault = none → Reads (s.feed c).state cs notes → Reads s (c :: cs) ((s.feed c).note.toList ++ notes)

theorem Reads.fault_head {s : State α} {c : Clause} {cs : List Clause} {notes : List Note}
    (h : Reads s (c :: cs) notes) : (s.feed c).fault = none := by
  cases h with
  | cons hfault _ => exact hfault

theorem reads_feedAll {s : State α} {cs : List Clause} (h : (s.feedAll (cs.map .ok)).fault = none) :
    Reads s cs (s.feedAll (cs.map .ok)).notes := by
  induction cs generalizing s with
  | nil => exact .nil s
  | cons c cs ih =>
    rw [List.map_cons] at h ⊢
    cases hf : (s.feed c).fault with
    | some fault =>
      rw [feedAll_ok_of_some _ hf] at h
      cases h
    | none =>
      rw [feedAll_ok_of_none _ hf] at h ⊢
      exact .cons hf (ih h)

/-- A text without fault is read clause by clause. -/
theorem reads_of_read {notes : List Note} (h : (read t : Compilation α).result = .ok notes) :
    Reads (State.initial : State α) (clausesIn (normalize t) 0 (normalize t).length) notes := by
  obtain ⟨hfault, rfl⟩ := result_eq_ok.mp ((result_read t).symm.trans h)
  by_cases hsaid : Unintelligible (normalize t)
  · exfalso
    rw [clauses_of_unintelligible hsaid] at hfault
    have hreads : Reads (State.initial : State α) [⟨normalize t, 0⟩] _ := reads_feedAll hfault
    obtain ⟨command, hcommand⟩ := command_of_feed hreads.fault_head
    exact hsaid.command_ne 0 command hcommand
  · rw [clauses_of_intelligible hsaid] at hfault ⊢
    exact reads_feedAll hfault

/-- What holds before a stretch of a text and is carried over each of its places, holds after it. -/
theorem Reads.walk {s : State α} {n : Nat} {past notes : List Note} {motive : Nat → State α → List Note → Prop}
    (hr : Reads s (clausesIn t i n) notes) (hn : i + n = t.length) (h : motive i s past)
    (hskip : ∀ {i s past c}, t[i]? = some c → isSymbol c = false → motive i s past → motive (i + 1) s past)
    (hfeed : ∀ {i s past c}, t[i]? = some c → (s.feed (clauseAt t i)).fault = none → motive i s past →
      motive (i + 1) (s.feed (clauseAt t i)).state (past ++ (s.feed (clauseAt t i)).note.toList)) :
    ∃ s, motive t.length s (past ++ notes) := by
  induction n generalizing i s past notes with
  | zero =>
    cases hr
    rw [List.append_nil]
    exact ⟨s, hn ▸ h⟩
  | succ n ih =>
    have hget : t[i]? = some t[i] := List.getElem?_eq_getElem (by omega)
    rw [clausesIn_succ] at hr
    cases hstart : startsAt t i with
    | true =>
      rw [hstart, if_pos rfl] at hr
      cases hr with
      | cons hf hrest =>
        rw [← List.append_assoc]
        exact ih hrest (by omega) (hfeed hget hf h)
    | false =>
      rw [hstart] at hr
      exact ih hr (by omega) (hskip hget (by simpa [startsAt, hget] using hstart) h)

/-- What holds of nothing read, and is carried over every place of a text without fault, holds of
    all its notes. -/
theorem walk_of_read {notes : List Note} {motive : Nat → State α → List Note → Prop}
    (h : (read t : Compilation α).result = .ok notes) (hinitial : motive 0 State.initial [])
    (hskip : ∀ {i s past c}, (normalize t)[i]? = some c → isSymbol c = false →
      motive i s past → motive (i + 1) s past)
    (hfeed : ∀ {i s past c}, (normalize t)[i]? = some c → (s.feed (clauseAt (normalize t) i)).fault = none →
      motive i s past → motive (i + 1) (s.feed (clauseAt (normalize t) i)).state
        (past ++ (s.feed (clauseAt (normalize t) i)).note.toList)) :
    ∃ s, motive (normalize t).length s notes :=
  (reads_of_read h).walk (Nat.zero_add _) hinitial hskip hfeed

end Ostinato.Score
