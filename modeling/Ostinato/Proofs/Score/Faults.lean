import Ostinato.Proofs.Score.Binary64
import Ostinato.Proofs.Score.LookingBack

/-!
  Ostinato.Proofs.Score.Faults: which scores cannot be read, and what is said of them.

  Tempo and denominator at a place are found by looking back from it. A note or rest has no length
  there if one of them is zero, or if its dots lead to no positive number (`Lengthless`). A score
  is read up to the first place that has none, and the fault names the clause there (`FaultFrom`);
  without one it has notes. The one other fault is that a text says something and no command
  (`Unintelligible`); no clause is ever cut at a character that starts none.

  Dots are counted in 32 bits. No clause with as many as do not fit has a length, but the count
  starts again at zero, and then the clause is read as one with a few (`WrapsRound`). So a score is
  refused at its first note or rest without a length unless the dots of that one wrap round
  (`compile_faults_iff`), and such a score is read (`dots_wrap_round`).
-/

namespace Ostinato.Score

/-! ## Looking back -/

/-- The denominator of a clause: its own number, else the last one that was set. -/
def denominatorAt (t : Text) (i : Nat) : Nat := (clauseAt t i).modifiers.number.getD (denominatorBefore t i)

structure IsPositiveNumber (ms : Float) : Prop where
  finite : Lengths.isFinite ms = true
  positive : Lengths.isPositive ms = true

/-- A note or rest stands at a place, and by its tempo, its denominator and so many dots it has no
    length. -/
structure LengthlessWith (t : Text) (i dots : Nat) : Prop where
  starts : t[i]?.any startsNote = true
  noLength : tempoAt t i = 0 ∨ denominatorAt t i = 0 ∨
    ¬ IsPositiveNumber (Lengths.dotted (Lengths.fraction (tempoAt t i) (denominatorAt t i)) dots)

/-- A note or rest at a place has no length by all of its dots. -/
def Lengthless (t : Text) (i : Nat) : Prop := LengthlessWith t i ((clauseAt t i).body.count '.')

/-- It has none by its dots as they are counted. -/
def Refused (t : Text) (i : Nat) : Prop := LengthlessWith t i (clauseAt t i).modifiers.dots

/-- A note or rest with so many dots that their count starts again, at one that gives it a length. -/
structure WrapsRound (t : Text) (i : Nat) : Prop where
  starts : t[i]?.any startsNote = true
  many : UInt32.size ≤ (clauseAt t i).body.count '.'
  accepted : ¬ Refused t i

/-- The first place of which something holds. -/
structure First (P : Nat → Prop) (i : Nat) : Prop where
  holds : P i
  first : ∀ j < i, ¬ P j

variable {t : Text} {i : Nat} {c : Char} {s s' : State Float}

theorem First.unique {P : Nat → Prop} {j : Nat} (hi : First P i) (hj : First P j) : i = j := by
  rcases Nat.lt_trichotomy i j with hlt | heq | hlt
  · exact absurd hi.holds (hj.first i hlt)
  · exact heq
  · exact absurd hj.holds (hi.first j hlt)

theorem exists_first {P : Nat → Prop} (h : P i) : ∃ j ≤ i, First P j := by
  induction i using Nat.strong_induction_on with
  | _ i ih =>
    by_cases hfirst : ∀ j < i, ¬ P j
    · exact ⟨i, Nat.le_refl i, h, hfirst⟩
    · simp only [not_forall, not_not] at hfirst
      obtain ⟨k, hlt, hk⟩ := hfirst
      obtain ⟨j, hj, hholds⟩ := ih k hlt hk
      exact ⟨j, Nat.le_trans hj (Nat.le_of_lt hlt), hholds⟩

/-- Dots that are counted right decide; others leave no length, unless they wrap round. -/
theorem lengthless_iff : Lengthless t i ↔ Refused t i ∨ WrapsRound t i := by
  have hcounted : (clauseAt t i).modifiers.dots = (clauseAt t i).body.count '.' % UInt32.size := rfl
  by_cases hmany : UInt32.size ≤ (clauseAt t i).body.count '.'
  -- So many dots are past the last that counts, so with all of them no length is left.
  · have hall : t[i]?.any startsNote = true → Lengthless t i := by
      refine fun hstarts => ⟨hstarts, .inr (.inr fun hlength => ?_)⟩
      have hdots : Lengths.maxDots ≤ (clauseAt t i).body.count '.' := Nat.le_trans (by decide) hmany
      exact Bool.false_ne_true ((Binary64.isFinite_dotted_of_maxDots_le hdots _).symm.trans hlength.finite)
    constructor
    · intro h
      by_cases hrefused : Refused t i
      · exact .inl hrefused
      · exact .inr ⟨h.starts, hmany, hrefused⟩
    · rintro (h | h)
      · exact hall h.starts
      · exact hall h.starts
  · rw [Lengthless, Refused, hcounted, Nat.mod_eq_of_lt (Nat.lt_of_not_le hmany)]
    exact (or_iff_left fun h => hmany h.many).symm

/-! ## Lengths -/

theorem positive_eq_ok_iff {a ms : Float} : positive a = .ok ms ↔ a = ms ∧ IsPositiveNumber a := by
  unfold positive
  constructor
  · intro h
    split at h
    · rename_i hpositive
      rw [Bool.and_eq_true] at hpositive
      exact ⟨Except.ok.inj h, hpositive.1, hpositive.2⟩
    · cases h
  · rintro ⟨rfl, hfinite, hpositive⟩
    rw [if_pos (by rw [hfinite, hpositive]; rfl)]

/-- A clause has a length unless its tempo or denominator is zero, or its dots lead to no positive
    number. -/
theorem length_isOk (m : Modifiers) (tempo denominator : Nat) :
    (∃ ms : Float, m.length tempo denominator = .ok ms) ↔ ¬ (tempo = 0 ∨ m.number.getD denominator = 0 ∨
      ¬ IsPositiveNumber (Lengths.dotted (Lengths.fraction tempo (m.number.getD denominator)) m.dots)) := by
  unfold Modifiers.length
  generalize m.number.getD denominator = denominator
  by_cases ht : tempo = 0
  · refine iff_of_false ?_ fun h => h (.inl ht)
    rintro ⟨ms, h⟩
    rw [undotted, if_pos ht] at h
    cases h
  by_cases hd : denominator = 0
  · refine iff_of_false ?_ fun h => h (.inr (.inl hd))
    rintro ⟨ms, h⟩
    rw [undotted, if_neg ht, if_pos hd] at h
    cases h
  rw [undotted, if_neg ht, if_neg hd]
  constructor
  · rintro ⟨ms, h⟩ (hzero | hzero | hnone)
    · exact ht hzero
    · exact hd hzero
    · cases hbase : (positive (Lengths.fraction tempo denominator) : Except (LengthFault Float) Float) with
      | error e =>
        rw [hbase] at h
        cases h
      | ok base =>
        obtain ⟨rfl, -⟩ := positive_eq_ok_iff.mp hbase
        rw [hbase] at h
        exact hnone (positive_eq_ok_iff.mp h).2
  · intro h
    have hdotted := not_not.mp fun hnone => h (.inr (.inr hnone))
    have hbase := Binary64.positive_of_dotted hdotted.finite hdotted.positive
    rw [positive_eq_ok_iff.mpr ⟨rfl, hbase.1, hbase.2⟩]
    exact ⟨_, positive_eq_ok_iff.mpr ⟨rfl, hdotted⟩⟩

theorem command_of_symbol {clause : Clause} (h : clause.symbol? = some c) (hc : isSymbol c = true) :
    ∃ command, clause.command = .ok command ∧ command.takesTime = startsNote c := by
  simp only [isSymbol, startsNote, startsState, Bool.or_eq_true, List.contains_iff_mem] at hc
  unfold Clause.command
  rw [h]
  have hmem : c ∈ ['a', 'b', 'c', 'd', 'e', 'f', 'g', 'r', '<', '>', 'o', 't', 'v', 'l', ','] := by
    simpa [or_assoc] using hc
  fin_cases hmem
  all_goals exact ⟨_, rfl, rfl⟩

theorem lengthOf_clauseAt (h : Recalls t i s) (hstarts : t[i]?.any startsNote = true) :
    (∃ ms, s.lengthOf (clauseAt t i) ms) ↔ ¬ Refused t i := by
  unfold State.lengthOf
  rw [length_isOk, h.tempo, h.denominator]
  exact not_congr ⟨fun hnone => ⟨hstarts, hnone⟩, fun hnone => hnone.noLength⟩

/-- The clause at a place is at fault exactly if it is a note or rest that is refused. -/
theorem fault_clauseAt (h : Recalls t i s) (hget : t[i]? = some c) (hc : isSymbol c = true) :
    ((s.feed (clauseAt t i)).fault = none ∧ ¬ Refused t i) ∨ Refused t i ∧
      ∃ reason, (s.feed (clauseAt t i)).fault = some (.invalidLength (clauseAt t i).text i reason) := by
  obtain ⟨command, hcommand, ht⟩ := command_of_symbol (symbol_clauseAt hget) hc
  cases hstarts : startsNote c with
  | false =>
    refine .inl ⟨fault_feed_other hcommand (ht.trans hstarts), fun hnone => ?_⟩
    have := hnone.starts
    rw [hget, Option.any_some, hstarts] at this
    cases this
  | true =>
    have htime := ht.trans hstarts
    have hlength := lengthOf_clauseAt h (by rw [hget, Option.any_some, hstarts])
    by_cases hnone : Refused t i
    · refine .inr ⟨hnone, ?_⟩
      cases hl : ((clauseAt t i).modifiers.length s.tempo s.denominator : Except (LengthFault Float) Float) with
      | error e => exact ⟨e.message, by rw [feed_lengthless hcommand htime hl]; rfl⟩
      | ok ms => exact absurd hnone (hlength.mp ⟨ms, hl⟩)
    · obtain ⟨ms, hms⟩ := hlength.mpr hnone
      exact .inl ⟨fault_feed_of_length hcommand htime hms, hnone⟩

/-! ## The first fault -/

theorem not_refused_of_not_symbol (hstart : startsAt t i = false) : ¬ Refused t i := by
  intro h
  have hstarts := h.starts
  unfold startsAt at hstart
  cases hget : t[i]? with
  | none =>
    rw [hget] at hstarts
    cases hstarts
  | some c =>
    rw [hget] at hstarts hstart
    rw [Option.any_some, isSymbol, Bool.or_eq_false_iff] at hstart
    rw [Option.any_some, hstart.1] at hstarts
    cases hstarts

/-- Which fault the clauses from a place on have: that of the first one that is refused. -/
inductive FaultFrom (t : Text) (i : Nat) : Option Fault → Prop
  | none : (∀ j, i ≤ j → ¬ Refused t j) → FaultFrom t i none
  | refused {j : Nat} {reason : String} : i ≤ j → Refused t j → (∀ k, i ≤ k → k < j → ¬ Refused t k) →
      FaultFrom t i (some (.invalidLength (clauseAt t j).text j reason))

theorem FaultFrom.later {fault : Option Fault} (h : FaultFrom t (i + 1) fault) (hi : ¬ Refused t i) :
    FaultFrom t i fault := by
  have hfrom : ∀ j, i ≤ j → (i + 1 ≤ j → ¬ Refused t j) → ¬ Refused t j := by
    intro j hj hlater
    rcases Nat.eq_or_lt_of_le hj with rfl | hlt
    · exact hi
    · exact hlater hlt
  cases h with
  | none hall => exact .none fun j hj => hfrom j hj (hall j)
  | refused hj hnone hfirst =>
    exact .refused (Nat.le_of_succ_le hj) hnone fun k hk hlt => hfrom k hk fun hik => hfirst k hik hlt

theorem fault_clausesIn {n : Nat} (h : Recalls t i s) (hn : i + n = t.length) :
    FaultFrom t i (s.feedAll ((clausesIn t i n).map .ok)).fault := by
  -- By induction on the stretch that is left; `Recalls` ties the state to each place on the way.
  induction n generalizing i s with
  | zero =>
    refine .none fun j hj => not_refused_of_not_symbol ?_
    rw [startsAt, List.getElem?_eq_none (by omega)]
    rfl
  | succ n ih =>
    have hget : t[i]? = some t[i] := List.getElem?_eq_getElem (by omega)
    rw [clausesIn_succ]
    cases hstart : startsAt t i with
    | false =>
      have hs := h.skip hget (by simpa [startsAt, hget] using hstart)
      rw [if_neg Bool.false_ne_true]
      exact (ih hs (by omega)).later (not_refused_of_not_symbol hstart)
    | true =>
      have hsymbol : isSymbol t[i] = true := by simpa [startsAt, hget] using hstart
      rw [if_pos rfl, List.map_cons]
      rcases fault_clauseAt h hget hsymbol with ⟨hfault, hi⟩ | ⟨hi, reason, hfault⟩
      · rw [feedAll_ok_of_none _ hfault]
        exact (ih (h.feed hget hfault) (by omega)).later hi
      · rw [feedAll_ok_of_some _ hfault]
        exact .refused (Nat.le_refl i) hi fun k hk hlt => absurd hlt (Nat.not_lt.mpr hk)

/-! ## Texts that say nothing readable -/

theorem fault_of_unintelligible (h : Unintelligible t) (s : State Float) :
    (s.feed ⟨t, 0⟩).fault = some (.unknownClause t 0) := by
  cases hc : (⟨t, 0⟩ : Clause).command with
  | error fault => simp only [State.feed, hc, command_eq_error hc]
  | ok command => exact absurd hc (h.command_ne 0 command)

theorem not_refused_of_unintelligible (h : Unintelligible t) (i : Nat) : ¬ Refused t i := by
  refine not_refused_of_not_symbol ?_
  unfold startsAt
  cases hget : t[i]? with
  | none => rfl
  | some c => exact h.noSymbol c (List.mem_of_getElem? hget)

/-! ## Scores -/

inductive Outcome (source : Text) : Except Fault (List Note) → Prop
  | unknown : Unintelligible (normalize source) → Outcome source (.error (.unknownClause (normalize source) 0))
  | refused {i : Nat} {reason : String} : First (Refused (normalize source)) i →
      Outcome source (.error (.invalidLength (clauseAt (normalize source) i).text i reason))
  | notes {notes : List Note} : ¬ Unintelligible (normalize source) → (∀ i, ¬ Refused (normalize source) i) →
      Outcome source (.ok notes)

theorem outcome_compile (source : Text) : Outcome source (compile source) := by
  have hresult := compile_eq source
  by_cases hsaid : Unintelligible (normalize source)
  · have hfault := fault_of_unintelligible hsaid (State.initial : State Float)
    rw [clauses_of_unintelligible hsaid, feedAll_ok_of_some _ hfault] at hresult
    exact hresult ▸ .unknown hsaid
  · rw [clauses_of_intelligible hsaid] at hresult
    have hfrom := fault_clausesIn (.initial (normalize source)) (Nat.zero_add _)
    cases hfault : ((State.initial : State Float).feedAll
        ((clausesIn (normalize source) 0 (normalize source).length).map .ok)).fault with
    | none =>
      rw [hfault] at hfrom
      rw [hresult, result_eq_ok.mpr ⟨hfault, rfl⟩]
      cases hfrom with
      | none hall => exact .notes hsaid fun i => hall i (Nat.zero_le i)
    | some fault =>
      rw [hfault] at hfrom
      rw [hresult, result_eq_error.mpr hfault]
      cases hfrom with
      | refused _ hi hfirst => exact .refused ⟨hi, fun j hj => hfirst j (Nat.zero_le j) hj⟩

namespace Outcome

variable {source : Text} {r : Except Fault (List Note)}

theorem not_malformed (h : Outcome source r) (clause : Text) (offset : Nat) :
    r ≠ .error (.malformedClause clause offset) := by
  rintro rfl
  cases h

theorem unknown_iff (h : Outcome source r) (clause : Text) (offset : Nat) :
    r = .error (.unknownClause clause offset) ↔
      Unintelligible (normalize source) ∧ clause = normalize source ∧ offset = 0 := by
  constructor
  · rintro rfl
    cases h with
    | unknown hsaid => exact ⟨hsaid, rfl, rfl⟩
  · rintro ⟨hsaid, rfl, rfl⟩
    cases h with
    | unknown _ => rfl
    | refused hi => exact absurd hi.holds (not_refused_of_unintelligible hsaid _)
    | notes hnone _ => exact absurd hsaid hnone

theorem refused_iff (h : Outcome source r) (clause : Text) (offset : Nat) :
    (∃ reason, r = .error (.invalidLength clause offset reason)) ↔
      First (Refused (normalize source)) offset ∧ clause = (clauseAt (normalize source) offset).text := by
  constructor
  · rintro ⟨reason, rfl⟩
    cases h with
    | refused hi => exact ⟨hi, rfl⟩
  · rintro ⟨hfirst, rfl⟩
    cases h with
    | unknown hsaid => exact absurd hfirst.holds (not_refused_of_unintelligible hsaid _)
    | refused hi =>
      obtain rfl := hi.unique hfirst
      exact ⟨_, rfl⟩
    | notes _ hall => exact absurd hfirst.holds (hall _)

theorem notes_iff (h : Outcome source r) : (∃ notes, r = .ok notes) ↔
    ¬ Unintelligible (normalize source) ∧ ∀ i, ¬ Refused (normalize source) i := by
  constructor
  · rintro ⟨notes, rfl⟩
    cases h with
    | notes hsaid hall => exact ⟨hsaid, hall⟩
  · rintro ⟨hsaid, hall⟩
    cases h with
    | unknown hnone => exact absurd hnone hsaid
    | refused hi => exact absurd hi.holds (hall _)
    | notes _ _ => exact ⟨_, rfl⟩

end Outcome

theorem fault_feed_of_startsState {clause : Clause} (s : State Float) (h : clause.symbol?.any startsState = true) :
    (s.feed clause).fault = none := by
  obtain ⟨c, hsymbol, hstate⟩ := (Option.any_eq_true ..).mp h
  have hnote : startsNote c = false := by
    simp only [startsState, List.contains_iff_mem] at hstate
    have hmem : c ∈ ['<', '>', 'o', 't', 'v', 'l', ','] := by simpa using hstate
    fin_cases hmem
    all_goals rfl
  obtain ⟨command, hcommand, ht⟩ := command_of_symbol hsymbol (by rw [isSymbol, hstate, Bool.or_true])
  exact fault_feed_other hcommand (ht.trans hnote)

/-- A score is refused exactly at its first note or rest without a length, and otherwise read. -/
structure FaultsByLength (source : Text) : Prop where
  refused : ∀ clause offset, (∃ reason, compile source = .error (.invalidLength clause offset reason)) ↔
    First (Lengthless (normalize source)) offset ∧ clause = (clauseAt (normalize source) offset).text
  notes : (∃ notes, compile source = .ok notes) ↔
    ¬ Unintelligible (normalize source) ∧ ∀ i, ¬ Lengthless (normalize source) i

/-- Unless the first place without a length wraps round, it is the first one that is refused. -/
theorem first_refused_iff (h : ∀ i, First (Lengthless t) i → ¬ WrapsRound t i) :
    First (Refused t) i ↔ First (Lengthless t) i := by
  have hrefused : ∀ {j}, First (Lengthless t) j → Refused t j := fun hfirst =>
    (lengthless_iff.mp hfirst.holds).resolve_right (h _ hfirst)
  constructor
  · intro hfirst
    refine ⟨lengthless_iff.mpr (.inl hfirst.holds), fun j hlt hnone => ?_⟩
    -- An earlier one without a length would be the first, and that one is refused.
    obtain ⟨k, hk, hbefore⟩ := exists_first hnone
    exact hfirst.first k (Nat.lt_of_le_of_lt hk hlt) (hrefused hbefore)
  · exact fun hfirst => ⟨hrefused hfirst, fun j hlt hnone => hfirst.first j hlt (lengthless_iff.mpr (.inl hnone))⟩

theorem faultsByLength_iff (source : Text) : FaultsByLength source ↔
    ∀ i, First (Lengthless (normalize source)) i → ¬ WrapsRound (normalize source) i := by
  have houtcome := outcome_compile source
  constructor
  · intro h i hfirst hwraps
    have hfault := (h.refused _ i).mpr ⟨hfirst, rfl⟩
    exact hwraps.accepted ((houtcome.refused_iff _ i).mp hfault).1.holds
  · intro h
    refine ⟨fun clause offset => ?_, ?_⟩
    · rw [houtcome.refused_iff, first_refused_iff h]
    · rw [houtcome.notes_iff]
      refine and_congr_right fun _ => ⟨fun hnone i hlengthless => ?_, fun hnone i hrefused => ?_⟩
      · obtain ⟨j, -, hfirst⟩ := exists_first hlengthless
        exact hnone j ((first_refused_iff h).mpr hfirst).holds
      · exact hnone i (lengthless_iff.mpr (.inl hrefused))

/-- A score is at fault as a whole if it says something and no command, and no other clause is
    unknown or malformed; state commands are never at fault. It is at fault at its first note or
    rest without a length, and has notes if there is none, exactly if the dots of that one do not
    wrap round. -/
theorem compile_faults_iff (source : Text) :
    (∀ clause offset, compile source ≠ .error (.malformedClause clause offset)) ∧
    (∀ clause offset, compile source = .error (.unknownClause clause offset) ↔
      Unintelligible (normalize source) ∧ clause = normalize source ∧ offset = 0) ∧
    (∀ (s : State Float) (c : Clause), c.symbol?.any startsState = true → (s.feed c).fault = none) ∧
    (FaultsByLength source ↔ ∀ i, First (Lengthless (normalize source)) i → ¬ WrapsRound (normalize source) i) := by
  have houtcome := outcome_compile source
  exact ⟨houtcome.not_malformed, houtcome.unknown_iff, fun s c h => fault_feed_of_startsState s h,
    faultsByLength_iff source⟩

/-- A note with nothing but dots. -/
def dotted (n : Nat) : Text := 'c' :: List.replicate n '.'

theorem blankFrom_of_no_sign (before : Option Char) {t : Text} (h : '#' ∉ t) : blankFrom false before t = t := by
  induction t generalizing before with
  | nil => rfl
  | cons c cs ih =>
    have hc : (c == '#') = false := beq_eq_false_iff_ne.mpr fun heq => h (heq ▸ List.mem_cons_self ..)
    have hcs := ih (some c) fun hmem => h (List.mem_cons_of_mem c hmem)
    rw [blankFrom, opensComment, hc, Bool.false_and, Bool.or_false, if_neg Bool.false_ne_true, hcs, ite_self]

theorem normalize_dotted (n : Nat) : normalize (dotted n) = dotted n := by
  have hsign : '#' ∉ dotted n := by simp [dotted, List.mem_replicate]
  rw [normalize, blankComments, blankFrom_of_no_sign none hsign, dotted, List.map_cons, List.map_replicate]
  rfl

theorem clauseAt_dotted (n : Nat) : clauseAt (dotted n) 0 = ⟨dotted n, 0⟩ := by
  have hrest : (List.replicate n '.').takeWhile (!isSymbol ·) = List.replicate n '.' :=
    List.takeWhile_eq_self_iff.mpr fun c hc => by rw [List.eq_of_mem_replicate hc]; rfl
  simp [clauseAt, dotted, hrest]

/-- Such a note has a length if its dots are counted as none. -/
theorem not_refused_dotted {n : Nat} (h : n % UInt32.size = 0) (i : Nat) : ¬ Refused (dotted n) i := by
  intro hrefused
  cases i with
  | succ i =>
    have hstarts := hrefused.starts
    rw [dotted, List.getElem?_cons_succ, List.getElem?_replicate] at hstarts
    split at hstarts <;> cases hstarts
  | zero =>
    have hdots : (clauseAt (dotted n) 0).modifiers.dots = 0 := by
      rw [clauseAt_dotted, Clause.modifiers, Modifiers.ofText]
      simpa [Clause.body, dotted] using h
    have hnumber : (clauseAt (dotted n) 0).modifiers.number = none := by
      rw [clauseAt_dotted, Clause.modifiers, Modifiers.ofText]
      simp [Clause.body, dotted, number?, digit?]
    have hdenominator : denominatorAt (dotted n) 0 = 4 := by
      rw [denominatorAt, hnumber]
      rfl
    have htempo : tempoAt (dotted n) 0 = 60 := rfl
    have hlength := hrefused.noLength
    rw [hdots, htempo, hdenominator] at hlength
    rcases hlength with hzero | hzero | hnone
    · cases hzero
    · cases hzero
    · exact hnone ⟨by decide +kernel, by decide +kernel⟩

/-- A note with 4294967296 dots is read as one without any. -/
theorem dots_wrap_round : (∃ notes, compile (dotted 4294967296) = .ok notes) ∧
    First (Lengthless (normalize (dotted 4294967296))) 0 := by
  have hread : ∀ i, ¬ Refused (dotted 4294967296) i := not_refused_dotted (by decide)
  have hwraps : WrapsRound (dotted 4294967296) 0 := by
    refine ⟨rfl, ?_, hread 0⟩
    rw [clauseAt_dotted, Clause.body, dotted, List.tail_cons, List.count_replicate_self]
  rw [(outcome_compile _).notes_iff, normalize_dotted]
  refine ⟨⟨fun hsaid => ?_, hread⟩, lengthless_iff.mpr (.inr hwraps), fun j hlt => absurd hlt (Nat.not_lt_zero j)⟩
  cases hsaid.noSymbol 'c' (List.mem_cons_self ..)

/-- A tempo and a denominator of zero that no note is read with. -/
example : compile "l0t0v.t60c4".toList = .ok [⟨9, "c4".toList, 0, 127, 60, 0, 1000⟩] := by decide +kernel

end Ostinato.Score
