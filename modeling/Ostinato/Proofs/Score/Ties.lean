import Ostinato.Proofs.Score.Gapless
import Ostinato.Proofs.Score.Tracks

/-!
  Ostinato.Proofs.Score.Ties: no time is lost in a tie.

  Lengths are read here in exact arithmetic, in which sums can be put together in any order. The
  time of a clause is its own length at the tempo and denominator of its moment (`State.timeOf`).
  A clause that is not at fault does one of four things to the time: it ends what was tied, is
  tied on, starts a track, or takes none (`TimeEffect`, `timeEffect_feed`). So the cursor and what is left
  over are together the time since the track was started, and what was left over then
  (`Conserved.elapsed`); what is left over is the time since a note or rest was last not tied on,
  whatever commands and tracks were in between (`Conserved.left`). A note that is not tied on
  takes all of that, from where the cursor stood when the first of its ties was read, as long as
  no track was started since (`EndsTie`).
-/

namespace Ostinato.Score

/-! ## Exact lengths -/

instance : Lengths ℚ where
  zero := 0
  add := (· + ·)
  fraction tempo denominator := 240 / (tempo * denominator) * 1000
  dotted ms dots := ms * (3 / 2) ^ min dots Lengths.maxDots
  isFinite _ := true
  isPositive := (0 < ·)
  toMillis ms := min ⌊ms + 1 / 2⌋.toNat maxMillis
  write := toString

theorem isPositive_rat {a : ℚ} : Lengths.isPositive a = true ↔ 0 < a := decide_eq_true_iff

instance : LawfulLengths ℚ where
  toMillis_zero := by decide +kernel
  toMillis_le _ := Nat.min_le_right ..
  isPositive_add := by
    intro a b ha hb h
    have hnonneg : ∀ {x : ℚ}, Lengths.IsLength x → 0 ≤ x := by
      rintro x (rfl | hx)
      · exact le_refl _
      · exact le_of_lt (isPositive_rat.mp hx)
    rw [isPositive_rat]
    rcases h with h | h
    · exact add_pos_of_pos_of_nonneg (isPositive_rat.mp h) (hnonneg hb)
    · exact add_pos_of_nonneg_of_pos (hnonneg ha) (isPositive_rat.mp h)
  toMillis_le_add := by
    intro a b hb
    have hle : ⌊a + 1 / 2⌋ ≤ ⌊a + b + 1 / 2⌋ := by
      refine Int.floor_le_floor ?_
      linarith [isPositive_rat.mp hb]
    exact min_le_min_right _ (Int.toNat_le_toNat hle)

/-! ## Time -/

def Clause.startsTrack (c : Clause) : Bool :=
  match c.command with
  | .ok .nextTrack => true
  | _ => false

/-- Whether a clause is a note or rest that is not tied on. -/
def Clause.endsTie (c : Clause) : Bool := c.takesTime && !c.modifiers.tie

/-- The time that a clause takes of itself. -/
def State.timeOf (s : State ℚ) (c : Clause) : ℚ :=
  if c.takesTime then
    match (c.modifiers.length s.tempo s.denominator : Except (LengthFault ℚ) ℚ) with
    | .ok ms => ms
    | .error _ => 0
  else 0

/-- The time that clauses take of themselves, read one after another. -/
def State.timeIn (s : State ℚ) : List Clause → ℚ
  | [] => 0
  | c :: cs => s.timeOf c + (s.feed c).state.timeIn cs

/-- The clauses up to the last one of a kind, with it. -/
def throughLast (kind : Clause → Bool) (cs : List Clause) : List Clause := cs.rdropWhile fun c => !kind c

/-- The clauses after the last one of a kind. -/
def sinceLast (kind : Clause → Bool) (cs : List Clause) : List Clause := cs.rtakeWhile fun c => !kind c

/-- The state that a score's clauses lead to. -/
def exactly (cs : List Clause) : State ℚ := State.initial.after cs

/-- The time of the clauses after the last one of a kind. -/
def timeSince (kind : Clause → Bool) (cs : List Clause) : ℚ :=
  (exactly (throughLast kind cs)).timeIn (sinceLast kind cs)

variable {s : State ℚ} {c : Clause} {cs : List Clause} {kind : Clause → Bool}

theorem timeIn_concat (s : State ℚ) (cs : List Clause) (c : Clause) :
    s.timeIn (cs ++ [c]) = s.timeIn cs + (s.after cs).timeOf c := by
  induction cs generalizing s with
  | nil => simp [State.timeIn]
  | cons d cs ih => rw [List.cons_append, State.timeIn, State.timeIn, ih, after_cons, add_assoc]

theorem exactly_concat (cs : List Clause) (c : Clause) : exactly (cs ++ [c]) = ((exactly cs).feed c).state :=
  after_concat ..

theorem exactly_append (cs ds : List Clause) : exactly (cs ++ ds) = (exactly cs).after ds := List.foldl_append

theorem throughLast_append_sinceLast (kind : Clause → Bool) (cs : List Clause) :
    throughLast kind cs ++ sinceLast kind cs = cs := List.rdropWhile_append_rtakeWhile ..

theorem timeSince_of_kind (cs : List Clause) (h : kind c = true) :
    throughLast kind (cs ++ [c]) = cs ++ [c] ∧ timeSince kind (cs ++ [c]) = 0 := by
  have hthrough : throughLast kind (cs ++ [c]) = cs ++ [c] := List.rdropWhile_concat_neg _ _ _ (by simp [h])
  have hsince : sinceLast kind (cs ++ [c]) = [] := List.rtakeWhile_concat_neg _ _ _ (by simp [h])
  exact ⟨hthrough, by rw [timeSince, hsince]; rfl⟩

theorem timeSince_of_other (cs : List Clause) (h : kind c = false) : throughLast kind (cs ++ [c]) = throughLast kind cs ∧
    timeSince kind (cs ++ [c]) = timeSince kind cs + (exactly cs).timeOf c := by
  have hthrough : throughLast kind (cs ++ [c]) = throughLast kind cs := List.rdropWhile_concat_pos _ _ _ (by simp [h])
  have hsince : sinceLast kind (cs ++ [c]) = sinceLast kind cs ++ [c] := List.rtakeWhile_concat_pos _ _ _ (by simp [h])
  refine ⟨hthrough, ?_⟩
  rw [timeSince, timeSince, hthrough, hsince, timeIn_concat, ← exactly_append, throughLast_append_sinceLast]

theorem timeOf_eq_zero (h : c.takesTime = false) (s : State ℚ) : s.timeOf c = 0 := by
  simp [State.timeOf, h]

theorem timeOf_eq {ms : ℚ} (h : c.takesTime = true) (hl : s.lengthOf c ms) : s.timeOf c = ms := by
  have hlength : c.modifiers.length s.tempo s.denominator = .ok ms := hl
  simp [State.timeOf, h, hlength]

/-! ## One clause -/

/-- What a clause does to the time. -/
inductive TimeEffect (s : State ℚ) (c : Clause) (s' : State ℚ) : Prop
  | ends (htrack : c.startsTrack = false) (hends : c.endsTie = true) (hpositive : 0 < s.timeOf c)
      (hcursor : s'.cursor = s.cursor + (s.timeOf c + s.pending)) (hpending : s'.pending = 0)
  | tied (htrack : c.startsTrack = false) (hends : c.endsTie = false) (hpositive : 0 < s.timeOf c)
      (hcursor : s'.cursor = s.cursor) (hpending : s'.pending = s.pending + s.timeOf c)
  | nextTrack (htrack : c.startsTrack = true) (hends : c.endsTie = false) (hzero : s.timeOf c = 0)
      (hcursor : s'.cursor = 0) (hpending : s'.pending = s.pending)
  | quiet (htrack : c.startsTrack = false) (hends : c.endsTie = false) (hzero : s.timeOf c = 0)
      (hcursor : s'.cursor = s.cursor) (hpending : s'.pending = s.pending)

theorem startsTrack_iff : c.startsTrack = true ↔ c.command = .ok .nextTrack := by
  unfold Clause.startsTrack
  split
  · simp [*]
  · rename_i h
    simpa using h

theorem not_endsTie_of_no_time (h : c.takesTime = false) : c.endsTie = false := by
  simp [Clause.endsTie, h]

theorem timeEffect_feed (hf : (s.feed c).fault = none) : TimeEffect s c (s.feed c).state := by
  obtain ⟨command, hc⟩ := command_of_feed hf
  cases ht : command.takesTime with
  | true =>
    obtain ⟨ms, hl⟩ := lengthOf_of_fault hc ht hf
    have htakes : c.takesTime = true := takesTime_iff.mpr ⟨command, hc, ht⟩
    have htime : s.timeOf c = ms := timeOf_eq htakes hl
    have hpositive : 0 < s.timeOf c := htime ▸ isPositive_rat.mp (isPositive_length hl)
    have htrack : c.startsTrack = false := by
      refine Bool.eq_false_iff.mpr fun h => ?_
      cases hc.symm.trans (startsTrack_iff.mp h)
      cases ht
    cases htie : c.modifiers.tie with
    | true =>
      rw [feed_tied_of_length hc ht hl htie]
      exact .tied htrack (by simp [Clause.endsTie, htie]) hpositive rfl (htime ▸ rfl)
    | false =>
      rw [(feed_untied hc ht hl htie).1]
      exact .ends htrack (by simp [Clause.endsTie, htakes, htie]) hpositive (htime ▸ rfl) rfl
  | false =>
    have htakes : c.takesTime = false := by simp [Clause.takesTime, hc, ht]
    have hends := not_endsTie_of_no_time htakes
    have hzero := timeOf_eq_zero htakes s
    by_cases hn : command = .nextTrack
    · subst hn
      rw [feed_nextTrack hc]
      exact .nextTrack (startsTrack_iff.mpr hc) hends hzero rfl rfl
    · obtain ⟨-, -, hcursor, hpending⟩ := feed_other (s := s) hc ht hn
      refine .quiet ?_ hends hzero hcursor hpending
      exact Bool.eq_false_iff.mpr fun h => hn (Except.ok.inj (hc.symm.trans (startsTrack_iff.mp h)))

/-! ## Clause after clause -/

/-- Where the time has gone that some clauses took. -/
structure Conserved (cs : List Clause) : Prop where
  /-- The time since the track was started, tied on or not, and what was left over then. -/
  elapsed : (exactly cs).cursor + (exactly cs).pending =
    timeSince Clause.startsTrack cs + (exactly (throughLast Clause.startsTrack cs)).pending
  /-- The time since a note or rest was last not tied on. -/
  left : (exactly cs).pending = timeSince Clause.endsTie cs
  nonneg : 0 ≤ (exactly cs).pending

theorem Conserved.nil : Conserved [] where
  elapsed := by decide +kernel
  left := by decide +kernel
  nonneg := le_refl _

theorem Conserved.feed (h : Conserved cs) (hf : ((exactly cs).feed c).fault = none) : Conserved (cs ++ [c]) := by
  have hstate := exactly_concat cs c
  cases timeEffect_feed hf with
  | ends htrack hends hpositive hcursor hpending =>
    rw [← hstate] at hcursor hpending
    obtain ⟨hthrough, hsince⟩ := timeSince_of_other cs htrack
    refine ⟨?_, ?_, le_of_eq hpending.symm⟩
    · rw [hthrough, hsince, hcursor, hpending]
      linarith [h.elapsed]
    · rw [hpending, (timeSince_of_kind cs hends).2]
  | tied htrack hends hpositive hcursor hpending =>
    rw [← hstate] at hcursor hpending
    obtain ⟨hthrough, hsince⟩ := timeSince_of_other cs htrack
    refine ⟨?_, ?_, ?_⟩
    · rw [hthrough, hsince, hcursor, hpending]
      linarith [h.elapsed]
    · rw [hpending, (timeSince_of_other cs hends).2, h.left]
    · rw [hpending]
      linarith [h.nonneg]
  | nextTrack htrack hends hzero hcursor hpending =>
    rw [← hstate] at hcursor hpending
    obtain ⟨hthrough, hsince⟩ := timeSince_of_kind cs htrack
    refine ⟨?_, ?_, hpending ▸ h.nonneg⟩
    · rw [hthrough, hsince, hcursor]
    · rw [hpending, (timeSince_of_other cs hends).2, hzero, add_zero, h.left]
  | quiet htrack hends hzero hcursor hpending =>
    rw [← hstate] at hcursor hpending
    obtain ⟨hthrough, hsince⟩ := timeSince_of_other cs htrack
    refine ⟨?_, ?_, hpending ▸ h.nonneg⟩
    · rw [hthrough, hsince, hcursor, hpending, hzero, add_zero, h.elapsed]
    · rw [hpending, (timeSince_of_other cs hends).2, hzero, add_zero, h.left]

theorem conserved (hf : Faultless (State.initial : State ℚ) cs) : Conserved cs := by
  induction cs using List.reverseRecOn with
  | nil => exact .nil
  | append_singleton cs c ih =>
    obtain ⟨hfirst, hfault⟩ := faultless_concat.mp hf
    exact (ih hfirst).feed hfault

/-- The cursor stands still while everything is tied on and no track is started. -/
theorem cursor_after_tied (hf : Faultless s cs) (hends : ∀ d ∈ cs, d.endsTie = false)
    (htrack : ∀ d ∈ cs, d.startsTrack = false) : (s.after cs).cursor = s.cursor := by
  induction cs using List.reverseRecOn with
  | nil => rfl
  | append_singleton cs c ih =>
    obtain ⟨hfirst, hfault⟩ := faultless_concat.mp hf
    have hbefore := ih hfirst (fun d hd => hends d (List.mem_append_left _ hd))
      fun d hd => htrack d (List.mem_append_left _ hd)
    have hc : c ∈ cs ++ [c] := List.mem_append_right _ (List.mem_singleton_self c)
    rw [after_concat]
    cases timeEffect_feed hfault with
    | ends htrack' hends' => simp [hends c hc] at hends'
    | tied htrack' hends' hpositive hcursor hpending => rw [hcursor, hbefore]
    | nextTrack htrack' => simp [htrack c hc] at htrack'
    | quiet htrack' hends' hzero hcursor hpending => rw [hcursor, hbefore]

/-! ## Notes that end ties -/

/-- When a note sounds that is not tied on, after some clauses. -/
structure EndsTie (cs : List Clause) (c : Clause) (n : Note) : Prop where
  start : n.start = Lengths.toMillis (exactly cs).cursor
  /-- That is where each note or rest that is tied to it would start, the first one for instance, if
      no track was started since. -/
  joined : ∀ before d tail letter ms, sinceLast Clause.endsTie cs = before ++ d :: tail → d.takesTime = true →
    (∀ e ∈ tail, e.startsTrack = false) →
    n.start = ((exactly (throughLast Clause.endsTie cs ++ before)).sound d letter ms).start
  /-- It sounds for its own time and for that of all that is tied to it. -/
  stop : n.stop = Lengths.toMillis ((exactly cs).cursor + (timeSince Clause.endsTie cs + (exactly cs).timeOf c))

/-- Tied clauses start where the last one does, on one track. -/
theorem cursor_of_tie (hf : Faultless (State.initial : State ℚ) cs) {before tail : List Clause} {d : Clause}
    (htie : sinceLast Clause.endsTie cs = before ++ d :: tail) (hd : d.takesTime = true)
    (htail : ∀ e ∈ tail, e.startsTrack = false) :
    (exactly (throughLast Clause.endsTie cs ++ before)).cursor = (exactly cs).cursor := by
  -- From `d` on no clause ends a tie, and none starts a track, so the cursor has not moved since.
  have hcs : (throughLast Clause.endsTie cs ++ before) ++ d :: tail = cs := by
    rw [List.append_assoc, ← htie, throughLast_append_sinceLast]
  have hends : ∀ e ∈ d :: tail, e.endsTie = false := by
    intro e he
    have hmem : e ∈ sinceLast Clause.endsTie cs := htie ▸ List.mem_append_right _ he
    simpa using List.mem_rtakeWhile_imp hmem
  have htrack : ∀ e ∈ d :: tail, e.startsTrack = false := by
    refine List.forall_mem_cons.mpr ⟨Bool.eq_false_iff.mpr fun h => ?_, htail⟩
    obtain ⟨command, hc, ht⟩ := takesTime_iff.mp hd
    cases hc.symm.trans (startsTrack_iff.mp h)
    cases ht
  have hlater : Faultless (exactly (throughLast Clause.endsTie cs ++ before)) (d :: tail) :=
    Faultless.after (hcs.symm ▸ hf)
  conv_rhs => rw [← hcs, exactly_append]
  exact (cursor_after_tied hlater hends htrack).symm

theorem endsTie_feed (hf : Faultless (State.initial : State ℚ) cs) (hfault : ((exactly cs).feed c).fault = none)
    {letter : Letter} (hc : c.command = .ok (.note letter)) (htie : c.modifiers.tie = false) :
    ∃ n, ((exactly cs).feed c).note = some n ∧ EndsTie cs c n := by
  obtain ⟨ms, hl, hfeed⟩ := feed_note hc hfault htie
  have htime : (exactly cs).timeOf c = ms := timeOf_eq (takesTime_iff.mpr ⟨_, hc, rfl⟩) hl
  have hpositive : Lengths.isPositive ((exactly cs).total ms) = true := by
    refine isPositive_rat.mpr (add_pos_of_pos_of_nonneg ?_ (conserved hf).nonneg)
    exact isPositive_rat.mp (isPositive_length hl)
  rw [hfeed]
  refine ⟨_, rfl, rfl, fun before d tail letter' ms' hsince hd htail => ?_, ?_⟩
  · show Lengths.toMillis (exactly cs).cursor = Lengths.toMillis _
    rw [cursor_of_tie hf hsince hd htail]
  · rw [stop_sound _ c letter hpositive, htime, ← (conserved hf).left, add_comm _ ms]
    rfl

/-- At every point of clauses that are read without a fault, the cursor and what ties left over are
    the time of the track and what it began with, what is left over is the time of the clauses that
    are tied on, and a note that follows and is not tied on sounds for all of it. -/
theorem time_is_conserved {cs : List Clause} (hf : Faultless (State.initial : State ℚ) cs) :
    ∀ past rest, cs = past ++ rest → Conserved past ∧
      ∀ c later letter, rest = c :: later → c.command = .ok (.note letter) → c.modifiers.tie = false →
        ∃ n, ((exactly past).feed c).note = some n ∧ EndsTie past c n := by
  rintro past rest rfl
  have hpast : Faultless (State.initial : State ℚ) past := hf.before
  refine ⟨conserved hpast, ?_⟩
  rintro c later letter rfl hc htie
  have hlater : Faultless (exactly past) (c :: later) := hf.after
  exact endsTie_feed hpast (hlater _ (List.mem_cons_self ..)) hc htie

/-- A tie that goes on over a change of tempo and a rest, and another one that goes on over tracks. -/
theorem time_is_conserved_across_tracks :
    let tied : List Clause := [⟨"c".toList, 0⟩, ⟨"l8".toList, 1⟩, ⟨"d&".toList, 3⟩, ⟨"t120".toList, 5⟩,
      ⟨"r4.&".toList, 9⟩]
    let closing : Clause := ⟨"e".toList, 13⟩
    let across : List Clause := tied ++ [closing, ⟨"g&".toList, 14⟩, ⟨",".toList, 16⟩, ⟨"a2&".toList, 17⟩]
    let last : Clause := ⟨"b".toList, 20⟩
    Faultless (State.initial : State ℚ) (across ++ [last]) ∧
    (Conserved tied ∧ ∃ n, ((exactly tied).feed closing).note = some n ∧ EndsTie tied closing n ∧
      (n.start, n.stop) = (1000, 2500)) ∧
    (Conserved across ∧ ∃ n, ((exactly across).feed last).note = some n ∧ EndsTie across last n ∧
      (n.start, n.stop) = (0, 1500)) := by
  intro tied closing across last
  have hf : Faultless (State.initial : State ℚ) (across ++ [last]) := by decide +kernel
  obtain ⟨htied, hnote⟩ := time_is_conserved hf tied _ (List.append_assoc ..)
  obtain ⟨hacross, hlast⟩ := time_is_conserved hf across [last] rfl
  obtain ⟨n, hn, hends⟩ := hnote closing _ .e rfl rfl rfl
  obtain ⟨m, hm, hmends⟩ := hlast last [] .b rfl rfl rfl
  have hspan : (((exactly tied).feed closing).note.map fun n => (n.start, n.stop)) = some (1000, 2500) := by
    decide +kernel
  have hmspan : (((exactly across).feed last).note.map fun n => (n.start, n.stop)) = some (0, 1500) := by
    decide +kernel
  rw [hn] at hspan
  rw [hm] at hmspan
  exact ⟨hf, ⟨htied, n, hn, hends, Option.some.inj hspan⟩, hacross, m, hm, hmends, Option.some.inj hmspan⟩

end Ostinato.Score
