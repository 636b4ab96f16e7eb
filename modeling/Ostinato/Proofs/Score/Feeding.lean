import Ostinato.Score.Compile

/-!
  Ostinato.Proofs.Score.Feeding: what reading clauses does.

  A note or a rest takes time. Without a length it is at fault (`feed_lengthless`). Tied on, it
  leaves its length over (`feed_tied`); otherwise the cursor moves on by its length and by what
  was left over, and a note sounds from where the cursor stood (`feed_note`, `feed_rest`). The
  other commands take no time and are never at fault (`fault_feed_other`): they yield
  nothing and leave the cursor where it is, but for the one that starts a track
  (`feed_other`, `feed_nextTrack`).

  Clauses read one after another are read as their first ones, and then the others from the
  state that these lead to, unless they are at fault (`feedAll_append_of_none`,
  `feedAll_append_of_some`).
-/

namespace Ostinato.Score

variable {α : Type} [Lengths α] {s : State α} {c : Clause}

def Command.takesTime : Command → Bool
  | .note _ | .rest => true
  | _ => false

/-- The state once what was left over is used up. -/
def State.settled (s : State α) : State α := { s with pending := Lengths.zero }

/-- A length together with what was left over. -/
def State.total (s : State α) (ms : α) : α := Lengths.add ms s.pending

def State.lengthOf (s : State α) (c : Clause) (ms : α) : Prop := c.modifiers.length s.tempo s.denominator = .ok ms

theorem positive_eq_ok {a ms : α} (h : positive a = .ok ms) : Lengths.isPositive ms = true := by
  unfold positive at h
  split at h
  · cases h
    simp_all
  · cases h

theorem isPositive_length {m : Modifiers} {tempo denominator : Nat} {ms : α}
    (h : m.length tempo denominator = .ok ms) : Lengths.isPositive ms = true := by
  unfold Modifiers.length at h
  cases hu : (undotted tempo (m.number.getD denominator) : Except (LengthFault α) α) with
  | error e => rw [hu] at h; cases h
  | ok a => rw [hu] at h; exact positive_eq_ok h

theorem withLength_of_error {e : LengthFault α} (finished : State α → α → Reading α)
    (h : c.modifiers.length s.tempo s.denominator = .error e) :
    s.withLength c finished = { s.only with fault := some (.invalidLength c.text c.offset e.message) } := by
  simp only [State.withLength, h]

theorem withLength_of_length {ms : α} (finished : State α → α → Reading α) (h : s.lengthOf c ms) :
    s.withLength c finished = if c.modifiers.tie then { s with pending := Lengths.add s.pending ms }.only
      else finished s.settled (s.total ms) := by
  have hl : c.modifiers.length s.tempo s.denominator = .ok ms := h
  simp only [State.withLength, hl]
  unfold joinTie
  cases c.modifiers.tie <;> rfl

theorem command_eq_error {c : Clause} {fault : Fault} (h : c.command = .error fault) :
    fault = .unknownClause c.text c.offset := by
  unfold Clause.command at h
  dsimp only at h
  split at h
  case h_9 symbol _ _ _ _ _ _ _ _ _ =>
    cases hl : Letter.ofChar? symbol with
    | none =>
      rw [hl] at h
      exact (Except.error.inj h).symm
    | some letter =>
      rw [hl] at h
      cases h
  case h_10 => exact (Except.error.inj h).symm
  all_goals cases h

/-- A fault of the command is one of the clause. -/
theorem command_of_feed (h : (s.feed c).fault = none) : ∃ command, c.command = .ok command := by
  cases hc : c.command with
  | ok command => exact ⟨command, rfl⟩
  | error fault => simp [State.feed, hc] at h

/-- A note or rest without a length changes nothing. -/
theorem feed_lengthless {command : Command} {e : LengthFault α} (hc : c.command = .ok command)
    (ht : command.takesTime = true) (h : c.modifiers.length s.tempo s.denominator = .error e) :
    s.feed c = { s.only with fault := some (.invalidLength c.text c.offset e.message) } := by
  unfold State.feed
  rw [hc]
  cases command with
  | note letter => exact withLength_of_error _ h
  | rest => exact withLength_of_error _ h
  | _ => cases ht

theorem lengthOf_of_fault {command : Command} (hc : c.command = .ok command) (ht : command.takesTime = true)
    (hf : (s.feed c).fault = none) : ∃ ms, s.lengthOf c ms := by
  cases hl : (c.modifiers.length s.tempo s.denominator : Except (LengthFault α) α) with
  | ok ms => exact ⟨ms, hl⟩
  | error e =>
    rw [feed_lengthless hc ht hl] at hf
    cases hf

theorem feed_tied_of_length {command : Command} {ms : α} (hc : c.command = .ok command)
    (ht : command.takesTime = true) (hl : s.lengthOf c ms) (htie : c.modifiers.tie = true) :
    s.feed c = { s with pending := Lengths.add s.pending ms }.only := by
  unfold State.feed
  rw [hc]
  cases command with
  | note letter => exact (withLength_of_length _ hl).trans (if_pos htie)
  | rest => exact (withLength_of_length _ hl).trans (if_pos htie)
  | _ => cases ht

theorem feed_note_of_length {letter : Letter} {ms : α} (hc : c.command = .ok (.note letter))
    (hl : s.lengthOf c ms) (htie : c.modifiers.tie = false) : s.feed c =
      { (s.settled.pass (s.total ms)).only with note := some (s.settled.sound c letter (s.total ms)) } := by
  unfold State.feed
  rw [hc]
  exact (withLength_of_length _ hl).trans (if_neg (ne_true_of_eq_false htie))

theorem feed_rest_of_length {ms : α} (hc : c.command = .ok .rest) (hl : s.lengthOf c ms)
    (htie : c.modifiers.tie = false) : s.feed c = (s.settled.pass (s.total ms)).only := by
  unfold State.feed
  rw [hc]
  exact (withLength_of_length _ hl).trans (if_neg (ne_true_of_eq_false htie))

/-- A note or rest that is not tied on moves the cursor on. -/
theorem feed_untied {command : Command} {ms : α} (hc : c.command = .ok command) (ht : command.takesTime = true)
    (hl : s.lengthOf c ms) (htie : c.modifiers.tie = false) :
    (s.feed c).state = s.settled.pass (s.total ms) ∧ (s.feed c).fault = none := by
  cases command with
  | note letter =>
    rw [feed_note_of_length hc hl htie]
    exact ⟨rfl, rfl⟩
  | rest =>
    rw [feed_rest_of_length hc hl htie]
    exact ⟨rfl, rfl⟩
  | _ => cases ht

theorem fault_feed_of_length {command : Command} {ms : α} (hc : c.command = .ok command)
    (ht : command.takesTime = true) (hl : s.lengthOf c ms) : (s.feed c).fault = none := by
  cases htie : c.modifiers.tie with
  | true =>
    rw [feed_tied_of_length hc ht hl htie]
    rfl
  | false => exact (feed_untied hc ht hl htie).2

/-- A command that takes time changes nothing but the cursor and what is left over. -/
theorem state_feed_time {command : Command} (s : State α) (hc : c.command = .ok command)
    (ht : command.takesTime = true) :
    ∃ cursor pending, (s.feed c).state = { s with cursor := cursor, pending := pending } := by
  cases hl : (c.modifiers.length s.tempo s.denominator : Except (LengthFault α) α) with
  | error e => exact ⟨s.cursor, s.pending, by rw [feed_lengthless hc ht hl]; rfl⟩
  | ok ms =>
    cases htie : c.modifiers.tie with
    | true => exact ⟨s.cursor, _, by rw [feed_tied_of_length hc ht hl htie]; rfl⟩
    | false => exact ⟨_, _, (feed_untied hc ht hl htie).1⟩

theorem feed_tied {command : Command} (hc : c.command = .ok command) (ht : command.takesTime = true)
    (hf : (s.feed c).fault = none) (htie : c.modifiers.tie = true) :
    ∃ ms, s.lengthOf c ms ∧ s.feed c = { s with pending := Lengths.add s.pending ms }.only := by
  obtain ⟨ms, hl⟩ := lengthOf_of_fault hc ht hf
  exact ⟨ms, hl, feed_tied_of_length hc ht hl htie⟩

theorem feed_note {letter : Letter} (hc : c.command = .ok (.note letter)) (hf : (s.feed c).fault = none)
    (htie : c.modifiers.tie = false) : ∃ ms, s.lengthOf c ms ∧ s.feed c =
      { (s.settled.pass (s.total ms)).only with note := some (s.settled.sound c letter (s.total ms)) } := by
  obtain ⟨ms, hl⟩ := lengthOf_of_fault hc rfl hf
  exact ⟨ms, hl, feed_note_of_length hc hl htie⟩

theorem feed_rest (hc : c.command = .ok .rest) (hf : (s.feed c).fault = none) (htie : c.modifiers.tie = false) :
    ∃ ms, s.lengthOf c ms ∧ s.feed c = (s.settled.pass (s.total ms)).only := by
  obtain ⟨ms, hl⟩ := lengthOf_of_fault hc rfl hf
  exact ⟨ms, hl, feed_rest_of_length hc hl htie⟩

theorem feed_nextTrack (hc : c.command = .ok .nextTrack) :
    s.feed c = { s with track := s.track + 1, cursor := Lengths.zero }.only := by
  simp only [State.feed, hc]

/-- What holds of a clause without a number, and of every number's reading, holds of a state
    command. -/
theorem withNumber_cases {β : Type} {s : State β} {motive : Reading β → Prop} {n : Option Nat} {read : Nat → Reading β}
    (hnone : motive { s.only with remark := some (.missingNumber c) }) (hsome : ∀ k, motive (read k)) :
    motive (s.withNumber c n read) := by
  cases n with
  | none => exact hnone
  | some k => exact hsome k

/-- A command that takes no time is not at fault, whatever number it has or lacks. -/
theorem fault_feed_other {command : Command} (hc : c.command = .ok command) (ht : command.takesTime = false) :
    (s.feed c).fault = none := by
  unfold State.feed
  rw [hc]
  cases command with
  | note letter => cases ht
  | rest => cases ht
  | octaveUp => rfl
  | octaveDown => rfl
  | nextTrack => rfl
  | _ => exact withNumber_cases (motive := fun r => r.fault = none) rfl fun k => rfl

/-- A command that takes no time and starts no track. -/
theorem feed_other {command : Command} (hc : c.command = .ok command) (ht : command.takesTime = false)
    (hn : command ≠ .nextTrack) : (s.feed c).note = none ∧ (s.feed c).state.track = s.track ∧
      (s.feed c).state.cursor = s.cursor ∧ (s.feed c).state.pending = s.pending := by
  unfold State.feed
  rw [hc]
  cases command with
  | note letter => cases ht
  | rest => cases ht
  | nextTrack => exact absurd rfl hn
  | octaveUp => exact ⟨rfl, rfl, rfl, rfl⟩
  | octaveDown => exact ⟨rfl, rfl, rfl, rfl⟩
  | _ => exact withNumber_cases (motive := fun r => r.note = none ∧ r.state.track = s.track ∧
      r.state.cursor = s.cursor ∧ r.state.pending = s.pending) ⟨rfl, rfl, rfl, rfl⟩ fun k => ⟨rfl, rfl, rfl, rfl⟩

theorem note_feed_eq_none (h : ∀ letter, c.command ≠ .ok (.note letter)) : (s.feed c).note = none := by
  cases hc : c.command with
  | error fault => simp only [State.feed, hc, State.only]
  | ok command =>
    cases command with
    | note letter => exact absurd hc (h letter)
    | rest =>
      cases hl : (c.modifiers.length s.tempo s.denominator : Except (LengthFault α) α) with
      | error e =>
        rw [feed_lengthless hc rfl hl]
        rfl
      | ok ms =>
        cases htie : c.modifiers.tie with
        | true =>
          rw [feed_tied_of_length hc rfl hl htie]
          rfl
        | false =>
          rw [feed_rest_of_length hc hl htie]
          rfl
    | nextTrack =>
      rw [feed_nextTrack hc]
      rfl
    | _ => exact (feed_other hc rfl (by simp)).1

/-! ## Clause after clause -/

variable {xs ys : List (Except Fault Clause)} {fault : Fault} {notes : List Note}

theorem feedAll_ok_of_some (xs : List (Except Fault Clause)) (h : (s.feed c).fault = some fault) :
    s.feedAll (.ok c :: xs) = ⟨(s.feed c).state, (s.feed c).note.toList, (s.feed c).remark.toList, some fault⟩ := by
  simp only [State.feedAll, h]

theorem feedAll_ok_of_none (xs : List (Except Fault Clause)) (h : (s.feed c).fault = none) :
    s.feedAll (.ok c :: xs) = { (s.feed c).state.feedAll xs with
      notes := (s.feed c).note.toList ++ ((s.feed c).state.feedAll xs).notes
      remarks := (s.feed c).remark.toList ++ ((s.feed c).state.feedAll xs).remarks } := by
  simp only [State.feedAll, h]

/-- Nothing is read after a fault. -/
theorem feedAll_append_of_some (ys : List (Except Fault Clause)) (h : (s.feedAll xs).fault = some fault) :
    s.feedAll (xs ++ ys) = s.feedAll xs := by
  induction xs generalizing s with
  | nil => cases h
  | cons x xs ih =>
    cases x with
    | error fault => rfl
    | ok c =>
      cases hf : (s.feed c).fault with
      | some fault => rw [List.cons_append, feedAll_ok_of_some _ hf, feedAll_ok_of_some _ hf]
      | none =>
        rw [feedAll_ok_of_none _ hf] at h
        rw [List.cons_append, feedAll_ok_of_none _ hf, feedAll_ok_of_none _ hf, ih h]

/-- Without one the rest is read from the state that was reached. -/
theorem feedAll_append_of_none (ys : List (Except Fault Clause)) (h : (s.feedAll xs).fault = none) :
    s.feedAll (xs ++ ys) = { (s.feedAll xs).state.feedAll ys with
      notes := (s.feedAll xs).notes ++ ((s.feedAll xs).state.feedAll ys).notes
      remarks := (s.feedAll xs).remarks ++ ((s.feedAll xs).state.feedAll ys).remarks } := by
  induction xs generalizing s with
  | nil => rfl
  | cons x xs ih =>
    cases x with
    | error fault => cases h
    | ok c =>
      cases hf : (s.feed c).fault with
      | some fault =>
        rw [feedAll_ok_of_some _ hf] at h
        cases h
      | none =>
        rw [feedAll_ok_of_none _ hf] at h ⊢
        rw [List.cons_append, feedAll_ok_of_none _ hf, ih h]
        simp only [List.append_assoc]

/-- Clauses read one after another, each with what comes of it; a fault does not end them. -/
def State.readings (s : State α) : List Clause → List (Clause × Reading α)
  | [] => []
  | c :: cs => (c, s.feed c) :: (s.feed c).state.readings cs

def State.after (s : State α) (cs : List Clause) : State α := cs.foldl (fun s c => (s.feed c).state) s

@[simp] theorem after_nil (s : State α) : s.after [] = s := rfl

@[simp] theorem after_cons (s : State α) (c : Clause) (cs : List Clause) : s.after (c :: cs) = (s.feed c).state.after cs :=
  rfl

theorem after_concat (s : State α) (cs : List Clause) (c : Clause) : s.after (cs ++ [c]) = ((s.after cs).feed c).state :=
  List.foldl_append

theorem readings_concat (s : State α) (cs : List Clause) (c : Clause) :
    s.readings (cs ++ [c]) = s.readings cs ++ [(c, (s.after cs).feed c)] := by
  induction cs generalizing s with
  | nil => rfl
  | cons d cs ih => rw [List.cons_append, State.readings, State.readings, ih, after_cons, List.cons_append]

theorem result_eq_ok {β : Type} {r : Compilation β} : r.result = .ok notes ↔ r.fault = none ∧ r.notes = notes := by
  unfold Compilation.result
  cases r.fault <;> simp

theorem result_eq_error {β : Type} {r : Compilation β} : r.result = .error fault ↔ r.fault = some fault := by
  unfold Compilation.result
  cases r.fault <;> simp

/-- What is remarked at the end of a score changes neither its notes nor its fault. -/
theorem result_read (t : Text) :
    (read t : Compilation α).result = ((State.initial : State α).feedAll (clauses (normalize t))).result := by
  unfold read
  cases h : ((State.initial : State α).feedAll (clauses (normalize t))).fault with
  | some fault => simp only [h]
  | none => simp only [h, Compilation.result]

theorem compile_eq (t : Text) :
    compile t = ((State.initial : State Float).feedAll (clauses (normalize t))).result := result_read t

theorem state_read (t : Text) :
    (read t : Compilation α).state = ((State.initial : State α).feedAll (clauses (normalize t))).state := by
  unfold read
  cases h : ((State.initial : State α).feedAll (clauses (normalize t))).fault with
  | some fault => simp only [h]
  | none => simp only [h]

end Ostinato.Score
