import Mathlib.Data.List.Forall2
import Ostinato.Proofs.Score.Places

/-!
  Ostinato.Proofs.Score.Labels: what reading a clause does not look at.

  Reading looks at a clause's command and its modifiers. The clause itself, its text and its
  offset, is a label that it puts on the note or the fault that comes of it (`label_note`,
  `label_fault`). So clauses that read the same under different labels lead to the same state,
  and yield the same notes and the same fault under these labels (`feed_relabelled`,
  `feedAll_relabelled`).
-/

namespace Ostinato.Score

/-- The clauses are the same command with the same modifiers, or both none. -/
structure ReadsSame (c c' : Clause) : Prop where
  command : c'.command.toOption = c.command.toOption
  modifiers : c'.modifiers = c.modifiers

/-- The clause that a note comes from. -/
def Note.label (a : Note) : Clause := ⟨a.clause, a.foundAt⟩

/-- The same note, from another clause. -/
def Note.relabel (c : Clause) (a : Note) : Note := { a with clause := c.text, foundAt := c.offset }

def Fault.label (fault : Fault) : Clause := ⟨fault.clause, fault.offset⟩

def Fault.relabel (c : Clause) : Fault → Fault
  | unknownClause _ _ => unknownClause c.text c.offset
  | malformedClause _ _ => malformedClause c.text c.offset
  | invalidLength _ _ reason => invalidLength c.text c.offset reason

@[simp] theorem Note.label_relabel (c : Clause) (a : Note) : (a.relabel c).label = c := rfl

@[simp] theorem Fault.label_relabel (c : Clause) (fault : Fault) : (fault.relabel c).label = c := by
  cases fault <;> rfl

/-- The same but for the labels, which are related. -/
structure Note.Alike (R : Clause → Clause → Prop) (a b : Note) : Prop where
  label : R a.label b.label
  same : b = a.relabel b.label

structure Fault.Alike (R : Clause → Clause → Prop) (a b : Fault) : Prop where
  label : R a.label b.label
  same : b = a.relabel b.label

/-- The symbol and the modifiers decide how a clause is read. -/
theorem readsSame_of_symbol {c c' : Clause} (hsymbol : c'.symbol? = c.symbol?) (hmodifiers : c'.modifiers = c.modifiers) :
    ReadsSame c c' := by
  refine ⟨?_, hmodifiers⟩
  have hnumber : number? c'.body = number? c.body := congrArg Modifiers.number hmodifiers
  unfold Clause.command
  rw [hsymbol, hnumber]
  dsimp only
  split
  case h_9 => split <;> rfl
  all_goals rfl

variable {α : Type} [Lengths α] {s : State α} {c c' : Clause}

theorem ReadsSame.of_ok (h : ReadsSame c c') {command : Command} (hc : c.command = .ok command) :
    c'.command = .ok command := by
  have hcommand := h.command
  rw [hc] at hcommand
  cases hc' : c'.command with
  | error fault =>
    rw [hc'] at hcommand
    cases hcommand
  | ok command' =>
    rw [hc'] at hcommand
    rw [Option.some.inj hcommand]

theorem ReadsSame.of_error (h : ReadsSame c c') {fault : Fault} (hc : c.command = .error fault) :
    c'.command = .error (.unknownClause c'.text c'.offset) := by
  have hcommand := h.command
  rw [hc] at hcommand
  cases hc' : c'.command with
  | error fault' => rw [command_eq_error hc']
  | ok command =>
    rw [hc'] at hcommand
    cases hcommand

/-! ## One clause -/

theorem label_note {a : Note} (h : (s.feed c).note = some a) : a.label = c := by
  by_cases hletter : ∃ letter, c.command = .ok (.note letter)
  · obtain ⟨letter, hc⟩ := hletter
    simp only [State.feed, hc] at h
    obtain ⟨s', ms, h⟩ := note_withLength h
    cases h
    rfl
  · rw [note_feed_eq_none fun letter hc => hletter ⟨letter, hc⟩] at h
    cases h

theorem label_fault {fault : Fault} (h : (s.feed c).fault = some fault) : fault.label = c := by
  cases hc : c.command with
  | error e =>
    have heq : fault = e := by simpa [State.feed, hc] using h.symm
    rw [heq, command_eq_error hc]
    rfl
  | ok command =>
    cases ht : command.takesTime with
    | false =>
      rw [fault_feed_other hc ht] at h
      cases h
    | true =>
      cases hl : (c.modifiers.length s.tempo s.denominator : Except (LengthFault α) α) with
      | error e =>
        rw [feed_lengthless hc ht hl] at h
        cases h
        rfl
      | ok ms =>
        rw [fault_feed_of_length hc ht hl] at h
        cases h

/-- The same state, and the same note and fault under another label. -/
structure Relabelled {β : Type} (c' : Clause) (r r' : Reading β) : Prop where
  state : r'.state = r.state
  note : r'.note = r.note.map (Note.relabel c')
  fault : r'.fault = r.fault.map (Fault.relabel c')

theorem withNumber_relabelled {β : Type} (s : State β) (c c' : Clause) (k : Option Nat) {read read' : Nat → Reading β}
    (h : ∀ k, Relabelled c' (read k) (read' k)) : Relabelled c' (s.withNumber c k read) (s.withNumber c' k read') := by
  cases k with
  | none => exact ⟨rfl, rfl, rfl⟩
  | some k => exact h k

theorem withLength_relabelled (s : State α) (hmodifiers : c'.modifiers = c.modifiers)
    {finished finished' : State α → α → Reading α} (h : ∀ s ms, Relabelled c' (finished s ms) (finished' s ms)) :
    Relabelled c' (s.withLength c finished) (s.withLength c' finished') := by
  cases hl : (c.modifiers.length s.tempo s.denominator : Except (LengthFault α) α) with
  | error e =>
    rw [withLength_of_error finished hl, withLength_of_error (c := c') finished' (hmodifiers ▸ hl)]
    exact ⟨rfl, rfl, rfl⟩
  | ok ms =>
    have hl' : s.lengthOf c' ms := by
      rw [State.lengthOf, hmodifiers]
      exact hl
    rw [withLength_of_length finished hl, withLength_of_length finished' hl', hmodifiers]
    split
    · exact ⟨rfl, rfl, rfl⟩
    · exact h ..

/-- Clauses that read the same differ in their labels only. -/
theorem feed_relabelled (s : State α) (h : ReadsSame c c') : Relabelled c' (s.feed c) (s.feed c') := by
  cases hc : c.command with
  | error fault =>
    simp only [State.feed, hc, h.of_error hc]
    rw [command_eq_error hc]
    exact ⟨rfl, rfl, rfl⟩
  | ok command =>
    simp only [State.feed, hc, h.of_ok hc]
    cases command with
    | note letter =>
      refine withLength_relabelled s h.modifiers fun s ms => ⟨rfl, ?_, rfl⟩
      simp only [State.sound, h.modifiers]
      rfl
    | rest => exact withLength_relabelled s h.modifiers fun s ms => ⟨rfl, rfl, rfl⟩
    | octaveUp => exact ⟨rfl, rfl, rfl⟩
    | octaveDown => exact ⟨rfl, rfl, rfl⟩
    | nextTrack => exact ⟨rfl, rfl, rfl⟩
    | octave k => exact withNumber_relabelled s c c' k fun k => ⟨rfl, rfl, rfl⟩
    | tempo k => exact withNumber_relabelled s c c' k fun k => ⟨rfl, rfl, rfl⟩
    | length k => exact withNumber_relabelled s c c' k fun k => ⟨rfl, rfl, rfl⟩
    | volume k => exact withNumber_relabelled s c c' k fun k => ⟨rfl, rfl, rfl⟩

/-! ## Clause after clause -/

variable {R : Clause → Clause → Prop} {cs cs' : List Clause}

theorem note_alike (s : State α) (hR : R c c') (h : ReadsSame c c') :
    List.Forall₂ (Note.Alike R) (s.feed c).note.toList (s.feed c').note.toList := by
  rw [(feed_relabelled s h).note]
  cases hn : (s.feed c).note with
  | none => exact .nil
  | some a => exact .cons ⟨(label_note hn).symm ▸ hR, rfl⟩ .nil

theorem fault_alike (hR : R c c') (h : ReadsSame c c') {fault : Fault} (hf : (s.feed c).fault = some fault) :
    ∃ fault', (s.feed c').fault = some fault' ∧ Fault.Alike R fault fault' := by
  refine ⟨fault.relabel c', ?_, ?_⟩
  · rw [(feed_relabelled s h).fault, hf, Option.map_some]
  · constructor
    · rw [label_fault hf, Fault.label_relabel]
      exact hR
    · rw [Fault.label_relabel]

/-- Clauses that read the same one by one yield the same notes and the same fault, from related
    clauses. -/
theorem feedAll_relabelled (s : State α) (h : List.Forall₂ (fun c c' => R c c' ∧ ReadsSame c c') cs cs') :
    List.Forall₂ (Note.Alike R) (s.feedAll (cs.map .ok)).notes (s.feedAll (cs'.map .ok)).notes ∧
      Option.Rel (Fault.Alike R) (s.feedAll (cs.map .ok)).fault (s.feedAll (cs'.map .ok)).fault := by
  induction h generalizing s with
  | nil => exact ⟨.nil, .none⟩
  | @cons c c' cs cs' hc _ ih =>
    obtain ⟨hR, hsame⟩ := hc
    have hnote := note_alike s hR hsame
    obtain ⟨hnotes, hlater⟩ := ih (s.feed c).state
    rw [List.map_cons, List.map_cons]
    cases hf : (s.feed c).fault with
    | some fault =>
      obtain ⟨fault', hf', halike⟩ := fault_alike hR hsame hf
      rw [feedAll_ok_of_some _ hf, feedAll_ok_of_some _ hf']
      exact ⟨hnote, .some halike⟩
    | none =>
      have hf' : (s.feed c').fault = none := by
        rw [(feed_relabelled s hsame).fault, hf]
        rfl
      rw [feedAll_ok_of_none _ hf, feedAll_ok_of_none _ hf', (feed_relabelled s hsame).state]
      exact ⟨List.rel_append hnote hnotes, hlater⟩

end Ostinato.Score
