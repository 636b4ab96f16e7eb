import Mathlib.Data.List.Forall2
import Ostinato.Proofs.Score.Comments
import Ostinato.Proofs.Score.Cutting

/-!
  Ostinato.Proofs.Score.LookingBack: what a note is, read off the text before it.

  A text sounds at every place that holds a note letter, unless its clause is tied on
  (`soundsAt`). The state at a place is found by looking back from it: the track counts the
  commas before it, volume, tempo and denominator are those of the last `v`, `t` and `l` with a
  number, and the octave is that of the last `o` with a number, bent by the steps that follow it
  (`trackAt`, `volumeAt`, `tempoAt`, `denominatorBefore`, `octaveAt`).

  The state that a text is read with agrees with looking back at every place (`Recalls`), so
  the notes of a score are those that the text before each of them says
  (`notes_look_back`).
-/

namespace Ostinato.Score

/-! ## Looking back -/

/-- The number of the clause at a place, if it has one and its symbol is `symbol`. -/
def numberedAt (symbol : Char) (t : Text) (i : Nat) : Option (Nat × Nat) :=
  if t[i]? = some symbol then (clauseAt t i).modifiers.number.map (i, ·) else none

/-- The last clause before a place that has that symbol and a number: its place and number. -/
def lastNumbered (symbol : Char) (t : Text) (i : Nat) : Option (Nat × Nat) :=
  ((List.range i).filterMap (numberedAt symbol t)).getLast?

/-- The number of that clause. -/
def numberBefore (symbol : Char) (t : Text) (i : Nat) : Option Nat := (lastNumbered symbol t i).map (·.2)

def trackAt (t : Text) (i : Nat) : Nat := (t.take i).count ','

def tempoAt (t : Text) (i : Nat) : Nat := (numberBefore 't' t i).getD 60

def denominatorBefore (t : Text) (i : Nat) : Nat := (numberBefore 'l' t i).getD 4

def volumeAt (t : Text) (i : Nat) : Nat :=
  match lastNumbered 'v' t i with
  | some (_, n) => min n maxVolume
  | none => maxVolume

/-- An octave after a character: a step up, a step down, or the octave itself. -/
def bend (octave : Int) (c : Char) : Int :=
  if c = '>' then clampPitch (octave + 1) else if c = '<' then clampPitch (octave - 1) else octave

def octaveAt (t : Text) (i : Nat) : Int :=
  match lastNumbered 'o' t i with
  | some (j, n) => ((t.take i).drop (j + 1)).foldl bend (min (n : Int) maxPitch)
  | none => (t.take i).foldl bend 5

/-- Whether a note sounds from a place on. -/
def soundsAt (t : Text) (i : Nat) : Bool := (t[i]?.bind Letter.ofChar?).isSome && !(clauseAt t i).text.contains '&'

def soundingPlaces (t : Text) : List Nat := (List.range t.length).filter (soundsAt t)

/-- A note is what the text before a place says of it. -/
structure LooksBack (source : Text) (i : Nat) (n : Note) : Prop where
  foundAt : n.foundAt = i
  inSource : source[i]?.map Char.toLower = (normalize source)[i]?
  clause : n.clause = (clauseAt (normalize source) i).text
  track : n.track = trackAt (normalize source) i
  volume : n.volume = volumeAt (normalize source) i
  pitch : ∃ letter, (normalize source)[i]?.bind Letter.ofChar? = some letter ∧
    n.pitch = pitchOf (octaveAt (normalize source) i) letter (clauseAt (normalize source) i).modifiers

/-! ## One place on -/

variable {t : Text} {i : Nat} {c : Char}

theorem numberedAt_place {symbol : Char} {j n : Nat} (h : numberedAt symbol t i = some (j, n)) : j = i := by
  unfold numberedAt at h
  split at h
  · obtain ⟨k, -, heq⟩ := Option.map_eq_some_iff.mp h
    cases heq
    rfl
  · cases h

theorem lastNumbered_lt {symbol : Char} {j n : Nat} (h : lastNumbered symbol t i = some (j, n)) : j < i := by
  obtain ⟨k, hk, hnumbered⟩ := List.mem_filterMap.mp (List.mem_of_getLast? h)
  rw [numberedAt_place hnumbered]
  exact List.mem_range.mp hk

theorem lastNumbered_succ (symbol : Char) (t : Text) (i : Nat) :
    lastNumbered symbol t (i + 1) = (numberedAt symbol t i).or (lastNumbered symbol t i) := by
  unfold lastNumbered
  rw [List.range_succ, List.filterMap_append]
  cases h : numberedAt symbol t i with
  | none => simp [h]
  | some x => simp [h]

theorem lastNumbered_of_ne {symbol : Char} (h : t[i]? = some c) (hc : c ≠ symbol) :
    lastNumbered symbol t (i + 1) = lastNumbered symbol t i := by
  simp [lastNumbered_succ, numberedAt, h, hc]

theorem trackAt_succ (h : t[i]? = some c) : trackAt t (i + 1) = trackAt t i + if c = ',' then 1 else 0 := by
  simp [trackAt, List.take_add_one, h, List.count_cons]

theorem numberBefore_succ (symbol : Char) (h : t[i]? = some c) : numberBefore symbol t (i + 1) =
    if c = symbol then (clauseAt t i).modifiers.number.or (numberBefore symbol t i) else numberBefore symbol t i := by
  unfold numberBefore
  by_cases hc : c = symbol
  · subst hc
    rw [if_pos rfl, lastNumbered_succ, numberedAt, if_pos h]
    cases (clauseAt t i).modifiers.number with
    | none => rfl
    | some n => rfl
  · rw [if_neg hc, lastNumbered_of_ne h hc]

/-- What the last number with a symbol stands for, one place on. -/
theorem getD_numberBefore_succ {β : Type} (f : Nat → β) (d : β) (symbol : Char) (h : t[i]? = some c) :
    ((numberBefore symbol t (i + 1)).map f).getD d =
      if c = symbol then ((clauseAt t i).modifiers.number.map f).getD (((numberBefore symbol t i).map f).getD d)
      else ((numberBefore symbol t i).map f).getD d := by
  rw [numberBefore_succ symbol h]
  split
  · cases (clauseAt t i).modifiers.number <;> rfl
  · rfl

theorem volumeAt_eq (t : Text) (i : Nat) :
    volumeAt t i = ((numberBefore 'v' t i).map (min · maxVolume)).getD maxVolume := by
  unfold volumeAt numberBefore
  cases lastNumbered 'v' t i <;> rfl

theorem volumeAt_succ (h : t[i]? = some c) : volumeAt t (i + 1) =
    if c = 'v' then ((clauseAt t i).modifiers.number.map (min · maxVolume)).getD (volumeAt t i) else volumeAt t i := by
  rw [volumeAt_eq, volumeAt_eq, getD_numberBefore_succ _ _ 'v' h]

theorem tempoAt_succ (h : t[i]? = some c) :
    tempoAt t (i + 1) = if c = 't' then (clauseAt t i).modifiers.number.getD (tempoAt t i) else tempoAt t i := by
  unfold tempoAt
  simpa only [Option.map_id_fun, id_eq] using getD_numberBefore_succ id 60 't' h

theorem denominatorBefore_succ (h : t[i]? = some c) : denominatorBefore t (i + 1) =
    if c = 'l' then (clauseAt t i).modifiers.number.getD (denominatorBefore t i) else denominatorBefore t i := by
  unfold denominatorBefore
  simpa only [Option.map_id_fun, id_eq] using getD_numberBefore_succ id 4 'l' h

theorem octaveAt_bend (h : t[i]? = some c) (hlast : lastNumbered 'o' t (i + 1) = lastNumbered 'o' t i) :
    octaveAt t (i + 1) = bend (octaveAt t i) c := by
  have htake : t.take (i + 1) = t.take i ++ [c] := by rw [List.take_add_one, h]; rfl
  have hlength : (t.take i).length = i := List.length_take_of_le (Nat.le_of_lt (List.getElem?_eq_some_iff.mp h).1)
  unfold octaveAt
  rw [hlast, htake]
  cases hl : lastNumbered 'o' t i with
  | none => simp
  | some x =>
    obtain ⟨j, n⟩ := x
    have hlt := lastNumbered_lt hl
    simp only
    rw [List.drop_append_of_le_length (by omega), List.foldl_append]
    rfl

theorem octaveAt_succ (h : t[i]? = some c) : octaveAt t (i + 1) =
    if c = 'o' then ((clauseAt t i).modifiers.number.map fun n => min (n : Int) maxPitch).getD (octaveAt t i)
    else bend (octaveAt t i) c := by
  by_cases hc : c = 'o'
  · subst hc
    rw [if_pos rfl]
    cases hn : (clauseAt t i).modifiers.number with
    | none =>
      refine octaveAt_bend h ?_
      simp [lastNumbered_succ, numberedAt, hn]
    | some n =>
      have hlast : lastNumbered 'o' t (i + 1) = some (i, n) := by
        simp [lastNumbered_succ, numberedAt, h, hn]
      simp [octaveAt, hlast]
  · rw [if_neg hc]
    exact octaveAt_bend h (lastNumbered_of_ne h hc)

/-! ## The state agrees -/

theorem startsState_of_letter {letter : Letter} (h : Letter.ofChar? c = some letter) : startsState c = false := by
  unfold Letter.ofChar? at h
  split at h
  case h_8 => cases h
  all_goals rfl

variable {α : Type} {s s' : State α}

/-- A state is what the text before a place says. -/
structure Recalls (t : Text) (i : Nat) (s : State α) : Prop where
  track : s.track = trackAt t i
  volume : s.volume = volumeAt t i
  octave : s.octave = octaveAt t i
  tempo : s.tempo = tempoAt t i
  denominator : s.denominator = denominatorBefore t i

namespace Recalls

/-- What the next character makes of the state. -/
theorem next (h : Recalls t i s) (hget : t[i]? = some c) (htrack : s'.track = s.track + if c = ',' then 1 else 0)
    (hvolume : s'.volume =
      if c = 'v' then ((clauseAt t i).modifiers.number.map (min · maxVolume)).getD s.volume else s.volume)
    (hoctave : s'.octave =
      if c = 'o' then ((clauseAt t i).modifiers.number.map fun n => min (n : Int) maxPitch).getD s.octave
      else bend s.octave c)
    (htempo : s'.tempo = if c = 't' then (clauseAt t i).modifiers.number.getD s.tempo else s.tempo)
    (hdenominator : s'.denominator =
      if c = 'l' then (clauseAt t i).modifiers.number.getD s.denominator else s.denominator) :
    Recalls t (i + 1) s' where
  track := by rw [htrack, h.track, trackAt_succ hget]
  volume := by rw [hvolume, h.volume, volumeAt_succ hget]
  octave := by rw [hoctave, h.octave, octaveAt_succ hget]
  tempo := by rw [htempo, h.tempo, tempoAt_succ hget]
  denominator := by rw [hdenominator, h.denominator, denominatorBefore_succ hget]

/-- Most characters change nothing but the time. -/
theorem keep (h : Recalls t i s) (hget : t[i]? = some c) (hc : startsState c = false) (cursor pending : α) :
    Recalls t (i + 1) { s with cursor, pending } := by
  have hne : ∀ d ∈ "<>otvl,".toList, c ≠ d := by
    rintro d hd rfl
    rw [startsState, List.contains_iff_mem.mpr hd] at hc
    cases hc
  refine h.next hget ?_ ?_ ?_ ?_ ?_
  · rw [if_neg (hne ',' (by decide)), Nat.add_zero]
  · rw [if_neg (hne 'v' (by decide))]
  · rw [if_neg (hne 'o' (by decide)), bend, if_neg (hne '>' (by decide)), if_neg (hne '<' (by decide))]
  · rw [if_neg (hne 't' (by decide))]
  · rw [if_neg (hne 'l' (by decide))]

theorem skip (h : Recalls t i s) (hget : t[i]? = some c) (hc : isSymbol c = false) : Recalls t (i + 1) s :=
  h.keep hget (Bool.or_eq_false_iff.mp hc).2 s.cursor s.pending

variable [Lengths α]

theorem initial (t : Text) : Recalls t 0 (State.initial : State α) := ⟨rfl, rfl, rfl, rfl, rfl⟩

theorem takesTime {command : Command} (h : Recalls t i s) (hget : t[i]? = some c) (hc : startsState c = false)
    (hcommand : (clauseAt t i).command = .ok command) (ht : command.takesTime = true) :
    Recalls t (i + 1) (s.feed (clauseAt t i)).state := by
  obtain ⟨cursor, pending, heq⟩ := state_feed_time s hcommand ht
  rw [heq]
  exact h.keep hget hc cursor pending

/-- Reading the clause at a place leads to what the text up to the next place says. -/
theorem feed (h : Recalls t i s) (hget : t[i]? = some c) (hf : (s.feed (clauseAt t i)).fault = none) :
    Recalls t (i + 1) (s.feed (clauseAt t i)).state := by
  obtain ⟨command, hcommand⟩ := command_of_feed hf
  cases starts_clauseAt hget hcommand with
  | note hl => exact h.takesTime hget (startsState_of_letter hl) hcommand rfl
  | rest => exact h.takesTime hget (by decide) hcommand rfl
  | nextTrack =>
    rw [feed_nextTrack hcommand]
    exact h.next hget rfl rfl rfl rfl rfl
  | _ =>
    refine h.next hget ?_ ?_ ?_ ?_ ?_ <;> simp only [State.feed, hcommand] <;>
      cases (clauseAt t i).modifiers.number <;> rfl

end Recalls

/-! ## The notes -/

variable [Lengths α] {source : Text}

theorem tie_clauseAt (hget : t[i]? = some c) (hc : c ≠ '&') :
    (clauseAt t i).text.contains '&' = (clauseAt t i).modifiers.tie := by
  have htext : (clauseAt t i).text = c :: (clauseAt t i).body := by simp [clauseAt, Clause.body, hget]
  rw [htext, List.contains_cons, beq_eq_false_iff_ne.mpr (Ne.symm hc), Bool.false_or]
  rfl

/-- A place yields a note exactly if it sounds, and the note is what the text before it says. -/
theorem note_clauseAt (h : Recalls (normalize source) i s) (hget : (normalize source)[i]? = some c)
    (hf : (s.feed (clauseAt (normalize source) i)).fault = none) :
    if soundsAt (normalize source) i then
      ∃ note, (s.feed (clauseAt (normalize source) i)).note = some note ∧ LooksBack source i note
    else (s.feed (clauseAt (normalize source) i)).note = none := by
  obtain ⟨command, hcommand⟩ := command_of_feed hf
  have hletter : ∀ letter, Letter.ofChar? c = some letter → c ≠ '&' ∧ c ≠ filler := by
    intro letter hl
    constructor <;> (rintro rfl; cases hl)
  have hsilent : Letter.ofChar? c = none → soundsAt (normalize source) i = false := by
    intro hl
    simp [soundsAt, hget, hl]
  -- Only the case of an untied note says something of the text before; the others are silent.
  cases starts_clauseAt hget hcommand with
  | note hl =>
    rename_i letter
    obtain ⟨hand, hfiller⟩ := hletter letter hl
    have hsounds : soundsAt (normalize source) i = !(clauseAt (normalize source) i).modifiers.tie := by
      rw [soundsAt, tie_clauseAt hget hand, hget, Option.bind_some, hl]
      rfl
    cases htie : (clauseAt (normalize source) i).modifiers.tie with
    | true =>
      obtain ⟨ms, -, heq⟩ := feed_tied hcommand rfl hf htie
      rw [hsounds, htie, heq]
      rfl
    | false =>
      obtain ⟨ms, -, heq⟩ := feed_note hcommand hf htie
      rw [hsounds, htie, heq]
      refine ⟨_, rfl, rfl, ?_, rfl, h.track, h.volume, letter, ?_, ?_⟩
      · rw [hget]
        exact toLower_of_normalize hget hfiller
      · rw [hget]
        exact hl
      · rw [← h.octave]
        rfl
  | rest =>
    rw [hsilent rfl]
    cases htie : (clauseAt (normalize source) i).modifiers.tie with
    | true =>
      obtain ⟨ms, -, heq⟩ := feed_tied hcommand rfl hf htie
      rw [heq]
      rfl
    | false =>
      obtain ⟨ms, -, heq⟩ := feed_rest hcommand hf htie
      rw [heq]
      rfl
  | nextTrack =>
    rw [hsilent rfl, feed_nextTrack hcommand]
    rfl
  | _ =>
    rw [hsilent rfl]
    exact (feed_other hcommand rfl (by simp)).1

theorem soundsAt_of_symbol (hget : t[i]? = some c) (hc : isSymbol c = false) : soundsAt t i = false := by
  cases hl : Letter.ofChar? c with
  | none => simp [soundsAt, hget, hl]
  | some letter => exact absurd (Starts.note (n := none) hl).isSymbol (by simp [hc])

/-- The notes of a score stand one for one, in order, for the places from which notes sound, and
    each is what the text before its place says; so no two have one place, nor one identity. -/
theorem notes_look_back {notes : List Note} (h : compile source = .ok notes) :
    List.Forall₂ (LooksBack source) (soundingPlaces (normalize source)) notes ∧
      (notes.Pairwise fun a b => a.foundAt < b.foundAt) ∧ notes.Pairwise fun a b => a.id ≠ b.id := by
  have hincrease := compile_increases h
  refine ⟨?_, hincrease, hincrease.imp fun hlt heq => Nat.ne_of_lt hlt (congrArg Prod.snd heq)⟩
  obtain ⟨s, -, hnotes⟩ : ∃ s, Recalls (normalize source) (normalize source).length s ∧
      List.Forall₂ (LooksBack source) (soundingPlaces (normalize source)) notes := by
    refine walk_of_read h (motive := fun i s past => Recalls (normalize source) i s ∧
      List.Forall₂ (LooksBack source) ((List.range i).filter (soundsAt (normalize source))) past) ?_ ?_ ?_
    · exact ⟨.initial _, .nil⟩
    · rintro i s past c hget hc ⟨hrecalls, hnotes⟩
      rw [List.range_succ, List.filter_append, List.filter_singleton, soundsAt_of_symbol hget hc]
      exact ⟨hrecalls.skip hget hc, by simpa using hnotes⟩
    · rintro i s past c hget hf ⟨hrecalls, hnotes⟩
      rw [List.range_succ, List.filter_append, List.filter_singleton]
      refine ⟨hrecalls.feed hget hf, List.rel_append hnotes ?_⟩
      have hnote := note_clauseAt hrecalls hget hf
      split at hnote
      · rename_i hsounds
        obtain ⟨note, hsome, hback⟩ := hnote
        rw [hsome, hsounds]
        exact .cons hback .nil
      · rename_i hsounds
        rw [hnote, Bool.eq_false_iff.mpr hsounds]
        exact .nil
  exact hnotes

/-- A comment, a tie, a volume that is too loud, one without a number, and a step of an earlier
    track. -/
theorem notes_look_back_across_tracks : let source := "v200 o3 C& #c\nd+ >, v e-".toList
    let notes : List Note := [⟨14, "d+ ".toList, 0, 127, 39, 0, 2000⟩, ⟨22, "e-".toList, 1, 127, 51, 0, 1000⟩]
    compile source = .ok notes ∧ List.Forall₂ (LooksBack source) [14, 22] notes := by
  intro source notes
  have h : compile source = .ok notes := compile_of_toOption (by decide +kernel)
  have hplaces : soundingPlaces (normalize source) = [14, 22] := by decide +kernel
  exact ⟨h, hplaces ▸ (notes_look_back h).1⟩

end Ostinato.Score
