import Mathlib.Data.List.Induction
import Ostinato.Proofs.Score.Timing

/-!
  Ostinato.Proofs.Score.Tracks: what a track takes over from those before it.

  Starting a track sets the cursor back and counts the track, and leaves the rest of the state
  (`feed_nextTrack`). So a track sees of the clauses before it what the state commands have set
  (`SameSetting`), and what ties have left over: the next note is longer by it, on whatever
  track it stands (`tie_carries_over`). That alone changes times; the faults of the track, and
  the tracks, volumes and pitches of its notes, hang on the setting only
  (`SameSetting.feed`). Nothing is left over unless the last note or rest before the track is
  tied on (`pending_after`), and then the track is what the setting makes it
  (`tracks_isolated_but_for_ties`).
-/

namespace Ostinato.Score

variable {α : Type}

/-- The states agree on what state commands set, and on the track. -/
structure SameSetting (s s' : State α) : Prop where
  tempo : s.tempo = s'.tempo
  denominator : s.denominator = s'.denominator
  octave : s.octave = s'.octave
  volume : s.volume = s'.volume
  track : s.track = s'.track

/-- The notes sound alike, at whatever times. -/
structure SameSound (a b : Note) : Prop where
  track : a.track = b.track
  volume : a.volume = b.volume
  pitch : a.pitch = b.pitch

/-- What comes of a clause is the same in both, but for times. -/
structure SameButTiming (x y : Clause × Reading α) : Prop where
  clause : x.1 = y.1
  state : SameSetting x.2.state y.2.state
  fault : x.2.fault = y.2.fault
  note : Option.Rel SameSound x.2.note y.2.note

/-- What comes of a clause is at fault alike in both, or sounds alike and at the same times. -/
structure SameReading (x y : Clause × Reading α) : Prop where
  fault : x.2.fault = y.2.fault
  note : Option.Rel (fun a b => SameSound a b ∧ SameSpan a b) x.2.note y.2.note

def Clause.takesTime (c : Clause) : Bool :=
  match c.command with
  | .ok command => command.takesTime
  | .error _ => false

/-- Whether the last note or rest of some clauses is tied on. -/
def LeavesTie (cs : List Clause) : Prop := (cs.filter Clause.takesTime).getLast?.any (·.modifiers.tie) = true

instance (cs : List Clause) : Decidable (LeavesTie cs) := inferInstanceAs (Decidable (_ = true))

variable [Lengths α] {s s' : State α} {c : Clause} {cs : List Clause}

def Faultless (s : State α) (cs : List Clause) : Prop := ∀ x ∈ s.readings cs, x.2.fault = none

instance (s : State α) (cs : List Clause) : Decidable (Faultless s cs) :=
  inferInstanceAs (Decidable (∀ x ∈ s.readings cs, x.2.fault = none))

theorem faultless_concat : Faultless s (cs ++ [c]) ↔ Faultless s cs ∧ ((s.after cs).feed c).fault = none := by
  unfold Faultless
  rw [readings_concat]
  simp only [List.mem_append, List.mem_singleton, or_imp, forall_and, forall_eq]

theorem Faultless.after {before : List Clause} (hf : Faultless s (before ++ cs)) : Faultless (s.after before) cs := by
  induction before generalizing s with
  | nil => exact hf
  | cons d before ih => exact ih fun x hx => hf x (List.mem_cons_of_mem _ hx)

theorem Faultless.before {before : List Clause} (hf : Faultless s (before ++ cs)) : Faultless s before := by
  induction before generalizing s with
  | nil => simp [Faultless, State.readings]
  | cons d before ih =>
    refine List.forall_mem_cons.mpr ⟨hf _ (List.mem_cons_self ..), ?_⟩
    exact ih fun x hx => hf x (List.mem_cons_of_mem _ hx)

/-! ## What ties leave over -/

theorem pending_feed_of_no_time (hc : c.takesTime = false) : (s.feed c).state.pending = s.pending := by
  unfold Clause.takesTime at hc
  cases hcommand : c.command with
  | error fault => simp only [State.feed, hcommand, State.only]
  | ok command =>
    rw [hcommand] at hc
    by_cases hn : command = .nextTrack
    · rw [feed_nextTrack (hn ▸ hcommand)]
      rfl
    · exact (feed_other hcommand hc hn).2.2.2

theorem takesTime_iff : c.takesTime = true ↔ ∃ command, c.command = .ok command ∧ command.takesTime = true := by
  unfold Clause.takesTime
  cases c.command <;> simp

/-- Nothing is left over once a note or rest is not tied on. -/
theorem pending_after (hs : s.pending = Lengths.zero) (hf : Faultless s cs) (h : ¬ LeavesTie cs) :
    (s.after cs).pending = Lengths.zero := by
  induction cs using List.reverseRecOn with
  | nil => exact hs
  | append_singleton cs c ih =>
    obtain ⟨hfirst, hfault⟩ := faultless_concat.mp hf
    unfold LeavesTie at h
    rw [List.filter_append] at h
    rw [after_concat]
    cases hc : c.takesTime with
    | false =>
      rw [List.filter_singleton, hc] at h
      rw [pending_feed_of_no_time hc]
      exact ih hfirst (by simpa [LeavesTie] using h)
    | true =>
      rw [List.filter_singleton, hc] at h
      have htie : c.modifiers.tie = false := by simpa using h
      obtain ⟨command, hcommand, ht⟩ := takesTime_iff.mp hc
      obtain ⟨ms, hl⟩ := lengthOf_of_fault hcommand ht hfault
      rw [(feed_untied hcommand ht hl htie).1]
      rfl

/-! ## Side by side -/

theorem SameButTiming.silent {β : Type} {r r' : Reading β} (hstate : SameSetting r.state r'.state) (hfault : r.fault = r'.fault)
    (hnote : r.note = none) (hnote' : r'.note = none) : SameButTiming (c, r) (c, r') where
  clause := rfl
  state := hstate
  fault := hfault
  note := by
    show Option.Rel SameSound r.note r'.note
    rw [hnote, hnote']
    exact .none

theorem SameSetting.feed_time {command : Command} (h : SameSetting s s') (hc : c.command = .ok command)
    (ht : command.takesTime = true) : SameButTiming (c, s.feed c) (c, s'.feed c) := by
  obtain ⟨htempo, hdenominator, hoctave, hvolume, htrack⟩ := h
  cases hl : (c.modifiers.length s.tempo s.denominator : Except (LengthFault α) α) with
  | error e =>
    have hl' := hl
    rw [htempo, hdenominator] at hl'
    rw [feed_lengthless hc ht hl, feed_lengthless hc ht hl']
    exact .silent ⟨htempo, hdenominator, hoctave, hvolume, htrack⟩ rfl rfl rfl
  | ok ms =>
    have hl' := hl
    rw [htempo, hdenominator] at hl'
    cases htie : c.modifiers.tie with
    | true =>
      rw [feed_tied_of_length hc ht hl htie, feed_tied_of_length hc ht hl' htie]
      exact .silent ⟨htempo, hdenominator, hoctave, hvolume, htrack⟩ rfl rfl rfl
    | false =>
      cases command with
      | note letter =>
        rw [feed_note_of_length hc hl htie, feed_note_of_length hc hl' htie]
        refine ⟨rfl, ⟨htempo, hdenominator, hoctave, hvolume, htrack⟩, rfl, .some ⟨htrack, hvolume, ?_⟩⟩
        exact congrArg (pitchOf · letter c.modifiers) hoctave
      | rest =>
        rw [feed_rest_of_length hc hl htie, feed_rest_of_length hc hl' htie]
        exact .silent ⟨htempo, hdenominator, hoctave, hvolume, htrack⟩ rfl rfl rfl
      | _ => cases ht

theorem SameSetting.feed (h : SameSetting s s') (c : Clause) : SameButTiming (c, s.feed c) (c, s'.feed c) := by
  cases hc : c.command with
  | error fault =>
    simp only [State.feed, hc]
    exact .silent h rfl rfl rfl
  | ok command =>
    cases ht : command.takesTime with
    | true => exact h.feed_time hc ht
    | false =>
      have hnote : ∀ s : State α, (s.feed c).note = none := fun s => note_feed_eq_none fun letter hletter => by
        obtain rfl : command = _ := Except.ok.inj (hc.symm.trans hletter)
        cases ht
      refine .silent ?_ ((fault_feed_other hc ht).trans (fault_feed_other hc ht).symm) (hnote s) (hnote s')
      simp only [State.feed, hc]
      cases command with
      | note letter => cases ht
      | rest => cases ht
      | octaveUp => exact { h with octave := congrArg (fun n => clampPitch (n + 1)) h.octave }
      | octaveDown => exact { h with octave := congrArg (fun n => clampPitch (n - 1)) h.octave }
      | nextTrack => exact { h with track := congrArg (· + 1) h.track }
      | octave n => cases n with
        | none => exact h
        | some n => exact { h with octave := rfl }
      | tempo n => cases n with
        | none => exact h
        | some n => exact { h with tempo := rfl }
      | length n => cases n with
        | none => exact h
        | some n => exact { h with denominator := rfl }
      | volume n => cases n with
        | none => exact h
        | some n => exact { h with volume := rfl }

theorem SameSetting.readings (h : SameSetting s s') (cs : List Clause) :
    List.Forall₂ SameButTiming (s.readings cs) (s'.readings cs) := by
  induction cs generalizing s s' with
  | nil => exact .nil
  | cons c cs ih =>
    have hstep := h.feed c
    exact .cons hstep (ih hstep.state)

/-! ## Tracks -/

/-- A track is the same after clauses that lead to the same setting, but for times; and these are
    the same too if the clauses leave over the same of their ties, as they do if none of them
    ends in a tie. -/
theorem tracks_isolated_but_for_ties {before before' : List Clause} {comma : Clause} (hcomma : comma.command = .ok .nextTrack)
    (hb : Faultless (State.initial : State α) before) (hb' : Faultless (State.initial : State α) before')
    (h : SameSetting ((State.initial : State α).after before) ((State.initial : State α).after before'))
    (track : List Clause) :
    List.Forall₂ SameButTiming (((State.initial : State α).after (before ++ [comma])).readings track)
        (((State.initial : State α).after (before' ++ [comma])).readings track) ∧
      (((State.initial : State α).after before).pending = ((State.initial : State α).after before').pending ∨
          ¬ LeavesTie before ∧ ¬ LeavesTie before' →
        ((State.initial : State α).after (before ++ [comma])).readings track =
          ((State.initial : State α).after (before' ++ [comma])).readings track) := by
  rw [after_concat, after_concat]
  refine ⟨(h.feed comma).state.readings track, fun hpending => ?_⟩
  have hsame : ((State.initial : State α).after before).pending = ((State.initial : State α).after before').pending := by
    rcases hpending with hsame | ⟨hopen, hopen'⟩
    · exact hsame
    · rw [pending_after rfl hb hopen, pending_after rfl hb' hopen']
  rw [feed_nextTrack hcomma, feed_nextTrack hcomma]
  generalize (State.initial : State α).after before = s at h hsame
  generalize (State.initial : State α).after before' = s' at h hsame
  obtain ⟨htempo, hdenominator, hoctave, hvolume, htrack⟩ := h
  congr 1
  simp only [State.only, htempo, hdenominator, hoctave, hvolume, htrack, hsame]

/-- A rest and a note before the track, or neither; the track has a tie and a fault. -/
theorem tracks_isolated_after_rest : let s : State Float := .initial
    let before : List Clause := [⟨"o4".toList, 0⟩, ⟨"t90".toList, 2⟩, ⟨"r2&".toList, 5⟩, ⟨"c.".toList, 8⟩]
    let before' : List Clause := [⟨"t90".toList, 0⟩, ⟨"<".toList, 3⟩]
    let comma : Clause := ⟨",".toList, 10⟩
    let track : List Clause := [⟨"e8&".toList, 11⟩, ⟨"g".toList, 14⟩, ⟨"t0".toList, 15⟩, ⟨"d".toList, 17⟩]
    (comma.command = .ok .nextTrack ∧ Faultless s before ∧ Faultless s before' ∧
      SameSetting (s.after before) (s.after before') ∧ ¬ LeavesTie before ∧ ¬ LeavesTie before') ∧
    (s.after (before ++ [comma])).readings track = (s.after (before' ++ [comma])).readings track := by
  intro s before before' comma track
  have hcomma : comma.command = .ok .nextTrack := rfl
  have hb : Faultless s before := by decide +kernel
  have hb' : Faultless s before' := by decide +kernel
  have hsetting : SameSetting (s.after before) (s.after before') :=
    ⟨by decide +kernel, by decide +kernel, by decide +kernel, by decide +kernel, by decide +kernel⟩
  have hopen : ¬ LeavesTie before ∧ ¬ LeavesTie before' := ⟨by decide, by decide⟩
  exact ⟨⟨hcomma, hb, hb', hsetting, hopen⟩,
    (tracks_isolated_but_for_ties hcomma hb hb' hsetting track).2 (.inr hopen)⟩

/-- After a tie that is left open a note of the next track is longer. -/
theorem tie_carries_over : ¬ ∀ (before before' track : List Clause) (comma : Clause), comma.command = .ok .nextTrack →
    Faultless (State.initial : State Float) before → Faultless (State.initial : State Float) before' →
    SameSetting ((State.initial : State Float).after before) ((State.initial : State Float).after before') →
    List.Forall₂ SameReading (((State.initial : State Float).after (before ++ [comma])).readings track)
      (((State.initial : State Float).after (before' ++ [comma])).readings track) := by
  intro h
  let s : State Float := .initial
  let before : List Clause := [⟨"c4&".toList, 0⟩]
  let comma : Clause := ⟨",".toList, 3⟩
  have hb : Faultless s before := by decide +kernel
  have hsetting : SameSetting (s.after before) (s.after []) :=
    ⟨by decide +kernel, by decide +kernel, by decide +kernel, by decide +kernel, by decide +kernel⟩
  have hlong : ((s.after (before ++ [comma])).feed ⟨"d4".toList, 4⟩).note =
      some ⟨4, "d4".toList, 1, 127, 62, 0, 2000⟩ := by decide +kernel
  have hshort : ((s.after ([] ++ [comma])).feed ⟨"d4".toList, 4⟩).note =
      some ⟨4, "d4".toList, 1, 127, 62, 0, 1000⟩ := by decide +kernel
  cases h before [] [⟨"d4".toList, 4⟩] comma rfl hb (by decide +kernel) hsetting with
  | cons hreading _ =>
    have hnote : Option.Rel _ ((s.after (before ++ [comma])).feed ⟨"d4".toList, 4⟩).note
        ((s.after ([] ++ [comma])).feed ⟨"d4".toList, 4⟩).note := hreading.note
    rw [hlong, hshort] at hnote
    cases hnote with
    | some hsame => exact absurd hsame.2.duration (by decide)

end Ostinato.Score
