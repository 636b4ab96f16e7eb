import Ostinato.Proofs.Sound.Voices

/-!
  Ostinato.Proofs.Sound.Lives: what becomes of a voice.

  A voice that was struck is held, dies away, or has ended, and each request takes it at most one
  step further (`Life.after`): released, it dies away, and it ends with the sample that brings its
  envelope to rest. A synthesizer has one voice for each life that has not ended, in the list
  where the life says that it is (`Accounted`), and the stage of its envelope is one of that list
  (`Life.InStage`). So no voice is lost on the way, none is there twice, and there is one more
  only after an audible note was struck (`Turn`). None of this hangs on the levels: the numbers
  may be any. Nor does it hang on the order of the voices, which `next`, `noteOn` and `releaseAll`
  go through as they come (`Shuffled`).
-/

namespace Ostinato.Sound

open Score

variable {R : Type}

inductive Request where
  | noteOn (n : Note)
  | noteOff (n : Note)
  | releaseAll
  | setVolume (percent : Nat)
  | sample
  deriving DecidableEq, Repr

/-- Where a voice is that was struck: held under the id of its note, dying away, or ended. -/
inductive Life (R : Type) where
  | held (key : Nat × Nat) (v : Voice R)
  | releasing (v : Voice R)
  | ended (v : Voice R)

namespace Life

def held? : Life R → Option ((Nat × Nat) × Voice R)
  | held key v => some (key, v)
  | _ => none

def releasing? : Life R → Option (Voice R)
  | releasing v => some v
  | _ => none

def lasts : Life R → Bool
  | ended _ => false
  | _ => true

/-- The stages that go with a life. -/
def InStage : Life R → Prop
  | held _ v => v.envelope.stage = .attack ∨ v.envelope.stage = .decay ∨ v.envelope.stage = .sustain
  | releasing v => v.envelope.stage = .release
  | ended v => v.envelope.stage = .idle

end Life

variable [Signal R]

instance (n : Note) : Decidable (Audible R n) := inferInstanceAs (Decidable (_ = true))

def Synth.after (s : Synth R) : Request → Synth R
  | .noteOn n => (s.noteOn n).1
  | .noteOff n => s.noteOff n
  | .releaseAll => s.releaseAll
  | .setVolume percent => s.setVolume percent
  | .sample => s.next.2

def Synth.run (s : Synth R) (requests : List Request) : Synth R := requests.foldl Synth.after s

namespace Life

/-- A voice that is held under one of some keys is released. -/
def releaseIf (p : Nat × Nat → Bool) : Life R → Life R
  | held key v => if p key then releasing v.release else held key v
  | releasing v => releasing v
  | ended v => ended v

/-- A voice is a sample older; one that dies away has ended when its envelope is at rest. -/
def sample (rate : R) : Life R → Life R
  | held key v => held key (v.next rate).2
  | releasing v => if (v.next rate).2.envelope.isFinished then ended (v.next rate).2 else releasing (v.next rate).2
  | ended v => ended v

def after (rate : R) (l : Life R) : Request → Life R
  | .noteOn n => if Audible R n then l.releaseIf (· == n.id) else l
  | .noteOff n => l.releaseIf (· == n.id)
  | .releaseAll => l.releaseIf fun _ => true
  | .setVolume _ => l
  | .sample => l.sample rate

/-- The life that a request begins. -/
def begun? (settings : Settings R) (rate : R) : Request → Option (Life R)
  | .noteOn n => if Audible R n then some (held n.id (.strike n settings rate)) else none
  | _ => none

end Life

/-- The lives of the voices that were struck, in the order in which they were. -/
def lives (settings : Settings R) (rate : R) (requests : List Request) : List (Life R) :=
  requests.foldl (fun ls r => ls.map (·.after rate r) ++ (Life.begun? settings rate r).toList) []

/-- A synthesizer has the voices of the lives that have not ended, each where its life says. -/
structure Accounted (s : Synth R) (ls : List (Life R)) : Prop where
  held : s.held = ls.filterMap Life.held?
  releasing : s.releasing.Perm (ls.filterMap Life.releasing?)
  keys : (s.held.map (·.1)).Nodup
  stages : ∀ l ∈ ls, l.InStage

/-- What a request does to the voices of a synthesizer. -/
inductive Turn (s : Synth R) : Request → Synth R → Prop
  /-- One voice more is held; one that its note had dies away. -/
  | strikes {n : Note} {s' : Synth R} {kept moved : List ((Nat × Nat) × Voice R)} (haudible : Audible R n)
      (hmoved : s.held.Perm (kept ++ moved)) (hid : ∀ x ∈ moved, x.1 = n.id)
      (hheld : s'.held = kept ++ [(n.id, .strike n s.settings s.rate)])
      (hreleasing : s'.releasing = s.releasing ++ moved.map fun x => x.2.release)
      (hcount : s'.voices = s.voices + 1) : Turn s (.noteOn n) s'
  | skips {n : Note} (haudible : ¬ Audible R n) : Turn s (.noteOn n) s
  /-- Voices that were held die away, and nothing else. -/
  | releases {r : Request} {s' : Synth R} {moved : List ((Nat × Nat) × Voice R)}
      (hrequest : r = .releaseAll ∨ ∃ n, r = .noteOff n) (hmoved : s.held.Perm (s'.held ++ moved))
      (hreleasing : s'.releasing = s.releasing ++ moved.map fun x => x.2.release)
      (hcount : s'.voices = s.voices) : Turn s r s'
  | sets {percent : Nat} {s' : Synth R} (hheld : s'.held = s.held) (hreleasing : s'.releasing = s.releasing) :
      Turn s (.setVolume percent) s'
  /-- Every voice is a sample older; those that died away and have come to rest are gone. -/
  | samples {s' : Synth R} {older : List (Voice R)} (holder : older = s.releasing.map fun v => (v.next s.rate).2)
      (hheld : s'.held = s.held.map fun x => (x.1, (x.2.next s.rate).2))
      (hreleasing : s'.releasing = older.filter (·.envelope.stage ≠ .idle))
      (hcount : s'.voices + older.countP (·.envelope.stage = .idle) = s.voices) : Turn s .sample s'

/-! ## Lives and lists -/

variable {s : Synth R} {ls : List (Life R)}

def Synth.releaseIf (s : Synth R) (p : Nat × Nat → Bool) : Synth R :=
  { s with
    held := s.held.filter (!p ·.1)
    releasing := s.releasing ++ (s.held.filter (p ·.1)).map fun x => x.2.release }

omit [Signal R] in
theorem noteOff_eq (s : Synth R) (n : Note) : s.noteOff n = s.releaseIf (· == n.id) := rfl

omit [Signal R] in
theorem releaseAll_eq (s : Synth R) : s.releaseAll = s.releaseIf fun _ => true := by
  simp [Synth.releaseAll, Synth.releaseIf]

omit [Signal R] in
theorem held_releaseIf (ls : List (Life R)) (p : Nat × Nat → Bool) :
    (ls.map (Life.releaseIf p)).filterMap Life.held? = (ls.filterMap Life.held?).filter (!p ·.1) := by
  induction ls with
  | nil => rfl
  | cons l ls ih =>
    rw [List.map_cons]
    cases l with
    | held key v => cases hp : p key <;> simp [List.filterMap_cons, Life.releaseIf, Life.held?, hp, ih]
    | releasing v => exact ih
    | ended v => exact ih

omit [Signal R] in
theorem releasing_releaseIf (ls : List (Life R)) (p : Nat × Nat → Bool) :
    (ls.filterMap Life.releasing? ++ ((ls.filterMap Life.held?).filter (p ·.1)).map fun x => x.2.release).Perm
      ((ls.map (Life.releaseIf p)).filterMap Life.releasing?) := by
  induction ls with
  | nil => exact .refl _
  | cons l ls ih =>
    rw [List.map_cons]
    cases l with
    | held key v =>
      cases hp : p key with
      | false => simpa [List.filterMap_cons, Life.releaseIf, Life.held?, Life.releasing?, hp] using ih
      | true =>
        simp only [List.filterMap_cons, Life.releaseIf, Life.held?, Life.releasing?, hp, if_true,
          List.filter_cons_of_pos, List.map_cons]
        exact List.perm_middle.trans (ih.cons _)
    | releasing v => exact ih.cons _
    | ended v => exact ih

theorem held_sample (ls : List (Life R)) (rate : R) :
    (ls.map (Life.sample rate)).filterMap Life.held? =
      (ls.filterMap Life.held?).map fun x => (x.1, (x.2.next rate).2) := by
  induction ls with
  | nil => rfl
  | cons l ls ih =>
    rw [List.map_cons]
    cases l with
    | held key v => exact congrArg _ ih
    | releasing v => cases hf : (v.next rate).2.envelope.isFinished <;>
        simp [List.filterMap_cons, Life.sample, Life.held?, hf, ih]
    | ended v => exact ih

theorem releasing_sample (ls : List (Life R)) (rate : R) :
    (ls.map (Life.sample rate)).filterMap Life.releasing? =
      ((ls.filterMap Life.releasing?).map fun v => (v.next rate).2).filter fun v => !v.envelope.isFinished := by
  induction ls with
  | nil => rfl
  | cons l ls ih =>
    rw [List.map_cons]
    cases l with
    | held key v => exact ih
    | releasing v => cases hf : (v.next rate).2.envelope.isFinished <;>
        simp [List.filterMap_cons, Life.sample, Life.releasing?, hf, ih]
    | ended v => exact ih

omit [Signal R] in
theorem Accounted.voices (h : Accounted s ls) : s.voices = ls.countP Life.lasts := by
  rw [Synth.voices, h.held, h.releasing.length_eq]
  clear h
  induction ls with
  | nil => rfl
  | cons l ls ih =>
    cases l with
    | held key v =>
      simp only [List.filterMap_cons, Life.held?, Life.releasing?, List.length_cons, List.countP_cons, Life.lasts]
      simp only [if_true]
      omega
    | releasing v =>
      simp only [List.filterMap_cons, Life.held?, Life.releasing?, List.length_cons, List.countP_cons, Life.lasts]
      simp only [if_true]
      omega
    | ended v => simpa [List.filterMap_cons, Life.held?, Life.releasing?, Life.lasts] using ih

/-! ## Stages -/

/-- The stages that a sample may lead to. -/
def Stage.next : Stage → List Stage
  | idle => [idle]
  | attack => [attack, decay]
  | decay => [decay, sustain]
  | sustain => [sustain]
  | release => [release, idle]

theorem stage_next (e : Envelope R) : e.next.stage ∈ e.stage.next := by
  obtain ⟨sustain, attackPart, decayPart, releasePart, peak, stage, level⟩ := e
  unfold Envelope.next
  cases stage with
  | idle => exact List.mem_singleton_self _
  | sustain => exact List.mem_singleton_self _
  | attack => dsimp only; split <;> simp [Stage.next]
  | decay => dsimp only; split <;> simp [Stage.next]
  | release => dsimp only; split <;> simp [Stage.next]

theorem isFinished_iff {R : Type} (e : Envelope R) : e.isFinished = true ↔ e.stage = .idle := beq_iff_eq

omit [Signal R] in
theorem Life.InStage.releaseIf {l : Life R} (h : l.InStage) (p : Nat × Nat → Bool) : (l.releaseIf p).InStage := by
  cases l with
  | held key v =>
    have hidle : v.envelope.stage ≠ .idle := by
      intro hidle
      rcases h with h | h | h <;> cases hidle.symm.trans h
    cases hp : p key with
    | true => simp [Life.releaseIf, hp, Life.InStage, Voice.release, Envelope.release, hidle]
    | false => simpa [Life.releaseIf, hp] using h
  | releasing v => exact h
  | ended v => exact h

theorem Life.InStage.sample {l : Life R} (h : l.InStage) (rate : R) : (l.sample rate).InStage := by
  cases l with
  | held key v =>
    have hnext := stage_next v.envelope
    show v.envelope.next.stage = _ ∨ v.envelope.next.stage = _ ∨ v.envelope.next.stage = _
    rcases h with h | h | h
    all_goals
      rw [h] at hnext
      simp only [Stage.next, List.mem_cons, List.not_mem_nil, or_false] at hnext
      tauto
  | releasing v =>
    have hstage : v.envelope.stage = .release := h
    have hnext := stage_next v.envelope
    rw [hstage] at hnext
    cases hf : (v.next rate).2.envelope.isFinished with
    | true => simpa [Life.sample, hf, Life.InStage] using (isFinished_iff _).mp hf
    | false =>
      have hidle : (v.next rate).2.envelope.stage ≠ .idle := fun hidle => by
        rw [(isFinished_iff _).mpr hidle] at hf
        cases hf
      have hrelease : (v.next rate).2.envelope.stage = .release :=
        (List.mem_pair.mp hnext).resolve_right hidle
      simpa [Life.sample, hf, Life.InStage] using hrelease
  | ended v => exact h

/-! ## Request after request -/

namespace Accounted

omit [Signal R] in
theorem releaseIf (h : Accounted s ls) (p : Nat × Nat → Bool) :
    Accounted (s.releaseIf p) (ls.map (Life.releaseIf p)) where
  held := by rw [held_releaseIf, ← h.held]; rfl
  releasing := by
    refine .trans ?_ (releasing_releaseIf ls p)
    rw [← h.held]
    exact h.releasing.append_right _
  keys := h.keys.sublist (List.filter_sublist.map _)
  stages := List.forall_mem_map.mpr fun l hl => (h.stages l hl).releaseIf p

theorem sample (h : Accounted s ls) : Accounted s.next.2 (ls.map (Life.sample s.rate)) where
  held := by
    rw [held_sample, ← h.held]
    simp only [Synth.next, List.map_map, Function.comp_def]
  releasing := by
    rw [releasing_sample]
    simp only [Synth.next, List.map_map, Function.comp_def]
    exact (h.releasing.map _).filter _
  keys := by
    simp only [Synth.next, List.map_map, Function.comp_def]
    exact h.keys
  stages := List.forall_mem_map.mpr fun l hl => (h.stages l hl).sample s.rate

theorem strike (h : Accounted s ls) (n : Note) (hkey : n.id ∉ s.held.map (·.1)) :
    Accounted { s with held := s.held ++ [(n.id, .strike n s.settings s.rate)] }
      (ls ++ [.held n.id (.strike n s.settings s.rate)]) where
  held := by rw [List.filterMap_append, ← h.held]; rfl
  releasing := by
    rw [List.filterMap_append]
    exact (List.append_nil _).symm ▸ h.releasing
  keys := by
    rw [List.map_append]
    exact List.Nodup.append h.keys (List.nodup_singleton _) (by simpa using hkey)
  stages := by
    refine List.forall_mem_append.mpr ⟨h.stages, List.forall_mem_singleton.mpr ?_⟩
    exact .inl rfl

theorem setVolume (h : Accounted s ls) (percent : Nat) : Accounted (s.setVolume percent) ls :=
  ⟨h.held, h.releasing, h.keys, h.stages⟩

theorem after (h : Accounted s ls) (r : Request) :
    Accounted (s.after r) (ls.map (·.after s.rate r) ++ (Life.begun? s.settings s.rate r).toList) := by
  cases r with
  | noteOn n =>
    by_cases ha : Audible R n
    · have hkey : n.id ∉ (s.releaseIf (· == n.id)).held.map (·.1) := by simp [Synth.releaseIf]
      have hstruck := (h.releaseIf (· == n.id)).strike n hkey
      simp only [Synth.after, Life.after, Life.begun?, ha, if_true, Option.toList_some, s.noteOn_audible ha]
      exact hstruck
    · simpa [Synth.after, Life.after, Life.begun?, ha, s.noteOn_inaudible ha] using h
  | noteOff n => simpa [Synth.after, Life.after, Life.begun?, noteOff_eq] using h.releaseIf (· == n.id)
  | releaseAll => simpa [Synth.after, Life.after, Life.begun?, releaseAll_eq] using h.releaseIf fun _ => true
  | setVolume percent => simpa [Synth.after, Life.after, Life.begun?] using h.setVolume percent
  | sample => simpa [Synth.after, Life.after, Life.begun?] using h.sample

end Accounted

theorem accounted_run (h : Accounted s ls) (requests : List Request) :
    Accounted (s.run requests) (requests.foldl
      (fun ls r => ls.map (·.after s.rate r) ++ (Life.begun? s.settings s.rate r).toList) ls) := by
  induction requests generalizing s ls with
  | nil => exact h
  | cons r requests ih =>
    have halike : (s.after r).rate = s.rate ∧ (s.after r).settings = s.settings := by
      cases r with
      | noteOn n => exact ⟨(s.alike_noteOn n).rate, (s.alike_noteOn n).settings⟩
      | _ => exact ⟨rfl, rfl⟩
    have hlater := ih (h.after r)
    rw [halike.1, halike.2] at hlater
    exact hlater

omit [Signal R] in
theorem moved_releaseIf (s : Synth R) (p : Nat × Nat → Bool) :
    s.held.Perm ((s.releaseIf p).held ++ s.held.filter (p ·.1)) ∧ (s.releaseIf p).voices = s.voices := by
  have hperm : s.held.Perm (s.held.filter (!p ·.1) ++ s.held.filter (p ·.1)) :=
    (List.filter_append_perm (p ·.1) s.held).symm.trans List.perm_append_comm
  refine ⟨hperm, ?_⟩
  have hlength := hperm.length_eq
  rw [List.length_append] at hlength
  simp only [Synth.voices, Synth.releaseIf, List.length_append, List.length_map]
  omega

theorem turn_after (s : Synth R) (r : Request) : Turn s r (s.after r) := by
  cases r with
  | noteOn n =>
    by_cases ha : Audible R n
    · obtain ⟨hmoved, hcount⟩ := moved_releaseIf s (· == n.id)
      rw [Synth.after, s.noteOn_audible ha, noteOff_eq]
      -- a voice of the same note goes to the releasing ones before the new one is held
      refine .strikes ha hmoved (fun x hx => ?_) rfl rfl ?_
      · simpa using (List.mem_filter.mp hx).2
      · rw [← hcount]
        simp only [Synth.voices, List.length_append, List.length_singleton]
        omega
    · rw [Synth.after, s.noteOn_inaudible ha]
      exact .skips ha
  | noteOff n =>
    obtain ⟨hmoved, hcount⟩ := moved_releaseIf s (· == n.id)
    exact .releases (.inr ⟨n, rfl⟩) hmoved rfl hcount
  | releaseAll =>
    obtain ⟨hmoved, hcount⟩ := moved_releaseIf s fun _ => true
    rw [Synth.after, releaseAll_eq]
    exact .releases (.inl rfl) hmoved rfl hcount
  | setVolume percent => exact .sets rfl rfl
  | sample =>
    have hreleasing : s.next.2.releasing =
        (s.releasing.map fun v => (v.next s.rate).2).filter (·.envelope.stage ≠ .idle) := by
      simp only [Synth.next, List.map_map, Function.comp_def]
      exact List.filter_congr fun v _ => by cases h : v.envelope.stage <;> simp [Envelope.isFinished, h]
    refine .samples rfl ?_ hreleasing ?_
    · simp only [Synth.after, Synth.next, List.map_map, Function.comp_def]
    · have hheld : s.next.2.held.length = s.held.length := by simp [Synth.next]
      have hcount := List.length_eq_countP_add_countP (fun v : Voice R => decide (v.envelope.stage = .idle))
        (l := s.releasing.map fun v => (v.next s.rate).2)
      rw [List.length_map] at hcount
      simp only [Synth.after, Synth.voices, hheld, hreleasing, ← List.countP_eq_length_filter]
      simp only [decide_not, ne_eq, Bool.decide_eq_true] at hcount ⊢
      omega

/-! ## The order of the voices -/

/-- The same voices, perhaps in another order. -/
structure SameVoices (s s' : Synth R) : Prop where
  rate : s'.rate = s.rate
  gain : s'.gain = s.gain
  settings : s'.settings = s.settings
  held : s'.held.Perm s.held
  releasing : s'.releasing.Perm s.releasing

/-- What requests may lead to when the voices are put in some other order before each of them: `held`
    has its voices in no order that a caller could know. -/
inductive Shuffled (s : Synth R) : List Request → Synth R → Prop
  | start {s' : Synth R} : SameVoices s s' → Shuffled s [] s'
  | request {requests : List Request} {s' s'' : Synth R} (r : Request) :
      Shuffled s requests s' → SameVoices (s'.after r) s'' → Shuffled s (requests ++ [r]) s''

namespace SameVoices

variable {s' s'' : Synth R}

omit [Signal R]

theorem trans (h : SameVoices s s') (h' : SameVoices s' s'') : SameVoices s s'' :=
  ⟨h'.rate.trans h.rate, h'.gain.trans h.gain, h'.settings.trans h.settings, h'.held.trans h.held,
    h'.releasing.trans h.releasing⟩

theorem voices (h : SameVoices s s') : s'.voices = s.voices := by
  rw [Synth.voices, Synth.voices, h.held.length_eq, h.releasing.length_eq]

theorem releaseIf (h : SameVoices s s') (p : Nat × Nat → Bool) : SameVoices (s.releaseIf p) (s'.releaseIf p) :=
  ⟨h.rate, h.gain, h.settings, h.held.filter _, h.releasing.append ((h.held.filter _).map _)⟩

end SameVoices

/-- The order of the voices makes no difference to what a request leaves. -/
theorem SameVoices.after {s' : Synth R} (h : SameVoices s s') (r : Request) : SameVoices (s.after r) (s'.after r) := by
  cases r with
  | noteOn n =>
    by_cases ha : Audible R n
    · have hreleased := h.releaseIf (· == n.id)
      rw [Synth.after, Synth.after, s.noteOn_audible ha, s'.noteOn_audible ha, h.settings, h.rate]
      exact ⟨h.rate, h.gain, h.settings, hreleased.held.append_right _, hreleased.releasing⟩
    · rw [Synth.after, Synth.after, s.noteOn_inaudible ha, s'.noteOn_inaudible ha]
      exact h
  | noteOff n => exact h.releaseIf (· == n.id)
  | releaseAll =>
    rw [Synth.after, Synth.after, releaseAll_eq, releaseAll_eq]
    exact h.releaseIf fun _ => true
  | setVolume percent => exact ⟨h.rate, rfl, h.settings, h.held, h.releasing⟩
  | sample =>
    refine ⟨h.rate, h.gain, h.settings, ?_, ?_⟩
    · simp only [Synth.after, Synth.next, List.map_map, h.rate]
      exact h.held.map _
    · simp only [Synth.after, Synth.next, List.map_map, h.rate]
      exact (h.releasing.map _).filter _

/-- Whatever the order of the voices was on the way, they are the same in the end. -/
theorem Shuffled.sameVoices {requests : List Request} {s' : Synth R} (h : Shuffled s requests s') :
    SameVoices (s.run requests) s' := by
  induction h with
  | start h => exact h
  | request r _ h ih =>
    rw [Synth.run, List.foldl_append]
    exact (ih.after r).trans h

/-- After whatever requests, a synthesizer has a voice for each life that has not ended, and each one
    in the list and in a stage that go with its life; whatever is requested next, voices are added,
    moved and dropped by it only as `Turn` says; and in whatever order the voices were on the way,
    they are the same. -/
theorem no_voice_is_lost (rate : R) (requests : List Request) :
    let s := (Synth.silent rate).run requests
    Accounted s (lives .standard rate requests) ∧
    (∀ x ∈ s.held, x.2.envelope.stage = .attack ∨ x.2.envelope.stage = .decay ∨ x.2.envelope.stage = .sustain) ∧
    (∀ v ∈ s.releasing, v.envelope.stage = .release) ∧
    s.voices = (lives .standard rate requests).countP Life.lasts ∧
    (∀ r, Turn s r (s.after r)) ∧
    ∀ s', Shuffled (Synth.silent rate) requests s' → SameVoices s s' ∧ s'.voices = s.voices := by
  intro s
  have hsilent : Accounted (Synth.silent rate) [] :=
    ⟨rfl, .refl _, List.nodup_nil, fun l hl => absurd hl List.not_mem_nil⟩
  have h : Accounted s (lives .standard rate requests) := accounted_run hsilent requests
  refine ⟨h, fun x hx => ?_, fun v hv => ?_, h.voices, turn_after s, fun s' h' => ⟨h'.sameVoices, h'.sameVoices.voices⟩⟩
  · rw [h.held] at hx
    obtain ⟨l, hl, hx⟩ := List.mem_filterMap.mp hx
    cases l with
    | held key v =>
      obtain rfl := Option.some.inj hx
      exact h.stages _ hl
    | releasing v => cases hx
    | ended v => cases hx
  · obtain ⟨l, hl, hv⟩ := List.mem_filterMap.mp (h.releasing.mem_iff.mp hv)
    cases l with
    | releasing v =>
      obtain rfl := Option.some.inj hv
      exact h.stages _ hl
    | held key v => cases hv
    | ended v => cases hv

end Ostinato.Sound
