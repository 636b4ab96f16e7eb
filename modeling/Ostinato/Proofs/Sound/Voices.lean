import Mathlib.Data.List.TakeWhile
import Mathlib.Logic.Function.Iterate
import Ostinato.Proofs.Player.Sounding
import Ostinato.Sound.Stream

/-!
  Ostinato.Proofs.Sound.Voices: which voices a synthesizer holds.

  A synthesizer gets the events of some notes, and renders samples in between (`Moment`). Its
  held voices follow the notes that are on when there is one for each such note that is audible,
  under the note's id: the voice that the note's start struck, as many samples later as were
  rendered since (`Voiced`). A start keeps this and displaces no voice, if no note of its id is
  on (`Voiced.noteOn`); a stop keeps it and lets the note's own voice die away, if its note is
  on and has its id alone (`Voiced.noteOff`). Samples make the voices older, all alike.
-/

namespace Ostinato.Sound

open Score Playback Midi

variable {R : Type} [Signal R]

/-! ## What operations change -/

def Voice.aged (rate : R) (count : Nat) (v : Voice R) : Voice R := (fun v : Voice R => (v.next rate).2)^[count] v

@[simp] theorem Voice.aged_zero (rate : R) (v : Voice R) : v.aged rate 0 = v := rfl

theorem Voice.aged_aged (rate : R) (v : Voice R) (m n : Nat) : (v.aged rate m).aged rate n = v.aged rate (m + n) := by
  rw [Nat.add_comm]
  exact (Function.iterate_add_apply _ n m v).symm

/-- What a synthesizer is set to, which no note and no sample changes. -/
structure Synth.Alike {R : Type} (s t : Synth R) : Prop where
  rate : t.rate = s.rate
  gain : t.gain = s.gain
  settings : t.settings = s.settings

namespace Synth

variable (s : Synth R)

theorem alike_noteOn (n : Note) : s.Alike (s.noteOn n).1 := by
  unfold noteOn
  dsimp only
  split <;> exact ⟨rfl, rfl, rfl⟩

theorem alike_render {σ : Type} (note : σ → R → σ) (count : Nat) (acc : σ) :
    s.Alike (s.render note count acc).2 := by
  induction count generalizing s acc with
  | zero => exact ⟨rfl, rfl, rfl⟩
  | succ count ih =>
    obtain ⟨hrate, hgain, hsettings⟩ := ih s.next.2 (note acc s.next.1)
    exact ⟨hrate, hgain, hsettings⟩

/-- Samples age every voice that is held. -/
theorem held_render {σ : Type} (note : σ → R → σ) (count : Nat) (acc : σ) :
    (s.render note count acc).2.held = s.held.map fun x => (x.1, x.2.aged s.rate count) := by
  induction count generalizing s acc with
  | zero => simp [render]
  | succ count ih =>
    show (s.next.2.render note count (note acc s.next.1)).2.held = _
    have hnext : s.next.2.held = s.held.map fun x => (x.1, x.2.aged s.rate 1) := by
      simp only [next, List.map_map]
      rfl
    rw [ih, hnext, List.map_map, show s.next.2.rate = s.rate from rfl]
    refine List.map_congr_left fun x _ => ?_
    simp only [Function.comp_apply, Voice.aged_aged, Nat.add_comm]

end Synth

/-- Whether a note has a voice: one that sounds at a finite frequency. -/
def Audible (R : Type) [Signal R] (n : Note) : Prop := Signal.isFinite (voiceFrequency n.pitch : R) = true

/-- An audible note takes the place of its own id; another one changes nothing. -/
theorem Synth.noteOn_audible (s : Synth R) {n : Note} (h : Audible R n) :
    (s.noteOn n).1 = { s.noteOff n with held := (s.noteOff n).held ++ [(n.id, Voice.strike n s.settings s.rate)] } := by
  have hf : Signal.isFinite (Voice.strike n s.settings s.rate).frequency = true := h
  simp [noteOn, hf, noteOff]

theorem Synth.noteOn_inaudible (s : Synth R) {n : Note} (h : ¬ Audible R n) : (s.noteOn n).1 = s := by
  have hf : ¬ Signal.isFinite (Voice.strike n s.settings s.rate).frequency = true := h
  simp [noteOn, hf]

def Synth.heard (s : Synth R) : Event → Synth R
  | .noteOn n => (s.noteOn n).1
  | .noteOff n => s.noteOff n
  | .finished => s

/-! ## A synthesizer in time -/

inductive Moment where
  | event (e : Event)
  | samples (count : Nat)
  deriving DecidableEq

def Moment.event? : Moment → Option Event
  | event e => some e
  | samples _ => none

/-- The number of samples that a moment takes. -/
def Moment.length : Moment → Nat
  | event _ => 0
  | samples count => count

def eventsIn (trace : List Moment) : List Event := trace.filterMap Moment.event?

theorem mem_eventsIn {trace : List Moment} {e : Event} : e ∈ eventsIn trace ↔ .event e ∈ trace := by
  simp only [eventsIn, List.mem_filterMap]
  constructor
  · intro h
    obtain ⟨m, hm, he⟩ := h
    cases m with
    | event e' => cases he; exact hm
    | samples count => cases he
  · intro h
    exact ⟨_, h, rfl⟩

@[simp] theorem eventsIn_event (trace : List Moment) (e : Event) :
    eventsIn (trace ++ [.event e]) = eventsIn trace ++ [e] := by
  simp [eventsIn, Moment.event?]

@[simp] theorem eventsIn_samples (trace : List Moment) (count : Nat) :
    eventsIn (trace ++ [.samples count]) = eventsIn trace := by
  simp [eventsIn, Moment.event?]

def samplesIn : List Moment → Nat
  | [] => 0
  | m :: trace => m.length + samplesIn trace

theorem samplesIn_append (trace more : List Moment) : samplesIn (trace ++ more) = samplesIn trace + samplesIn more := by
  induction trace with
  | nil => simp [samplesIn]
  | cons m trace ih => simp only [List.cons_append, samplesIn, ih, Nat.add_assoc]

def samplesSince (n : Note) (trace : List Moment) : Nat := samplesIn (trace.dropWhile (· ≠ .event (.noteOn n)))

theorem samplesSince_concat {n : Note} {trace : List Moment} (h : .noteOn n ∈ eventsIn trace) (m : Moment) :
    samplesSince n (trace ++ [m]) = samplesSince n trace + m.length := by
  have hne : trace.dropWhile (· ≠ .event (.noteOn n)) ≠ [] := by
    intro hnil
    have hall := List.dropWhile_eq_nil_iff.mp hnil _ (mem_eventsIn.mp h)
    simp at hall
  have hdrop : (trace ++ [m]).dropWhile (· ≠ .event (.noteOn n)) = trace.dropWhile (· ≠ .event (.noteOn n)) ++ [m] := by
    rw [List.dropWhile_append, if_neg]
    simpa using hne
  rw [samplesSince, hdrop, samplesIn_append]
  rfl

theorem samplesSince_start {n : Note} {trace : List Moment} (h : .noteOn n ∉ eventsIn trace) :
    samplesSince n (trace ++ [.event (.noteOn n)]) = 0 := by
  have hdrop : trace.dropWhile (· ≠ .event (.noteOn n)) = [] := by
    refine List.dropWhile_eq_nil_iff.mpr fun m hm => ?_
    simp only [ne_eq, decide_eq_true_eq]
    rintro rfl
    exact h (mem_eventsIn.mpr hm)
  have hlast : (trace ++ [Moment.event (.noteOn n)]).dropWhile (· ≠ .event (.noteOn n)) = [.event (.noteOn n)] := by
    rw [List.dropWhile_append, if_pos]
    · simp
    · simpa using hdrop
  rw [samplesSince, hlast]
  rfl

/-- The voice that a note's start struck, as old as it is by now. -/
def voiceOf (settings : Settings R) (rate : R) (trace : List Moment) (n : Note) : Voice R :=
  (Voice.strike n settings rate).aged rate (samplesSince n trace)

/-! ## Voices follow notes -/

theorem filter_key {α β : Type} [BEq α] [LawfulBEq α] {l : List (α × β)} (h : (l.map (·.1)).Nodup) {x : α × β}
    (hx : x ∈ l) : l.filter (·.1 == x.1) = [x] := by
  induction l with
  | nil => cases hx
  | cons y l ih =>
    obtain ⟨hy, hl⟩ := List.nodup_cons.mp h
    rcases List.mem_cons.mp hx with rfl | hx
    · rw [List.filter_cons_of_pos (by simp)]
      refine congrArg _ (List.filter_eq_nil_iff.mpr fun z hz => ?_)
      simp only [beq_iff_eq]
      intro heq
      exact hy (List.mem_map.mpr ⟨z, hz, heq⟩)
    · rw [List.filter_cons_of_neg, ih hl hx]
      simp only [beq_iff_eq]
      intro heq
      exact hy (List.mem_map.mpr ⟨x, hx, heq.symm⟩)

/-- The voices held are those of the audible notes that are on, each under its note's id. -/
structure Voiced (s : Synth R) (trace : List Moment) : Prop where
  mem : ∀ key v, (key, v) ∈ s.held ↔
    ∃ n, IsOn (eventsIn trace) n ∧ Audible R n ∧ key = n.id ∧ v = voiceOf s.settings s.rate trace n
  keys : (s.held.map (·.1)).Nodup

namespace Voiced

variable {s : Synth R} {trace : List Moment} {n : Note}

theorem silent (h : s.held = []) : Voiced s [] := by
  refine ⟨fun key v => ?_, ?_⟩
  · simp [h, IsOn, eventsIn]
  · simp [h]

/-- What drops the voices of some keys and changes all others alike, while the notes of those keys
    stop and no other note starts or stops. -/
theorem of_kept (h : Voiced s trace) {s' : Synth R} {trace' : List Moment} (keep : Nat × Nat → Bool)
    (f : Voice R → Voice R) (hs : s.Alike s')
    (hheld : s'.held = (s.held.filter (keep ·.1)).map fun x => (x.1, f x.2))
    (hon : ∀ m, IsOn (eventsIn trace') m ↔ IsOn (eventsIn trace) m ∧ keep m.id = true)
    (hvoice : ∀ m, IsOn (eventsIn trace) m →
      voiceOf s.settings s.rate trace' m = f (voiceOf s.settings s.rate trace m)) : Voiced s' trace' := by
  refine ⟨fun key v => ?_, ?_⟩
  · rw [hheld, hs.rate, hs.settings]
    simp only [List.mem_map, List.mem_filter, Prod.mk.injEq, hon]
    constructor
    · intro hv
      obtain ⟨⟨key', v'⟩, ⟨hmem, hkeep⟩, rfl, rfl⟩ := hv
      obtain ⟨m, hm, ha, rfl, rfl⟩ := (h.mem _ _).mp hmem
      exact ⟨m, ⟨hm, hkeep⟩, ha, rfl, (hvoice m hm).symm⟩
    · intro hv
      obtain ⟨m, ⟨hm, hkeep⟩, ha, rfl, rfl⟩ := hv
      exact ⟨_, ⟨(h.mem _ _).mpr ⟨m, hm, ha, rfl, rfl⟩, hkeep⟩, rfl, (hvoice m hm).symm⟩
  · rw [hheld, List.map_map]
    exact h.keys.sublist (List.filter_sublist.map _)

/-- An event leaves the voices of the notes that are on as old as they are. -/
theorem voiceOf_concat {settings : Settings R} {rate : R} (hon : IsOn (eventsIn trace) n) (e : Event) :
    voiceOf settings rate (trace ++ [.event e]) n = voiceOf settings rate trace n := by
  rw [voiceOf, samplesSince_concat hon.1]
  rfl

/-- A note that starts gets a voice, and no voice has to give way to it. -/
theorem noteOn (h : Voiced s trace) (hon : .noteOn n ∉ eventsIn trace) (hoff : .noteOff n ∉ eventsIn trace)
    (hid : ∀ m, IsOn (eventsIn trace) m → m.id ≠ n.id) :
    Voiced (s.noteOn n).1 (trace ++ [.event (.noteOn n)]) ∧ n.id ∉ s.held.map (·.1) ∧
      (s.noteOn n).1.releasing = s.releasing := by
  have hkey : n.id ∉ s.held.map (·.1) := by
    intro hmem
    obtain ⟨⟨key, v⟩, hv, hkey⟩ := List.mem_map.mp hmem
    obtain ⟨m, hm, -, rfl, -⟩ := (h.mem _ _).mp hv
    exact hid m hm hkey
  -- A note is taken off before it is struck, which changes nothing where no voice has its id.
  have hnone : s.noteOff n = s := by
    have hne : ∀ x ∈ s.held, x.1 ≠ n.id := fun x hx heq => hkey (heq ▸ List.mem_map_of_mem hx)
    have hother : s.held.filter (·.1 != n.id) = s.held := List.filter_eq_self.mpr fun x hx => by simpa using hne x hx
    have hown : s.held.filter (·.1 == n.id) = [] := List.filter_eq_nil_iff.mpr fun x hx => by simpa using hne x hx
    simp only [Synth.noteOff, hother, hown, List.map_nil, List.append_nil]
  have hstruck : voiceOf s.settings s.rate (trace ++ [.event (.noteOn n)]) n = Voice.strike n s.settings s.rate := by
    rw [voiceOf, samplesSince_start hon, Voice.aged_zero]
  by_cases ha : Audible R n
  · rw [s.noteOn_audible ha, hnone]
    refine ⟨⟨fun key v => ?_, ?_⟩, hkey, rfl⟩
    · simp only [List.mem_append, List.mem_singleton, Prod.mk.injEq, h.mem, eventsIn_event, isOn_noteOn]
      constructor
      · intro hv
        rcases hv with ⟨m, hm, hma, rfl, rfl⟩ | ⟨rfl, rfl⟩
        · exact ⟨m, .inl hm, hma, rfl, (voiceOf_concat hm _).symm⟩
        · exact ⟨n, .inr ⟨rfl, hoff⟩, ha, rfl, hstruck.symm⟩
      · intro hv
        obtain ⟨m, hm | ⟨rfl, -⟩, hma, rfl, rfl⟩ := hv
        · exact .inl ⟨m, hm, hma, rfl, voiceOf_concat hm _⟩
        · exact .inr ⟨rfl, hstruck⟩
    · rw [List.map_append]
      exact List.Nodup.append h.keys (List.nodup_singleton _) (by simpa using hkey)
  · rw [s.noteOn_inaudible ha]
    refine ⟨⟨fun key v => ?_, h.keys⟩, hkey, rfl⟩
    simp only [h.mem, eventsIn_event, isOn_noteOn]
    constructor
    · intro hv
      obtain ⟨m, hm, hma, rfl, rfl⟩ := hv
      exact ⟨m, .inl hm, hma, rfl, (voiceOf_concat hm _).symm⟩
    · intro hv
      obtain ⟨m, hm | ⟨rfl, -⟩, hma, rfl, rfl⟩ := hv
      · exact ⟨m, hm, hma, rfl, voiceOf_concat hm _⟩
      · exact absurd hma ha

/-- A note that stops lets its own voice die away, if it has one, and no other. -/
theorem noteOff (h : Voiced s trace) (hon : IsOn (eventsIn trace) n)
    (hid : ∀ m, IsOn (eventsIn trace) m → m.id = n.id → m = n) :
    Voiced (s.noteOff n) (trace ++ [.event (.noteOff n)]) ∧
      (Audible R n → (n.id, voiceOf s.settings s.rate trace n) ∈ s.held ∧
        (s.noteOff n).releasing = s.releasing ++ [(voiceOf s.settings s.rate trace n).release]) ∧
      (¬ Audible R n → (s.noteOff n).releasing = s.releasing) := by
  refine ⟨?_, fun ha => ?_, fun ha => ?_⟩
  · refine h.of_kept (· != n.id) id ⟨rfl, rfl, rfl⟩ (List.map_id _).symm ?_ fun m hm => voiceOf_concat hm _
    intro m
    rw [eventsIn_event, isOn_noteOff, bne_iff_ne]
    exact and_congr_right fun hm => not_congr ⟨fun heq => heq ▸ rfl, hid m hm⟩
  · have hmem : (n.id, voiceOf s.settings s.rate trace n) ∈ s.held := (h.mem _ _).mpr ⟨n, hon, ha, rfl, rfl⟩
    have hown : s.held.filter (·.1 == n.id) = [(n.id, voiceOf s.settings s.rate trace n)] := filter_key h.keys hmem
    refine ⟨hmem, ?_⟩
    simp only [Synth.noteOff, hown, List.map_singleton]
  · have hnone : s.held.filter (·.1 == n.id) = [] := by
      refine List.filter_eq_nil_iff.mpr fun x hx hkey => ?_
      obtain ⟨m, hm, hma, hmid, -⟩ := (h.mem x.1 x.2).mp hx
      exact ha (hid m hm (hmid.symm.trans (eq_of_beq hkey)) ▸ hma)
    simp only [Synth.noteOff, hnone, List.map_nil, List.append_nil]

theorem finished (h : Voiced s trace) : Voiced s (trace ++ [.event .finished]) := by
  refine h.of_kept (fun _ => true) id ⟨rfl, rfl, rfl⟩ (by simp) ?_ fun m hm => voiceOf_concat hm _
  intro m
  simp [IsOn]

/-- Samples age the voices, and change nothing else about them. -/
theorem render (h : Voiced s trace) {σ : Type} (note : σ → R → σ) (count : Nat) (acc : σ) :
    Voiced (s.render note count acc).2 (trace ++ [.samples count]) := by
  refine h.of_kept (fun _ => true) (·.aged s.rate count) (s.alike_render note count acc) ?_ ?_ ?_
  · rw [s.held_render, List.filter_eq_self.mpr fun _ _ => rfl]
  · intro m
    rw [eventsIn_samples]
    exact (and_iff_left rfl).symm
  · intro m hm
    rw [voiceOf, samplesSince_concat hm.1, voiceOf, Voice.aged_aged]
    rfl

theorem setVolume (h : Voiced s trace) (percent : Nat) : Voiced (s.setVolume percent) trace := ⟨h.mem, h.keys⟩

end Voiced

end Ostinato.Sound
