import Ostinato.Proofs.Playback.Course
import Ostinato.Proofs.Player.Flush
import Ostinato.Proofs.Player.Line
import Ostinato.Proofs.Score.Places

/-!
  Ostinato.Proofs.Player.Channels: keys left on when channels change while notes sound.

  A run of client, timer and dispatcher does certain things with the MIDI output, in a certain
  order (`uses`); what the output keeps, and what goes over its connections, is what comes of
  just these (`carries_line`).

  A note is switched off under the channel mode of that moment, not the one that it was
  switched on under. While a score plays out on the MIDI output and the client does nothing
  but choose channels, what the output handles is orderly (`Underway.orderly`): every note
  stops after it started. Its key may stay on all the same. No key is left on in the end
  exactly if each note that changed its channel meanwhile has its key switched off later for
  another one (`none_left_on_iff`).
-/

namespace Ostinato.Midi

open Score Playback

/-! ## What an output handles -/

def Use.isPlain : Use → Bool
  | .event _ => true
  | .mode _ => true
  | _ => false

def Use.event? : Use → Option Event
  | .event e => some e
  | _ => none

namespace Line

/-- The events that an output handles, each with the channel mode of its moment. -/
def traced (l : Line) : List Use → List (ChannelMode × Event)
  | [] => []
  | u :: uses => u.event?.toList.map (l.output.mode, ·) ++ (l.use u).traced uses

theorem traced_concat (l : Line) (uses : List Use) (u : Use) :
    l.traced (uses ++ [u]) = l.traced uses ++ u.event?.toList.map ((l.run uses).output.mode, ·) := by
  induction uses generalizing l with
  | nil => simp [traced]
  | cons v uses ih =>
    show v.event?.toList.map (l.output.mode, ·) ++ (l.use v).traced (uses ++ [u]) = _
    rw [ih, ← List.append_assoc]
    rfl

theorem events_traced (l : Line) (uses : List Use) : (l.traced uses).map (·.2) = uses.filterMap Use.event? := by
  induction uses generalizing l with
  | nil => rfl
  | cons u uses ih =>
    simp only [traced, List.map_append, List.map_map, ih, List.filterMap_cons]
    cases u.event? <;> simp

end Line

/-- Whether a note is switched on at a channel and key. -/
def StartsAt (slot : Channel × Key) (x : ChannelMode × Event) : Prop :=
  ∃ n, x.2 = .noteOn n ∧ slotOf x.1 n = some slot

def StopsAt (slot : Channel × Key) (x : ChannelMode × Event) : Prop :=
  ∃ n, x.2 = .noteOff n ∧ slotOf x.1 n = some slot

@[simp] theorem startsAt_noteOn {slot : Channel × Key} {mode : ChannelMode} {n : Note} :
    StartsAt slot (mode, .noteOn n) ↔ slotOf mode n = some slot := by
  simp [StartsAt]

@[simp] theorem stopsAt_noteOff {slot : Channel × Key} {mode : ChannelMode} {n : Note} :
    StopsAt slot (mode, .noteOff n) ↔ slotOf mode n = some slot := by
  simp [StopsAt]

/-- The keys that an output keeps are those at which some note was switched on, and none off since. -/
theorem Line.active_traced {l : Line} (hact : l.output.active = []) {uses : List Use}
    (hplain : ∀ u ∈ uses, u.isPlain = true) : (l.run uses).output.active.Nodup ∧
      ∀ slot, slot ∈ (l.run uses).output.active ↔ Lasts (StartsAt slot) (StopsAt slot) (l.traced uses) := by
  induction uses using List.reverseRecOn with
  | nil => exact ⟨by simp [hact], fun slot => by simp [hact, traced, not_lasts_nil]⟩
  | append_singleton uses u ih =>
    obtain ⟨hnodup, hkeys⟩ := ih fun u hu => hplain u (List.mem_append_left _ hu)
    rw [run_concat, traced_concat]
    cases u with
    | event e =>
      refine ⟨Output.nodup_handle hnodup e, fun slot => ?_⟩
      rw [Use.event?, Option.toList_some, List.map_singleton, lasts_concat, ← hkeys slot]
      cases e with
      | noteOn n =>
        refine Output.mem_noteOn.trans ?_
        simp [StopsAt, or_comm]
      | noteOff n =>
        refine (Output.mem_noteOff hnodup).trans ?_
        simp [StartsAt]
      | finished => simp [StartsAt, StopsAt, use, Line.after, Output.handle]
    | mode mode =>
      refine ⟨hnodup, fun slot => ?_⟩
      simp only [Use.event?, Option.toList_none, List.map_nil, List.append_nil]
      exact hkeys slot
    | _ => cases hplain _ (List.mem_append_right _ (List.mem_singleton_self _))

/-- Whether the key of each note that is switched off elsewhere is switched off later for another
    note. -/
def Recovers (trace : List (ChannelMode × Event)) : Prop :=
  ∀ before mode n after slot, trace = before ++ (mode, .noteOn n) :: after → slotOf mode n = some slot →
    (∃ later, (later, .noteOff n) ∈ after ∧ slotOf later n ≠ some slot) →
    ∃ later m, (later, .noteOff m) ∈ after ∧ slotOf later m = some slot

/-- Where every note stops after it started, the keys left on are those that are not recovered. -/
theorem recovers_iff {trace : List (ChannelMode × Event)}
    (hstop : ∀ before mode n after, trace = before ++ (mode, .noteOn n) :: after →
      ∃ later, (later, .noteOff n) ∈ after) :
    Recovers trace ↔ ∀ slot, ¬ Lasts (StartsAt slot) (StopsAt slot) trace := by
  constructor
  · intro h slot hlasts
    obtain ⟨before, ⟨mode, e⟩, after, heq, ⟨n, rfl, hslot⟩, hnone⟩ := hlasts
    obtain ⟨later, hoff⟩ := hstop before mode n after heq
    have helse : slotOf later n ≠ some slot := fun hs => hnone _ hoff ⟨n, rfl, hs⟩
    obtain ⟨later', m, hm, hs⟩ := h before mode n after slot heq hslot ⟨later, hoff, helse⟩
    exact hnone _ hm ⟨m, rfl, hs⟩
  · intro h before mode n after slot heq hslot _
    by_contra hnone
    refine h slot ⟨before, _, after, heq, ⟨n, rfl, hslot⟩, fun x hx hstops => ?_⟩
    obtain ⟨m, hm, hs⟩ := hstops
    exact hnone ⟨x.1, m, hm ▸ hx, hs⟩

/-- Once the end of a session has come, the output keeps no key and none is left on at the port
    exactly if every key was recovered. -/
theorem Line.released_iff_recovers {l : Line} (hk : l.Kept) (hact : l.output.active = []) {uses : List Use}
    (hplain : ∀ u ∈ uses, u.isPlain = true) {notes : List Note} (ho : Orderly notes (uses.filterMap Use.event?))
    (hend : .finished ∈ uses.filterMap Use.event?) :
    (l.run uses).output.active = [] ∧ Released (l.run uses).sent ↔ Recovers (l.traced uses) := by
  obtain ⟨-, hkeys⟩ := active_traced hact hplain
  have hstop : ∀ before mode n after, l.traced uses = before ++ (mode, .noteOn n) :: after →
      ∃ later, (later, .noteOff n) ∈ after := by
    intro before mode n after heq
    have hevents : uses.filterMap Use.event? = before.map (·.2) ++ .noteOn n :: after.map (·.2) := by
      rw [← l.events_traced, heq, List.map_append, List.map_cons]
    rw [hevents] at ho hend
    obtain ⟨x, hx, heq⟩ := List.mem_map.mp (ho.noteOff_after hend)
    exact ⟨x.1, heq ▸ hx⟩
  have hkept : (l.run uses).output.active = [] ↔ Recovers (l.traced uses) := by
    simp only [recovers_iff hstop, List.eq_nil_iff_forall_not_mem, hkeys]
  rw [← hkept, and_iff_left_of_imp]
  intro hnil
  rw [released_iff]
  intro slot hleaves
  have hslot := (((hk.run uses).keys slot).mp hleaves).1
  rw [hnil] at hslot
  exact List.not_mem_nil hslot

end Ostinato.Midi

namespace Ostinato.Player

open Playback Score Midi

namespace Pipeline

/-! ## What a run does with the MIDI output -/

/-- What a move does with the MIDI output. -/
def usesOf (w : Pipeline) : Move → List Use
  | .act => match w.todo with
    | .connect system wanted :: _ => [.connect system wanted]
    | .disconnect :: _ => [.disconnect]
    | .setMode mode :: _ => [.mode mode]
    | .panic :: _ => [.panic]
    | _ => []
  | .takeEvent _ =>
    if w.phase = .ready ∧ w.player.outputs.selected = .midi then w.player.queued.head?.toList.map .event else []
  | .takeOrder => match w.player.orders with
    | .select output :: _ => if w.phase = .ready ∧ output ≠ w.player.outputs.selected then [.release] else []
    | _ => []
  | .flush => if w.phase = .releasing then [.release] else []
  | _ => []

def uses (w : Pipeline) : List Move → List Use
  | [] => []
  | m :: moves => w.usesOf m ++ (w.step m).uses moves

theorem uses_append (w : Pipeline) (moves more : List Move) :
    w.uses (moves ++ more) = w.uses moves ++ (w.run moves).uses more := by
  induction moves generalizing w with
  | nil => rfl
  | cons m moves ih =>
    show w.usesOf m ++ (w.step m).uses (moves ++ more) = _
    rw [ih, ← List.append_assoc]
    rfl

/-- The MIDI output of a pipeline's run, with all that went over its connections. -/
def line (config : Config) (moves : List Move) : Line :=
  Line.start.run (.mode config.channelMode :: (start config).uses moves)

/-- Some outputs have the MIDI output of a line, and what left them went over its connections. -/
structure Carries (l : Line) (o : Outputs) : Prop where
  output : l.output = o.midi
  messages : l.ended.flatMap (·.sent) ++ l.sent = o.traffic.messages

namespace Carries

variable {l : Line} {o : Outputs}

theorem after (h : Carries l o) (f : Midi.Output → Sent) : Carries (l.after (f l.output)) (o.sent (f o.midi)) := by
  obtain ⟨houtput, hmessages⟩ := h
  rw [houtput]
  exact ⟨rfl, by rw [Line.after, ← List.append_assoc, hmessages]; rfl⟩

/-- The connection that ends takes what was sent along; nothing was sent without one. -/
theorem renew (h : Carries l o) (hk : l.Kept) (how : Ending) (output : Midi.Output) (remark : Option Midi.Remark) :
    Carries ⟨output, [], l.ended ++ l.ending how⟩ (o.sent ⟨output, [], remark⟩) := by
  refine ⟨rfl, ?_⟩
  have hsent : (l.ending how).flatMap (·.sent) = l.sent := by
    unfold Line.ending
    cases hc : l.output.connection with
    | some port => simp
    | none => exact (hk.silent fun messages => by simp [Midi.Output.reach, hc]).symm
  rw [List.flatMap_append, hsent, List.append_nil, h.messages]
  exact (List.append_nil _).symm

theorem onAttached (h : Carries l o) (f : Sound.Synth Float32 → Sound.Synth Float32) :
    Carries l (o.onAttached f) := by
  unfold Outputs.onAttached
  split <;> exact ⟨h.output, h.messages⟩

theorem release (h : Carries l o) : Carries (l.run [.release]) o.silence :=
  (h.onAttached Sound.Synth.releaseAll).after Midi.Output.releaseActive

/-- An event goes to the MIDI output if that is selected, and to another one otherwise. -/
theorem dispatch (h : Carries l o) (palette : Palette) (e : Event) :
    Carries (if o.selected = .midi then l.run [.event e] else l) (o.dispatch palette e) := by
  have hforward : Carries (if o.selected = .midi then l.run [.event e] else l) (o.forward palette e) := by
    unfold Outputs.forward
    cases hs : o.selected with
    | console => exact ⟨h.output, h.messages⟩
    | midi => exact h.after (·.handle e)
    | synth =>
      rw [if_neg (by decide)]
      cases e with
      | finished => exact h
      | noteOn n => exact h.onAttached _
      | noteOff n => exact h.onAttached _
  exact ⟨hforward.output, hforward.messages⟩

theorem act {w : Pipeline} (h : Carries l w.player.outputs) (hk : l.Kept) :
    Carries (l.run (w.usesOf .act)) w.goOn.player.outputs := by
  cases ht : w.todo with
  | nil =>
    simp only [usesOf, goOn, ht]
    exact h
  | cons a rest =>
    cases a with
    | await =>
      simp only [usesOf, goOn, ht]
      split <;> exact h
    | connect system wanted =>
      simp only [usesOf, goOn, ht, Action.perform]
      rw [Line.run_cons, Line.run_nil, ← h.output]
      simp only [Line.use, Midi.Output.connect]
      cases system.openPort wanted with
      | error fault => exact h
      | ok port => exact h.renew hk .replaced _ _
    | disconnect =>
      simp only [usesOf, goOn, ht, Action.perform]
      rw [← h.output]
      exact h.renew hk .disconnected l.output.disconnect.output none
    | setMode mode =>
      simp only [usesOf, goOn, ht]
      refine ⟨?_, h.messages⟩
      show l.output.setMode mode = w.player.outputs.midi.setMode mode
      rw [h.output]
    | panic =>
      simp only [usesOf, goOn, ht]
      exact h.after Midi.Output.panicAll
    | _ =>
      simp only [usesOf, goOn, ht]
      exact ⟨h.output, h.messages⟩

theorem takeEvent {w : Pipeline} (h : Carries l w.player.outputs) (s : Surroundings) :
    Carries (l.run (w.usesOf (.takeEvent s))) (w.step (.takeEvent s)).player.outputs := by
  simp only [Pipeline.step, usesOf]
  by_cases hp : w.phase = .ready
  · simp only [hp, if_true, true_and, took, Player.takeEvent]
    cases hq : w.player.queued with
    | nil => simpa using h
    | cons e rest =>
      have hdispatch := h.dispatch s.palette e
      by_cases hs : w.player.outputs.selected = .midi
      · rw [if_pos hs] at hdispatch ⊢
        exact hdispatch
      · rw [if_neg hs] at hdispatch ⊢
        exact hdispatch
  · simpa [hp] using h

/-- Only another selection reaches the outputs, and it releases what sounds on them. -/
theorem takeOrder {w : Pipeline} (h : Carries l w.player.outputs) :
    Carries (l.run (w.usesOf .takeOrder)) (w.step .takeOrder).player.outputs := by
  simp only [Pipeline.step, usesOf, Pipeline.takeOrder]
  cases ho : w.player.orders with
  | nil =>
    simp only [Player.takeOrder, ho]
    split <;> exact h
  | cons o rest =>
    cases o with
    | silence =>
      dsimp only
      split <;> exact h
    | attach =>
      simp only [Player.takeOrder, ho]
      split <;> exact ⟨h.output, h.messages⟩
    | select output =>
      simp only [Player.takeOrder, ho, Player.carryOut, Outputs.select]
      by_cases hp : w.phase = .ready
      · rw [if_pos hp]
        by_cases hs : output = w.player.outputs.selected
        · rw [if_neg fun hboth => hboth.2 hs, if_pos hs]
          exact h
        · rw [if_pos ⟨hp, hs⟩, if_neg hs]
          exact ⟨h.release.output, h.release.messages⟩
      · rw [if_neg hp, if_neg fun hboth => hp hboth.1]
        exact h

theorem flush {w : Pipeline} (h : Carries l w.player.outputs) :
    Carries (l.run (w.usesOf .flush)) (w.step .flush).player.outputs := by
  simp only [Pipeline.step, usesOf, Pipeline.flush]
  cases hp : w.phase with
  | ready => exact h
  | releasing => exact h.release
  | answering => exact h
  | draining =>
    rw [if_neg (by decide)]
    dsimp only
    split <;> exact h

/-- What a move does with the MIDI output and what it sends is what its uses do. -/
theorem step {w : Pipeline} (h : Carries l w.player.outputs) (hk : l.Kept) (m : Move) :
    Carries (l.run (w.usesOf m)) (w.step m).player.outputs := by
  cases m with
  | begin s op =>
    simp only [Pipeline.step]
    split <;> exact h
  | act => exact h.act hk
  | fire e => exact h
  | tick moment => exact h
  | takeEvent s => exact h.takeEvent s
  | takeOrder => exact h.takeOrder
  | flush => exact h.flush

theorem run {w : Pipeline} (h : Carries l w.player.outputs) (hk : l.Kept) (moves : List Move) :
    Carries (l.run (w.uses moves)) (w.run moves).player.outputs := by
  induction moves generalizing w l with
  | nil => exact h
  | cons m moves ih =>
    show Carries (l.run (w.usesOf m ++ (w.step m).uses moves)) _
    rw [Line.run_append]
    exact ih (h.step hk m) (hk.run _)

end Carries

theorem kept_line (config : Config) (moves : List Move) : (line config moves).Kept := Line.kept_start.run _

theorem carries_line (config : Config) (moves : List Move) :
    Carries (line config moves) ((start config).run moves).player.outputs :=
  Carries.run ⟨rfl, rfl⟩ (Line.kept_start.run [.mode config.channelMode]) moves

theorem line_append (config : Config) (moves more : List Move) :
    line config (moves ++ more) = (line config moves).run (((start config).run moves).uses more) := by
  rw [line, uses_append, ← List.cons_append, Line.run_append]
  rfl

/-! ## A score plays out while channels change -/

/-- A move by which the client does nothing but choose channels. -/
def ChoosesChannels : Move → Prop
  | .begin _ op => ∃ mode, op = .setChannelMode mode
  | _ => True

/-- How far the play is that the client is about to begin. -/
inductive Underway (w₀ : Pipeline) (notes : List Note) (w : Pipeline) : Prop
  | soon (us : List AnyTimer.Move) : (∀ u ∈ us, u.keepsSession = true) → w.anyTimer = w₀.anyTimer.run us →
      w.todo = [.play notes] → Underway w₀ notes w
  | now (us more : List AnyTimer.Move) : (∀ u ∈ us, u.keepsSession = true) → (∀ u ∈ more, u.keepsSession = true) →
      w.anyTimer = ((w₀.anyTimer.run us).step (.play notes)).run more → (∀ a ∈ w.todo, ∃ mode, a = .setMode mode) →
      Underway w₀ notes w

/-- The dispatcher does nothing but take events for the MIDI output. -/
structure Forwards (w : Pipeline) : Prop where
  selected : w.player.outputs.selected = .midi
  orders : w.player.orders = []
  phase : w.phase = .ready

/-- What a move of such a run takes from the scheduler, it hands to the MIDI output. -/
structure Hands (uses : List Use) (w w' : Pipeline) : Prop where
  plain : ∀ u ∈ uses, u.isPlain = true
  taken : ∃ new, w'.taken = w.taken ++ new ∧ (∀ x ∈ new, x.2 = .dispatched) ∧
    uses.filterMap Use.event? = new.map (·.1.2)

theorem Hands.trans {uses more : List Use} {w w' w'' : Pipeline} (h : Hands uses w w') (h' : Hands more w' w'') :
    Hands (uses ++ more) w w'' := by
  obtain ⟨hplain, new, htaken, hnew, hevents⟩ := h
  obtain ⟨hplain', new', htaken', hnew', hevents'⟩ := h'
  refine ⟨fun u hu => ?_, new ++ new', ?_, fun x hx => ?_, ?_⟩
  · rcases List.mem_append.mp hu with hu | hu
    · exact hplain u hu
    · exact hplain' u hu
  · rw [htaken', htaken, List.append_assoc]
  · rcases List.mem_append.mp hx with hx | hx
    · exact hnew x hx
    · exact hnew' x hx
  · rw [List.filterMap_append, List.map_append, hevents, hevents']

theorem Hands.none {w w' : Pipeline} (h : w'.taken = w.taken) : Hands [] w w' :=
  ⟨by simp, [], by simp [h], by simp, rfl⟩

theorem Underway.step {w₀ w w' : Pipeline} {notes : List Note} {u : AnyTimer.Move} (h : Underway w₀ notes w)
    (hu : u.keepsSession = true) (htimer : w'.anyTimer = w.anyTimer.step u) (htodo : w'.todo = w.todo) :
    Underway w₀ notes w' := by
  have hconcat : ∀ us : List AnyTimer.Move, (∀ v ∈ us, v.keepsSession = true) →
      ∀ v ∈ us ++ [u], v.keepsSession = true := by
    intro us hus v hv
    rcases List.mem_append.mp hv with hv | hv
    · exact hus v hv
    · exact List.mem_singleton.mp hv ▸ hu
  cases h with
  | soon us hus heq htodo' =>
    refine .soon (us ++ [u]) (hconcat us hus) ?_ (htodo.trans htodo')
    rw [htimer, heq, AnyTimer.run_append]
    rfl
  | now us more hus hmore heq htodo' =>
    refine .now us (more ++ [u]) hus (hconcat more hmore) ?_ (htodo ▸ htodo')
    rw [htimer, heq, AnyTimer.run_append]
    rfl

theorem Underway.of_eq {w₀ w w' : Pipeline} {notes : List Note} (h : Underway w₀ notes w)
    (htimer : w'.anyTimer = w.anyTimer) (htodo : w'.todo = w.todo) : Underway w₀ notes w' := by
  cases h with
  | soon us hus heq htodo' => exact .soon us hus (htimer.trans heq) (htodo.trans htodo')
  | now us more hus hmore heq htodo' => exact .now us more hus hmore (htimer.trans heq) (htodo ▸ htodo')

theorem Underway.act {w₀ w : Pipeline} {notes : List Note} (h : Underway w₀ notes w) (hf : Forwards w) :
    Underway w₀ notes (w.step .act) ∧ Forwards (w.step .act) ∧ Hands (w.usesOf .act) w (w.step .act) := by
  obtain ⟨hselected, horders, hphase⟩ := hf
  cases h with
  | soon us hus heq htodo =>
    simp only [Pipeline.step, goOn, usesOf, htodo]
    refine ⟨.now us [] hus (by simp) ?_ (by simp), ⟨hselected, horders, hphase⟩, .none rfl⟩
    rw [← heq]
    rfl
  | now us more hus hmore heq hmodes =>
    cases htodo : w.todo with
    | nil =>
      simp only [Pipeline.step, goOn, usesOf, htodo]
      exact ⟨.now us more hus hmore heq hmodes, ⟨hselected, horders, hphase⟩, .none rfl⟩
    | cons a rest =>
      rw [htodo] at hmodes
      obtain ⟨mode, rfl⟩ := hmodes a (List.mem_cons_self ..)
      simp only [Pipeline.step, goOn, usesOf, htodo]
      refine ⟨.now us more hus hmore heq fun b hb => hmodes b (List.mem_cons_of_mem _ hb),
        ⟨hselected, horders, hphase⟩, ?_⟩
      exact ⟨by simp [Use.isPlain], [], by simp, by simp, by simp [Use.event?]⟩

theorem Underway.takeEvent {w₀ w : Pipeline} {notes : List Note} (h : Underway w₀ notes w) (hacc : Accounted w)
    (hf : Forwards w) (s : Surroundings) : Underway w₀ notes (w.step (.takeEvent s)) ∧
      Forwards (w.step (.takeEvent s)) ∧ Hands (w.usesOf (.takeEvent s)) w (w.step (.takeEvent s)) := by
  obtain ⟨hselected, horders, hphase⟩ := hf
  obtain ⟨waiting, hd, hqueued⟩ := hacc.queued
  have hnext := next_of_waiting hd
  simp only [Pipeline.step, usesOf, if_pos hphase, if_pos (And.intro hphase hselected), hqueued]
  cases waiting with
  | nil =>
    rw [takeEvent_nil hqueued]
    refine ⟨h.of_eq rfl rfl, ⟨hselected, horders, hphase⟩, .none ?_⟩
    simp [took, hnext]
  | cons x rest =>
    rw [takeEvent_cons hqueued]
    refine ⟨h.step (u := .listen fun _ => w.player.scheduler.stage.dropFirst.listeners) rfl rfl rfl,
      ⟨?_, horders, hphase⟩, ?_⟩
    · show (Outputs.forward s.palette w.player.outputs x.2).selected = .midi
      simp only [Outputs.forward, hselected]
      exact hselected
    · exact ⟨by simp [Use.isPlain], [(x, .dispatched)], by simp [took, hnext], by simp, by simp [Use.event?]⟩

theorem step_underway {w₀ w : Pipeline} {notes : List Note} (h : Underway w₀ notes w) (hacc : Accounted w)
    (hf : Forwards w) {m : Move} (hm : ChoosesChannels m) :
    Underway w₀ notes (w.step m) ∧ Forwards (w.step m) ∧ Hands (w.usesOf m) w (w.step m) := by
  obtain ⟨hselected, horders, hphase⟩ := hf
  cases m with
  | begin s op =>
    obtain ⟨mode, rfl⟩ := hm
    simp only [Pipeline.step]
    split
    · rename_i htodo
      have htodo : w.todo = [] := List.isEmpty_iff.mp htodo
      refine ⟨?_, ⟨hselected, horders, hphase⟩, .none rfl⟩
      cases h with
      | soon us hus heq htodo' => rw [htodo] at htodo'; cases htodo'
      | now us more hus hmore heq htodo' => exact .now us more hus hmore heq (by simp [Operation.actions])
    · exact ⟨h, ⟨hselected, horders, hphase⟩, .none rfl⟩
  | act => exact h.act ⟨hselected, horders, hphase⟩
  | fire e => exact ⟨h.step (u := .fire e) rfl rfl rfl, ⟨hselected, horders, hphase⟩, .none rfl⟩
  | tick moment => exact ⟨h.step (u := .tick moment) rfl rfl rfl, ⟨hselected, horders, hphase⟩, .none rfl⟩
  | takeEvent s => exact h.takeEvent hacc ⟨hselected, horders, hphase⟩ s
  | takeOrder =>
    have hstep : w.step .takeOrder = w := by
      simp only [Pipeline.step, if_pos hphase, takeOrder, Player.takeOrder, horders]
    have huses : w.usesOf .takeOrder = [] := by simp only [usesOf, horders]
    rw [hstep, huses]
    exact ⟨h, ⟨hselected, horders, hphase⟩, .none rfl⟩
  | flush =>
    have hstep : w.step .flush = w := by simp only [Pipeline.step, flush, hphase]
    have huses : w.usesOf .flush = [] := by simp [usesOf, hphase]
    rw [hstep, huses]
    exact ⟨h, ⟨hselected, horders, hphase⟩, .none rfl⟩

theorem run_underway {w₀ w : Pipeline} {notes : List Note} (h : Underway w₀ notes w) (hacc : Accounted w)
    (hf : Forwards w) {moves : List Move} (hm : ∀ m ∈ moves, ChoosesChannels m) :
    Underway w₀ notes (w.run moves) ∧ Hands (w.uses moves) w (w.run moves) := by
  induction moves generalizing w with
  | nil => exact ⟨h, .none rfl⟩
  | cons m moves ih =>
    obtain ⟨h', hf', hhands⟩ := step_underway h hacc hf (hm m (List.mem_cons_self ..))
    obtain ⟨hlast, hrest⟩ := ih h' (step_accounted hacc m).1 hf' fun m' hm' => hm m' (List.mem_cons_of_mem _ hm')
    exact ⟨hlast, hhands.trans hrest⟩

theorem Underway.orderly {w₀ w : Pipeline} {notes : List Note} (h : Underway w₀ notes w) (hidle : w₀.Idle)
    (hsound : AnyTimer.Sound w₀.anyTimer) :
    ∃ fresh, w.delivered = w₀.delivered ++ fresh ∧ Orderly notes (fresh.map (·.2)) := by
  have hbefore : ∀ {us : List AnyTimer.Move}, (∀ u ∈ us, u.keepsSession = true) →
      (w₀.anyTimer.run us).heard = w₀.delivered := fun hus => (AnyTimer.run_idle (w := w₀.anyTimer) hidle hus).2
  cases h with
  | soon us hus heq htodo =>
    have hheard : w.anyTimer.heard = w₀.delivered := heq ▸ hbefore hus
    exact ⟨[], hheard.trans (List.append_nil _).symm, .nil notes⟩
  | now us more hus hmore heq htodo =>
    obtain ⟨fresh, hheard, -, horderly⟩ :=
      AnyTimer.heard_play (AnyTimer.run_of_step AnyTimer.step_sound hsound us) notes hmore
    rw [← heq, hbefore hus] at hheard
    exact ⟨fresh, hheard, horderly⟩

theorem step_begin_playSource {w : Pipeline} (s : Surroundings) {source : Text} {notes : List Note}
    (ht : w.todo = []) (hc : compile source = .ok notes) :
    w.step (.begin s (.playSource source)) = { w with todo := Operation.flushing ++ [.play notes] } := by
  simp [Pipeline.step, ht, Operation.actions, Operation.playing, hc]

/-- The client is about to play, and the MIDI output is selected. From then on the client does
    nothing but choose channels, until the end of the session is dispatched. Then the output keeps
    no key, and none is left on at the port, exactly if each note whose channel changed while it
    sounded has its key switched off later for another one. -/
theorem none_left_on_iff (config : Config) {before after : List Move} {w : Pipeline} {notes : List Note}
    (hw : (start config).run before = w) (hplay : w.todo = [.play notes]) (hmidi : w.player.outputs.selected = .midi)
    (hmoves : ∀ m ∈ after, ChoosesChannels m)
    (hend : ((w.deck.generation + 1, .finished), .dispatched) ∈ (w.run after).taken) :
    (w.run after).player.outputs.midi.active = [] ∧ Released (line config (before ++ after)).sent ↔
      Recovers ((line config before).traced (w.uses after)) := by
  have hturn : Turn w := hw ▸ run_of_step step_turn (turn_start config) before
  have hacc : Accounted w := hw ▸ (run_accounted (accounted_start config) before).1
  have hsound : AnyTimer.Sound w.anyTimer := hw ▸ sound_run config before
  have hf : Flushed w := hturn.flushed (.inr ⟨notes, [], hplay⟩)
  obtain ⟨hunder, hplain, new, htaken, -, hevents⟩ := run_underway (.soon [] (by simp) rfl hplay) hacc
    ⟨hmidi, hf.orders, (hturn.quiet (by simp [hplay])).phase⟩ hmoves
  obtain ⟨fresh, hfresh, horderly⟩ := hunder.orderly hf.idle hsound
  obtain ⟨waiting, hdelivered, hqueued⟩ := hacc.queued
  rw [List.map_eq_nil_iff.mp (hqueued.symm.trans hf.queued), List.append_nil] at hdelivered
  have hnew : ((w.deck.generation + 1, .finished), .dispatched) ∈ new := by
    rw [htaken] at hend
    refine (List.mem_append.mp hend).resolve_left fun hold => ?_
    have hmem : (w.deck.generation + 1, .finished) ∈ w.delivered := hdelivered ▸ List.mem_map_of_mem hold
    exact Nat.not_succ_le_self _ (hsound.heardBefore _ hmem)
  obtain ⟨waiting', hdelivered', -⟩ := (run_accounted hacc after).1.queued
  have hsplit : fresh = new.map (·.1) ++ waiting' := by
    rw [hdelivered', htaken, List.map_append, ← hdelivered, List.append_assoc] at hfresh
    exact (List.append_cancel_left hfresh).symm
  have hactive : (line config before).output.active = [] := by
    rw [(carries_line config before).output, hw, hf.active]
  have hrun := carries_line config (before ++ after)
  rw [run_append, hw] at hrun
  rw [← hrun.output, line_append, hw]
  rw [hsplit, List.map_append, List.map_map] at horderly
  have hhandled : Orderly notes ((w.uses after).filterMap Use.event?) := hevents ▸ horderly.of_append
  have hfinished : .finished ∈ (w.uses after).filterMap Use.event? := hevents ▸ List.mem_map_of_mem hnew
  exact Line.released_iff_recovers (kept_line config before) hactive hplain hhandled hfinished

/-- Another channel is chosen while a note sounds. -/
theorem left_on_by_choosing_channels :
    let s : Surroundings := ⟨⟨[], []⟩, .ports [⟨"Out", true, none, true⟩], none, .plain⟩
    let config : Config := ⟨.midi, 50, none, .perTrack⟩
    let n : Note := ⟨0, "c1".toList, 0, 127, 60, 0, 4000⟩
    let before : List Move := [.begin s (.connectMidi "Out"), .act, .act, .begin s (.playSource "c1".toList),
      .act, .act, .takeOrder, .flush, .flush, .flush, .act]
    let after : List Move := [.act, .fire ⟨0, 1, .start 2 n⟩, .takeEvent s, .begin s (.setChannelMode (.mono 4)),
      .act, .fire ⟨4000000000, 2, .close 2⟩, .fire ⟨4000000000, 3, .stop 2 n⟩, .takeEvent s, .takeEvent s]
    let w := (start config).run before
    w.todo = [.play [n]] ∧ w.player.outputs.selected = .midi ∧ (∀ m ∈ after, ChoosesChannels m) ∧
      ((w.deck.generation + 1, .finished), .dispatched) ∈ (w.run after).taken ∧
      ¬ ((w.run after).player.outputs.midi.active = [] ∧ Released (line config (before ++ after)).sent) := by
  intro s config n before after w
  have hc : compile "c1".toList = .ok [n] := compile_of_toOption (by decide +kernel)
  have hplay : w.todo = [.play [n]] := by
    show ((((start config).run (before.take 3)).step (.begin s (.playSource "c1".toList))).run
      (before.drop 4)).todo = _
    rw [step_begin_playSource s rfl hc]
    rfl
  have hmidi : w.player.outputs.selected = .midi := by decide +kernel
  have hmoves : ∀ m ∈ after, ChoosesChannels m := by simp [after, ChoosesChannels]
  have hend : ((w.deck.generation + 1, .finished), .dispatched) ∈ (w.run after).taken := by decide +kernel
  have htrace : (line config before).traced (w.uses after)
      = [(.perTrack, .noteOn n), (.mono 4, .noteOff n), (.mono 4, .finished)] := by decide +kernel
  have hiff := none_left_on_iff config (w := w) rfl hplay hmidi hmoves hend
  rw [htrace] at hiff
  refine ⟨hplay, hmidi, hmoves, hend, fun h => ?_⟩
  obtain ⟨later, m, hm, hslot⟩ := hiff.mp h [] .perTrack n _ (0, 60) rfl (by decide) ⟨.mono 4, by decide, by decide⟩
  obtain ⟨rfl, rfl⟩ : later = .mono 4 ∧ m = n := by simpa using hm
  revert hslot
  decide

end Pipeline

end Ostinato.Player
