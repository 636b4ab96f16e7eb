import Ostinato.Proofs.History
import Ostinato.Proofs.Player.Sounding

/-!
  Ostinato.Proofs.Player.Line: what a MIDI output sends over each of its connections.

  A `Line` is an output together with what it sent over its connection, and with the
  connections that have ended. The keys that are left on at the port are those that were
  switched on over the connection and that the output still keeps (`Kept`).

  An output that is given up leaves its port quiet. One that is disconnected, or connected in
  place of its connection, switches nothing off before the connection goes, so the keys that
  it keeps then, if they were switched on over that connection, are left on there; and no
  others are (`ended_released_iff`).
-/

namespace Ostinato.Midi

open Score Playback

/-! ## Keys left on -/

/-- Every key switched on is switched off again, alone or with its channel. -/
def Released (messages : List Message) : Prop :=
  ∀ before channel key velocity after, messages = before ++ .noteOn channel key velocity :: after →
    .noteOff channel key ∈ after ∨ .allNotesOff channel ∈ after

def Message.switchesOn (slot : Channel × Key) (m : Message) : Prop := ∃ velocity, m = .noteOn slot.1 slot.2 velocity

def Message.switchesOff (slot : Channel × Key) (m : Message) : Prop :=
  m = .noteOff slot.1 slot.2 ∨ m = .allNotesOff slot.1

/-- Whether some messages leave a key on. -/
def LeavesOn (messages : List Message) (slot : Channel × Key) : Prop :=
  Lasts (Message.switchesOn slot) (Message.switchesOff slot) messages

def SwitchesOn (messages : List Message) (slot : Channel × Key) : Prop := ∃ m ∈ messages, m.switchesOn slot

variable {messages offs : List Message} {m : Message} {slot : Channel × Key}

theorem released_iff : Released messages ↔ ∀ slot, ¬ LeavesOn messages slot := by
  constructor
  · intro h slot hleaves
    obtain ⟨before, m, after, heq, ⟨velocity, rfl⟩, hoff⟩ := hleaves
    rcases h before slot.1 slot.2 velocity after heq with hm | hm
    · exact hoff _ hm (.inl rfl)
    · exact hoff _ hm (.inr rfl)
  · intro h before channel key velocity after heq
    by_contra hnone
    rw [not_or] at hnone
    refine h (channel, key) ⟨before, _, after, heq, ⟨velocity, rfl⟩, fun m hm hoff => ?_⟩
    rcases hoff with rfl | rfl
    · exact hnone.1 hm
    · exact hnone.2 hm

theorem switchesOn_append : SwitchesOn (messages ++ offs) slot ↔ SwitchesOn messages slot ∨ SwitchesOn offs slot := by
  simp only [SwitchesOn, List.mem_append, or_and_right, exists_or]

/-- Messages that switch nothing on leave on what they do not switch off. -/
theorem leavesOn_append (h : ∀ slot, ¬ SwitchesOn offs slot) :
    LeavesOn (messages ++ offs) slot ↔ LeavesOn messages slot ∧ ∀ m ∈ offs, ¬ m.switchesOff slot := by
  induction offs using List.reverseRecOn with
  | nil => simp
  | append_singleton offs m ih =>
    simp only [switchesOn_append, not_or] at h
    have hlast : ¬ m.switchesOn slot := fun hm => (h slot).2 ⟨m, List.mem_singleton_self _, hm⟩
    rw [← List.append_assoc, LeavesOn, lasts_concat, or_iff_right hlast]
    rw [← LeavesOn, ih fun slot => (h slot).1]
    simp only [List.mem_append, List.mem_singleton, or_imp, forall_and, forall_eq, and_assoc]

theorem not_switchesOn_panic : ¬ SwitchesOn panic slot := by
  intro h
  obtain ⟨m, hm, velocity, rfl⟩ := h
  simp [panic] at hm

theorem allNotesOff_mem_panic (channel : Channel) : .allNotesOff channel ∈ panic :=
  List.mem_map_of_mem (List.mem_finRange channel)

theorem released_panic : Released (messages ++ panic) := by
  rw [released_iff]
  intro slot h
  exact ((leavesOn_append fun _ => not_switchesOn_panic).mp h).2 _ (allNotesOff_mem_panic slot.1) (.inr rfl)

/-! ## Connections -/

inductive Use where
  | event (e : Event)
  | mode (mode : ChannelMode)
  | release
  | panic
  | connect (system : System) (wanted : String)
  | disconnect

inductive Ending where
  | disconnected
  /-- Another connection took its place. -/
  | replaced
  /-- The output was given up. -/
  | dropped
  deriving DecidableEq, Repr

/-- A connection that has ended: what was sent over it, and the keys that the output kept. -/
structure Connection where
  sent : List Message
  active : List (Channel × Key)
  ending : Ending
  deriving DecidableEq, Repr

/-- An output, what it sent over its connection, and the connections before. -/
structure Line where
  output : Output
  sent : List Message
  ended : List Connection
  deriving DecidableEq, Repr

namespace Line

def start : Line := ⟨.idle, [], []⟩

def ending (l : Line) (how : Ending) : List Connection :=
  l.output.connection.toList.map fun _ => ⟨l.sent, l.output.active, how⟩

def after (l : Line) (s : Sent) : Line := { l with output := s.output, sent := l.sent ++ s.messages }

def use (l : Line) : Use → Line
  | .event e => l.after (l.output.handle e)
  | .mode mode => { l with output := l.output.setMode mode }
  | .release => l.after l.output.releaseActive
  | .panic => l.after l.output.panicAll
  | .connect system wanted => match l.output.connect system wanted with
    | .error _ => l
    | .ok s => ⟨s.output, s.messages, l.ended ++ l.ending .replaced⟩
  | .disconnect => ⟨l.output.disconnect.output, l.output.disconnect.messages, l.ended ++ l.ending .disconnected⟩

def run (l : Line) (uses : List Use) : Line := uses.foldl use l

/-- All the connections of an output that is given up. -/
def drop (l : Line) : List Connection :=
  l.ended ++ ({ l with sent := l.sent ++ l.output.close } : Line).ending .dropped

@[simp] theorem run_nil (l : Line) : l.run [] = l := rfl
@[simp] theorem run_cons (l : Line) (u : Use) (uses : List Use) : l.run (u :: uses) = (l.use u).run uses := rfl

theorem run_concat (l : Line) (uses : List Use) (u : Use) : l.run (uses ++ [u]) = (l.run uses).use u := by
  simp [run]

theorem run_append (l : Line) (uses more : List Use) : l.run (uses ++ more) = (l.run uses).run more :=
  List.foldl_append ..

/-- The keys left on over the connection are those switched on over it that the output keeps. -/
structure Kept (l : Line) : Prop where
  nodup : l.output.active.Nodup
  silent : (∀ messages, l.output.reach messages = []) → l.sent = []
  keys : ∀ slot, LeavesOn l.sent slot ↔ slot ∈ l.output.active ∧ SwitchesOn l.sent slot

/-- Of the connections that ended before the output is given up, exactly those are left quiet over
    which no key was switched on that was kept at the end. -/
def Accounts (c : Connection) : Prop :=
  c.ending ≠ .dropped ∧ (Released c.sent ↔ ∀ slot ∈ c.active, ¬ SwitchesOn c.sent slot)

variable {l : Line}

/-- A port takes every message or none. -/
theorem reach_all_or_none (o : Output) :
    (∀ messages, o.reach messages = messages) ∨ ∀ messages, o.reach messages = [] := by
  unfold Output.reach
  cases o.connection with
  | none => exact .inr fun _ => rfl
  | some port =>
    dsimp only
    cases port.takesMessages
    · exact .inr fun _ => rfl
    · exact .inl fun _ => rfl

/-- A connection over which nothing was sent yet. -/
theorem kept_nil {o : Output} (h : o.active.Nodup) (ended : List Connection) : Kept ⟨o, [], ended⟩ :=
  ⟨h, fun _ => rfl, fun slot => by simp [LeavesOn, not_lasts_nil, SwitchesOn]⟩

theorem Kept.after (h : Kept l) {o : Output} {r : Option Remark} (hc : o.connection = l.output.connection)
    (hnodup : o.active.Nodup) (hkeys : ∀ slot, LeavesOn (l.sent ++ messages) slot ↔
      slot ∈ o.active ∧ SwitchesOn (l.sent ++ messages) slot) :
    Kept (l.after ⟨o, o.reach messages, r⟩) := by
  have hreach : o.reach = l.output.reach := by
    unfold Output.reach
    rw [hc]
  -- Over a port that takes nothing, nothing was sent before either, so nothing is left on.
  rcases reach_all_or_none o with hall | hnone
  · refine ⟨hnodup, fun hsilent => ?_, ?_⟩
    · have hempty : Midi.panic = [] := (hall _).symm.trans (hsilent _)
      exact absurd hempty (by decide)
    · simpa [Line.after, hall] using hkeys
  · have hsent : l.sent = [] := h.silent (hreach ▸ hnone)
    refine ⟨hnodup, fun _ => ?_, fun slot => ?_⟩
    · simp [Line.after, hnone, hsent]
    · simp [Line.after, hnone, hsent, LeavesOn, not_lasts_nil, SwitchesOn]

/-- What is sent switches nothing on, and off all that is kept no longer. -/
theorem Kept.switchOff (h : Kept l) {o : Output} {r : Option Remark} (hc : o.connection = l.output.connection)
    (hnodup : o.active.Nodup) (hoffs : ∀ slot, ¬ SwitchesOn messages slot)
    (hactive : ∀ slot, slot ∈ o.active ↔ slot ∈ l.output.active ∧ ∀ m ∈ messages, ¬ m.switchesOff slot) :
    Kept (l.after ⟨o, o.reach messages, r⟩) := by
  refine h.after hc hnodup fun slot => ?_
  rw [leavesOn_append hoffs, h.keys slot, hactive slot, switchesOn_append, or_iff_left (hoffs slot), and_right_comm]

theorem Kept.noteOn (h : Kept l) (n : Note) : Kept (l.after (l.output.noteOn n)) := by
  have hnodup : (l.output.noteOn n).output.active.Nodup := Output.nodup_handle h.nodup (.noteOn n)
  unfold Output.noteOn at hnodup ⊢
  cases hkey : n.key? with
  | none => simpa [Line.after] using h
  | some key =>
    rw [hkey] at hnodup
    refine h.after rfl hnodup fun slot => ?_
    have hslot : (Message.noteOn (l.output.mode.channelOf n.track) key (Output.velocityOf n)).switchesOn slot ↔
        slot = (l.output.mode.channelOf n.track, key) := by
      obtain ⟨channel, key'⟩ := slot
      simp [Message.switchesOn, eq_comm]
    have hon : SwitchesOn [.noteOn (l.output.mode.channelOf n.track) key (Output.velocityOf n)] slot ↔
        slot = (l.output.mode.channelOf n.track, key) := by
      simp only [SwitchesOn, List.mem_singleton, exists_eq_left, hslot]
    have hoff : ¬ (Message.noteOn (l.output.mode.channelOf n.track) key (Output.velocityOf n)).switchesOff slot := by
      simp [Message.switchesOff]
    rw [LeavesOn, lasts_concat, hslot, ← LeavesOn, h.keys slot, switchesOn_append, hon, List.mem_insert_iff]
    tauto

theorem Kept.noteOff (h : Kept l) (n : Note) : Kept (l.after (l.output.noteOff n)) := by
  have hnodup : (l.output.noteOff n).output.active.Nodup := Output.nodup_handle h.nodup (.noteOff n)
  unfold Output.noteOff at hnodup ⊢
  cases hkey : n.key? with
  | none => simpa [Line.after] using h
  | some key =>
    rw [hkey] at hnodup
    refine h.switchOff rfl hnodup (by simp [SwitchesOn, Message.switchesOn]) fun slot => ?_
    obtain ⟨channel, key'⟩ := slot
    rw [h.nodup.mem_erase_iff, and_comm]
    simp [Message.switchesOff, eq_comm]

theorem Kept.release (h : Kept l) : Kept (l.after l.output.releaseActive) := by
  refine h.switchOff rfl List.nodup_nil (by simp [SwitchesOn, Message.switchesOn]) fun slot => ?_
  refine iff_of_false List.not_mem_nil fun hslot => ?_
  exact hslot.2 _ (List.mem_map_of_mem (List.mem_mergeSort.mpr hslot.1)) (.inl rfl)

theorem Kept.panic (h : Kept l) : Kept (l.after l.output.panicAll) := by
  refine h.switchOff rfl List.nodup_nil (fun _ => not_switchesOn_panic) fun slot => ?_
  refine iff_of_false List.not_mem_nil fun hslot => ?_
  exact hslot.2 _ (allNotesOff_mem_panic slot.1) (.inr rfl)

/-- Whatever is done with an output. -/
theorem kept_use (h : Kept l) (u : Use) : Kept (l.use u) := by
  cases u with
  | event e =>
    cases e with
    | noteOn n => exact h.noteOn n
    | noteOff n => exact h.noteOff n
    | finished => simpa [use, Line.after, Output.handle] using h
  | mode mode => exact ⟨h.nodup, h.silent, h.keys⟩
  | release => exact h.release
  | panic => exact h.panic
  | connect system wanted =>
    simp only [use, Output.connect]
    cases system.openPort wanted with
    | error fault => exact h
    | ok port => exact kept_nil (o := { l.output with connection := some port, port := some port.name }) h.nodup _
  | disconnect => exact kept_nil List.nodup_nil _

theorem Kept.run (h : Kept l) (uses : List Use) : Kept (l.run uses) := by
  induction uses using List.reverseRecOn with
  | nil => exact h
  | append_singleton uses u ih =>
    rw [run_concat]
    exact kept_use ih u

theorem kept_start : Kept start := kept_nil List.nodup_nil _

/-! ## How connections end -/

theorem Kept.accounts (h : Kept l) {how : Ending} (hhow : how ≠ .dropped) : ∀ c ∈ l.ending how, Accounts c := by
  intro c hc
  obtain ⟨-, -, rfl⟩ := List.mem_map.mp hc
  refine ⟨hhow, ?_⟩
  rw [released_iff]
  simp only [h.keys, not_and]

theorem accounts_run (uses : List Use) : ∀ c ∈ (start.run uses).ended, Accounts c := by
  induction uses using List.reverseRecOn with
  | nil => simp [start]
  | append_singleton uses u ih =>
    have hkept := kept_start.run uses
    have hmore : ∀ {how : Ending}, how ≠ .dropped →
        ∀ c ∈ (start.run uses).ended ++ (start.run uses).ending how, Accounts c := by
      intro how hhow c hc
      rcases List.mem_append.mp hc with hc | hc
      · exact ih c hc
      · exact hkept.accounts hhow c hc
    rw [run_concat]
    cases u with
    | connect system wanted =>
      simp only [use, Output.connect]
      cases system.openPort wanted with
      | error fault => exact ih
      | ok port => exact hmore (by decide)
    | disconnect => exact hmore (by decide)
    | _ => exact ih

/-- However an output is used until it is given up: a connection that lasts until then is left
    quiet. Of the others, exactly those are left quiet over which no key was switched on that the
    output kept until the connection ended. -/
theorem ended_released_iff (uses : List Use) : ∀ c ∈ (start.run uses).drop, Released c.sent ↔
    (c.ending ≠ .dropped → ∀ slot ∈ c.active, ¬ SwitchesOn c.sent slot) := by
  intro c hc
  rcases List.mem_append.mp hc with hc | hc
  · obtain ⟨hhow, hiff⟩ := accounts_run uses c hc
    rw [hiff, imp_iff_right hhow]
  · obtain ⟨port, hport, rfl⟩ := List.mem_map.mp hc
    refine iff_of_true ?_ fun hne => absurd rfl hne
    rcases reach_all_or_none (start.run uses).output with hall | hnone
    · simpa [Output.close, hall] using released_panic
    · have hsent := (kept_start.run uses).silent hnone
      simp [Output.close, hnone, hsent, Released]

/-- Disconnecting leaves on a key that was just switched on. -/
theorem left_on_by_disconnecting : let n : Note := ⟨0, ['c'], 0, 100, 60, 0, 500⟩
    let uses : List Use := [.connect (.ports [⟨"Out", true, none, true⟩]) "Out", .event (.noteOn n), .disconnect]
    let c : Connection := ⟨[.noteOn 0 60 100], [(0, 60)], .disconnected⟩
    c ∈ (start.run uses).drop ∧ ¬ Released c.sent := by
  intro n uses c
  have hc : c ∈ (start.run uses).drop := by decide
  refine ⟨hc, fun h => ?_⟩
  exact (ended_released_iff uses c hc).mp h (by decide) (0, 60) (by decide) ⟨_, List.mem_singleton_self _, 100, rfl⟩

end Line

end Ostinato.Midi
