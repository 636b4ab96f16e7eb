import Mathlib.Data.Finset.Image
import Ostinato.Proofs.Player.Line

/-!
  Ostinato.Proofs.Midi.Receiver: what stands behind the port of a MIDI output.

  A receiver is told bytes, three to a message. The upper half of the first byte says what to
  do, its lower half on which channel: a key is switched on or off, or a channel is cleared.
  Nothing else reaches it; it knows neither tracks nor the channel mode.

  `receiver_agrees`: over a port that takes every message, what is sent are messages that a
  receiver can read, and after each use of the output the keys that it keeps are those that
  are on at the receiver.
-/

namespace Ostinato.Midi

open Score Playback

/-! ## Bytes -/

/-- The keys that are on at a receiver after three more bytes. -/
def hear (on : Finset (Nat × Nat)) (status first second : Nat) : Finset (Nat × Nat) :=
  let channel := status &&& 0x0F
  match status >>> 4 with
  | 0x8 => on.erase (channel, first)
  | 0x9 => insert (channel, first) on
  | 0xB => if first = 123 ∧ second = 0 then on.filter (·.1 ≠ channel) else on
  | _ => on

/-- The keys that are on at a receiver after a stream of bytes. -/
def replay (on : Finset (Nat × Nat)) : List Nat → Finset (Nat × Nat)
  | status :: first :: second :: rest => replay (hear on status first second) rest
  | _ => on

/-- Whether some bytes are one message of a kind that the output sends. -/
def IsMessage (bytes : List Nat) : Prop :=
  ∃ status first second, bytes = [status, first, second] ∧ 0x80 ≤ status ∧ status ≤ 0xBF ∧ first < 128 ∧ second < 128

def bytesOf (messages : List Message) : List Nat := messages.flatMap Message.bytes

theorem isMessage_bytes (m : Message) : IsMessage m.bytes := by
  cases m with
  | noteOn c k v => exact ⟨_, _, _, rfl, by omega, by omega, k.isLt, v.isLt⟩
  | noteOff c k => exact ⟨_, _, _, rfl, by omega, by omega, k.isLt, by omega⟩
  | allNotesOff c => exact ⟨_, _, _, rfl, by omega, by omega, by omega, by omega⟩

theorem halves (c : Channel) : ((0x80 + c.val) >>> 4 = 0x8 ∧ (0x80 + c.val) &&& 0x0F = c.val) ∧
    ((0x90 + c.val) >>> 4 = 0x9 ∧ (0x90 + c.val) &&& 0x0F = c.val) ∧
    (0xB0 + c.val) >>> 4 = 0xB ∧ (0xB0 + c.val) &&& 0x0F = c.val := by
  revert c
  decide

variable {on : Finset (Nat × Nat)}

theorem hear_noteOn (c : Channel) (first second : Nat) : hear on (0x90 + c.val) first second = insert (c.val, first) on := by
  simp only [hear, (halves c).2.1]

theorem hear_noteOff (c : Channel) (first second : Nat) : hear on (0x80 + c.val) first second = on.erase (c.val, first) := by
  simp only [hear, (halves c).1]

theorem hear_allNotesOff (c : Channel) : hear on (0xB0 + c.val) 123 0 = on.filter (·.1 ≠ c.val) := by
  simp only [hear, (halves c).2.2, true_and, if_true]

theorem replay_append (messages more : List Message) :
    replay on (bytesOf (messages ++ more)) = replay (replay on (bytesOf messages)) (bytesOf more) := by
  induction messages generalizing on with
  | nil => rfl
  | cons m messages ih => cases m <;> exact ih

/-! ## Keys kept and keys on -/

/-- The place of a key at a receiver. -/
def place : (Channel × Key) ↪ Nat × Nat where
  toFun slot := (slot.1.val, slot.2.val)
  inj' := by
    intro a b h
    obtain ⟨hchannel, hkey⟩ := Prod.mk.injEq .. ▸ h
    exact Prod.ext (Fin.ext hchannel) (Fin.ext hkey)

def placesOf (active : List (Channel × Key)) : Finset (Nat × Nat) := active.toFinset.map place

variable {active : List (Channel × Key)} (slot : Channel × Key)

theorem placesOf_insert : placesOf (active.insert slot) = insert (place slot) (placesOf active) := by
  rw [placesOf, placesOf, ← Finset.map_insert]
  congr 1
  ext x
  simp

theorem placesOf_erase (h : active.Nodup) : placesOf (active.erase slot) = (placesOf active).erase (place slot) := by
  rw [placesOf, placesOf, ← Finset.map_erase]
  congr 1
  ext x
  simp [h.mem_erase_iff]

/-- Keys switched off are on no longer, in whatever order that is done. -/
theorem replay_noteOffs (slots : List (Channel × Key)) :
    replay on (bytesOf (slots.map fun k => .noteOff k.1 k.2)) = on \ placesOf slots := by
  induction slots generalizing on with
  | nil => simp [bytesOf, placesOf, replay]
  | cons k slots ih =>
    show replay (hear on (0x80 + k.1.val) k.2.val 0) (bytesOf (slots.map fun k => .noteOff k.1 k.2)) = _
    rw [hear_noteOff, ih]
    ext x
    simp only [placesOf, List.toFinset_cons, Finset.map_insert, Finset.mem_sdiff, Finset.mem_erase, Finset.mem_insert,
      not_or, ne_eq]
    exact and_assoc.trans and_left_comm

theorem replay_allNotesOff (channels : List Channel) :
    replay on (bytesOf (channels.map .allNotesOff)) = on.filter (·.1 ∉ channels.map Fin.val) := by
  induction channels generalizing on with
  | nil => simp [bytesOf, replay]
  | cons c channels ih =>
    show replay (hear on (0xB0 + c.val) 123 0) (bytesOf (channels.map .allNotesOff)) = _
    rw [hear_allNotesOff, ih, Finset.filter_filter]
    simp only [List.map_cons, List.mem_cons, not_or, ne_eq]

theorem replay_panic : replay (placesOf active) (bytesOf panic) = ∅ := by
  rw [panic, replay_allNotesOff, Finset.filter_eq_empty_iff]
  intro x hx
  obtain ⟨slot, -, rfl⟩ := Finset.mem_map.mp hx
  exact fun h => h (List.mem_map_of_mem (List.mem_finRange slot.1))

/-! ## Uses of an output -/

def Use.keepsConnection : Use → Bool
  | connect .. | disconnect => false
  | _ => true

namespace Line

/-- An output over a port that takes every message, and a receiver that agrees with it. -/
structure Agrees (port : Port) (l : Line) : Prop where
  connection : l.output.connection = some port
  nodup : l.output.active.Nodup
  on : replay ∅ (bytesOf l.sent) = placesOf l.output.active

variable {l : Line} {port : Port}

theorem agrees_start {o : Output} (hport : o.connection = some port) (hempty : o.active = []) : Agrees port ⟨o, [], []⟩ :=
  ⟨hport, by simp [hempty], by simp [bytesOf, replay, placesOf, hempty]⟩

/-- What is sent is what changes the keys. -/
theorem Agrees.after (h : Agrees port l) (htakes : port.takesMessages = true) {messages : List Message} {o : Output}
    {r : Option Remark} (hconnection : o.connection = l.output.connection) (hnodup : o.active.Nodup)
    (hon : replay (placesOf l.output.active) (bytesOf messages) = placesOf o.active) :
    Agrees port (l.after ⟨o, o.reach messages, r⟩) := by
  have hport : o.connection = some port := hconnection.trans h.connection
  have hreach : o.reach messages = messages := by simp [Output.reach, hport, htakes]
  refine ⟨hport, hnodup, ?_⟩
  show replay ∅ (bytesOf (l.sent ++ o.reach messages)) = placesOf o.active
  rw [hreach, replay_append, h.on, hon]

theorem Agrees.noteOn (h : Agrees port l) (htakes : port.takesMessages = true) (n : Note) :
    Agrees port (l.after (l.output.noteOn n)) := by
  have hnodup : (l.output.noteOn n).output.active.Nodup := Output.nodup_handle h.nodup (.noteOn n)
  unfold Output.noteOn at hnodup ⊢
  cases hkey : n.key? with
  | none => simpa [Line.after] using h
  | some key =>
    rw [hkey] at hnodup
    refine h.after htakes rfl hnodup ?_
    exact (hear_noteOn ..).trans (placesOf_insert (_, key)).symm

theorem Agrees.noteOff (h : Agrees port l) (htakes : port.takesMessages = true) (n : Note) :
    Agrees port (l.after (l.output.noteOff n)) := by
  have hnodup : (l.output.noteOff n).output.active.Nodup := Output.nodup_handle h.nodup (.noteOff n)
  unfold Output.noteOff at hnodup ⊢
  cases hkey : n.key? with
  | none => simpa [Line.after] using h
  | some key =>
    rw [hkey] at hnodup
    refine h.after htakes rfl hnodup ?_
    exact (hear_noteOff ..).trans (placesOf_erase (_, key) h.nodup).symm

theorem Agrees.release (h : Agrees port l) (htakes : port.takesMessages = true) :
    Agrees port (l.after l.output.releaseActive) := by
  refine h.after htakes rfl List.nodup_nil ?_
  -- the keys are switched off in order, which the set of them does not see
  have hsorted : placesOf (l.output.active.mergeSort Output.keyBefore) = placesOf l.output.active :=
    congrArg (Finset.map place) (List.toFinset_eq_of_perm _ _ (List.mergeSort_perm ..))
  rw [replay_noteOffs, hsorted, Finset.sdiff_self]
  rfl

theorem Agrees.panic (h : Agrees port l) (htakes : port.takesMessages = true) :
    Agrees port (l.after l.output.panicAll) :=
  h.after htakes rfl List.nodup_nil replay_panic

theorem Agrees.use (h : Agrees port l) (htakes : port.takesMessages = true) {u : Use} (hkeeps : u.keepsConnection = true) :
    Agrees port (l.use u) := by
  cases u with
  | event e =>
    cases e with
    | noteOn n => exact h.noteOn htakes n
    | noteOff n => exact h.noteOff htakes n
    | finished => simpa [Line.use, Line.after, Output.handle] using h
  | mode mode => exact ⟨h.connection, h.nodup, h.on⟩
  | release => exact h.release htakes
  | panic => exact h.panic htakes
  | connect system wanted => cases hkeeps
  | disconnect => cases hkeeps

theorem Agrees.run (h : Agrees port l) (htakes : port.takesMessages = true) {uses : List Use}
    (hkeeps : ∀ u ∈ uses, u.keepsConnection = true) : Agrees port (l.run uses) := by
  induction uses generalizing l with
  | nil => exact h
  | cons u uses ih =>
    obtain ⟨hu, huses⟩ := List.forall_mem_cons.mp hkeeps
    exact ih (h.use htakes hu) huses

/-- However an output is used over one port that takes every message: what it sends are messages
    of three bytes, and the keys that it keeps are those that are on at a receiver which has
    read all of them. -/
theorem receiver_agrees {o : Output} (hport : o.connection = some port) (htakes : port.takesMessages = true)
    (hempty : o.active = []) {uses : List Use} (hkeeps : ∀ u ∈ uses, u.keepsConnection = true) :
    let l := (⟨o, [], []⟩ : Line).run uses
    l.output.connection = some port ∧ (∀ m ∈ l.sent, IsMessage m.bytes) ∧
      replay ∅ (bytesOf l.sent) = placesOf l.output.active := by
  intro l
  have h : Agrees port l := (agrees_start hport hempty).run htakes hkeeps
  exact ⟨h.connection, fun m _ => isMessage_bytes m, h.on⟩

/-- A note that stops after its channel changed stays on at both, a pitch without key at neither. -/
theorem receiver_agrees_across_modes : let port : Port := ⟨"Out", true, none, true⟩
    let n : Note := ⟨0, ['c'], 17, 200, 60, 0, 500⟩
    let uses : List Use := [.event (.noteOn n), .event (.noteOn { n with pitch := 128 }), .mode (.mono 20),
      .event (.noteOff n), .event (.noteOn n)]
    let l := (⟨{ Output.idle with connection := some port }, [], []⟩ : Line).run uses
    (∀ u ∈ uses, u.keepsConnection = true) ∧ bytesOf l.sent = [0x91, 60, 72, 0x84, 60, 0, 0x94, 60, 72] ∧
      replay ∅ (bytesOf l.sent) = {(1, 60), (4, 60)} := by
  intro port n uses l
  have hkeeps : ∀ u ∈ uses, u.keepsConnection = true := by simp [uses, Use.keepsConnection]
  have hport : ({ Output.idle with connection := some port } : Output).connection = some port := rfl
  exact ⟨hkeeps, by decide, (receiver_agrees hport rfl rfl hkeeps).2.2.trans (by decide)⟩

end Line

end Ostinato.Midi
