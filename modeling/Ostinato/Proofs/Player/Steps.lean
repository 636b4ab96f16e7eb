import Ostinato.Console.Commands
import Ostinato.Proofs.Console.Lookup
import Ostinato.Proofs.Playback.Alone
import Ostinato.Proofs.Player.Pipeline

/-!
  Ostinato.Proofs.Player.Steps: all that happens to a player, step by step.

  A step is an operation, a command line, a move of the clock, a turn of the dispatcher, which
  takes an event or an order, or some samples for the audio device; the surroundings may be
  others at every step. A command line is at most one operation (`effect_run`), and waiting for
  the dispatcher is nothing but letting it take its orders (`obey_of_cons`). So what operations,
  turns and moves keep, all steps keep (`Keeps.run`).
-/

namespace Ostinato

/-! ## Command lines -/

namespace Console

open Player

variable {η : Type}

theorem Registry.mem_insert {c x : Command η} {commands : List (Command η)} :
    x ∈ insert c commands ↔ x = c ∨ x ∈ commands :=
  (perm_insert c commands).mem_iff.trans List.mem_cons

theorem Registry.mem_registerAll {entries : List (String × η)} {r : Registry η} {c : Command η}
    (h : c ∈ (entries.foldl (fun r e => r.register e.1.toList e.2) r).commands) :
    c ∈ r.commands ∨ ∃ e ∈ entries, c.handler = e.2 := by
  induction entries generalizing r with
  | nil => exact .inl h
  | cons e entries ih =>
    rcases ih h with h | ⟨e', he', heq⟩
    · rcases Registry.mem_insert.mp h with rfl | h
      · exact .inr ⟨e, List.mem_cons_self .., rfl⟩
      · exact .inl h
    · exact .inr ⟨e', List.mem_cons_of_mem _ he', heq⟩

/-- What comes of a player at a command line: one operation at most, and none if the line is
    answered with an error. -/
inductive Effect (s : Surroundings) (p : Player) : Player × Reply → Prop
  | operates (op : Operation) (text : String) : Effect s p (op.result s p, .message text)
  | prints (lines : List String) : Effect s p (p.print lines, .done)
  | answers (reply : Reply) : Effect s p (p, reply)

namespace Effect

variable {s : Surroundings} {p : Player}

theorem play (args : Text) : Effect s p (Commands.play s p args) := by
  unfold Commands.play
  split
  · exact .answers _
  · dsimp only [Commands.after]
    cases hp : p.playFile s (String.ofList args) with
    | error fault => exact .answers _
    | ok x =>
      have hq : (Operation.playFile (String.ofList args)).result s p = x.1 := by simp [Operation.result, hp]
      dsimp only
      rw [← hq]
      exact .operates _ _

theorem notes (args : Text) : Effect s p (Commands.notes s p args) := by
  unfold Commands.notes
  split
  · exact .answers _
  · split <;> exact .answers _

theorem volume (args : Text) : Effect s p (Commands.volume s p args) := by
  unfold Commands.volume
  split
  · exact .answers _
  · split
    · exact .answers _
    · rename_i percent _
      exact .operates (.setVolume percent) _

theorem output (args : Text) : Effect s p (Commands.output s p args) := by
  unfold Commands.output
  split
  · exact .answers _
  · split
    · exact .answers _
    · rename_i mode _
      dsimp only [Commands.after]
      cases hp : p.setOutput s mode with
      | error fault => exact .answers _
      | ok q =>
        have hq : (Operation.setOutput mode).result s p = q := by simp [Operation.result, hp]
        dsimp only [Except.map]
        rw [← hq]
        exact .operates _ _

theorem midiDevices (args : Text) : Effect s p (Commands.midiDevices s p args) := by
  unfold Commands.midiDevices
  split <;> exact .answers _

theorem midiConnect (args : Text) : Effect s p (Commands.midiConnect s p args) := by
  unfold Commands.midiConnect
  split
  · exact .answers _
  · dsimp only
    cases hp : p.connectMidi s (String.ofList args) with
    | error fault => exact .answers _
    | ok x =>
      have hq : (Operation.connectMidi (String.ofList args)).result s p = x.1 := by simp [Operation.result, hp]
      dsimp only [Commands.say]
      rw [← hq]
      exact .operates _ _

theorem midiChannel (args : Text) : Effect s p (Commands.midiChannel s p args) := by
  unfold Commands.midiChannel
  dsimp only
  split
  · exact .answers _
  · split
    · exact .operates (.setChannelMode .perTrack) _
    · split
      · exact .answers _
      · rename_i n _
        split
        · exact .operates (.setChannelMode (.mono (n - 1).toUInt8)) _
        · exact .answers _

theorem watch (args : Text) : Effect s p (Commands.watch s p args) := by
  unfold Commands.watch
  split <;> exact .answers _

theorem unwatch (args : Text) : Effect s p (Commands.unwatch s p args) := by
  unfold Commands.unwatch
  split <;> exact .answers _

theorem of_mem {entry : String × Handler} (h : entry ∈ Commands.all) (args : Text) :
    Effect s p (entry.2 s p args) := by
  simp only [Commands.all, List.mem_cons, List.not_mem_nil, or_false] at h
  rcases h with rfl | rfl | rfl | rfl | rfl | rfl | rfl | rfl | rfl | rfl | rfl | rfl | rfl | rfl | rfl | rfl | rfl
  · exact play args
  · exact .operates .stop _
  · exact notes args
  · exact volume args
  · exact output args
  · exact midiDevices args
  · exact midiConnect args
  · exact .operates .disconnectMidi _
  · exact midiChannel args
  · exact .answers _
  · exact .operates .panic _
  · exact .answers _
  · exact .prints _
  · exact .answers _
  · exact .answers _
  · exact watch args
  · exact unwatch args

end Effect

theorem effect_run (s : Surroundings) (p : Player) (line : Text) : Effect s p (Commands.registry.run s p line) := by
  unfold Registry.run Registry.find?
  cases hf : Commands.registry.commands.find? fun c => Registry.accepts c.words line with
  | none => exact .answers _
  | some c =>
    rcases Registry.mem_registerAll (List.mem_of_find?_eq_some hf) with hc | ⟨entry, hentry, heq⟩
    · cases hc
    · show Effect s p (c.handler s p _)
      rw [heq]
      exact .of_mem hentry _

end Console

namespace Player

open Playback Score

/-! ## The dispatcher alone -/

@[simp] theorem orders_carryOut (p : Player) (o : Order) : (p.carryOut o).orders = p.orders := by
  cases o <;> rfl

/-- Carrying out an order does not ask which others wait. -/
theorem carryOut_with_orders (p : Player) (o : Order) (orders : List Order) :
    { p.carryOut o with orders } = { p with orders }.carryOut o := by
  cases o <;> rfl

theorem obey_of_nil {p : Player} (h : p.orders = []) : p.obey = p := by
  unfold obey
  rw [h]
  exact congrArg (fun orders => { p with orders }) h.symm

theorem obey_of_cons {p : Player} {o : Order} {rest : List Order} (h : p.orders = o :: rest) :
    p.obey = p.takeOrder.obey := by
  have hrest : p.takeOrder.orders = rest := by simp [takeOrder, h]
  have hnone : { p.takeOrder with orders := [] } = { p with orders := [] }.carryOut o := by
    simp only [takeOrder, h, carryOut_with_orders]
  unfold obey
  rw [hrest, hnone, h]
  rfl

theorem orders_takeOrder (p : Player) : p.takeOrder.orders = p.orders.tail := by
  unfold takeOrder
  split <;> simp_all

theorem takeOrder_of_nil {p : Player} (h : p.orders = []) : p.takeOrder = p := by
  simp [takeOrder, h]

theorem takeOrder_of_cons {p : Player} {o : Order} {rest : List Order} (h : p.orders = o :: rest) :
    p.takeOrder = { p with orders := rest }.carryOut o := by
  simp [takeOrder, h]

/-- What does not ask which orders wait, and is kept by carrying one out. -/
theorem takeOrder_keeps {P : Player → Prop} (horders : ∀ p orders, P p → P { p with orders })
    (h : ∀ p o, P p → P (p.carryOut o)) {p : Player} (hp : P p) : P p.takeOrder := by
  cases ho : p.orders with
  | nil =>
    rw [takeOrder_of_nil ho]
    exact hp
  | cons o rest =>
    rw [takeOrder_of_cons ho]
    exact h _ o (horders p rest hp)

/-- What every order taken keeps, taking all of them keeps; then none waits. -/
theorem obey_keeps {P : Player → Prop} (h : ∀ p, P p → P p.takeOrder) {p : Player} (hp : P p) :
    P p.obey ∧ p.obey.orders = [] := by
  generalize ho : p.orders = orders
  induction orders generalizing p with
  | nil =>
    rw [obey_of_nil ho]
    exact ⟨hp, ho⟩
  | cons o rest ih =>
    rw [obey_of_cons ho]
    apply ih (h p hp)
    rw [orders_takeOrder, ho, List.tail_cons]

/-! ## Operations -/

/-- The notes that an operation starts to play, if it does. -/
def Operation.notes? (s : Surroundings) : Operation → Option (List Note)
  | .playSource source => (compile source).toOption
  | .playFile path => (s.files.readText path).toOption.bind fun source => (compile source).toOption
  | _ => none

/-- A player that starts to play notes, all that sounded before having been silenced. -/
def started (p : Player) (notes : List Note) : Player :=
  { p.stop.1 with scheduler := (p.stop.1.scheduler.playNotes notes).1 }

/-- A player whose MIDI output is connected to a port. -/
def connected (p : Player) (port : Midi.Port) (sent : Midi.Sent) : Player :=
  { p with config := { p.config with port := some port.name }, outputs := p.outputs.sent sent }

def chosen (p : Player) (output : OutputMode) : Player :=
  { p with config := { p.config with output } }.ask (.select output)

/-- What comes of an operation: a player that is as it was, if it fails. -/
inductive Result (s : Surroundings) (p : Player) : Operation → Player → Prop
  | fails {op : Operation} : op.notes? s = none → Result s p op p
  | stops : Result s p .stop p.stop.1
  | plays {op : Operation} {notes : List Note} : op.notes? s = some notes → Result s p op (p.started notes)
  | selects {output : OutputMode} {ready : Player} : p.prepare s output = .ok ready →
      Result s p (.setOutput output) (ready.chosen output)
  | setsVolume (percent : Nat) : Result s p (.setVolume percent) (p.setVolume percent)
  | connects {wanted : String} {port : Midi.Port} {sent : Midi.Sent} :
      sent.output = { p.outputs.midi with connection := some port, port := some port.name } →
      Result s p (.connectMidi wanted) (p.connected port sent)
  | disconnects : Result s p .disconnectMidi p.disconnectMidi
  | setsMode (mode : Midi.ChannelMode) : Result s p (.setChannelMode mode) (p.setChannelMode mode)
  | panics : Result s p .panic p.panic

theorem playSource_eq (p : Player) (source : Text) : p.playSource source = match compile source with
    | .error fault => .error (.score source fault)
    | .ok notes => .ok (p.started notes, (p.stop.1.scheduler.playNotes notes).2) := by
  unfold playSource
  cases compile source <;> rfl

theorem setOutput_eq (p : Player) (s : Surroundings) (output : OutputMode) :
    p.setOutput s output = (p.prepare s output).map (·.chosen output) := rfl

theorem connectMidi_ok {s : Surroundings} {p q : Player} {wanted name : String}
    (h : p.connectMidi s wanted = .ok (q, name)) : ∃ port sent, q = p.connected port sent ∧
      sent.output = { p.outputs.midi with connection := some port, port := some port.name } := by
  unfold connectMidi Midi.Output.connect at h
  cases hp : s.midi.openPort wanted with
  | error cause =>
    rw [hp] at h
    cases h
  | ok port =>
    rw [hp] at h
    cases h
    exact ⟨port, _, rfl, rfl⟩

theorem result_result (s : Surroundings) (p : Player) (op : Operation) : Result s p op (op.result s p) := by
  cases op with
  | stop => exact .stops
  | playSource source =>
    simp only [Operation.result, playSource_eq]
    cases hc : compile source with
    | error fault => exact .fails (by rw [Operation.notes?, hc]; rfl)
    | ok notes => exact .plays (by rw [Operation.notes?, hc]; rfl)
  | playFile path =>
    simp only [Operation.result, playFile]
    cases hr : s.files.readText path with
    | error cause => exact .fails (by rw [Operation.notes?, hr]; rfl)
    | ok source =>
      simp only [playSource_eq]
      cases hc : compile source with
      | error fault => exact .fails (by rw [Operation.notes?, hr]; simp [Except.toOption, hc])
      | ok notes => exact .plays (by rw [Operation.notes?, hr]; simp [Except.toOption, hc])
  | setOutput output =>
    simp only [Operation.result, setOutput_eq]
    cases hp : p.prepare s output with
    | error fault => exact .fails rfl
    | ok ready => exact .selects hp
  | setVolume percent => exact .setsVolume percent
  | connectMidi wanted =>
    simp only [Operation.result]
    cases hc : p.connectMidi s wanted with
    | error fault => exact .fails rfl
    | ok x =>
      obtain ⟨port, sent, hq, hout⟩ := connectMidi_ok hc
      dsimp only
      rw [hq]
      exact .connects hout
  | disconnectMidi => exact .disconnects
  | setChannelMode mode => exact .setsMode mode
  | panic => exact .panics

/-! ## Making an output ready -/

section

variable {s : Surroundings} {p q : Player}

/-- An open stream is used, and a stream that is opened is handed to the dispatcher. -/
theorem openAudio_ok (h : p.openAudio s = .ok q) : p.outputs.stream.isSome = true ∧ q = p ∨
    p.outputs.stream = none ∧ ∃ stream, Sound.Stream.openOn? s.audio = .ok stream ∧
      q = { p with outputs := { p.outputs with stream := some stream } }.ask .attach := by
  unfold openAudio at h
  cases hs : p.outputs.stream with
  | some stream =>
    rw [hs] at h
    cases h
    exact .inl ⟨rfl, rfl⟩
  | none =>
    rw [hs] at h
    dsimp only at h
    cases ho : Sound.Stream.openOn? s.audio with
    | error cause =>
      rw [ho] at h
      cases h
    | ok stream =>
      rw [ho] at h
      cases h
      exact .inr ⟨rfl, stream, rfl, rfl⟩

/-- A stream that was opened has no voices yet. -/
theorem openOn?_ok {device : Option Sound.Device} {stream : Sound.Stream}
    (h : Sound.Stream.openOn? device = .ok stream) : ∃ rate, stream.synth = .silent rate := by
  cases device with
  | none => cases h
  | some d =>
    simp only [Sound.Stream.openOn?, bind, Except.bind, pure, Except.pure] at h
    split at h
    · cases h
    · split at h
      · cases h
      · split at h
        · cases h
        · split at h
          · cases h
          · cases h
            exact ⟨_, rfl⟩

/-- What makes the synthesizer ready opens the audio device and sets the volume. -/
theorem prepare_synth_ok (h : p.prepare s .synth = .ok q) : ∃ opened, p.openAudio s = .ok opened ∧
    q = { opened with outputs := opened.outputs.onSynth (·.setVolume opened.config.volume) } := by
  unfold prepare at h
  cases ho : p.openAudio s with
  | error fault =>
    rw [ho] at h
    cases h
  | ok opened =>
    rw [ho] at h
    cases h
    exact ⟨opened, rfl, rfl⟩

theorem prepare_midi_ok (h : p.prepare s .midi = .ok q) : p.outputs.midi.port.isSome = true ∧ q = p := by
  unfold prepare at h
  dsimp only at h
  split at h
  · rename_i hc
    cases h
    exact ⟨hc, rfl⟩
  · cases h

end

/-! ## Steps -/

/-- A move of the clock. -/
inductive Motion where
  | advance (span : Nat)
  | runUntil (moment : Nat) (h : moment ≤ latest)
  | runAll

def Motion.act : Motion → Act
  | advance span => .advance span
  | runUntil moment h => .runUntil moment h
  | runAll => .runAll

inductive Step where
  | call (op : Operation)
  | line (text : Text)
  | clock (motion : Motion)
  | event
  | order
  /-- The audio device takes samples, if it is open. -/
  | render (frames : Nat)

def step (s : Surroundings) (p : Player) : Step → Player
  | .call op => op.result s p
  | .line text => (Console.Commands.registry.run s p text).1
  | .clock motion => { p with scheduler := p.scheduler.act motion.act }
  | .event => p.takeEvent s
  | .order => p.takeOrder
  | .render frames => { p with outputs := p.outputs.onSynth fun x => (x.meter frames).2 }

def run (p : Player) (steps : List (Surroundings × Step)) : Player := steps.foldl (fun p x => p.step x.1 x.2) p

@[simp] theorem run_nil (p : Player) : p.run [] = p := rfl
@[simp] theorem run_cons (p : Player) (x : Surroundings × Step) (steps : List (Surroundings × Step)) :
    p.run (x :: steps) = (p.step x.1 x.2).run steps := rfl

/-- What operations, lines printed, the clock, the dispatcher and the audio device keep, all steps keep. -/
structure Keeps (P : Player → Prop) : Prop where
  operation : ∀ (s : Surroundings) (p : Player) (op : Operation), P p → P (op.result s p)
  print : ∀ (p : Player) (lines : List String), P p → P (p.print lines)
  clock : ∀ (p : Player) (motion : Motion), P p → P { p with scheduler := p.scheduler.act motion.act }
  event : ∀ (s : Surroundings) (p : Player), P p → P (p.takeEvent s)
  order : ∀ (p : Player), P p → P p.takeOrder
  render : ∀ (p : Player) (frames : Nat), P p → P { p with outputs := p.outputs.onSynth fun x => (x.meter frames).2 }

theorem Keeps.step {P : Player → Prop} (h : Keeps P) (s : Surroundings) {p : Player} (hp : P p) (x : Step) :
    P (p.step s x) := by
  cases x with
  | call op => exact h.operation s p op hp
  | clock motion => exact h.clock p motion hp
  | event => exact h.event s p hp
  | order => exact h.order p hp
  | render frames => exact h.render p frames hp
  | line text =>
    show P (Console.Commands.registry.run s p text).1
    generalize hr : Console.Commands.registry.run s p text = r
    cases hr ▸ Console.effect_run s p text with
    | operates op _ => exact h.operation s p op hp
    | prints lines => exact h.print p lines hp
    | answers _ => exact hp

theorem Keeps.run {P : Player → Prop} (h : Keeps P) {p : Player} (hp : P p) (steps : List (Surroundings × Step)) :
    P (p.run steps) := by
  induction steps generalizing p with
  | nil => exact hp
  | cons x steps ih => exact ih (h.step x.1 hp x.2)

end Player

end Ostinato
