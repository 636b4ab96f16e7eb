import Ostinato.Proofs.Player.Steps

/-!
  Ostinato.Proofs.Player.Attempts: operations that may fail, one effect after another.

  An attempt changes the player on its way, and what it changed before it fails stays changed.
  The operations that may fail are written out as attempts, in the order of their effects: what
  a score, a file, the audio device or a port may refuse is checked before anything is stopped,
  asked, opened or connected. So an attempt that fails has changed nothing, and the attempts are
  the operations themselves (`attempt_after`).

  A command line does one such operation at most. It leaves the player as its attempt does, and is
  answered with an error exactly where that breaks off (`commandsCarryOut`); no line that is
  answered with an error has changed anything (`failures_change_nothing`).
-/

namespace Ostinato.Player

open Playback Score

/-! ## Attempts -/

/-- A sequence of effects on a player that may break off. -/
abbrev Attempt (α : Type) := ExceptT Fault (StateM Player) α

namespace Attempt

/-- What comes of an attempt, and the player that it leaves. -/
def after {α : Type} (a : Attempt α) (p : Player) : Except Fault α × Player := (ExceptT.run a).run p

/-- Breaks off at a refusal. -/
def check {ε α : Type} (cause : ε → Fault) : Except ε α → Attempt α
  | .ok x => pure x
  | .error e => throw (cause e)

def change (f : Player → Player) : Attempt Unit := modify f

section

variable {α β ε : Type} (p : Player)

/-- What follows goes on with the player that was left; a fault skips it. -/
@[simp] theorem after_bind (a : Attempt α) (next : α → Attempt β) : (a >>= next).after p = match a.after p with
    | (.ok x, q) => (next x).after q
    | (.error fault, q) => (.error fault, q) := by
  unfold after
  rw [ExceptT.run_bind, StateT.run_bind]
  rcases (ExceptT.run a).run p with ⟨x | x, q⟩ <;> rfl

@[simp] theorem after_pure (x : α) : (pure x : Attempt α).after p = (.ok x, p) := rfl
@[simp] theorem after_throw (fault : Fault) : (throw fault : Attempt α).after p = (.error fault, p) := rfl
@[simp] theorem after_get : (get : Attempt Player).after p = (.ok p, p) := rfl
@[simp] theorem after_change (f : Player → Player) : (change f).after p = (.ok (), f p) := rfl
@[simp] theorem after_check_ok (cause : ε → Fault) (x : α) : (check cause (.ok x)).after p = (.ok x, p) := rfl
@[simp] theorem after_check_error (cause : ε → Fault) (e : ε) :
    (check cause (.error e) : Attempt α).after p = (.error (cause e), p) := rfl

end

def source (text : Text) : Attempt Unit := do
  let notes ← check (.score text) (compile text)
  change fun p => { p with scheduler := p.scheduler.stop.1 }
  change (·.ask .silence)
  change obey
  change fun p => { p with scheduler := (p.scheduler.playNotes notes).1 }

def file (s : Surroundings) (path : String) : Attempt Unit := do
  let text ← check (.unreadable path) (s.files.readText path)
  source text

def audio (s : Surroundings) : Attempt Unit := do
  let p ← get
  if p.outputs.stream.isSome then return
  let stream ← check .audio (Sound.Stream.openOn? s.audio)
  change (·.ask .attach)
  change fun p => { p with outputs := { p.outputs with stream := some stream } }

def ready (s : Surroundings) : OutputMode → Attempt Unit
  | .console => pure ()
  | .synth => do
    audio s
    change fun p => { p with outputs := p.outputs.onSynth (·.setVolume p.config.volume) }
  | .midi => do
    let p ← get
    if !p.outputs.midi.isConnected then throw .noPort

def output (s : Surroundings) (mode : OutputMode) : Attempt Unit := do
  ready s mode
  change (·.ask (.select mode))
  change fun p => { p with config := { p.config with output := mode } }

/-- The connection, the name of the port and the configuration are told one after another. -/
def midi (s : Surroundings) (wanted : String) : Attempt Unit := do
  let port ← check .midi (s.midi.openPort wanted)
  change fun p => { p with outputs := { p.outputs with midi := { p.outputs.midi with connection := some port } } }
  change fun p => { p with outputs := { p.outputs with midi := { p.outputs.midi with port := some port.name } } }
  change fun p => { p with config := { p.config with port := some port.name } }

end Attempt

/-! ## Calls -/

/-- A call of an operation that may fail. -/
inductive Call where
  | playSource (source : Text)
  | playFile (path : String)
  | setOutput (output : OutputMode)
  | connectMidi (wanted : String)

namespace Call

def attempt (s : Surroundings) : Call → Attempt Unit
  | playSource source => .source source
  | playFile path => .file s path
  | setOutput output => .output s output
  | connectMidi wanted => .midi s wanted

def result (s : Surroundings) (p : Player) : Call → Except Fault Player
  | playSource source => (p.playSource source).map (·.1)
  | playFile path => (p.playFile s path).map (·.1)
  | setOutput output => p.setOutput s output
  | connectMidi wanted => (p.connectMidi s wanted).map (·.1)

end Call

/-- An operation's player, or the fault with the player as it was. -/
def outcome (p : Player) : Except Fault Player → Except Fault Unit × Player
  | .ok q => (.ok (), q)
  | .error fault => (.error fault, p)

theorem source_after (p : Player) (text : Text) :
    (Attempt.source text).after p = outcome p ((p.playSource text).map (·.1)) := by
  unfold Attempt.source playSource
  cases compile text with
  | error fault => rfl
  | ok notes => rfl

theorem audio_after (s : Surroundings) (p : Player) : (Attempt.audio s).after p = outcome p (p.openAudio s) := by
  unfold Attempt.audio openAudio
  cases hs : p.outputs.stream with
  | some stream => simp [hs, outcome]
  | none =>
    cases ho : Sound.Stream.openOn? s.audio with
    | error cause => simp [hs, outcome]
    | ok stream => simp [hs, outcome, ask]

theorem ready_after (s : Surroundings) (p : Player) (output : OutputMode) :
    (Attempt.ready s output).after p = outcome p (p.prepare s output) := by
  cases output with
  | console => rfl
  | midi =>
    unfold Attempt.ready prepare
    by_cases hc : p.outputs.midi.isConnected = true
    · simp [hc, outcome]
    · simp [hc, outcome]
  | synth =>
    unfold Attempt.ready prepare
    rw [Attempt.after_bind, audio_after]
    cases p.openAudio s with
    | error fault => rfl
    | ok opened => rfl

theorem output_after (s : Surroundings) (p : Player) (output : OutputMode) :
    (Attempt.output s output).after p = outcome p (p.setOutput s output) := by
  unfold Attempt.output setOutput
  rw [Attempt.after_bind, ready_after]
  cases p.prepare s output with
  | error fault => rfl
  | ok ready => rfl

/-- Carried out effect by effect, a call is its operation; where that fails, nothing was changed. -/
theorem attempt_after (s : Surroundings) (p : Player) (c : Call) :
    (c.attempt s).after p = outcome p (c.result s p) := by
  cases c with
  | playSource source => exact source_after p source
  | playFile path =>
    simp only [Call.attempt, Call.result, Attempt.file, playFile]
    cases s.files.readText path with
    | error cause => rfl
    | ok text => exact source_after p text
  | setOutput output => exact output_after s p output
  | connectMidi wanted =>
    simp only [Call.attempt, Call.result, Attempt.midi, connectMidi, Midi.Output.connect]
    cases s.midi.openPort wanted with
    | error cause => rfl
    | ok port => simp [outcome, Except.map, Outputs.sent]

/-- An attempt that fails stands for an operation that fails, at the player as it was. -/
theorem attempt_fails {s : Surroundings} {p q : Player} {c : Call} {fault : Fault}
    (h : (c.attempt s).after p = (.error fault, q)) : c.result s p = .error fault ∧ q = p := by
  rw [attempt_after] at h
  cases hr : c.result s p with
  | ok r =>
    rw [hr] at h
    cases h
  | error cause =>
    rw [hr] at h
    cases h
    exact ⟨rfl, rfl⟩

/-! ## Command lines -/

section

open Console

variable (s : Surroundings) (p : Player)

/-- A command leaves the player as the attempt at a call does, and answers with an error exactly
    where the attempt breaks off. -/
structure CarriesOut (c : Call) (r : Player × Reply) : Prop where
  leaves : r.1 = ((c.attempt s).after p).2
  fails : (∃ text, r.2 = .error text) ↔ ∃ fault, ((c.attempt s).after p).1 = .error fault

theorem after_carriesOut {α : Type} {c : Call} (r : Except Fault (Player × α)) (hr : c.result s p = r.map (·.1))
    (text : α → String) : CarriesOut s p c (Commands.after s p r text) := by
  constructor <;> rw [attempt_after, hr]
  · cases r <;> rfl
  · cases r <;> simp [Commands.after, Commands.refuse, Except.map, outcome]

/-- The commands whose operations may fail carry out calls. -/
structure CommandsCarryOut : Prop where
  play : ∀ args, args ≠ [] → CarriesOut s p (.playFile (String.ofList args)) (Commands.play s p args)
  output : ∀ args mode, args ≠ [] → OutputMode.parse args = .ok mode →
    CarriesOut s p (.setOutput mode) (Commands.output s p args)
  midiConnect : ∀ args, args ≠ [] →
    CarriesOut s p (.connectMidi (String.ofList args)) (Commands.midiConnect s p args)

theorem commandsCarryOut : CommandsCarryOut s p where
  play args h := by
    simp only [Commands.play, List.isEmpty_iff, h, if_false]
    exact after_carriesOut s p _ rfl _
  output args mode h hm := by
    simp only [Commands.output, List.isEmpty_iff, h, if_false, hm]
    refine after_carriesOut s p _ ?_ _
    cases hr : p.setOutput s mode <;> simp [Call.result, hr, Except.map]
  midiConnect args h := by
    simp only [Commands.midiConnect, List.isEmpty_iff, h, if_false]
    constructor <;> rw [attempt_after, Call.result]
    · cases p.connectMidi s (String.ofList args) <;> rfl
    · cases p.connectMidi s (String.ofList args) <;> simp [Commands.refuse, Commands.say, Except.map, outcome]

/-- A line that is answered with an error leaves the player as it was. -/
theorem line_fails {s : Surroundings} {p q : Player} {line : Text} {text : String}
    (h : Commands.registry.run s p line = (q, .error text)) : q = p := by
  cases h ▸ effect_run s p line with
  | answers _ => rfl

end

/-- What fails changes nothing: a line that is answered with an error, and a call whose effects break
    off, leave the player as it was, with what plays and waits, its outputs and all that it sent. The
    commands that may fail at the player leave it as those effects do, whether they break off or not. -/
theorem failures_change_nothing (s : Surroundings) (p : Player) :
    (∀ line q text, Console.Commands.registry.run s p line = (q, .error text) → q = p) ∧
    CommandsCarryOut s p ∧
    (∀ c fault, c.result s p = .error fault → (Call.attempt s c).after p = (.error fault, p)) ∧
    ∀ c fault q, (Call.attempt s c).after p = (.error fault, q) → c.result s p = .error fault ∧ q = p := by
  refine ⟨fun _ _ _ => line_fails, commandsCarryOut s p, ?_, fun _ _ _ => attempt_fails⟩
  intro c fault h
  rw [attempt_after, h]
  rfl

/-- Lines, a score, a file, a device and ports that are refused while a note is played. -/
theorem failures_change_nothing_midway : let s : Surroundings :=
      ⟨⟨[], []⟩, .ports [⟨"Synth", true, some "in use", true⟩], some ⟨.f32, 44100, 2, some (.play, "busy")⟩, .plain⟩
    let p := Player.started ⟨Config.default, .empty, .start .console .perTrack, []⟩
      [⟨0, "c4".toList, 0, 100, 60, 0, 500⟩]
    (∀ line ∈ ["volume 101", "output midi", "midi connect yn", "midi channel 17", "notes q"], ∃ q text,
      Console.Commands.registry.run s p line.toList = (q, .error text) ∧ q = p) ∧
    ∀ c ∈ [Call.playSource "q".toList, .playFile "", .setOutput .synth, .setOutput .midi, .connectMidi "yn"],
      ∃ fault, c.result s p = .error fault ∧ (c.attempt s).after p = (.error fault, p) := by
  intro s p
  obtain ⟨hlines, -, hcalls, -⟩ := failures_change_nothing s p
  constructor
  · have refused (line : String) (h : ∃ text, (Console.Commands.registry.run s p line.toList).2 = .error text) :
        ∃ q text, Console.Commands.registry.run s p line.toList = (q, .error text) ∧ q = p := by
      obtain ⟨text, ht⟩ := h
      have hr : Console.Commands.registry.run s p line.toList = (_, .error text) := Prod.ext rfl ht
      exact ⟨_, text, hr, hlines _ _ _ hr⟩
    simp only [List.forall_mem_cons]
    exact ⟨refused _ ⟨_, rfl⟩, refused _ ⟨_, rfl⟩, refused _ ⟨_, rfl⟩, refused _ ⟨_, rfl⟩, refused _ ⟨_, rfl⟩, nofun⟩
  · simp only [List.forall_mem_cons]
    refine ⟨⟨_, rfl, ?_⟩, ⟨_, rfl, ?_⟩, ⟨_, rfl, ?_⟩, ⟨_, rfl, ?_⟩, ⟨_, rfl, ?_⟩, nofun⟩
    all_goals exact hcalls _ _ rfl

end Ostinato.Player
