import Ostinato.Player.Basic
import Ostinato.Proofs.Playback.AnyOrder

/-!
  Ostinato.Proofs.Player.Pipeline: a client, a timer and a dispatcher at once.

  The client does one operation of the player after another. An operation is a sequence of
  actions, each of which touches one thing that others touch as well; only a wait may hold the
  client up. The timer fires what it likes, also what was cancelled. The dispatcher takes an
  event or an order, whichever it likes. A silence takes it several steps: it drops what
  waits, event by event, then releases what sounds, then answers.

  Any of the three moves at any time: a run is a list of moves. Done without interruption, an
  operation is the player's own (`actions_alone`).
-/

namespace Ostinato.Player

open Playback Score

/-! ## An event for the dispatcher -/

theorem takeEvent_nil {p : Player} (h : p.queued = []) (s : Surroundings) : p.takeEvent s = p := by
  simp [takeEvent, h]

theorem takeEvent_cons {p : Player} {e : Event} {rest : List Event} (h : p.queued = e :: rest) (s : Surroundings) :
    p.takeEvent s = dispatch s
      { p with scheduler := { p.scheduler with stage := p.scheduler.stage.dropFirst } } e := by
  simp [takeEvent, h]

/-! ## The client -/

inductive Action where
  | stop
  | play (notes : List Note)
  | ask (order : Order)
  /-- Waits for the answer to a silence. -/
  | await
  | configure (config : Config)
  | openStream (stream : Sound.Stream)
  | setVolume (percent : Nat)
  | connect (system : Midi.System) (wanted : String)
  | disconnect
  | setMode (mode : Midi.ChannelMode)
  | panic

def Action.perform (p : Player) : Action → Player
  | .stop => { p with scheduler := p.scheduler.stop.1 }
  | .play notes => { p with scheduler := (p.scheduler.playNotes notes).1 }
  | .ask order => p.ask order
  | .await => p
  | .configure config => { p with config }
  | .openStream stream => { p with outputs := { p.outputs with stream := some stream } }
  | .setVolume percent => { p with outputs := p.outputs.onSynth (·.setVolume percent) }
  | .connect system wanted => match p.outputs.midi.connect system wanted with
    | .error _ => p
    | .ok sent => { p with outputs := p.outputs.sent sent }
  | .disconnect => { p with outputs := p.outputs.sent p.outputs.midi.disconnect }
  | .setMode mode => p.setChannelMode mode
  | .panic => p.panic

inductive Operation where
  | stop
  | playSource (source : Text)
  | playFile (path : String)
  | setOutput (output : OutputMode)
  | setVolume (percent : Nat)
  | connectMidi (wanted : String)
  | disconnectMidi
  | setChannelMode (mode : Midi.ChannelMode)
  | panic

namespace Operation

/-- Stops what plays, then what sounds. -/
def flushing : List Action := [.stop, .ask .silence, .await]

def playing (source : Text) : List Action :=
  match compile source with
  | .error _ => []
  | .ok notes => flushing ++ [.play notes]

/-- What makes an output ready to be selected, unless it cannot be. -/
def opening (s : Surroundings) (p : Player) : OutputMode → Option (List Action)
  | .console => some []
  | .synth => match p.outputs.stream with
    | some _ => some [.setVolume p.config.volume]
    | none => match Sound.Stream.openOn? s.audio with
      | .error _ => none
      | .ok stream => some [.openStream stream, .ask .attach, .setVolume p.config.volume]
  | .midi => if p.outputs.midi.isConnected then some [] else none

/-- The actions of an operation; one that fails has none. -/
def actions (s : Surroundings) (p : Player) : Operation → List Action
  | .stop => flushing
  | .playSource source => playing source
  | .playFile path => match s.files.readText path with
    | .error _ => []
    | .ok source => playing source
  | .setOutput output => match opening s p output with
    | none => []
    | some first => first ++ [.ask (.select output), .configure { p.config with output }]
  | .setVolume percent =>
    [.setVolume (min percent maxPercent), .configure { p.config with volume := min percent maxPercent }]
  | .connectMidi wanted => match p.outputs.midi.connect s.midi wanted with
    | .error _ => []
    | .ok sent => [.connect s.midi wanted, .configure { p.config with port := sent.output.port }]
  | .disconnectMidi =>
    if p.config.output = .midi then
      [.disconnect, .configure { p.config with port := none, output := .console }, .ask (.select .console)]
    else [.disconnect, .configure { p.config with port := none }]
  | .setChannelMode mode => [.setMode mode]
  | .panic => [.panic]

/-- The player after an operation; one that fails leaves it as it was. -/
def result (s : Surroundings) (p : Player) : Operation → Player
  | .stop => p.stop.1
  | .playSource source => match p.playSource source with
    | .error _ => p
    | .ok (q, _) => q
  | .playFile path => match p.playFile s path with
    | .error _ => p
    | .ok (q, _) => q
  | .setOutput output => match p.setOutput s output with
    | .error _ => p
    | .ok q => q
  | .setVolume percent => p.setVolume percent
  | .connectMidi wanted => match p.connectMidi s wanted with
    | .error _ => p
    | .ok (q, _) => q
  | .disconnectMidi => p.disconnectMidi
  | .setChannelMode mode => p.setChannelMode mode
  | .panic => p.panic

end Operation

/-- An action of a client that is alone with the dispatcher, which takes up every order meanwhile. -/
def Action.alone (p : Player) : Action → Player
  | .await => p.obey
  | a => a.perform p

/-- Without interruption, the actions of an operation are the operation. -/
theorem actions_alone (s : Surroundings) (p : Player) (op : Operation) :
    (op.actions s p).foldl Action.alone p = op.result s p := by
  have hplaying : ∀ source, (Operation.playing source).foldl Action.alone p = match p.playSource source with
      | .error _ => p
      | .ok (q, _) => q := by
    intro source
    unfold Operation.playing playSource
    cases compile source with
    | error fault => rfl
    | ok notes => rfl
  cases op with
  | stop => rfl
  | playSource source => exact hplaying source
  | playFile path =>
    simp only [Operation.actions, Operation.result, playFile]
    cases s.files.readText path with
    | error cause => rfl
    | ok source => exact hplaying source
  | setOutput output =>
    simp only [Operation.actions, Operation.result, setOutput]
    cases output with
    | console => rfl
    | midi =>
      simp only [Operation.opening, prepare]
      by_cases hc : p.outputs.midi.isConnected = true
      · rw [if_pos hc, if_pos hc]
        rfl
      · rw [if_neg hc, if_neg hc]
        rfl
    | synth =>
      simp only [Operation.opening, prepare, openAudio]
      cases p.outputs.stream with
      | some stream => rfl
      | none =>
        dsimp only
        cases Sound.Stream.openOn? s.audio with
        | error cause => rfl
        | ok stream => rfl
  | setVolume percent => rfl
  | connectMidi wanted =>
    simp only [Operation.actions, Operation.result, connectMidi]
    cases hc : p.outputs.midi.connect s.midi wanted with
    | error cause => rfl
    | ok sent => simp [Action.alone, Action.perform, hc, Outputs.sent]
  | disconnectMidi =>
    simp only [Operation.actions, Operation.result, disconnectMidi]
    split <;> rfl
  | setChannelMode mode => rfl
  | panic => rfl

/-- What may follow a flush. -/
def IsSequel (tail : List Action) : Prop := tail = [] ∨ ∃ notes, tail = [.play notes]

/-- Whether an action has no part in a flush. -/
def Action.isPlain : Action → Bool
  | .play _ | .await | .ask .silence => false
  | _ => true

/-- An operation either has no part in a flush or begins with one. -/
theorem actions_shape (s : Surroundings) (p : Player) (op : Operation) :
    (∀ a ∈ op.actions s p, a.isPlain = true) ∨ ∃ tail, op.actions s p = Operation.flushing ++ tail ∧ IsSequel tail := by
  have hplaying : ∀ source, (∀ a ∈ Operation.playing source, a.isPlain = true) ∨
      ∃ tail, Operation.playing source = Operation.flushing ++ tail ∧ IsSequel tail := by
    intro source
    unfold Operation.playing
    split
    · exact .inl (by simp)
    · exact .inr ⟨_, rfl, .inr ⟨_, rfl⟩⟩
  cases op with
  | stop => exact .inr ⟨[], rfl, .inl rfl⟩
  | playSource source => exact hplaying source
  | playFile path =>
    simp only [Operation.actions]
    split
    · exact .inl (by simp)
    · exact hplaying _
  | setOutput output =>
    left
    simp only [Operation.actions, Operation.opening]
    intro a ha
    cases output with
    | console => simp at ha; rcases ha with rfl | rfl <;> rfl
    | midi =>
      by_cases hc : p.outputs.midi.isConnected = true
      · simp [hc] at ha
        rcases ha with rfl | rfl <;> rfl
      · simp [hc] at ha
    | synth =>
      cases hs : p.outputs.stream with
      | some stream =>
        simp [hs] at ha
        rcases ha with rfl | rfl | rfl <;> rfl
      | none =>
        cases ho : Sound.Stream.openOn? s.audio with
        | error cause => simp [hs, ho] at ha
        | ok stream =>
          simp [hs, ho] at ha
          rcases ha with rfl | rfl | rfl | rfl | rfl <;> rfl
  | setVolume percent => exact .inl (by simp [Operation.actions, Action.isPlain])
  | connectMidi wanted =>
    left
    simp only [Operation.actions]
    split <;> simp [Action.isPlain]
  | disconnectMidi =>
    left
    simp only [Operation.actions]
    split <;> simp [Action.isPlain]
  | setChannelMode mode => exact .inl (by simp [Operation.actions, Action.isPlain])
  | panic => exact .inl (by simp [Operation.actions, Action.isPlain])

/-! ## The three at once -/

inductive Fate where
  | dispatched
  | dropped
  deriving DecidableEq, Repr

/-- How far the dispatcher is with a silence. -/
inductive Phase where
  | ready
  | draining
  | releasing
  | answering
  deriving DecidableEq, Repr

structure Pipeline where
  player : Player
  /-- What the timer was asked to drop and may fire all the same. -/
  late : List (Timer.Entry Task)
  /-- What the client's operation still has to do. -/
  todo : List Action
  phase : Phase
  /-- The last silence was answered, and the client has not taken notice. -/
  answered : Bool
  /-- Every event that the scheduler delivered, with its session. -/
  delivered : List (Nat × Event)
  /-- What the dispatcher took of these, and what became of it. -/
  taken : List ((Nat × Event) × Fate)

namespace Pipeline

inductive Move where
  | begin (s : Surroundings) (op : Operation)
  | act
  | fire (e : Timer.Entry Task)
  | tick (moment : Nat)
  | takeEvent (s : Surroundings)
  | takeOrder
  | flush

def start (config : Config) : Pipeline :=
  ⟨⟨config, Scheduler.empty.subscribe, .start config.output config.channelMode, []⟩, [], [], .ready, false, [], []⟩

/-- The scheduler on its timer, as it is without the rest. -/
def anyTimer (w : Pipeline) : AnyTimer := ⟨w.player.scheduler, w.late, w.delivered⟩

def withAnyTimer (w : Pipeline) (u : AnyTimer) : Pipeline :=
  { w with player := { w.player with scheduler := u.scheduler }, late := u.late, delivered := u.heard }

def took (w : Pipeline) (player : Player) (fate : Fate) : Pipeline :=
  { w with player, taken := w.taken ++ (w.delivered[w.taken.length]?.toList.map (·, fate)) }

def goOn (w : Pipeline) : Pipeline :=
  match w.todo with
  | [] => w
  | .await :: rest => if w.answered then { w with todo := rest, answered := false } else w
  | .stop :: rest => { w.withAnyTimer (w.anyTimer.step .stop) with todo := rest }
  | .play notes :: rest => { w.withAnyTimer (w.anyTimer.step (.play notes)) with todo := rest }
  | a :: rest => { w with player := a.perform w.player, todo := rest }

def takeOrder (w : Pipeline) : Pipeline :=
  match w.player.orders with
  | .silence :: rest => { w with player := { w.player with orders := rest }, phase := .draining }
  | _ => { w with player := w.player.takeOrder }

def flush (w : Pipeline) : Pipeline :=
  match w.phase with
  | .ready => w
  | .draining =>
    if w.player.queued.isEmpty then { w with phase := .releasing }
    else
      let scheduler := { w.player.scheduler with stage := w.player.scheduler.stage.dropFirst }
      w.took { w.player with scheduler } .dropped
  | .releasing => { w with player := { w.player with outputs := w.player.outputs.silence }, phase := .answering }
  | .answering => { w with phase := .ready, answered := true }

def step (w : Pipeline) : Move → Pipeline
  | .begin s op => if w.todo.isEmpty then { w with todo := op.actions s w.player } else w
  | .act => w.goOn
  | .fire e => w.withAnyTimer (w.anyTimer.step (.fire e))
  | .tick moment => w.withAnyTimer (w.anyTimer.step (.tick moment))
  | .takeEvent s => if w.phase = .ready then w.took (w.player.takeEvent s) .dispatched else w
  | .takeOrder => if w.phase = .ready then w.takeOrder else w
  | .flush => w.flush

def run (w : Pipeline) (moves : List Move) : Pipeline := moves.foldl step w

@[simp] theorem run_nil (w : Pipeline) : w.run [] = w := rfl
@[simp] theorem run_cons (w : Pipeline) (m : Move) (moves : List Move) :
    w.run (m :: moves) = (w.step m).run moves := rfl

theorem run_append (w : Pipeline) (moves more : List Move) : w.run (moves ++ more) = (w.run moves).run more :=
  List.foldl_append ..

/-- A property that every move keeps holds after every run. -/
theorem run_of_step {P : Pipeline → Prop} (hstep : ∀ w m, P w → P (w.step m)) {w : Pipeline} (h : P w)
    (moves : List Move) : P (w.run moves) := by
  induction moves generalizing w with
  | nil => exact h
  | cons m moves ih => exact ih (hstep w m h)

end Pipeline

end Ostinato.Player
