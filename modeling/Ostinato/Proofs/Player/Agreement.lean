import Ostinato.Proofs.Player.Steps
import Ostinato.Proofs.Sound.Voices

/-!
  Ostinato.Proofs.Player.Agreement: settings, dispatcher and devices say the same.

  A player's settings stand in its configuration, in the dispatcher, in the MIDI output and its
  connection, and in the synthesizer. The dispatcher may be behind by some orders; what it will
  have selected once it has taken them is what the configuration says (`aimed`), and a stream
  that is open is attached or about to be (`Wired`). An operation may leave the selected output
  no port or no stream only by selecting another one (`Agreed`). No step raises the volume past
  the largest one (`keeps_volume`).

  What sounds is kept apart from this: an output that is not selected has nothing that sounds
  (`Outputs.Hushed`), because selecting another one silences all of them.

  All this holds of a player that was built and is kept by every step; so once the dispatcher has
  taken its orders, everything agrees (`everything_agrees`).
-/

namespace Ostinato

namespace Midi.Output

variable (o : Output)

/-- Events leave the connection alone. -/
@[simp] theorem connection_handle (e : Playback.Event) :
    (o.handle e).output.port = o.port ∧ (o.handle e).output.connection = o.connection := by
  cases e with
  | noteOn n =>
    simp only [handle, noteOn]
    split <;> exact ⟨rfl, rfl⟩
  | noteOff n =>
    simp only [handle, noteOff]
    split <;> exact ⟨rfl, rfl⟩
  | finished => exact ⟨rfl, rfl⟩

end Midi.Output

namespace Player

open Playback Score

namespace Outputs

/-! ## What events and silences leave alone -/

/-- Some outputs differ in what sounds and what left them, at most. -/
structure Alike (o o' : Outputs) : Prop where
  selected : o'.selected = o.selected
  attached : o'.attached = o.attached
  port : o'.midi.port = o.midi.port
  connection : o'.midi.connection = o.midi.connection
  gain : o'.stream.map (·.synth.gain) = o.stream.map (·.synth.gain)

theorem Alike.trans {o o' o'' : Outputs} (h : o.Alike o') (h' : o'.Alike o'') : o.Alike o'' :=
  ⟨h'.selected.trans h.selected, h'.attached.trans h.attached, h'.port.trans h.port,
    h'.connection.trans h.connection, h'.gain.trans h.gain⟩

theorem Alike.isSome_stream {o o' : Outputs} (h : o.Alike o') : o'.stream.isSome = o.stream.isSome := by
  simpa using congrArg Option.isSome h.gain

theorem alike_sent (o : Outputs) {s : Midi.Sent} (hp : s.output.port = o.midi.port)
    (hc : s.output.connection = o.midi.connection) : o.Alike (o.sent s) := ⟨rfl, rfl, hp, hc, rfl⟩

theorem alike_onSynth (o : Outputs) {f : Sound.Synth Float32 → Sound.Synth Float32}
    (hf : ∀ x, (f x).gain = x.gain) : o.Alike (o.onSynth f) := by
  refine ⟨rfl, rfl, rfl, rfl, ?_⟩
  unfold onSynth
  cases o.stream with
  | none => rfl
  | some stream => exact congrArg some (hf stream.synth)

theorem alike_onAttached (o : Outputs) {f : Sound.Synth Float32 → Sound.Synth Float32}
    (hf : ∀ x, (f x).gain = x.gain) : o.Alike (o.onAttached f) := by
  unfold onAttached
  split
  · exact o.alike_onSynth hf
  · exact ⟨rfl, rfl, rfl, rfl, rfl⟩

theorem alike_dispatch (palette : Palette) (o : Outputs) (e : Event) : o.Alike (o.dispatch palette e) := by
  suffices h : o.Alike (o.forward palette e) from ⟨h.selected, h.attached, h.port, h.connection, h.gain⟩
  unfold forward
  split
  · exact ⟨rfl, rfl, rfl, rfl, rfl⟩
  · cases e with
    | noteOn n => exact o.alike_onAttached fun x => (x.alike_noteOn n).gain
    | noteOff n => exact o.alike_onAttached fun _ => rfl
    | finished => exact ⟨rfl, rfl, rfl, rfl, rfl⟩
  · exact o.alike_sent (o.midi.connection_handle e).1 (o.midi.connection_handle e).2

theorem alike_silence (o : Outputs) : o.Alike o.silence :=
  (o.alike_onAttached (f := Sound.Synth.releaseAll) fun _ => rfl).trans (alike_sent _ rfl rfl)

/-! ## What sounds is selected -/

/-- Nothing sounds on an output that is not selected. -/
structure Hushed (o : Outputs) : Prop where
  active : o.selected ≠ .midi → o.midi.active = []
  held : ¬ (o.selected = .synth ∧ o.attached = true) → ∀ stream, o.stream = some stream → stream.synth.held = []

namespace Hushed

variable {o : Outputs}

theorem of_quiet (ha : o.midi.active = []) (hh : ∀ stream, o.stream = some stream → stream.synth.held = []) :
    o.Hushed := ⟨fun _ => ha, fun _ => hh⟩

theorem onSynth (h : o.Hushed) {f : Sound.Synth Float32 → Sound.Synth Float32}
    (hf : ∀ x, x.held = [] → (f x).held = []) : (o.onSynth f).Hushed := by
  refine ⟨h.active, fun hsel stream hs => ?_⟩
  obtain ⟨stream', hs', rfl⟩ := Option.map_eq_some_iff.mp hs
  exact hf _ (h.held hsel stream' hs')

theorem sent (h : o.Hushed) {s : Midi.Sent} (hs : s.output.active = o.midi.active ∨ s.output.active = []) :
    (o.sent s).Hushed := by
  refine ⟨fun hsel => ?_, h.held⟩
  rcases hs with hs | hs
  · exact hs.trans (h.active hsel)
  · exact hs

/-- An event makes something sound on the output selected, or nowhere. -/
theorem dispatch (h : o.Hushed) (palette : Palette) (e : Event) : (o.dispatch palette e).Hushed := by
  suffices hf : (o.forward palette e).Hushed from ⟨hf.active, hf.held⟩
  have hattached : o.selected = .synth → ∀ f, (o.onAttached f).Hushed := by
    intro hsel f
    unfold onAttached
    by_cases ha : o.attached = true
    · rw [if_pos ha]
      exact ⟨h.active, fun hnot => absurd ⟨hsel, ha⟩ hnot⟩
    · rw [if_neg ha]
      exact h
  unfold forward
  cases hsel : o.selected with
  | console => exact ⟨h.active, h.held⟩
  | synth =>
    cases e with
    | noteOn n => exact hattached hsel _
    | noteOff n => exact hattached hsel _
    | finished => exact h
  | midi => exact ⟨fun hnot => absurd hsel hnot, h.held⟩

theorem silence (h : o.Hushed) :
    o.silence.midi.active = [] ∧ ∀ stream, o.silence.stream = some stream → stream.synth.held = [] := by
  refine ⟨rfl, fun stream hs => ?_⟩
  have hs' : (o.onAttached Sound.Synth.releaseAll).stream = some stream := hs
  unfold onAttached at hs'
  by_cases ha : o.attached = true
  · rw [if_pos ha] at hs'
    obtain ⟨stream', -, rfl⟩ := Option.map_eq_some_iff.mp hs'
    rfl
  · rw [if_neg ha] at hs'
    exact h.held (fun hsel => ha hsel.2) stream hs'

theorem select (h : o.Hushed) (output : OutputMode) : (o.select output).Hushed := by
  unfold Outputs.select
  split
  · exact h
  · exact of_quiet h.silence.1 h.silence.2

theorem attach (h : o.Hushed) : o.attach.Hushed :=
  ⟨h.active, fun hsel => h.held fun hboth => hsel ⟨hboth.1, rfl⟩⟩

end Hushed

end Outputs

theorem hushed_takeOrder {p : Player} (h : p.outputs.Hushed) : p.takeOrder.outputs.Hushed := by
  refine takeOrder_keeps (P := fun p => p.outputs.Hushed) (fun _ _ h => h) ?_ h
  intro p o h
  cases o with
  | select output => exact h.select output
  | attach => exact h.attach
  | silence => exact .of_quiet h.silence.1 h.silence.2

theorem hushed_obey {p : Player} (h : p.outputs.Hushed) : p.obey.outputs.Hushed :=
  (obey_keeps (P := fun p => p.outputs.Hushed) (fun _ => hushed_takeOrder) h).1

theorem hushed_stop {p : Player} (h : p.outputs.Hushed) : p.stop.1.outputs.Hushed :=
  have hasked : ({ p with scheduler := p.scheduler.stop.1 }.ask .silence).outputs.Hushed := h
  hushed_obey hasked

theorem hushed_prepare {s : Surroundings} {p ready : Player} {output : OutputMode} (h : p.outputs.Hushed)
    (hr : p.prepare s output = .ok ready) : ready.outputs.Hushed := by
  cases output with
  | console =>
    cases hr
    exact h
  | midi =>
    obtain ⟨-, rfl⟩ := prepare_midi_ok hr
    exact h
  | synth =>
    obtain ⟨opened, hopened, rfl⟩ := prepare_synth_ok hr
    have hstream : opened.outputs.Hushed := by
      rcases openAudio_ok hopened with ⟨-, rfl⟩ | ⟨-, stream, hstream, rfl⟩
      · exact h
      · obtain ⟨rate, hrate⟩ := openOn?_ok hstream
        refine ⟨h.active, fun _ stream' hs => ?_⟩
        cases hs
        rw [hrate]
        rfl
    exact hstream.onSynth (f := (·.setVolume opened.config.volume)) fun x hx => hx

theorem hushed_result {s : Surroundings} {p : Player} (op : Operation) (h : p.outputs.Hushed) :
    (op.result s p).outputs.Hushed := by
  generalize hq : op.result s p = q
  cases hq ▸ result_result s p op with
  | fails _ => exact h
  | stops => exact hushed_stop h
  | plays _ => exact hushed_stop h
  | selects hr =>
    have hready := hushed_prepare h hr
    exact hready
  | setsVolume percent => exact h.onSynth (f := (·.setVolume (min percent maxPercent))) fun x hx => hx
  | connects hout =>
    refine h.sent (.inl ?_)
    rw [hout]
  | disconnects =>
    have hsent : (p.outputs.sent p.outputs.midi.disconnect).Hushed := h.sent (.inr rfl)
    unfold disconnectMidi
    dsimp only
    split <;> exact hsent
  | setsMode mode => exact ⟨h.active, h.held⟩
  | panics => exact h.sent (.inr rfl)

theorem keeps_hushed : Keeps fun p => p.outputs.Hushed where
  operation _ _ op h := hushed_result op h
  print _ _ h := ⟨h.active, h.held⟩
  clock _ _ h := h
  event s p h := by
    unfold takeEvent
    cases p.queued with
    | nil => exact h
    | cons e rest => exact h.dispatch s.palette e
  order _ h := hushed_takeOrder h
  render p frames h := by
    refine h.onSynth (f := fun x => (x.meter frames).2) fun x hx => ?_
    show (x.render Sound.Meter.note frames .zero).2.held = []
    rw [Sound.Synth.held_render, hx]
    rfl

/-! ## What the configuration says -/

/-- The output selected after an order. -/
def aim (selected : OutputMode) : Order → OutputMode
  | .select output => output
  | _ => selected

/-- The output selected once every order was taken. -/
def aimed (p : Player) : OutputMode := p.orders.foldl aim p.outputs.selected

/-- What an order changes, besides what sounds: where events go. -/
theorem carryOut_outputs (p : Player) (o : Order) :
    (p.carryOut o).outputs.selected = aim p.outputs.selected o ∧
      ((p.carryOut o).outputs.attached = true ↔ p.outputs.attached = true ∨ o = .attach) ∧
      p.outputs.Alike { (p.carryOut o).outputs with
        selected := p.outputs.selected
        attached := p.outputs.attached } := by
  have hsilence := p.outputs.alike_silence
  cases o with
  | attach => exact ⟨rfl, by simp [carryOut, Outputs.attach], rfl, rfl, rfl, rfl, rfl⟩
  | silence =>
    refine ⟨hsilence.selected, ?_, rfl, rfl, hsilence.port, hsilence.connection, hsilence.gain⟩
    simp [carryOut, hsilence.attached]
  | select output =>
    by_cases hs : output = p.outputs.selected
    · have heq : p.outputs.select output = p.outputs := if_pos hs
      refine ⟨?_, ?_, ?_⟩
      · exact (congrArg Outputs.selected heq).trans hs.symm
      · simp [carryOut, heq]
      · simp only [carryOut, heq]
        exact ⟨rfl, rfl, rfl, rfl, rfl⟩
    · have heq : p.outputs.select output = { p.outputs.silence with selected := output } := if_neg hs
      refine ⟨?_, ?_, ?_⟩
      · exact congrArg Outputs.selected heq
      · simp [carryOut, heq, hsilence.attached]
      · simp only [carryOut, heq]
        exact ⟨rfl, rfl, hsilence.port, hsilence.connection, hsilence.gain⟩

theorem takeOrder_alike (p : Player) : p.takeOrder.config = p.config ∧
    p.outputs.Alike { p.takeOrder.outputs with selected := p.outputs.selected, attached := p.outputs.attached } := by
  cases ho : p.orders with
  | nil =>
    rw [takeOrder_of_nil ho]
    exact ⟨rfl, rfl, rfl, rfl, rfl, rfl⟩
  | cons o rest =>
    rw [takeOrder_of_cons ho]
    refine ⟨?_, (carryOut_outputs { p with orders := rest } o).2.2⟩
    cases o <;> rfl

theorem config_obey (p : Player) : p.obey.config = p.config :=
  (obey_keeps (P := fun q => q.config = p.config) (fun q h => q.takeOrder_alike.1.trans h) rfl).1

theorem config_stop (p : Player) : p.stop.1.config = p.config := config_obey _

/-- Making an output ready changes neither what is configured nor what plays. -/
theorem prepare_same {s : Surroundings} {p ready : Player} {output : OutputMode}
    (h : p.prepare s output = .ok ready) : ready.config = p.config ∧ ready.scheduler = p.scheduler := by
  cases output with
  | console =>
    cases h
    exact ⟨rfl, rfl⟩
  | midi =>
    obtain ⟨-, rfl⟩ := prepare_midi_ok h
    exact ⟨rfl, rfl⟩
  | synth =>
    obtain ⟨opened, hopened, rfl⟩ := prepare_synth_ok h
    rcases openAudio_ok hopened with ⟨-, rfl⟩ | ⟨-, stream, -, rfl⟩
    · exact ⟨rfl, rfl⟩
    · exact ⟨rfl, rfl⟩

theorem keeps_volume : Keeps fun p => p.config.volume ≤ maxPercent where
  operation s p op h := by
    generalize hq : op.result s p = q
    cases hq ▸ result_result s p op with
    | fails _ => exact h
    | stops => exact (config_stop p).symm ▸ h
    | plays _ => exact (config_stop p).symm ▸ h
    | selects hr =>
      rw [← (prepare_same hr).1] at h
      exact h
    | setsVolume percent => exact Nat.min_le_right ..
    | connects _ => exact h
    | disconnects =>
      unfold disconnectMidi
      dsimp only
      split <;> exact h
    | setsMode mode => exact h
    | panics => exact h
  print _ _ h := h
  clock _ _ h := h
  event _ p h := by
    unfold takeEvent
    cases p.queued <;> exact h
  order p h := p.takeOrder_alike.1.symm ▸ h
  render _ _ h := h

/-- The settings agree, as far as the dispatcher's orders are counted as taken. -/
structure Wired (p : Player) : Prop where
  output : p.aimed = p.config.output
  port : p.config.port = p.outputs.midi.port
  connection : p.outputs.midi.port = p.outputs.midi.connection.map (·.name)
  attached : p.outputs.stream.isSome = true → p.outputs.attached = true ∨ .attach ∈ p.orders
  gain : ∀ g ∈ p.outputs.stream.map (·.synth.gain), g = Sound.gainOf p.config.volume

/-- The output that is configured is there. -/
structure Agreed (p : Player) : Prop extends Wired p where
  midi : p.config.output = .midi → p.outputs.midi.port.isSome = true
  synth : p.config.output = .synth → p.outputs.stream.isSome = true

namespace Wired

variable {p q : Player}

theorem of_alike (h : Wired p) (hc : q.config = p.config) (ho : q.orders = p.orders) (ha : p.outputs.Alike q.outputs) :
    Wired q := by
  refine ⟨?_, ?_, ?_, ?_, ?_⟩
  · rw [aimed, hc, ho, ha.selected]; exact h.output
  · rw [hc, ha.port]; exact h.port
  · rw [ha.port, ha.connection]; exact h.connection
  · rw [ha.isSome_stream, ha.attached, ho]; exact h.attached
  · rw [ha.gain, hc]; exact h.gain

theorem ask (h : Wired p) {o : Order} (ho : ∀ output, o ≠ .select output) : Wired (p.ask o) := by
  have haim : (p.ask o).aimed = p.aimed := by
    rw [aimed, aimed]
    show (p.orders ++ [o]).foldl aim p.outputs.selected = _
    rw [List.foldl_append]
    cases o with
    | select output => exact absurd rfl (ho output)
    | attach => rfl
    | silence => rfl
  refine ⟨haim.trans h.output, h.port, h.connection, ?_, h.gain⟩
  intro hs
  rcases h.attached hs with ha | ha
  · exact .inl ha
  · exact .inr (List.mem_append_left _ ha)

theorem takeOrder (h : Wired p) : Wired p.takeOrder := by
  cases ho : p.orders with
  | nil =>
    rw [takeOrder_of_nil ho]
    exact h
  | cons o rest =>
    obtain ⟨hselected, hattached, -⟩ := carryOut_outputs { p with orders := rest } o
    obtain ⟨hconfig, halike⟩ := p.takeOrder_alike
    have heq := takeOrder_of_cons ho
    refine ⟨?_, ?_, ?_, ?_, ?_⟩
    · rw [hconfig, ← h.output, aimed, aimed, heq, hselected, orders_carryOut, ho]
      rfl
    · rw [hconfig]
      exact h.port.trans halike.port.symm
    · exact (halike.port.trans h.connection).trans (congrArg (Option.map _) halike.connection.symm)
    · intro hs
      rw [heq, hattached, orders_carryOut]
      rcases h.attached (halike.isSome_stream ▸ hs) with ha | ha
      · exact .inl (.inl ha)
      · rw [ho] at ha
        rcases List.mem_cons.mp ha with ha | ha
        · exact .inl (.inr ha.symm)
        · exact .inr ha
    · rw [hconfig]
      intro g hg
      exact h.gain g (halike.gain ▸ hg)

/-- A stream that is open gets the gain of the volume configured. -/
theorem onSynth_setVolume {volume : Nat} {o : Outputs} :
    ∀ g ∈ (o.onSynth (·.setVolume volume)).stream.map (·.synth.gain), g = Sound.gainOf volume := by
  intro g hg
  rw [Option.mem_def, Outputs.onSynth, Option.map_map, Option.map_eq_some_iff] at hg
  obtain ⟨stream, -, rfl⟩ := hg
  rfl

/-- What was made ready is wired, and the output that it was made ready for is there. -/
theorem prepare {s : Surroundings} {output : OutputMode} {ready : Player} (h : Wired p)
    (hr : p.prepare s output = .ok ready) : Wired ready ∧
      (output = .midi → ready.outputs.midi.port.isSome = true) ∧
      (output = .synth → ready.outputs.stream.isSome = true) := by
  cases output with
  | console =>
    cases hr
    exact ⟨h, by simp⟩
  | midi =>
    obtain ⟨hport, rfl⟩ := prepare_midi_ok hr
    exact ⟨h, fun _ => hport, by simp⟩
  | synth =>
    obtain ⟨opened, hopened, rfl⟩ := prepare_synth_ok hr
    have hsome : ∀ o : Outputs, (o.onSynth (·.setVolume opened.config.volume)).stream.isSome = o.stream.isSome :=
      fun _ => Option.isSome_map
    rcases openAudio_ok hopened with ⟨hstream, rfl⟩ | ⟨hnone, stream, -, rfl⟩
    · refine ⟨⟨h.output, h.port, h.connection, ?_, onSynth_setVolume⟩, by simp, fun _ => ?_⟩
      · intro _
        exact h.attached hstream
      · exact (hsome _).trans hstream
    · have hasked : Wired (p.ask .attach) := h.ask (by simp)
      refine ⟨⟨hasked.output, h.port, h.connection, ?_, onSynth_setVolume⟩, by simp, fun _ => rfl⟩
      intro _
      exact .inr (List.mem_append_right _ (List.mem_singleton_self _))

end Wired

theorem aimed_chosen (p : Player) (output : OutputMode) : (p.chosen output).aimed = output := by
  rw [aimed]
  show (p.orders ++ [Order.select output]).foldl aim p.outputs.selected = output
  rw [List.foldl_append]
  rfl

/-- Another output can be chosen as soon as it is there. -/
theorem Wired.chosen {p : Player} {output : OutputMode} (h : Wired p)
    (hm : output = .midi → p.outputs.midi.port.isSome = true) (hs : output = .synth → p.outputs.stream.isSome = true) :
    Agreed (p.chosen output) where
  output := aimed_chosen p output
  port := h.port
  connection := h.connection
  attached hstream := (h.attached hstream).imp id (List.mem_append_left _)
  gain := h.gain
  midi := hm
  synth := hs

namespace Agreed

variable {p q : Player}

theorem of_alike (h : Agreed p) (hc : q.config = p.config) (ho : q.orders = p.orders)
    (ha : p.outputs.Alike q.outputs) : Agreed q := by
  refine ⟨h.toWired.of_alike hc ho ha, ?_, ?_⟩
  · rw [hc, ha.port]; exact h.midi
  · rw [hc, ha.isSome_stream]; exact h.synth

theorem takeOrder (h : Agreed p) : Agreed p.takeOrder := by
  obtain ⟨hconfig, halike⟩ := p.takeOrder_alike
  refine ⟨h.toWired.takeOrder, ?_, ?_⟩
  · rw [hconfig]
    intro hm
    exact (congrArg Option.isSome halike.port).trans (h.midi hm)
  · rw [hconfig]
    intro hs
    exact halike.isSome_stream.trans (h.synth hs)

theorem stop (h : Agreed p) : Agreed p.stop.1 := by
  have hasked : Agreed ({ p with scheduler := p.scheduler.stop.1 }.ask .silence) :=
    have hstopped : Agreed { p with scheduler := p.scheduler.stop.1 } := h.of_alike rfl rfl ⟨rfl, rfl, rfl, rfl, rfl⟩
    ⟨hstopped.toWired.ask (by simp), h.midi, h.synth⟩
  exact (obey_keeps (P := Agreed) (fun _ h => h.takeOrder) hasked).1

theorem setVolume (h : Agreed p) (percent : Nat) : Agreed (p.setVolume percent) where
  output := h.output
  port := h.port
  connection := h.connection
  attached hs := h.attached (Option.isSome_map ▸ hs)
  gain := Wired.onSynth_setVolume
  midi := h.midi
  synth hs := Option.isSome_map.trans (h.synth hs)

theorem connected (h : Agreed p) {port : Midi.Port} {sent : Midi.Sent}
    (hout : sent.output = { p.outputs.midi with connection := some port, port := some port.name }) :
    Agreed (p.connected port sent) where
  output := h.output
  port := (congrArg Midi.Output.port hout).symm
  connection := by
    show sent.output.port = sent.output.connection.map (·.name)
    rw [hout]
    rfl
  attached := h.attached
  gain := h.gain
  midi _ := congrArg (fun o : Midi.Output => o.port.isSome) hout
  synth := h.synth

/-- Without a port, the MIDI output gives way to the console. -/
theorem disconnectMidi (h : Agreed p) : Agreed p.disconnectMidi := by
  unfold Player.disconnectMidi
  dsimp only
  by_cases hm : p.config.output = .midi
  · rw [if_pos hm]
    exact ⟨⟨aimed_chosen _ .console, rfl, rfl, fun hs => (h.attached hs).imp id (List.mem_append_left _), h.gain⟩,
      by simp [ask], by simp [ask]⟩
  · rw [if_neg hm]
    exact ⟨⟨h.output, rfl, rfl, h.attached, h.gain⟩, fun hsel => absurd hsel hm, h.synth⟩

theorem result {s : Surroundings} (op : Operation) (h : Agreed p) : Agreed (op.result s p) := by
  generalize hq : op.result s p = q
  cases hq ▸ result_result s p op with
  | fails _ => exact h
  | stops => exact h.stop
  | plays _ => exact h.stop.of_alike rfl rfl ⟨rfl, rfl, rfl, rfl, rfl⟩
  | selects hr =>
    obtain ⟨hready, hm, hs⟩ := h.toWired.prepare hr
    exact hready.chosen hm hs
  | setsVolume percent => exact h.setVolume percent
  | connects hout => exact h.connected hout
  | disconnects => exact h.disconnectMidi
  | setsMode mode => exact h.of_alike rfl rfl ⟨rfl, rfl, rfl, rfl, rfl⟩
  | panics => exact h.of_alike rfl rfl ⟨rfl, rfl, rfl, rfl, rfl⟩

end Agreed

theorem keeps_agreed : Keeps Agreed where
  operation _ _ op h := h.result op
  print _ _ h := h.of_alike rfl rfl ⟨rfl, rfl, rfl, rfl, rfl⟩
  clock _ _ h := h.of_alike rfl rfl ⟨rfl, rfl, rfl, rfl, rfl⟩
  event s p h := by
    unfold takeEvent
    cases p.queued with
    | nil => exact h
    | cons e rest => exact h.of_alike rfl rfl (p.outputs.alike_dispatch s.palette e)
  order _ h := h.takeOrder
  render p frames h := by
    refine h.of_alike rfl rfl (p.outputs.alike_onSynth (f := fun x => (x.meter frames).2) fun x => ?_)
    exact (x.alike_render Sound.Meter.note frames .zero).gain

/-! ## A player that was built -/

/-- A player is connected to the port configured before its output is set. -/
theorem build_ok {s : Surroundings} {config : Config} {p : Player} (h : build s config = .ok p) :
    ∃ q, (Pipeline.start config).player.connectConfigured s = .ok q ∧
      (config.output = .console ∧ p = q ∨ ∃ ready, q.prepare s config.output = .ok ready ∧
        p = ready.chosen config.output) := by
  have hb : ((Pipeline.start config).player.connectConfigured s).bind
      (fun q => if config.output = .console then .ok q else q.setOutput s config.output) = .ok p := h
  cases hq : (Pipeline.start config).player.connectConfigured s with
  | error fault =>
    rw [hq] at hb
    cases hb
  | ok q =>
    rw [hq] at hb
    refine ⟨q, rfl, ?_⟩
    dsimp only [Except.bind] at hb
    by_cases hc : config.output = .console
    · rw [if_pos hc] at hb
      exact .inl ⟨hc, (Except.ok.inj hb).symm⟩
    · rw [if_neg hc, setOutput_eq] at hb
      cases hr : q.prepare s config.output with
      | error fault =>
        rw [hr] at hb
        cases hb
      | ok ready =>
        rw [hr] at hb
        exact .inr ⟨ready, rfl, (Except.ok.inj hb).symm⟩

theorem connectConfigured_ok {s : Surroundings} {p q : Player} (h : p.connectConfigured s = .ok q) :
    p.config.port = none ∧ q = p ∨ ∃ port sent, q = p.connected port sent ∧
      sent.output = { p.outputs.midi with connection := some port, port := some port.name } := by
  unfold connectConfigured at h
  cases hp : p.config.port with
  | none =>
    rw [hp] at h
    cases h
    exact .inl ⟨rfl, rfl⟩
  | some wanted =>
    rw [hp] at h
    dsimp only at h
    cases hc : p.connectMidi s wanted with
    | error fault =>
      rw [hc] at h
      cases h
    | ok x =>
      rw [hc] at h
      cases h
      exact .inr (connectMidi_ok hc)

theorem agreed_build {s : Surroundings} {config : Config} {p : Player} (h : build s config = .ok p) :
    Agreed p ∧ p.outputs.Hushed := by
  obtain ⟨q, hq, hp⟩ := build_ok h
  have hconnected : Wired q ∧ q.outputs.Hushed ∧ q.config.output = config.output := by
    rcases connectConfigured_ok hq with ⟨hnone, rfl⟩ | ⟨port, sent, rfl, hout⟩
    · refine ⟨⟨rfl, hnone, rfl, ?_, ?_⟩, .of_quiet rfl ?_, rfl⟩
      all_goals simp [Pipeline.start, Outputs.start]
    · refine ⟨⟨rfl, (congrArg Midi.Output.port hout).symm, ?_, ?_, ?_⟩, .of_quiet ?_ ?_, rfl⟩
      · show sent.output.port = sent.output.connection.map (·.name)
        rw [hout]
        rfl
      · simp [connected, Outputs.sent, Pipeline.start, Outputs.start]
      · simp [connected, Outputs.sent, Pipeline.start, Outputs.start]
      · exact congrArg Midi.Output.active hout
      · simp [connected, Outputs.sent, Pipeline.start, Outputs.start]
  obtain ⟨hwired, hhushed, houtput⟩ := hconnected
  rcases hp with ⟨hconsole, rfl⟩ | ⟨ready, hr, rfl⟩
  · rw [hconsole] at houtput
    exact ⟨⟨hwired, by simp [houtput], by simp [houtput]⟩, hhushed⟩
  · obtain ⟨hready, hm, hs⟩ := hwired.prepare hr
    have hquiet := hushed_prepare hhushed hr
    exact ⟨hready.chosen hm hs, hquiet⟩

/-- A player that was built has the volume configured, and a scheduler on which nothing was done but
    that the dispatcher listens. -/
theorem build_same {s : Surroundings} {config : Config} {p : Player} (h : build s config = .ok p) :
    p.config.volume = config.volume ∧ p.scheduler = Scheduler.empty.subscribe := by
  obtain ⟨q, hq, hp⟩ := build_ok h
  have hconnected : q.config.volume = config.volume ∧ q.scheduler = Scheduler.empty.subscribe := by
    rcases connectConfigured_ok hq with ⟨-, rfl⟩ | ⟨port, sent, rfl, -⟩
    · exact ⟨rfl, rfl⟩
    · exact ⟨rfl, rfl⟩
  rcases hp with ⟨-, rfl⟩ | ⟨ready, hr, rfl⟩
  · exact hconnected
  · obtain ⟨hconfig, hscheduler⟩ := prepare_same hr
    exact ⟨(congrArg Config.volume hconfig).trans hconnected.1, hscheduler.trans hconnected.2⟩

/-! ## Everything agrees -/

/-- What a player is set to stands the same in its configuration, in the dispatcher, in the MIDI
    output and its connection, and in the synthesizer; the output selected is there, and the
    others have nothing that sounds. -/
structure InAgreement (p : Player) : Prop where
  output : p.outputs.selected = p.config.output
  port : p.config.port = p.outputs.midi.port
  connection : p.outputs.midi.port = p.outputs.midi.connection.map (·.name)
  midi : p.config.output = .midi → p.outputs.midi.port.isSome = true
  synth : p.config.output = .synth → p.outputs.stream.isSome = true ∧ p.outputs.attached = true
  gain : ∀ stream, p.outputs.stream = some stream → stream.synth.gain = Sound.gainOf p.config.volume
  volume : p.config.volume ≤ maxPercent
  active : p.config.output ≠ .midi → p.outputs.midi.active = []
  held : p.config.output ≠ .synth → ∀ stream, p.outputs.stream = some stream → stream.synth.held = []

theorem Agreed.selected {p : Player} (h : Agreed p) (ho : p.orders = []) : p.outputs.selected = p.config.output := by
  have haimed := h.output
  rwa [aimed, ho] at haimed

theorem Agreed.attached_synth {p : Player} (h : Agreed p) (ho : p.orders = []) (hs : p.config.output = .synth) :
    p.outputs.stream.isSome = true ∧ p.outputs.attached = true := by
  refine ⟨h.synth hs, ?_⟩
  rcases h.attached (h.synth hs) with ha | ha
  · exact ha
  · rw [ho] at ha
    cases ha

theorem Agreed.inAgreement {p : Player} (h : Agreed p) (hh : p.outputs.Hushed) (hv : p.config.volume ≤ maxPercent)
    (ho : p.orders = []) : InAgreement p := by
  have houtput := h.selected ho
  refine ⟨houtput, h.port, h.connection, h.midi, h.attached_synth ho, ?_, hv, ?_, ?_⟩
  · intro stream hs
    exact h.gain _ (Option.mem_def.mpr (by rw [hs]; rfl))
  · intro hm
    exact hh.active (houtput.symm ▸ hm)
  · intro hs
    exact hh.held fun hsel => hs (houtput ▸ hsel.1)

/-- A player built from a possible volume agrees with itself at every point of every run, as soon
    as its dispatcher has taken the orders that wait. -/
theorem everything_agrees (s : Surroundings) (config : Config) (p : Player) (hb : build s config = .ok p)
    (hv : config.volume ≤ maxPercent) (steps : List (Surroundings × Step)) : InAgreement (p.run steps).obey := by
  obtain ⟨hagreed, hhushed⟩ := agreed_build hb
  obtain ⟨hkept, hnone⟩ := obey_keeps (P := Agreed) (fun _ h => h.takeOrder) (keeps_agreed.run hagreed steps)
  have hquiet := hushed_obey (keeps_hushed.run hhushed steps)
  have hvolume : (p.run steps).obey.config.volume ≤ maxPercent := by
    rw [config_obey]
    exact keeps_volume.run ((build_same hb).1 ▸ hv) steps
  exact hkept.inAgreement hquiet hvolume hnone

/-- A port that is given up while a note sounds on it, and an output that there is no device for. -/
theorem everything_agrees_disconnected :
    let s : Surroundings := ⟨⟨[], []⟩, .ports [⟨"Synth", true, none, true⟩], none, .plain⟩
    let config : Config := { Config.default with output := .midi, port := some "yn" }
    let steps : List Step := [.call (.playSource "c1".toList), .clock (.advance 0), .event,
      .line "midi disconnect".toList, .call (.setOutput .synth), .line "volume 30".toList]
    ∃ p, build s config = .ok p ∧ config.volume ≤ maxPercent ∧ InAgreement (p.run (steps.map (s, ·))).obey := by
  intro s config steps
  have hv : config.volume ≤ maxPercent := by decide
  have hb : ∃ p, build s config = .ok p := ⟨_, rfl⟩
  obtain ⟨p, hb⟩ := hb
  exact ⟨p, hb, hv, everything_agrees s config p hb hv _⟩

end Player

end Ostinato
