import Ostinato.Proofs.Player.Agreement

/-!
  Ostinato.Proofs.Player.Singing: the voices held and the notes that sound.

  Scores are played and stopped on the synthesizer, one after another; in between, the clock
  moves, the dispatcher takes events and orders, samples are rendered, and anything else is done
  that leaves the synthesizer selected. `Sings` tells, all along, which notes play and what has
  happened to the synthesizer since they began. No run is left out (`Sings.run`).

  A stop leaves no voice held and nothing that waits (`inTune_stop`), so what is delivered after
  it begins a performance (`Delivers.begins`). In a performance a note starts once, and stops
  after it has started, and no two notes have one id (`Scored.starts`, `Scored.stops`). So every
  event finds the synthesizer as it must be (`InTune.event`), and the voices held are those of
  the notes that are on (`held_are_sounding`).
-/

namespace Ostinato.Player

open Playback Score Midi Sound

/-! ## What a scheduler delivers -/

/-- A scheduler with what it has delivered since its notes began to play, or since it was stopped. -/
inductive Delivers (notes : List Note) (y : Recorded) : Prop
  | performs {origin number : Nat} {done rest : List Cue} (h : Stands origin number notes done rest y)
  | rests (tidy : Tidy y.1 y.2.1.deck) (session : y.2.1.deck.session = none) (record : y.2.2 = [])

section

variable {notes : List Note} {y : Recorded}

/-- On a timer on which nothing waits, a move of the clock delivers nothing. -/
theorem act_of_idle (h : y.1.queue = []) (m : Motion) : (y.act m.act).2 = y.2 := by
  cases m with
  | advance span =>
    simp only [Motion.act, Recorded.act, Timer.advance?]
    split
    · exact Timer.runUntil_of_nil recording _ h
    · rfl
  | runUntil moment hm => exact Timer.runUntil_of_nil recording moment h
  | runAll => exact congrArg (·.2) (Timer.runAll_of_nil recording h)

theorem Delivers.move (h : Delivers notes y) (hn : ∀ n ∈ notes, n.start ≤ maxMillis) (m : Motion) :
    Delivers notes (y.act m.act) := by
  cases h with
  | performs h =>
    have hkeeps : m.act.keepsSession = true := by cases m <;> rfl
    obtain ⟨done', rest', h', -⟩ := h.act hn hkeeps
    exact .performs h'
  | rests tidy session record =>
    have hsame := act_of_idle (tidy.idle session) m
    have htidy : (y.act m.act).scheduler.Tidy := by
      rw [Recorded.scheduler_act]
      exact Scheduler.Tidy.act (s := y.scheduler) tidy m.act
    refine .rests htidy ?_ ?_
    · rw [hsame, session]
    · rw [hsame, record]

/-- Who listens does not matter to it. -/
theorem Delivers.of_eq {y' : Recorded} (h : Delivers notes y) (ht : y'.1 = y.1) (hd : y'.2.1.deck = y.2.1.deck)
    (hr : y'.2.2 = y.2.2) : Delivers notes y' := by
  cases h with
  | performs h =>
    obtain ⟨done', rest', h', -⟩ := h.goesOn_of_eq y' ht hd hr not_false
    exact .performs h'
  | rests tidy session record => exact .rests (ht ▸ hd ▸ tidy) (hd ▸ session) (hr ▸ record)

theorem Delivers.begins (h : Delivers notes y) :
    ∃ origin, y.2.2.map (·.2) <+: (performance origin notes).map (·.2) := by
  cases h with
  | performs h => exact ⟨_, h.begins.map _⟩
  | rests _ _ record =>
    rw [record]
    exact ⟨0, List.nil_prefix⟩

/-- The only listener gets what is written down. -/
theorem listener_move {inbox : List Event} (h : y.2.1.listeners = [.listening inbox]) (m : Motion) :
    ∃ new, (y.act m.act).2.2 = y.2.2 ++ new ∧
      (y.act m.act).2.1.listeners = [.listening (inbox ++ new.map (·.2))] := by
  let P (x : Recorded) : Prop := ∃ new, x.2.2 = y.2.2 ++ new ∧ x.2.1.listeners = [.listening (inbox ++ new.map (·.2))]
  have hstart : P y := ⟨[], by simp, by simpa using h⟩
  have hfire : ∀ (x : Recorded) (e : Timer.Entry Task) (t : Timer Task), P x → P (recordTask e (t, x.2)) := by
    intro x e t hx
    obtain ⟨new, hrec, hl⟩ := hx
    refine ⟨new ++ (eventsOf (x.2.1.deck.fire t.nextId e.task).outputs).map (t.now, ·), ?_, ?_⟩
    · exact (congrArg (· ++ _) hrec).trans (List.append_assoc ..)
    · simp [recordTask, hl, Function.comp_def]
  have huntil : ∀ (moment : Nat) (x : Recorded), P x → P (Timer.runUntil recording moment x) := by
    intro moment x hx
    exact Timer.runUntil_induction (P := P) (fun x e t hx _ => hfire x e t hx) (fun _ hx _ => hx) hx
  cases m with
  | advance span =>
    show P ((Timer.advance? recording span y).getD y)
    unfold Timer.advance?
    split
    · exact huntil _ _ hstart
    · exact hstart
  | runUntil moment hm => exact huntil moment y hstart
  | runAll => exact Timer.runAll_induction (P := P) (fun x d hx _ => huntil d x hx) hstart

end

/-! ## Along a performance -/

section

variable {notes : List Note} {origin : Nat} {es more : List Event} {m n : Note}

theorem mem_of_starts (h : es <+: (performance origin notes).map (·.2)) (hn : .noteOn n ∈ es) : n ∈ notes := by
  have hmem := h.subset hn
  rw [events_performance] at hmem
  rcases List.mem_append.mp hmem with hmem | hmem
  · obtain ⟨i, hi⟩ := noteOn_mem_eventsAt.mp hmem
    exact List.mem_of_getElem? (mem_cuesOf_on.mp (mem_timetable.mp hi))
  · cases List.mem_singleton.mp hmem

/-- The notes of a score: each has a place of its own, and starts at a time that a clock can read. -/
structure Scored (notes : List Note) : Prop where
  increases : notes.Pairwise fun a b => a.foundAt < b.foundAt
  start_le : ∀ n ∈ notes, n.start ≤ maxMillis

namespace Scored

theorem of_compile {text : Text} (h : compile text = .ok notes) : Scored notes :=
  ⟨compile_increases h, compile_start_le h⟩

theorem nodup (h : Scored notes) : notes.Nodup :=
  h.increases.imp fun hlt heq => Nat.ne_of_lt hlt (congrArg Note.foundAt heq)

theorem eq_of_id (h : Scored notes) (hm : m ∈ notes) (hn : n ∈ notes) (hid : m.id = n.id) : m = n := by
  have hplaces : (notes.map (·.foundAt)).Nodup := (List.pairwise_map.mpr h.increases).imp Nat.ne_of_lt
  exact List.inj_on_of_nodup_map hplaces hm hn (congrArg Prod.snd hid)

theorem starts (h : Scored notes) (hp : es ++ .noteOn n :: more <+: (performance origin notes).map (·.2)) :
    .noteOn n ∉ es ∧ .noteOff n ∉ es ∧ ∀ m, IsOn es m → m.id ≠ n.id := by
  rcases next_cue hp with he | ⟨done, c, rest, htable, rfl, hc⟩
  · cases he
  · cases c with
    | close => cases hc
    | off i n => cases hc
    | on i n =>
      cases hc
      have hon := not_started h.nodup htable
      refine ⟨hon, not_stopped h.nodup h.start_le htable, ?_⟩
      intro m hm hid
      -- a note with this id would be this note, which has not started
      have hstarted : m ∈ notes := mem_of_starts ((List.prefix_append ..).trans hp) hm.1
      have hnew : n ∈ notes := mem_of_starts hp (List.mem_append_right _ (List.mem_cons_self ..))
      exact hon (h.eq_of_id hstarted hnew hid ▸ hm.1)

theorem stops (h : Scored notes) (hp : es ++ .noteOff n :: more <+: (performance origin notes).map (·.2)) :
    IsOn es n ∧ ∀ m, IsOn es m → m.id = n.id → m = n := by
  rcases next_cue hp with he | ⟨done, c, rest, htable, rfl, hc⟩
  · cases he
  · cases c with
    | close => cases hc
    | on i n => cases hc
    | off i n =>
      cases hc
      have hon := isOn_of_stops h.nodup h.start_le htable
      have hstarted : ∀ m, IsOn (eventsAt done) m → m ∈ notes := fun m hm =>
        mem_of_starts ((List.prefix_append ..).trans hp) hm.1
      exact ⟨hon, fun m hm hid => h.eq_of_id (hstarted m hm) (hstarted n hon) hid⟩

end Scored

end

/-! ## Any player that was built -/

/-- A player that was built, after any steps. -/
def Built (p : Player) : Prop :=
  ∃ s config q steps, build s config = .ok q ∧ p = q.run steps

theorem Built.step {p : Player} (h : Built p) (s : Surroundings) (x : Step) : Built (p.step s x) := by
  obtain ⟨s', config, q, steps, hb, rfl⟩ := h
  refine ⟨s', config, q, steps ++ [(s, x)], hb, ?_⟩
  simp only [run, List.foldl_append, List.foldl_cons, List.foldl_nil]

/-- Built or stepped, a player has what every built player has and every step keeps. -/
theorem Built.of_keeps {P : Player → Prop} (hkeeps : Keeps P)
    (hb : ∀ s config q, build s config = .ok q → P q) {p : Player} (h : Built p) : P p := by
  obtain ⟨s, config, q, steps, hq, rfl⟩ := h
  exact hkeeps.run (hb s config q hq) steps

theorem Built.agreed {p : Player} (h : Built p) : Agreed p :=
  h.of_keeps keeps_agreed fun _ _ _ hb => (agreed_build hb).1

theorem Built.hushed {p : Player} (h : Built p) : p.outputs.Hushed :=
  h.of_keeps keeps_hushed fun _ _ _ hb => (agreed_build hb).2

/-- A scheduler on a timer of its own with one listener, the dispatcher. -/
structure Attended (x : Scheduler) : Prop where
  tidy : x.Tidy
  listens : ∃ inbox, x.stage.listeners = [.listening inbox]

namespace Attended

variable {x : Scheduler}

theorem stop (h : Attended x) : Attended x.stop.1 :=
  ⟨h.tidy.stop, by simpa using h.listens⟩

theorem playNotes (h : Attended x) (notes : List Note) : Attended (x.playNotes notes).1 :=
  ⟨h.tidy.playNotes notes, by simpa using h.listens⟩

theorem move (h : Attended x) (m : Motion) : Attended (x.act m.act) := by
  obtain ⟨inbox, hl⟩ := h.listens
  obtain ⟨new, -, hl'⟩ := listener_move (y := (x.timer, x.stage, [])) hl m
  have hact := Recorded.scheduler_act (x.timer, x.stage, []) m.act
  exact ⟨h.tidy.act m.act, _, (congrArg (fun x : Scheduler => x.stage.listeners) hact).symm.trans hl'⟩

theorem drain (h : Attended x) : Attended { x with stage := x.stage.drain.2 } := by
  obtain ⟨inbox, hl⟩ := h.listens
  exact ⟨h.tidy, [], by simp [Stage.drain, hl]⟩

theorem dropFirst (h : Attended x) : Attended { x with stage := x.stage.dropFirst } := by
  obtain ⟨inbox, hl⟩ := h.listens
  exact ⟨h.tidy, inbox.tail, by simp [Stage.dropFirst, hl]⟩

end Attended

theorem attended_takeOrder {p : Player} (h : Attended p.scheduler) : Attended p.takeOrder.scheduler := by
  refine takeOrder_keeps (P := fun p => Attended p.scheduler) (fun _ _ h => h) ?_ h
  intro p o h
  cases o with
  | select output => exact h
  | attach => exact h
  | silence => exact h.drain

theorem attended_obey {p : Player} (h : Attended p.scheduler) : Attended p.obey.scheduler :=
  (obey_keeps (P := fun p => Attended p.scheduler) (fun _ => attended_takeOrder) h).1

theorem attended_stop {p : Player} (h : Attended p.scheduler) : Attended p.stop.1.scheduler :=
  have hasked : Attended ({ p with scheduler := p.scheduler.stop.1 }.ask .silence).scheduler := h.stop
  attended_obey hasked

theorem keeps_attended : Keeps fun p => Attended p.scheduler where
  operation s p op h := by
    generalize hq : op.result s p = q
    cases hq ▸ result_result s p op with
    | fails _ => exact h
    | stops => exact attended_stop h
    | plays _ => exact (attended_stop h).playNotes _
    | selects hr =>
      rw [← (prepare_same hr).2] at h
      exact h
    | setsVolume percent => exact h
    | connects _ => exact h
    | disconnects =>
      unfold disconnectMidi
      dsimp only
      split <;> exact h
    | setsMode mode => exact h
    | panics => exact h
  print _ _ h := h
  clock _ m h := h.move m
  event _ p h := by
    unfold takeEvent
    cases p.queued with
    | nil => exact h
    | cons e rest => exact h.dropFirst
  order _ h := attended_takeOrder h
  render _ _ h := h

theorem attended_build {s : Surroundings} {config : Config} {p : Player} (h : build s config = .ok p) :
    Attended p.scheduler := by
  rw [(build_same h).2]
  exact ⟨.empty (Nat.zero_le _) rfl rfl, [], rfl⟩

theorem Built.attended {p : Player} (h : Built p) : Attended p.scheduler :=
  h.of_keeps keeps_attended fun _ _ _ hb => attended_build hb

/-! ## The synthesizer follows the notes -/

/-- The synthesizer is selected and holds the voices of the notes that are on, of those that play;
    what has been delivered and not dispatched waits for it. -/
structure InTune (p : Player) (notes : List Note) (trace : List Moment) : Prop where
  output : p.config.output = .synth
  selected : p.outputs.selected = .synth
  attached : p.outputs.attached = true
  orders : ∀ o ∈ p.orders, o = .select .synth
  scored : Scored notes
  voiced : ∃ stream, p.outputs.stream = some stream ∧ Voiced stream.synth trace
  delivers : ∃ record waiting, Delivers notes (p.scheduler.timer, p.scheduler.stage, record) ∧
    record.map (·.2) = eventsIn trace ++ waiting ∧ p.scheduler.stage.listeners = [.listening waiting]

theorem obey_ask (p : Player) (o : Order) : (p.ask o).obey = p.obey.carryOut o := by
  simp only [obey, ask, List.foldl_append, List.foldl_cons, List.foldl_nil]

/-- The silence of a stop is carried out after all that waited. -/
theorem stop_eq (p : Player) : p.stop.1 = { p with scheduler := p.scheduler.stop.1 }.obey.carryOut .silence :=
  obey_ask { p with scheduler := p.scheduler.stop.1 } .silence

/-- After a stop nothing plays, and nothing waits for the outputs. -/
theorem scheduler_stop {p : Player} (h : Attended p.scheduler) :
    p.stop.1.scheduler.stage.deck.session = none ∧ p.stop.1.scheduler.stage.listeners = [.listening []] := by
  have hstopped : Attended ({ p with scheduler := p.scheduler.stop.1 } : Player).scheduler := h.stop
  constructor
  · have hasked : ({ p with scheduler := p.scheduler.stop.1 }.ask .silence).scheduler.stage.deck.session = none :=
      congrArg Deck.session (Scheduler.deck_stop p.scheduler)
    refine (obey_keeps (P := fun p => p.scheduler.stage.deck.session = none) ?_ hasked).1
    intro q hq
    refine takeOrder_keeps (P := fun p => p.scheduler.stage.deck.session = none) (fun _ _ h => h) ?_ hq
    intro q o hq
    cases o <;> exact hq
  · obtain ⟨inbox, hl⟩ := (attended_obey hstopped).listens
    rw [stop_eq]
    simp [carryOut, dropQueued, Stage.drain, hl]

/-- After a stop no voice is held, so the synthesizer is ready for notes that have all to come. -/
theorem inTune_stopped {p : Player} (h : Built p) (hs : p.config.output = .synth) {notes : List Note}
    (hn : Scored notes) {x : Scheduler} (hx : Delivers notes (x.timer, x.stage, []))
    (hl : x.stage.listeners = [.listening []]) : InTune { p.stop.1 with scheduler := x } notes [] := by
  have hagreed : Agreed p.stop.1 := h.agreed.stop
  have hnone : p.stop.1.orders = [] := (obey_keeps (P := fun _ => True) (fun _ _ => trivial) trivial).2
  have houtput : p.stop.1.config.output = .synth := by rw [config_stop, hs]
  obtain ⟨hopen, hattached⟩ := hagreed.attached_synth hnone houtput
  obtain ⟨stream, hstream⟩ := Option.isSome_iff_exists.mp hopen
  -- the silence of the stop is carried out last, whatever waited before it
  have hheld : stream.synth.held = [] := by
    have hhushed : ({ p with scheduler := p.scheduler.stop.1 } : Player).outputs.Hushed := h.hushed
    rw [stop_eq] at hstream
    exact (hushed_obey hhushed).silence.2 stream hstream
  exact ⟨houtput, (hagreed.selected hnone).trans houtput, hattached, by simp [hnone], hn,
    ⟨stream, hstream, .silent hheld⟩, [], [], hx, rfl, hl⟩

theorem inTune_stop {p : Player} (h : Built p) (hs : p.config.output = .synth) : InTune p.stop.1 [] [] := by
  obtain ⟨hsession, hl⟩ := scheduler_stop h.attended
  exact inTune_stopped h hs ⟨.nil, by simp⟩ (.rests (attended_stop h.attended).tidy hsession rfl) hl

theorem inTune_started {p : Player} (h : Built p) (hs : p.config.output = .synth) {notes : List Note}
    (hn : Scored notes) : InTune (p.started notes) notes [] := by
  have hl := (Scheduler.listeners_playNotes p.stop.1.scheduler notes).trans (scheduler_stop h.attended).2
  exact inTune_stopped h hs hn (.performs (stands_playNotes (attended_stop h.attended).tidy notes)) hl

theorem queued_of_listening {p : Player} {waiting : List Event}
    (hl : p.scheduler.stage.listeners = [.listening waiting]) : p.queued = waiting := by
  simp [queued, hl]

namespace InTune

variable {p q : Player} {notes : List Note} {trace : List Moment}

/-- What leaves the scheduler alone, and the synthesizer selected and attached with its voices, keeps
    it in tune. -/
theorem of_outputs (h : InTune p notes trace) (hsched : q.scheduler = p.scheduler) (hout : q.config.output = .synth)
    (horders : ∀ o ∈ q.orders, o = .select .synth) (hsel : q.outputs.selected = p.outputs.selected)
    (hatt : q.outputs.attached = p.outputs.attached)
    (hvoiced : ∃ stream, q.outputs.stream = some stream ∧ Voiced stream.synth trace) : InTune q notes trace :=
  ⟨hout, hsel.trans h.selected, hatt.trans h.attached, horders, h.scored, hvoiced, hsched ▸ h.delivers⟩

theorem setVolume (h : InTune p notes trace) (percent : Nat) : ∃ stream,
    (p.outputs.onSynth (·.setVolume percent)).stream = some stream ∧ Voiced stream.synth trace := by
  obtain ⟨stream, hs, hv⟩ := h.voiced
  exact ⟨{ stream with synth := stream.synth.setVolume percent }, by simp [Outputs.onSynth, hs], hv.setVolume percent⟩

/-- So does an operation that plays and stops nothing, if it leaves the synthesizer selected. -/
theorem call (h : InTune p notes trace) {s : Surroundings} {op : Operation} (hn : op.notes? s = none) (hop : op ≠ .stop)
    (hout : (op.result s p).config.output = .synth) : InTune (op.result s p) notes trace := by
  generalize hq : op.result s p = q at hout ⊢
  cases hq ▸ result_result s p op with
  | fails _ => exact h
  | stops => exact absurd rfl hop
  | plays hplays =>
    rw [hn] at hplays
    cases hplays
  | @selects output ready hr =>
    cases (show output = .synth from hout)
    obtain ⟨opened, hopened, rfl⟩ := prepare_synth_ok hr
    obtain ⟨stream, hs, -⟩ := h.voiced
    rcases openAudio_ok hopened with ⟨-, rfl⟩ | ⟨hnone, -⟩
    · refine h.of_outputs rfl hout ?_ rfl rfl (h.setVolume _)
      intro o ho
      rcases List.mem_append.mp ho with ho | ho
      · exact h.orders o ho
      · exact List.mem_singleton.mp ho
    · rw [hs] at hnone
      cases hnone
  | setsVolume percent => exact h.of_outputs rfl hout h.orders rfl rfl (h.setVolume _)
  | connects _ => exact h.of_outputs rfl hout h.orders rfl rfl h.voiced
  | disconnects =>
    have hne : p.config.output ≠ .midi := by simp [h.output]
    have heq : p.disconnectMidi
        = { p with config := { p.config with port := none }, outputs := p.outputs.sent p.outputs.midi.disconnect } :=
      if_neg hne
    rw [heq] at hout ⊢
    exact h.of_outputs rfl hout h.orders rfl rfl h.voiced
  | setsMode mode => exact h.of_outputs rfl hout h.orders rfl rfl h.voiced
  | panics => exact h.of_outputs rfl hout h.orders rfl rfl h.voiced

theorem print (h : InTune p notes trace) (lines : List String) : InTune (p.print lines) notes trace :=
  h.of_outputs rfl h.output h.orders rfl rfl h.voiced

theorem move (h : InTune p notes trace) (m : Motion) :
    InTune { p with scheduler := p.scheduler.act m.act } notes trace := by
  obtain ⟨record, waiting, hd, hrecord, hl⟩ := h.delivers
  obtain ⟨new, hnew, hl'⟩ := listener_move (y := (p.scheduler.timer, p.scheduler.stage, record)) hl m
  have hmoved := hd.move h.scored.start_le m
  have hact := Recorded.scheduler_act (p.scheduler.timer, p.scheduler.stage, record) m.act
  refine ⟨h.output, h.selected, h.attached, h.orders, h.scored, h.voiced, record ++ new, waiting ++ new.map (·.2),
    ?_, ?_, ?_⟩
  · show Delivers notes ((p.scheduler.act m.act).timer, (p.scheduler.act m.act).stage, record ++ new)
    rw [← hnew, ← show (Recorded.act _ m.act).scheduler = p.scheduler.act m.act from hact]
    exact hmoved
  · rw [List.map_append, hrecord, List.append_assoc]
  · exact (congrArg (fun x : Scheduler => x.stage.listeners) hact).symm.trans hl'

/-- The only orders that wait select what is selected. -/
theorem order (h : InTune p notes trace) : InTune p.takeOrder notes trace := by
  cases ho : p.orders with
  | nil =>
    rw [takeOrder_of_nil ho]
    exact h
  | cons o rest =>
    have horders := h.orders
    rw [ho] at horders
    have hselect : o = .select .synth := horders o (List.mem_cons_self ..)
    subst hselect
    have hsame : p.outputs.select .synth = p.outputs := if_pos h.selected.symm
    have heq : p.takeOrder = { p with orders := rest } := by
      rw [takeOrder_of_cons ho]
      simp only [carryOut, hsame]
    rw [heq]
    exact h.of_outputs rfl h.output (fun o ho => horders o (List.mem_cons_of_mem _ ho)) rfl rfl h.voiced

theorem render (h : InTune p notes trace) (frames : Nat) :
    InTune { p with outputs := p.outputs.onSynth fun x => (x.meter frames).2 } notes (trace ++ [.samples frames]) := by
  obtain ⟨stream, hs, hv⟩ := h.voiced
  obtain ⟨record, waiting, hd, hrecord, hl⟩ := h.delivers
  refine ⟨h.output, h.selected, h.attached, h.orders, h.scored, ?_, record, waiting, hd, ?_, hl⟩
  · exact ⟨{ stream with synth := (stream.synth.meter frames).2 }, by simp [Outputs.onSynth, hs],
      hv.render Meter.note frames .zero⟩
  · rw [eventsIn_samples, hrecord]

/-- What was dispatched and what waits begin the performance of the notes that play. -/
theorem begins (h : InTune p notes trace) :
    ∃ origin, eventsIn trace ++ p.queued <+: (performance origin notes).map (·.2) := by
  obtain ⟨record, waiting, hd, hrecord, hl⟩ := h.delivers
  rw [queued_of_listening hl, ← hrecord]
  exact hd.begins

theorem stream_takeEvent (h : InTune p notes trace) (s : Surroundings) {stream : Stream}
    (hs : p.outputs.stream = some stream) {e : Event} {rest : List Event} (hq : p.queued = e :: rest) :
    (p.takeEvent s).outputs.stream = some { stream with synth := stream.synth.heard e } := by
  rw [takeEvent_cons hq]
  simp only [dispatch, Outputs.dispatch, Outputs.forward, h.selected]
  cases e <;> simp [Outputs.onAttached, h.attached, Outputs.onSynth, hs, Synth.heard]

theorem event (h : InTune p notes trace) (s : Surroundings) {e : Event} {rest : List Event}
    (hq : p.queued = e :: rest) : InTune (p.takeEvent s) notes (trace ++ [.event e]) := by
  obtain ⟨stream, hs, hv⟩ := h.voiced
  obtain ⟨origin, hbegins⟩ := h.begins
  rw [hq] at hbegins
  have hvoiced : Voiced (stream.synth.heard e) (trace ++ [.event e]) := by
    cases e with
    | noteOn n =>
      obtain ⟨hon, hoff, hid⟩ := h.scored.starts hbegins
      exact (hv.noteOn hon hoff hid).1
    | noteOff n =>
      obtain ⟨hon, hid⟩ := h.scored.stops hbegins
      exact (hv.noteOff hon hid).1
    | finished => exact hv.finished
  have halike := p.outputs.alike_dispatch s.palette e
  obtain ⟨record, waiting, hd, hrecord, hl⟩ := h.delivers
  have hwaiting : waiting = e :: rest := (queued_of_listening hl).symm.trans hq
  have hstream := h.stream_takeEvent s hs hq
  rw [takeEvent_cons hq] at hstream ⊢
  refine ⟨h.output, halike.selected.trans h.selected, halike.attached.trans h.attached, h.orders, h.scored,
    ⟨_, hstream, hvoiced⟩, record, rest, ?_, ?_, ?_⟩
  · exact hd.of_eq rfl rfl rfl
  · rw [hrecord, hwaiting, eventsIn_event, List.append_assoc, List.singleton_append]
  · show p.scheduler.stage.dropFirst.listeners = _
    simp [Stage.dropFirst, hl, hwaiting]

end InTune

/-! ## Scores on the synthesizer -/

/-- Scores are played and stopped on the synthesizer, one after another: the notes that play, if
    they were not stopped, and what has happened to the synthesizer since they began. -/
inductive Sings : Player → List Note → List Moment → Prop
  | plays {s : Surroundings} {p : Player} {op : Operation} {notes : List Note} : Built p → p.config.output = .synth →
      op.notes? s = some notes → Sings (op.result s p) notes []
  | stops {p : Player} : Built p → p.config.output = .synth → Sings p.stop.1 [] []
  /-- Any other operation that leaves the synthesizer selected. -/
  | calls {s : Surroundings} {p : Player} {op : Operation} {notes : List Note} {trace : List Moment} :
      Sings p notes trace → op.notes? s = none → op ≠ .stop → (op.result s p).config.output = .synth →
      Sings (op.result s p) notes trace
  /-- A command line that does no operation. -/
  | prints {s : Surroundings} {p : Player} {text : Text} {lines : List String} {notes : List Note}
      {trace : List Moment} : Sings p notes trace → (Console.Commands.registry.run s p text).1 = p.print lines →
      Sings (p.print lines) notes trace
  | moves {p : Player} {notes : List Note} {trace : List Moment} (m : Motion) :
      Sings p notes trace → Sings { p with scheduler := p.scheduler.act m.act } notes trace
  | takes {p : Player} {e : Event} {rest : List Event} {notes : List Note} {trace : List Moment} (s : Surroundings) :
      Sings p notes trace → p.queued = e :: rest → Sings (p.takeEvent s) notes (trace ++ [.event e])
  | obeys {p : Player} {notes : List Note} {trace : List Moment} : Sings p notes trace → Sings p.takeOrder notes trace
  | renders {p : Player} {notes : List Note} {trace : List Moment} (frames : Nat) : Sings p notes trace →
      Sings { p with outputs := p.outputs.onSynth fun x => (x.meter frames).2 } notes (trace ++ [.samples frames])

theorem result_of_notes? {s : Surroundings} {p : Player} {op : Operation} {notes : List Note}
    (h : op.notes? s = some notes) : op.result s p = p.started notes := by
  generalize hq : op.result s p = q
  cases hq ▸ result_result s p op with
  | plays hplays =>
    rw [h] at hplays
    cases hplays
    rfl
  | fails hn =>
    rw [h] at hn
    cases hn
  | stops => cases h
  | selects _ => cases h
  | setsVolume _ => cases h
  | connects _ => cases h
  | disconnects => cases h
  | setsMode _ => cases h
  | panics => cases h

theorem scored_of_notes? {s : Surroundings} {op : Operation} {notes : List Note} (h : op.notes? s = some notes) :
    Scored notes := by
  cases op with
  | playSource source => exact .of_compile (compile_of_toOption h)
  | playFile path =>
    obtain ⟨source, -, hc⟩ := Option.bind_eq_some_iff.mp h
    exact .of_compile (compile_of_toOption hc)
  | _ => cases h

namespace Sings

variable {p : Player} {notes : List Note} {trace : List Moment}

theorem built (h : Sings p notes trace) : Built p := by
  induction h with
  | @plays s p op notes hb _ _ => exact hb.step s (.call op)
  | stops hb _ => exact Exists.elim hb fun s _ => hb.step s (.call .stop)
  | @calls s p op notes trace _ _ _ _ ih => exact ih.step s (.call op)
  | @prints s p text lines notes trace _ hline ih => exact hline ▸ ih.step s (.line text)
  | moves m _ ih => exact Exists.elim ih fun s _ => ih.step s (.clock m)
  | takes s _ _ ih => exact ih.step s .event
  | obeys _ ih => exact Exists.elim ih fun s _ => ih.step s .order
  | renders frames _ ih => exact Exists.elim ih fun s _ => ih.step s (.render frames)

theorem inTune (h : Sings p notes trace) : InTune p notes trace := by
  induction h with
  | plays hb hs hn =>
    rw [result_of_notes? hn]
    exact inTune_started hb hs (scored_of_notes? hn)
  | stops hb hs => exact inTune_stop hb hs
  | calls _ hn hop hout ih => exact ih.call hn hop hout
  | prints _ _ ih => exact ih.print _
  | moves m _ ih => exact ih.move m
  | takes s _ hq ih => exact ih.event s hq
  | obeys _ ih => exact ih.order
  | renders frames _ ih => exact ih.render frames

/-- Whatever happens next, they sing on, if the synthesizer is left selected. -/
theorem step (h : Sings p notes trace) (s : Surroundings) (x : Step) (hout : (p.step s x).config.output = .synth) :
    ∃ notes' trace', Sings (p.step s x) notes' trace' := by
  have hcall : ∀ op : Operation, (op.result s p).config.output = .synth →
      ∃ notes' trace', Sings (op.result s p) notes' trace' := by
    intro op hout
    cases hn : op.notes? s with
    | some played => exact ⟨_, _, .plays h.built h.inTune.output hn⟩
    | none =>
      by_cases hop : op = .stop
      · subst hop
        exact ⟨_, _, .stops h.built h.inTune.output⟩
      · exact ⟨_, _, .calls h hn hop hout⟩
  cases x with
  | call op => exact hcall op hout
  | clock m => exact ⟨_, _, .moves m h⟩
  | order => exact ⟨_, _, .obeys h⟩
  | render frames => exact ⟨_, _, .renders frames h⟩
  | event =>
    cases hq : p.queued with
    | nil =>
      refine ⟨notes, trace, ?_⟩
      rwa [Player.step, takeEvent_nil hq]
    | cons e rest => exact ⟨_, _, .takes s h hq⟩
  | line text =>
    show ∃ notes' trace', Sings (Console.Commands.registry.run s p text).1 notes' trace'
    change (Console.Commands.registry.run s p text).1.config.output = .synth at hout
    generalize hr : Console.Commands.registry.run s p text = r at hout ⊢
    cases hr ▸ Console.effect_run s p text with
    | operates op _ => exact hcall op hout
    | prints lines => exact ⟨_, _, .prints h (congrArg Prod.fst hr)⟩
    | answers _ => exact ⟨_, _, h⟩

theorem run (h : Sings p notes trace) (steps : List (Surroundings × Step))
    (hout : ∀ done rest, steps = done ++ rest → (p.run done).config.output = .synth) :
    ∃ notes' trace', Sings (p.run steps) notes' trace' := by
  induction steps generalizing p notes trace with
  | nil => exact ⟨notes, trace, h⟩
  | cons x steps ih =>
    obtain ⟨notes', trace', h'⟩ := h.step x.1 x.2 (hout [x] steps rfl)
    exact ih h' fun done rest hsplit => hout (x :: done) rest (congrArg (x :: ·) hsplit)

end Sings

/-- At every point, however much was dispatched of what the notes that play deliver: the keys of the
    voices held are the ids of those audible notes that are on, and no two voices have one key. A
    note that starts next displaces none of them; one that stops next lets the voice die away that
    its own start struck, as many samples later as were rendered since. -/
theorem held_are_sounding (p : Player) (notes : List Note) (trace : List Moment) (h : Sings p notes trace) :
    (∃ origin, eventsIn trace ++ p.queued <+: (performance origin notes).map (·.2)) ∧
    ∃ stream, p.outputs.stream = some stream ∧ (stream.synth.held.map (·.1)).Nodup ∧
      (∀ key, key ∈ stream.synth.held.map (·.1) ↔
        ∃ n ∈ notes, IsOn (eventsIn trace) n ∧ Audible Float32 n ∧ key = n.id) ∧
      ∀ s e rest, p.queued = e :: rest → ∃ stream', (p.takeEvent s).outputs.stream = some stream' ∧
        (∀ n, e = .noteOn n → n.id ∉ stream.synth.held.map (·.1) ∧ stream'.synth.releasing = stream.synth.releasing) ∧
        ∀ n, e = .noteOff n →
          let v := voiceOf stream.synth.settings stream.synth.rate trace n
          (Audible Float32 n →
            (n.id, v) ∈ stream.synth.held ∧ stream'.synth.releasing = stream.synth.releasing ++ [v.release]) ∧
          (¬ Audible Float32 n → stream'.synth.releasing = stream.synth.releasing) := by
  have hp := h.inTune
  obtain ⟨stream, hs, hv⟩ := hp.voiced
  obtain ⟨origin, hbegins⟩ := hp.begins
  refine ⟨⟨origin, hbegins⟩, stream, hs, hv.keys, ?_, ?_⟩
  · intro key
    constructor
    · intro hkey
      obtain ⟨⟨key, v⟩, hmem, rfl⟩ := List.mem_map.mp hkey
      obtain ⟨n, hon, ha, hid, -⟩ := (hv.mem _ _).mp hmem
      exact ⟨n, mem_of_starts ((List.prefix_append ..).trans hbegins) hon.1, hon, ha, hid⟩
    · intro hn
      obtain ⟨n, -, hon, ha, rfl⟩ := hn
      exact List.mem_map_of_mem ((hv.mem _ _).mpr ⟨n, hon, ha, rfl, rfl⟩)
  · intro s e rest hq
    rw [hq] at hbegins
    refine ⟨_, hp.stream_takeEvent s hs hq, ?_, ?_⟩
    · rintro n rfl
      obtain ⟨hon, hoff, hid⟩ := hp.scored.starts hbegins
      exact (hv.noteOn hon hoff hid).2
    · rintro n rfl
      obtain ⟨hon, hid⟩ := hp.scored.stops hbegins
      exact (hv.noteOff hon hid).2

/-- A note on the synthesizer, after another one that was cut off. -/
theorem held_are_sounding_replaced : let n : Note := ⟨0, "c1".toList, 0, 127, 60, 0, 4000⟩
    ∃ p stream, Sings p [n] [.event (.noteOn n), .samples 64] ∧ p.outputs.stream = some stream ∧
      ∀ key, key ∈ stream.synth.held.map (·.1) ↔ Audible Float32 n ∧ key = n.id := by
  intro n
  let s : Surroundings := ⟨⟨[], []⟩, .ports [], some ⟨.f32, 44100, 2, none⟩, .plain⟩
  let config : Config := { Config.default with output := .synth }
  let stream : Stream := ⟨(Synth.silent (Signal.ofNat 44100)).setVolume 50, .f32, 2⟩
  let q : Player := ⟨config, Scheduler.empty.subscribe, { Outputs.start .synth .perTrack with stream := some stream },
    [.attach, .select .synth]⟩
  let before : List (Surroundings × Step) :=
    [(s, .call (.playSource "e1".toList)), (s, .clock (.advance 0)), (s, .event)]
  let x := (Operation.playSource "c1".toList).result s (q.run before)
  let y : Player := { x with scheduler := x.scheduler.act (Motion.advance 0).act }
  have hbuilt : Built (q.run before) := ⟨s, config, q, before, rfl, rfl⟩
  have hc : compile "c1".toList = .ok [n] := compile_of_toOption (by decide +kernel)
  have houtput : (q.run before).config.output = .synth := by decide +kernel
  have hqueued : y.queued = [.noteOn n] := by decide +kernel
  have hplays : Sings x [n] [] := .plays hbuilt houtput (by rw [Operation.notes?, hc]; rfl)
  have hsings : Sings y [n] [] := .moves (.advance 0) hplays
  have hrendered := Sings.renders 64 (Sings.takes s hsings hqueued)
  obtain ⟨-, stream', hs, -, hkeys, -⟩ := held_are_sounding _ _ _ hrendered
  refine ⟨_, stream', hrendered, hs, fun key => (hkeys key).trans ?_⟩
  simp [IsOn, eventsIn, Moment.event?]

end Ostinato.Player
