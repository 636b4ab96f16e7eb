import Ostinato.Proofs.Player.Pipeline

/-!
  Ostinato.Proofs.Player.Flush: stopping empties the whole pipeline.

  Whatever the order in which client, timer and dispatcher move:
  - `Accounted`: what the scheduler delivered is what the dispatcher took, in this order, and
    after it what waits; what the dispatcher took it dispatched or dropped;
  - `Turn`: how far client and dispatcher are with a stop. The scheduler stops before silence
    is asked for, so nothing new waits once the queue was drained, and the answer comes after
    what sounds was released; until the client goes on to play, nothing changes that
    (`Flushed`);
  - what is dispatched later is of a session that starts later (`taken_newer`, `NothingStale`).
-/

namespace Ostinato.Player

open Playback Score

namespace Pipeline

/-! ## The scheduler's part -/

def deck (w : Pipeline) : Deck := w.player.scheduler.stage.deck

def Idle (w : Pipeline) : Prop := w.deck.session = none

/-! ## What becomes of what is delivered -/

structure Accounted (w : Pipeline) : Prop where
  waiting : ∃ waiting, w.delivered = w.taken.map (·.1) ++ waiting ∧
    w.player.scheduler.stage.listeners = [.listening (waiting.map (·.2))]
  dispatched : w.player.outputs.traffic.events = (w.taken.filter (·.2 = .dispatched)).map (·.1.2)

namespace Accounted

variable {w : Pipeline}

theorem queued (h : Accounted w) : ∃ waiting, w.delivered = w.taken.map (·.1) ++ waiting ∧
    w.player.queued = waiting.map (·.2) := by
  obtain ⟨waiting, hd, hl⟩ := h.waiting
  exact ⟨waiting, hd, by simp [Player.queued, hl]⟩

theorem of_eq {w' : Pipeline} (h : Accounted w) (hd : w'.delivered = w.delivered) (ht : w'.taken = w.taken)
    (hl : w'.player.scheduler.stage.listeners = w.player.scheduler.stage.listeners)
    (he : w'.player.outputs.traffic.events = w.player.outputs.traffic.events) : Accounted w' := by
  refine ⟨?_, ?_⟩
  · rw [hd, ht, hl]
    exact h.waiting
  · rw [he, ht]
    exact h.dispatched

end Accounted

/-! Only a dispatch adds to the events that left the outputs. -/

@[simp] theorem events_sent (o : Outputs) (s : Midi.Sent) : (o.sent s).traffic.events = o.traffic.events := rfl

@[simp] theorem events_onAttached (o : Outputs) (f : Sound.Synth Float32 → Sound.Synth Float32) :
    (o.onAttached f).traffic.events = o.traffic.events := by
  unfold Outputs.onAttached
  split <;> rfl

@[simp] theorem events_silence (o : Outputs) : o.silence.traffic.events = o.traffic.events := by
  simp [Outputs.silence]

@[simp] theorem events_select (o : Outputs) (output : OutputMode) :
    (o.select output).traffic.events = o.traffic.events := by
  unfold Outputs.select
  split
  · rfl
  · exact events_silence o

@[simp] theorem events_forward (p : Palette) (o : Outputs) (e : Event) :
    (o.forward p e).traffic.events = o.traffic.events := by
  unfold Outputs.forward
  split
  · rfl
  · split <;> simp
  · rfl

@[simp] theorem events_dispatch (p : Palette) (o : Outputs) (e : Event) :
    (o.dispatch p e).traffic.events = o.traffic.events ++ [e] := by
  show (o.forward p e).traffic.events ++ [e] = _
  rw [events_forward]

theorem events_perform (p : Player) (a : Action) :
    (a.perform p).outputs.traffic.events = p.outputs.traffic.events := by
  cases a with
  | connect system wanted =>
    simp only [Action.perform]
    cases p.outputs.midi.connect system wanted <;> rfl
  | _ => rfl

theorem accounted_start (config : Config) : Accounted (start config) :=
  ⟨⟨[], rfl, rfl⟩, rfl⟩

inductive Effect (w w' : Pipeline) : Prop
  | moves (m : AnyTimer.Move) : (∀ change, m ≠ .listen change) → w'.anyTimer = w.anyTimer.step m → w'.taken = w.taken →
      w'.player.outputs.traffic.events = w.player.outputs.traffic.events → Effect w w'
  | takes (x : Nat × Event) (rest : List (Nat × Event)) (fate : Fate) (change : List Listener → List Listener) :
      w.delivered = w.taken.map (·.1) ++ x :: rest → w'.anyTimer = w.anyTimer.step (.listen change) →
      change w.player.scheduler.stage.listeners = [.listening (rest.map (·.2))] → w'.taken = w.taken ++ [(x, fate)] →
      w'.player.outputs.traffic.events
        = w.player.outputs.traffic.events ++ (if fate = .dispatched then [x.2] else []) → Effect w w'
  | rests : w'.anyTimer = w.anyTimer → w'.taken = w.taken →
      w'.player.outputs.traffic.events = w.player.outputs.traffic.events → Effect w w'

theorem effect_goOn (w : Pipeline) : Effect w w.goOn := by
  cases ht : w.todo with
  | nil =>
    simp only [goOn, ht]
    exact .rests rfl rfl rfl
  | cons a rest =>
    cases a with
    | await =>
      simp only [goOn, ht]
      split <;> exact .rests rfl rfl rfl
    | stop =>
      simp only [goOn, ht]
      exact .moves .stop (by simp) rfl rfl rfl
    | play notes =>
      simp only [goOn, ht]
      exact .moves (.play notes) (by simp) rfl rfl rfl
    | connect system wanted =>
      simp only [goOn, ht]
      refine .rests ?_ rfl (events_perform w.player _)
      simp only [Action.perform]
      cases w.player.outputs.midi.connect system wanted <;> rfl
    | _ =>
      simp only [goOn, ht]
      exact .rests rfl rfl (events_perform w.player _)

theorem effect_takeOrder (w : Pipeline) : Effect w w.takeOrder := by
  cases ho : w.player.orders with
  | nil =>
    simp only [takeOrder, ho, Player.takeOrder]
    exact .rests rfl rfl rfl
  | cons o rest =>
    cases o with
    | silence =>
      simp only [takeOrder, ho]
      exact .rests rfl rfl rfl
    | attach =>
      simp only [takeOrder, ho, Player.takeOrder]
      exact .rests rfl rfl rfl
    | select output =>
      simp only [takeOrder, ho, Player.takeOrder]
      exact .rests rfl rfl (events_select ..)

/-- The first event that waits is the first that was delivered and not taken. -/
theorem next_of_waiting {w : Pipeline} {waiting : List (Nat × Event)}
    (hd : w.delivered = w.taken.map (·.1) ++ waiting) :
    w.delivered[w.taken.length]? = waiting.head? := by
  rw [hd, List.getElem?_append_right (by simp)]
  cases waiting <;> simp

theorem effect_takeEvent {w : Pipeline} (h : Accounted w) (s : Surroundings) :
    Effect w (w.took (w.player.takeEvent s) .dispatched) := by
  obtain ⟨waiting, hd, hl⟩ := h.waiting
  have hqueued : w.player.queued = waiting.map (·.2) := by simp [Player.queued, hl]
  have hnext := next_of_waiting hd
  cases waiting with
  | nil =>
    rw [takeEvent_nil hqueued]
    exact .rests rfl (by simp [took, hnext]) rfl
  | cons x rest =>
    rw [takeEvent_cons hqueued]
    refine .takes x rest .dispatched _ hd rfl ?_ (by simp [took, hnext]) (events_dispatch ..)
    simp [hl]

theorem effect_flush {w : Pipeline} (h : Accounted w) : Effect w w.flush := by
  obtain ⟨waiting, hd, hl⟩ := h.waiting
  have hqueued : w.player.queued = waiting.map (·.2) := by simp [Player.queued, hl]
  have hnext := next_of_waiting hd
  cases hp : w.phase with
  | ready =>
    simp only [flush, hp]
    exact .rests rfl rfl rfl
  | releasing =>
    simp only [flush, hp]
    exact .rests rfl rfl (events_silence _)
  | answering =>
    simp only [flush, hp]
    exact .rests rfl rfl rfl
  | draining =>
    cases waiting with
    | nil =>
      simp only [flush, hp, hqueued, List.map_nil, List.isEmpty_nil, if_true]
      exact .rests rfl rfl rfl
    | cons x rest =>
      simp only [flush, hp, hqueued, List.map_cons, List.isEmpty_cons, Bool.false_eq_true, if_false]
      refine .takes x rest .dropped _ hd rfl ?_ (by simp [took, hnext]) (by simp [took])
      simp [hl]

theorem step_effect {w : Pipeline} (h : Accounted w) (m : Move) : Effect w (w.step m) := by
  cases m with
  | begin s op =>
    simp only [step]
    split <;> exact .rests rfl rfl rfl
  | act => exact effect_goOn w
  | fire e => exact .moves (.fire e) (by simp) rfl rfl rfl
  | tick moment => exact .moves (.tick moment) (by simp) rfl rfl rfl
  | takeEvent s =>
    simp only [step]
    split
    · exact effect_takeEvent h s
    · exact .rests rfl rfl rfl
  | takeOrder =>
    simp only [step]
    split
    · exact effect_takeOrder w
    · exact .rests rfl rfl rfl
  | flush => exact effect_flush h

/-- A move keeps the account; what was taken stays taken. -/
theorem step_accounted {w : Pipeline} (h : Accounted w) (m : Move) :
    Accounted (w.step m) ∧ ∃ new, (w.step m).taken = w.taken ++ new := by
  obtain ⟨waiting, hd, hl⟩ := h.waiting
  cases step_effect h m with
  | moves u hu htimer htaken hevents =>
    obtain ⟨new, hheard, hlisteners⟩ := AnyTimer.listeners_step w.anyTimer hu
    rw [← htimer] at hheard hlisteners
    refine ⟨⟨⟨waiting ++ new, ?_, ?_⟩, ?_⟩, [], by rw [htaken, List.append_nil]⟩
    · rw [htaken, ← List.append_assoc, ← hd]
      exact hheard
    · refine hlisteners.trans ?_
      show w.player.scheduler.stage.listeners.map _ = _
      rw [hl, List.map_singleton, Listener.after_listening, List.map_append]
    · rw [hevents, htaken]
      exact h.dispatched
  | takes x rest fate change hdelivered htimer hchange htaken hevents =>
    refine ⟨⟨⟨rest, ?_, ?_⟩, ?_⟩, _, htaken⟩
    · rw [htaken, List.map_append, List.append_assoc]
      exact (congrArg AnyTimer.heard htimer).trans hdelivered
    · exact (congrArg (fun u : AnyTimer => u.scheduler.stage.listeners) htimer).trans hchange
    · rw [hevents, htaken, h.dispatched]
      cases fate <;> simp
  | rests htimer htaken hevents =>
    refine ⟨⟨⟨waiting, ?_, ?_⟩, ?_⟩, [], by rw [htaken, List.append_nil]⟩
    · rw [htaken]
      exact (congrArg AnyTimer.heard htimer).trans hd
    · exact (congrArg (fun u : AnyTimer => u.scheduler.stage.listeners) htimer).trans hl
    · rw [hevents, htaken]
      exact h.dispatched

theorem run_accounted {w : Pipeline} (h : Accounted w) (moves : List Move) :
    Accounted (w.run moves) ∧ ∃ new, (w.run moves).taken = w.taken ++ new := by
  induction moves generalizing w with
  | nil => exact ⟨h, [], (List.append_nil _).symm⟩
  | cons m moves ih =>
    obtain ⟨h1, new1, ht1⟩ := step_accounted h m
    obtain ⟨h2, new2, ht2⟩ := ih h1
    refine ⟨h2, new1 ++ new2, ?_⟩
    rw [run_cons, ht2, ht1, List.append_assoc]

/-- What a pipeline's scheduler does, one on any timer can do, with a change of who listens
    for each event taken. -/
theorem anyTimer_run {w : Pipeline} (h : Accounted w) (moves : List Move) :
    ∃ more, (w.run moves).anyTimer = w.anyTimer.run more := by
  induction moves generalizing w with
  | nil => exact ⟨[], rfl⟩
  | cons m moves ih =>
    have hstep : ∃ more, (w.step m).anyTimer = w.anyTimer.run more := by
      cases step_effect h m with
      | moves u _ htimer => exact ⟨[u], htimer⟩
      | takes x rest fate change _ htimer => exact ⟨[.listen change], htimer⟩
      | rests htimer => exact ⟨[], htimer⟩
    obtain ⟨more, hmore⟩ := hstep
    obtain ⟨more', hmore'⟩ := ih (step_accounted h m).1
    refine ⟨more ++ more', ?_⟩
    rw [run_cons, hmore', hmore, AnyTimer.run_append]

theorem anyTimer_start (config : Config) (moves : List Move) :
    ∃ more, ((start config).run moves).anyTimer = AnyTimer.start.run more := by
  obtain ⟨more, h⟩ := anyTimer_run (accounted_start config) moves
  refine ⟨.listen (· ++ [.listening []]) :: more, ?_⟩
  rw [h]
  rfl

/-! ## Client and dispatcher in turn -/

/-- Nothing plays, nothing waits and nothing sounds, though voices may die away. -/
structure Flushed (w : Pipeline) : Prop where
  idle : w.Idle
  orders : w.player.orders = []
  queued : w.player.queued = []
  active : w.player.outputs.midi.active = []
  held : w.player.outputs.attached = true → ∀ stream, w.player.outputs.stream = some stream → stream.synth.held = []

/-- No silence is under way. -/
structure Quiet (w : Pipeline) : Prop where
  orders : .silence ∉ w.player.orders
  phase : w.phase = .ready
  answered : w.answered = false

theorem Flushed.no_order {w : Pipeline} {o : Order} {rest : List Order} (ho : w.player.orders = o :: rest) :
    ¬ Flushed w := by
  intro hf
  rw [hf.orders] at ho
  cases ho

/-- How far the silence is that the client waits for. -/
inductive Answering (w : Pipeline) : Prop
  | asked (before : List Order) : w.phase = .ready → w.answered = false →
      w.player.orders = before ++ [.silence] → .silence ∉ before → Answering w
  | draining : w.phase = .draining → w.answered = false → w.player.orders = [] → Answering w
  | releasing : w.phase = .releasing → w.answered = false → w.player.orders = [] → w.player.queued = [] → Answering w
  | released : w.phase = .answering → w.answered = false → Flushed w → Answering w
  | answered : w.phase = .ready → w.answered = true → Flushed w → Answering w

inductive Turn (w : Pipeline) : Prop
  | free : (∀ a ∈ w.todo, a.isPlain = true) → Quiet w → Turn w
  | stops (tail : List Action) : w.todo = Operation.flushing ++ tail → IsSequel tail → Quiet w → Turn w
  | asks (tail : List Action) : w.todo = .ask .silence :: .await :: tail → IsSequel tail → Quiet w → w.Idle → Turn w
  | waits (tail : List Action) : w.todo = .await :: tail → IsSequel tail → w.Idle → Answering w → Turn w
  | plays (notes : List Note) : w.todo = [.play notes] → Quiet w → Flushed w → Turn w

namespace Turn

variable {w w' : Pipeline}

theorem quiet_of_eq (h : Quiet w) (hp : w'.phase = w.phase) (ha : w'.answered = w.answered)
    (ho : w'.player.orders = w.player.orders) : Quiet w' :=
  ⟨ho ▸ h.orders, hp ▸ h.phase, ha ▸ h.answered⟩

/-- A move that touches neither the client, nor the orders, nor how far the dispatcher is. -/
theorem of_eq (h : Turn w) (ht : w'.todo = w.todo) (hp : w'.phase = w.phase) (ha : w'.answered = w.answered)
    (ho : w'.player.orders = w.player.orders) (hi : w.Idle → w'.Idle)
    (hq : w.Idle → w.player.queued = [] → w'.player.queued = []) (hf : Flushed w → Flushed w') : Turn w' := by
  cases h with
  | free hplain hquiet => exact .free (ht ▸ hplain) (quiet_of_eq hquiet hp ha ho)
  | stops tail htodo htail hquiet => exact .stops tail (ht ▸ htodo) htail (quiet_of_eq hquiet hp ha ho)
  | asks tail htodo htail hquiet hidle =>
    exact .asks tail (ht ▸ htodo) htail (quiet_of_eq hquiet hp ha ho) (hi hidle)
  | plays notes htodo hquiet hflushed => exact .plays notes (ht ▸ htodo) (quiet_of_eq hquiet hp ha ho) (hf hflushed)
  | waits tail htodo htail hidle hans =>
    refine .waits tail (ht ▸ htodo) htail (hi hidle) ?_
    cases hans with
    | asked before h1 h2 h3 h4 => exact .asked before (hp ▸ h1) (ha ▸ h2) (ho ▸ h3) h4
    | draining h1 h2 h3 => exact .draining (hp ▸ h1) (ha ▸ h2) (ho ▸ h3)
    | releasing h1 h2 h3 h4 => exact .releasing (hp ▸ h1) (ha ▸ h2) (ho ▸ h3) (hq hidle h4)
    | released h1 h2 h3 => exact .released (hp ▸ h1) (ha ▸ h2) (hf h3)
    | answered h1 h2 h3 => exact .answered (hp ▸ h1) (ha ▸ h2) (hf h3)

/-- The timer delivers nothing while nothing plays. -/
theorem timer (h : Turn w) {m : AnyTimer.Move} (hm : m.keepsSession = true) (hl : ∀ change, m ≠ .listen change) :
    Turn (w.withAnyTimer (w.anyTimer.step m)) := by
  have hquiet : w.Idle → (w.withAnyTimer (w.anyTimer.step m)).Idle ∧
      (w.withAnyTimer (w.anyTimer.step m)).player.queued = w.player.queued := by
    intro hidle
    obtain ⟨hdeck, hheard⟩ := AnyTimer.step_idle (w := w.anyTimer) hidle hm
    obtain ⟨new, hnew, hlisteners⟩ := AnyTimer.listeners_step w.anyTimer hl
    have hnil : new = [] := by
      rw [hheard] at hnew
      exact List.self_eq_append_right.mp hnew
    refine ⟨?_, ?_⟩
    · show (w.anyTimer.step m).deck.session = none
      rw [hdeck]
      exact hidle
    · subst hnil
      simp only [List.map_nil, Listener.after_nil, List.map_id'] at hlisteners
      simp only [Player.queued, withAnyTimer, hlisteners]
      rfl
  refine h.of_eq rfl rfl rfl rfl (fun hi => (hquiet hi).1) (fun hi hq => (hquiet hi).2.trans hq) fun hf => ?_
  exact ⟨(hquiet hf.idle).1, hf.orders, (hquiet hf.idle).2.trans hf.queued, hf.active, hf.held⟩

/-- Dispatching changes nothing while nothing waits. -/
theorem takeEvent (h : Turn w) (s : Surroundings) : Turn (w.took (w.player.takeEvent s) .dispatched) := by
  have hsame : (w.player.takeEvent s).orders = w.player.orders ∧
      (w.player.takeEvent s).scheduler.stage.deck = w.player.scheduler.stage.deck := by
    unfold Player.takeEvent
    split <;> exact ⟨rfl, rfl⟩
  refine h.of_eq rfl rfl rfl hsame.1 ?_ ?_ ?_
  · intro hi
    exact (congrArg Deck.session hsame.2).trans hi
  · intro _ hq
    show (w.player.takeEvent s).queued = []
    rw [takeEvent_nil hq, hq]
  · intro hf
    have hplayer := takeEvent_nil hf.queued s
    refine ⟨?_, ?_, ?_, ?_, ?_⟩
    · exact (congrArg Deck.session hsame.2).trans hf.idle
    · exact hsame.1.trans hf.orders
    · show (w.player.takeEvent s).queued = []
      rw [hplayer, hf.queued]
    · show (w.player.takeEvent s).outputs.midi.active = []
      rw [hplayer, hf.active]
    · show (w.player.takeEvent s).outputs.attached = true → _
      rw [hplayer]
      exact hf.held

theorem obey {o : Order} {rest : List Order} (h : Turn w) (ho : w.player.orders = o :: rest) (hne : o ≠ .silence) :
    Turn { w with player := { w.player with orders := rest }.carryOut o } := by
  have horders : ({ w.player with orders := rest }.carryOut o).orders = rest := by
    cases o with
    | silence => exact absurd rfl hne
    | attach => rfl
    | select output => rfl
  have hsched : ({ w.player with orders := rest }.carryOut o).scheduler = w.player.scheduler := by
    cases o with
    | silence => exact absurd rfl hne
    | attach => rfl
    | select output => rfl
  have hnoflush : ¬ Flushed w := Flushed.no_order ho
  have hidle : w.Idle → Idle { w with player := { w.player with orders := rest }.carryOut o } := by
    intro hi
    show Deck.session (Scheduler.stage _).deck = none
    rw [hsched]
    exact hi
  have hquiet : Quiet w → Quiet { w with player := { w.player with orders := rest }.carryOut o } := by
    intro hq
    refine ⟨?_, hq.phase, hq.answered⟩
    show Order.silence ∉ ({ w.player with orders := rest }.carryOut o).orders
    rw [horders]
    exact fun hm => hq.orders (ho ▸ List.mem_cons_of_mem _ hm)
  -- In the later phases no order waits: the silence that was asked for was the last one.
  cases h with
  | free hplain hq => exact .free hplain (hquiet hq)
  | stops tail htodo htail hq => exact .stops tail htodo htail (hquiet hq)
  | asks tail htodo htail hq hi => exact .asks tail htodo htail (hquiet hq) (hidle hi)
  | plays notes htodo hq hf => exact absurd hf hnoflush
  | waits tail htodo htail hi hans =>
    cases hans with
    | asked before h1 h2 h3 h4 =>
      cases before with
      | nil =>
        rw [h3] at ho
        cases ho
        exact absurd rfl hne
      | cons b before =>
        rw [h3] at ho
        cases ho
        refine .waits tail htodo htail (hidle hi) (.asked before h1 h2 horders ?_)
        exact fun hm => h4 (List.mem_cons_of_mem _ hm)
    | draining _ _ h3 => rw [h3] at ho; cases ho
    | releasing _ _ h3 => rw [h3] at ho; cases ho
    | released _ _ h3 => exact absurd h3 hnoflush
    | answered _ _ h3 => exact absurd h3 hnoflush

theorem beginSilence {rest : List Order} (h : Turn w) (ho : w.player.orders = .silence :: rest) :
    Turn { w with player := { w.player with orders := rest }, phase := .draining } := by
  have hhead : Order.silence ∈ w.player.orders := ho ▸ List.mem_cons_self ..
  have hnoflush : ¬ Flushed w := Flushed.no_order ho
  cases h with
  | free hplain hq => exact absurd hhead hq.orders
  | stops tail htodo htail hq => exact absurd hhead hq.orders
  | asks tail htodo htail hq hi => exact absurd hhead hq.orders
  | plays notes htodo hq hf => exact absurd hf hnoflush
  | waits tail htodo htail hi hans =>
    cases hans with
    | asked before h1 h2 h3 h4 =>
      cases before with
      | nil =>
        rw [h3] at ho
        cases ho
        exact .waits tail htodo htail hi (.draining rfl h2 rfl)
      | cons b before =>
        rw [h3] at ho
        cases ho
        exact absurd (List.mem_cons_self ..) h4
    | draining _ _ h3 => rw [h3] at ho; cases ho
    | releasing _ _ h3 => rw [h3] at ho; cases ho
    | released _ _ h3 => exact absurd h3 hnoflush
    | answered _ _ h3 => exact absurd h3 hnoflush

/-- After a silence no voice of an attached synthesizer is held. -/
theorem held_silence (o : Outputs) (ha : o.silence.attached = true) (stream : Sound.Stream)
    (hs : o.silence.stream = some stream) : stream.synth.held = [] := by
  simp only [Outputs.silence, Outputs.onAttached, Outputs.onSynth, Outputs.sent] at ha hs
  split at ha
  · rename_i hattached
    rw [if_pos hattached] at hs
    obtain ⟨before, -, rfl⟩ := Option.map_eq_some_iff.mp hs
    rfl
  · rename_i hattached
    exact absurd ha hattached

theorem flush (h : Turn w) : Turn w.flush := by
  have hready : Quiet w → w.flush = w := by
    intro hq
    simp only [Pipeline.flush, hq.phase]
  cases h with
  | free hplain hq => rw [hready hq]; exact .free hplain hq
  | stops tail htodo htail hq => rw [hready hq]; exact .stops tail htodo htail hq
  | asks tail htodo htail hq hi => rw [hready hq]; exact .asks tail htodo htail hq hi
  | plays notes htodo hq hf => rw [hready hq]; exact .plays notes htodo hq hf
  | waits tail htodo htail hi hans =>
    cases hans with
    | asked before h1 h2 h3 h4 =>
      simp only [Pipeline.flush, h1]
      exact .waits tail htodo htail hi (.asked before h1 h2 h3 h4)
    | draining h1 h2 h3 =>
      simp only [Pipeline.flush, h1]
      split
      · rename_i hnil
        exact .waits tail htodo htail hi (.releasing rfl h2 h3 (List.isEmpty_iff.mp hnil))
      · exact .waits tail htodo htail hi (.draining h1 h2 h3)
    | releasing h1 h2 h3 h4 =>
      simp only [Pipeline.flush, h1]
      refine .waits tail htodo htail hi (.released rfl h2 ⟨hi, h3, h4, rfl, ?_⟩)
      exact held_silence w.player.outputs
    | released h1 h2 h3 =>
      simp only [Pipeline.flush, h1]
      exact .waits tail htodo htail hi (.answered rfl rfl ⟨hi, h3.orders, h3.queued, h3.active, h3.held⟩)
    | answered h1 h2 h3 =>
      simp only [Pipeline.flush, h1]
      exact .waits tail htodo htail hi (.answered h1 h2 h3)

/-- Unless the client waits, no silence is under way. -/
theorem quiet (h : Turn w) (ht : ∀ tail, w.todo ≠ .await :: tail) : Quiet w := by
  cases h with
  | free _ hq => exact hq
  | stops _ _ _ hq => exact hq
  | asks _ _ _ hq _ => exact hq
  | plays _ _ hq _ => exact hq
  | waits tail htodo => exact absurd htodo (ht tail)

theorem begin (h : Turn w) (s : Surroundings) (op : Operation) (ht : w.todo = []) :
    Turn { w with todo := op.actions s w.player } := by
  have hquiet := h.quiet (by simp [ht])
  have hquiet' : Quiet { w with todo := op.actions s w.player } := ⟨hquiet.orders, hquiet.phase, hquiet.answered⟩
  rcases actions_shape s w.player op with hplain | ⟨tail, htodo, htail⟩
  · exact .free hplain hquiet'
  · exact .stops tail htodo htail hquiet'

/-- An action that has no part in a flush begins none. -/
theorem goOn_plain (hq : Quiet w) {a : Action} {rest : List Action} (ht : w.todo = a :: rest) (ha : a.isPlain = true) :
    Quiet w.goOn ∧ w.goOn.todo = rest ∧ w.goOn.player = a.perform w.player := by
  have horders : .silence ∉ (a.perform w.player).orders := by
    cases a with
    | ask order =>
      intro hm
      rcases List.mem_append.mp hm with hm | hm
      · exact hq.orders hm
      · rw [← List.mem_singleton.mp hm] at ha
        cases ha
    | connect system wanted =>
      simp only [Action.perform]
      cases w.player.outputs.midi.connect system wanted <;> exact hq.orders
    | _ => exact hq.orders
  have hgoOn : w.goOn.phase = w.phase ∧ w.goOn.answered = w.answered ∧ w.goOn.todo = rest ∧
      w.goOn.player = a.perform w.player := by
    cases a with
    | await => cases ha
    | play notes => cases ha
    | _ =>
      unfold Pipeline.goOn
      rw [ht]
      exact ⟨rfl, rfl, rfl, rfl⟩
  obtain ⟨hphase, hanswered, htodo, hplayer⟩ := hgoOn
  exact ⟨⟨hplayer ▸ horders, hphase ▸ hq.phase, hanswered ▸ hq.answered⟩, htodo, hplayer⟩

theorem goOn (h : Turn w) : Turn w.goOn := by
  cases h with
  | free hplain hq =>
    cases ht : w.todo with
    | nil =>
      simp only [Pipeline.goOn, ht]
      exact .free (ht ▸ hplain) hq
    | cons a rest =>
      obtain ⟨hquiet, htodo, -⟩ := goOn_plain hq ht (hplain a (ht ▸ List.mem_cons_self ..))
      exact .free (htodo ▸ fun b hb => hplain b (ht ▸ List.mem_cons_of_mem _ hb)) hquiet
  | stops tail htodo htail hq =>
    simp only [Pipeline.goOn, htodo, Operation.flushing, List.cons_append]
    refine .asks tail rfl htail ⟨hq.orders, hq.phase, hq.answered⟩ ?_
    exact congrArg Deck.session (Scheduler.deck_stop w.player.scheduler)
  | asks tail htodo htail hq hi =>
    simp only [Pipeline.goOn, htodo]
    exact .waits tail rfl htail hi (.asked w.player.orders hq.phase hq.answered rfl hq.orders)
  | plays notes htodo hq hf =>
    simp only [Pipeline.goOn, htodo]
    exact .free (by simp) ⟨hq.orders, hq.phase, hq.answered⟩
  | waits tail htodo htail hi hans =>
    have hstays : w.answered = false → w.goOn = w := by
      intro ha
      simp only [Pipeline.goOn, htodo, ha]
      rfl
    cases hans with
    | asked before h1 h2 h3 h4 => rw [hstays h2]; exact .waits tail htodo htail hi (.asked before h1 h2 h3 h4)
    | draining h1 h2 h3 => rw [hstays h2]; exact .waits tail htodo htail hi (.draining h1 h2 h3)
    | releasing h1 h2 h3 h4 => rw [hstays h2]; exact .waits tail htodo htail hi (.releasing h1 h2 h3 h4)
    | released h1 h2 h3 => rw [hstays h2]; exact .waits tail htodo htail hi (.released h1 h2 h3)
    | answered h1 h2 h3 =>
      have hquiet : Quiet { w with todo := tail, answered := false } := ⟨by simp [h3.orders], h1, rfl⟩
      simp only [Pipeline.goOn, htodo, h2, if_true]
      rcases htail with rfl | ⟨notes, rfl⟩
      · exact .free (by simp) hquiet
      · exact .plays notes rfl hquiet ⟨h3.idle, h3.orders, h3.queued, h3.active, h3.held⟩

end Turn

theorem turn_start (config : Config) : Turn (start config) := .free (by simp [start]) ⟨by simp [start], rfl, rfl⟩

theorem step_turn (w : Pipeline) (m : Move) (h : Turn w) : Turn (w.step m) := by
  cases m with
  | begin s op =>
    simp only [step]
    split
    · rename_i ht
      exact h.begin s op (List.isEmpty_iff.mp ht)
    · exact h
  | act => exact h.goOn
  | fire e => exact h.timer (m := .fire e) rfl (by simp)
  | tick moment => exact h.timer (m := .tick moment) rfl (by simp)
  | takeEvent s =>
    simp only [step]
    split
    · exact h.takeEvent s
    · exact h
  | takeOrder =>
    simp only [step]
    split
    · cases ho : w.player.orders with
      | nil =>
        simp only [takeOrder, ho, Player.takeOrder]
        exact h
      | cons o rest =>
        cases o with
        | silence =>
          simp only [takeOrder, ho]
          exact h.beginSilence ho
        | attach =>
          simp only [takeOrder, ho, Player.takeOrder]
          exact h.obey ho (by simp)
        | select output =>
          simp only [takeOrder, ho, Player.takeOrder]
          exact h.obey ho (by simp)
    · exact h
  | flush => exact h.flush

/-! ## What a stop leaves -/

/-- The wait of a stop, or of a play, is over; or the client is about to play. -/
def AtRest (w : Pipeline) : Prop :=
  (∃ tail, w.todo = .await :: tail ∧ w.answered = true) ∨ ∃ notes tail, w.todo = .play notes :: tail

theorem Turn.flushed {w : Pipeline} (h : Turn w) (hr : w.AtRest) : Flushed w := by
  cases h with
  | free hplain hq =>
    rcases hr with ⟨tail, htodo, -⟩ | ⟨notes, tail, htodo⟩
    · cases hplain .await (htodo ▸ List.mem_cons_self ..)
    · cases hplain (.play notes) (htodo ▸ List.mem_cons_self ..)
  | stops tail htodo =>
    rcases hr with ⟨tail', htodo', -⟩ | ⟨notes, tail', htodo'⟩
    · rw [htodo] at htodo'; cases htodo'
    · rw [htodo] at htodo'; cases htodo'
  | asks tail htodo =>
    rcases hr with ⟨tail', htodo', -⟩ | ⟨notes, tail', htodo'⟩
    · rw [htodo] at htodo'; cases htodo'
    · rw [htodo] at htodo'; cases htodo'
  | plays notes htodo hq hf => exact hf
  | waits tail htodo htail hi hans =>
    have hdone : w.answered = true := by
      rcases hr with ⟨tail', -, hd⟩ | ⟨notes, tail', htodo'⟩
      · exact hd
      · rw [htodo] at htodo'; cases htodo'
    cases hans with
    | asked before h1 h2 => rw [hdone] at h2; cases h2
    | draining h1 h2 => rw [hdone] at h2; cases h2
    | releasing h1 h2 => rw [hdone] at h2; cases h2
    | released h1 h2 => rw [hdone] at h2; cases h2
    | answered h1 h2 h3 => exact h3

/-- What is dispatched from now on is of a later session than what played at an earlier time, and
    than all that was delivered. -/
def NothingStale (earlier w : Pipeline) : Prop :=
  ∀ moves, ∃ new, (w.run moves).taken = w.taken ++ new ∧ ∀ x ∈ new,
    (∀ s, earlier.deck.session = some s → s.number < x.1.1) ∧ ∀ y ∈ w.delivered, y.1 < x.1.1

theorem sound_run (config : Config) (moves : List Move) : AnyTimer.Sound ((start config).run moves).anyTimer := by
  obtain ⟨more, h⟩ := anyTimer_start config moves
  rw [h]
  exact AnyTimer.run_sound more

/-- When nothing plays and nothing waits, all that is dispatched later is of a later session. -/
theorem taken_newer {w : Pipeline} (h : Accounted w) (hi : w.Idle) (hq : w.player.queued = []) (moves : List Move) :
    ∃ new, (w.run moves).taken = w.taken ++ new ∧ ∀ x ∈ new, w.deck.generation < x.1.1 := by
  obtain ⟨h', new, htaken⟩ := run_accounted h moves
  refine ⟨new, htaken, fun x hx => ?_⟩
  obtain ⟨waiting, hd, hwait⟩ := h.queued
  have hnil : waiting = [] := List.map_eq_nil_iff.mp (hwait ▸ hq)
  obtain ⟨waiting', hd', -⟩ := h'.waiting
  obtain ⟨more, hrun⟩ := anyTimer_run h moves
  obtain ⟨-, fresh, hheard, hfresh⟩ := AnyTimer.run_newer (AnyTimer.newer_of_idle (w := w.anyTimer) hi) more
  have hall : w.delivered ++ fresh = (w.run moves).delivered := by
    have := congrArg AnyTimer.heard hrun
    rw [hheard] at this
    exact this.symm
  rw [hd', htaken, hd, hnil, List.append_nil, List.map_append, List.append_assoc] at hall
  have hsplit := List.append_cancel_left hall
  refine hfresh x.1 ?_
  rw [hsplit]
  exact List.mem_append_left _ (List.mem_map_of_mem hx)

end Pipeline

end Ostinato.Player
