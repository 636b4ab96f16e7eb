import Ostinato.Proofs.Player.Flush

/-!
  Ostinato.Proofs.Player.Returns: operations come to their end.

  From whatever state client, timer and dispatcher are in, an operation that the client begins
  can be gone through to its end, the silence that it waits for included, and what it then
  leaves is what the player's own operation leaves (`operation_returns`). Together with what every
  order of moves keeps, that is what a stop promises (`stopping_flushes`).
-/

namespace Ostinato.Player

open Playback Score

namespace Pipeline

variable {w : Pipeline}

theorem drains {inbox : List Event} (hp : w.phase = .draining)
    (hl : w.player.scheduler.stage.listeners = [.listening inbox]) :
    ∃ moves, (w.run moves).player = w.player.dropQueued ∧ (w.run moves).todo = w.todo ∧
      (w.run moves).phase = .releasing := by
  induction inbox generalizing w with
  | nil =>
    have hnil : w.player.queued = [] := by simp [Player.queued, hl]
    refine ⟨[.flush], ?_, ?_, ?_⟩
    · show w.flush.player = _
      simp only [flush, hp, hnil, List.isEmpty_nil, if_true]
      simp only [dropQueued, Stage.drain, hl, List.map_singleton]
      rw [← hl]
    · show w.flush.todo = _
      simp only [flush, hp, hnil, List.isEmpty_nil, if_true]
    · show w.flush.phase = _
      simp only [flush, hp, hnil, List.isEmpty_nil, if_true]
  | cons e inbox ih =>
    have hne : w.player.queued.isEmpty = false := by simp [Player.queued, hl]
    have hflush : w.flush = w.took { w.player with scheduler :=
        { w.player.scheduler with stage := w.player.scheduler.stage.dropFirst } } .dropped := by
      simp only [flush, hp, hne, Bool.false_eq_true, if_false]
    obtain ⟨moves, h1, h2, h3⟩ := ih (w := w.flush) (by rw [hflush]; exact hp)
      (by rw [hflush]; simp [took, Stage.dropFirst, hl])
    refine ⟨.flush :: moves, ?_, ?_, h3⟩
    · refine h1.trans ?_
      rw [hflush]
      simp [dropQueued, Stage.drain, Stage.dropFirst, took, hl]
    · exact h2.trans (by rw [hflush]; rfl)

/-- Once it has drained, the dispatcher releases and answers. -/
theorem releases (hp : w.phase = .releasing) :
    (w.run [.flush, .flush]).player = { w.player with outputs := w.player.outputs.silence } ∧
      (w.run [.flush, .flush]).todo = w.todo ∧ (w.run [.flush, .flush]).answered = true := by
  have hrun : w.run [.flush, .flush] = w.flush.flush := rfl
  rw [hrun]
  simp only [flush, hp, and_self]

/-- Orders that end with a silence are taken up, and the silence is answered. -/
theorem obeys {before : List Order} (hacc : Accounted w) (hp : w.phase = .ready)
    (ho : w.player.orders = before ++ [.silence]) (hb : .silence ∉ before) :
    ∃ moves, (w.run moves).player = w.player.obey ∧ (w.run moves).todo = w.todo ∧ (w.run moves).answered = true := by
  induction before generalizing w with
  | nil =>
    obtain ⟨waiting, -, hl⟩ := hacc.waiting
    have htake : w.step .takeOrder = { w with player := { w.player with orders := [] }, phase := .draining } := by
      simp only [step, hp, if_true, takeOrder, ho, List.nil_append]
    obtain ⟨moves, h1, h2, h3⟩ := drains (w := w.step .takeOrder) (by rw [htake]) (by rw [htake]; exact hl)
    obtain ⟨h4, h5, h6⟩ := releases h3
    refine ⟨.takeOrder :: (moves ++ [.flush, .flush]), ?_, ?_, ?_⟩
    · rw [run_cons, run_append, h4, h1, htake]
      simp only [Player.obey, ho, List.nil_append, List.foldl_cons, List.foldl_nil, carryOut]
      rfl
    · rw [run_cons, run_append, h5, h2, htake]
    · rw [run_cons, run_append, h6]
  | cons o before ih =>
    have hne : o ≠ .silence := fun h => hb (h ▸ List.mem_cons_self ..)
    have htake : w.step .takeOrder = { w with player :=
        { w.player with orders := before ++ [Order.silence] }.carryOut o } := by
      simp only [step, hp, if_true, takeOrder, ho, List.cons_append]
      cases o with
      | silence => exact absurd rfl hne
      | attach => simp [Player.takeOrder, ho]
      | select output => simp [Player.takeOrder, ho]
    have horders : (w.step .takeOrder).player.orders = before ++ [.silence] := by
      rw [htake]
      cases o with
      | silence => exact absurd rfl hne
      | attach => rfl
      | select output => rfl
    -- taking up one order first is only the first step of obeying them all
    have hobey : (w.step .takeOrder).player.obey = w.player.obey := by
      unfold Player.obey
      rw [horders, ho, htake]
      cases o with
      | silence => exact absurd rfl hne
      | attach => rfl
      | select output => rfl
    obtain ⟨moves, h1, h2, h3⟩ := ih (step_accounted hacc .takeOrder).1 (by rw [htake]; exact hp) horders
      fun hm => hb (List.mem_cons_of_mem _ hm)
    refine ⟨.takeOrder :: moves, h1.trans hobey, h2.trans ?_, h3⟩
    rw [htake]

/-- Actions that have no part in a flush are done one after another. -/
theorem acts_plain (hq : Quiet w) (hplain : ∀ a ∈ w.todo, a.isPlain = true) :
    ∃ moves, (w.run moves).player = w.todo.foldl Action.alone w.player ∧ (w.run moves).todo = [] := by
  generalize ht : w.todo = todo at hplain
  induction todo generalizing w with
  | nil => exact ⟨[], rfl, ht⟩
  | cons a rest ih =>
    have ha := hplain a (List.mem_cons_self ..)
    obtain ⟨hquiet, htodo, hplayer⟩ := Turn.goOn_plain hq ht ha
    have halone : a.perform w.player = a.alone w.player := by
      cases a with
      | await => cases ha
      | _ => rfl
    obtain ⟨moves, h1, h2⟩ := ih hquiet htodo fun b hb => hplain b (List.mem_cons_of_mem _ hb)
    refine ⟨.act :: moves, ?_, h2⟩
    rw [List.foldl_cons, ← halone, ← hplayer]
    exact h1

theorem flushes {tail : List Action} (hacc : Accounted w) (hq : Quiet w) (ht : w.todo = Operation.flushing ++ tail) :
    ∃ moves, (w.run moves).player = Operation.flushing.foldl Action.alone w.player ∧ (w.run moves).todo = tail := by
  have hstop : w.step .act =
      { w.withAnyTimer (w.anyTimer.step .stop) with todo := .ask .silence :: .await :: tail } := by
    simp only [step, goOn, ht, Operation.flushing, List.cons_append, List.nil_append]
  have hask : (w.step .act).step .act
      = { w.step .act with player := (w.step .act).player.ask .silence, todo := .await :: tail } := by
    rw [hstop]
    rfl
  let v : Pipeline := (w.step .act).step .act
  have hv : Accounted v := (step_accounted (step_accounted hacc .act).1 .act).1
  have hphase : v.phase = .ready := by
    show ((w.step .act).step .act).phase = _
    rw [hask, hstop]
    exact hq.phase
  have horders : v.player.orders = w.player.orders ++ [.silence] := by
    show ((w.step .act).step .act).player.orders = _
    rw [hask, hstop]
    rfl
  have htodo : v.todo = .await :: tail := by
    show ((w.step .act).step .act).todo = _
    rw [hask]
  obtain ⟨moves, h1, h2, h3⟩ := obeys hv hphase horders hq.orders
  have hawait : ((v.run moves).step .act).player = (v.run moves).player ∧ ((v.run moves).step .act).todo = tail := by
    simp only [step, goOn, h2, htodo, h3, if_true, and_self]
  refine ⟨.act :: .act :: (moves ++ [.act]), ?_, ?_⟩
  · rw [run_cons, run_cons, run_append]
    refine hawait.1.trans (h1.trans ?_)
    show ((w.step .act).step .act).player.obey = _
    rw [hask, hstop]
    rfl
  · rw [run_cons, run_cons, run_append]
    exact hawait.2

/-- Whatever a client with nothing to do begins can be gone through, and is then the player's own
    operation. -/
def CanReturn (w : Pipeline) : Prop :=
  w.todo = [] → ∀ s op, ∃ moves, ((w.step (.begin s op)).run moves).todo = [] ∧
    ((w.step (.begin s op)).run moves).player = op.result s w.player

theorem operation_returns (config : Config) (before : List Move) : CanReturn ((start config).run before) := by
  intro ht s op
  let w : Pipeline := (start config).run before
  change w.todo = [] at ht
  have hacc : Accounted w := (run_accounted (accounted_start config) before).1
  have hturn : Turn w := run_of_step step_turn (turn_start config) before
  have hquiet := hturn.quiet (by simp [ht])
  have hbegin : w.step (.begin s op) = { w with todo := op.actions s w.player } := by
    simp only [step, ht, List.isEmpty_nil, if_true]
  rw [hbegin, ← actions_alone]
  rcases actions_shape s w.player op with hplain | ⟨tail, hactions, htail⟩
  · obtain ⟨moves, h1, h2⟩ := acts_plain (w := { w with todo := op.actions s w.player })
      ⟨hquiet.orders, hquiet.phase, hquiet.answered⟩ hplain
    exact ⟨moves, h2, h1⟩
  · obtain ⟨moves, h1, h2⟩ := flushes (w := { w with todo := op.actions s w.player })
      (hacc.of_eq rfl rfl rfl rfl) ⟨hquiet.orders, hquiet.phase, hquiet.answered⟩ hactions
    generalize hv : Pipeline.run { w with todo := op.actions s w.player } moves = v at h1 h2
    rcases htail with rfl | ⟨notes, rfl⟩
    · refine ⟨moves, hv ▸ h2, ?_⟩
      rw [hv, h1, hactions, List.append_nil]
    · have hplay : (v.step .act).todo = [] ∧ (v.step .act).player = (Action.play notes).alone v.player := by
        simp only [step, goOn, h2]
        exact ⟨trivial, rfl⟩
      refine ⟨moves ++ [.act], ?_, ?_⟩
      · rw [run_append, hv]
        exact hplay.1
      · rw [run_append, hv, hactions, List.foldl_append, ← h1]
        exact hplay.2

/-- In every order of moves: every event delivered is dispatched once, in order, or dropped, or
    waits; when a stop returns, or a play begins, nothing plays, waits or sounds, and nothing
    that played before is dispatched later; and operations can return. -/
theorem stopping_flushes (config : Config) (before after : List Move) :
    let earlier := (start config).run before
    let w := earlier.run after
    Accounted w ∧ (w.AtRest → Flushed w ∧ NothingStale earlier w) ∧ CanReturn w := by
  intro earlier w
  have hw : w = (start config).run (before ++ after) := (run_append ..).symm
  have hacc : Accounted w := hw ▸ (run_accounted (accounted_start config) _).1
  have hearlier : Accounted earlier := (run_accounted (accounted_start config) _).1
  have hturn : Turn w := hw ▸ run_of_step step_turn (turn_start config) _
  refine ⟨hacc, fun hrest => ?_, hw ▸ operation_returns config _⟩
  have hf := hturn.flushed hrest
  refine ⟨hf, fun moves => ?_⟩
  obtain ⟨new, htaken, hnew⟩ := taken_newer hacc hf.idle hf.queued moves
  refine ⟨new, htaken, fun x hx => ⟨fun s hs => ?_, fun y hy => ?_⟩⟩
  · have hnum : s.number = earlier.deck.generation := (sound_run config before).number s hs
    obtain ⟨more, hrun⟩ := anyTimer_run hearlier after
    have hle : earlier.deck.generation ≤ w.deck.generation := by
      have := AnyTimer.generation_le_run earlier.anyTimer more
      rw [← hrun] at this
      exact this
    rw [hnum]
    exact Nat.lt_of_le_of_lt hle (hnew x hx)
  · have hsound : AnyTimer.Sound w.anyTimer := hw ▸ sound_run config (before ++ after)
    have hle : y.1 ≤ w.deck.generation := hsound.heardBefore y hy
    exact Nat.lt_of_le_of_lt hle (hnew x hx)

end Pipeline

end Ostinato.Player
