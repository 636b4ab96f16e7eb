import Ostinato.Proofs.Timer.Run
import Ostinato.Timer.Script

/-!
  Ostinato.Proofs.Timer.Program: what becomes of the tasks of a timer, step by step.

  A program is a list of acts: steps, and runs of the clock. A `Process` carries one out in
  small moves, one step or one firing each, and keeps all that happened to tasks (`Deed`). A
  task that fires puts its own steps in front of what is left to do, so a move sees the queue
  as the moves before left it, also in the middle of a run.

  A move is one of few things (`Effect`), and what each of them keeps, the process keeps
  (`Accounted`). The process ends, and in the state to which the timer's own loops lead
  (`reaches_end`); each loop in it ends as well (`reaches_runUntil`, `reaches_runAll`).

  `fires_once_in_order` puts these together.
-/

namespace Ostinato.Timer

variable {α : Type}

/-- What is asked of a timer. -/
inductive Act (α : Type) where
  | perform (s : Step α)
  /-- Refused where it leads past the latest reading. -/
  | advance (span : Nat)
  | runUntil (moment : Nat)
  | runAll

/-- What happens to a task. -/
inductive Deed (α : Type) where
  | registered (e : Entry (Script α))
  | cancelled (e : Entry (Script α))
  /-- What the clock read is kept. -/
  | fired (e : Entry (Script α)) (reading : Nat)

abbrev Past (α : Type) := List (Deed α)

def Deed.registered? : Deed α → Option (Entry (Script α))
  | registered e => some e
  | _ => none

def Deed.cancelled? : Deed α → Option (Entry (Script α))
  | cancelled e => some e
  | _ => none

def Deed.fired? : Deed α → Option (Entry (Script α))
  | fired e _ => some e
  | _ => none

def Deed.firing? : Deed α → Option (Firing α)
  | fired e reading => some ⟨e.task.value, reading⟩
  | _ => none

namespace Past

def registered (p : Past α) : List (Entry (Script α)) := p.filterMap Deed.registered?

def cancelled (p : Past α) : List (Entry (Script α)) := p.filterMap Deed.cancelled?

def fired (p : Past α) : List (Entry (Script α)) := p.filterMap Deed.fired?

def firings (p : Past α) : List (Firing α) := p.filterMap Deed.firing?

section

variable (p : Past α) (e : Entry (Script α)) (reading : Nat) (q : List (Entry (Script α)))

@[simp] theorem registered_registered : registered (p ++ [.registered e]) = registered p ++ [e] := List.filterMap_append
@[simp] theorem cancelled_registered : cancelled (p ++ [.registered e]) = cancelled p := by simp [cancelled, Deed.cancelled?]
@[simp] theorem fired_registered : fired (p ++ [.registered e]) = fired p := by simp [fired, Deed.fired?]
@[simp] theorem firings_registered : firings (p ++ [.registered e]) = firings p := by simp [firings, Deed.firing?]

@[simp] theorem registered_cancelled : registered (p ++ q.map .cancelled) = registered p := by
  simp [registered, Deed.registered?]

@[simp] theorem cancelled_cancelled : cancelled (p ++ q.map .cancelled) = cancelled p ++ q := by
  simp [cancelled, List.filterMap_map, Function.comp_def, Deed.cancelled?]

@[simp] theorem fired_cancelled : fired (p ++ q.map .cancelled) = fired p := by simp [fired, Deed.fired?]
@[simp] theorem firings_cancelled : firings (p ++ q.map .cancelled) = firings p := by simp [firings, Deed.firing?]

@[simp] theorem registered_fired : registered (p ++ [.fired e reading]) = registered p := by
  simp [registered, Deed.registered?]

@[simp] theorem cancelled_fired : cancelled (p ++ [.fired e reading]) = cancelled p := by simp [cancelled, Deed.cancelled?]
@[simp] theorem fired_fired : fired (p ++ [.fired e reading]) = fired p ++ [e] := List.filterMap_append

@[simp] theorem firings_fired : firings (p ++ [.fired e reading]) = firings p ++ [⟨e.task.value, reading⟩] :=
  List.filterMap_append

end

end Past

/-- What a step does to tasks: only one that waits can be cancelled. -/
def Step.deeds (t : Timer (Script α)) : Step α → List (Deed α)
  | .after delay value next => [.registered ⟨later t.now delay, t.nextId, ⟨value, next⟩⟩]
  | .due deadline value next => [.registered ⟨deadline, t.nextId, ⟨value, next⟩⟩]
  | .cancel index =>
    if index < t.registered then (t.queue.filter (·.id == index + 1)).map .cancelled else []

/-! ## Moves -/

structure Process (α : Type) where
  timer : Timer (Script α)
  past : Past α
  agenda : List (Act α)

namespace Process

def start (program : List (Act α)) : Process α := ⟨.start, [], program⟩

/-- One move. A run that has fired a task goes on after the task's steps. -/
def move (p : Process α) : Process α :=
  match p.agenda with
  | [] => p
  | .perform s :: rest => ⟨s.perform p.timer, p.past ++ s.deeds p.timer, rest⟩
  | .advance span :: rest =>
    if p.timer.now + span ≤ latest then { p with agenda := .runUntil (p.timer.now + span) :: rest }
    else { p with agenda := rest }
  | .runUntil moment :: rest => match p.timer.takeDue moment with
    | none => { p with timer := { p.timer with now := max p.timer.now moment }, agenda := rest }
    | some (e, t) => ⟨t, p.past ++ [.fired e t.now], e.task.next.map .perform ++ .runUntil moment :: rest⟩
  | .runAll :: rest => match p.timer.lastDeadline? with
    | none => { p with agenda := rest }
    | some d => { p with agenda := .runUntil d :: .runAll :: rest }

def after (p : Process α) : Nat → Process α
  | 0 => p
  | n + 1 => (p.after n).move

theorem after_add (p : Process α) (m n : Nat) : p.after (m + n) = (p.after m).after n := by
  induction n with
  | zero => rfl
  | succ n ih => exact congrArg move ih

end Process

inductive Effect (t : Timer (Script α)) (past : Past α) : Timer (Script α) → Past α → Prop
  | idle : Effect t past t past
  | registers (deadline : Nat) (task : Script α) :
      Effect t past (t.scheduleAt deadline task) (past ++ [.registered ⟨deadline, t.nextId, task⟩])
  | cancels (id : Nat) : Effect t past (t.cancel id) (past ++ (t.queue.filter (·.id == id)).map .cancelled)
  | fires (e : Entry (Script α)) (rest : List (Entry (Script α))) (hq : t.queue = e :: rest) :
      Effect t past { t with now := max t.now e.deadline, queue := rest } (past ++ [.fired e (max t.now e.deadline)])
  | sets (moment : Nat) : Effect t past { t with now := max t.now moment } past

theorem effect_perform (t : Timer (Script α)) (past : Past α) (s : Step α) :
    Effect t past (s.perform t) (past ++ s.deeds t) := by
  cases s with
  | after delay value next => exact .registers ..
  | due deadline value next => exact .registers ..
  | cancel index =>
    simp only [Step.perform, Step.deeds]
    split
    · exact .cancels _
    · rw [List.append_nil]
      exact .idle

theorem effect_move (p : Process α) : Effect p.timer p.past p.move.timer p.move.past := by
  unfold Process.move
  split
  · exact .idle
  · exact effect_perform ..
  · split
    · exact .idle
    · exact .idle
  · split
    · exact .sets _
    · rename_i e t h
      obtain ⟨rest, hq, -, rfl⟩ := takeDue_eq_some.mp h
      exact .fires e rest hq
  · split
    · exact .idle
    · exact .idle

/-! ## What becomes of every task -/

/-- Ids are handed out one after another, and each task that was registered waits, has fired
    once, or was cancelled while it waited: one of these. -/
structure Accounted (t : Timer (Script α)) (past : Past α) : Prop where
  neat : Neat t
  ids : past.registered.map (·.id) = List.range' 1 t.registered
  fates : (t.queue ++ past.fired ++ past.cancelled).Perm past.registered

theorem accounted_start : Accounted (.start : Timer (Script α)) [] := ⟨.start, rfl, .nil⟩

/-- Whether an entry is the one of a queue that falls due first. -/
def First (e : Entry (Script α)) (q : List (Entry (Script α))) : Prop := e ∈ q ∧ ∀ x ∈ q, x = e ∨ e.before x = true

namespace Accounted

variable {t t' : Timer (Script α)} {past past' : Past α}

theorem registers (h : Accounted t past) (deadline : Nat) (task : Script α) :
    Accounted (t.scheduleAt deadline task) (past ++ [.registered ⟨deadline, t.nextId, task⟩]) := by
  refine ⟨h.neat.scheduleAt deadline task, ?_, ?_⟩
  · rw [Past.registered_registered, List.map_append, h.ids, registered_scheduleAt, List.range'_1_concat, Nat.add_comm]
    rfl
  · rw [Past.fired_registered, Past.cancelled_registered, Past.registered_registered, List.append_assoc]
    refine ((perm_scheduleAt t deadline task).append_right _).trans ?_
    rw [List.cons_append, ← List.append_assoc]
    exact (h.fates.cons _).trans (List.perm_append_singleton ..).symm

theorem cancels (h : Accounted t past) (id : Nat) :
    Accounted (t.cancel id) (past ++ (t.queue.filter (·.id == id)).map .cancelled) := by
  refine ⟨h.neat.cancel id, ?_, ?_⟩
  · rw [Past.registered_cancelled]
    exact h.ids
  · rw [Past.fired_cancelled, Past.cancelled_cancelled, Past.registered_cancelled]
    generalize hgone : t.queue.filter (·.id == id) = gone
    have hsplit : ((t.cancel id).queue ++ gone).Perm t.queue :=
      hgone ▸ List.perm_append_comm.trans (List.filter_append_perm (·.id == id) t.queue)
    calc (t.cancel id).queue ++ past.fired ++ (past.cancelled ++ gone)
        = (t.cancel id).queue ++ (past.fired ++ past.cancelled ++ gone) := by simp only [List.append_assoc]
      List.Perm _ ((t.cancel id).queue ++ (gone ++ (past.fired ++ past.cancelled))) := List.perm_append_comm.append_left _
      _ = (t.cancel id).queue ++ gone ++ (past.fired ++ past.cancelled) := (List.append_assoc ..).symm
      List.Perm _ (t.queue ++ (past.fired ++ past.cancelled)) := hsplit.append_right _
      _ = t.queue ++ past.fired ++ past.cancelled := (List.append_assoc ..).symm
      List.Perm _ past.registered := h.fates

theorem fires (h : Accounted t past) {e : Entry (Script α)} {rest : List (Entry (Script α))} (hq : t.queue = e :: rest)
    (reading : Nat) : Accounted { t with now := reading, queue := rest } (past ++ [.fired e reading]) := by
  refine ⟨h.neat.of_sublist rfl (hq ▸ List.sublist_cons_self ..), ?_, ?_⟩
  · rw [Past.registered_fired]
    exact h.ids
  · have hfates := h.fates
    rw [hq] at hfates
    rw [Past.fired_fired, Past.cancelled_fired, Past.registered_fired]
    refine List.Perm.trans ?_ hfates
    rw [← List.append_assoc, List.append_assoc _ [e]]
    exact List.perm_middle

theorem effect (h : Accounted t past) (heffect : Effect t past t' past') : Accounted t' past' := by
  cases heffect with
  | idle => exact h
  | registers deadline task => exact h.registers deadline task
  | cancels id => exact h.cancels id
  | fires e rest hq => exact h.fires hq _
  | sets moment => exact ⟨h.neat.of_sublist rfl (.refl _), h.ids, h.fates⟩

end Accounted

/-! ## What a move does -/

/-- From one state to a later one: the clock does not go back, and a task that fires is the
    first one that waits; the clock then reads its deadline, or stays where it is past it. -/
structure Proceeds (p q : Process α) : Prop where
  now_le : p.timer.now ≤ q.timer.now
  deeds : ∃ deeds, q.past = p.past ++ deeds ∧ ∀ e reading, .fired e reading ∈ deeds →
    First e p.timer.queue ∧ reading = max e.deadline p.timer.now ∧ q.timer.now = reading

/-- The steps of a task see the clock as the task does. -/
theorem now_perform (t : Timer (Script α)) (s : Step α) : (s.perform t).now = t.now := by
  cases s with
  | after delay value next => rfl
  | due deadline value next => rfl
  | cancel index =>
    simp only [Step.perform]
    split <;> rfl

theorem Accounted.proceeds {p q : Process α} (h : Accounted p.timer p.past)
    (heffect : Effect p.timer p.past q.timer q.past) : Proceeds p q := by
  obtain ⟨t, past, agenda⟩ := p
  obtain ⟨t', past', agenda'⟩ := q
  cases heffect with
  | idle => exact ⟨Nat.le_refl _, [], (List.append_nil _).symm, by simp⟩
  | registers deadline task => exact ⟨Nat.le_refl _, _, rfl, by simp⟩
  | cancels id => exact ⟨Nat.le_refl _, _, rfl, by simp⟩
  | sets moment => exact ⟨Nat.le_max_left .., [], (List.append_nil _).symm, by simp⟩
  | fires e rest hq =>
    refine ⟨Nat.le_max_left .., _, rfl, fun x reading hx => ?_⟩
    obtain ⟨rfl, rfl⟩ := Deed.fired.injEq .. ▸ List.mem_singleton.mp hx
    -- What stands at the front of a queue in order is what falls due first.
    have hranked := h.neat.ranked
    rw [show t.queue = x :: rest from hq] at hranked
    have hfirst : First x t.queue := by
      rw [hq]
      refine ⟨List.mem_cons_self .., fun y hy => ?_⟩
      rcases List.mem_cons.mp hy with rfl | hy
      · exact .inl rfl
      · exact .inr ((List.pairwise_cons.mp hranked).1 y hy)
    exact ⟨hfirst, Nat.max_comm .., rfl⟩

/-! ## The loops of the timer -/

/-- A step with what it does to tasks. -/
def Step.note (x : Timer (Script α) × Past α) (s : Step α) : Timer (Script α) × Past α :=
  (s.perform x.1, x.2 ++ s.deeds x.1)

theorem note_performAll (steps : List (Step α)) (x : Timer (Script α) × Past α) :
    (steps.foldl Step.note x).1 = performAll x.1 steps := by
  induction steps generalizing x with
  | nil => rfl
  | cons s steps ih => exact ih (s.note x)

theorem firings_deeds (past : Past α) (t : Timer (Script α)) (s : Step α) :
    (past ++ s.deeds t).firings = past.firings := by
  cases s with
  | after delay value next => exact Past.firings_registered ..
  | due deadline value next => exact Past.firings_registered ..
  | cancel index =>
    simp only [Step.deeds]
    split
    · exact Past.firings_cancelled ..
    · rw [List.append_nil]

theorem firings_note (steps : List (Step α)) (x : Timer (Script α) × Past α) :
    (steps.foldl Step.note x).2.firings = x.2.firings := by
  induction steps generalizing x with
  | nil => rfl
  | cons s steps ih => exact (ih (s.note x)).trans (firings_deeds ..)

/-- Firing with all that happens to tasks. -/
def recording : Reaction (Script α) (Past α) where
  weight := Script.weight
  fire e x := e.task.next.foldl Step.note (x.1, x.2 ++ [.fired e x.1.now])
  fire_le e x := by
    rw [note_performAll]
    exact load_performAll_le x.1 e.task.next

theorem firing_recording (e : Entry (Script α)) (t : Timer (Script α)) (past : Past α) :
    firing.fire e (t, past.firings) = ((recording.fire e (t, past)).1, (recording.fire e (t, past)).2.firings) := by
  refine Prod.ext ?_ ?_
  · exact (note_performAll e.task.next (t, past ++ [.fired e t.now])).symm
  · exact ((firings_note ..).trans (Past.firings_fired ..)).symm

def Act.carryOut (x : Timer (Script α) × List (Firing α)) : Act α → Timer (Script α) × List (Firing α)
  | .perform s => (s.perform x.1, x.2)
  | .advance span => (advance? firing span x).getD x
  | .runUntil moment => Timer.runUntil firing moment x
  | .runAll => Timer.runAll firing x

def Act.record (x : Timer (Script α) × Past α) : Act α → Timer (Script α) × Past α
  | .perform s => s.note x
  | .advance span => (advance? recording span x).getD x
  | .runUntil moment => Timer.runUntil recording moment x
  | .runAll => Timer.runAll recording x

theorem runUntil_recording (moment : Nat) (x : Timer (Script α) × Past α) :
    Timer.runUntil firing moment (x.1, x.2.firings)
      = ((Timer.runUntil recording moment x).1, (Timer.runUntil recording moment x).2.firings) :=
  runUntil_forget firing_recording moment x

theorem carryOut_record (a : Act α) (x : Timer (Script α) × Past α) :
    a.carryOut (x.1, x.2.firings) = ((a.record x).1, (a.record x).2.firings) := by
  cases a with
  | perform s => exact Prod.ext rfl (firings_deeds ..).symm
  | runUntil moment => exact runUntil_recording moment x
  | runAll => exact runAll_forget firing_recording x
  | advance span =>
    simp only [Act.carryOut, Act.record, advance?]
    split
    · exact runUntil_recording _ x
    · rfl

theorem carryOut_program (program : List (Act α)) (x : Timer (Script α) × Past α) :
    program.foldl Act.carryOut (x.1, x.2.firings)
      = ((program.foldl Act.record x).1, (program.foldl Act.record x).2.firings) := by
  induction program generalizing x with
  | nil => rfl
  | cons a program ih => rw [List.foldl_cons, carryOut_record, ih, List.foldl_cons]

theorem now_performAll (t : Timer (Script α)) (steps : List (Step α)) : (performAll t steps).now = t.now := by
  induction steps generalizing t with
  | nil => rfl
  | cons s steps ih => exact (ih (s.perform t)).trans (now_perform t s)

theorem keepsClock_firing : KeepsClock (firing (α := α)) := fun e x => now_performAll x.1 e.task.next

theorem keepsClock_recording : KeepsClock (recording (α := α)) := fun e x =>
  (congrArg Timer.now (note_performAll ..)).trans (now_performAll x.1 e.task.next)

/-! ## Moves make up the loops -/

namespace Process

/-- A process that comes to another by moves, with something left to do all the way. -/
def Reaches (left : List (Act α)) (p q : Process α) : Prop :=
  ∃ n, p.after n = q ∧ ∀ i < n, left <:+ (p.after i).agenda

variable {left rest : List (Act α)} {p q r : Process α}

theorem Reaches.refl (left : List (Act α)) (p : Process α) : Reaches left p p :=
  ⟨0, rfl, fun _ h => absurd h (Nat.not_lt_zero _)⟩

theorem Reaches.trans (hpq : Reaches left p q) (hqr : Reaches left q r) : Reaches left p r := by
  obtain ⟨m, rfl, hm⟩ := hpq
  obtain ⟨n, rfl, hn⟩ := hqr
  refine ⟨m + n, after_add p m n, fun i hi => ?_⟩
  by_cases him : i < m
  · exact hm i him
  · obtain ⟨j, rfl⟩ := Nat.exists_eq_add_of_le (Nat.not_lt.mp him)
    rw [after_add]
    exact hn j (by omega)

theorem Reaches.of_suffix (h : Reaches left p q) (hsuffix : rest <:+ left) : Reaches rest p q := by
  obtain ⟨n, hn, hleft⟩ := h
  exact ⟨n, hn, fun i hi => hsuffix.trans (hleft i hi)⟩

theorem reaches_move (h : left <:+ p.agenda) : Reaches left p p.move := by
  refine ⟨1, rfl, fun i hi => ?_⟩
  obtain rfl : i = 0 := by omega
  exact h

/-- A process in some state with some acts to do. -/
def facing (x : Timer (Script α) × Past α) (agenda : List (Act α)) : Process α := ⟨x.1, x.2, agenda⟩

theorem reaches_steps (steps : List (Step α)) (x : Timer (Script α) × Past α) (rest : List (Act α)) :
    Reaches rest (facing x (steps.map .perform ++ rest)) (facing (steps.foldl Step.note x) rest) := by
  induction steps generalizing x with
  | nil => exact .refl rest _
  | cons s steps ih => exact (reaches_move (List.suffix_append ..)).trans (ih (s.note x))

/-- A run to a moment, firing by firing. -/
theorem reaches_runUntil (moment : Nat) (x : Timer (Script α) × Past α) (rest : List (Act α)) :
    Reaches (.runUntil moment :: rest) (facing x (.runUntil moment :: rest))
      (facing (Timer.runUntil recording moment x) rest) := by
  fun_induction Timer.runUntil recording moment x with
  | case1 x hx =>
    have hmove : (facing x (.runUntil moment :: rest)).move
        = facing ({ x.1 with now := max x.1.now moment }, x.2) rest := by
      simp only [move, facing, hx]
    exact hmove ▸ reaches_move (List.suffix_refl _)
  | case2 x e t hx ih =>
    have hmove : (facing x (.runUntil moment :: rest)).move
        = facing (t, x.2 ++ [.fired e t.now]) (e.task.next.map .perform ++ .runUntil moment :: rest) := by
      simp only [move, facing, hx]
    exact ((hmove ▸ reaches_move (List.suffix_refl _)).trans (reaches_steps e.task.next _ _)).trans ih

/-- A run until nothing waits, from deadline to deadline. -/
theorem reaches_runAll (x : Timer (Script α) × Past α) (rest : List (Act α)) :
    Reaches (.runAll :: rest) (facing x (.runAll :: rest)) (facing (Timer.runAll recording x) rest) := by
  fun_induction Timer.runAll recording x with
  | case1 x hx =>
    have hmove : (facing x (.runAll :: rest)).move = facing x rest := by simp only [move, facing, hx]
    exact hmove ▸ reaches_move (List.suffix_refl _)
  | case2 x d hx ih =>
    have hmove : (facing x (.runAll :: rest)).move = facing x (.runUntil d :: .runAll :: rest) := by
      simp only [move, facing, hx]
    have hrun := (reaches_runUntil d x (.runAll :: rest)).of_suffix (List.suffix_cons ..)
    exact ((hmove ▸ reaches_move (List.suffix_refl _)).trans hrun).trans ih

theorem reaches_act (a : Act α) (x : Timer (Script α) × Past α) (rest : List (Act α)) :
    Reaches rest (facing x (a :: rest)) (facing (a.record x) rest) := by
  cases a with
  | perform s => exact reaches_move (List.suffix_cons ..)
  | runUntil moment => exact (reaches_runUntil moment x rest).of_suffix (List.suffix_cons ..)
  | runAll => exact (reaches_runAll x rest).of_suffix (List.suffix_cons ..)
  | advance span =>
    by_cases hspan : x.1.now + span ≤ latest
    · have hmove : (facing x (.advance span :: rest)).move = facing x (.runUntil (x.1.now + span) :: rest) := by
        simp only [move, facing, hspan, if_true]
      have hrun := (reaches_runUntil (x.1.now + span) x rest).of_suffix (List.suffix_cons ..)
      simp only [Act.record, advance?_of_le recording hspan, Option.getD_some]
      exact (hmove ▸ reaches_move (List.suffix_cons ..)).trans hrun
    · have hmove : (facing x (.advance span :: rest)).move = facing x rest := by
        simp only [move, facing, hspan, if_false]
      simp only [Act.record, advance?, hspan, if_false, Option.getD_none]
      exact hmove ▸ reaches_move (List.suffix_cons ..)

/-- A process comes to its end, and to where the loops of the timer lead. -/
theorem reaches_end (agenda : List (Act α)) (x : Timer (Script α) × Past α) :
    Reaches [] (facing x agenda) (facing (agenda.foldl Act.record x) []) := by
  induction agenda generalizing x with
  | nil => exact .refl [] _
  | cons a agenda ih => exact ((reaches_act a x agenda).of_suffix List.nil_suffix).trans (ih (a.record x))

/-! ## Every program -/

theorem accounted_after (program : List (Act α)) (n : Nat) :
    Accounted ((start program).after n).timer ((start program).after n).past := by
  induction n with
  | zero => exact accounted_start
  | succ n ih => exact ih.effect (effect_move _)

/-- A run to a moment that has begun ends; nothing then waits that is due by that moment, and the
    clock reads it, or what it read before if that is later. A run of everything ends, and nothing
    waits then. -/
structure LoopsEnd (p : Process α) : Prop where
  runUntil : ∀ moment rest, p.agenda = .runUntil moment :: rest → ∃ q, Reaches (.runUntil moment :: rest) p q ∧
    q.agenda = rest ∧ (∀ e ∈ q.timer.queue, moment < e.deadline) ∧ q.timer.now = max p.timer.now moment
  runAll : ∀ rest, p.agenda = .runAll :: rest → ∃ q, Reaches (.runAll :: rest) p q ∧
    q.agenda = rest ∧ q.timer.queue = []

theorem loopsEnd_after (program : List (Act α)) (n : Nat) : LoopsEnd ((start program).after n) := by
  generalize hp : (start program).after n = p
  obtain ⟨timer, past, agenda⟩ := p
  refine ⟨fun moment rest hagenda => ?_, fun rest hagenda => ?_⟩
  · obtain rfl : agenda = .runUntil moment :: rest := hagenda
    have hreaches := reaches_runUntil moment (timer, past) rest
    refine ⟨_, hreaches, rfl, ?_, now_runUntil keepsClock_recording moment (timer, past)⟩
    obtain ⟨m, hm, -⟩ := hreaches
    have hlater := accounted_after program (n + m)
    rw [after_add, hp, show after ⟨timer, past, _⟩ m = _ from hm] at hlater
    exact lt_deadline_of_takeDue hlater.neat.sorted.inOrder (takeDue_runUntil recording moment (timer, past))
  · obtain rfl : agenda = .runAll :: rest := hagenda
    exact ⟨_, reaches_runAll (timer, past) rest, rfl, queue_runAll recording (timer, past)⟩

/-- Whatever is asked of a timer, and whatever its tasks ask of it in turn: this comes to an end,
    where the loops of the timer lead. At every moment until then each task registered waits, has
    fired once, or was cancelled before; the clock does not go back; a task that fires is the
    first one that waits, at its deadline or, if that has passed, at once; and each loop ends
    with nothing left that it was to fire. -/
theorem fires_once_in_order (program : List (Act α)) :
    let p := (start program).after
    (∃ n, (p n).agenda = [] ∧ ((p n).timer, (p n).past.firings) = program.foldl Act.carryOut (.start, [])) ∧
      ∀ n, Accounted (p n).timer (p n).past ∧ Proceeds (p n) (p (n + 1)) ∧ LoopsEnd (p n) := by
  intro p
  refine ⟨?_, fun n => ?_⟩
  · obtain ⟨n, hn, -⟩ := reaches_end program (.start, [])
    refine ⟨n, congrArg agenda hn, ?_⟩
    rw [show p n = _ from hn]
    exact (carryOut_program program (.start, [])).symm
  · have h := accounted_after program n
    exact ⟨h, h.proceeds (effect_move _), loopsEnd_after program n⟩

/-- A task may ask for what has passed: it goes before all that waits, and the clock stays. -/
example : ((start [.perform (.due 5 1 [.due 2 2 []]), .perform (.due 5 3 []), .runAll]).after 9).past.firings.map
    (fun f => (f.value, f.now)) = [(1, 5), (2, 5), (3, 5)] := by decide

end Process

end Ostinato.Timer
