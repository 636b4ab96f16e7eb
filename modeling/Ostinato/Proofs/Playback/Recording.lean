import Ostinato.Proofs.Playback.Alone

/-!
  Ostinato.Proofs.Playback.Recording: what a scheduler delivers, and when.

  A `Recorded` scheduler writes down every event with the clock reading at its delivery. It is
  otherwise the scheduler itself (`scheduler_run`), and what it writes down is what a listener
  gets (`heard_run`).
-/

namespace Ostinato.Playback

abbrev Record := List (Nat × Event)

/-- A scheduler's timer and stage with a record. -/
abbrev Recorded := Timer Task × Stage × Record

def recordTask (e : Timer.Entry Task) (y : Recorded) : Recorded :=
  let x := fireTask e (y.1, y.2.1)
  (x.1, x.2, y.2.2 ++ (eventsOf (y.2.1.deck.fire y.1.nextId e.task).outputs).map (y.1.now, ·))

def recording : Reaction Task (Stage × Record) where
  weight := Task.weight
  fire := recordTask
  fire_le e y := load_fireTask_le e (y.1, y.2.1)

namespace Recorded

def scheduler (y : Recorded) : Scheduler := ⟨y.1, y.2.1⟩

/-- Only a clock that moves delivers events. -/
def act (y : Recorded) : Act → Recorded
  | .advance span => (Timer.advance? recording span y).getD y
  | .runUntil moment _ => Timer.runUntil recording moment y
  | .runAll => Timer.runAll recording y
  | a => ((y.scheduler.act a).timer, (y.scheduler.act a).stage, y.2.2)

def run (y : Recorded) (acts : List Act) : Recorded := acts.foldl act y

@[simp] theorem run_nil (y : Recorded) : y.run [] = y := rfl
@[simp] theorem run_cons (y : Recorded) (a : Act) (acts : List Act) : y.run (a :: acts) = (y.act a).run acts := rfl

/-- Writing down changes nothing else. -/
theorem scheduler_act (y : Recorded) (a : Act) : (y.act a).scheduler = y.scheduler.act a := by
  have hfire : ∀ e t (z : Stage × Record), firing.fire e (t, z.1)
      = ((recording.fire e (t, z)).1, (recording.fire e (t, z)).2.1) := fun _ _ _ => rfl
  have huntil : ∀ moment, Recorded.scheduler (Timer.runUntil recording moment y) = y.scheduler.runUntil moment := by
    intro moment
    exact congrArg Scheduler.ofPair (Timer.runUntil_forget hfire moment y).symm
  cases a with
  | advance span =>
    simp only [act, Scheduler.act, Scheduler.advance?, Timer.advance?]
    by_cases hs : y.1.now + span ≤ latest
    · simp only [scheduler, hs, if_true, Option.map_some, Option.getD_some]
      exact huntil _
    · simp only [scheduler, hs, if_false, Option.map_none, Option.getD_none]
  | runUntil moment hm => exact huntil moment
  | runAll => exact congrArg Scheduler.ofPair (Timer.runAll_forget hfire y).symm
  | play text => rfl
  | playNotes notes => rfl
  | stop => rfl
  | subscribe => rfl
  | unsubscribe index => rfl
  | read => rfl

theorem scheduler_run (y : Recorded) (acts : List Act) : (y.run acts).scheduler = y.scheduler.run acts := by
  induction acts generalizing y with
  | nil => rfl
  | cons a acts ih =>
    rw [run_cons, ih, scheduler_act]
    rfl

end Recorded

/-- What a scheduler delivers while acts are done, with the reading of its clock at each event. -/
def Scheduler.record (s : Scheduler) (acts : List Act) : Record := (Recorded.run (s.timer, s.stage, []) acts).2.2

/-! ## What a listener gets -/

def Stage.inbox (s : Stage) (i : Nat) : List Event :=
  match s.listeners[i]? with
  | some (.listening inbox) => inbox
  | _ => []

/-- What a listener reads at an act. -/
def Act.taken (i : Nat) (s : Scheduler) : Act → List Event
  | read => s.stage.inbox i
  | _ => []

/-- What a listener has got after some acts: what it reads on the way, and what is left to read. -/
def Scheduler.heard (i : Nat) : Scheduler → List Act → List Event
  | s, [] => s.stage.inbox i
  | s, a :: acts => a.taken i s ++ heard i (s.act a) acts

variable {i : Nat} {inbox : List Event} {record : Record} {y : Recorded}

theorem Stage.inbox_listening {s : Stage} (h : s.listeners[i]? = some (.listening inbox)) : s.inbox i = inbox := by
  unfold Stage.inbox
  rw [h]

/-- A listener has, beyond an inbox, what was written down beyond a record. -/
def Hears (i : Nat) (inbox : List Event) (record : Record) (y : Recorded) : Prop :=
  ∃ new, y.2.2 = record ++ new ∧ y.2.1.listeners[i]? = some (.listening (inbox ++ new.map (·.2)))

theorem Hears.fire (h : Hears i inbox record y) (e : Timer.Entry Task) (t : Timer Task) :
    Hears i inbox record (recordTask e (t, y.2)) := by
  obtain ⟨new, hrec, hl⟩ := h
  refine ⟨new ++ (eventsOf (y.2.1.deck.fire t.nextId e.task).outputs).map (t.now, ·), ?_, ?_⟩
  · exact (congrArg (· ++ _) hrec).trans (List.append_assoc ..)
  · simp only [recordTask, fireTask_listeners, List.getElem?_map, hl, Option.map_some, Listener.after_listening,
      List.map_append, List.map_map, List.append_assoc]
    rw [show ((fun x : Nat × Event => x.2) ∘ fun e' => (t.now, e')) = id from rfl, List.map_id]

theorem Hears.runUntil (h : Hears i inbox record y) (moment : Nat) :
    Hears i inbox record (Timer.runUntil recording moment y) :=
  Timer.runUntil_induction (P := Hears i inbox record) (fun _ e t hx _ => hx.fire e t) (fun _ hx _ => hx) h

/-- After an act, what it reads and what it leaves is the inbox with what the act delivers. -/
theorem heard_act (h : y.2.1.listeners[i]? = some (.listening inbox)) {a : Act} (hi : a ≠ .unsubscribe i) :
    ∃ left, a.taken i y.scheduler ++ left = inbox ∧ Hears i left y.2.2 (y.act a) := by
  have hl : y.2.1.listeners[i]? = some (.listening (inbox ++ ([] : Record).map (·.2))) := by
    rw [List.map_nil, List.append_nil]
    exact h
  have hstart : Hears i inbox y.2.2 y := ⟨[], (List.append_nil _).symm, hl⟩
  -- Only a clock that moves delivers; no other act writes anything down.
  cases a with
  | read =>
    refine ⟨[], ?_, [], (List.append_nil _).symm, ?_⟩
    · rw [List.append_nil]
      exact Stage.inbox_listening h
    · show (y.2.1.drain.2).listeners[i]? = _
      simp [Stage.drain, h]
  | advance span =>
    refine ⟨inbox, rfl, ?_⟩
    simp only [Recorded.act, Timer.advance?]
    split
    · exact hstart.runUntil _
    · exact hstart
  | runUntil moment hm => exact ⟨inbox, rfl, hstart.runUntil moment⟩
  | runAll =>
    refine ⟨inbox, rfl, ?_⟩
    exact Timer.runAll_induction (P := Hears i inbox y.2.2) (fun _ _ hx _ => hx.runUntil _) hstart
  | play text =>
    refine ⟨inbox, rfl, [], (List.append_nil _).symm, ?_⟩
    simp only [Recorded.act, Scheduler.act, Scheduler.play]
    split
    · exact hl
    · simp only [Scheduler.listeners_playNotes]
      exact hl
  | playNotes notes =>
    refine ⟨inbox, rfl, [], (List.append_nil _).symm, ?_⟩
    simp only [Recorded.act, Scheduler.act, Scheduler.listeners_playNotes]
    exact hl
  | stop =>
    refine ⟨inbox, rfl, [], (List.append_nil _).symm, ?_⟩
    simp only [Recorded.act, Scheduler.act, Scheduler.listeners_stop]
    exact hl
  | subscribe =>
    refine ⟨inbox, rfl, [], (List.append_nil _).symm, ?_⟩
    exact (List.getElem?_append_left (List.getElem?_eq_some_iff.mp h).1).trans hl
  | unsubscribe j =>
    refine ⟨inbox, rfl, [], (List.append_nil _).symm, ?_⟩
    have hj : j ≠ i := fun h => hi (h ▸ rfl)
    exact (List.getElem?_modify_ne _ _ hj).trans hl

theorem heard_recorded (h : y.2.1.listeners[i]? = some (.listening inbox)) {acts : List Act}
    (ha : ∀ a ∈ acts, a ≠ .unsubscribe i) :
    ∃ new, (y.run acts).2.2 = y.2.2 ++ new ∧ y.scheduler.heard i acts = inbox ++ new.map (·.2) := by
  induction acts generalizing y inbox with
  | nil =>
    refine ⟨[], (List.append_nil _).symm, ?_⟩
    rw [List.map_nil, List.append_nil]
    exact Stage.inbox_listening h
  | cons a acts ih =>
    obtain ⟨left, htaken, new, hrec, hl⟩ := heard_act h (ha a (List.mem_cons_self ..))
    obtain ⟨more, hrec', hheard⟩ := ih hl fun b hb => ha b (List.mem_cons_of_mem _ hb)
    refine ⟨new ++ more, ?_, ?_⟩
    · rw [Recorded.run_cons, hrec', hrec, List.append_assoc]
    · rw [Scheduler.heard, ← Recorded.scheduler_act, hheard, List.map_append, ← htaken]
      simp only [List.append_assoc]

/-- A listener that does not hang up gets what is delivered, in its order, whenever it reads. -/
theorem heard_run {s : Scheduler} (h : s.stage.listeners[i]? = some (.listening inbox)) {acts : List Act}
    (ha : ∀ a ∈ acts, a ≠ .unsubscribe i) : s.heard i acts = inbox ++ (s.record acts).map (·.2) := by
  obtain ⟨new, hrec, hheard⟩ := heard_recorded (y := (s.timer, s.stage, [])) h ha
  rw [show s.record acts = new from hrec]
  exact hheard

end Ostinato.Playback
