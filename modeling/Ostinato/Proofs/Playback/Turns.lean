import Ostinato.Proofs.Playback.Operations
import Ostinato.Proofs.Timer.Program

/-!
  Ostinato.Proofs.Playback.Turns: a clock that is moved on in pieces.

  Stopping on the way moves the clock to a moment at which nothing is due any more, and no
  task can tell: the next one that fires is due later, and sets the clock itself. So a run in
  pieces is one run (`InPieces`), for all that its tasks do to the timer.

  A scheduler keeps its clock where the timer has it, so this holds of it, too. However its
  clock is moved on, the reading at which that ends decides everything, also what its
  listeners have got (`pieces_add_up`).
-/

namespace Ostinato

/-- A run to a moment may stop at an earlier one, and an advance may be made in two. -/
structure Timer.InPieces {τ σ : Type} (r : Reaction τ σ) : Prop where
  runUntil : ∀ (x : Timer τ × σ) (first second : Nat), first ≤ second →
    Timer.runUntil r second (Timer.runUntil r first x) = Timer.runUntil r second x
  advance : ∀ (x : Timer τ × σ) (a b : Nat), x.1.now + a + b ≤ latest →
    (advance? r a x).bind (advance? r b) = advance? r (a + b) x

theorem Timer.KeepsClock.inPieces {τ σ : Type} {r : Reaction τ σ} (hr : KeepsClock r) : InPieces r where
  runUntil x first second hle := by rw [runUntil_runUntil, Nat.max_eq_right hle]
  advance _ _ _ h := advance?_advance? hr h

namespace Playback

theorem keepsClock_fireTask : Timer.KeepsClock firing := by
  intro e x
  show (wakeLater x.1 (x.2.deck.fire x.1.nextId e.task).wake).now = x.1.now
  cases (x.2.deck.fire x.1.nextId e.task).wake with
  | none => rfl
  | some wake => rfl

/-- A way to move the clock of a scheduler. -/
inductive Turn where
  | advance (span : Nat)
  | upTo (moment : Nat)
  /-- To the end of all that waits. -/
  | through

namespace Scheduler

/-- There is no advance past the latest reading. -/
def turn? (s : Scheduler) : Turn → Option Scheduler
  | .advance span => s.advance? span
  | .upTo moment => some (s.runUntil moment)
  | .through => some s.runAll

def turnAll? (s : Scheduler) (turns : List Turn) : Option Scheduler := turns.foldlM turn? s

@[simp] theorem turnAll?_nil (s : Scheduler) : s.turnAll? [] = some s := rfl

@[simp] theorem turnAll?_cons (s : Scheduler) (turn : Turn) (turns : List Turn) :
    s.turnAll? (turn :: turns) = (s.turn? turn).bind (turnAll? · turns) := rfl

/-- Whether one run, if any, leads from a scheduler to another. -/
def RunsTo (s u : Scheduler) : Prop := u = s ∨ ∃ moment, u = s.runUntil moment

variable {s t u : Scheduler}

theorem now_runUntil (s : Scheduler) (moment : Nat) : (s.runUntil moment).timer.now = max s.timer.now moment :=
  Timer.now_runUntil keepsClock_fireTask moment (s.timer, s.stage)

theorem advance?_of_le {span : Nat} (h : s.timer.now + span ≤ latest) :
    s.advance? span = some (s.runUntil (s.timer.now + span)) :=
  congrArg (Option.map ofPair) (Timer.advance?_of_le firing h)

theorem turnAll?_advances (s : Scheduler) (a b : Nat) (h : s.timer.now + a + b ≤ latest) :
    s.turnAll? [.advance a, .advance b]
      = some ((s.runUntil (s.timer.now + a)).runUntil (s.timer.now + a + b)) := by
  have hnow : (s.runUntil (s.timer.now + a)).timer.now = s.timer.now + a := by
    rw [now_runUntil]
    omega
  simp only [turnAll?_cons, turnAll?_nil, turn?]
  rw [advance?_of_le (by omega), Option.bind_some, advance?_of_le (by omega), Option.bind_some, hnow]

theorem RunsTo.runUntil (h : RunsTo s t) (moment : Nat) : RunsTo s (t.runUntil moment) := by
  rcases h with rfl | ⟨first, rfl⟩
  · exact .inr ⟨moment, rfl⟩
  · exact .inr ⟨max first moment, congrArg ofPair (Timer.runUntil_runUntil firing first moment (s.timer, s.stage))⟩

theorem RunsTo.runAll (h : RunsTo s t) : RunsTo s t.runAll :=
  Timer.runAll_induction (P := fun x => RunsTo s (ofPair x)) (fun _ moment hx _ => hx.runUntil moment) h

theorem RunsTo.turn (h : RunsTo s t) {turn : Turn} (hturn : t.turn? turn = some u) : RunsTo s u := by
  cases turn with
  | upTo moment =>
    cases hturn
    exact h.runUntil moment
  | through =>
    cases hturn
    exact h.runAll
  | advance span =>
    simp only [turn?, advance?, Timer.advance?] at hturn
    split at hturn
    · cases hturn
      exact h.runUntil _
    · cases hturn

theorem RunsTo.turnAll (h : RunsTo s t) {turns : List Turn} (hturns : t.turnAll? turns = some u) : RunsTo s u := by
  induction turns generalizing t with
  | nil =>
    cases hturns
    exact h
  | cons turn turns ih =>
    obtain ⟨v, hv, hrest⟩ := Option.bind_eq_some_iff.mp hturns
    exact ih (h.turn hv) hrest

/-- The run that leads to a later reading goes to that reading. -/
theorem RunsTo.eq_runUntil (h : RunsTo s u) (hlater : s.timer.now < u.timer.now) : u = s.runUntil u.timer.now := by
  rcases h with rfl | ⟨moment, rfl⟩
  · exact absurd hlater (Nat.lt_irrefl _)
  · have hnow := s.now_runUntil moment
    have hmoment : (s.runUntil moment).timer.now = moment := by omega
    rw [hmoment]

/-- Time may be cut into pieces: for tasks that register and cancel tasks as they fire, with all
    that happens to every task and what each reads on the clock; and for a scheduler, where two
    ways of moving the clock on from one state that arrive at one reading arrive at one state. -/
theorem pieces_add_up {α : Type} :
    Timer.InPieces (Timer.firing (α := α)) ∧ Timer.InPieces (Timer.recording (α := α)) ∧ Timer.InPieces firing ∧
      ∀ (s t u : Scheduler) (turns turns' : List Turn), s.turnAll? turns = some t → s.turnAll? turns' = some u →
        s.timer.now < t.timer.now → t.timer.now = u.timer.now → t = u := by
  refine ⟨Timer.keepsClock_firing.inPieces, Timer.keepsClock_recording.inPieces, keepsClock_fireTask.inPieces, ?_⟩
  intro s t u turns turns' ht hu hlater hsame
  have hfirst := (RunsTo.turnAll (.inl rfl) ht).eq_runUntil hlater
  have hsecond := (RunsTo.turnAll (.inl rfl) hu).eq_runUntil (hsame ▸ hlater)
  rw [hfirst, hsame, ← hsecond]

/-- Two halves of a second, and one second with a stop at a moment that has passed. -/
theorem pieces_add_up_seconds : let s := (empty.subscribe.playNotes [⟨0, ['c'], 0, 127, 60, 0, 500⟩]).1
    let half := 500 * nanosPerMilli
    ∃ t, s.turnAll? [.advance half, .advance half] = some t ∧ s.turnAll? [.upTo (half + half), .upTo 7] = some t := by
  intro s half
  have hstart : s.timer.now = 0 := rfl
  have hhalves := turnAll?_advances s half half (by rw [hstart]; decide)
  have hstops : s.turnAll? [.upTo (half + half), .upTo 7] = some ((s.runUntil (half + half)).runUntil 7) := rfl
  have hlater : s.timer.now < ((s.runUntil (s.timer.now + half)).runUntil (s.timer.now + half + half)).timer.now := by
    rw [now_runUntil, now_runUntil, hstart]
    decide
  have hsame := (pieces_add_up (α := Nat)).2.2.2 s _ _ _ _ hhalves hstops hlater (by simp only [now_runUntil, hstart]; decide)
  exact ⟨_, hhalves, hsame ▸ hstops⟩

end Scheduler

end Playback

end Ostinato
