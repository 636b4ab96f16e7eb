import Ostinato.Timer.Basic

/-!
  Ostinato.Timer.Run: moving a timer's clock (`advance`, `run_until` and `run_all` of
  `VirtualTimer`).

  `runUntil` fires what falls due up to a moment, one task after another, each while the
  clock reads its deadline; `runAll` goes on to the last deadline until nothing waits. What
  firing does is a `Reaction`: it may register tasks, but only lighter ones, so both end.
-/

namespace Ostinato

/-- What firing a task does to the timer and to the state `σ` that the tasks share. -/
structure Reaction (τ σ : Type) where
  weight : τ → Nat
  fire : Timer.Entry τ → Timer τ × σ → Timer τ × σ
  fire_le : ∀ e x, (fire e x).1.load weight ≤ x.1.load weight + weight e.task

namespace Timer

variable {τ σ : Type}

/-- Fires everything due at a moment, also what is registered on the way, and leaves the clock
    there unless it is past it. -/
def runUntil (r : Reaction τ σ) (moment : Nat) (x : Timer τ × σ) : Timer τ × σ :=
  match _h : x.1.takeDue moment with
  | none => ({ x.1 with now := max x.1.now moment }, x.2)
  | some (e, t) => runUntil r moment (r.fire e (t, x.2))
termination_by x.1.load r.weight
decreasing_by
  have h1 : (r.fire e (t, x.2)).1.load r.weight ≤ t.load r.weight + r.weight e.task := r.fire_le e (t, x.2)
  have h2 := load_takeDue r.weight _h
  omega

theorem load_runUntil_le (r : Reaction τ σ) (moment : Nat) (x : Timer τ × σ) :
    (runUntil r moment x).1.load r.weight ≤ x.1.load r.weight := by
  fun_induction runUntil r moment x with
  | case1 x h => exact Nat.le_refl _
  | case2 x e t h ih =>
    have h1 : (r.fire e (t, x.2)).1.load r.weight ≤ t.load r.weight + r.weight e.task :=
      r.fire_le e (t, x.2)
    have h2 := load_takeDue r.weight h
    omega

theorem load_runUntil_lt (r : Reaction τ σ) {d : Nat} {x : Timer τ × σ}
    (h : x.1.lastDeadline? = some d) :
    (runUntil r d x).1.load r.weight < x.1.load r.weight := by
  obtain ⟨e, t, ht⟩ := takeDue_lastDeadline h
  have h0 : runUntil r d x = runUntil r d (r.fire e (t, x.2)) := by
    rw [runUntil]
    split
    · simp_all
    · simp_all
  have h1 : (r.fire e (t, x.2)).1.load r.weight ≤ t.load r.weight + r.weight e.task := r.fire_le e (t, x.2)
  have h2 := load_takeDue r.weight ht
  have h3 := load_runUntil_le r d (r.fire e (t, x.2))
  rw [h0]
  omega

/-- Moves the clock on; there is no reading past the latest. -/
def advance? (r : Reaction τ σ) (span : Nat) (x : Timer τ × σ) : Option (Timer τ × σ) :=
  if x.1.now + span ≤ latest then some (runUntil r (x.1.now + span) x) else none

/-- Fires tasks until nothing waits. -/
def runAll (r : Reaction τ σ) (x : Timer τ × σ) : Timer τ × σ :=
  match _h : x.1.lastDeadline? with
  | none => x
  | some d => runAll r (runUntil r d x)
termination_by x.1.load r.weight
decreasing_by exact load_runUntil_lt r _h

end Timer

end Ostinato
