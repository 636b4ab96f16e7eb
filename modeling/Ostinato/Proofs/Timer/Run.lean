import Ostinato.Proofs.Timer.Queue
import Ostinato.Timer.Run

/-!
  Ostinato.Proofs.Timer.Run: reasoning about a clock that moves.

  A run is a sequence of firings, each of the first task due, and a last step that sets the
  clock; what all of these keep, the run keeps (`runUntil_induction`, `runAll_induction`).
  After a run nothing is due at the moment that it went to (`takeDue_runUntil`), after
  `runAll` nothing waits (`queue_runAll`). A state may carry more than a reaction looks at:
  the run does not depend on it (`runUntil_forget`, `runAll_forget`).

  A run may be interrupted at any moment: going on from there gives what one run gives
  (`runUntil_runUntil`).
-/

namespace Ostinato.Timer

variable {τ σ : Type}

theorem takeDue_eq_some {t u : Timer τ} {moment : Nat} {e : Entry τ} : t.takeDue moment = some (e, u) ↔
    ∃ rest, t.queue = e :: rest ∧ e.deadline ≤ moment ∧ u = { t with now := max t.now e.deadline, queue := rest } := by
  unfold takeDue
  cases hq : t.queue with
  | nil => simp
  | cons x rest =>
    by_cases hd : x.deadline ≤ moment
    · simp only [hd, if_true, Option.some.injEq, Prod.mk.injEq, List.cons.injEq]
      constructor
      · rintro ⟨rfl, rfl⟩
        exact ⟨rest, ⟨rfl, rfl⟩, hd, rfl⟩
      · rintro ⟨_, ⟨rfl, rfl⟩, -, rfl⟩
        exact ⟨rfl, rfl⟩
    · simp only [hd, if_false, reduceCtorEq, List.cons.injEq, false_iff]
      rintro ⟨_, ⟨rfl, -⟩, h, -⟩
      exact hd h

theorem takeDue_eq_none {t : Timer τ} {moment : Nat} :
    t.takeDue moment = none ↔ ∀ e rest, t.queue = e :: rest → moment < e.deadline := by
  unfold takeDue
  cases hq : t.queue with
  | nil => simp
  | cons x rest =>
    by_cases hd : x.deadline ≤ moment
    · simp only [hd, if_true, reduceCtorEq, false_iff]
      intro h
      have := h x rest rfl
      omega
    · simp only [hd, if_false, true_iff]
      intro e _ h
      cases h
      omega

/-- Where the first of a queue in order is not due, nothing is. -/
theorem lt_deadline_of_takeDue {t : Timer τ} {moment : Nat} (ho : InOrder t.queue) (h : t.takeDue moment = none) :
    ∀ e ∈ t.queue, moment < e.deadline := by
  intro e he
  cases hq : t.queue with
  | nil => simp [hq] at he
  | cons x rest =>
    have hx : moment < x.deadline := takeDue_eq_none.mp h x rest hq
    rw [hq] at he ho
    rcases List.mem_cons.mp he with rfl | he
    · exact hx
    · exact Nat.lt_of_lt_of_le hx ((List.pairwise_cons.mp ho).1 e he)

/-! ## Running to a moment -/

theorem runUntil_of_none (r : Reaction τ σ) {moment : Nat} {x : Timer τ × σ} (h : x.1.takeDue moment = none) :
    runUntil r moment x = ({ x.1 with now := max x.1.now moment }, x.2) := by
  rw [runUntil]
  split
  · rfl
  · rename_i h'
    rw [h] at h'
    cases h'

theorem runUntil_of_some (r : Reaction τ σ) {moment : Nat} {x : Timer τ × σ} {e : Entry τ} {t : Timer τ}
    (h : x.1.takeDue moment = some (e, t)) : runUntil r moment x = runUntil r moment (r.fire e (t, x.2)) := by
  rw [runUntil]
  split
  · rename_i h'
    rw [h] at h'
    cases h'
  · rename_i h'
    rw [h] at h'
    cases h'
    rfl

theorem runUntil_of_nil (r : Reaction τ σ) (moment : Nat) {x : Timer τ × σ} (h : x.1.queue = []) :
    (runUntil r moment x).2 = x.2 := by
  rw [runUntil_of_none r (takeDue_eq_none.mpr fun e rest hq => by rw [h] at hq; cases hq)]

/-- What every firing and the last step of the clock keep, the run keeps. -/
theorem runUntil_induction {r : Reaction τ σ} {moment : Nat} {P : Timer τ × σ → Prop}
    (hfire : ∀ x e t, P x → x.1.takeDue moment = some (e, t) → P (r.fire e (t, x.2)))
    (hclock : ∀ x, P x → x.1.takeDue moment = none → P ({ x.1 with now := max x.1.now moment }, x.2))
    {x : Timer τ × σ} (h : P x) : P (runUntil r moment x) := by
  fun_induction runUntil r moment x with
  | case1 x hx => exact hclock x h hx
  | case2 x e t hx ih => exact ih (hfire x e t h hx)

theorem takeDue_runUntil (r : Reaction τ σ) (moment : Nat) (x : Timer τ × σ) :
    (runUntil r moment x).1.takeDue moment = none := by
  fun_induction runUntil r moment x with
  | case1 x hx => exact takeDue_eq_none.mpr fun e rest hq => takeDue_eq_none.mp hx e rest hq
  | case2 x e t hx ih => exact ih

theorem takeDue_mono {t u : Timer τ} {e : Entry τ} {moment later : Nat} (hle : moment ≤ later)
    (h : t.takeDue moment = some (e, u)) : t.takeDue later = some (e, u) := by
  obtain ⟨rest, hq, hd, hu⟩ := takeDue_eq_some.mp h
  exact takeDue_eq_some.mpr ⟨rest, hq, Nat.le_trans hd hle, hu⟩

/-- A run that stops on the way and goes on is one run: what it finds next is due after the
    moment at which it stopped, and so sets the clock as if it had not stopped. -/
theorem runUntil_runUntil (r : Reaction τ σ) (first second : Nat) (x : Timer τ × σ) :
    runUntil r second (runUntil r first x) = runUntil r (max first second) x := by
  fun_induction runUntil r first x with
  | case1 x hx =>
    cases hm : x.1.takeDue (max first second) with
    | none =>
      have hsecond : ({ x.1 with now := max x.1.now first } : Timer τ).takeDue second = none :=
        takeDue_eq_none.mpr fun e rest hq =>
          Nat.lt_of_le_of_lt (Nat.le_max_right ..) (takeDue_eq_none.mp hm e rest hq)
      rw [runUntil_of_none r hm, runUntil_of_none r hsecond, Nat.max_assoc]
    | some p =>
      obtain ⟨e, t⟩ := p
      obtain ⟨rest, hq, hd, rfl⟩ := takeDue_eq_some.mp hm
      -- The clock was moved to the first moment, but the task fires later and sets it again.
      have hfirst : first < e.deadline := takeDue_eq_none.mp hx e rest hq
      have hmax : max first second = second := by omega
      have hnow : max (max x.1.now first) e.deadline = max x.1.now e.deadline := by omega
      have hsecond : ({ x.1 with now := max x.1.now first } : Timer τ).takeDue second
          = some (e, { x.1 with now := max x.1.now e.deadline, queue := rest }) :=
        takeDue_eq_some.mpr ⟨rest, hq, hmax ▸ hd, by rw [hnow]⟩
      rw [runUntil_of_some r hm, runUntil_of_some r hsecond, hmax]
  | case2 x e t hx ih => rw [ih, runUntil_of_some r (takeDue_mono (Nat.le_max_left ..) hx)]

/-- Whether firing leaves the clock alone. -/
def KeepsClock (r : Reaction τ σ) : Prop := ∀ e x, (r.fire e x).1.now = x.1.now

theorem now_runUntil {r : Reaction τ σ} (hr : KeepsClock r) (moment : Nat) (x : Timer τ × σ) :
    (runUntil r moment x).1.now = max x.1.now moment := by
  fun_induction runUntil r moment x with
  | case1 x hx => rfl
  | case2 x e t hx ih =>
    obtain ⟨rest, -, hd, rfl⟩ := takeDue_eq_some.mp hx
    rw [ih, hr]
    show max (max x.1.now e.deadline) moment = max x.1.now moment
    omega

theorem advance?_of_le (r : Reaction τ σ) {span : Nat} {x : Timer τ × σ} (h : x.1.now + span ≤ latest) :
    advance? r span x = some (runUntil r (x.1.now + span) x) := if_pos h

theorem advance?_advance? {r : Reaction τ σ} (hr : KeepsClock r) {a b : Nat} {x : Timer τ × σ}
    (h : x.1.now + a + b ≤ latest) : (advance? r a x).bind (advance? r b) = advance? r (a + b) x := by
  have hnow : (runUntil r (x.1.now + a) x).1.now = x.1.now + a := by
    rw [now_runUntil hr]
    omega
  have hboth : max (x.1.now + a) (x.1.now + a + b) = x.1.now + (a + b) := by omega
  rw [advance?_of_le r (by omega), Option.bind_some, advance?_of_le r (by omega), advance?_of_le r (by omega), hnow,
    runUntil_runUntil, hboth]

/-! ## Running until nothing waits -/

theorem lastDeadline?_eq_none {t : Timer τ} : t.lastDeadline? = none ↔ t.queue = [] := by
  unfold lastDeadline?
  cases t.queue <;> simp

theorem lastDeadline?_mem {t : Timer τ} {d : Nat} (h : t.lastDeadline? = some d) : ∃ e ∈ t.queue, e.deadline = d := by
  unfold lastDeadline? at h
  cases hq : t.queue with
  | nil => rw [hq] at h; cases h
  | cons e rest =>
    rw [hq] at h
    cases h
    clear hq
    induction rest generalizing e with
    | nil => exact ⟨e, List.mem_cons_self .., rfl⟩
    | cons x rest ih =>
      rcases Nat.le_total e.deadline x.deadline with hle | hle
      · obtain ⟨y, hy, hd⟩ := ih x
        refine ⟨y, List.mem_cons_of_mem _ hy, ?_⟩
        rw [hd, List.foldl_cons, Nat.max_eq_right hle]
      · obtain ⟨y, hy, hd⟩ := ih e
        refine ⟨y, ?_, ?_⟩
        · rcases List.mem_cons.mp hy with rfl | hy
          · exact List.mem_cons_self ..
          · exact List.mem_cons_of_mem _ (List.mem_cons_of_mem _ hy)
        · rw [hd, List.foldl_cons, Nat.max_eq_left hle]

theorem runAll_of_none (r : Reaction τ σ) {x : Timer τ × σ} (h : x.1.lastDeadline? = none) : runAll r x = x := by
  rw [runAll]
  split
  · rfl
  · rename_i h'
    rw [h] at h'
    cases h'

theorem runAll_of_nil (r : Reaction τ σ) {x : Timer τ × σ} (h : x.1.queue = []) : runAll r x = x :=
  runAll_of_none r (lastDeadline?_eq_none.mpr h)

theorem runAll_of_some (r : Reaction τ σ) {x : Timer τ × σ} {d : Nat} (h : x.1.lastDeadline? = some d) :
    runAll r x = runAll r (runUntil r d x) := by
  rw [runAll]
  split
  · rename_i h'
    rw [h] at h'
    cases h'
  · rename_i h'
    rw [h] at h'
    cases h'
    rfl

/-- What every run to a deadline that waits keeps, the whole run keeps. -/
theorem runAll_induction {r : Reaction τ σ} {P : Timer τ × σ → Prop}
    (hrun : ∀ x d, P x → (∃ e ∈ x.1.queue, e.deadline = d) → P (runUntil r d x))
    {x : Timer τ × σ} (h : P x) : P (runAll r x) := by
  fun_induction runAll r x with
  | case1 x hx => exact h
  | case2 x d hx ih => exact ih (hrun x d h (lastDeadline?_mem hx))

theorem queue_runAll (r : Reaction τ σ) (x : Timer τ × σ) : (runAll r x).1.queue = [] := by
  fun_induction runAll r x with
  | case1 x hx => exact lastDeadline?_eq_none.mp hx
  | case2 x d hx ih => exact ih

/-! ## Forgetting -/

section Forget

variable {ρ : Type} {r : Reaction τ σ} {wide : Reaction τ ρ} {forget : ρ → σ}

/-- A state may carry what the reaction does not look at. -/
theorem runUntil_forget (h : ∀ e t y, r.fire e (t, forget y) = ((wide.fire e (t, y)).1, forget (wide.fire e (t, y)).2))
    (moment : Nat) (y : Timer τ × ρ) : runUntil r moment (y.1, forget y.2)
      = ((runUntil wide moment y).1, forget (runUntil wide moment y).2) := by
  fun_induction runUntil wide moment y with
  | case1 y hy => exact runUntil_of_none r hy
  | case2 y e t hy ih =>
    rw [runUntil_of_some r (x := (y.1, forget y.2)) hy, ← ih, h]

theorem runAll_forget (h : ∀ e t y, r.fire e (t, forget y) = ((wide.fire e (t, y)).1, forget (wide.fire e (t, y)).2))
    (y : Timer τ × ρ) : runAll r (y.1, forget y.2) = ((runAll wide y).1, forget (runAll wide y).2) := by
  fun_induction runAll wide y with
  | case1 y hy => exact runAll_of_none r hy
  | case2 y d hy ih =>
    rw [runAll_of_some r (x := (y.1, forget y.2)) hy, runUntil_forget h, ← ih]

end Forget

end Ostinato.Timer
