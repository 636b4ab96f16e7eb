import Mathlib.Data.List.Basic

/-!
  Ostinato.Proofs.History: what happened, in order, as a list that grows at its end.

  A rule for histories says of every place what must have come before it (`place_concat` takes
  it from one history to the next); what lasts was begun at some place, and not ended at any
  place after (`Lasts`).
-/

namespace Ostinato

variable {β : Type} {xs before after : List β} {x y : β} {begins ends : β → Prop}

/-- A place in a history that has grown is the new one, or was there before. -/
theorem place_concat (h : xs ++ [y] = before ++ x :: after) :
    (xs = before ∧ y = x ∧ after = []) ∨ ∃ rest, after = rest ++ [y] ∧ xs = before ++ x :: rest := by
  rcases List.eq_nil_or_concat after with rfl | ⟨rest, z, rfl⟩
  · obtain ⟨hbefore, hlast⟩ := List.append_inj' h rfl
    exact .inl ⟨hbefore, List.head_eq_of_cons_eq hlast, rfl⟩
  · have h' : xs ++ [y] = (before ++ x :: rest) ++ [z] := by simpa using h
    obtain ⟨hbefore, hlast⟩ := List.append_inj' h' rfl
    exact .inr ⟨rest, by rw [hlast, List.concat_eq_append], hbefore⟩

/-- Whether something was begun and not ended since. -/
def Lasts (begins ends : β → Prop) (xs : List β) : Prop :=
  ∃ before x after, xs = before ++ x :: after ∧ begins x ∧ ∀ y ∈ after, ¬ ends y

theorem not_lasts_nil : ¬ Lasts begins ends [] := by
  intro h
  obtain ⟨before, x, after, heq, -⟩ := h
  simp at heq

theorem lasts_concat : Lasts begins ends (xs ++ [x]) ↔ begins x ∨ Lasts begins ends xs ∧ ¬ ends x := by
  constructor
  · intro h
    obtain ⟨before, y, after, heq, hbegins, hends⟩ := h
    rcases place_concat heq with ⟨-, rfl, -⟩ | ⟨rest, rfl, hplace⟩
    · exact .inl hbegins
    · refine .inr ⟨⟨before, y, rest, hplace, hbegins, fun z hz => hends z ?_⟩, hends x ?_⟩
      · exact List.mem_append_left _ hz
      · exact List.mem_append_right _ (List.mem_singleton_self x)
  · intro h
    rcases h with hbegins | ⟨⟨before, y, after, rfl, hbegins, hends⟩, hx⟩
    · exact ⟨xs, x, [], rfl, hbegins, by simp⟩
    · refine ⟨before, y, after ++ [x], by simp, hbegins, fun z hz => ?_⟩
      rcases List.mem_append.mp hz with hz | hz
      · exact hends z hz
      · exact List.mem_singleton.mp hz ▸ hx

end Ostinato
