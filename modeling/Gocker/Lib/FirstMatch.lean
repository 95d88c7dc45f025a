import Mathlib.Data.List.Basic
import Mathlib.Order.Basic

/-!
# The first match and the only match

Two ways of looking something up in a list: the first element that matches
(`List.find?`), and the only one (`onlyMatch`, which finds nothing where several
match).

* `find?_eq_onlyMatch_iff`: they agree exactly where at most one element matches.
* `find?_best_iff`: where matches are ranked, the first match is one of the best
  exactly where every match that is not is behind a best one.
-/

universe u

namespace FirstMatch

variable {α : Type u} {p : α → Bool} {xs : List α}

/-- The only match. -/
def onlyMatch (p : α → Bool) (xs : List α) : Option α :=
  match xs.filter p with
  | [x] => some x
  | _ => none

/-- The first match is the only one exactly where at most one element matches. -/
theorem find?_eq_onlyMatch_iff : xs.find? p = onlyMatch p xs ↔ (xs.filter p).length ≤ 1 := by
  rw [← List.head?_filter, onlyMatch]
  rcases xs.filter p with _ | ⟨x, _ | ⟨y, ys⟩⟩ <;> simp

/-- Every match that is not one of the best has a best one in front of it. -/
def BestFirst (p : α → Bool) (rank : α → ℕ) (xs : List α) : Prop :=
  ∀ before x behind, xs = before ++ x :: behind → p x → (∃ y ∈ xs, p y ∧ rank y < rank x) →
    ∃ y ∈ before, p y ∧ ∀ z ∈ xs, p z → rank y ≤ rank z

/-- The first match is a best one exactly where a best one comes first. -/
theorem find?_best_iff (rank : α → ℕ) :
    (∀ x, xs.find? p = some x → ∀ y ∈ xs, p y → rank x ≤ rank y) ↔ BestFirst p rank xs := by
  constructor
  · intro h before x behind hxs hx hbetter
    obtain ⟨y, hy, hpy, hlt⟩ := hbetter
    obtain ⟨f, hf⟩ : ∃ f, xs.find? p = some f := by
      rw [← Option.isSome_iff_exists, List.find?_isSome]
      exact ⟨y, hy, hpy⟩
    have hbest := h f hf
    -- the first match is not `x`, and not behind it
    refine ⟨f, ?_, List.find?_some hf, hbest⟩
    rw [hxs, List.find?_append, List.find?_cons_of_pos hx] at hf
    cases hbefore : before.find? p with
    | none =>
        rw [hbefore] at hf
        obtain rfl : x = f := Option.some.inj hf
        exact absurd (hbest y hy hpy) (Nat.not_le.mpr hlt)
    | some g =>
        rw [hbefore] at hf
        obtain rfl : g = f := Option.some.inj hf
        exact List.mem_of_find?_eq_some hbefore
  · intro h x hx y hy hpy
    obtain ⟨hpx, before, behind, hxs, hnone⟩ := List.find?_eq_some_iff_append.mp hx
    by_contra hnot
    obtain ⟨z, hz, hpz, -⟩ := h before x behind hxs hpx ⟨y, hy, hpy, Nat.not_le.mp hnot⟩
    simpa [hpz] using hnone z hz

end FirstMatch
