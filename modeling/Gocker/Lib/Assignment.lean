import Mathlib.Data.Set.Defs
import Mathlib.Logic.Function.Basic

/-!
# Assignments of unique resources

An allocator's state, seen from outside, is a partial function from owners to
resources.  `Valid A f` says what an allocator promises: nobody holds a resource
outside the pool `A`, and no resource has two holders.  Giving a free resource of
the pool to an owner and taking an owner's resource back keep the promise.

### Use

An allocator shows that each of its operations is one of the two steps, on the function that its
table stands for; then whatever sequence of them has been made, the assignment is valid.
-/

universe u v

namespace Assignment

variable {ι : Type u} {α : Type v} {A B : Set α} {f : ι → Option α}

/-- No resource outside the pool is held, and none is held twice. -/
structure Valid (A : Set α) (f : ι → Option α) : Prop where
  range : ∀ i a, f i = some a → a ∈ A
  injective : ∀ i j a, f i = some a → f j = some a → i = j

/-- Nobody holds anything. -/
theorem Valid.empty : Valid A fun _ : ι => none where
  range := nofun
  injective := nofun

/-- A larger pool allows what a smaller one does. -/
theorem Valid.mono (h : Valid A f) (hAB : A ⊆ B) : Valid B f where
  range i a hi := hAB (h.range i a hi)
  injective := h.injective

variable [DecidableEq ι]

/-- A resource of the pool that nobody holds goes to `i`. -/
theorem Valid.assign (h : Valid A f) {a : α} (ha : a ∈ A) (free : ∀ j, f j ≠ some a) (i : ι) :
    Valid A (Function.update f i (some a)) where
  range j b hj := by
    rcases eq_or_ne j i with rfl | hne
    · rw [Function.update_self] at hj
      obtain rfl := Option.some.inj hj
      exact ha
    · rw [Function.update_of_ne hne] at hj
      exact h.range j b hj
  injective j k b hj hk := by
    rcases eq_or_ne j i with rfl | hji <;> rcases eq_or_ne k j with rfl | hkj
    · rfl
    · rw [Function.update_self] at hj
      rw [Function.update_of_ne hkj, ← hj] at hk
      exact absurd hk (free k)
    · rfl
    · rw [Function.update_of_ne hji] at hj
      rcases eq_or_ne k i with rfl | hki
      · rw [Function.update_self] at hk
        exact absurd (hj.trans hk.symm) (free j)
      · rw [Function.update_of_ne hki] at hk
        exact h.injective j k b hj hk

/-- What `i` holds is taken back. -/
theorem Valid.release (h : Valid A f) (i : ι) : Valid A (Function.update f i none) where
  range j a hj := by
    rcases eq_or_ne j i with rfl | hne
    · rw [Function.update_self] at hj
      exact absurd hj nofun
    · rw [Function.update_of_ne hne] at hj
      exact h.range j a hj
  injective j k a hj hk := by
    have held : ∀ l, Function.update f i none l = some a → f l = some a := by
      intro l hl
      rcases eq_or_ne l i with rfl | hne
      · rw [Function.update_self] at hl
        exact absurd hl nofun
      · rwa [Function.update_of_ne hne] at hl
    exact h.injective j k a (held j hj) (held k hk)

end Assignment
