import Mathlib.Logic.Basic

/-!
# Programs that may fail half way

`EStateM ε σ α` keeps the state in which a program has failed.  What an operation did before
the failure stays done, and a result says both how the program ended and where.

* `bind_eq_ok` and `bind_eq_error` take a sequence apart at a success and at a failure.
* `Keeps x I` says that `x` preserves `I` however it ends; it is closed under the ways a
  program is put together.
* `wrap` puts a text before an error, `attempt` goes on after one.
* `Spec P x Q E` says what holds after a success and what after a failure; it has a rule for each
  way a program is put together, and `weaken`.

### Use

A program that sets something up step by step, and returns at the first step that fails, leaves
behind what the steps before have done.  With `Spec` both outcomes are followed together: the
failure condition `E` is about the state at any of the places where the program may end.
-/

namespace Fallible

variable {ε σ α β : Type}

/-- Where a program has ended. -/
def final : EStateM.Result ε σ α → σ
  | .ok _ t => t
  | .error _ t => t

/-- The error of `x` behind a text and a colon. -/
def wrap (text : String) (x : EStateM String σ α) : EStateM String σ α :=
  x.adaptExcept fun err => text ++ ": " ++ err

/-- Run `x` and go on with its result or its error. -/
def attempt (x : EStateM ε σ α) : EStateM ε σ (Except ε α) := fun s =>
  match x s with
  | .ok a t => .ok (.ok a) t
  | .error e t => .ok (.error e) t

/-- A result that needs no state. -/
def lift (x : Except ε α) : EStateM ε σ α := fun s =>
  match x with
  | .ok a => .ok a s
  | .error e => .error e s

/-! ## Taking a run apart -/

/-- A sequence goes on after a success, with the state that the first part has left. -/
theorem bind_apply (x : EStateM ε σ α) (f : α → EStateM ε σ β) (s : σ) :
    (x >>= f) s =
      match x s with
      | .ok a t => f a t
      | .error e t => .error e t := rfl

theorem bind_of_ok {x : EStateM ε σ α} {f : α → EStateM ε σ β} {s t : σ} {a : α}
    (h : x s = .ok a t) : (x >>= f) s = f a t := by
  rw [bind_apply, h]

/-- A sequence that succeeds has succeeded in both parts. -/
theorem bind_eq_ok {x : EStateM ε σ α} {f : α → EStateM ε σ β} {s u : σ} {b : β} :
    (x >>= f) s = .ok b u ↔ ∃ a t, x s = .ok a t ∧ f a t = .ok b u := by
  rw [bind_apply]
  cases x s <;> simp [and_assoc]

/-- One that fails has failed in the first part, or in the second after the first. -/
theorem bind_eq_error {x : EStateM ε σ α} {f : α → EStateM ε σ β} {s u : σ} {e : ε} :
    (x >>= f) s = .error e u ↔
      x s = .error e u ∨ ∃ a t, x s = .ok a t ∧ f a t = .error e u := by
  rw [bind_apply]
  cases x s <;> simp [and_assoc]

/-- An attempt never fails; it says how its program ended. -/
theorem attempt_apply (x : EStateM ε σ α) (s : σ) :
    attempt x s =
      match x s with
      | .ok a t => .ok (.ok a) t
      | .error e t => .ok (.error e) t := rfl

theorem wrap_apply (text : String) (x : EStateM String σ α) (s : σ) :
    wrap text x s =
      match x s with
      | .ok a t => .ok a t
      | .error e t => .error (text ++ ": " ++ e) t := by
  unfold wrap EStateM.adaptExcept
  cases x s <;> rfl

@[simp] theorem wrap_eq_ok {text : String} {x : EStateM String σ α} {s t : σ} {a : α} :
    wrap text x s = .ok a t ↔ x s = .ok a t := by
  rw [wrap_apply]
  cases x s <;> simp

/-- A value that is there leaves the state alone. -/
@[simp] theorem lift_eq_ok {x : Except ε α} {s t : σ} {a : α} :
    lift x s = .ok a t ↔ x = .ok a ∧ s = t := by
  cases x <;> simp [lift]

@[simp] theorem mapError_eq_ok {ε' : Type} {x : Except ε α} {f : ε → ε'} {a : α} :
    x.mapError f = .ok a ↔ x = .ok a := by
  constructor
  · intro h
    cases x with
    | ok b => exact congrArg Except.ok (Except.ok.inj h)
    | error e => nomatch h
  · rintro rfl
    rfl

theorem throw_ne_ok {e : ε} {s t : σ} {a : α} : (throw e : EStateM ε σ α) s ≠ .ok a t := nofun

/-- The state in which it ends is the same with the text. -/
@[simp] theorem final_wrap (text : String) (x : EStateM String σ α) (s : σ) :
    final (wrap text x s) = final (x s) := by
  rw [wrap_apply]
  cases x s <;> rfl

/-! ## What a program keeps -/

/-- However `x` ends, `I` still holds. -/
def Keeps (x : EStateM ε σ α) (I : σ → Prop) : Prop := ∀ s, I s → I (final (x s))

namespace Keeps

variable {I : σ → Prop}

/-- What a program keeps holds where it has failed. -/
theorem of_error {x : EStateM ε σ α} {s t : σ} {e : ε} (hx : Keeps x I) (hs : I s)
    (h : x s = .error e t) : I t := by
  have kept := hx s hs
  rw [h] at kept
  exact kept

theorem pure (a : α) : Keeps (pure a : EStateM ε σ α) I := fun _ hs => hs

/-- The second program is only run on what the first can return. -/
theorem bind {x : EStateM ε σ α} {f : α → EStateM ε σ β} (hx : Keeps x I)
    (hf : ∀ s a t, x s = .ok a t → Keeps (f a) I) : Keeps (x >>= f) I := by
  intro s hs
  have first := hx s hs
  rw [bind_apply]
  cases h : x s with
  | ok a t =>
      rw [h] at first
      exact hf s a t h t first
  | error e t =>
      rw [h] at first
      exact first

theorem wrap {x : EStateM String σ α} (hx : Keeps x I) (text : String) :
    Keeps (wrap text x) I := by
  intro s hs
  rw [final_wrap]
  exact hx s hs

end Keeps

/-! ## What a program achieves -/

/-- Run where `P` holds, `x` ends with `Q` if it succeeds, and with `E` if it fails. -/
def Spec (P : σ → Prop) (x : EStateM ε σ α) (Q : α → σ → Prop) (E : σ → Prop) : Prop :=
  ∀ s, P s → match x s with
    | .ok a t => Q a t
    | .error _ t => E t

namespace Spec

variable {P P' : σ → Prop} {Q Q' : α → σ → Prop} {R : β → σ → Prop} {E E' : σ → Prop}
  {x : EStateM ε σ α} {s t : σ} {a : α} {e : ε}

theorem of_ok (h : Spec P x Q E) (hs : P s) (hx : x s = .ok a t) : Q a t := by
  have hend := h s hs
  rwa [hx] at hend

theorem of_error (h : Spec P x Q E) (hs : P s) (hx : x s = .error e t) : E t := by
  have hend := h s hs
  rwa [hx] at hend

/-- A specification may ask for more before and say less afterwards. -/
theorem weaken (h : Spec P x Q E) (hP : ∀ s, P' s → P s) (hQ : ∀ a s, Q a s → Q' a s)
    (hE : ∀ s, E s → E' s) : Spec P' x Q' E' := by
  intro s hs
  have hend := h s (hP s hs)
  cases hx : x s with
  | ok a t =>
      rw [hx] at hend
      exact hQ a t hend
  | error e t =>
      rw [hx] at hend
      exact hE t hend

theorem pure (h : ∀ s, P s → Q a s) : Spec P (pure a : EStateM ε σ α) Q E := fun s hs => h s hs

/-- The rule of a sequence: what the first part achieves is what the second one starts from. -/
theorem bind {f : α → EStateM ε σ β} (hx : Spec P x Q E) (hf : ∀ a, Spec (Q a) (f a) R E) :
    Spec P (x >>= f) R E := by
  intro s hs
  have first := hx s hs
  rw [bind_apply]
  cases h : x s with
  | ok a t =>
      rw [h] at first
      exact hf a t first
  | error e t =>
      rw [h] at first
      exact first

/-- A text before an error changes no specification. -/
theorem wrap {x : EStateM String σ α} (hx : Spec P x Q E) (text : String) :
    Spec P (wrap text x) Q E := by
  intro s hs
  have hend := hx s hs
  rw [wrap_apply]
  cases h : x s with
  | ok a t =>
      rw [h] at hend
      exact hend
  | error e t =>
      rw [h] at hend
      exact hend

/-- After `attempt` the program goes on with what holds in both cases. -/
theorem attempt {I : σ → Prop} (hx : Spec P x (fun _ => I) I) :
    Spec P (attempt x) (fun _ => I) E := by
  intro s hs
  have hend := hx s hs
  unfold Fallible.attempt
  cases h : x s with
  | ok a t =>
      rw [h] at hend
      exact hend
  | error e t =>
      rw [h] at hend
      exact hend

/-- A value that may be an error, by its two cases. -/
theorem lift {x : Except ε α} (hok : ∀ a s, x = .ok a → P s → Q a s)
    (herror : ∀ e s, x = .error e → P s → E s) : Spec P (lift x) Q E := by
  intro s hs
  cases x with
  | ok a => exact hok a s rfl hs
  | error e => exact herror e s rfl hs

end Spec

end Fallible
