import Mathlib.Logic.Relation
import Mathlib.Tactic.SplitIfs

/-!
# Machines that take one event at a time

A machine is a partial step function `step : σ → ε → Option σ`: in state `s` the
event `e` is possible when `step s e` is `some t`, and then leads to `t`.  All
the nondeterminism of the modelled system (which party moves, which of its
operations fails, which fresh name the environment picks) is in the events, so
a run is a list of events and can be evaluated.

Statements about runs come with a *guard* `C : σ → ε → Prop`, a condition on
the state before a step and on the step's event.  `Reaches step C s t` says
that `t` is reached from `s` by steps that all meet the guard; the unguarded
case is `Reaches step (fun _ _ => True)`.

* `Reaches.invariant` is the induction every safety proof uses: an invariant is
  checked at one step and holds in every state reached.
* `Reaches.strengthen` moves an invariant into the guard.
* `Reaches.simulation` carries a run over to another machine, and `Reaches.projection` one
  that the other machine sees through a function, with steps that it does not see at all.
* `exec` evaluates a list of events; with `guarded` steps the evaluation is a
  run under the guard (`reaches_outcome`).
* `Follows` is the invariant of a thread that works through a fixed program:
  what it has left is the end of the program, and everything before has been
  done.
-/

universe u v w z

namespace Machine

variable {σ : Type u} {ε : Type v} {τ : Type w} {δ : Type z}

/-- One step that meets the guard. -/
def Next (step : σ → ε → Option σ) (C : σ → ε → Prop) (s t : σ) : Prop :=
  ∃ e, C s e ∧ step s e = some t

/-- `t` is reached from `s` by steps that all meet the guard `C`. -/
def Reaches (step : σ → ε → Option σ) (C : σ → ε → Prop) : σ → σ → Prop :=
  Relation.ReflTransGen (Next step C)

/-- The guard that excludes nothing. -/
def Always (_ : σ) (_ : ε) : Prop := True

instance (s : σ) (e : ε) : Decidable (Always s e) := isTrue trivial

namespace Reaches

variable {step : σ → ε → Option σ} {C D : σ → ε → Prop} {s t u : σ}

@[refl] theorem refl (s : σ) : Reaches step C s s := Relation.ReflTransGen.refl

theorem tail {e : ε} (h : Reaches step C s t) (hC : C t e) (he : step t e = some u) :
    Reaches step C s u :=
  Relation.ReflTransGen.tail h ⟨e, hC, he⟩

theorem head {e : ε} (hC : C s e) (he : step s e = some t) (h : Reaches step C t u) :
    Reaches step C s u :=
  Relation.ReflTransGen.head ⟨e, hC, he⟩ h

theorem trans (h : Reaches step C s t) (h' : Reaches step C t u) : Reaches step C s u :=
  Relation.ReflTransGen.trans h h'

/-- **The invariant rule.**  What holds at the start and is preserved by every
step that meets the guard holds in every state reached. -/
theorem invariant {I : σ → Prop} (h : Reaches step C s t) (hs : I s)
    (hstep : ∀ s e t, I s → C s e → step s e = some t → I t) : I t := by
  induction h with
  | refl => exact hs
  | tail _ next ih =>
      obtain ⟨e, hC, he⟩ := next
      exact hstep _ e _ ih hC he

/-- Moving an invariant into the guard: where `I` is preserved by guarded steps
and makes them meet `D`, a run under `C` is a run under `D`. -/
theorem strengthen {I : σ → Prop} (h : Reaches step C s t) (hs : I s)
    (hstep : ∀ s e t, I s → C s e → step s e = some t → I t)
    (hD : ∀ s e t, I s → C s e → step s e = some t → D s e) : Reaches step D s t := by
  have both : Reaches step D s t ∧ I t := by
    induction h with
    | refl => exact ⟨refl s, hs⟩
    | tail _ next ih =>
        obtain ⟨e, hC, he⟩ := next
        exact ⟨ih.1.tail (hD _ e _ ih.2 hC he) he, hstep _ e _ ih.2 hC he⟩
  exact both.1

/-- A weaker guard allows more runs. -/
theorem mono (h : Reaches step C s t) (hCD : ∀ s e, C s e → D s e) : Reaches step D s t :=
  h.strengthen (I := fun _ => True) trivial (fun _ _ _ _ _ _ => trivial)
    (fun s e _ _ hC _ => hCD s e hC)

/-- **Forward simulation.**  If every guarded step of one machine is matched, up
to the relation `R`, by guarded steps of the other, then so is every run. -/
theorem simulation {step' : τ → δ → Option τ} {C' : τ → δ → Prop} {R : σ → τ → Prop}
    {a : τ} (h : Reaches step C s t) (hs : R s a)
    (hstep : ∀ s e t a, R s a → C s e → step s e = some t →
      ∃ b, Reaches step' C' a b ∧ R t b) :
    ∃ b, Reaches step' C' a b ∧ R t b := by
  induction h with
  | refl => exact ⟨a, refl a, hs⟩
  | tail _ next ih =>
      obtain ⟨e, hC, he⟩ := next
      obtain ⟨b, hab, hb⟩ := ih
      obtain ⟨c, hbc, hc⟩ := hstep _ e _ b hb hC he
      exact ⟨c, hab.trans hbc, hc⟩

/-- **Refinement mappings.**  A machine whose states are seen through `view`: each step amounts
to one step of the other machine, or to none and then leaves the view as it was.  Where this is
so under the invariant `I`, runs are seen as runs. -/
theorem projection {step' : τ → δ → Option τ} {C' : τ → δ → Prop} {I : σ → Prop}
    (h : Reaches step C s t) (view : σ → τ) (amounts : σ → ε → Option δ) (hs : I s)
    (hstep : ∀ s e t, I s → C s e → step s e = some t → I t ∧
      match amounts s e with
      | none => view t = view s
      | some a => C' (view s) a ∧ step' (view s) a = some (view t)) :
    I t ∧ Reaches step' C' (view s) (view t) := by
  induction h with
  | refl => exact ⟨hs, refl _⟩
  | tail _ next ih =>
      obtain ⟨e, hC, he⟩ := next
      obtain ⟨hinv, hmatch⟩ := hstep _ e _ ih.1 hC he
      refine ⟨hinv, ?_⟩
      split at hmatch
      · rw [hmatch]
        exact ih.2
      · exact ih.2.tail hmatch.1 hmatch.2

end Reaches

/-! ## Evaluating a run -/

/-- Take the events of a list one after the other. -/
def exec (step : σ → ε → Option σ) : σ → List ε → Option σ
  | s, [] => some s
  | s, e :: es => (step s e).bind fun t => exec step t es

/-- The steps that meet the guard. -/
def guarded (step : σ → ε → Option σ) (C : σ → ε → Prop) [∀ s e, Decidable (C s e)]
    (s : σ) (e : ε) : Option σ :=
  if C s e then step s e else none

/-- An evaluated list of guarded steps is a run. -/
theorem Reaches.of_exec {step : σ → ε → Option σ} {C : σ → ε → Prop}
    [∀ s e, Decidable (C s e)] {s t : σ} {es : List ε}
    (h : exec (guarded step C) s es = some t) : Reaches step C s t := by
  induction es generalizing s with
  | nil =>
      obtain rfl : s = t := Option.some.inj h
      exact .refl s
  | cons e es ih =>
      obtain ⟨u, he, hu⟩ := Option.bind_eq_some_iff.mp h
      unfold guarded at he
      split_ifs at he with hC
      exact .head hC he (ih hu)

/-- Where a list of guarded steps ends; a list with an impossible step goes
nowhere. -/
def outcome (step : σ → ε → Option σ) (C : σ → ε → Prop) [∀ s e, Decidable (C s e)]
    (s : σ) (es : List ε) : σ :=
  (exec (guarded step C) s es).getD s

theorem reaches_outcome (step : σ → ε → Option σ) (C : σ → ε → Prop)
    [∀ s e, Decidable (C s e)] (s : σ) (es : List ε) :
    Reaches step C s (outcome step C s es) := by
  unfold outcome
  cases h : exec (guarded step C) s es with
  | none => exact .refl s
  | some t => exact .of_exec h

/-! ## A thread and its program -/

section
variable {ω : Type u} {P Q : ω → Prop} {program todo : List ω} {a : ω}

/-- A thread has `todo` left of its program; `P op` says that `op` has been done. -/
structure Follows (P : ω → Prop) (program todo : List ω) : Prop where
  suffix : todo <:+ program
  passed : ∀ op ∈ program, op ∈ todo ∨ P op

namespace Follows

theorem start (P : ω → Prop) (program : List ω) : Follows P program program :=
  ⟨List.suffix_rfl, fun _ h => .inl h⟩

/-- What has been done stays done. -/
theorem mono (h : Follows P program todo) (hPQ : ∀ op, P op → Q op) : Follows Q program todo :=
  ⟨h.suffix, fun op hop => (h.passed op hop).imp_right (hPQ op)⟩

/-- The next operation is done. -/
theorem pop (h : Follows P program (a :: todo)) (hPQ : ∀ op, P op → Q op) (ha : Q a) :
    Follows Q program todo := by
  refine ⟨(List.suffix_cons a todo).trans h.suffix, fun op hop => ?_⟩
  rcases h.passed op hop with hmem | hP
  · rcases List.mem_cons.mp hmem with rfl | hmem
    · exact .inr ha
    · exact .inl hmem
  · exact .inr (hPQ op hP)

theorem done (h : Follows P program todo) (ha : a ∈ program) (hnot : a ∉ todo) : P a :=
  (h.passed a ha).resolve_left hnot

end Follows

end

end Machine
