import Mathlib.Algebra.BigOperators.Group.List.Basic
import Mathlib.Algebra.GroupWithZero.Nat
import Mathlib.Algebra.Order.Group.Nat
import Mathlib.Data.List.Induction

/-!
# Adding up a counter that is read now and then

At each tick a counter is away, or there and read, or there and not read.  A meter keeps the last
value that was read, until the counter goes away, and adds up the rises.

* `sum_metered`: the sum is that of the stretches in which the counter is there, of each the last
  value minus the first.
* `sum_metered_le`: it is not more than the rise over all ticks.
* `sum_metered_append`: after the counter has been away the meter starts anew.

### Use

An exporter that turns the counters of a kernel into totals adds up differences.  What it exports
is then less than what has happened, by what happened before the first value of each stretch and
after the last; `sum_metered` says exactly how much.
-/

universe u

/-- The value that was read last, and the sum. -/
structure Meter where
  last : Option ℕ
  sum : ℕ

namespace Meter

/-- Nothing has been read. -/
def start : Meter := { last := none, sum := 0 }

/-- A value is read, or none. -/
def read (m : Meter) : Option ℕ → Meter
  | none => m
  | some value => { last := some value, sum := m.sum + (value - m.last.getD value) }

/-- The counter goes away. -/
def drop (m : Meter) : Meter := { m with last := none }

/-- What is seen at a tick: nothing, or a counter with or without a value. -/
def tick (m : Meter) : Option (Option ℕ) → Meter
  | none => m.drop
  | some value => m.read value

/-- The last value minus the first. -/
def spread (values : List ℕ) : ℕ := values.getLastD 0 - values.headD 0

section
variable {α : Type u} (seen : α → Option (Option ℕ)) {ticks before after : List α} {t : α}

/-- The meter after some ticks. -/
def metered (ticks : List α) (m : Meter) : Meter := ticks.foldl (fun m t => m.tick (seen t)) m

/-- The longest stretches of ticks at which the counter is there. -/
def stretches (ticks : List α) : List (List α) := ticks.splitOnP fun t => (seen t).isNone

/-- The values that are read. -/
def values (ticks : List α) : List ℕ := ticks.filterMap fun t => (seen t).join

variable {seen}

/-! ## Spreads -/

/-- The spread is from the first value to the last. -/
theorem spread_cons (v : ℕ) (vs : List ℕ) : spread (v :: vs) = vs.getLastD v - v := by
  rw [spread, List.getLastD_cons, List.headD_cons]

/-- Of values that rise the last is not less than the first. -/
theorem le_getLastD {v : ℕ} {vs : List ℕ} (h : (v :: vs).Pairwise (· ≤ ·)) : v ≤ vs.getLastD v := by
  rcases List.mem_cons.mp (List.getLastD_mem_cons (l := vs) (a := v)) with heq | hmem
  · exact heq.ge
  · exact (List.pairwise_cons.mp h).1 _ hmem

/-- One more value adds its rise over the last one. -/
theorem spread_concat {vs : List ℕ} {v : ℕ} (h : (vs ++ [v]).Pairwise (· ≤ ·)) :
    spread (vs ++ [v]) = spread vs + (v - vs.getLast?.getD v) := by
  cases vs with
  | nil => simp [spread]
  | cons first vs =>
      obtain ⟨hsorted, -, hlast⟩ := List.pairwise_append.mp h
      have hfirst : first ≤ vs.getLastD first := le_getLastD hsorted
      have hle : vs.getLastD first ≤ v :=
        hlast _ List.getLastD_mem_cons v (List.mem_singleton_self v)
      rw [List.cons_append, spread_cons, spread_cons, List.getLastD_concat,
        ← List.getLastD_eq_getLast?, List.getLastD_cons]
      omega

/-- The spreads of two parts are not more than that of both. -/
theorem spread_append_le {vs ws : List ℕ} (h : (vs ++ ws).Pairwise (· ≤ ·)) :
    spread vs + spread ws ≤ spread (vs ++ ws) := by
  rcases vs with _ | ⟨v, vs⟩
  · simp [spread]
  rcases ws with _ | ⟨w, ws⟩
  · simp [spread]
  obtain ⟨hvs, hws, hbetween⟩ := List.pairwise_append.mp h
  have hv : v ≤ vs.getLastD v := le_getLastD hvs
  have hvw : vs.getLastD v ≤ w := hbetween _ List.getLastD_mem_cons w List.mem_cons_self
  have hw : w ≤ ws.getLastD w := le_getLastD hws
  have hend : (vs ++ w :: ws).getLastD v = ws.getLastD w := by
    rw [List.getLastD_eq_getLast?, List.getLast?_append, List.getLast?_cons, Option.some_or,
      Option.getD_some, List.getLastD_eq_getLast?]
  rw [List.cons_append, spread_cons, spread_cons, spread_cons, hend]
  omega

theorem sum_spread_le {vss : List (List ℕ)} (h : vss.flatten.Pairwise (· ≤ ·)) :
    (vss.map spread).sum ≤ spread vss.flatten := by
  induction vss with
  | nil => exact Nat.zero_le _
  | cons vs vss ih =>
      rw [List.flatten_cons] at h
      have hrest := ih (List.pairwise_append.mp h).2.1
      rw [List.map_cons, List.sum_cons, List.flatten_cons]
      exact (Nat.add_le_add_left hrest _).trans (spread_append_le h)

/-! ## Stretches -/

theorem stretches_concat_of_none (ht : seen t = none) :
    stretches seen (ticks ++ [t]) = stretches seen ticks ++ [[]] := by
  rw [stretches, List.splitOnP_append_cons _ _ (by rw [ht]; rfl), List.splitOnP_nil, ← stretches]

/-- A tick at which the counter is there belongs to the last stretch. -/
theorem stretches_concat {value : Option ℕ} (ht : seen t = some value) :
    ∃ ss s, stretches seen ticks = ss ++ [s] ∧
      stretches seen (ticks ++ [t]) = ss ++ [s ++ [t]] := by
  have hkept : (seen t).isNone = false := by rw [ht]; rfl
  induction ticks with
  | nil => exact ⟨[], [], rfl, by simp [stretches, List.splitOnP_cons_eq_if_modifyHead, hkept]⟩
  | cons first ticks ih =>
      obtain ⟨ss, s, hbefore, hafter⟩ := ih
      rw [stretches] at hbefore hafter
      simp only [stretches, List.cons_append, List.splitOnP_cons_eq_if_modifyHead, hbefore, hafter]
      split_ifs
      · exact ⟨[] :: ss, s, rfl, rfl⟩
      · rcases ss with _ | ⟨s', ss⟩
        · exact ⟨[], first :: s, rfl, rfl⟩
        · exact ⟨(first :: s') :: ss, s, rfl, rfl⟩

/-- No value is read while the counter is away. -/
theorem flatten_stretches (ticks : List α) :
    ((stretches seen ticks).map (values seen)).flatten = values seen ticks := by
  induction ticks with
  | nil => rfl
  | cons t ticks ih =>
      rw [stretches] at ih
      rw [stretches, List.splitOnP_cons_eq_if_modifyHead]
      cases ht : seen t with
      | none => simpa [values, ht] using ih
      | some value =>
          obtain ⟨s, ss, hss⟩ := List.exists_cons_of_ne_nil
            (List.splitOnP_ne_nil (fun t => (seen t).isNone) ticks)
          rw [hss] at ih ⊢
          simp only [Option.isNone_some, Bool.false_eq_true, if_false, List.modifyHead_cons,
            List.map_cons, List.flatten_cons] at ih ⊢
          rw [values, values, List.filterMap_cons, List.filterMap_cons, ← values, ← values, ← ih]
          cases (seen t).join <;> rfl

/-! ## Runs -/

theorem metered_concat (m : Meter) :
    metered seen (ticks ++ [t]) m = (metered seen ticks m).tick (seen t) := by
  rw [metered, List.foldl_concat, metered]

theorem values_concat :
    values seen (ticks ++ [t]) = values seen ticks ++ (seen t).join.toList := by
  rw [values, List.filterMap_append, ← values]
  cases h : (seen t).join <;> simp [h]

/-- What a meter keeps: the last value of the last stretch, and the sum over all. -/
structure Metered (seen : α → Option (Option ℕ)) (ticks : List α) (m : Meter) : Prop where
  last : ∀ ss s, stretches seen ticks = ss ++ [s] → m.last = (values seen s).getLast?
  sum : m.sum = ((stretches seen ticks).map fun s => spread (values seen s)).sum

theorem Metered.start : Metered seen [] start := by
  refine ⟨fun ss s hss => ?_, rfl⟩
  obtain ⟨-, hs⟩ := List.append_inj' (show [] ++ [[]] = ss ++ [s] from hss) rfl
  rw [← List.singleton_inj.mp hs]
  rfl

theorem Metered.drop {m : Meter} (h : Metered seen ticks m) (ht : seen t = none) :
    Metered seen (ticks ++ [t]) m.drop := by
  have hstretches := @stretches_concat_of_none _ seen ticks _ ht
  refine ⟨fun ss s hss => ?_, ?_⟩
  · rw [hstretches] at hss
    obtain ⟨-, hs⟩ := List.append_inj' hss rfl
    rw [← List.singleton_inj.mp hs]
    rfl
  · rw [hstretches, List.map_append, List.sum_append, ← h.sum]
    rfl

theorem Metered.read {m : Meter} (h : Metered seen ticks m) {value : Option ℕ}
    (ht : seen t = some value) (hsorted : (values seen (ticks ++ [t])).Pairwise (· ≤ ·)) :
    Metered seen (ticks ++ [t]) (m.read value) := by
  obtain ⟨ss, s, hbefore, hafter⟩ := @stretches_concat _ seen ticks _ _ ht
  have hlast := h.last ss s hbefore
  have hvalues : values seen (s ++ [t]) = values seen s ++ value.toList := by
    rw [values_concat, ht]
    rfl
  refine ⟨fun ss' s' hss => ?_, ?_⟩
  · rw [hafter] at hss
    obtain ⟨-, hs⟩ := List.append_inj' hss rfl
    rw [← List.singleton_inj.mp hs, hvalues]
    cases value with
    | none => rwa [Option.toList_none, List.append_nil]
    | some v => rw [Option.toList_some, List.getLast?_concat]; rfl
  · have hsum := h.sum
    rw [hbefore, List.map_append, List.sum_append, List.map_singleton, List.sum_singleton] at hsum
    rw [hafter, List.map_append, List.sum_append, List.map_singleton, List.sum_singleton, hvalues]
    cases value with
    | none => rwa [Option.toList_none, List.append_nil]
    | some v =>
        -- the values of the last stretch are the last values of all
        have hstretch : (values seen s ++ [v]).Pairwise (· ≤ ·) := by
          rw [← flatten_stretches, hafter, List.map_append, List.flatten_append,
            List.map_singleton, List.flatten_singleton, hvalues] at hsorted
          exact (List.pairwise_append.mp hsorted).2.1
        rw [Option.toList_some, spread_concat hstretch, ← hlast, ← Nat.add_assoc, ← hsum]
        rfl

theorem metered_start (h : (values seen ticks).Pairwise (· ≤ ·)) :
    Metered seen ticks (metered seen ticks start) := by
  induction ticks using List.reverseRecOn with
  | nil => exact .start
  | append_singleton ticks t ih =>
      have hbefore : (values seen ticks).Pairwise (· ≤ ·) := by
        rw [values_concat] at h
        exact (List.pairwise_append.mp h).1
      rw [metered_concat]
      cases ht : seen t with
      | none => exact (ih hbefore).drop ht
      | some value => exact (ih hbefore).read ht h

/-- **The sum is that of the stretches**, of each the last value minus the first. -/
theorem sum_metered (h : (values seen ticks).Pairwise (· ≤ ·)) :
    (metered seen ticks start).sum =
      ((stretches seen ticks).map fun s => spread (values seen s)).sum :=
  (metered_start h).sum

/-- **The sum is not more than the rise** over all ticks. -/
theorem sum_metered_le (h : (values seen ticks).Pairwise (· ≤ ·)) :
    (metered seen ticks start).sum ≤ spread (values seen ticks) := by
  rw [← flatten_stretches] at h ⊢
  have hle := sum_spread_le h
  rw [List.map_map] at hle
  rw [sum_metered (by rwa [← flatten_stretches])]
  exact hle

/-- What has been added up before is only added to. -/
theorem sum_metered_add (m : Meter) (n : ℕ) :
    (metered seen ticks { m with sum := n + m.sum }).sum = n + (metered seen ticks m).sum := by
  induction ticks generalizing m with
  | nil => rfl
  | cons t ticks ih =>
      rw [metered, metered, List.foldl_cons, List.foldl_cons, ← metered, ← metered]
      rcases ht : seen t with _ | _ | v
      · exact ih m.drop
      · exact ih m
      · rw [← ih]
        simp only [tick, read, Nat.add_assoc]

/-- **After the counter has been away the meter starts anew.** -/
theorem sum_metered_append (ht : seen t = none) :
    (metered seen (before ++ t :: after) start).sum =
      (metered seen before start).sum + (metered seen after start).sum := by
  have hsplit : metered seen (before ++ t :: after) start =
      metered seen after (metered seen before start).drop := by
    rw [metered, List.foldl_append, List.foldl_cons, ht, ← metered, ← metered]
    rfl
  rw [hsplit, ← sum_metered_add]
  rfl

end

end Meter
