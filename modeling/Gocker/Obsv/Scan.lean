import Gocker.Lib.Machine
import Gocker.Obsv.Whitelist
import Mathlib.Algebra.Order.BigOperators.Group.Finset

/-!
# Exporting the counters

`scan` and `scanArray` (`gocker-obsv/cmd/collector/main.go`) export by how much a counter has
grown since it was seen last.

* `exported_exact`: what is exported for a key that stays in the whitelist are the rises of
  its totals.
* `exported_le`: no event is exported twice, unless the last value of the key has been
  dropped.  The invariant is that what was exported is covered by the total that the last
  value stands for.

### What the invariant says

The total of the kernel is the number of events.  What a scan has kept of a key is a total that
the kernel had at some time before, and what has been exported is not more than it: so the rise
over it is of events that have not been exported.  When the last value is dropped, zero stands in
its place, and the same events are exported again.
-/

namespace Gocker.Obsv

open Machine

variable {n : ℕ}

/-! ## The rises of a sequence -/

/-- The sum of the positive differences of neighbours. -/
def rises (prev : ℕ) : List ℕ → ℕ
  | [] => 0
  | x :: xs => x - prev + rises x xs

/-- One more value adds its rise over the last one. -/
theorem rises_concat (prev : ℕ) (xs : List ℕ) (x : ℕ) :
    rises prev (xs ++ [x]) = rises prev xs + (x - xs.getLastD prev) := by
  induction xs generalizing prev with
  | nil => simp [rises]
  | cons y ys ih => rw [List.cons_append, rises, ih, rises, List.getLastD_cons, Nat.add_assoc]

/-- The rises of a sequence that never falls telescope. -/
theorem rises_of_sorted {prev : ℕ} {xs : List ℕ} (h : (prev :: xs).Pairwise (· ≤ ·)) :
    prev + rises prev xs = xs.getLastD prev := by
  induction xs generalizing prev with
  | nil => rfl
  | cons y ys ih =>
      obtain ⟨hprev, hsorted⟩ := List.pairwise_cons.mp h
      have hle : prev ≤ y := hprev y List.mem_cons_self
      rw [rises, List.getLastD_cons, ← ih hsorted, ← Nat.add_assoc, Nat.add_sub_cancel' hle]

/-! ## The scan -/

/-- What the collector keeps about a map: the last values, and the sums of the deltas that
have been applied. -/
structure Exported where
  last : CgKey → Option UInt64
  exported : CgKey → ℕ

/-- Nothing has been seen or exported. -/
def Exported.start : Exported where
  last _ := none
  exported _ := 0

/-- The total of the values of the CPUs. -/
def sumVal (val : List UInt64) : UInt64 := val.foldl (· + ·) 0

/-- The body of the loop of `scan`. -/
def visit (allowed : Allowed) (s : Exported) (entry : CgKey × List UInt64) : Exported :=
  let k := entry.1
  let total := sumVal entry.2
  match allowed.path k.cgid with
  | none => { s with last := Function.update s.last k none }
  | some _ =>
      let prev := (s.last k).getD 0
      { last := Function.update s.last k (some total)
        exported :=
          if total ≥ prev ∧ total - prev > 0 then
            Function.update s.exported k (s.exported k + (total - prev).toNat)
          else s.exported }

/-- `scan`: one key after the other. -/
def scan (allowed : Allowed) (entries : List (CgKey × List UInt64)) (s : Exported) : Exported :=
  entries.foldl (visit allowed) s

/-- The last value of the one counter of an array, and the sum of its deltas. -/
structure ExportedCell where
  last : UInt64
  exported : ℕ

/-- Nothing has been seen of the cell. -/
def ExportedCell.start : ExportedCell := { last := 0, exported := 0 }

/-- `scanArray`, without a value if the lookup fails. -/
def scanArray (s : ExportedCell) : Option (List UInt64) → ExportedCell
  | none => s
  | some val =>
      let total := sumVal val
      { last := total
        exported :=
          if total ≥ s.last ∧ total - s.last > 0 then s.exported + (total - s.last).toNat
          else s.exported }

/-- In both loops, what is applied is the rise from the previous value. -/
theorem applied_eq (e : ℕ) (total prev : UInt64) :
    (if total ≥ prev ∧ total - prev > 0 then e + (total - prev).toNat else e) =
      e + (total.toNat - prev.toNat) := by
  split_ifs with h
  · rw [UInt64.toNat_sub_of_le _ _ h.1]
  · have hle : total.toNat ≤ prev.toNat := by
      by_contra hlt
      have hge : prev ≤ total := UInt64.le_iff_toNat_le.mpr (Nat.le_of_lt (Nat.not_le.mp hlt))
      refine h ⟨hge, UInt64.lt_iff_toNat_lt.mpr ?_⟩
      rw [UInt64.toNat_sub_of_le _ _ hge]
      exact Nat.sub_pos_of_lt (Nat.not_le.mp hlt)
    rw [Nat.sub_eq_zero_of_le hle, Nat.add_zero]

section
variable {allowed : Allowed} {s : Exported} {k : CgKey} {val : List UInt64}

theorem last_visit (h : (allowed.path k.cgid).isSome) :
    (visit allowed s (k, val)).last k = some (sumVal val) := by
  obtain ⟨path, hpath⟩ := Option.isSome_iff_exists.mp h
  simp only [visit, hpath, Function.update_self]

theorem exported_visit (h : (allowed.path k.cgid).isSome) :
    (visit allowed s (k, val)).exported k =
      s.exported k + ((sumVal val).toNat - ((s.last k).getD 0).toNat) := by
  obtain ⟨path, hpath⟩ := Option.isSome_iff_exists.mp h
  simp only [visit, hpath]
  rw [← applied_eq]
  split_ifs
  · rw [Function.update_self]
  · rfl

/-- For a key that is not listed it drops the last one. -/
theorem visit_of_none (h : allowed.path k.cgid = none) :
    visit allowed s (k, val) = { s with last := Function.update s.last k none } := by
  simp only [visit, h]

/-- A visit leaves the other keys alone. -/
theorem visit_of_ne {key : CgKey} (h : k ≠ key) :
    (visit allowed s (key, val)).last k = s.last k ∧
      (visit allowed s (key, val)).exported k = s.exported k := by
  rw [visit]
  cases allowed.path key.cgid with
  | none => exact ⟨Function.update_of_ne h .., rfl⟩
  | some path =>
      refine ⟨Function.update_of_ne h .., ?_⟩
      simp only
      split_ifs
      · exact Function.update_of_ne h ..
      · rfl

end

/-! ## Nothing is missed -/

/-- What a tick finds: the whitelist, and the keys with their values. -/
structure Tick where
  allowed : Allowed
  entries : List (CgKey × List UInt64)

/-- The scans of a map at these ticks. -/
def scans (ticks : List Tick) : Exported :=
  ticks.foldl (fun s tick => scan tick.allowed tick.entries s) .start

/-- The totals that scans have seen of a key. -/
def seen (k : CgKey) (ticks : List Tick) : List ℕ :=
  ticks.flatMap fun tick =>
    (tick.entries.filter (·.1 = k)).map fun entry => (sumVal entry.2).toNat

/-- The totals that have been read of an array. -/
def seenCell (reads : List (Option (List UInt64))) : List ℕ :=
  reads.filterMap fun val => val.map fun v => (sumVal v).toNat

/-- What is kept of the key belongs to the totals seen of it. -/
structure Seen (k : CgKey) (s : Exported) (totals : List ℕ) : Prop where
  last : ((s.last k).getD 0).toNat = totals.getLastD 0
  exported : s.exported k = rises 0 totals

theorem Seen.visit {allowed : Allowed} {k : CgKey} {s : Exported} {totals : List ℕ}
    (h : Seen k s totals) {entry : CgKey × List UInt64}
    (hallowed : entry.1 = k → (allowed.path k.cgid).isSome) :
    Seen k (visit allowed s entry)
      (totals ++ (([entry].filter (·.1 = k)).map fun entry => (sumVal entry.2).toNat)) := by
  obtain ⟨key, val⟩ := entry
  by_cases hkey : key = k
  · subst hkey
    have hhere := hallowed rfl
    rw [List.filter_cons_of_pos (by simp)]
    refine ⟨?_, ?_⟩
    · rw [last_visit hhere]
      simp
    · rw [exported_visit hhere, h.exported, h.last]
      exact (rises_concat 0 totals _).symm
  · rw [List.filter_cons_of_neg (by simpa using hkey)]
    simp only [List.filter_nil, List.map_nil, List.append_nil]
    refine ⟨?_, ?_⟩
    · rw [(visit_of_ne (Ne.symm hkey)).1, h.last]
    · rw [(visit_of_ne (Ne.symm hkey)).2, h.exported]

theorem Seen.scan {allowed : Allowed} {k : CgKey} {entries : List (CgKey × List UInt64)}
    (hallowed : ∀ entry ∈ entries, entry.1 = k → (allowed.path k.cgid).isSome) {s : Exported}
    {totals : List ℕ} (h : Seen k s totals) :
    Seen k (scan allowed entries s)
      (totals ++ ((entries.filter (·.1 = k)).map fun entry => (sumVal entry.2).toNat)) := by
  induction entries generalizing s totals with
  | nil => simpa [Gocker.Obsv.scan] using h
  | cons entry entries ih =>
      have hfirst := h.visit (hallowed entry List.mem_cons_self)
      have hrest := ih (fun e he => hallowed e (List.mem_cons_of_mem _ he)) hfirst
      rw [List.append_assoc, ← List.map_append, ← List.filter_append,
        List.singleton_append] at hrest
      exact hrest

/-- Several scans see all of them, one after the other. -/
theorem seen_scans {k : CgKey} {ticks : List Tick}
    (hallowed : ∀ tick ∈ ticks, ∀ entry ∈ tick.entries, entry.1 = k →
      (tick.allowed.path k.cgid).isSome) :
    Seen k (scans ticks) (seen k ticks) := by
  induction ticks using List.reverseRecOn with
  | nil => exact ⟨rfl, rfl⟩
  | append_singleton ticks tick ih =>
      have hbefore := ih fun t ht => hallowed t (List.mem_append_left _ ht)
      have hlast := hallowed tick (List.mem_append_right _ (List.mem_singleton_self _))
      rw [scans, List.foldl_concat, ← scans, seen, List.flatMap_append, List.flatMap_singleton,
        ← seen]
      exact hbefore.scan hlast

theorem scanArray_eq (reads : List (Option (List UInt64))) :
    (reads.foldl scanArray .start).last.toNat = (seenCell reads).getLastD 0 ∧
      (reads.foldl scanArray .start).exported = rises 0 (seenCell reads) := by
  induction reads using List.reverseRecOn with
  | nil => exact ⟨rfl, rfl⟩
  | append_singleton reads val ih =>
      rw [List.foldl_concat, seenCell, List.filterMap_append, ← seenCell]
      cases val with
      | none => simpa [scanArray] using ih
      | some val =>
          simp only [scanArray, List.filterMap_cons, Option.map_some, List.filterMap_nil]
          rw [applied_eq, rises_concat, ih.1, ih.2]
          exact ⟨by simp, rfl⟩

/-- Totals that never fall have risen to the last one. -/
theorem rises_eq_last {totals : List ℕ} (h : totals.Pairwise (· ≤ ·)) :
    rises 0 totals = totals.getLastD 0 := by
  have hzero : (0 :: totals).Pairwise (· ≤ ·) :=
    List.pairwise_cons.mpr ⟨fun x _ => Nat.zero_le x, h⟩
  rw [← rises_of_sorted hzero, Nat.zero_add]

/-- **No event is missed** for a key that is in the whitelist whenever it is found: exported
is the sum of the rises of its totals, and the last total if they have not fallen.  The same
holds for the counter of an array. -/
theorem exported_exact {k : CgKey} {ticks : List Tick}
    (hallowed : ∀ tick ∈ ticks, ∀ entry ∈ tick.entries, entry.1 = k →
      (tick.allowed.path k.cgid).isSome) :
    ((scans ticks).exported k = rises 0 (seen k ticks) ∧
        ((seen k ticks).Pairwise (· ≤ ·) →
          (scans ticks).exported k = (seen k ticks).getLastD 0)) ∧
      ∀ reads : List (Option (List UInt64)),
        (reads.foldl scanArray .start).exported = rises 0 (seenCell reads) ∧
          ((seenCell reads).Pairwise (· ≤ ·) →
            (reads.foldl scanArray .start).exported = (seenCell reads).getLastD 0) := by
  have hkey := (seen_scans hallowed).exported
  refine ⟨⟨hkey, fun hsorted => hkey.trans (rises_eq_last hsorted)⟩, fun reads => ?_⟩
  have hcell := (scanArray_eq reads).2
  exact ⟨hcell, fun hsorted => hcell.trans (rises_eq_last hsorted)⟩

/-- Two keys, of which the second is missed at a tick. -/
def twoKeys : List Tick :=
  let allowed : Allowed := [(50, ["gocker", "web"]), (51, ["gocker", "db"])]
  [{ allowed, entries := [(⟨50, 1⟩, [3, 4]), (⟨51, 1⟩, [1, 1])] },
    { allowed, entries := [(⟨50, 1⟩, [3, 9])] },
    { allowed, entries := [(⟨51, 1⟩, [5, 1]), (⟨50, 1⟩, [4, 9])] }]

theorem exported_exact_two :
    (scans twoKeys).exported ⟨50, 1⟩ = 13 ∧ seen ⟨50, 1⟩ twoKeys = [7, 12, 13] ∧
      (((scans twoKeys).exported ⟨50, 1⟩ = rises 0 (seen ⟨50, 1⟩ twoKeys) ∧
          ((seen ⟨50, 1⟩ twoKeys).Pairwise (· ≤ ·) →
            (scans twoKeys).exported ⟨50, 1⟩ = (seen ⟨50, 1⟩ twoKeys).getLastD 0)) ∧
        ∀ reads : List (Option (List UInt64)),
          (reads.foldl scanArray .start).exported = rises 0 (seenCell reads) ∧
            ((seenCell reads).Pairwise (· ≤ ·) →
              (reads.foldl scanArray .start).exported = (seenCell reads).getLastD 0)) :=
  ⟨by decide +kernel, by decide +kernel, exported_exact (by decide +kernel)⟩

/-! ## Nothing is exported twice -/

/-- A per-CPU map, the whitelist, and what has been exported. -/
structure Collecting (n : ℕ) where
  kernel : PerCpuHash n
  allowed : Allowed
  scanned : Exported

/-- The kernel counts on a CPU, and the collector refreshes its whitelist or comes to a key in
a scan.  A scan is a sequence of visits, between which the kernel goes on counting. -/
inductive CollectEvent (n : ℕ) where
  | count (key : CgKey) (cpu : Fin n) (val : UInt64)
  | refresh (sight : Sight) (targetPath : List String) (targetCgid : UInt64)
  | visit (key : CgKey)

namespace Collecting

/-- The value of a CPU does not decrease. -/
def step (s : Collecting n) : CollectEvent n → Option (Collecting n)
  | .count key cpu val =>
      let old := (s.kernel key).getD fun _ => 0
      if old cpu ≤ val then
        some { s with kernel := Function.update s.kernel key (some (Function.update old cpu val)) }
      else none
  | .refresh sight targetPath targetCgid =>
      some { s with allowed := refreshAllowed sight targetPath targetCgid }
  | .visit key =>
      match s.kernel key with
      | none => none
      | some val =>
          some { s with scanned := Gocker.Obsv.visit s.allowed s.scanned (key, List.ofFn val) }

/-- The counters when the modules have been loaded, and the first whitelist. -/
def start (allowed : Allowed) : Collecting n where
  kernel := .empty
  allowed := allowed
  scanned := .start

/-- The number of events that the kernel has counted. -/
def kernelTotal (s : Collecting n) (k : CgKey) : ℕ :=
  match s.kernel k with
  | none => 0
  | some val => ∑ i, (val i).toNat

/-- The condition on an event: a scan that finds `k` in the whitelist still has its last
value, unless nothing has been exported for `k`. -/
def Remembered (k : CgKey) (s : Collecting n) : CollectEvent n → Prop
  | .visit key =>
      key = k → (s.allowed.path k.cgid).isSome → s.scanned.last k = none → s.scanned.exported k = 0
  | _ => True

instance (k : CgKey) (s : Collecting n) (e : CollectEvent n) : Decidable (s.Remembered k e) :=
  match e with
  | .count .. => isTrue trivial
  | .refresh .. => isTrue trivial
  | .visit _ => inferInstanceAs (Decidable (_ → _ → _ → _))

/-- The invariant: what has been exported is covered by the total that the last value stands
for. -/
structure Covered (k : CgKey) (s : Collecting n) : Prop where
  exported : s.scanned.exported k ≤ s.kernelTotal k
  last : ∀ total, s.scanned.last k = some total → ∃ t, t ≤ s.kernelTotal k ∧
    total.toNat = t % 2 ^ 64 ∧ s.scanned.exported k ≤ t

variable {k : CgKey} {s t : Collecting n}

theorem toNat_foldl_add (val : List UInt64) (a : UInt64) :
    (val.foldl (· + ·) a).toNat = (a.toNat + (val.map UInt64.toNat).sum) % 2 ^ 64 := by
  induction val generalizing a with
  | nil => simp
  | cons v val ih =>
      rw [List.foldl_cons, ih, UInt64.toNat_add, List.map_cons, List.sum_cons]
      omega

/-- A scan sees the number of events in 64 bits. -/
theorem toNat_sumVal_ofFn (val : Fin n → UInt64) :
    (sumVal (List.ofFn val)).toNat = (∑ i, (val i).toNat) % 2 ^ 64 := by
  rw [sumVal, toNat_foldl_add, List.map_ofFn, List.sum_ofFn]
  simp

theorem kernelTotal_count {key : CgKey} {cpu : Fin n} {val : UInt64}
    (h : s.step (.count key cpu val) = some t) :
    t.scanned = s.scanned ∧ ∀ k, s.kernelTotal k ≤ t.kernelTotal k := by
  simp only [step] at h
  split_ifs at h with hle
  cases h
  refine ⟨rfl, fun k => ?_⟩
  by_cases hk : k = key
  · subst hk
    simp only [kernelTotal, Function.update_self]
    have hsum : ∑ i, (((s.kernel k).getD fun _ => 0) i).toNat ≤
        ∑ i, (Function.update ((s.kernel k).getD fun _ => 0) cpu val i).toNat := by
      refine Finset.sum_le_sum fun i _ => ?_
      by_cases hi : i = cpu
      · rw [hi, Function.update_self]
        exact UInt64.le_iff_toNat_le.mp hle
      · rw [Function.update_of_ne hi]
    cases hkernel : s.kernel k with
    | none => exact Nat.zero_le _
    | some old => simpa only [hkernel, Option.getD_some] using hsum
  · simp only [kernelTotal, Function.update_of_ne hk]
    exact Nat.le_refl _

theorem Covered.start (k : CgKey) (allowed : Allowed) : Covered k (start allowed : Collecting n) :=
  ⟨Nat.le_refl 0, fun _ h => by cases h⟩

/-- The rise in 64 bits is no more than what has been counted since. -/
theorem rise_le {e t total : ℕ} {seen last : ℕ} (hle : t ≤ total) (hlast : last = t % 2 ^ 64)
    (hseen : seen = total % 2 ^ 64) (he : e ≤ t) : e + (seen - last) ≤ total := by
  omega

/-- A visit of a key whose last value has been kept exports nothing twice. -/
theorem Covered.visit (h : Covered k s) {key : CgKey} (hC : s.Remembered k (.visit key))
    (he : s.step (.visit key) = some t) : Covered k t := by
  simp only [Collecting.step] at he
  cases hkernel : s.kernel key with
  | none =>
      rw [hkernel] at he
      cases he
  | some val =>
      rw [hkernel] at he
      cases he
      by_cases hk : key = k
      · subst hk
        have htotal : s.kernelTotal key = ∑ i, (val i).toNat := by rw [kernelTotal, hkernel]
        have hseen : (sumVal (List.ofFn val)).toNat = s.kernelTotal key % 2 ^ 64 := by
          rw [toNat_sumVal_ofFn, htotal]
        cases hpath : s.allowed.path key.cgid with
        | none =>
            rw [visit_of_none hpath]
            refine ⟨h.exported, fun total hlast => ?_⟩
            simp only [Function.update_self] at hlast
            cases hlast
        | some path =>
            have hallowed := Option.isSome_of_eq_some hpath
            have hexported : (Gocker.Obsv.visit s.allowed s.scanned
                (key, List.ofFn val)).exported key ≤ s.kernelTotal key := by
              rw [exported_visit hallowed]
              cases hlast : s.scanned.last key with
              | none =>
                  rw [hC rfl hallowed hlast]
                  exact rise_le (Nat.zero_le _) rfl hseen (Nat.le_refl 0)
              | some total =>
                  obtain ⟨t, ht, hmod, hle⟩ := h.last total hlast
                  exact rise_le ht hmod hseen hle
            refine ⟨hexported, fun total hlast => ?_⟩
            simp only [last_visit hallowed, Option.some.injEq] at hlast
            exact ⟨s.kernelTotal key, Nat.le_refl _, hlast ▸ hseen, hexported⟩
      · refine ⟨?_, fun total htotal => ?_⟩
        · simp only [(visit_of_ne (Ne.symm hk)).2]
          exact h.exported
        · simp only [(visit_of_ne (Ne.symm hk)).1] at htotal
          simp only [(visit_of_ne (Ne.symm hk)).2]
          exact h.last total htotal

theorem Covered.step {e : CollectEvent n} (h : Covered k s) (hC : s.Remembered k e)
    (he : s.step e = some t) : Covered k t := by
  cases e with
  | count key cpu val =>
      obtain ⟨hscanned, hgrown⟩ := kernelTotal_count he
      refine ⟨hscanned ▸ h.exported.trans (hgrown k), fun total hlast => ?_⟩
      obtain ⟨t', ht, hmod, hle⟩ := h.last total (hscanned ▸ hlast)
      exact ⟨t', ht.trans (hgrown k), hmod, hscanned ▸ hle⟩
  | refresh sight targetPath targetCgid =>
      cases he
      exact ⟨h.exported, h.last⟩
  | visit key => exact h.visit hC he

/-- **No event is exported twice** in every run in which no scan meets `k` in the whitelist
after its last value has been dropped: the exported sum is at most the total of the kernel. -/
theorem exported_le {allowed : Allowed}
    (h : Reaches step (Remembered k) (Collecting.start allowed) s) :
    s.scanned.exported k ≤ s.kernelTotal k :=
  (h.invariant (I := Covered k) (.start k allowed) fun _ _ _ hi hC he => hi.step hC he).exported

/-- The whitelist is lost for one tick: the directory of the target cannot be read. -/
def unreadable : Sight := { Hierarchy.flat.sight with readDir := fun _ => .error .other }

/-- The key of the container of `Hierarchy.flat`. -/
def webKey : CgKey := { cgid := 3, type := 1 }

theorem exported_le_flat :
    ∃ s : Collecting 2, s.kernelTotal webKey = 12 ∧ s.scanned.exported webKey = 12 ∧
      s.scanned.exported webKey ≤ s.kernelTotal webKey :=
  ⟨outcome step (Remembered webKey) (start [])
      [.refresh Hierarchy.flat.sight ["gocker"] 2, .count webKey 0 10, .visit webKey,
        .refresh unreadable ["gocker"] 2, .count webKey 1 2,
        .refresh Hierarchy.flat.sight ["gocker"] 2, .visit webKey],
    by decide +kernel, by decide +kernel, exported_le (reaches_outcome ..)⟩

/-- The whitelist shrinks at one tick and comes back: ten events are exported as twenty. -/
theorem exported_twice :
    ∃ s : Collecting 2, Reaches step Always (start []) s ∧ s.kernelTotal webKey = 10 ∧
      s.scanned.exported webKey = 20 ∧ ¬ s.scanned.exported webKey ≤ s.kernelTotal webKey :=
  ⟨outcome step Always (start [])
      [.refresh Hierarchy.flat.sight ["gocker"] 2, .count webKey 0 10, .visit webKey,
        .refresh unreadable ["gocker"] 2, .visit webKey,
        .refresh Hierarchy.flat.sight ["gocker"] 2, .visit webKey],
    reaches_outcome .., by decide +kernel, by decide +kernel, by decide +kernel⟩

end Collecting

end Gocker.Obsv
