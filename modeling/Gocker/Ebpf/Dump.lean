import Gocker.Ebpf.SchedMonitor
import Gocker.Lib.GrowingList
import Gocker.Lib.Machine

/-!
# Printing the statistics

`dump_cgstats` (`eBPF/main.c`) goes over the statistics with `bpf_map_get_next_key` and prints
those of the cgroups that have run long enough.  The programs of the kernel go on meanwhile: they
change the values and add keys, but remove none.

`dump_complete` says what has been printed in the end, and `dump_ends` that there is an end,
whatever the programs do.

### The order of the keys

A hash map of the kernel gives its keys in some order, `bpf_map_get_next_key` the one that
follows a given key in it.  Where a key is added, the order of the others stays (`s.keys <+
keys`), but the new one may lie before the place of the walk and then is not seen.  No key is
removed, so the walk never starts again from the front.

### What a row is

A row shows the values that the cgroup had at some moment of the walk (`Had`), which is the
moment of the lookup.  A cgroup that has run long enough when the walk begins and is known by
then is printed, and each is printed at most once.
-/

namespace Gocker.Ebpf

open Machine
open GrowingList (nextKey At Over)
open scoped List

/-! ## The machine -/

/-- Where the loop stands: before `bpf_map_get_next_key`, before `bpf_map_lookup_elem`, at its
end. -/
inductive DumpPhase where
  | next (key : Option UInt64)
  | lookup (key : UInt64)
  | ended
deriving DecidableEq

/-- Behind the last key, `bpf_map_get_next_key` has been called once more. -/
def DumpPhase.odd : DumpPhase → ℕ
  | .next _ => 0
  | .lookup _ => 1
  | .ended => 1

/-- The monitor, and the last call of `dump_cgstats`. -/
structure Dumping where
  monitor : MonitorState
  /-- the keys of `cg_stats`, in the order of the table -/
  keys : List UInt64
  phase : DumpPhase
  /-- the keys that have been looked up -/
  visited : List UInt64
  printed : List (UInt64 × CgStatVal)
  /-- the calls of the two functions -/
  calls : ℕ

/-- The events: an event of the scheduler, or a step of the walk. -/
inductive DumpEvent where
  /-- a tracepoint, and the order of the table afterwards -/
  | fire (e : SchedEvent) (keys : List UInt64)
  | begin
  | call
deriving DecidableEq

namespace Dumping

/-- Nothing has been printed. -/
def start : Dumping where
  monitor := .start
  keys := []
  phase := .ended
  visited := []
  printed := []
  calls := 0

/-- `bpf_map_lookup_elem`, and what the body of the loop makes of the value. -/
def line (m : SchedMonitor) (s : Dumping) (key : UInt64) : Option (UInt64 × CgStatVal) :=
  (s.monitor.cgStats.lookup key).bind fun val =>
    if m.isShort val.runtimeNs then none else some (key, val)

/-- A table is extended in place: the keys that it has keep their order. -/
def step (m : SchedMonitor) (s : Dumping) : DumpEvent → Option Dumping
  | .fire e keys =>
      let monitor := m.handle s.monitor e
      if s.keys <+ keys ∧ keys ~ monitor.cgStats.table.keys then
        some { s with monitor := monitor, keys := keys }
      else none
  | .begin =>
      if s.phase = .ended then
        some { s with phase := .next none, visited := [], printed := [], calls := 0 }
      else none
  | .call =>
      match s.phase with
      | .ended => none
      | .next key =>
          let phase := (nextKey s.keys key).elim DumpPhase.ended .lookup
          some { s with phase := phase, calls := s.calls + 1 }
      | .lookup key =>
          some { s with
            phase := .next (some key)
            visited := s.visited ++ [key]
            printed := s.printed ++ (s.line m key).toList
            calls := s.calls + 1 }

variable {m : SchedMonitor} {s t u : Dumping}

/-! ## The walk -/

/-- The loop is not begun again. -/
def NotBegin (_ : Dumping) (e : DumpEvent) : Prop := e ≠ .begin

instance (s : Dumping) (e : DumpEvent) : Decidable (NotBegin s e) :=
  inferInstanceAs (Decidable (_ ≠ _))

/-- The keys are those of the table. -/
def Ordered (s : Dumping) : Prop := s.keys ~ s.monitor.cgStats.table.keys

theorem Ordered.nodup (h : s.Ordered) : s.keys.Nodup :=
  h.nodup_iff.mpr s.monitor.cgStats.table.keys_nodup

/-- There are no more keys than the map can hold. -/
theorem Ordered.length_le (h : s.Ordered) : s.keys.length ≤ maxEntries :=
  h.length_eq ▸ s.monitor.cgStats.length_le

/-- The keys in the order are those that the map has. -/
theorem Ordered.mem_iff (h : s.Ordered) {key : UInt64} :
    key ∈ s.keys ↔ (s.monitor.cgStats.lookup key).isSome :=
  (List.Perm.mem_iff h).trans BoundedMap.isSome_lookup.symm

/-- What an event of the scheduler does: the order grows by the key it adds, if any. -/
theorem fire_eq_some {e : SchedEvent} {keys : List UInt64} :
    s.step m (.fire e keys) = some t ↔
      (s.keys <+ keys ∧ keys ~ (m.handle s.monitor e).cgStats.table.keys) ∧
        t = { s with monitor := m.handle s.monitor e, keys := keys } := by
  simp only [step]
  split_ifs with h
  · simp [h, eq_comm]
  · simp [h]

theorem begin_eq_some :
    s.step m .begin = some t ↔ s.phase = .ended ∧
      t = { s with phase := .next none, visited := [], printed := [], calls := 0 } := by
  simp only [step]
  split_ifs with h
  · simp [h, eq_comm]
  · simp [h]

/-- Each step keeps the order one of the map's keys. -/
theorem Ordered.step {e : DumpEvent} (h : s.Ordered) (he : s.step m e = some t) : t.Ordered := by
  cases e with
  | fire e keys =>
      obtain ⟨⟨-, hperm⟩, rfl⟩ := fire_eq_some.mp he
      exact hperm
  | begin =>
      obtain ⟨-, rfl⟩ := begin_eq_some.mp he
      exact h
  | call =>
      simp only [Dumping.step] at he
      split at he
      · cases he
      · obtain rfl := Option.some.inj he
        exact h
      · obtain rfl := Option.some.inj he
        exact h

/-- Where the walk over the table stands. -/
def Stands (first visited keys : List UInt64) : DumpPhase → Prop
  | .next none => visited = []
  | .next (some key) => ∃ seen, visited = seen ++ [key] ∧ At first seen keys key
  | .lookup key => At first visited keys key
  | .ended => Over first visited keys

/-- The invariant of the walk since `u`. -/
structure Walking (u s : Dumping) : Prop where
  ordered : s.Ordered
  first : u.keys ⊆ s.keys
  stands : Stands u.keys s.visited s.keys s.phase
  calls : s.calls = 2 * s.visited.length + s.phase.odd

theorem Walking.begin (hs : s.Ordered) (hbegin : s.step m .begin = some u) : Walking u u := by
  obtain ⟨-, rfl⟩ := begin_eq_some.mp hbegin
  exact ⟨hs, List.Subset.refl _, rfl, rfl⟩

/-- A walk stands where it stood when keys are added: what it has seen remains, and a key may
have been added at any place. -/
theorem Stands.grow {first visited keys keys' : List UInt64} {phase : DumpPhase}
    (h : Stands first visited keys phase) (hgrow : keys <+ keys') (hnodup : keys'.Nodup)
    (hfirst : first ⊆ keys) : Stands first visited keys' phase := by
  cases phase with
  | next key =>
      cases key with
      | none => exact h
      | some key =>
          obtain ⟨seen, hseen, hat⟩ := h
          exact ⟨seen, hseen, hat.grow hgrow hnodup hfirst⟩
  | lookup key => exact At.grow h hgrow hnodup hfirst
  | ended => exact Over.grow h hgrow

/-- `bpf_map_get_next_key` goes on, or ends the loop. -/
theorem Stands.next {first visited keys : List UInt64} {key : Option UInt64}
    (h : Stands first visited keys (.next key)) (hnodup : keys.Nodup) (hfirst : first ⊆ keys) :
    Stands first visited keys ((nextKey keys key).elim .ended .lookup) := by
  cases key with
  | none =>
      obtain rfl : visited = [] := h
      cases hnext : nextKey keys none with
      | none => exact GrowingList.over_of_empty hnext hfirst
      | some key => exact GrowingList.at_head hnext
  | some key =>
      obtain ⟨seen, rfl, hat⟩ := h
      cases hnext : nextKey keys (some key) with
      | none => exact hat.last hnodup hfirst hnext
      | some key' => exact hat.next hnodup hnext

/-- Each step of the walk or of the programs keeps its place. -/
theorem Walking.step {e : DumpEvent} (h : Walking u s) (hC : NotBegin s e)
    (he : s.step m e = some t) : Walking u t := by
  have hordered := h.ordered.step he
  cases e with
  | fire e keys =>
      obtain ⟨⟨hgrow, -⟩, rfl⟩ := fire_eq_some.mp he
      exact ⟨hordered, List.Subset.trans h.first hgrow.subset,
        h.stands.grow hgrow hordered.nodup h.first, h.calls⟩
  | begin => exact absurd rfl hC
  | call =>
      obtain ⟨-, hfirst, hstands, hcalls⟩ := h
      simp only [Dumping.step] at he
      split at he
      · cases he
      · next key hphase =>
          obtain rfl := Option.some.inj he
          rw [hphase] at hstands hcalls
          refine ⟨hordered, hfirst, hstands.next hordered.nodup hfirst, ?_⟩
          cases nextKey s.keys key <;> exact congrArg (· + 1) hcalls
      · next key hphase =>
          obtain rfl := Option.some.inj he
          rw [hphase] at hstands hcalls
          refine ⟨hordered, hfirst, ⟨s.visited, rfl, hstands⟩, ?_⟩
          have hlength : (s.visited ++ [key]).length = s.visited.length + 1 := List.length_append ..
          show s.calls + 1 = 2 * (s.visited ++ [key]).length + 0
          rw [hcalls, hlength]
          rfl

theorem Stands.length_le {first visited keys : List UInt64} {phase : DumpPhase}
    (h : Stands first visited keys phase) (hnodup : keys.Nodup) :
    visited.length ≤ keys.length := by
  cases phase with
  | next key =>
      cases key with
      | none =>
          obtain rfl : visited = [] := h
          exact Nat.zero_le _
      | some key =>
          obtain ⟨seen, rfl, hat⟩ := h
          rw [List.length_append, List.length_singleton]
          exact (hat.seen_lt hnodup).2.2
  | lookup key => exact (At.seen_lt h hnodup).2.2.le
  | ended => exact h.1.length_le

/-- A run from the beginning of a walk has its place kept throughout. -/
theorem walking_of_reaches (h : Reaches (step m) Always start s)
    (hbegin : s.step m .begin = some u) (hrun : Reaches (step m) NotBegin u t) : Walking u t :=
  have hordered : s.Ordered := h.invariant .rfl fun _ _ _ hi _ he => hi.step he
  hrun.invariant (.begin hordered hbegin) fun _ _ _ hi hC he => hi.step hC he

/-- **The loop ends**: it makes at most two calls for each of the entries that the table can
have, and one more, whatever the programs do in the meantime. -/
theorem dump_ends (h : Reaches (step m) Always start s) (hbegin : s.step m .begin = some u)
    (hrun : Reaches (step m) NotBegin u t) : t.calls ≤ 2 * maxEntries + 1 := by
  have hwalk := walking_of_reaches h hbegin hrun
  have hvisited : t.visited.length ≤ t.keys.length := hwalk.stands.length_le hwalk.ordered.nodup
  have hodd : t.phase.odd ≤ 1 := by cases t.phase <;> simp [DumpPhase.odd]
  have hkeys := hwalk.ordered.length_le
  rw [hwalk.calls]
  omega

/-- The configuration without the filter. -/
def unfiltered : SchedMonitor := { SchedMonitor.gocker 42 with filterEnabled := 0 }

/-- A cgroup has run for six milliseconds. -/
def ranBefore : List DumpEvent :=
  [.fire ⟨SchedMonitor.firedIn 42 true, .schedStatRuntime 6000000⟩ [42]]

/-- The calls of the loop, with a second cgroup that comes in front of the first one. -/
def dumped : List DumpEvent :=
  [.call, .fire ⟨SchedMonitor.firedIn 43 true, .schedStatRuntime 9000000⟩ [43, 42], .call, .call]

/-- The loop over a table that gets a second key meanwhile: three calls. -/
theorem dump_ends_growing :
    ∃ t : Dumping, t.phase = .ended ∧ t.keys = [43, 42] ∧ t.visited = [42] ∧ t.calls = 3 ∧
      t.calls ≤ 2 * maxEntries + 1 := by
  let s := outcome (step unfiltered) Always start ranBefore
  let u : Dumping := { s with phase := .next none, visited := [], printed := [], calls := 0 }
  have hended : s.phase = .ended := by decide +kernel
  exact ⟨outcome (step unfiltered) NotBegin u dumped, by decide +kernel, by decide +kernel,
    by decide +kernel, by decide +kernel,
    dump_ends (reaches_outcome ..) (begin_eq_some.mpr ⟨hended, rfl⟩) (reaches_outcome ..)⟩

/-! ## The values -/

/-- The runtime of a cgroup does not exceed 64 bits. -/
def NoWrap (s : Dumping) : DumpEvent → Prop
  | .fire e _ =>
      match e.tracepoint with
      | .schedStatRuntime runtime =>
          ((s.monitor.cgStats.lookup e.ctx.currentCgroupId).getD .zero).runtimeNs.toNat +
            runtime.toNat < 2 ^ 64
      | _ => True
  | _ => True

/-- The loop goes on, and the runtimes grow. -/
def Going (s : Dumping) (e : DumpEvent) : Prop := NotBegin s e ∧ NoWrap s e

instance (s : Dumping) (e : DumpEvent) : Decidable (NoWrap s e) := by
  unfold NoWrap
  split
  · split <;> infer_instance
  · infer_instance

instance (s : Dumping) (e : DumpEvent) : Decidable (Going s e) :=
  inferInstanceAs (Decidable (_ ∧ _))

/-- An event that does not wrap the runtime around does not lower it. -/
theorem runtimeNs_change {e : SchedEvent} {keys : List UInt64} (hwrap : NoWrap s (.fire e keys))
    {f : CgStatVal → CgStatVal} (hf : m.change e = some f) {v : CgStatVal}
    (h : s.monitor.cgStats.lookup e.ctx.currentCgroupId = some v) :
    v.runtimeNs ≤ (f v).runtimeNs := by
  obtain ⟨ctx, tracepoint⟩ := e
  cases tracepoint with
  | schedStatRuntime runtime =>
      simp only [NoWrap, h, Option.getD_some] at hwrap
      simp only [SchedMonitor.change] at hf
      split_ifs at hf
      obtain rfl := Option.some.inj hf
      rw [UInt64.le_iff_toNat_le, UInt64.toNat_add, Nat.mod_eq_of_lt hwrap]
      exact Nat.le_add_right ..
  | schedSwitch | schedWakeup | schedMigrateTask =>
      simp only [SchedMonitor.change] at hf
      split_ifs at hf
      obtain rfl := Option.some.inj hf
      exact UInt64.le_refl _

/-- A program keeps the entries, and their runtimes do not become less. -/
theorem lookup_handle {e : SchedEvent} {keys : List UInt64} (hwrap : NoWrap s (.fire e keys))
    {key : UInt64} {v : CgStatVal} (h : s.monitor.cgStats.lookup key = some v) :
    ∃ v', (m.handle s.monitor e).cgStats.lookup key = some v' ∧ v.runtimeNs ≤ v'.runtimeNs := by
  rw [m.handle_cgStats]
  cases hupdate : m.update e with
  | none => exact ⟨v, h, UInt64.le_refl _⟩
  | some op =>
      show ∃ v', (s.monitor.cgStats.accumulate .zero op.1 op.2).lookup key = some v' ∧ _
      by_cases hroom : s.monitor.cgStats.HasRoom op.1
      · rw [BoundedMap.lookup_accumulate hroom]
        split_ifs with hkey
        · subst hkey
          unfold SchedMonitor.update at hupdate
          split_ifs at hupdate
          obtain ⟨f, hf, rfl⟩ := Option.map_eq_some_iff.mp hupdate
          exact ⟨f v, by rw [h]; rfl, runtimeNs_change hwrap hf h⟩
        · exact ⟨v, h, UInt64.le_refl _⟩
      · rw [BoundedMap.accumulate_of_full hroom]
        exact ⟨v, h, UInt64.le_refl _⟩

/-- The row that is printed for a key: its values at that time, if the runtime is long enough. -/
theorem line_eq_some {key : UInt64} {row : UInt64 × CgStatVal} :
    s.line m key = some row ↔ row.1 = key ∧ s.monitor.cgStats.lookup key = some row.2 ∧
      m.isShort row.2.runtimeNs = false := by
  obtain ⟨key', val⟩ := row
  rw [line, Option.bind_eq_some_iff]
  constructor
  · rintro ⟨v, hv, hrow⟩
    split_ifs at hrow with hshort
    obtain ⟨rfl, rfl⟩ := Prod.mk.inj (Option.some.inj hrow)
    exact ⟨rfl, hv, Bool.eq_false_iff.mpr hshort⟩
  · rintro ⟨rfl, hv, hshort⟩
    exact ⟨val, hv, by simp [hshort]⟩

/-- The entry of a key has at least this runtime. -/
def HasRun (s : Dumping) (key runtime : UInt64) : Prop :=
  ∃ v, s.monitor.cgStats.lookup key = some v ∧ runtime ≤ v.runtimeNs

/-- A runtime that has been reached stays reached. -/
theorem HasRun.step {e : DumpEvent} {key runtime : UInt64} (h : HasRun s key runtime)
    (hwrap : NoWrap s e) (he : s.step m e = some t) : HasRun t key runtime := by
  obtain ⟨v, hv, hle⟩ := h
  cases e with
  | fire e keys =>
      obtain ⟨-, rfl⟩ := fire_eq_some.mp he
      obtain ⟨v', hv', hle'⟩ := lookup_handle hwrap hv
      exact ⟨v', hv', UInt64.le_trans hle hle'⟩
  | begin =>
      obtain ⟨-, rfl⟩ := begin_eq_some.mp he
      exact ⟨v, hv, hle⟩
  | call =>
      simp only [Dumping.step] at he
      split at he
      · cases he
      · obtain rfl := Option.some.inj he
        exact ⟨v, hv, hle⟩
      · obtain rfl := Option.some.inj he
        exact ⟨v, hv, hle⟩

/-- The cgroup had this value, with all its fields, in a state that the run has passed between
`u` and `s`. -/
def Had (m : SchedMonitor) (u s : Dumping) (row : UInt64 × CgStatVal) : Prop :=
  ∃ r, Reaches (step m) Going u r ∧ Reaches (step m) Going r s ∧
    r.monitor.cgStats.lookup row.1 = some row.2

/-- What a cgroup has had, it still has had later. -/
theorem Had.step {e : DumpEvent} {row : UInt64 × CgStatVal} (h : Had m u s row) (hC : Going s e)
    (he : s.step m e = some t) : Had m u t row := by
  obtain ⟨r, hbefore, hafter, hlookup⟩ := h
  exact ⟨r, hbefore, hafter.tail hC he, hlookup⟩

/-- What is printed for a key is not below the threshold, and the key had it, as a whole, at some
time since `u`. -/
structure Line (m : SchedMonitor) (u s : Dumping) (row : UInt64 × CgStatVal) : Prop where
  long : m.isShort row.2.runtimeNs = false
  had : Had m u s row

/-- The invariant of what is printed since `u`. -/
structure Printed (m : SchedMonitor) (u s : Dumping) : Prop where
  run : Reaches (step m) Going u s
  later : ∀ key v, u.monitor.cgStats.lookup key = some v → HasRun s key v.runtimeNs
  keys : s.printed.map Prod.fst <+ s.visited
  lines : ∀ row ∈ s.printed, Line m u s row
  all : ∀ key ∈ s.visited, ∀ v, u.monitor.cgStats.lookup key = some v →
    m.isShort v.runtimeNs = false → key ∈ s.printed.map Prod.fst

theorem Printed.begin (hbegin : s.step m .begin = some u) : Printed m u u := by
  obtain ⟨-, rfl⟩ := begin_eq_some.mp hbegin
  exact ⟨.refl _, fun key v hv => ⟨v, hv, UInt64.le_refl _⟩, List.Sublist.slnil,
    List.forall_mem_nil _, List.forall_mem_nil _⟩

/-- A longer runtime is not short either. -/
theorem isShort_of_le {a b : UInt64} (hle : a ≤ b) (h : m.isShort a = false) :
    m.isShort b = false := by
  simp only [SchedMonitor.isShort, Bool.and_eq_false_imp, decide_eq_true_eq,
    decide_eq_false_iff_not, UInt64.not_lt] at h ⊢
  exact fun hzero => UInt64.le_trans (h hzero) hle

/-- Each step keeps what is known of the rows that have been printed. -/
theorem Printed.step {e : DumpEvent} (h : Printed m u s) (hC : Going s e)
    (he : s.step m e = some t) : Printed m u t := by
  have hlater : ∀ key v, u.monitor.cgStats.lookup key = some v → HasRun t key v.runtimeNs :=
    fun key v hv => (h.later key v hv).step hC.2 he
  have hlines : ∀ row ∈ s.printed, Line m u t row := fun row hrow =>
    ⟨(h.lines row hrow).long, (h.lines row hrow).had.step hC he⟩
  have hnext : Reaches (Dumping.step m) Going s t := .tail (.refl s) hC he
  have hrun : Reaches (Dumping.step m) Going u t := h.run.trans hnext
  cases e with
  | fire e keys =>
      obtain ⟨-, rfl⟩ := fire_eq_some.mp he
      exact ⟨hrun, hlater, h.keys, hlines, h.all⟩
  | begin => exact absurd rfl hC.1
  | call =>
      simp only [Dumping.step] at he
      split at he
      · cases he
      · obtain rfl := Option.some.inj he
        exact ⟨hrun, hlater, h.keys, hlines, h.all⟩
      · next key hphase =>
          obtain rfl := Option.some.inj he
          refine ⟨hrun, hlater, ?_, fun row hrow => ?_, fun key' hkey' v hv hlong => ?_⟩
          · -- one line at most, for this key
            rw [List.map_append]
            refine h.keys.append ?_
            cases hline : s.line m key with
            | none => exact List.nil_sublist _
            | some row => exact (line_eq_some.mp hline).1 ▸ List.Sublist.refl _
          · rcases List.mem_append.mp hrow with hrow | hrow
            · exact hlines row hrow
            · obtain ⟨rfl, hlookup, hshort⟩ := line_eq_some.mp (Option.mem_toList.mp hrow)
              -- the value is the one of the state in which it is looked up
              exact ⟨hshort, s, h.run, hnext, hlookup⟩
          · rw [List.map_append, List.mem_append]
            rcases List.mem_append.mp hkey' with hkey' | hkey'
            · exact .inl (h.all key' hkey' v hv hlong)
            · obtain rfl := List.mem_singleton.mp hkey'
              obtain ⟨v', hv', hle⟩ := h.later key' v hv
              have hline : s.line m key' = some (key', v') :=
                line_eq_some.mpr ⟨rfl, hv', isShort_of_le hle hlong⟩
              exact .inr (by simp [hline])

/-- **What has been printed in the end**: no cgroup twice; only rows that are not below the
threshold, each of which the cgroup had, with all its fields, in one state between the beginning
and the end; and each cgroup whose runtime was not below the threshold when the loop began. -/
theorem dump_complete (h : Reaches (step m) Always start s) (hbegin : s.step m .begin = some u)
    (hrun : Reaches (step m) Going u t) (hend : t.phase = .ended) :
    (t.printed.map Prod.fst).Nodup ∧ (∀ row ∈ t.printed, Line m u t row) ∧
      ∀ key v, s.monitor.cgStats.lookup key = some v → m.isShort v.runtimeNs = false →
        key ∈ t.printed.map Prod.fst := by
  have hwalk := walking_of_reaches h hbegin (hrun.mono fun _ _ hC => hC.1)
  have hprinted : Printed m u t :=
    hrun.invariant (.begin hbegin) fun _ _ _ hi hC he => hi.step hC he
  have hover : Over u.keys t.visited t.keys := by
    have hstands := hwalk.stands
    rwa [hend] at hstands
  have hnodup : t.visited.Nodup := hover.1.nodup hwalk.ordered.nodup
  have hordered : s.Ordered := h.invariant .rfl fun _ _ _ hi _ he => hi.step he
  obtain ⟨-, rfl⟩ := begin_eq_some.mp hbegin
  refine ⟨hprinted.keys.nodup hnodup, hprinted.lines, fun key v hv hlong => ?_⟩
  have hkey : key ∈ s.keys := hordered.mem_iff.mpr (Option.isSome_of_eq_some hv)
  exact hprinted.all key (hover.2 hkey) v hv hlong

/-- The first cgroup is printed, with what it had; the second has come too late. -/
theorem dump_complete_pair :
    ∃ s u t : Dumping, t.printed = [(42, ⟨6000000, 0, 0, 0, 0⟩)] ∧ t.keys = [43, 42] ∧
      (t.printed.map Prod.fst).Nodup ∧ (∀ row ∈ t.printed, Line unfiltered u t row) ∧
        ∀ key v, s.monitor.cgStats.lookup key = some v →
          unfiltered.isShort v.runtimeNs = false → key ∈ t.printed.map Prod.fst := by
  let s := outcome (step unfiltered) Always start ranBefore
  let u : Dumping := { s with phase := .next none, visited := [], printed := [], calls := 0 }
  have hended : s.phase = .ended := by decide +kernel
  exact ⟨s, u, outcome (step unfiltered) Going u dumped, by decide +kernel, by decide +kernel,
    dump_complete (reaches_outcome ..) (begin_eq_some.mpr ⟨hended, rfl⟩) (reaches_outcome ..)
      (by decide +kernel)⟩

end Dumping

end Gocker.Ebpf
