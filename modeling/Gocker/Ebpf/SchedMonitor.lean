import Gocker.Lib.BoundedMap
import Mathlib.Algebra.BigOperators.Group.List.Basic
import Mathlib.Data.UInt

/-!
# Statistics of the scheduler

`sched_monitor.bpf.c` (`eBPF`) hangs four programs on the tracepoints of the scheduler.  Each
writes a record of the event to a ring buffer, and adds to the statistics of the cgroup.  The
ring buffer may be full, so that no record can be reserved.

`counters_iff` says when the three counters are the numbers of the events, and
`runtime_stats_iff` when the two times are the sum and the maximum of all runtimes.

### What is left out

* An event is counted only after a record of it could be reserved in the ring buffer; where this
  fails the program returns before the counter.
* A runtime below the threshold is dropped before it is added, though the comment above the
  program has every runtime accumulated.
* The maximum has a member in the structure and no code.
-/

namespace Gocker.Ebpf

/-- `enum evt_type` -/
inductive EvtType where
  | switch
  | wakeup
  | runtime
  | migrate
deriving DecidableEq, Repr

/-- The numbers of `enum evt_type`. -/
def EvtType.value : EvtType → UInt32
  | .switch => 1
  | .wakeup => 2
  | .runtime => 3
  | .migrate => 4

/-- `struct evt` -/
structure Evt where
  ts : UInt64
  cpu : UInt32
  type : UInt32
  pid : UInt32
  tgid : UInt32
  cgroupId : UInt64
  aux0 : Int32
  aux1 : Int32
  aux2 : UInt64
  comm : Vector UInt8 16
deriving DecidableEq, Repr

/-- `struct cg_stat_val` -/
structure CgStatVal where
  runtimeNs : UInt64
  maxRuntimeNs : UInt64
  ctxSwitches : UInt64
  wakeups : UInt64
  migrations : UInt64
deriving DecidableEq, Repr

/-- What the statistics of a cgroup begin with. -/
def CgStatVal.zero : CgStatVal := ⟨0, 0, 0, 0, 0⟩

/-- What the helpers return when a tracepoint fires. -/
structure Fired where
  ktimeGetNs : UInt64
  smpProcessorId : UInt32
  currentCgroupId : UInt64
  currentPidTgid : UInt64
  currentComm : Vector UInt8 16
  /-- whether `bpf_ringbuf_reserve` finds space -/
  reserved : Bool
deriving DecidableEq, Repr

/-- The four tracepoints, with the arguments that the programs read. -/
inductive Tracepoint where
  | schedSwitch (prevPid nextPid : Int32)
  | schedWakeup (targetCpu prio : Int32)
  | schedStatRuntime (runtime : UInt64)
  | schedMigrateTask (destCpu origCpu : Int32)
deriving DecidableEq, Repr

/-- A tracepoint that fires, with the task that is running. -/
structure SchedEvent where
  ctx : Fired
  tracepoint : Tracepoint
deriving DecidableEq, Repr

/-- `max_entries` of `cg_stats` -/
def maxEntries : ℕ := 8192

/-- `cg_stats`, by the id of a cgroup. -/
abbrev CgStats := BoundedMap UInt64 CgStatVal maxEntries

/-- What user space has written before the programs are attached. -/
structure SchedMonitor where
  runtimeEventThresholdNs : UInt64
  filterEnabled : UInt8
  allowedCgroups : UInt64 → Option UInt8

/-- The statistics, and what has been handed to the reader of the ring buffer. -/
structure MonitorState where
  cgStats : CgStats
  /-- the records that have been submitted -/
  eventsRb : List Evt

/-- Nothing has been counted. -/
def MonitorState.start : MonitorState := { cgStats := .empty, eventsRb := [] }

/-- `emit_event`: the record of an event. -/
def emitEvent (type : EvtType) (ctx : Fired) (aux0 aux1 : Int32) (aux2 : UInt64) : Evt where
  type := type.value
  ts := ctx.ktimeGetNs
  cpu := ctx.smpProcessorId
  cgroupId := ctx.currentCgroupId
  pid := (ctx.currentPidTgid &&& 0xffffffff).toUInt32
  tgid := (ctx.currentPidTgid >>> 32).toUInt32
  comm := ctx.currentComm
  aux0 := aux0
  aux1 := aux1
  aux2 := aux2

/-- `cgstats_add_runtime`; the maximum is a member that this does not touch. -/
def cgstatsAddRuntime (cgid delta : UInt64) (stats : CgStats) : CgStats :=
  stats.accumulate .zero cgid fun v => { v with runtimeNs := v.runtimeNs + delta }

/-- What `cgstats_inc` does to the value, where `which` is the kind of the event. -/
def CgStatVal.inc (which : ℕ) (v : CgStatVal) : CgStatVal :=
  match which with
  | 0 => { v with ctxSwitches := v.ctxSwitches + 1 }
  | 1 => { v with wakeups := v.wakeups + 1 }
  | 2 => { v with migrations := v.migrations + 1 }
  | _ => v

/-- `cgstats_inc` -/
def cgstatsInc (cgid : UInt64) (which : ℕ) (stats : CgStats) : CgStats :=
  stats.accumulate .zero cgid (.inc which)

namespace SchedMonitor

variable (m : SchedMonitor)

/-- `allow_cgroup`: without the filter every cgroup is allowed. -/
def allowCgroup (cgid : UInt64) : Bool :=
  if m.filterEnabled = 0 then true else (m.allowedCgroups cgid).isSome

/-- The three programs that count: they reserve a record first. -/
def countEvent (type : EvtType) (aux0 aux1 : Int32) (which : ℕ) (ctx : Fired)
    (s : MonitorState) : MonitorState :=
  if m.allowCgroup ctx.currentCgroupId = false then s
  else if ctx.reserved = false then s
  else
    { cgStats := cgstatsInc ctx.currentCgroupId which s.cgStats
      eventsRb := s.eventsRb ++ [emitEvent type ctx aux0 aux1 0] }

/-- `tp_sched_switch` -/
def tpSchedSwitch (prevPid nextPid : Int32) : Fired → MonitorState → MonitorState :=
  m.countEvent .switch prevPid nextPid 0

/-- `tp_sched_wakeup` -/
def tpSchedWakeup (targetCpu prio : Int32) : Fired → MonitorState → MonitorState :=
  m.countEvent .wakeup targetCpu prio 1

/-- `tp_sched_migrate_task` -/
def tpSchedMigrateTask (destCpu origCpu : Int32) : Fired → MonitorState → MonitorState :=
  m.countEvent .migrate destCpu origCpu 2

/-- A runtime below the threshold. -/
def isShort (runtime : UInt64) : Bool :=
  m.runtimeEventThresholdNs ≠ 0 && runtime < m.runtimeEventThresholdNs

/-- Here the statistics come first. -/
def tpSchedStatRuntime (runtime : UInt64) (ctx : Fired) (s : MonitorState) : MonitorState :=
  if m.allowCgroup ctx.currentCgroupId = false then s
  else if m.isShort runtime then s
  else
    let aggregated := { s with cgStats := cgstatsAddRuntime ctx.currentCgroupId runtime s.cgStats }
    if ctx.reserved = false then aggregated
    else { aggregated with eventsRb := s.eventsRb ++ [emitEvent .runtime ctx 0 0 runtime] }

/-- The program on a tracepoint. -/
def handle (s : MonitorState) (e : SchedEvent) : MonitorState :=
  match e.tracepoint with
  | .schedSwitch prevPid nextPid => m.tpSchedSwitch prevPid nextPid e.ctx s
  | .schedWakeup targetCpu prio => m.tpSchedWakeup targetCpu prio e.ctx s
  | .schedStatRuntime runtime => m.tpSchedStatRuntime runtime e.ctx s
  | .schedMigrateTask destCpu origCpu => m.tpSchedMigrateTask destCpu origCpu e.ctx s

/-- The state after these events. -/
def run (es : List SchedEvent) : MonitorState := es.foldl m.handle .start

/-- The statistics of a cgroup, zero as long as it has none. -/
def stats (es : List SchedEvent) (cgid : UInt64) : CgStatVal :=
  ((m.run es).cgStats.lookup cgid).getD .zero

/-- The allowed cgroups for which something fired. -/
def cgroups (es : List SchedEvent) : Finset UInt64 :=
  ((es.map (·.ctx.currentCgroupId)).filter m.allowCgroup).toFinset

end SchedMonitor

/-! ## What should be counted -/

/-- The kind of the event. -/
def Tracepoint.type : Tracepoint → EvtType
  | .schedSwitch _ _ => .switch
  | .schedWakeup _ _ => .wakeup
  | .schedStatRuntime _ => .runtime
  | .schedMigrateTask _ _ => .migrate

namespace SchedEvent

/-- The event is for this cgroup, and of this kind. -/
def isFor (cgid : UInt64) (type : EvtType) (e : SchedEvent) : Bool :=
  e.ctx.currentCgroupId = cgid && e.tracepoint.type = type

/-- The runtime that the event reports for this cgroup. -/
def runtimeFor (cgid : UInt64) (e : SchedEvent) : Option UInt64 :=
  match e.tracepoint with
  | .schedStatRuntime runtime => if e.ctx.currentCgroupId = cgid then some runtime else none
  | _ => none

end SchedEvent

/-- How many events of this kind fired for the cgroup. -/
def numberOf (es : List SchedEvent) (cgid : UInt64) (type : EvtType) : ℕ :=
  es.countP (·.isFor cgid type)

/-- All runtimes of the cgroup. -/
def runtimesOf (es : List SchedEvent) (cgid : UInt64) : List UInt64 :=
  es.filterMap (·.runtimeFor cgid)

/-! ## What an event adds -/

namespace CgStatVal

/-- The counter of a kind of event; the runtime has none. -/
def counter (type : EvtType) (v : CgStatVal) : UInt64 :=
  match type with
  | .switch => v.ctxSwitches
  | .wakeup => v.wakeups
  | .migrate => v.migrations
  | .runtime => 0

end CgStatVal

namespace SchedMonitor

variable (m : SchedMonitor)

/-- How an event of an allowed cgroup changes its statistics. -/
def change (e : SchedEvent) : Option (CgStatVal → CgStatVal) :=
  match e.tracepoint with
  | .schedSwitch _ _ => if e.ctx.reserved then some (.inc 0) else none
  | .schedWakeup _ _ => if e.ctx.reserved then some (.inc 1) else none
  | .schedMigrateTask _ _ => if e.ctx.reserved then some (.inc 2) else none
  | .schedStatRuntime runtime =>
      if m.isShort runtime then none
      else some fun v => { v with runtimeNs := v.runtimeNs + runtime }

/-- The update of the map that an event makes. -/
def update (e : SchedEvent) : Option (UInt64 × (CgStatVal → CgStatVal)) :=
  if m.allowCgroup e.ctx.currentCgroupId then
    (m.change e).map fun f => (e.ctx.currentCgroupId, f)
  else none

/-- What the event does to the statistics of this cgroup. -/
def applied (cgid : UInt64) (v : CgStatVal) (e : SchedEvent) : CgStatVal :=
  match m.update e with
  | none => v
  | some op => if op.1 = cgid then op.2 v else v

/-- The three programs that count. -/
theorem countEvent_cgStats (type : EvtType) (aux0 aux1 : Int32) (which : ℕ) (ctx : Fired)
    (s : MonitorState) :
    (m.countEvent type aux0 aux1 which ctx s).cgStats =
      if m.allowCgroup ctx.currentCgroupId && ctx.reserved then
        cgstatsInc ctx.currentCgroupId which s.cgStats
      else s.cgStats := by
  unfold countEvent
  cases m.allowCgroup ctx.currentCgroupId <;> cases ctx.reserved <;> rfl

/-- What a runtime does to the statistics: one below the threshold does nothing. -/
theorem tpSchedStatRuntime_cgStats (runtime : UInt64) (ctx : Fired) (s : MonitorState) :
    (m.tpSchedStatRuntime runtime ctx s).cgStats =
      if m.allowCgroup ctx.currentCgroupId && !m.isShort runtime then
        cgstatsAddRuntime ctx.currentCgroupId runtime s.cgStats
      else s.cgStats := by
  unfold tpSchedStatRuntime
  cases m.allowCgroup ctx.currentCgroupId <;> cases m.isShort runtime <;>
    cases ctx.reserved <;> rfl

/-- What an event does to the statistics, in terms of `update`. -/
theorem handle_cgStats (s : MonitorState) (e : SchedEvent) :
    (m.handle s e).cgStats =
      (m.update e).elim s.cgStats fun op => s.cgStats.accumulate .zero op.1 op.2 := by
  obtain ⟨ctx, tracepoint⟩ := e
  unfold update change
  cases tracepoint with
  | schedSwitch prevPid nextPid =>
      refine (m.countEvent_cgStats .switch prevPid nextPid 0 ctx s).trans ?_
      cases m.allowCgroup ctx.currentCgroupId <;> cases ctx.reserved <;> rfl
  | schedWakeup targetCpu prio =>
      refine (m.countEvent_cgStats .wakeup targetCpu prio 1 ctx s).trans ?_
      cases m.allowCgroup ctx.currentCgroupId <;> cases ctx.reserved <;> rfl
  | schedMigrateTask destCpu origCpu =>
      refine (m.countEvent_cgStats .migrate destCpu origCpu 2 ctx s).trans ?_
      cases m.allowCgroup ctx.currentCgroupId <;> cases ctx.reserved <;> rfl
  | schedStatRuntime runtime =>
      refine (m.tpSchedStatRuntime_cgStats runtime ctx s).trans ?_
      cases m.allowCgroup ctx.currentCgroupId <;> cases hshort : m.isShort runtime <;>
        simp [hshort, cgstatsAddRuntime]

/-- The statistics are accumulators. -/
theorem run_cgStats (es : List SchedEvent) :
    (m.run es).cgStats = BoundedMap.accumulated maxEntries .zero (es.filterMap m.update) := by
  induction es using List.reverseRecOn with
  | nil => rfl
  | append_singleton es e ih =>
      have hrun : m.run (es ++ [e]) = m.handle (m.run es) e := List.foldl_concat ..
      rw [hrun, handle_cgStats, List.filterMap_append, ih]
      cases h : m.update e with
      | none => simp [h]
      | some op => simp [h, BoundedMap.accumulated_concat]

variable {m}

/-- Only the cgroup that is running is changed, and only if it is allowed. -/
theorem cgroup_of_update {e : SchedEvent} {op : UInt64 × (CgStatVal → CgStatVal)}
    (h : m.update e = some op) :
    op.1 = e.ctx.currentCgroupId ∧ m.allowCgroup e.ctx.currentCgroupId = true := by
  unfold update at h
  split_ifs at h with hallow
  obtain ⟨f, -, rfl⟩ := Option.map_eq_some_iff.mp h
  exact ⟨rfl, hallow⟩

/-- **The statistics of a cgroup are the fold of its own updates**, while all cgroups fit in
the map. -/
theorem stats_eq_foldl {es : List SchedEvent} (hfit : (m.cgroups es).card ≤ maxEntries)
    (cgid : UInt64) : m.stats es cgid = es.foldl (m.applied cgid) .zero := by
  have hkeys : ∀ op ∈ es.filterMap m.update, op.1 ∈ m.cgroups es := by
    intro op hop
    obtain ⟨e, he, hop⟩ := List.mem_filterMap.mp hop
    obtain ⟨hcgid, hallow⟩ := cgroup_of_update hop
    rw [hcgid]
    exact List.mem_toFinset.mpr (List.mem_filter.mpr ⟨List.mem_map_of_mem he, hallow⟩)
  rw [stats, run_cgStats, BoundedMap.getD_lookup_accumulated hkeys hfit, List.foldl_filter,
    List.foldl_filterMap]
  congr 1
  funext v e
  unfold applied
  cases m.update e with
  | none => rfl
  | some op => simp

variable {es : List SchedEvent} {cgid : UInt64} {type : EvtType}

/-- What an event makes of the values of its own cgroup. -/
theorem applied_self {e : SchedEvent} (hallow : m.allowCgroup cgid = true)
    (hcgid : e.ctx.currentCgroupId = cgid) (v : CgStatVal) :
    m.applied cgid v e = (m.change e).elim v fun f => f v := by
  unfold applied update
  rw [hcgid, if_pos hallow]
  cases m.change e with
  | none => rfl
  | some f => exact if_pos rfl

theorem applied_other {e : SchedEvent} (hcgid : e.ctx.currentCgroupId ≠ cgid) (v : CgStatVal) :
    m.applied cgid v e = v := by
  unfold applied
  cases h : m.update e with
  | none => rfl
  | some op => exact if_neg ((cgroup_of_update h).1 ▸ hcgid)

/-! ## The counters -/

/-- How many of these events found space for their records. -/
def recordedOf (es : List SchedEvent) (cgid : UInt64) (type : EvtType) : ℕ :=
  es.countP fun e => e.ctx.reserved && e.isFor cgid type

theorem recordedOf_le (es : List SchedEvent) (cgid : UInt64) (type : EvtType) :
    recordedOf es cgid type ≤ numberOf es cgid type := by
  apply List.countP_mono_left
  intro e _ he
  exact (Bool.and_eq_true_iff.mp he).2

/-- All are counted exactly if a record could be reserved for each. -/
theorem recordedOf_eq_iff :
    recordedOf es cgid type = numberOf es cgid type ↔
      ∀ e ∈ es, e.isFor cgid type = true → e.ctx.reserved = true := by
  have hfilter :
      recordedOf es cgid type = (es.filter (·.isFor cgid type)).countP (·.ctx.reserved) :=
    List.countP_filter.symm
  have hlength : numberOf es cgid type = (es.filter (·.isFor cgid type)).length :=
    List.countP_eq_length_filter
  rw [hfilter, hlength, List.countP_eq_length]
  simp only [List.mem_filter, and_imp]

/-- A recorded event adds one to its counter. -/
theorem counter_change (htype : type ≠ .runtime) (v : CgStatVal) (e : SchedEvent) :
    ((m.change e).elim v fun f => f v).counter type =
      v.counter type + if e.ctx.reserved && e.tracepoint.type = type then 1 else 0 := by
  obtain ⟨ctx, tracepoint⟩ := e
  cases tracepoint with
  | schedStatRuntime runtime =>
      have hkind : Tracepoint.type (.schedStatRuntime runtime) ≠ type := Ne.symm htype
      unfold change
      cases hshort : m.isShort runtime <;> cases type <;>
        simp_all [CgStatVal.counter, Tracepoint.type]
  | schedSwitch | schedWakeup | schedMigrateTask =>
      unfold change
      cases type <;> cases hreserved : ctx.reserved <;>
        simp_all [CgStatVal.counter, CgStatVal.inc, Tracepoint.type]

/-- A counter goes up by one with each event of its kind that a record was reserved for. -/
theorem counter_applied (hallow : m.allowCgroup cgid = true) (htype : type ≠ .runtime)
    (v : CgStatVal) (e : SchedEvent) :
    (m.applied cgid v e).counter type =
      v.counter type + if e.ctx.reserved && e.isFor cgid type then 1 else 0 := by
  by_cases hcgid : e.ctx.currentCgroupId = cgid
  · rw [applied_self hallow hcgid, counter_change htype]
    simp [SchedEvent.isFor, hcgid]
  · rw [applied_other hcgid]
    simp [SchedEvent.isFor, hcgid]

/-- **A counter is the number of the recorded events**, as far as it can count. -/
theorem toNat_counter (hfit : (m.cgroups es).card ≤ maxEntries) (hallow : m.allowCgroup cgid = true)
    (htype : type ≠ .runtime) :
    ((m.stats es cgid).counter type).toNat = recordedOf es cgid type % 2 ^ 64 := by
  rw [stats_eq_foldl hfit]
  clear hfit
  induction es using List.reverseRecOn with
  | nil => cases type <;> rfl
  | append_singleton es e ih =>
      rw [List.foldl_concat, counter_applied hallow htype, recordedOf, List.countP_append,
        List.countP_singleton, UInt64.toNat_add, ih, ← recordedOf]
      split_ifs
      · exact Nat.mod_add_mod ..
      · simp

/-- The condition for one counter. -/
theorem mod_eq_iff {recorded number : ℕ} (h : recorded ≤ number) :
    recorded % 2 ^ 64 = number ↔ recorded = number ∧ number < 2 ^ 64 := by
  constructor
  · intro hmod
    have hlt : recorded % 2 ^ 64 < 2 ^ 64 := Nat.mod_lt _ (Nat.two_pow_pos 64)
    have hle : recorded % 2 ^ 64 ≤ recorded := Nat.mod_le ..
    exact ⟨h.antisymm (hmod ▸ hle), hmod ▸ hlt⟩
  · rintro ⟨rfl, hlt⟩
    exact Nat.mod_eq_of_lt hlt

/-- **The counters are the numbers of the events**, if and only if space is found for the
record of each of them, and there are not more than a counter can count. -/
theorem counters_iff (m : SchedMonitor) (es : List SchedEvent)
    (hfit : (m.cgroups es).card ≤ maxEntries) :
    (∀ cgid, m.allowCgroup cgid = true →
        (m.stats es cgid).ctxSwitches.toNat = numberOf es cgid .switch ∧
          (m.stats es cgid).wakeups.toNat = numberOf es cgid .wakeup ∧
          (m.stats es cgid).migrations.toNat = numberOf es cgid .migrate) ↔
      (∀ e ∈ es, m.allowCgroup e.ctx.currentCgroupId = true → e.tracepoint.type ≠ .runtime →
          e.ctx.reserved = true) ∧
        ∀ cgid, m.allowCgroup cgid = true → ∀ type, type ≠ .runtime →
          numberOf es cgid type < 2 ^ 64 := by
  have hcounter : ∀ cgid, m.allowCgroup cgid = true → ∀ type, type ≠ .runtime →
      (((m.stats es cgid).counter type).toNat = numberOf es cgid type ↔
        (∀ e ∈ es, e.isFor cgid type = true → e.ctx.reserved = true) ∧
          numberOf es cgid type < 2 ^ 64) := by
    intro cgid hallow type htype
    rw [toNat_counter hfit hallow htype, mod_eq_iff (recordedOf_le ..), recordedOf_eq_iff]
  constructor
  · intro h
    have hall : ∀ cgid, m.allowCgroup cgid = true → ∀ type, type ≠ .runtime →
        ((m.stats es cgid).counter type).toNat = numberOf es cgid type := by
      intro cgid hallow type htype
      obtain ⟨hswitch, hwakeup, hmigrate⟩ := h cgid hallow
      cases type with
      | switch => exact hswitch
      | wakeup => exact hwakeup
      | migrate => exact hmigrate
      | runtime => exact absurd rfl htype
    constructor
    · intro e he hallow htype
      refine ((hcounter _ hallow _ htype).mp (hall _ hallow _ htype)).1 e he ?_
      simp [SchedEvent.isFor]
    · intro cgid hallow type htype
      exact ((hcounter cgid hallow type htype).mp (hall cgid hallow type htype)).2
  · rintro ⟨hreserved, hlt⟩ cgid hallow
    have hone : ∀ type, type ≠ .runtime →
        ((m.stats es cgid).counter type).toNat = numberOf es cgid type := by
      intro type htype
      refine (hcounter cgid hallow type htype).mpr ⟨fun e he hfor => ?_, hlt cgid hallow type htype⟩
      obtain ⟨hcgid, hkind⟩ := Bool.and_eq_true_iff.mp hfor
      have hcgid := of_decide_eq_true hcgid
      have hkind := of_decide_eq_true hkind
      exact hreserved e he (hcgid ▸ hallow) (hkind ▸ htype)
    exact ⟨hone .switch (by decide), hone .wakeup (by decide), hone .migrate (by decide)⟩

/-- The configuration that user space gives the programs, with one cgroup. -/
def gocker (cgid : UInt64) : SchedMonitor where
  runtimeEventThresholdNs := 5 * 1000 * 1000
  filterEnabled := 1
  allowedCgroups := fun k => if k = cgid then some 1 else none

/-- A task of a cgroup, with nothing else about it of interest. -/
def firedIn (cgid : UInt64) (reserved : Bool) : Fired where
  ktimeGetNs := 0
  smpProcessorId := 0
  currentCgroupId := cgid
  currentPidTgid := 0
  currentComm := Vector.replicate 16 0
  reserved := reserved

/-- Two switches of the cgroup, and one of another that finds no space. -/
def twoSwitches : List SchedEvent :=
  [⟨firedIn 42 true, .schedSwitch 1 2⟩, ⟨firedIn 43 false, .schedSwitch 2 3⟩,
    ⟨firedIn 42 true, .schedSwitch 3 1⟩]

/-- Two switches of cgroup 42, each with a record. -/
theorem counters_iff_recorded :
    numberOf twoSwitches 42 .switch = 2 ∧
      ∀ cgid, (gocker 42).allowCgroup cgid = true →
        ((gocker 42).stats twoSwitches cgid).ctxSwitches.toNat = numberOf twoSwitches cgid .switch ∧
          ((gocker 42).stats twoSwitches cgid).wakeups.toNat = numberOf twoSwitches cgid .wakeup ∧
          ((gocker 42).stats twoSwitches cgid).migrations.toNat =
            numberOf twoSwitches cgid .migrate := by
  refine ⟨by decide, (counters_iff _ _ (by decide +kernel)).mpr ⟨by decide +kernel, ?_⟩⟩
  intro cgid _ type _
  exact List.countP_le_length.trans_lt (by decide)

/-- A switch while the ring buffer is full. -/
theorem uncounted_when_full :
    let es : List SchedEvent := [⟨firedIn 42 false, .schedSwitch 1 2⟩]
    (gocker 42).allowCgroup 42 = true ∧ numberOf es 42 .switch = 1 ∧
      ((gocker 42).stats es 42).ctxSwitches = 0 := by
  decide +kernel

/-! ## The runtimes -/

/-- The sum of runtimes, which may be more than 64 bits. -/
def sumOf (runtimes : List UInt64) : ℕ := (runtimes.map UInt64.toNat).sum

/-- The maximum of some runtimes, 0 where there are none. -/
def largestOf (runtimes : List UInt64) : ℕ := (runtimes.map UInt64.toNat).foldr max 0

theorem largestOf_eq_zero_iff {runtimes : List UInt64} :
    largestOf runtimes = 0 ↔ ∀ r ∈ runtimes, r = 0 := by
  induction runtimes with
  | nil => simp [largestOf]
  | cons r runtimes ih =>
      rw [List.forall_mem_cons, ← ih]
      show max r.toNat (largestOf runtimes) = 0 ↔ _
      rw [Nat.max_eq_zero_iff, ← UInt64.toNat_zero, UInt64.toNat_inj]

/-- A sum splits into those that satisfy a predicate and those that do not. -/
theorem sumOf_filter (p : UInt64 → Bool) (runtimes : List UInt64) :
    sumOf runtimes = sumOf (runtimes.filter p) + sumOf (runtimes.filter fun r => !p r) := by
  have hperm := (List.filter_append_perm p runtimes).map UInt64.toNat
  rw [sumOf, ← hperm.sum_eq, List.map_append, List.sum_append]
  rfl

theorem sumOf_eq_zero {runtimes : List UInt64} (h : ∀ r ∈ runtimes, r = 0) :
    sumOf runtimes = 0 := by
  apply List.sum_eq_zero
  intro n hn
  obtain ⟨r, hr, rfl⟩ := List.mem_map.mp hn
  rw [h r hr]
  rfl

theorem maxRuntimeNs_change (v : CgStatVal) (e : SchedEvent) :
    ((m.change e).elim v fun f => f v).maxRuntimeNs = v.maxRuntimeNs := by
  obtain ⟨ctx, tracepoint⟩ := e
  unfold change
  cases tracepoint with
  | schedStatRuntime runtime => cases hshort : m.isShort runtime <;> simp [hshort]
  | schedSwitch | schedWakeup | schedMigrateTask =>
      cases ctx.reserved <;> simp [CgStatVal.inc]

/-- **Nothing is ever done to the maximum.** -/
theorem maxRuntimeNs_eq_zero (hfit : (m.cgroups es).card ≤ maxEntries)
    (hallow : m.allowCgroup cgid = true) : (m.stats es cgid).maxRuntimeNs = 0 := by
  rw [stats_eq_foldl hfit]
  clear hfit
  induction es using List.reverseRecOn with
  | nil => rfl
  | append_singleton es e ih =>
      rw [List.foldl_concat]
      by_cases hcgid : e.ctx.currentCgroupId = cgid
      · rw [applied_self hallow hcgid, maxRuntimeNs_change, ih]
      · rw [applied_other hcgid, ih]

/-- The runtimes that pass the threshold. -/
def keptOf (m : SchedMonitor) (es : List SchedEvent) (cgid : UInt64) : List UInt64 :=
  (runtimesOf es cgid).filter fun r => !m.isShort r

theorem runtimeNs_applied (hallow : m.allowCgroup cgid = true) (v : CgStatVal) (e : SchedEvent) :
    (m.applied cgid v e).runtimeNs = v.runtimeNs + (m.keptOf [e] cgid).sum := by
  obtain ⟨ctx, tracepoint⟩ := e
  by_cases hcgid : ctx.currentCgroupId = cgid
  · rw [applied_self hallow hcgid]
    unfold change keptOf runtimesOf
    cases tracepoint with
    | schedStatRuntime runtime =>
        cases hshort : m.isShort runtime <;>
          simp [SchedEvent.runtimeFor, hcgid, hshort]
    | schedSwitch | schedWakeup | schedMigrateTask =>
        cases ctx.reserved <;> simp [CgStatVal.inc, SchedEvent.runtimeFor]
  · rw [applied_other hcgid]
    cases tracepoint <;> simp [keptOf, runtimesOf, SchedEvent.runtimeFor, hcgid]

/-- The time of a cgroup is the sum of the runtimes that have been kept, in 64 bits. -/
theorem runtimeNs_eq_sum (hfit : (m.cgroups es).card ≤ maxEntries)
    (hallow : m.allowCgroup cgid = true) :
    (m.stats es cgid).runtimeNs = (m.keptOf es cgid).sum := by
  rw [stats_eq_foldl hfit]
  clear hfit
  induction es using List.reverseRecOn with
  | nil => rfl
  | append_singleton es e ih =>
      have happend : m.keptOf (es ++ [e]) cgid = m.keptOf es cgid ++ m.keptOf [e] cgid := by
        rw [keptOf, runtimesOf, List.filterMap_append, List.filter_append]
        rfl
      rw [List.foldl_concat, runtimeNs_applied hallow, ih, happend, List.sum_append]

theorem toNat_sum (runtimes : List UInt64) : runtimes.sum.toNat = sumOf runtimes % 2 ^ 64 := by
  induction runtimes with
  | nil => rfl
  | cons r runtimes ih =>
      rw [List.sum_cons, UInt64.toNat_add, ih]
      exact Nat.add_mod_mod ..

/-- The sum is right if and only if what is left out of it is a multiple of 2^64, as when no
runtime is below the threshold. -/
theorem runtimeNs_iff (hfit : (m.cgroups es).card ≤ maxEntries)
    (hallow : m.allowCgroup cgid = true) :
    (m.stats es cgid).runtimeNs.toNat = sumOf (runtimesOf es cgid) % 2 ^ 64 ↔
      2 ^ 64 ∣ sumOf ((runtimesOf es cgid).filter m.isShort) := by
  rw [runtimeNs_eq_sum hfit hallow, toNat_sum, sumOf_filter m.isShort (runtimesOf es cgid), keptOf]
  omega

/-- **The statistics of the runtimes are right** if and only if all runtimes are zero: the maximum
is never set, and a runtime that is not zero makes it wrong, whatever the threshold. -/
theorem runtime_stats_iff (m : SchedMonitor) (es : List SchedEvent)
    (hfit : (m.cgroups es).card ≤ maxEntries) :
    (∀ cgid, m.allowCgroup cgid = true →
        (m.stats es cgid).runtimeNs.toNat = sumOf (runtimesOf es cgid) % 2 ^ 64 ∧
          (m.stats es cgid).maxRuntimeNs.toNat = largestOf (runtimesOf es cgid)) ↔
      ∀ cgid, m.allowCgroup cgid = true → ∀ r ∈ runtimesOf es cgid, r = 0 := by
  refine forall₂_congr fun cgid hallow => ?_
  rw [runtimeNs_iff hfit hallow, maxRuntimeNs_eq_zero hfit hallow, UInt64.toNat_zero, eq_comm,
    largestOf_eq_zero_iff]
  constructor
  · exact And.right
  · intro hzero
    refine ⟨?_, hzero⟩
    rw [sumOf_eq_zero fun r hr => hzero r (List.mem_of_mem_filter hr)]
    exact dvd_zero _

/-- A runtime of zero, a switch, and a runtime of another cgroup. -/
def zeroRuntime : List SchedEvent :=
  [⟨firedIn 42 true, .schedStatRuntime 0⟩, ⟨firedIn 42 true, .schedSwitch 1 2⟩,
    ⟨firedIn 43 true, .schedStatRuntime 6000000⟩]

theorem runtime_stats_iff_zero :
    runtimesOf zeroRuntime 42 = [0] ∧
      ∀ cgid, (gocker 42).allowCgroup cgid = true →
        ((gocker 42).stats zeroRuntime cgid).runtimeNs.toNat =
            sumOf (runtimesOf zeroRuntime cgid) % 2 ^ 64 ∧
          ((gocker 42).stats zeroRuntime cgid).maxRuntimeNs.toNat =
            largestOf (runtimesOf zeroRuntime cgid) := by
  have hruntimes : runtimesOf zeroRuntime 42 = [0] := by decide +kernel
  refine ⟨hruntimes, (runtime_stats_iff _ _ (by decide +kernel)).mpr fun cgid hallow => ?_⟩
  have hcgid : cgid = 42 := by
    by_contra hother
    simp [allowCgroup, gocker, hother] at hallow
  rw [hcgid, hruntimes]
  exact List.forall_mem_singleton.mpr rfl

/-- One runtime of a millisecond, which is below the threshold, and one of six. -/
theorem runtime_left_out :
    let es : List SchedEvent :=
      [⟨firedIn 42 true, .schedStatRuntime 1000000⟩, ⟨firedIn 42 true, .schedStatRuntime 6000000⟩]
    (gocker 42).allowCgroup 42 = true ∧ sumOf (runtimesOf es 42) = 7000000 ∧
      largestOf (runtimesOf es 42) = 6000000 ∧ ((gocker 42).stats es 42).runtimeNs = 6000000 ∧
      ((gocker 42).stats es 42).maxRuntimeNs = 0 := by
  decide +kernel

end SchedMonitor

end Gocker.Ebpf
