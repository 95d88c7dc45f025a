import Gocker.Lib.Machine
import Gocker.Obsv.Modules

/-!
# Accounting of system calls

`sys.bpf.c` on the events of any number of threads and CPUs.  The machine keeps beside the
maps what really happens: the call each thread is in, and the completed calls that the
filter let pass when they began.

`accounting_exact` says that the maps agree with it.  What carries the proof is that a start
is stored exactly for the calls in progress that have passed the filter.

### The filter is asked once

`tp_sys_exit` does not ask the filter: it goes by the start that is stored, and by the cgroup in
it.  So a thread that changes its cgroup within a call, or a filter that is changed meanwhile,
makes no difference to the call, and no start is left behind by one that has ended.
-/

namespace Gocker.Obsv

open Machine

variable {n : ℕ}

/-! ## Sums over the CPUs -/

namespace PerCpuHash

variable {m : PerCpuHash n} {ctx : Ctx n} {key : CgKey} {delta : UInt64}

theorem sum_update (val : Fin n → UInt64) (cpu : Fin n) (delta : UInt64) :
    ∑ i, Function.update val cpu (val cpu + delta) i = ∑ i, val i + delta := by
  rw [Finset.sum_update_of_mem (Finset.mem_univ cpu), add_right_comm,
    Finset.sdiff_singleton_eq_erase, Finset.add_sum_erase _ _ (Finset.mem_univ cpu)]

theorem total_add_self (h : ctx.room = true) :
    (m.add ctx key delta).total key = m.total key + delta := by
  cases hm : m key with
  | none =>
      rw [add, if_pos ⟨hm, h⟩]
      simp only [Function.update_self, total, sum_update, hm]
      rw [Finset.sum_const_zero]
  | some val =>
      have hold : ¬ (m key = none ∧ ctx.room = true) := by simp [hm]
      rw [add, if_neg hold]
      simp only [hm, total, Function.update_self, sum_update]

theorem total_add_of_ne {k : CgKey} (h : k ≠ key) :
    (m.add ctx key delta).total k = m.total k := by
  have hsame : (m.add ctx key delta) k = m k := by
    rw [add]
    split_ifs with hnew
    · simp only [Function.update_self, Function.update_of_ne h]
    · cases hm : m key with
      | none => rfl
      | some val => exact Function.update_of_ne h ..
  rw [total, total, hsame]

end PerCpuHash

/-! ## The machine -/

/-- A call that a thread is in; `counted` says whether it passed the filter. -/
structure SysCall where
  id : UInt32
  entered : UInt64
  cgid : UInt64
  counted : Bool
deriving DecidableEq

/-- A call that is over. -/
structure CompletedCall where
  key : CgKey
  entered : UInt64
  exited : UInt64
deriving DecidableEq

/-- How long the call has taken. -/
def CompletedCall.latency (c : CompletedCall) : ℕ := c.exited.toNat - c.entered.toNat

/-- The maps, and what is really the case. -/
structure Tracing (n : ℕ) where
  sys : SysState n
  /-- what `load_cfg` returns -/
  conf : Cfg
  clock : UInt64
  inCall : UInt32 → Option SysCall
  /-- the completed calls that have passed the filter -/
  completed : List CompletedCall

/-- The events of the kernel, and a change of the configuration. -/
inductive TraceEvent (n : ℕ) where
  | configure (c : Cfg)
  | enter (cpu : Fin n) (current : Task) (id : UInt32) (now : UInt64)
  | exit (cpu : Fin n) (current : Task) (id : UInt32) (now : UInt64)

namespace Tracing

/-- What the module makes of an event. -/
def handle (s : Tracing n) (ctx : Ctx n) (e : SysEvent) : SysState n :=
  ((handleSys ctx e s.sys).run .sys s.conf ctx fun _ => 0).value

/-- A thread enters a call. -/
def entering (s : Tracing n) (cpu : Fin n) (current : Task) (id : UInt32) (now : UInt64) :
    Tracing n :=
  { s with
    sys := s.handle { cpu, current } (.enter id now)
    clock := now
    inCall := Function.update s.inCall current.pid (some
      { id := id
        entered := now
        cgid := current.cgroupID
        counted := inTargetSubtreeCurrent s.conf current }) }

/-- A thread exits its call. -/
def exiting (s : Tracing n) (cpu : Fin n) (current : Task) (call : SysCall) (now : UInt64) :
    Tracing n :=
  { s with
    sys := s.handle { cpu, current } (.exit call.id now)
    clock := now
    inCall := Function.update s.inCall current.pid none
    completed :=
      if call.counted then ⟨⟨call.cgid, call.id⟩, call.entered, now⟩ :: s.completed
      else s.completed }

/-- A thread enters a call when it is in none, and exits the one it is in; the clock does not
go back, and there is room in the maps. -/
def step (s : Tracing n) : TraceEvent n → Option (Tracing n)
  | .configure c => some { s with conf := c }
  | .enter cpu current id now =>
      match s.inCall current.pid with
      | some _ => none
      | none =>
          if s.clock ≤ now then some (s.entering cpu current id now) else none
  | .exit cpu current id now =>
      match s.inCall current.pid with
      | none => none
      | some call =>
          if call.id = id ∧ s.clock ≤ now then some (s.exiting cpu current call now) else none

/-- When the module is attached, some threads are in a call. -/
def start (conf : Cfg) (clock : UInt64) (begun : UInt32 → Option UInt32) : Tracing n where
  sys := Module.init .sys
  conf := conf
  clock := clock
  inCall pid := (begun pid).map fun id => { id, entered := 0, cgid := 0, counted := false }
  completed := []

/-- The completed calls of a cgroup and a system call. -/
def completedOf (s : Tracing n) (key : CgKey) : List CompletedCall :=
  s.completed.filter (·.key = key)

/-! ## The invariant -/

/-- The invariant: the maps agree with what is the case. -/
structure Exact (s : Tracing n) : Prop where
  count : ∀ key, (s.sys.cgSysCnt.total key).toNat = (s.completedOf key).length % 2 ^ 64
  latency : ∀ key, (s.sys.cgSysLatNs.total key).toNat =
    ((s.completedOf key).map CompletedCall.latency).sum % 2 ^ 64
  /-- a start is stored exactly for a call in progress that has passed the filter -/
  started : ∀ k v, s.sys.sysEnterStart k = some v ↔
    ∃ call, s.inCall k.pid = some call ∧ call.counted = true ∧ call.id = k.sys ∧
      v = ⟨call.entered, call.cgid⟩
  entered : ∀ pid call, s.inCall pid = some call → call.counted = true → call.entered ≤ s.clock

variable {s t : Tracing n}

/-- At the beginning there is nothing to agree about; calls that are in progress have not been
seen. -/
theorem Exact.start (conf : Cfg) (clock : UInt64) (begun : UInt32 → Option UInt32) :
    Exact (start conf clock begun : Tracing n) where
  count _ := rfl
  latency _ := rfl
  started k v := by
    constructor
    · intro h
      cases h
    · rintro ⟨call, hcall, hcounted, -⟩
      obtain ⟨id, -, rfl⟩ := Option.map_eq_some_iff.mp hcall
      cases hcounted
  entered pid call hcall hcounted := by
    obtain ⟨id, -, rfl⟩ := Option.map_eq_some_iff.mp hcall
    cases hcounted

theorem Exact.configure (h : Exact s) (c : Cfg) : Exact { s with conf := c } :=
  ⟨h.count, h.latency, h.started, h.entered⟩

/-! ### What the handlers do -/

/-- Where the filter lets a call pass, its start is stored. -/
theorem handle_enter (s : Tracing n) (ctx : Ctx n) (id : UInt32) (now : UInt64) :
    s.handle ctx (.enter id now) =
      if inTargetSubtreeCurrent s.conf ctx.current then
        { s.sys with
          sysEnterStart := Function.update s.sys.sysEnterStart ⟨ctx.current.pid, id⟩
            (some ⟨now, ctx.current.cgroupID⟩) }
      else s.sys := by
  rw [handle, handleSys, tpSysEnter, Checked.ifInTarget, Checked.run]
  split <;> rfl

theorem handle_exit (s : Tracing n) (ctx : Ctx n) (id : UInt32) (now : UInt64) :
    s.handle ctx (.exit id now) = tpSysExit id now ctx s.sys := rfl

/-- The call that a thread is in when it exits, if it was counted. -/
theorem Exact.start_of_counted (h : Exact s) {pid : UInt32} {call : SysCall}
    (hcall : s.inCall pid = some call) (hcounted : call.counted = true) :
    s.sys.sysEnterStart ⟨pid, call.id⟩ = some ⟨call.entered, call.cgid⟩ :=
  (h.started _ _).mpr ⟨call, hcall, hcounted, rfl, rfl⟩

/-- For a call that has not passed no start is stored. -/
theorem Exact.start_of_not_counted (h : Exact s) {pid : UInt32} {call : SysCall}
    (hcall : s.inCall pid = some call) (hcounted : call.counted = false) :
    s.sys.sysEnterStart ⟨pid, call.id⟩ = none := by
  rw [Option.eq_none_iff_forall_ne_some]
  intro v hv
  obtain ⟨c, hc, htrue, -⟩ := (h.started _ _).mp hv
  obtain rfl := Option.some.inj (hcall.symm.trans hc)
  exact Bool.false_ne_true (hcounted.symm.trans htrue)

/-! ### A thread enters a call -/

/-- The start of the new call is stored if it is counted. -/
theorem Exact.started_enter (h : Exact s) {pid : UInt32} (hidle : s.inCall pid = none)
    (new : SysCall) (k : StartKey) (v : StartVal) :
    (if new.counted then
        Function.update s.sys.sysEnterStart ⟨pid, new.id⟩ (some ⟨new.entered, new.cgid⟩)
      else s.sys.sysEnterStart) k = some v ↔
      ∃ call, Function.update s.inCall pid (some new) k.pid = some call ∧
        call.counted = true ∧ call.id = k.sys ∧ v = ⟨call.entered, call.cgid⟩ := by
  by_cases hpid : k.pid = pid
  · -- the thread was in no call, so nothing was stored for it
    have hnone : s.sys.sysEnterStart k = none := by
      rw [Option.eq_none_iff_forall_ne_some]
      intro w hw
      obtain ⟨call, hcall, -⟩ := (h.started k w).mp hw
      rw [hpid, hidle] at hcall
      cases hcall
    rw [hpid, Function.update_self]
    by_cases hsys : k.sys = new.id
    · obtain rfl : k = ⟨pid, new.id⟩ := by rw [← hpid, ← hsys]
      cases hcounted : new.counted with
      | false => simp [hnone, hcounted]
      | true =>
          simp only [if_true, Function.update_self, Option.some.injEq, exists_eq_left', hcounted,
            true_and]
          exact eq_comm
    · have hk : k ≠ ⟨pid, new.id⟩ := fun hk => hsys (congrArg StartKey.sys hk)
      constructor
      · intro hv
        split_ifs at hv
        · rw [Function.update_of_ne hk, hnone] at hv
          cases hv
        · rw [hnone] at hv
          cases hv
      · rintro ⟨call, hcall, -, hid, -⟩
        obtain rfl := Option.some.inj hcall
        exact absurd hid.symm hsys
  · have hk : k ≠ ⟨pid, new.id⟩ := fun hk => hpid (congrArg StartKey.pid hk)
    rw [Function.update_of_ne hpid, ← h.started k v]
    split_ifs
    · rw [Function.update_of_ne hk]
    · rfl

/-- A call that begins keeps the maps in agreement. -/
theorem Exact.enter (h : Exact s) {cpu : Fin n} {current : Task} {id : UInt32} {now : UInt64}
    (hidle : s.inCall current.pid = none) (hclock : s.clock ≤ now) :
    Exact (s.entering cpu current id now) := by
  have hsys := handle_enter s { cpu, current } id now
  refine ⟨?_, ?_, ?_, ?_⟩
  · intro key
    simp only [entering, hsys, apply_ite SysState.cgSysCnt, ite_self]
    exact h.count key
  · intro key
    simp only [entering, hsys, apply_ite SysState.cgSysLatNs, ite_self]
    exact h.latency key
  · intro k v
    simp only [entering, hsys, apply_ite SysState.sysEnterStart]
    exact h.started_enter hidle ⟨id, now, current.cgroupID, _⟩ k v
  · intro pid call hcall hcounted
    simp only [entering] at hcall ⊢
    by_cases hpid : pid = current.pid
    · subst hpid
      rw [Function.update_self] at hcall
      obtain rfl := Option.some.inj hcall
      exact UInt64.le_refl now
    · rw [Function.update_of_ne hpid] at hcall
      exact UInt64.le_trans (h.entered pid call hcall hcounted) hclock

/-! ### A thread exits its call -/

theorem toNat_elapsed {now ts : UInt64} (h : ts ≤ now) :
    (if now > ts then now - ts else 0 : UInt64).toNat = now.toNat - ts.toNat := by
  split_ifs with hlt
  · exact UInt64.toNat_sub_of_le _ _ h
  · have heq : ts.toNat = now.toNat :=
      Nat.le_antisymm (UInt64.le_iff_toNat_le.mp h)
        (Nat.not_lt.mp fun hl => hlt (UInt64.lt_iff_toNat_lt.mpr hl))
    rw [heq, Nat.sub_self]
    rfl

theorem sysEnterStart_exit (id : UInt32) (now : UInt64) (ctx : Ctx n) (s : SysState n) :
    (tpSysExit id now ctx s).sysEnterStart =
      Function.update s.sysEnterStart ⟨ctx.current.pid, id⟩ none := by
  rw [tpSysExit]
  cases hs : s.sysEnterStart ⟨ctx.current.pid, id⟩ with
  | none =>
      show s.sysEnterStart = _
      rw [← hs, Function.update_eq_self]
  | some v => rfl

/-- The starts that are left are those of the other calls. -/
theorem Exact.started_exit (h : Exact s) {pid : UInt32} {call : SysCall}
    (hcall : s.inCall pid = some call) (k : StartKey) (v : StartVal) :
    Function.update s.sys.sysEnterStart ⟨pid, call.id⟩ none k = some v ↔
      ∃ c, Function.update s.inCall pid none k.pid = some c ∧ c.counted = true ∧ c.id = k.sys ∧
        v = ⟨c.entered, c.cgid⟩ := by
  by_cases hpid : k.pid = pid
  · -- only the call that is over could have a start
    rw [hpid, Function.update_self]
    have hnone : Function.update s.sys.sysEnterStart ⟨pid, call.id⟩ none k = none := by
      by_cases hsys : k.sys = call.id
      · obtain rfl : k = ⟨pid, call.id⟩ := by rw [← hpid, ← hsys]
        exact Function.update_self ..
      · rw [Function.update_of_ne fun hk => hsys (congrArg StartKey.sys hk),
          Option.eq_none_iff_forall_ne_some]
        intro w hw
        obtain ⟨c, hc, -, hid, -⟩ := (h.started k w).mp hw
        rw [hpid, hcall] at hc
        obtain rfl := Option.some.inj hc
        exact hsys hid.symm
    rw [hnone]
    simp
  · rw [Function.update_of_ne hpid,
      Function.update_of_ne fun hk => hpid (congrArg StartKey.pid hk)]
    exact h.started k v

theorem Exact.entered_exit (h : Exact s) {pid : UInt32} {now : UInt64} (hclock : s.clock ≤ now) :
    ∀ p c, Function.update s.inCall pid none p = some c → c.counted = true →
      c.entered ≤ now := by
  intro p c hc hcounted
  by_cases hp : p = pid
  · subst hp
    rw [Function.update_self] at hc
    cases hc
  · rw [Function.update_of_ne hp] at hc
    exact UInt64.le_trans (h.entered p c hc hcounted) hclock

/-- An addition in 64 bits is one modulo $2^{64}$. -/
theorem add_mod_toNat {a d : UInt64} {x y : ℕ} (ha : a.toNat = x % 2 ^ 64) (hd : d.toNat = y) :
    (a + d).toNat = (y + x) % 2 ^ 64 := by
  rw [UInt64.toNat_add, ha, hd]
  omega

/-- A call that was not counted leaves the counters. -/
theorem Exact.exit_uncounted (h : Exact s) {cpu : Fin n} {current : Task} {call : SysCall}
    {now : UInt64} (hcall : s.inCall current.pid = some call) (hcounted : call.counted = false)
    (hclock : s.clock ≤ now) :
    Exact (s.exiting cpu current call now) := by
  have hcompleted :
      ∀ key, completedOf (s.exiting cpu current call now) key = s.completedOf key := by
    intro key
    simp [completedOf, exiting, hcounted]
  have hsys : s.handle { cpu, current } (.exit call.id now) = s.sys := by
    rw [handle_exit, tpSysExit, h.start_of_not_counted hcall hcounted]
  refine ⟨fun key => ?_, fun key => ?_, fun k v => ?_, h.entered_exit hclock⟩
  · rw [hcompleted]
    simp only [exiting, hsys]
    exact h.count key
  · rw [hcompleted]
    simp only [exiting, hsys]
    exact h.latency key
  · simp only [exiting, handle_exit, sysEnterStart_exit]
    exact h.started_exit hcall k v

/-- The exit of a call that has passed adds it to both maps. -/
theorem Exact.exit_counted (h : Exact s) {cpu : Fin n} {current : Task} {call : SysCall}
    {now : UInt64} (hcall : s.inCall current.pid = some call) (hcounted : call.counted = true)
    (hclock : s.clock ≤ now) :
    Exact (s.exiting cpu current call now) := by
  have hcompleted : ∀ key, completedOf (s.exiting cpu current call now) key =
      if (⟨call.cgid, call.id⟩ : CgKey) = key then
        ⟨⟨call.cgid, call.id⟩, call.entered, now⟩ :: s.completedOf key
      else s.completedOf key := by
    intro key
    simp only [completedOf, exiting, hcounted, if_true, List.filter_cons, decide_eq_true_eq]
  have hstart := h.start_of_counted hcall hcounted
  have hbefore : call.entered ≤ now :=
    UInt64.le_trans (h.entered current.pid call hcall hcounted) hclock
  refine ⟨fun key => ?_, fun key => ?_, fun k v => ?_, h.entered_exit hclock⟩
  · rw [hcompleted]
    simp only [exiting, handle_exit, tpSysExit, hstart]
    by_cases hkey : (⟨call.cgid, call.id⟩ : CgKey) = key
    · subst hkey
      rw [if_pos rfl, PerCpuHash.total_add_self rfl, add_mod_toNat (h.count _) rfl,
        List.length_cons, Nat.add_comm]
      rfl
    · rw [if_neg hkey]
      rw [PerCpuHash.total_add_of_ne (Ne.symm hkey)]
      exact h.count key
  · rw [hcompleted]
    simp only [exiting, handle_exit, tpSysExit, hstart]
    by_cases hkey : (⟨call.cgid, call.id⟩ : CgKey) = key
    · subst hkey
      rw [if_pos rfl, PerCpuHash.total_add_self rfl,
        add_mod_toNat (h.latency _) (toNat_elapsed hbefore), List.map_cons, List.sum_cons]
      rfl
    · rw [if_neg hkey]
      rw [PerCpuHash.total_add_of_ne (Ne.symm hkey)]
      exact h.latency key
  · simp only [exiting, handle_exit, sysEnterStart_exit]
    exact h.started_exit hcall k v

theorem Exact.step {e : TraceEvent n} (h : Exact s) (he : s.step e = some t) : Exact t := by
  cases e with
  | configure c =>
      cases he
      exact h.configure c
  | enter cpu current id now =>
      simp only [Tracing.step] at he
      split at he
      · cases he
      · next hidle =>
          split_ifs at he with hclock
          cases he
          exact h.enter hidle hclock
  | exit cpu current id now =>
      simp only [Tracing.step] at he
      split at he
      · cases he
      · next call hcall =>
          split_ifs at he with hwhen
          obtain ⟨rfl, hclock⟩ := hwhen
          cases he
          cases hcounted : call.counted with
          | false => exact h.exit_uncounted hcall hcounted hclock
          | true => exact h.exit_counted hcall hcounted hclock

/-- **The accounting is exact** in every run: counts and latencies are those of the completed
calls that passed the filter, in 64 bits, and the starts are those of the calls in progress
that passed it. -/
theorem accounting_exact {conf : Cfg} {clock : UInt64} {begun : UInt32 → Option UInt32}
    (h : Reaches step Always (Tracing.start conf clock begun) s) :
    (∀ key, (s.sys.cgSysCnt.total key).toNat = (s.completedOf key).length % 2 ^ 64) ∧
      (∀ key, (s.sys.cgSysLatNs.total key).toNat =
        ((s.completedOf key).map CompletedCall.latency).sum % 2 ^ 64) ∧
      ∀ k v, s.sys.sysEnterStart k = some v ↔
        ∃ call, s.inCall k.pid = some call ∧ call.counted = true ∧ call.id = k.sys ∧
          v = ⟨call.entered, call.cgid⟩ := by
  have hexact : Exact s := h.invariant (.start conf clock begun) fun _ _ _ hi _ he => hi.step he
  exact ⟨hexact.count, hexact.latency, hexact.started⟩

/-- Two threads on two CPUs, and a filter that is switched on between. -/
def twoThreads : List (TraceEvent 2) :=
  let a : Task := { pid := 7, cgroups := [1, 42, 50] }
  let b : Task := { pid := 8, cgroups := [1, 43] }
  [.enter 0 a 0 100, .enter 1 b 1 110, .configure ⟨1, 1, 1, 42⟩, .exit 1 a 0 150,
    .exit 0 b 1 160, .enter 0 b 1 170, .enter 1 a 0 180]

/-- Two threads on two CPUs, whose calls overlap. -/
theorem accounting_exact_two :
    ∃ s : Tracing 2, s.completed.length = 2 ∧ s.sys.cgSysLatNs.total ⟨50, 0⟩ = 50 ∧
      s.sys.sysEnterStart ⟨8, 1⟩ = none ∧
      ((∀ key, (s.sys.cgSysCnt.total key).toNat = (s.completedOf key).length % 2 ^ 64) ∧
        (∀ key, (s.sys.cgSysLatNs.total key).toNat =
          ((s.completedOf key).map CompletedCall.latency).sum % 2 ^ 64) ∧
        ∀ k v, s.sys.sysEnterStart k = some v ↔
          ∃ call, s.inCall k.pid = some call ∧ call.counted = true ∧ call.id = k.sys ∧
            v = ⟨call.entered, call.cgid⟩) :=
  ⟨outcome step Always (Tracing.start unwritten 0 fun _ => none) twoThreads, by decide +kernel,
    by decide +kernel, by decide +kernel, accounting_exact (reaches_outcome ..)⟩

end Tracing

end Gocker.Obsv
