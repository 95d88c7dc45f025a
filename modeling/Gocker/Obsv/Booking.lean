import Gocker.Obsv.CpuTime
import Gocker.Obsv.Syscalls

/-!
# What an event books

Each of the five BPF modules counts into per-CPU maps.  Whatever a handler does, to each of the
maps it adds at most one amount under one key; `books` says which, and `handle_books` that the
handlers do this and nothing else.

The amounts of page faults and of memory events depend on nothing but the event, once it has
passed the two checks (`books_of_plain`).

### Takes

A per-CPU map has a bounded number of keys, and an update of a new key fails in a full one;
whether there is room is part of the context in which an event fires.  `PerCpuHash.takes` says
that an amount under a key is taken: the key is there, or there is room for it.
-/

namespace Gocker.Obsv

variable {n : ℕ}

/-! ## The counter maps -/

/-- The maps of a module that the collector exports. -/
inductive CgMap : Module → Type
  | cgPfCnt : CgMap .pf
  | cgSchedCnt : CgMap .sched
  | cgSysCnt : CgMap .sys
  | cgSysLatNs : CgMap .sys
  | cgCpuNs : CgMap .cpu
  | cgMemEvt : CgMap .mem
  | cgMemPages : CgMap .mem
  | cgMemBytes : CgMap .mem
deriving DecidableEq

/-- The map in the state of its module. -/
def CgMap.get : {m : Module} → CgMap m → m.State n → PerCpuHash n
  | _, .cgPfCnt => PfState.cgPfCnt
  | _, .cgSchedCnt => SchedState.cgSchedCnt
  | _, .cgSysCnt => SysState.cgSysCnt
  | _, .cgSysLatNs => SysState.cgSysLatNs
  | _, .cgCpuNs => CpuState.cgCpuNs
  | _, .cgMemEvt => MemState.cgMemEvt
  | _, .cgMemPages => MemState.cgMemPages
  | _, .cgMemBytes => MemState.cgMemBytes

/-- An amount, and the key under which it is booked. -/
abbrev Amount := CgKey × UInt64

namespace PerCpuHash

/-- The map after a booking, if there is one. -/
def book (h : PerCpuHash n) (ctx : Ctx n) : Option Amount → PerCpuHash n
  | none => h
  | some a => h.add ctx a.1 a.2

/-- Where nothing is booked, the map stays as it is. -/
@[simp] theorem book_none (h : PerCpuHash n) (ctx : Ctx n) : h.book ctx none = h := rfl

/-- The map takes the key: it has it, or there is room. -/
def takes (h : PerCpuHash n) (ctx : Ctx n) (key : CgKey) : Bool := (h key).isSome || ctx.room

variable {h : PerCpuHash n} {ctx : Ctx n} {key : CgKey} {delta : UInt64}

/-- A map that takes an amount has that much more under its key. -/
theorem total_add_of_takes (htakes : h.takes ctx key = true) :
    (h.add ctx key delta).total key = h.total key + delta := by
  rcases Bool.or_eq_true_iff.mp htakes with hsome | hroom
  · obtain ⟨val, hval⟩ := Option.isSome_iff_exists.mp hsome
    have hold : ¬ (h key = none ∧ ctx.room = true) := by simp [hval]
    rw [add, if_neg hold]
    simp only [hval, total, Function.update_self, sum_update]
  · exact total_add_self hroom

/-- A full map stays as it is. -/
theorem add_of_not_takes (htakes : h.takes ctx key = false) : h.add ctx key delta = h := by
  obtain ⟨hnone, hroom⟩ := Bool.or_eq_false_iff.mp htakes
  rw [Option.isSome_eq_false_iff, Option.isNone_iff_eq_none] at hnone
  rw [add, if_neg (by simp [hroom])]
  simp only [hnone]

end PerCpuHash

/-! ## The amounts -/

section
variable (c : Cfg) (ctx : Ctx n)

/-- `pass_sample` of a module, as it would answer now. -/
def Module.sampled (m : Module) (counters : Fin n → UInt64) : Bool :=
  (m.passSample c.sampleRate (counters ctx.cpu)).1

/-- What an event counts if it passes both checks.  The other tables also depend on what the
module has stored. -/
def CgMap.counts : {m : Module} → CgMap m → m.Event → Option Amount
  | _, .cgPfCnt, PfEvent.pageFaultUser => some (⟨ctx.current.cgroupID, 1⟩, 1)
  | _, .cgPfCnt, PfEvent.pageFaultKernel => some (⟨ctx.current.cgroupID, 2⟩, 1)
  | _, .cgMemEvt, MemEvent.directReclaimBegin => CpuEvent.amount true ctx.current.cgroupID 1 1
  | _, .cgMemPages, MemEvent.reclaimPages nrReclaimed =>
      CpuEvent.amount true ctx.current.cgroupID 1 nrReclaimed
  | _, .cgMemBytes, MemEvent.pageAlloc order =>
      CpuEvent.amount true ctx.current.cgroupID 1 (orderToBytes order)
  | _, .cgMemBytes, MemEvent.pageFree order =>
      CpuEvent.amount true ctx.current.cgroupID 2 (orderToBytes order)
  | _, _, _ => none

/-- The events of these maps need nothing that their module has stored. -/
def CgMap.plain : {m : Module} → CgMap m → Bool
  | _, .cgPfCnt => true
  | _, .cgMemEvt => true
  | _, .cgMemPages => true
  | _, .cgMemBytes => true
  | _, _ => false

/-- The cgroup of a task that the scheduler is about to run or wakes up. -/
def SchedEvent.counts (sampled : Bool) (cached : UInt32 → Option UInt64) :
    SchedEvent → Option Amount
  | .switch prevPid nextPid =>
      let cached :=
        if inTargetSubtreeCurrent c ctx.current then
          Function.update cached prevPid (some ctx.current.cgroupID)
        else cached
      (cached nextPid).bind fun cgid => if sampled then some (⟨cgid, 1⟩, 1) else none
  | .wakeup pid => (cached pid).bind fun cgid => if sampled then some (⟨cgid, 2⟩, 1) else none
  | .exit => none

/-- A call that is over, and its latency. -/
def SysEvent.counts (amount : StartVal → UInt64 → UInt64)
    (started : StartKey → Option StartVal) : SysEvent → Option Amount
  | .enter _ _ => none
  | .exit id now =>
      (started ⟨ctx.current.pid, id⟩).map fun sv => (⟨sv.cgid, id⟩, amount sv now)

/-- What an event adds to a map. -/
def CgMap.books : {m : Module} → CgMap m → (Fin n → UInt64) → m.Event → m.State n → Option Amount
  | _, .cgSchedCnt, counters, e, s =>
      SchedEvent.counts c ctx (Module.sched.sampled c ctx counters) (SchedState.pidCgid s) e
  | _, .cgSysCnt, _, e, s => SysEvent.counts ctx (fun _ _ => 1) (SysState.sysEnterStart s) e
  | _, .cgSysLatNs, _, e, s =>
      SysEvent.counts ctx (fun sv now => if now > sv.tsNs then now - sv.tsNs else 0)
        (SysState.sysEnterStart s) e
  | _, .cgCpuNs, counters, e, s =>
      (CpuEvent.written (inTargetSubtreeCurrent c ctx.current) (Module.cpu.sampled c ctx counters)
        ctx.current (CpuState.pidCgid s) e).add
  | m, t, counters, e, _ =>
      if inTargetSubtreeCurrent c ctx.current && m.sampled c ctx counters then t.counts ctx e
      else none

end

/-- What an event books that has to pass the two checks and nothing else. -/
theorem CgMap.books_of_plain {m : Module} {t : CgMap m} (h : t.plain = true) (c : Cfg) (ctx : Ctx n)
    (counters : Fin n → UInt64) (e : m.Event) (s : m.State n) :
    t.books c ctx counters e s =
      if inTargetSubtreeCurrent c ctx.current && m.sampled c ctx counters then t.counts ctx e
      else none := by
  cases t with
  | cgPfCnt | cgMemEvt | cgMemPages | cgMemBytes => rfl
  | cgSchedCnt | cgSysCnt | cgSysLatNs | cgCpuNs => cases h

/-! ## The handlers -/

section
variable (c : Cfg) (ctx : Ctx n) (counters : Fin n → UInt64)

theorem bumpPf_books (type : UInt32) (s : PfState n) :
    ((bumpPf type ctx s).run .pf c ctx counters).value.cgPfCnt =
      s.cgPfCnt.book ctx
        (if inTargetSubtreeCurrent c ctx.current && Module.pf.sampled c ctx counters then
          some (⟨ctx.current.cgroupID, type⟩, 1) else none) := by
  simp only [bumpPf, Checked.ifInTarget, Checked.ifSampled, Checked.run]
  cases inTargetSubtreeCurrent c ctx.current with
  | false => rfl
  | true =>
      simp only [if_true, Checked.run, Bool.true_and]
      rw [← Module.sampled]
      cases Module.pf.sampled c ctx counters <;> rfl

/-- An event of the scheduler that is about another task books for the cgroup that is cached for
it. -/
theorem bumpCached_books (pid : UInt32) (type : UInt32) (s : SchedState n) :
    ((bumpCached pid type ctx s).run .sched c ctx counters).value.cgSchedCnt =
      s.cgSchedCnt.book ctx ((s.pidCgid pid).bind fun cgid =>
        if Module.sched.sampled c ctx counters then some (⟨cgid, type⟩, 1) else none) := by
  rw [bumpCached]
  cases s.pidCgid pid with
  | none => rfl
  | some cgid =>
      simp only [bumpSched, Checked.ifSampled, Checked.run, Option.bind_some]
      rw [← Module.sampled]
      cases Module.sched.sampled c ctx counters <;> rfl

theorem handleSched_books (e : SchedEvent) (s : SchedState n) :
    ((handleSched ctx e s).run .sched c ctx counters).value.cgSchedCnt =
      s.cgSchedCnt.book ctx (SchedEvent.counts c ctx (Module.sched.sampled c ctx counters)
        s.pidCgid e) := by
  cases e with
  | switch prevPid nextPid =>
      simp only [handleSched, tpSchedSwitch, Checked.run, SchedEvent.counts]
      rw [bumpCached_books]
      cases inTargetSubtreeCurrent c ctx.current <;> rfl
  | wakeup pid => exact bumpCached_books c ctx counters pid 2 s
  | exit => rfl

theorem tpSysEnter_books (id : UInt32) (now : UInt64) (s : SysState n) :
    ((tpSysEnter id now ctx s).run .sys c ctx counters).value.cgSysCnt = s.cgSysCnt ∧
      ((tpSysEnter id now ctx s).run .sys c ctx counters).value.cgSysLatNs = s.cgSysLatNs := by
  simp only [tpSysEnter, Checked.ifInTarget, Checked.run]
  cases inTargetSubtreeCurrent c ctx.current <;> exact ⟨rfl, rfl⟩

theorem tpSysExit_books (id : UInt32) (now : UInt64) (s : SysState n) :
    (tpSysExit id now ctx s).cgSysCnt =
        s.cgSysCnt.book ctx (SysEvent.counts ctx (fun _ _ => 1) s.sysEnterStart (.exit id now)) ∧
      (tpSysExit id now ctx s).cgSysLatNs =
        s.cgSysLatNs.book ctx (SysEvent.counts ctx
          (fun sv now => if now > sv.tsNs then now - sv.tsNs else 0) s.sysEnterStart
          (.exit id now)) := by
  rw [tpSysExit, SysEvent.counts, SysEvent.counts]
  cases s.sysEnterStart ⟨ctx.current.pid, id⟩ <;> exact ⟨rfl, rfl⟩

/-- What is written to the map of times is what is booked. -/
theorem CpuState.write_cgCpuNs (s : CpuState n) (w : Written) :
    (s.write ctx w).cgCpuNs = s.cgCpuNs.book ctx w.add := by
  rw [CpuState.write]
  cases w.add <;> rfl

theorem handleCpu_books (e : CpuEvent) (s : CpuState n) :
    ((handleCpu ctx e s).run .cpu c ctx counters).value.cgCpuNs =
      s.cgCpuNs.book ctx (e.written (inTargetSubtreeCurrent c ctx.current)
        (Module.cpu.sampled c ctx counters) ctx.current s.pidCgid).add := by
  rw [handleCpu_run, CpuState.write_cgCpuNs]
  rfl

theorem addNonzero_eq_book (h : PerCpuHash n) (cgid : UInt64) (type : UInt32) (delta : UInt64) :
    h.addNonzero ctx cgid type delta = h.book ctx (CpuEvent.amount true cgid type delta) := by
  simp only [PerCpuHash.addNonzero, CpuEvent.amount, Bool.true_eq_false, false_or]
  split_ifs <;> rfl

/-- The handlers of `mem` that ask both checks. -/
theorem checked_books (s s' : MemState n) :
    ((Checked.ifInTarget s (.ifSampled s (.done s'))).run .mem c ctx counters).value =
      if inTargetSubtreeCurrent c ctx.current && Module.mem.sampled c ctx counters then s'
      else s := by
  simp only [Checked.ifInTarget, Checked.ifSampled, Checked.run]
  cases inTargetSubtreeCurrent c ctx.current with
  | false => rfl
  | true =>
      simp only [if_true, Checked.run, Bool.true_and]
      rw [← Module.sampled]
      cases Module.mem.sampled c ctx counters <;> rfl

/-- A wakeup of `kswapd` leaves the three maps alone. -/
theorem kswapdWake_books (t : CgMap .mem) (s : MemState n) :
    t.get ((handleMem ctx .kswapdWake s).run .mem c ctx counters).value = t.get s := by
  simp only [handleMem, Checked.ifSampled, Checked.run]
  split <;> cases t <;> rfl

theorem handleMem_books (t : CgMap .mem) (e : MemEvent) (s : MemState n) :
    t.get ((handleMem ctx e s).run .mem c ctx counters).value =
      (t.get s).book ctx
        (if inTargetSubtreeCurrent c ctx.current && Module.mem.sampled c ctx counters then
          t.counts ctx e else none) := by
  cases e with
  | kswapdWake =>
      rw [kswapdWake_books]
      split_ifs <;> cases t <;> rfl
  | directReclaimBegin =>
      simp only [handleMem, checked_books, addNonzero_eq_book]
      split_ifs <;> cases t <;> rfl
  | reclaimPages nrReclaimed =>
      simp only [handleMem, checked_books, addNonzero_eq_book]
      split_ifs <;> cases t <;> rfl
  | pageAlloc order =>
      simp only [handleMem, addPageBytes, checked_books, addNonzero_eq_book]
      split_ifs <;> cases t <;> rfl
  | pageFree order =>
      simp only [handleMem, addPageBytes, checked_books, addNonzero_eq_book]
      split_ifs <;> cases t <;> rfl

/-- **What the handlers do to the counter maps.** -/
theorem handle_books {m : Module} (t : CgMap m) (e : m.Event) (s : m.State n) :
    t.get ((m.handle ctx e s).run m c ctx counters).value =
      (t.get s).book ctx (t.books c ctx counters e s) := by
  cases t with
  | cgPfCnt =>
      cases e with
      | pageFaultUser => exact bumpPf_books c ctx counters 1 s
      | pageFaultKernel => exact bumpPf_books c ctx counters 2 s
  | cgSchedCnt => exact handleSched_books c ctx counters e s
  | cgSysCnt =>
      cases e with
      | enter id now => exact (tpSysEnter_books c ctx counters id now s).1
      | exit id now => exact (tpSysExit_books ctx id now s).1
  | cgSysLatNs =>
      cases e with
      | enter id now => exact (tpSysEnter_books c ctx counters id now s).2
      | exit id now => exact (tpSysExit_books ctx id now s).2
  | cgCpuNs => exact handleCpu_books c ctx counters e s
  | cgMemEvt => exact handleMem_books c ctx counters .cgMemEvt e s
  | cgMemPages => exact handleMem_books c ctx counters .cgMemPages e s
  | cgMemBytes => exact handleMem_books c ctx counters .cgMemBytes e s

end

end Gocker.Obsv
