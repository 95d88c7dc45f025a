import Gocker.Obsv.Checks

/-!
# The five BPF modules

The handlers of `pf.bpf.c`, `sched.bpf.c`, `sys.bpf.c`, `cpu.bpf.c` and `mem.bpf.c`
(`gocker-obsv/bpf`), each on the state of its maps.

A handler is a `Checked` computation on the module's maps; what its event carries is what the
tracepoint's structure has and the program reads.  The helpers that add to a counter, `bump_pf`
and `bump_sched`, differ in where they ask the checks, so each keeps a body of its own.  The keys
of all counter maps are a cgroup and a number, whose meaning depends on the map: the kind of
fault, the event of the scheduler, the call, the kind of time.
-/

namespace Gocker.Obsv

variable {n : ℕ}

/-! ## pf -/

/-- The tracepoints of page faults. -/
inductive PfEvent where
  | pageFaultUser
  | pageFaultKernel
deriving DecidableEq

/-- The map of the module for page faults. -/
structure PfState (n : ℕ) where
  cgPfCnt : PerCpuHash n

/-- `bump_pf` -/
def bumpPf (type : UInt32) (ctx : Ctx n) (s : PfState n) : Checked (PfState n) :=
  .ifInTarget s <| .ifSampled s <|
    .done { s with cgPfCnt := s.cgPfCnt.add ctx ⟨ctx.current.cgroupID, type⟩ 1 }

/-- The programs of the module. -/
def handlePf (ctx : Ctx n) : PfEvent → PfState n → Checked (PfState n)
  | .pageFaultUser => bumpPf 1 ctx
  | .pageFaultKernel => bumpPf 2 ctx

/-! ## sched -/

/-- The tracepoints of the scheduler. -/
inductive SchedEvent where
  | switch (prevPid nextPid : UInt32)
  | wakeup (pid : UInt32)
  | exit
deriving DecidableEq

/-- The maps of the module for the scheduler. -/
structure SchedState (n : ℕ) where
  cgSchedCnt : PerCpuHash n
  pidCgid : UInt32 → Option UInt64

/-- `bump_sched` -/
def bumpSched (cgid : UInt64) (type : UInt32) (ctx : Ctx n) (s : SchedState n) :
    Checked (SchedState n) :=
  .ifSampled s <| .done { s with cgSchedCnt := s.cgSchedCnt.add ctx ⟨cgid, type⟩ 1 }

/-- `bump_sched` for a task whose cgroup is cached. -/
def bumpCached (pid : UInt32) (type : UInt32) (ctx : Ctx n) (s : SchedState n) :
    Checked (SchedState n) :=
  match s.pidCgid pid with
  | none => .done s
  | some cgid => bumpSched cgid type ctx s

/-- `tp_sched_switch`: the entry of the task that leaves is stored, and the switch counted for
the one that comes. -/
def tpSchedSwitch (prevPid nextPid : UInt32) (ctx : Ctx n) (s : SchedState n) :
    Checked (SchedState n) :=
  .inTargetSubtree fun passed =>
    bumpCached nextPid 1 ctx
      (if passed then
        { s with pidCgid := Function.update s.pidCgid prevPid (some ctx.current.cgroupID) }
      else s)

/-- The programs of the module. -/
def handleSched (ctx : Ctx n) : SchedEvent → SchedState n → Checked (SchedState n)
  | .switch prevPid nextPid => tpSchedSwitch prevPid nextPid ctx
  | .wakeup pid => bumpCached pid 2 ctx
  | .exit => fun s =>
      .done { s with pidCgid := Function.update s.pidCgid ctx.current.pid none }

/-! ## sys -/

/-- A system call number is an `int`, and a key its bits. -/
inductive SysEvent where
  | enter (id : UInt32) (now : UInt64)
  | exit (id : UInt32) (now : UInt64)
deriving DecidableEq

/-- A call in progress: the thread, and which call it is. -/
structure StartKey where
  pid : UInt32
  sys : UInt32
deriving DecidableEq

/-- When it began, and the cgroup it is for. -/
structure StartVal where
  tsNs : UInt64
  cgid : UInt64
deriving DecidableEq

/-- The maps of the module for system calls. -/
structure SysState (n : ℕ) where
  cgSysCnt : PerCpuHash n
  cgSysLatNs : PerCpuHash n
  sysEnterStart : StartKey → Option StartVal

/-- The filter is written out in the handler, with the same tests. -/
def tpSysEnter (id : UInt32) (now : UInt64) (ctx : Ctx n) (s : SysState n) :
    Checked (SysState n) :=
  .ifInTarget s <|
    .done { s with sysEnterStart :=
      Function.update s.sysEnterStart ⟨ctx.current.pid, id⟩ (some ⟨now, ctx.current.cgroupID⟩) }

/-- `tp_sys_exit` -/
def tpSysExit (id : UInt32) (now : UInt64) (ctx : Ctx n) (s : SysState n) : SysState n :=
  match s.sysEnterStart ⟨ctx.current.pid, id⟩ with
  | none => s
  | some sv =>
      let dt := if now > sv.tsNs then now - sv.tsNs else 0
      { cgSysCnt := s.cgSysCnt.add ctx ⟨sv.cgid, id⟩ 1
        cgSysLatNs := s.cgSysLatNs.add ctx ⟨sv.cgid, id⟩ dt
        sysEnterStart := Function.update s.sysEnterStart ⟨ctx.current.pid, id⟩ none }

/-- The programs of the module. -/
def handleSys (ctx : Ctx n) : SysEvent → SysState n → Checked (SysState n)
  | .enter id now => tpSysEnter id now ctx
  | .exit id now => fun s => .done (tpSysExit id now ctx s)

/-! ## cpu -/

/-- The tracepoints of the module for CPU time. -/
inductive CpuEvent where
  | switch (prevPid : UInt32)
  | exit
  | runtime (pid : UInt32) (runtime : UInt64)
  | wait (pid : UInt32) (delay : UInt64)
  | iowait (pid : UInt32) (delay : UInt64)
deriving DecidableEq

/-- The maps of the module for CPU time. -/
structure CpuState (n : ℕ) where
  cgCpuNs : PerCpuHash n
  pidCgid : UInt32 → Option UInt64

/-- `remember_pid` -/
def rememberPid (pid : UInt32) (cgid : UInt64) (s : CpuState n) : CpuState n :=
  if pid = 0 ∨ cgid = 0 then s
  else { s with pidCgid := Function.update s.pidCgid pid (some cgid) }

/-- `pass_sample` and `add_cpu_ns` -/
def addCpuNs (cgid : UInt64) (type : UInt32) (delta : UInt64) (ctx : Ctx n) (s : CpuState n) :
    Checked (CpuState n) :=
  .ifSampled s <| .done { s with cgCpuNs := s.cgCpuNs.addNonzero ctx cgid type delta }

/-- The cgroup is the one that is cached for the task. -/
def handleDelayEvent (pid : UInt32) (delay : UInt64) (type : UInt32) (ctx : Ctx n)
    (s : CpuState n) : Checked (CpuState n) :=
  match s.pidCgid pid with
  | none => .done s
  | some cgid => addCpuNs cgid type delay ctx s

/-- `tp_sched_stat_runtime`: a runtime is for the current task, if that passes the filter, and
else for the one it names. -/
def tpSchedStatRuntime (pid : UInt32) (runtime : UInt64) (ctx : Ctx n) (s : CpuState n) :
    Checked (CpuState n) :=
  .inTargetSubtree fun passed =>
    if passed then
      addCpuNs ctx.current.cgroupID 1 runtime ctx (rememberPid pid ctx.current.cgroupID s)
    else handleDelayEvent pid runtime 1 ctx s

/-- The programs of the module. -/
def handleCpu (ctx : Ctx n) : CpuEvent → CpuState n → Checked (CpuState n)
  | .switch prevPid => fun s =>
      .ifInTarget s <| .done (rememberPid prevPid ctx.current.cgroupID s)
  | .exit => fun s =>
      .done { s with pidCgid := Function.update s.pidCgid ctx.current.pid none }
  | .runtime pid runtime => tpSchedStatRuntime pid runtime ctx
  | .wait pid delay => handleDelayEvent pid delay 2 ctx
  | .iowait pid delay => handleDelayEvent pid delay 3 ctx

/-! ## mem -/

/-- The tracepoints of the module for memory. -/
inductive MemEvent where
  | kswapdWake
  | directReclaimBegin
  | reclaimPages (nrReclaimed : UInt64)
  | pageAlloc (order : UInt32)
  | pageFree (order : UInt32)
deriving DecidableEq

/-- The maps of the module for memory. -/
structure MemState (n : ℕ) where
  cgMemEvt : PerCpuHash n
  cgMemPages : PerCpuHash n
  cgMemBytes : PerCpuHash n
  kswapdCnt : Fin n → UInt64

/-- `order_to_bytes`: an order of 32 and more is taken for 31. -/
def orderToBytes (order : UInt32) : UInt64 :=
  ((1 : UInt64) <<< (if order ≥ 32 then 31 else order).toUInt64) <<< 12

/-- `mm_page_alloc` and `mm_page_free` -/
def addPageBytes (type : UInt32) (order : UInt32) (ctx : Ctx n) (s : MemState n) :
    Checked (MemState n) :=
  .ifInTarget s <| .ifSampled s <|
    .done { s with
      cgMemBytes := s.cgMemBytes.addNonzero ctx ctx.current.cgroupID type (orderToBytes order) }

/-- The programs of the module. -/
def handleMem (ctx : Ctx n) : MemEvent → MemState n → Checked (MemState n)
  | .kswapdWake => fun s =>
      .ifSampled s <| .done { s with
        kswapdCnt := Function.update s.kswapdCnt ctx.cpu (s.kswapdCnt ctx.cpu + 1) }
  | .directReclaimBegin => fun s =>
      .ifInTarget s <| .ifSampled s <| .done { s with
        cgMemEvt := s.cgMemEvt.addNonzero ctx ctx.current.cgroupID 1 1 }
  | .reclaimPages nrReclaimed => fun s =>
      .ifInTarget s <| .ifSampled s <| .done { s with
        cgMemPages := s.cgMemPages.addNonzero ctx ctx.current.cgroupID 1 nrReclaimed }
  | .pageAlloc order => addPageBytes 1 order ctx
  | .pageFree order => addPageBytes 2 order ctx

/-! ## All of them -/

namespace Module

/-- The events of a module. -/
def Event : Module → Type
  | .pf => PfEvent
  | .sched => SchedEvent
  | .sys => SysEvent
  | .cpu => CpuEvent
  | .mem => MemEvent

/-- The maps of a module. -/
def State (n : ℕ) : Module → Type
  | .pf => PfState n
  | .sched => SchedState n
  | .sys => SysState n
  | .cpu => CpuState n
  | .mem => MemState n

/-- The maps when the module has been loaded. -/
def init : (m : Module) → m.State n
  | .pf => { cgPfCnt := .empty }
  | .sched => { cgSchedCnt := .empty, pidCgid := fun _ => none }
  | .sys => { cgSysCnt := .empty, cgSysLatNs := .empty, sysEnterStart := fun _ => none }
  | .cpu => { cgCpuNs := .empty, pidCgid := fun _ => none }
  | .mem =>
      { cgMemEvt := .empty, cgMemPages := .empty, cgMemBytes := .empty, kswapdCnt := fun _ => 0 }

/-- Its programs. -/
def handle : (m : Module) → Ctx n → m.Event → m.State n → Checked (m.State n)
  | .pf => handlePf
  | .sched => handleSched
  | .sys => handleSys
  | .cpu => handleCpu
  | .mem => handleMem

end Module

end Gocker.Obsv
