import Gocker.Lib.Machine
import Gocker.Obsv.Modules

/-!
# Attribution of CPU time

`cpu.bpf.c` adds the time of an event to a cgroup: a runtime to that of the current task, if it
is in the target subtree, and everything else to the one cached for the task that the event is
about.  The machine lets tasks change their cgroups, lets the cache lose entries, and logs every
store and every addition beside the cgroup that the task really is in.

`attribution_sound` says under which condition the log is right.  The invariant is that a
cached entry is the cgroup of the task at the time of its store.

### Two ways to be wrong

A cached entry can be old: the task has changed its cgroup since.  And an event can be about
another task than the one that is current, as when the runtime of a task on another CPU is
accounted, so that the cgroup of the current task is not that of the event's.  The condition
excludes both; `attributed_to_waker` is a run in which the second happens.
-/

namespace Gocker.Obsv

open Machine

variable {n : ℕ}

/-! ## What an event writes -/

/-- What is written to the maps: an entry of `pid_cgid` is set or deleted, and an amount is
added to `cg_cpu_ns`. -/
structure Written where
  store : Option (UInt32 × UInt64) := none
  forget : Option UInt32 := none
  add : Option (CgKey × UInt64) := none

/-- The maps after these writes. -/
def CpuState.write (s : CpuState n) (ctx : Ctx n) (w : Written) : CpuState n where
  cgCpuNs := w.add.elim s.cgCpuNs fun a => s.cgCpuNs.add ctx a.1 a.2
  pidCgid :=
    let stored := w.store.elim s.pidCgid fun e => Function.update s.pidCgid e.1 (some e.2)
    w.forget.elim stored fun pid => Function.update stored pid none

namespace CpuEvent

/-- `remember_pid`: neither the idle task nor a cgroup without an id is stored. -/
def remembered (pid : UInt32) (cgid : UInt64) : Option (UInt32 × UInt64) :=
  if pid = 0 ∨ cgid = 0 then none else some (pid, cgid)

/-- `add_cpu_ns`: what is added, if the sampling lets it pass and there is anything to add. -/
def amount (sampled : Bool) (cgid : UInt64) (type : UInt32) (delta : UInt64) :
    Option (CgKey × UInt64) :=
  if sampled = false ∨ cgid = 0 ∨ delta = 0 then none else some (⟨cgid, type⟩, delta)

/-- What the event writes, given the results of the two checks and the cache. -/
def written (inTarget sampled : Bool) (current : Task) (cached : UInt32 → Option UInt64) :
    CpuEvent → Written
  | .switch prevPid =>
      { store := if inTarget then remembered prevPid current.cgroupID else none }
  | .exit => { forget := some current.pid }
  | .runtime pid ns =>
      if inTarget then
        { store := remembered pid current.cgroupID
          add := amount sampled current.cgroupID 1 ns }
      else { add := (cached pid).bind fun cgid => amount sampled cgid 1 ns }
  | .wait pid delay => { add := (cached pid).bind fun cgid => amount sampled cgid 2 delay }
  | .iowait pid delay => { add := (cached pid).bind fun cgid => amount sampled cgid 3 delay }

/-- The task that the event is about. -/
def subject (current : UInt32) : CpuEvent → UInt32
  | .switch prevPid => prevPid
  | .exit => current
  | .runtime pid _ => pid
  | .wait pid _ => pid
  | .iowait pid _ => pid

end CpuEvent

section
variable (conf : Cfg) (ctx : Ctx n) (counters : Fin n → UInt64)

/-- `pass_sample` of this module, as it would answer now. -/
def cpuSampled : Bool := (Module.cpu.passSample conf.sampleRate (counters ctx.cpu)).1

theorem rememberPid_eq (pid : UInt32) (cgid : UInt64) (s : CpuState n) :
    rememberPid pid cgid s = s.write ctx { store := CpuEvent.remembered pid cgid } := by
  rw [rememberPid, CpuEvent.remembered]
  split_ifs <;> rfl

theorem addCpuNs_run (cgid : UInt64) (type : UInt32) (delta : UInt64) (s : CpuState n) :
    ((addCpuNs cgid type delta ctx s).run .cpu conf ctx counters).value =
      s.write ctx { add := CpuEvent.amount (cpuSampled conf ctx counters) cgid type delta } := by
  simp only [addCpuNs, Checked.ifSampled, Checked.run]
  rw [← cpuSampled]
  cases cpuSampled conf ctx counters with
  | false => rfl
  | true =>
      show (⟨s.cgCpuNs.addNonzero ctx cgid type delta, s.pidCgid⟩ : CpuState n) = _
      rw [PerCpuHash.addNonzero, CpuEvent.amount]
      simp only [Bool.true_eq_false, false_or]
      split_ifs <;> rfl

/-- A delay is added for the cgroup that is cached for its task. -/
theorem handleDelayEvent_run (pid : UInt32) (delay : UInt64) (type : UInt32) (s : CpuState n) :
    ((handleDelayEvent pid delay type ctx s).run .cpu conf ctx counters).value =
      s.write ctx
        { add := (s.pidCgid pid).bind fun cgid =>
            CpuEvent.amount (cpuSampled conf ctx counters) cgid type delay } := by
  rw [handleDelayEvent]
  cases s.pidCgid pid with
  | none => rfl
  | some cgid => exact addCpuNs_run conf ctx counters cgid type delay s

/-- **The handlers write what `written` says.** -/
theorem handleCpu_run (e : CpuEvent) (s : CpuState n) :
    ((handleCpu ctx e s).run .cpu conf ctx counters).value =
      s.write ctx (e.written (inTargetSubtreeCurrent conf ctx.current)
        (cpuSampled conf ctx counters) ctx.current s.pidCgid) := by
  cases e with
  | switch prevPid =>
      simp only [handleCpu, Checked.ifInTarget, Checked.run, CpuEvent.written]
      cases inTargetSubtreeCurrent conf ctx.current with
      | false => rfl
      | true => exact rememberPid_eq ctx prevPid ctx.current.cgroupID s
  | exit => rfl
  | runtime pid ns =>
      simp only [handleCpu, tpSchedStatRuntime, Checked.run, CpuEvent.written]
      cases inTargetSubtreeCurrent conf ctx.current with
      | false => exact handleDelayEvent_run conf ctx counters pid ns 1 s
      | true =>
          simp only [if_true]
          rw [addCpuNs_run, rememberPid_eq ctx]
          rfl
  | wait pid delay => exact handleDelayEvent_run conf ctx counters pid delay 2 s
  | iowait pid delay => exact handleDelayEvent_run conf ctx counters pid delay 3 s

end

/-! ## The machine -/

/-- A cgroup that was written for a task, beside the one that the task was in. -/
structure Attributed where
  pid : UInt32
  cgid : UInt64
  actual : UInt64
deriving DecidableEq

/-- The module, and what is really the case. -/
structure Tracking (n : ℕ) where
  cpu : CpuState n
  /-- what `load_cfg` returns -/
  conf : Cfg
  counters : Fin n → UInt64
  /-- the cgroups of each task, from the root down -/
  cgroups : UInt32 → List UInt64
  /-- the cgroup of each task when an entry was last stored for it -/
  storedIn : UInt32 → UInt64
  /-- the entries that have been stored in `pid_cgid` -/
  stored : List Attributed
  /-- the amounts that have been added to `cg_cpu_ns` -/
  added : List Attributed

/-- A task changes its cgroup, which is also how one with a reused PID begins; the LRU map
drops an entry; a tracepoint fires. -/
inductive TrackEvent (n : ℕ) where
  | configure (c : Cfg)
  | move (pid : UInt32) (cgroups : List UInt64)
  | evict (pid : UInt32)
  | fire (cpu : Fin n) (current : UInt32) (room : Bool) (e : CpuEvent)

namespace Tracking

/-- A task, with the cgroups that it is in. -/
def task (s : Tracking n) (pid : UInt32) : Task := { pid := pid, cgroups := s.cgroups pid }

/-- The cgroup that it is in. -/
def cgroupOf (s : Tracking n) (pid : UInt32) : UInt64 := (s.task pid).cgroupID

/-- The context of an event. -/
def ctx (s : Tracking n) (cpu : Fin n) (current : UInt32) (room : Bool) : Ctx n :=
  { cpu := cpu, current := s.task current, room := room }

/-- What the event is going to write. -/
def writes (s : Tracking n) (cpu : Fin n) (current : UInt32) (room : Bool) (e : CpuEvent) :
    Written :=
  e.written (inTargetSubtreeCurrent s.conf (s.task current))
    (cpuSampled s.conf (s.ctx cpu current room) s.counters) (s.task current) s.cpu.pidCgid

/-- An amount or an entry, with the cgroup that the task is really in. -/
def attributed (s : Tracking n) (pid : UInt32) (cgid : UInt64) : Attributed :=
  { pid := pid, cgid := cgid, actual := s.cgroupOf pid }

/-- An event fires, and what it writes is logged. -/
def fired (s : Tracking n) (cpu : Fin n) (current : UInt32) (room : Bool) (e : CpuEvent) :
    Tracking n :=
  let ran := (handleCpu (s.ctx cpu current room) e s.cpu).run .cpu s.conf
    (s.ctx cpu current room) s.counters
  let w := s.writes cpu current room e
  { s with
    cpu := ran.value
    counters := ran.counters
    storedIn := w.store.elim s.storedIn fun entry =>
      Function.update s.storedIn entry.1 (s.cgroupOf entry.1)
    stored := w.store.elim s.stored fun entry => s.attributed entry.1 entry.2 :: s.stored
    added := w.add.elim s.added fun a => s.attributed (e.subject current) a.1.cgid :: s.added }

/-- A switch is from the task that is current. -/
def step (s : Tracking n) : TrackEvent n → Option (Tracking n)
  | .configure c => some { s with conf := c }
  | .move pid cgroups => some { s with cgroups := Function.update s.cgroups pid cgroups }
  | .evict pid =>
      some { s with cpu := { s.cpu with pidCgid := Function.update s.cpu.pidCgid pid none } }
  | .fire cpu current room e =>
      match e with
      | .switch prevPid => if prevPid = current then some (s.fired cpu current room e) else none
      | _ => some (s.fired cpu current room e)

/-- The module has just been loaded. -/
def start (conf : Cfg) (cgroups : UInt32 → List UInt64) : Tracking n where
  cpu := Module.init .cpu
  conf := conf
  counters _ := 0
  cgroups := cgroups
  storedIn _ := 0
  stored := []
  added := []

/-- A cached task is still where it was when its entry was stored. -/
def Stayed (s : Tracking n) (pid : UInt32) : Prop :=
  (s.cpu.pidCgid pid).isSome → s.cgroupOf pid = s.storedIn pid

/-- The condition on an event: what is attributed to the current task is about a task of the
same cgroup, and what is attributed by the cache is about one that has stayed. -/
def Attributable (s : Tracking n) : TrackEvent n → Prop
  | .fire _ current _ (.runtime pid _) =>
      if inTargetSubtreeCurrent s.conf (s.task current) then s.cgroupOf pid = s.cgroupOf current
      else s.Stayed pid
  | .fire _ _ _ (.wait pid _) => s.Stayed pid
  | .fire _ _ _ (.iowait pid _) => s.Stayed pid
  | _ => True

instance (s : Tracking n) (pid : UInt32) : Decidable (s.Stayed pid) :=
  inferInstanceAs (Decidable (_ → _))

instance (s : Tracking n) (e : TrackEvent n) : Decidable (s.Attributable e) :=
  match e with
  | .configure _ => isTrue trivial
  | .move _ _ => isTrue trivial
  | .evict _ => isTrue trivial
  | .fire _ _ _ (.switch _) => isTrue trivial
  | .fire _ _ _ .exit => isTrue trivial
  | .fire _ current _ (.runtime pid _) =>
      inferInstanceAs (Decidable
        (if inTargetSubtreeCurrent s.conf (s.task current) then s.cgroupOf pid = s.cgroupOf current
        else s.Stayed pid))
  | .fire _ _ _ (.wait pid _) => inferInstanceAs (Decidable (s.Stayed pid))
  | .fire _ _ _ (.iowait pid _) => inferInstanceAs (Decidable (s.Stayed pid))

/-! ## The invariant -/

/-- The invariant: entries are what they were, and what has been logged is right. -/
structure Sound (s : Tracking n) : Prop where
  /-- a cached entry is the cgroup of the task when it was stored -/
  cached : ∀ pid cgid, s.cpu.pidCgid pid = some cgid → cgid = s.storedIn pid
  stored : ∀ a ∈ s.stored, a.cgid = a.actual
  added : ∀ a ∈ s.added, a.cgid = a.actual

variable {s t : Tracking n} {cpu : Fin n} {current : UInt32} {room : Bool}

theorem Sound.start (conf : Cfg) (cgroups : UInt32 → List UInt64) :
    Sound (start conf cgroups : Tracking n) where
  cached _ _ h := by cases h
  stored := List.forall_mem_nil _
  added := List.forall_mem_nil _

/-- In this state the writes are right: they are about the cgroup that the task is in. -/
structure Right (s : Tracking n) (subject : UInt32) (w : Written) : Prop where
  store : ∀ entry, w.store = some entry → entry.2 = s.cgroupOf entry.1
  add : ∀ a, w.add = some a → a.1.cgid = s.cgroupOf subject

theorem remembered_eq_some {pid : UInt32} {cgid : UInt64} {entry : UInt32 × UInt64}
    (h : CpuEvent.remembered pid cgid = some entry) : entry = (pid, cgid) := by
  rw [CpuEvent.remembered] at h
  split_ifs at h
  exact (Option.some.inj h).symm

theorem cgid_amount {sampled : Bool} {cgid : UInt64} {type : UInt32} {delta : UInt64}
    {a : CgKey × UInt64} (h : CpuEvent.amount sampled cgid type delta = some a) :
    a.1.cgid = cgid := by
  rw [CpuEvent.amount] at h
  split_ifs at h
  rw [← Option.some.inj h]

/-- The cache gives the cgroup that a task is in, if it has stayed there. -/
theorem Sound.right_cached (h : Sound s) {pid : UInt32} (hstayed : s.Stayed pid) {sampled : Bool}
    {type : UInt32} {delta : UInt64} :
    Right s pid
      { add := (s.cpu.pidCgid pid).bind fun cgid => CpuEvent.amount sampled cgid type delta } where
  store entry hentry := by cases hentry
  add a ha := by
    obtain ⟨cgid, hcgid, ha⟩ := Option.bind_eq_some_iff.mp ha
    have hhere : s.cgroupOf pid = s.storedIn pid := hstayed (Option.isSome_of_eq_some hcgid)
    rw [cgid_amount ha, h.cached pid cgid hcgid, hhere]

/-- What an event writes is right, under the condition. -/
theorem Sound.writes (h : Sound s) {e : CpuEvent} (hswitch : ∀ p, e = .switch p → p = current)
    (hC : s.Attributable (.fire cpu current room e)) :
    Right s (e.subject current) (s.writes cpu current room e) := by
  cases e with
  | switch prevPid =>
      obtain rfl := hswitch prevPid rfl
      refine ⟨fun entry hentry => ?_, fun a ha => by cases ha⟩
      simp only [Tracking.writes, CpuEvent.written] at hentry
      split_ifs at hentry
      rw [remembered_eq_some hentry]
      rfl
  | exit =>
      constructor
      · intro entry hentry
        cases hentry
      · intro a ha
        cases ha
  | runtime pid ns =>
      simp only [Attributable] at hC
      simp only [Tracking.writes, CpuEvent.written]
      split_ifs at hC ⊢ with htarget
      · refine ⟨fun entry hentry => ?_, fun a ha => ?_⟩
        · rw [remembered_eq_some hentry]
          exact hC.symm
        · rw [cgid_amount ha]
          exact hC.symm
      · exact h.right_cached hC
  | wait pid delay => exact h.right_cached hC
  | iowait pid delay => exact h.right_cached hC

theorem cpu_fired (s : Tracking n) (e : CpuEvent) :
    (s.fired cpu current room e).cpu =
      s.cpu.write (s.ctx cpu current room) (s.writes cpu current room e) :=
  handleCpu_run s.conf (s.ctx cpu current room) s.counters e s.cpu

/-- An entry that is cached afterwards has just been stored, or was cached before. -/
theorem cached_write {c : CpuState n} {ctx : Ctx n} {w : Written} {pid : UInt32} {cgid : UInt64}
    (h : (c.write ctx w).pidCgid pid = some cgid) :
    w.store = some (pid, cgid) ∨
      ((∀ entry, w.store = some entry → entry.1 ≠ pid) ∧ c.pidCgid pid = some cgid) := by
  have hstored : w.store.elim c.pidCgid (fun e => Function.update c.pidCgid e.1 (some e.2)) pid =
      some cgid := by
    cases hforget : w.forget with
    | none => simpa only [CpuState.write, hforget, Option.elim_none] using h
    | some gone =>
        simp only [CpuState.write, hforget, Option.elim_some] at h
        by_cases hpid : pid = gone
        · rw [hpid, Function.update_self] at h
          cases h
        · rwa [Function.update_of_ne hpid] at h
  cases hstore : w.store with
  | none =>
      rw [hstore] at hstored
      exact .inr ⟨fun entry hentry => (by cases hentry), hstored⟩
  | some entry =>
      rw [hstore, Option.elim_some] at hstored
      by_cases hpid : pid = entry.1
      · rw [hpid, Function.update_self] at hstored
        left
        rw [hpid, ← Option.some.inj hstored]
      · rw [Function.update_of_ne hpid] at hstored
        refine .inr ⟨fun e he => ?_, hstored⟩
        rw [← Option.some.inj he]
        exact Ne.symm hpid

/-- An event that writes what is right keeps the invariant. -/
theorem Sound.fired (h : Sound s) {e : CpuEvent}
    (hright : Right s (e.subject current) (s.writes cpu current room e)) :
    Sound (s.fired cpu current room e) := by
  refine ⟨fun pid cgid hpid => ?_, ?_, ?_⟩
  · rw [cpu_fired] at hpid
    show cgid = (Option.elim _ s.storedIn _ : UInt32 → UInt64) pid
    rcases cached_write hpid with hstore | ⟨hother, hbefore⟩
    · rw [hstore, Option.elim_some, Function.update_self]
      exact hright.store (pid, cgid) hstore
    · cases hstore : (s.writes cpu current room e).store with
      | none => exact h.cached pid cgid hbefore
      | some entry =>
          rw [Option.elim_some, Function.update_of_ne (Ne.symm (hother entry hstore))]
          exact h.cached pid cgid hbefore
  · show ∀ a ∈ (Option.elim _ s.stored _ : List Attributed), a.cgid = a.actual
    cases hstore : (s.writes cpu current room e).store with
    | none => exact h.stored
    | some entry => exact List.forall_mem_cons.mpr ⟨hright.store entry hstore, h.stored⟩
  · show ∀ a ∈ (Option.elim _ s.added _ : List Attributed), a.cgid = a.actual
    cases hadd : (s.writes cpu current room e).add with
    | none => exact h.added
    | some a => exact List.forall_mem_cons.mpr ⟨hright.add a hadd, h.added⟩

theorem Sound.step {e : TrackEvent n} (h : Sound s) (hC : s.Attributable e)
    (he : s.step e = some t) : Sound t := by
  cases e with
  | configure c =>
      cases he
      exact ⟨h.cached, h.stored, h.added⟩
  | move pid cgroups =>
      cases he
      exact ⟨h.cached, h.stored, h.added⟩
  | evict pid =>
      cases he
      refine ⟨fun p cgid hp => ?_, h.stored, h.added⟩
      by_cases heq : p = pid
      · rw [heq] at hp
        simp only [Function.update_self] at hp
        cases hp
      · simp only [Function.update_of_ne heq] at hp
        exact h.cached p cgid hp
  | fire cpu current room e =>
      -- only a switch can be impossible
      have hfired : t = s.fired cpu current room e ∧ ∀ p, e = .switch p → p = current := by
        cases e with
        | switch prevPid =>
            simp only [Tracking.step] at he
            split_ifs at he with hprev
            refine ⟨(Option.some.inj he).symm, fun p hp => ?_⟩
            rw [← CpuEvent.switch.inj hp, hprev]
        | exit => exact ⟨(Option.some.inj he).symm, fun p hp => by cases hp⟩
        | runtime pid ns => exact ⟨(Option.some.inj he).symm, fun p hp => by cases hp⟩
        | wait pid delay => exact ⟨(Option.some.inj he).symm, fun p hp => by cases hp⟩
        | iowait pid delay => exact ⟨(Option.some.inj he).symm, fun p hp => by cases hp⟩
      rw [hfired.1]
      exact h.fired (h.writes hfired.2 hC)

/-- **CPU time is attributed to the right cgroups** in every run in which each event is
attributable: what has been stored was the cgroup of the task at that time, and what has been
added was for a task of the cgroup. -/
theorem attribution_sound {conf : Cfg} {cgroups : UInt32 → List UInt64}
    (h : Reaches step Attributable (Tracking.start conf cgroups) s) :
    (∀ a ∈ s.added, a.cgid = a.actual) ∧ ∀ a ∈ s.stored, a.cgid = a.actual := by
  have hsound : Sound s := h.invariant (.start conf cgroups) fun _ _ _ hi hC he => hi.step hC he
  exact ⟨hsound.added, hsound.stored⟩

/-- Task 7 is in the target subtree, and task 9 outside of it. -/
def inAndOut (pid : UInt32) : List UInt64 := if pid = 7 then [1, 42, 50] else [1, 43]

/-- A configuration with the filter on. -/
def filtered : Cfg := { sampleRate := 1, enableFilter := 1, targetLevel := 1, targetCgid := 42 }

/-- Task 7 is cached when it is switched out, and then waits while 9 runs. -/
def attributedByCache : List (TrackEvent 4) :=
  [.fire 0 7 true (.runtime 7 100), .fire 0 7 true (.switch 7), .fire 1 9 true (.wait 7 30),
    .fire 1 9 true (.runtime 9 40)]

/-- A task whose time is added while another one is current. -/
theorem attribution_sound_cached :
    ∃ s : Tracking 4, s.added = [⟨7, 50, 50⟩, ⟨7, 50, 50⟩] ∧ s.stored.length = 2 ∧
      s.cpu.cgCpuNs.total ⟨50, 2⟩ = 30 ∧
      ((∀ a ∈ s.added, a.cgid = a.actual) ∧ ∀ a ∈ s.stored, a.cgid = a.actual) :=
  ⟨outcome step Attributable (Tracking.start filtered inAndOut) attributedByCache,
    by decide +kernel, by decide +kernel, by decide +kernel,
    attribution_sound (reaches_outcome ..)⟩

/-- The runtime of task 9, which runs on another CPU, is accounted while 7 is current: the
entry stored for 9 and the amount added are for the cgroup of 7. -/
theorem attributed_to_waker :
    ∃ s : Tracking 2, Reaches step Always (Tracking.start filtered inAndOut) s ∧
      s.cpu.pidCgid 9 = some 50 ∧ s.cpu.cgCpuNs.total ⟨50, 1⟩ = 100 ∧ s.cgroupOf 9 = 43 ∧
      ¬ ((∀ a ∈ s.added, a.cgid = a.actual) ∧ ∀ a ∈ s.stored, a.cgid = a.actual) :=
  ⟨outcome step Always (Tracking.start filtered inAndOut) [.fire 0 7 true (.runtime 9 100)],
    reaches_outcome .., by decide +kernel, by decide +kernel, by decide +kernel,
    by decide +kernel⟩

end Tracking

end Gocker.Obsv
