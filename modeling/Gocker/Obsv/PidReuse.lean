import Gocker.Obsv.CpuTime

/-!
# Entries of tasks that are gone

Both `sched.bpf.c` and `cpu.bpf.c` keep a map `pid_cgid`, and delete the entry of a task when
`sched_process_exit` fires for it.  That is not the last the scheduler has to say about the
task: it is current until a final `sched_switch`, its runtime may be accounted once more, and
it may be preempted before.  The handlers of these events store the entry again.

The machine has the lives of all tasks and fires both modules.  `dead_forgotten` gives the
condition under which nothing is left of a dead task, `last_switch_iff` what the final switch
alone does, and `remembered_after_death` is the life of one task in the target subtree.

### Reuse

A number is free again once its task is dead, and the next task with it starts its life with
whatever is left under it.  Its events are then counted for the cgroup of the task before, until
an event stores its own; `Gocker.Obsv.CpuTime` says what such an entry does.
-/

namespace Gocker.Obsv

open Machine

variable {n : ℕ}

/-! ## The lives of tasks -/

/-- Where a task is in its life. -/
inductive Phase where
  | dead
  | alive
  /-- `sched_process_exit` has fired -/
  | exiting
deriving DecidableEq, Repr

/-- The tracepoints of the two modules.  A switch is from the current task, and may be its
last one. -/
inductive KernelEvent where
  | switch (nextPid : UInt32) (last : Bool)
  | wakeup (pid : UInt32)
  | exit
  | runtime (pid : UInt32) (runtime : UInt64)
  | wait (pid : UInt32) (delay : UInt64)
  | iowait (pid : UInt32) (delay : UInt64)
deriving DecidableEq

namespace KernelEvent

/-- What the module `sched` sees. -/
def sched (current : UInt32) : KernelEvent → Option SchedEvent
  | .switch nextPid _ => some (.switch current nextPid)
  | .wakeup pid => some (.wakeup pid)
  | .exit => some .exit
  | .runtime _ _ | .wait _ _ | .iowait _ _ => none

/-- What the module `cpu` sees. -/
def cpu (current : UInt32) : KernelEvent → Option CpuEvent
  | .switch _ _ => some (.switch current)
  | .wakeup _ => none
  | .exit => some .exit
  | .runtime pid ns => some (.runtime pid ns)
  | .wait pid delay => some (.wait pid delay)
  | .iowait pid delay => some (.iowait pid delay)

/-- The task that the event names, beside the current one. -/
def names : KernelEvent → Option UInt32
  | .switch pid _ | .wakeup pid | .runtime pid _ | .wait pid _ | .iowait pid _ => some pid
  | .exit => none

/-- What becomes of the current task; no event comes while a dead task is current. -/
def phaseAfter : KernelEvent → Phase → Option Phase
  | .exit, .alive => some .exiting
  | .exit, _ => none
  | .switch _ true, .exiting => some .dead
  | .switch _ true, _ => none
  | _, .dead => none
  | _, phase => some phase

end KernelEvent

/-- What a module has when a tracepoint fires: its configuration, and room for a counter. -/
structure Loaded where
  conf : Cfg
  room : Bool
deriving DecidableEq

/-- The two modules, and the lives of the tasks. -/
structure Lifetimes (n : ℕ) where
  sched : SchedState n
  schedCounters : Fin n → UInt64
  cpu : CpuState n
  cpuCounters : Fin n → UInt64
  phase : UInt32 → Phase

/-- A task begins, an entry is dropped, or a tracepoint fires. -/
inductive LifeEvent (n : ℕ) where
  /-- a task begins, with a PID that is free -/
  | spawn (pid : UInt32)
  /-- the LRU maps drop entries -/
  | evict (sched cpu : Option UInt32)
  | fire (i : Fin n) (current : Task) (sched cpu : Loaded) (e : KernelEvent)

namespace Lifetimes

/-- The context of an event. -/
def ctx (i : Fin n) (current : Task) (l : Loaded) : Ctx n :=
  { cpu := i, current := current, room := l.room }

/-- Both modules handle the event. -/
def fired (s : Lifetimes n) (i : Fin n) (current : Task) (sched cpu : Loaded) (e : KernelEvent)
    (phase : Phase) : Lifetimes n :=
  let schedRan := (e.sched current.pid).map fun se =>
    (handleSched (ctx i current sched) se s.sched).run .sched sched.conf (ctx i current sched)
      s.schedCounters
  let cpuRan := (e.cpu current.pid).map fun ce =>
    (handleCpu (ctx i current cpu) ce s.cpu).run .cpu cpu.conf (ctx i current cpu) s.cpuCounters
  { sched := schedRan.elim s.sched (·.value)
    schedCounters := schedRan.elim s.schedCounters (·.counters)
    cpu := cpuRan.elim s.cpu (·.value)
    cpuCounters := cpuRan.elim s.cpuCounters (·.counters)
    phase := Function.update s.phase current.pid phase }

/-- A step; `none` where the task it is about is dead. -/
def step (s : Lifetimes n) : LifeEvent n → Option (Lifetimes n)
  | .spawn pid =>
      if s.phase pid = .dead then some { s with phase := Function.update s.phase pid .alive }
      else none
  | .evict sched cpu =>
      some { s with
        sched := { s.sched with
          pidCgid := sched.elim s.sched.pidCgid (Function.update s.sched.pidCgid · none) }
        cpu := { s.cpu with
          pidCgid := cpu.elim s.cpu.pidCgid (Function.update s.cpu.pidCgid · none) } }
  | .fire i current sched cpu e =>
      if e.names.all fun pid => s.phase pid ≠ .dead then
        (e.phaseAfter (s.phase current.pid)).map (s.fired i current sched cpu e)
      else none

/-- The modules have just been loaded. -/
def start (phase : UInt32 → Phase) : Lifetimes n where
  sched := Module.init .sched
  schedCounters _ := 0
  cpu := Module.init .cpu
  cpuCounters _ := 0
  phase := phase

end Lifetimes

/-! ## The condition -/

namespace KernelEvent

/-- The task for which `sched` stores an entry. -/
def schedStores (conf : Cfg) (current : Task) : KernelEvent → Option UInt32
  | .switch _ _ => if inTargetSubtreeCurrent conf current then some current.pid else none
  | _ => none

/-- The task for which `cpu` stores one. -/
def cpuStores (conf : Cfg) (current : Task) : KernelEvent → Option UInt32
  | .switch _ _ =>
      if inTargetSubtreeCurrent conf current then
        (CpuEvent.remembered current.pid current.cgroupID).map (·.1)
      else none
  | .runtime pid _ =>
      if inTargetSubtreeCurrent conf current then
        (CpuEvent.remembered pid current.cgroupID).map (·.1)
      else none
  | _ => none

end KernelEvent

namespace Lifetimes

/-- No entry is stored for a task that is exiting. -/
def SparesExiting (s : Lifetimes n) : LifeEvent n → Prop
  | .fire _ current sched cpu e =>
      (∀ pid ∈ e.schedStores sched.conf current, s.phase pid ≠ .exiting) ∧
        ∀ pid ∈ e.cpuStores cpu.conf current, s.phase pid ≠ .exiting
  | _ => True

instance (s : Lifetimes n) (e : LifeEvent n) : Decidable (s.SparesExiting e) :=
  match e with
  | .spawn _ => isTrue trivial
  | .evict _ _ => isTrue trivial
  -- not by trying all PIDs
  | .fire _ _ _ _ _ =>
      @instDecidableAnd _ _ (Option.decidableForallMem _) (Option.decidableForallMem _)

end Lifetimes

/-! ## Where an entry comes from -/

theorem bumpCached_pidCgid (pid : UInt32) (type : UInt32) (conf : Cfg) (ctx : Ctx n)
    (counters : Fin n → UInt64) (s : SchedState n) :
    ((bumpCached pid type ctx s).run .sched conf ctx counters).value.pidCgid = s.pidCgid := by
  unfold bumpCached
  cases s.pidCgid pid with
  | none => rfl
  | some cgid =>
      simp only [bumpSched, Checked.ifSampled, Checked.run]
      split <;> rfl

/-- The map of `sched` after an event. -/
theorem handleSched_pidCgid (conf : Cfg) (ctx : Ctx n) (counters : Fin n → UInt64)
    (e : SchedEvent) (s : SchedState n) :
    ((handleSched ctx e s).run .sched conf ctx counters).value.pidCgid =
      match e with
      | .switch prevPid _ =>
          if inTargetSubtreeCurrent conf ctx.current then
            Function.update s.pidCgid prevPid (some ctx.current.cgroupID)
          else s.pidCgid
      | .wakeup _ => s.pidCgid
      | .exit => Function.update s.pidCgid ctx.current.pid none := by
  cases e with
  | switch prevPid nextPid =>
      simp only [handleSched, tpSchedSwitch, Checked.run]
      rw [bumpCached_pidCgid]
      split <;> rfl
  | wakeup pid => exact bumpCached_pidCgid pid 2 conf ctx counters s
  | exit => rfl

/-- No entry of a task is left by these writes. -/
theorem write_pidCgid_eq_none_iff {c : CpuState n} {ctx : Ctx n} {w : Written} {pid : UInt32} :
    (c.write ctx w).pidCgid pid = none ↔
      w.forget = some pid ∨ w.store.map (·.1) ≠ some pid ∧ c.pidCgid pid = none := by
  obtain ⟨store, forget, add⟩ := w
  have hstored : store.elim c.pidCgid (fun e => Function.update c.pidCgid e.1 (some e.2)) pid =
      none ↔ store.map (·.1) ≠ some pid ∧ c.pidCgid pid = none := by
    cases store with
    | none => simp
    | some entry =>
        by_cases hpid : pid = entry.1
        · simp [hpid]
        · simp [Function.update_of_ne hpid, Ne.symm hpid]
  unfold CpuState.write
  cases forget with
  | none => simpa using hstored
  | some gone =>
      by_cases hpid : pid = gone
      · simp [hpid]
      · simpa [Function.update_of_ne hpid, Ne.symm hpid] using hstored

namespace Lifetimes

variable {s t : Lifetimes n} {i : Fin n} {current : Task} {sched cpu : Loaded} {e : KernelEvent}
  {phase : Phase} {pid : UInt32}

/-- The module `sched` has no entry of a task after an event, if it has stored none and had
none before, or has deleted it. -/
theorem fired_sched_eq_none_iff :
    (s.fired i current sched cpu e phase).sched.pidCgid pid = none ↔
      e.schedStores sched.conf current ≠ some pid ∧
        (s.sched.pidCgid pid = none ∨ e = .exit ∧ pid = current.pid) := by
  cases e with
  | switch nextPid last =>
      show ((handleSched _ _ _).run _ _ _ _).value.pidCgid pid = none ↔ _
      rw [handleSched_pidCgid]
      cases htarget : inTargetSubtreeCurrent sched.conf current with
      | false => simp [KernelEvent.schedStores, ctx, htarget]
      | true =>
          by_cases hpid : pid = current.pid
          · simp [KernelEvent.schedStores, ctx, htarget, hpid]
          · simp [KernelEvent.schedStores, ctx, htarget, hpid, Ne.symm hpid]
  | wakeup woken =>
      show ((handleSched _ _ _).run _ _ _ _).value.pidCgid pid = none ↔ _
      rw [handleSched_pidCgid]
      simp [KernelEvent.schedStores]
  | exit =>
      show ((handleSched _ _ _).run _ _ _ _).value.pidCgid pid = none ↔ _
      rw [handleSched_pidCgid]
      by_cases hpid : pid = current.pid
      · simp [KernelEvent.schedStores, ctx, hpid]
      · simp [KernelEvent.schedStores, ctx, hpid]
  | runtime _ _ | wait _ _ | iowait _ _ => simp [fired, KernelEvent.sched, KernelEvent.schedStores]

/-- So with the module `cpu`. -/
theorem fired_cpu_eq_none_iff :
    (s.fired i current sched cpu e phase).cpu.pidCgid pid = none ↔
      e.cpuStores cpu.conf current ≠ some pid ∧
        (s.cpu.pidCgid pid = none ∨ e = .exit ∧ pid = current.pid) := by
  cases e with
  | wakeup woken => simp [fired, KernelEvent.cpu, KernelEvent.cpuStores]
  | switch nextPid last =>
      show ((handleCpu _ _ _).run _ _ _ _).value.pidCgid pid = none ↔ _
      rw [handleCpu_run, write_pidCgid_eq_none_iff]
      cases htarget : inTargetSubtreeCurrent cpu.conf current with
      | false => simp [CpuEvent.written, KernelEvent.cpuStores, ctx, htarget]
      | true => simp [CpuEvent.written, KernelEvent.cpuStores, ctx, htarget]
  | exit =>
      show ((handleCpu _ _ _).run _ _ _ _).value.pidCgid pid = none ↔ _
      rw [handleCpu_run, write_pidCgid_eq_none_iff]
      simp [CpuEvent.written, KernelEvent.cpuStores, ctx, or_comm, eq_comm]
  | runtime named ns =>
      show ((handleCpu _ _ _).run _ _ _ _).value.pidCgid pid = none ↔ _
      rw [handleCpu_run, write_pidCgid_eq_none_iff]
      cases htarget : inTargetSubtreeCurrent cpu.conf current with
      | false => simp [CpuEvent.written, KernelEvent.cpuStores, ctx, htarget]
      | true => simp [CpuEvent.written, KernelEvent.cpuStores, ctx, htarget]
  | wait named delay | iowait named delay =>
      show ((handleCpu _ _ _).run _ _ _ _).value.pidCgid pid = none ↔ _
      rw [handleCpu_run, write_pidCgid_eq_none_iff]
      simp [CpuEvent.written, KernelEvent.cpuStores]

/-! ## The invariant -/

/-- Only living tasks have entries. -/
def Clean (s : Lifetimes n) : Prop :=
  ∀ pid, s.phase pid ≠ .alive → s.sched.pidCgid pid = none ∧ s.cpu.pidCgid pid = none

/-- What it takes for an event to fire. -/
theorem step_fire (he : s.step (.fire i current sched cpu e) = some t) :
    (∀ pid ∈ e.names, s.phase pid ≠ .dead) ∧
      ∃ phase, e.phaseAfter (s.phase current.pid) = some phase ∧
        t = s.fired i current sched cpu e phase := by
  simp only [step] at he
  split_ifs at he with hnames
  obtain ⟨phase, hphase, ht⟩ := Option.map_eq_some_iff.mp he
  refine ⟨fun pid hpid => ?_, phase, hphase, ht.symm⟩
  exact of_decide_eq_true ((Option.all_eq_true _ _).mp hnames pid hpid)

theorem phaseAfter_dead (e : KernelEvent) : e.phaseAfter .dead = none := by
  cases e with
  | switch nextPid last => cases last <;> rfl
  | wakeup _ | exit | runtime _ _ | wait _ _ | iowait _ _ => rfl

/-- Without an exit, a living task goes on living. -/
theorem phaseAfter_alive (he : e ≠ .exit) (hphase : e.phaseAfter .alive = some phase) :
    phase = .alive := by
  cases e with
  | exit => exact absurd rfl he
  | switch nextPid last =>
      cases last with
      | false => exact (Option.some.inj hphase).symm
      | true => cases hphase
  | wakeup _ | runtime _ _ | wait _ _ | iowait _ _ => exact (Option.some.inj hphase).symm

/-- An entry is only stored for a task that is not dead. -/
theorem stored_not_dead (he : s.step (.fire i current sched cpu e) = some t)
    (hstored : e.schedStores sched.conf current = some pid ∨
      e.cpuStores cpu.conf current = some pid) :
    e ≠ .exit ∧ s.phase pid ≠ .dead := by
  obtain ⟨hnames, phase, hphase, -⟩ := step_fire he
  have hcurrent : s.phase current.pid ≠ .dead := by
    intro hdead
    rw [hdead, phaseAfter_dead] at hphase
    cases hphase
  have hstore : e ≠ .exit ∧ (pid = current.pid ∨ pid ∈ e.names) := by
    cases e with
    | switch nextPid last =>
        refine ⟨nofun, .inl ?_⟩
        rcases hstored with hstored | hstored
        · simp only [KernelEvent.schedStores] at hstored
          split_ifs at hstored
          exact (Option.some.inj hstored).symm
        · simp only [KernelEvent.cpuStores] at hstored
          split_ifs at hstored
          obtain ⟨entry, hentry, rfl⟩ := Option.map_eq_some_iff.mp hstored
          exact congrArg Prod.fst (Tracking.remembered_eq_some hentry)
    | runtime named ns =>
        refine ⟨nofun, .inr ?_⟩
        rcases hstored with hstored | hstored
        · cases hstored
        · simp only [KernelEvent.cpuStores] at hstored
          split_ifs at hstored
          obtain ⟨entry, hentry, rfl⟩ := Option.map_eq_some_iff.mp hstored
          exact congrArg (some ·.1) (Tracking.remembered_eq_some hentry).symm
    | wakeup _ | exit | wait _ _ | iowait _ _ => rcases hstored with h | h <;> cases h
  rcases hstore.2 with rfl | hnamed
  · exact ⟨hstore.1, hcurrent⟩
  · exact ⟨hstore.1, hnames pid hnamed⟩

/-- A task that is not alive after an event was not alive before, or it is its exit. -/
theorem not_alive_before (hphase : e.phaseAfter (s.phase current.pid) = some phase)
    (hpid : (s.fired i current sched cpu e phase).phase pid ≠ .alive) :
    s.phase pid ≠ .alive ∨ e = .exit ∧ pid = current.pid := by
  by_cases hcur : pid = current.pid
  · by_cases hexit : e = .exit
    · exact .inr ⟨hexit, hcur⟩
    · refine .inl fun halive => hpid ?_
      rw [← hcur, halive] at hphase
      show Function.update s.phase current.pid phase pid = .alive
      rw [← hcur, Function.update_self]
      exact phaseAfter_alive hexit hphase
  · left
    have hsame : (s.fired i current sched cpu e phase).phase pid = s.phase pid :=
      Function.update_of_ne hcur ..
    rwa [hsame] at hpid

/-- An event that stores nothing for a task that is exiting leaves no entry of a dead one. -/
theorem Clean.fire (h : Clean s) (hC : s.SparesExiting (.fire i current sched cpu e))
    (he : s.step (.fire i current sched cpu e) = some t) : Clean t := by
  obtain ⟨-, phase, hphase, rfl⟩ := step_fire he
  intro pid hpid
  have hbefore := not_alive_before hphase hpid
  -- whoever gets an entry is alive, and remains so
  have halive : ∀ stored, (e.schedStores sched.conf current = some stored ∨
      e.cpuStores cpu.conf current = some stored) → stored ≠ pid := by
    rintro stored hstored rfl
    obtain ⟨hexit, hdead⟩ := stored_not_dead he hstored
    have hexiting : s.phase stored ≠ .exiting := hstored.elim (hC.1 stored) (hC.2 stored)
    have hnow : s.phase stored = .alive := by
      cases hp : s.phase stored with
      | dead => exact absurd hp hdead
      | alive => rfl
      | exiting => exact absurd hp hexiting
    rcases hbefore with hnot | ⟨rfl, -⟩
    · exact hnot hnow
    · exact hexit rfl
  constructor
  · rw [fired_sched_eq_none_iff]
    exact ⟨fun hstored => halive pid (.inl hstored) rfl,
      hbefore.imp_left fun hnot => (h pid hnot).1⟩
  · rw [fired_cpu_eq_none_iff]
    exact ⟨fun hstored => halive pid (.inr hstored) rfl,
      hbefore.imp_left fun hnot => (h pid hnot).2⟩

theorem Clean.step {e : LifeEvent n} (h : Clean s) (hC : s.SparesExiting e)
    (he : s.step e = some t) : Clean t := by
  cases e with
  | spawn pid =>
      simp only [Lifetimes.step] at he
      split_ifs at he with hfree
      obtain rfl := Option.some.inj he
      intro p hp
      by_cases heq : p = pid
      · rw [heq] at hp
        exact absurd (Function.update_self ..) hp
      · have hsame : Function.update s.phase pid .alive p = s.phase p :=
          Function.update_of_ne heq ..
        exact h p (hsame ▸ hp)
  | evict sched cpu =>
      obtain rfl := Option.some.inj he
      intro p hp
      obtain ⟨hsched, hcpu⟩ := h p hp
      constructor
      · show (sched.elim _ _ : UInt32 → Option UInt64) p = none
        cases sched with
        | none => exact hsched
        | some pid => simp [Function.update_apply, hsched]
      · show (cpu.elim _ _ : UInt32 → Option UInt64) p = none
        cases cpu with
        | none => exact hcpu
        | some pid => simp [Function.update_apply, hcpu]
  | fire i current sched cpu e => exact h.fire hC he

/-! ## The result -/

/-- **A dead task has no entry**, in every run in which none is stored for a task that is
exiting: a task that gets its PID begins without one. -/
theorem dead_forgotten {phase : UInt32 → Phase}
    (h : Reaches step SparesExiting (Lifetimes.start phase : Lifetimes n) s) (pid : UInt32)
    (hdead : s.phase pid = .dead) :
    s.sched.pidCgid pid = none ∧ s.cpu.pidCgid pid = none := by
  have hclean : Clean s :=
    h.invariant (fun _ _ => ⟨rfl, rfl⟩) fun _ _ _ hi hC he => hi.step hC he
  apply hclean
  rw [hdead]
  decide

/-- The last switch of a task without entries leaves it without if and only if the filters do
not let its cgroup pass. -/
theorem last_switch_iff {nextPid : UInt32} (hsched : s.sched.pidCgid current.pid = none)
    (hcpu : s.cpu.pidCgid current.pid = none) :
    ((s.fired i current sched cpu (.switch nextPid true) .dead).sched.pidCgid current.pid = none ∧
        (s.fired i current sched cpu (.switch nextPid true) .dead).cpu.pidCgid current.pid =
          none) ↔
      inTargetSubtreeCurrent sched.conf current = false ∧
        (inTargetSubtreeCurrent cpu.conf current = false ∨ current.pid = 0 ∨
          current.cgroupID = 0) := by
  rw [fired_sched_eq_none_iff, fired_cpu_eq_none_iff]
  apply and_congr
  · cases htarget : inTargetSubtreeCurrent sched.conf current with
    | false => simp [KernelEvent.schedStores, htarget, hsched]
    | true => simp [KernelEvent.schedStores, htarget]
  · cases htarget : inTargetSubtreeCurrent cpu.conf current with
    | false => simp [KernelEvent.cpuStores, htarget, hcpu]
    | true => simp [KernelEvent.cpuStores, CpuEvent.remembered, htarget, hcpu, or_iff_not_imp_left]

/-- Task 7, in the target subtree or elsewhere. -/
def task7 (inTarget : Bool) : Task :=
  { pid := 7, cgroups := if inTarget then [1, 42, 50] else [1, 43] }

/-- All tasks but 7 live. -/
def without7 (pid : UInt32) : Phase := if pid = 7 then .dead else .alive

/-- Both modules, with the filter on. -/
def filtering : Loaded := { conf := Tracking.filtered, room := true }

/-- The life of task 7, which is in the target subtree and may be moved before it exits. -/
def life7 (moved : Bool) : List (LifeEvent 3) :=
  [.spawn 7, .fire 0 (task7 true) filtering filtering (.switch 9 false),
    .fire 0 (task7 (!moved)) filtering filtering .exit,
    .fire 0 (task7 (!moved)) filtering filtering (.switch 9 true)]

/-- A task that moves out of the target subtree before it dies. -/
theorem dead_forgotten_moved :
    ∃ s : Lifetimes 3, s.phase 7 = .dead ∧ s.sched.pidCgid 7 = none ∧ s.cpu.pidCgid 7 = none :=
  ⟨outcome step SparesExiting (Lifetimes.start without7) (life7 true), by decide +kernel,
    dead_forgotten (reaches_outcome ..) 7 (by decide +kernel)⟩

/-- A task that stays in the target subtree to its end leaves an entry in each map.  The next
one with this PID runs elsewhere, and its waiting is counted for the old cgroup. -/
theorem remembered_after_death :
    (∃ s : Lifetimes 3, Reaches step Always (Lifetimes.start without7) s ∧ s.phase 7 = .dead ∧
      s.sched.pidCgid 7 = some 50 ∧ s.cpu.pidCgid 7 = some 50) ∧
    ∃ s : Lifetimes 3, Reaches step Always (Lifetimes.start without7) s ∧ s.phase 7 = .alive ∧
      s.cpu.cgCpuNs.total ⟨50, 2⟩ = 30 :=
  ⟨⟨outcome step Always (Lifetimes.start without7) (life7 false), reaches_outcome ..,
      by decide +kernel, by decide +kernel, by decide +kernel⟩,
    ⟨outcome step Always (Lifetimes.start without7)
        (life7 false ++ [.spawn 7, .fire 1 (task7 false) filtering filtering (.wait 7 30)]),
      reaches_outcome .., by decide +kernel, by decide +kernel⟩⟩

end Lifetimes

end Gocker.Obsv
