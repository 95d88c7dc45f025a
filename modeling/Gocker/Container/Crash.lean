import Gocker.Lib.Machine
import Gocker.Container.Steps

/-!
# Crashes

The host together with what can go wrong around it: a `gocker run` or the daemon dies, and
the calls that it was serving are cut off wherever they are; the process of such a call
lives on, and somebody else reaps it; processes that have nothing to do with containers
come and go, and take the numbers that are free.  The other operation that uses the number
in a record is here too, `handleExec` (`internal/daemon/handlers.go`).

After a crash there are processes without a call.  What remains of the structure of a host
is `Consistent`.

`records_coherent` holds in all these runs: a record says `Running` exactly if it has the
number of a process, so that `StopContainer` never signals its own process group.

### What a crash is

A crash cuts off any set of calls at once, and any set of execs: one `gocker run` has one call,
and the daemon has all calls of `CreateAndRun` and `Start`.  Their deferred functions do not run.
What they have written stays, and so do their processes, which from then on no call waits for.

A write that is cut off between the truncation and the data is a write that fails half way
(`Outcome.fails`), after which the call is cut off.
-/

namespace Gocker.Container

open Machine

/-! ## The system -/

/-- Where a `handleExec` stands that has read a running record: before it looks whether
there is a process with the number, or about to enter its namespaces. -/
inductive ExecStage where
  | checking
  | entering
deriving DecidableEq, Repr

/-- A `handleExec` that has found a record: it checks that there is a process of this number,
and then enters its namespaces. -/
structure Exec where
  container : ContainerID
  pid : PID
  stage : ExecStage
deriving DecidableEq, Repr

/-- The host, the processes that are none of its containers', and the execs that are under way. -/
structure System where
  host : Host
  /-- the numbers of the processes that no call has launched -/
  others : PID → Bool
  execs : ℕ → Option Exec
  nextExec : ℕ

/-- What can happen to a system: an event of the host, a crash, the coming and going of other
processes, and the steps of an exec. -/
inductive Happening where
  | host (e : Event)
  /-- the processes that serve these calls die -/
  | crash (calls : List CallId) (execs : List ℕ)
  /-- a dead process is reaped that no call waits for -/
  | reap (p : PID)
  | appear (p : PID)
  | vanish (p : PID)
  | exec (identifier : String) (skip : List ContainerID)
  | check (x : ℕ)
  /-- without a terminal, `nsenter` may be started a second time -/
  | enter (x : ℕ) (again : Bool)

/-- The number that a launch gives to its process. -/
def Event.launched : Event → Option PID
  | .step _ (.child p) => some p
  | _ => none

namespace System

/-- There is `/proc/<p>`. -/
def Present (s : System) (p : PID) : Prop :=
  s.others p = true ∨ (s.host.world.procs p).isSome

instance (s : System) (p : PID) : Decidable (s.Present p) := inferInstanceAs (Decidable (_ ∨ _))

/-- Nothing but the one exec changes. -/
def setExec (s : System) (x : ℕ) (e : Option Exec) : System :=
  { s with execs := Function.update s.execs x e }

/-- The calls and execs are gone, and nothing else. -/
def cutOff (s : System) (ks : List CallId) (xs : List ℕ) : System :=
  { s with
      host := { s.host with calls := fun k => if k ∈ ks then none else s.host.calls k }
      execs := fun x => if x ∈ xs then none else s.execs x }

/-- The number of a dead process is free again. -/
def reap (s : System) (p : PID) : System :=
  { s with host := { s.host with world := s.host.world.setProc p none } }

/-- `handleExec` with the record that it has read. -/
def exec (s : System) (info : ContainerInfo) : System :=
  { s.setExec s.nextExec (some ⟨info.id, info.pid, .checking⟩) with nextExec := s.nextExec + 1 }

/-- One step.  A new process of the host gets a number that no other process has, and a dead
process can be reaped by somebody else only if its call is gone. -/
def step (s : System) : Happening → Option System
  | .host e =>
      if ∀ p ∈ e.launched, s.others p = false then
        (s.host.step e).map fun host => { s with host := host }
      else none
  | .crash ks xs => some (s.cutOff ks xs)
  | .reap p =>
      match s.host.world.procs p with
      | some x => if x.alive = false ∧ s.host.calls x.launcher = none then some (s.reap p) else none
      | none => none
  | .appear p =>
      if 0 < p ∧ s.host.world.procs p = none then
        some { s with others := Function.update s.others p true }
      else none
  | .vanish p => some { s with others := Function.update s.others p false }
  | .exec identifier skip =>
      match s.host.findContainerInfo skip identifier with
      | some info =>
          if info.status = .running ∧ info.pid ≠ 0 then some (s.exec info) else some s
      | none => some s
  | .check x =>
      match s.execs x with
      | some ⟨container, pid, .checking⟩ =>
          if s.Present pid then some (s.setExec x (some ⟨container, pid, .entering⟩))
          else some (s.setExec x none)
      | _ => none
  | .enter x again =>
      match s.execs x with
      | some ⟨_, _, .entering⟩ => if again then some s else some (s.setExec x none)
      | _ => none

/-- What a step of the system can do. -/
inductive Stepped (s : System) : Happening → System → Prop where
  | hosted {e : Event} {host : Host} (free : ∀ p ∈ e.launched, s.others p = false)
      (he : s.host.step e = some host) : Stepped s (.host e) { s with host := host }
  | crashed (ks : List CallId) (xs : List ℕ) : Stepped s (.crash ks xs) (s.cutOff ks xs)
  | reaped {p : PID} {x : Proc} (hx : s.host.world.procs p = some x)
      (orphan : s.host.calls x.launcher = none) : Stepped s (.reap p) (s.reap p)
  | appeared {p : PID} (pos : 0 < p) (free : s.host.world.procs p = none) :
      Stepped s (.appear p) { s with others := Function.update s.others p true }
  | vanished (p : PID) :
      Stepped s (.vanish p) { s with others := Function.update s.others p false }
  | begun {identifier : String} {skip : List ContainerID} {info : ContainerInfo}
      (found : s.host.findContainerInfo skip identifier = some info) (pid : info.pid ≠ 0) :
      Stepped s (.exec identifier skip) (s.exec info)
  | checked {x : ℕ} {e : Exec} (hx : s.execs x = some e) :
      Stepped s (.check x) (s.setExec x (some { e with stage := .entering }))
  | ended {a : Happening} (x : ℕ) : Stepped s a (s.setExec x none)
  | unchanged {a : Happening} : Stepped s a s

/-- **What a step of the system is**, for the properties that follow. -/
theorem stepped {s t : System} {a : Happening} (h : s.step a = some t) : Stepped s a t := by
  cases a with
  | host e =>
      simp only [step] at h
      split_ifs at h with hfree
      obtain ⟨host, he, rfl⟩ := Option.map_eq_some_iff.mp h
      exact .hosted hfree he
  | crash ks xs =>
      cases h
      exact .crashed ks xs
  | reap p =>
      simp only [step] at h
      split at h
      · next x hx =>
          split_ifs at h with horphan
          cases h
          exact .reaped hx horphan.2
      · cases h
  | appear p =>
      simp only [step] at h
      split_ifs at h with hfree
      cases h
      exact .appeared hfree.1 hfree.2
  | vanish p =>
      cases h
      exact .vanished p
  | exec identifier skip =>
      simp only [step] at h
      split at h
      · next info found =>
          split_ifs at h with hrunning
          · cases h
            exact .begun found hrunning.2
          · cases h
            exact .unchanged
      · cases h
        exact .unchanged
  | check x =>
      simp only [step] at h
      split at h
      · next hx =>
          split_ifs at h
          · cases h
            exact .checked hx
          · cases h
            exact .ended x
      · cases h
  | enter x again =>
      simp only [step] at h
      split at h
      · split_ifs at h
        · cases h
          exact .unchanged
        · cases h
          exact .ended x
      · cases h

end System

/-! ## What a crash leaves of the structure -/

section
variable {s t : Host}

/-- The calls that are left were there before. -/
theorem of_cutOff {ks : List CallId} {k : CallId} {c : Call}
    (hk : (if k ∈ ks then none else s.calls k) = some c) : s.calls k = some c := by
  split_ifs at hk
  exact hk

/-- Calls can be cut off anywhere: what is said of a call is said of each one alone. -/
theorem Consistent.cutOff (h : Consistent s) (ks : List CallId) :
    Consistent { s with calls := fun k => if k ∈ ks then none else s.calls k } where
  record := h.record
  call k c hk := by
    have hk := of_cutOff hk
    have hc := h.call k c hk
    exact ⟨hc.lt, hc.dir, hc.info, hc.ne, hc.program, hc.child, hc.proc, hc.request, hc.release⟩

/-- A process that is reaped by somebody else is not the child of a call. -/
theorem Consistent.reap (h : Consistent s) {p : PID} {x : Proc} (hx : s.world.procs p = some x)
    (horphan : s.calls x.launcher = none) :
    Consistent { s with world := s.world.setProc p none } where
  record := h.record
  call k c hk := by
    have hc := h.call k c hk
    refine ⟨hc.lt, hc.dir, hc.info, hc.ne, hc.program, hc.child, ?_, hc.request, hc.release⟩
    intro q hchild
    obtain ⟨y, hy, hlauncher, hcontainer⟩ := hc.proc q hchild
    -- a call that is left still waits for its child
    have hne : q ≠ p := by
      rintro rfl
      obtain rfl := Option.some.inj (hx.symm.trans hy)
      rw [hlauncher, hk] at horphan
      cases horphan
    exact ⟨y, (Function.update_of_ne hne ..).trans hy, hlauncher, hcontainer⟩

end

theorem System.consistent_step {s t : System} {a : Happening} (h : Consistent s.host)
    (he : s.step a = some t) : Consistent t.host := by
  cases System.stepped he with
  | hosted free hstep => exact h.step hstep
  | crashed ks xs => exact h.cutOff ks
  | reaped hx orphan => exact h.reap hx orphan
  | appeared | vanished | begun | checked | ended | unchanged => exact h

/-! ## Status and number -/

/-- A record says `Running` if it has the number of a process, and `Created` or `Stopped`
if it has none. -/
structure CoherentRecord (r : ContainerInfo) : Prop where
  running : r.status = .running ↔ 0 < r.pid
  idle : r.status = .created ∨ r.status = .stopped ↔ r.pid = 0

/-- The records of all containers are coherent, and no signal is sent without a number. -/
structure RecordsCoherent (s : Host) : Prop where
  id : ∀ d r, s.world.config d = some r → r.id = d
  coherent : ∀ d r, s.world.config d = some r → CoherentRecord r
  signal : ∀ k c, s.calls k = some c → c.todo.head? = some .kill → 0 < c.info.pid

/-- So are the copies of them that the calls keep. -/
structure Coherent (s : Host) : Prop where
  record : ∀ d r, s.world.config d = some r → CoherentRecord r
  copy : ∀ k c, s.calls k = some c → CoherentRecord c.info
  child : ∀ k c p, s.calls k = some c → c.child = some p → 0 < p
  target : ∀ k c, s.calls k = some c → .kill ∈ c.todo → 0 < c.info.pid

/-- A record that says `Running` and has a number is coherent, -/
theorem coherent_running {r : ContainerInfo} (hs : r.status = .running) (hp : 0 < r.pid) :
    CoherentRecord r where
  running := iff_of_true hs hp
  idle := iff_of_false (by simp [hs]) (Nat.ne_of_gt hp)

/-- and so is one that says that there is no process, and has none. -/
theorem coherent_idle {r : ContainerInfo} (hs : r.status = .created ∨ r.status = .stopped)
    (hp : r.pid = 0) : CoherentRecord r where
  running := by
    refine iff_of_false ?_ (by simp [hp])
    rcases hs with hs | hs <;> simp [hs]
  idle := iff_of_true hs hp

/-- The address, the limits and the times do not matter. -/
theorem CoherentRecord.of_eq {r r' : ContainerInfo} (h : CoherentRecord r)
    (hstatus : r'.status = r.status) (hpid : r'.pid = r.pid) : CoherentRecord r' := by
  constructor
  · rw [hstatus, hpid]
    exact h.running
  · rw [hstatus, hpid]
    exact h.idle

/-- A call writes a coherent record, given a process where it writes `Running`. -/
theorem Call.record_coherent {c : Call} (h : CoherentRecord c.info) (now : Time) (wr : Write)
    (hchild : (Stage.write wr).setsRunning = true → ∃ p, c.child = some p ∧ 0 < p) :
    CoherentRecord (c.record now wr) := by
  cases wr with
  | created => exact h.of_eq rfl rfl
  | limits => exact h
  | running | restarted =>
      obtain ⟨p, hp, hpos⟩ := hchild rfl
      refine coherent_running rfl ?_
      rw [record_pid_of_setsRunning rfl hp]
      exact hpos
  | exited | finished | stopped => exact coherent_idle (.inr rfl) rfl

section
variable {s t : Host}

theorem Coherent.of_dirs (h : Coherent s) (dirs : List ContainerID) :
    Coherent { s with dirs := dirs } :=
  ⟨h.record, h.copy, h.child, h.target⟩

/-- A call begins with a copy that is coherent; `StopContainer` begins with one that says
`Running`. -/
theorem Coherent.begin (h : Coherent s) {fn : Fn} {info : ContainerInfo}
    {req : Option RunRequest} (hinfo : CoherentRecord info)
    (hkill : .kill ∈ fn.program → info.status = .running) :
    Coherent (s.begin fn info req) := by
  refine ⟨h.record, ?_, ?_, ?_⟩
  · intro k c hk
    rcases WellFormed.begin_calls hk with ⟨-, rfl⟩ | ⟨-, hold⟩
    · exact hinfo
    · exact h.copy k c hold
  · intro k c p hk hchild
    rcases WellFormed.begin_calls hk with ⟨-, rfl⟩ | ⟨-, hold⟩
    · cases hchild
    · exact h.child k c p hold hchild
  · intro k c hk hmem
    rcases WellFormed.begin_calls hk with ⟨-, rfl⟩ | ⟨-, hold⟩
    · exact hinfo.running.mp (hkill hmem)
    · exact h.target k c hold hmem

section
variable {k : CallId} {c : Call} {st : Stage} {rest : List Stage} {o : Outcome} {w' : World}
  {after : After}

/-- The record that a call writes at its next stage. -/
theorem Coherent.written (hs : Consistent s) (h : Coherent s) (hk : s.calls k = some c) {wr : Write}
    (htodo : c.todo = .write wr :: rest) : CoherentRecord (c.record s.clock wr) := by
  refine c.record_coherent (h.copy k c hk) s.clock wr fun hset => ?_
  have hc := hs.call k c hk
  obtain ⟨-, hwait, hlaunch⟩ := upAt_of_setsRunning (htodo ▸ hc.program) hset
  obtain ⟨p, hp⟩ := Option.isSome_iff_exists.mp
    (hc.child.mpr (htodo ▸ ⟨hlaunch, List.mem_cons_of_mem _ hwait⟩))
  exact ⟨p, hp, h.child k c p hk hp⟩

/-- The copy, the child and the target of a call that goes on. -/
theorem Coherent.goOn (hs : Consistent s) (h : Coherent s) (hk : s.calls k = some c)
    (htodo : c.todo = st :: rest) {c' : Call}
    (hp : Performed s.world s.clock k c st o w' (.goOn c')) :
    CoherentRecord c'.info ∧ (∀ p, c'.child = some p → 0 < p) ∧
      (.kill ∈ rest → 0 < c'.info.pid) := by
  have hcopy := h.copy k c hk
  have hchild := fun p => h.child k c p hk
  have htarget : .kill ∈ rest → 0 < c.info.pid := fun hmem =>
    h.target k c hk (htodo ▸ List.mem_cons_of_mem _ hmem)
  have hprog : st :: rest <:+ c.fn.program := htodo ▸ (hs.call k c hk).program
  cases hp with
  | allocated => exact ⟨hcopy.of_eq rfl rfl, hchild, htarget⟩
  | written | torn | unwritten =>
      exact ⟨h.written hs hk htodo, hchild, fun hmem => absurd hmem (no_kill_after_write hprog)⟩
  | launched pos free =>
      refine ⟨hcopy, fun p hp => ?_, htarget⟩
      obtain rfl := Option.some.inj hp
      exact pos
  | waited =>
      refine ⟨hcopy, fun p hp => ?_, htarget⟩
      cases hp
  | encoded | released | peered | plain => exact ⟨hcopy, hchild, htarget⟩

/-- A stage writes coherent records, because it sets the status and the number together. -/
theorem Coherent.stage (hs : Consistent s) (h : Coherent s) (hk : s.calls k = some c)
    (htodo : c.todo = st :: rest) (hp : Performed s.world s.clock k c st o w' after) :
    Coherent (s.resume k c rest (w', after)) := by
  refine ⟨?_, ?_, ?_, ?_⟩
  · intro d r hd
    rw [Host.resume_config] at hd
    -- the record of before, or what the call makes of its copy
    rcases hp.record_source hd with hold | ⟨wr, rfl, -, rfl, -⟩
    · exact h.record d r hold
    · exact h.written hs hk htodo
  · intro j d hj
    rcases Host.resume_calls hj with ⟨-, hold⟩ | ⟨rfl, ⟨c', rfl, -, rfl⟩ | ⟨rfl, -, rfl⟩⟩
    · exact h.copy j d hold
    · exact (h.goOn hs hk htodo hp).1
    · exact h.copy j c hk
  · intro j d p hj hchild
    rcases Host.resume_calls hj with ⟨-, hold⟩ | ⟨rfl, ⟨c', rfl, -, rfl⟩ | ⟨rfl, -, rfl⟩⟩
    · exact h.child j d p hold hchild
    · exact (h.goOn hs hk htodo hp).2.1 p hchild
    · cases hchild
  · intro j d hj hmem
    rcases Host.resume_calls hj with ⟨-, hold⟩ | ⟨rfl, ⟨c', rfl, -, rfl⟩ | ⟨rfl, -, rfl⟩⟩
    · exact h.target j d hold hmem
    · exact (h.goOn hs hk htodo hp).2.2 hmem
    · cases List.mem_singleton.mp hmem

end

theorem Coherent.step {e : Event} (hs : Consistent s) (h : Coherent s) (he : s.step e = some t) :
    Coherent t := by
  cases Host.stepped he with
  | ran fresh => exact (h.of_dirs _).begin (coherent_idle (.inl rfl) rfl) (by simp [Fn.program])
  | createdAndRan fresh =>
      exact (h.of_dirs _).begin (coherent_idle (.inl rfl) rfl) (by simp [Fn.program])
  | starting found =>
      exact h.begin (h.record _ _ (hs.startable found).1) (by simp [Fn.program])
  | stopping found =>
      exact h.begin (h.record _ _ (hs.running found).1) fun _ => (hs.running found).2.2
  | adjusting found =>
      exact h.begin ((h.record _ _ (hs.running found).1).of_eq rfl rfl) (by simp [Fn.program])
  | refused => exact h
  | staged call todo performed => exact h.stage hs call todo (perform_performed performed)
  | moved moved => exact ⟨fun d r hd => h.record d r (moved.config ▸ hd), h.copy, h.child, h.target⟩
  | ticked => exact ⟨h.record, h.copy, h.child, h.target⟩

theorem Coherent.cutOff (h : Coherent s) (ks : List CallId) :
    Coherent { s with calls := fun k => if k ∈ ks then none else s.calls k } := by
  refine ⟨h.record, ?_, ?_, ?_⟩
  · exact fun k c hk => h.copy k c (of_cutOff hk)
  · exact fun k c p hk => h.child k c p (of_cutOff hk)
  · exact fun k c hk => h.target k c (of_cutOff hk)

end

namespace System

variable {s t : System}

/-- Nothing is running, and the records are coherent. -/
structure Starting (s : System) : Prop where
  idle : Idle s.host
  execs : ∀ x, s.execs x = none
  records : ∀ d r, s.host.world.config d = some r → CoherentRecord r

/-- Where nothing is running, the records are all there is. -/
theorem Starting.coherent (h : Starting s) : Coherent s.host := by
  refine ⟨h.records, ?_, ?_, ?_⟩
  · exact fun k c hk => (h.idle.nocall hk).elim
  · exact fun k c _ hk => (h.idle.nocall hk).elim
  · exact fun k c hk => (h.idle.nocall hk).elim

/-- Every step of the system keeps the records coherent. -/
theorem coherent_step {a : Happening} (hs : Consistent s.host) (h : Coherent s.host)
    (he : s.step a = some t) : Coherent t.host := by
  cases stepped he with
  | hosted free hstep => exact h.step hs hstep
  | crashed ks xs => exact h.cutOff ks
  | reaped hx orphan => exact ⟨h.record, h.copy, h.child, h.target⟩
  | appeared | vanished | begun | checked | ended | unchanged => exact h

/-- **The records are coherent** in every run, whatever crashes and whichever copies are
written back: the status of a record says whether it has the number of a process, and
`StopContainer` signals a number that is positive. -/
theorem records_coherent (hs : Starting s) (h : Reaches step Always s t) :
    RecordsCoherent t.host := by
  have inv : Consistent t.host ∧ Coherent t.host :=
    h.invariant (I := fun s => Consistent s.host ∧ Coherent s.host)
      ⟨hs.idle.wellFormed.consistent, hs.coherent⟩
      fun _ _ _ ⟨hs, hi⟩ _ he => ⟨consistent_step hs he, coherent_step hs hi he⟩
  refine ⟨fun d r hd => (inv.1.record d r hd).1, inv.2.record, fun k c hk hhead => ?_⟩
  obtain ⟨rest, htodo⟩ := List.head?_eq_some_iff.mp hhead
  exact inv.2.target k c hk (htodo ▸ List.mem_cons_self)

/-- A host without containers, on which nothing else runs. -/
def emptySystem : System where
  host := emptyHost
  others _ := false
  execs _ := none
  nextExec := 0

theorem emptySystem_starting : Starting emptySystem where
  idle := emptyHost_idle
  execs _ := rfl
  records d r hd := by cases hd

/-- A `gocker run` crashes while its container runs, and the container is stopped. -/
def crashed : List Happening :=
  (launching 0 "a" 100).map .host ++
    .crash [0] [] :: (.stopContainer "a" [] :: stages 1 2).map .host

/-- A `gocker run` is killed, its container is stopped, and the record says so while the process
still lives. -/
theorem records_coherent_crashed :
    ∃ t : System, t.host.calls 0 = none ∧
      (∃ x ∈ t.host.world.procs 100, x.alive) ∧
      (∃ r ∈ t.host.world.config "a", r.status = .stopped ∧ r.pid = 0) ∧ RecordsCoherent t.host :=
  ⟨outcome step Always emptySystem crashed, by decide +kernel, by decide +kernel,
    by decide +kernel, records_coherent emptySystem_starting (reaches_outcome ..)⟩

end System

end Gocker.Container
