import Gocker.Container.Recovery
import Gocker.Network.IpamProcesses

/-!
# The operations on the allocator's files

In the host an allocation or a release is one step on one map.  In the program it is a sequence
of file operations, `loadIPAllocationState` and `saveIPAllocationState`, on a file that all
processes share.  `ipamMu` orders the calls of one process only: `Start` and `CreateAndRun` run
in the daemon, and each `gocker run` and `gocker stop` is a process of its own.

A `Site` is an installation together with the files and the calls under way on them
(`Network.Shared`).  Its moves are

* an act of the installation that is no stage of the allocator (`Move.act`);
* a call that comes to such a stage takes the lock of its process (`Move.enter`);
* the next file operation of a call behind the lock (`Move.file`).  The last one ends the stage,
  and the call goes on with the result, or with the error, as `Call.returned` says.

### What a site has to do with the installation

The map in the world of `Site.installation` is not used; `Site.view` puts there what the
allocation file says.  Seen so, a move amounts to one act of the installation or to none
(`Site.amounts`): a stage of the allocator takes place when its last file operation does.

* `Site.projection`.  Where no call is disturbed between its load and its rename, runs of the
  site are seen as runs of the installation.  So what holds of all runs there holds here, with
  the condition `Site.Undisturbed` in addition to its own.
* `Site.Quiet.lift` (in `Container/Serial.lean`).  The runs of the installation are runs of the
  site: each stage of the allocator from its lock to its end, before anything else moves.

The first is false without its condition: two processes that both load before either of them
saves are given the same address, and the installation has no such run.

### The daemon

`CreateAndRun` does not use the allocator, so of the calls that share the daemon's lock only
those of `Start` ever wait for each other.
-/

namespace Gocker.Container

open Machine Network

/-! ## Another map in the allocator -/

/-- The world with another map, and everything else as it is; -/
def World.withMap (w : World) (m : ContainerToIP) : World := { w with ipam := m }

/-- the host, -/
def Host.withMap (s : Host) (m : ContainerToIP) : Host := { s with world := s.world.withMap m }

/-- the system, -/
def System.withMap (s : System) (m : ContainerToIP) : System :=
  { s with host := s.host.withMap m }

/-- and the installation. -/
def Installation.withMap (s : Installation) (m : ContainerToIP) : Installation :=
  { s with system := s.system.withMap m }

/-- The stages of the allocator. -/
def Stage.allocates : Stage → Bool
  | .allocateIP | .releaseIP => true
  | _ => false

section
variable {m : ContainerToIP}

@[simp] theorem World.withMap_procs (w : World) : (w.withMap m).procs = w.procs := rfl

@[simp] theorem World.withMap_cgroups (w : World) : (w.withMap m).cgroups = w.cgroups := rfl

@[simp] theorem World.withMap_cgroupPath (w : World) (info : ContainerInfo) :
    (w.withMap m).cgroupPath info = w.cgroupPath info := rfl

@[simp] theorem Host.withMap_world (s : Host) : (s.withMap m).world = s.world.withMap m := rfl

@[simp] theorem Host.withMap_calls (s : Host) : (s.withMap m).calls = s.calls := rfl

@[simp] theorem Host.withMap_dirs (s : Host) : (s.withMap m).dirs = s.dirs := rfl

@[simp] theorem Host.withMap_startable (s : Host) (skip : List ContainerID) (identifier : String) :
    (s.withMap m).startable skip identifier = s.startable skip identifier := rfl

@[simp] theorem Host.withMap_running (s : Host) (skip : List ContainerID) (identifier : String) :
    (s.withMap m).running skip identifier = s.running skip identifier := rfl

@[simp] theorem Host.withMap_findContainerInfo (s : Host) (skip : List ContainerID)
    (identifier : String) :
    (s.withMap m).findContainerInfo skip identifier = s.findContainerInfo skip identifier := rfl

@[simp] theorem System.withMap_host (s : System) : (s.withMap m).host = s.host.withMap m := rfl

@[simp] theorem System.withMap_others (s : System) : (s.withMap m).others = s.others := rfl

@[simp] theorem System.withMap_execs (s : System) : (s.withMap m).execs = s.execs := rfl

@[simp] theorem System.withMap_present (s : System) (p : PID) :
    (s.withMap m).Present p ↔ s.Present p := Iff.rfl

theorem perform_withMap (w : World) (now : Time) (k : CallId) (c : Call) {st : Stage}
    (hst : st.allocates = false) (o : Outcome) :
    perform (w.withMap m) now k c st o =
      (perform w now k c st o).map fun p => (p.1.withMap m, p.2) := by
  cases st with
  | allocateIP | releaseIP => cases hst
  | write wr =>
      cases o with
      | ok | garbled | child => rfl
      | fails n => cases n <;> rfl
  | launch =>
      cases o with
      | child p =>
          by_cases hp : 0 < p ∧ w.procs p = none
          · simp only [perform, World.withMap_procs, hp, and_self, if_true]
            rfl
          · simp only [perform, World.withMap_procs, hp, if_false]
            rfl
      | ok | garbled | fails => rfl
  | setupCgroup =>
      cases o with
      | ok =>
          cases hc : c.child with
          | none => simp [perform, hc]
          | some p =>
              simp [perform, hc]
              rfl
      | fails n => cases n <;> rfl
      | garbled | child => rfl
  | setupVeth =>
      cases o with
      | ok => cases hc : c.child <;> simp [perform, hc]
      | garbled | child | fails => rfl
  | encode =>
      cases o with
      | ok =>
          cases hc : c.child with
          | none => simp [perform, hc]
          | some p =>
              simp [perform, hc]
              rfl
      | garbled | child | fails => rfl
  | wait =>
      cases o with
      | ok =>
          cases hc : c.child with
          | none => simp [perform, hc]
          | some p =>
              cases hx : w.procs p with
              | none => simp [perform, hc, hx, World.withMap]
              | some x =>
                  cases ha : x.alive <;> simp [perform, hc, hx, ha, World.withMap, World.setProc]
      | garbled | child | fails => rfl
  | cleanupCgroup | kill => cases o <;> rfl
  | setResourceLimits =>
      cases o with
      | ok | fails =>
          simp only [perform, World.withMap_cgroupPath]
          cases w.cgroupPath c.info <;> rfl
      | garbled | child => rfl

/-- What becomes of a call does not depend on the map either. -/
theorem Host.resume_withMap (s : Host) (k : CallId) (c : Call) (rest : List Stage) (w : World)
    (after : After) (m' : ContainerToIP) :
    (s.withMap m).resume k c rest (w.withMap m', after) =
      (s.resume k c rest (w, after)).withMap m' := by
  cases after with
  | goOn c' => rfl
  | giveUp => cases hc : c.child <;> simp [Host.resume, hc, World.kill] <;> rfl

/-- The event is a stage of the allocator. -/
def Host.Uses (s : Host) : Event → Prop
  | .step k _ => ∃ c ∈ s.calls k, ∃ st ∈ c.todo.head?, st.allocates = true
  | _ => False

instance (s : Host) : (e : Event) → Decidable (s.Uses e)
  | .step k _ =>
      inferInstanceAs (Decidable (∃ c ∈ s.calls k, ∃ st ∈ c.todo.head?, st.allocates = true))
  | .runContainer _ _ | .createAndRun _ _ | .start _ _ | .stopContainer _ _
  | .adjustResourceLimits _ _ _ | .init _ _ | .exit _ | .tick _ => .isFalse id

theorem initStep_withMap (w : World) (p : PID) (o : Outcome) :
    initStep (w.withMap m) p o = (initStep w p o).map fun w => w.withMap m := by
  unfold initStep
  rw [World.withMap_procs]
  cases w.procs p with
  | none => rfl
  | some x =>
      rcases x with ⟨container, launcher, alive, pipe, todo⟩
      cases alive with
      | false => rfl
      | true =>
          cases todo with
          | nil => cases pipe <;> rfl
          | cons st rest =>
              cases st with
              | configureContainerNetwork =>
                  cases pipe with
                  | none => cases o <;> rfl
                  | some req =>
                      cases o with
                      | ok => by_cases hip : req.ipAddress = "" <;> simp [hip] <;> rfl
                      | child | garbled | fails => rfl
              | decode | sethostname | setupRootfs | setupDNS | initCommand | lookPath
              | openOutputLog | startMonitor | exec => cases pipe <;> cases o <;> rfl

/-- An event that is no stage of the allocator does the same whatever the map is: an event of the
host, of the system, or an act of the installation. -/
theorem Host.step_withMap (s : Host) {e : Event} (he : ¬ s.Uses e) :
    (s.withMap m).step e = (s.step e).map fun t => t.withMap m := by
  cases e with
  | runContainer req id | createAndRun req id =>
      by_cases hid : id ∈ s.dirs
      · simp only [Host.step, Host.withMap_dirs, hid, if_true]
        rfl
      · simp only [Host.step, Host.withMap_dirs, hid, if_false]
        rfl
  | start identifier skip =>
      simp only [Host.step, Host.withMap_startable]
      cases s.startable skip identifier <;> rfl
  | stopContainer identifier skip =>
      simp only [Host.step, Host.withMap_running]
      cases s.running skip identifier <;> rfl
  | adjustResourceLimits identifier limits skip =>
      simp only [Host.step, Host.withMap_running]
      cases s.running skip identifier <;> rfl
  | step k o =>
      simp only [Host.step, Host.withMap_calls]
      cases hk : s.calls k with
      | none => rfl
      | some c =>
          simp only [Option.bind_some]
          cases htodo : c.todo with
          | nil => rfl
          | cons st rest =>
              have hst : st.allocates = false := by
                by_contra hst
                exact he ⟨c, hk, st, by rw [htodo]; rfl, Bool.not_eq_false _ ▸ hst⟩
              have hperform : perform (s.withMap m).world (s.withMap m).clock k c st o = _ :=
                perform_withMap s.world s.clock k c hst o
              simp only [hperform, Option.map_map]
              congr 1
              funext p
              exact Host.resume_withMap s k c rest p.1 p.2 m
  | init p o =>
      simp only [Host.step]
      rw [show initStep (s.withMap m).world p o = _ from initStep_withMap s.world p o,
        Option.map_map, Option.map_map]
      rfl
  | exit p =>
      simp only [Host.step]
      rw [Host.withMap_world, World.withMap_procs]
      split_ifs <;> rfl
  | tick now => rfl

/-- The act is a stage of the allocator. -/
def Installation.Uses (s : Installation) : Act → Prop
  | .system (.host e) => s.system.host.Uses e
  | _ => False

instance (s : Installation) (a : Act) : Decidable (s.Uses a) := by
  unfold Installation.Uses
  split <;> infer_instance

theorem System.step_withMap (s : System) {a : Happening} (ha : ∀ e, a = .host e → ¬ s.host.Uses e) :
    (s.withMap m).step a = (s.step a).map fun t => t.withMap m := by
  cases a with
  | host e =>
      simp only [System.step, System.withMap_others, System.withMap_host,
        Host.step_withMap s.host (ha e rfl)]
      split_ifs
      · rw [Option.map_map, Option.map_map]
        rfl
      · rfl
  | crash | vanish => rfl
  | reap p =>
      simp only [System.step]
      rw [System.withMap_host, Host.withMap_world, World.withMap_procs]
      cases s.host.world.procs p with
      | none => rfl
      | some x =>
          simp only []
          rw [Host.withMap_calls]
          split_ifs <;> rfl
  | appear p =>
      simp only [System.step]
      rw [System.withMap_host, Host.withMap_world, World.withMap_procs]
      split_ifs <;> rfl
  | exec identifier skip =>
      simp only [System.step, System.withMap_host, Host.withMap_findContainerInfo]
      cases s.host.findContainerInfo skip identifier with
      | none => rfl
      | some info =>
          simp only []
          split_ifs <;> rfl
  | check x =>
      simp only [System.step, System.withMap_execs]
      cases s.execs x with
      | none => rfl
      | some e =>
          rcases e with ⟨container, pid, stage⟩
          cases stage with
          | entering => rfl
          | checking =>
              simp only [System.withMap_present]
              split_ifs <;> rfl
  | enter x again =>
      simp only [System.step, System.withMap_execs]
      cases s.execs x with
      | none => rfl
      | some e =>
          rcases e with ⟨container, pid, stage⟩
          cases stage <;> cases again <;> rfl

/-- Whether a record can be written does not depend on the map, and neither does what comes on the
account. -/
theorem Installation.writable_withMap (s : Installation) (a : Happening) :
    (s.withMap m).Writable a ↔ s.Writable a := by
  cases a with
  | host e => cases e <;> rfl
  | crash | reap | appear | vanish | exec | check | enter => rfl

theorem Installation.lostAfter_withMap (s : Installation) (a : Happening) :
    (s.withMap m).lostAfter a = s.lostAfter a := by
  cases a with
  | host e => cases e <;> rfl
  | crash | reap | appear | vanish | exec | check | enter => rfl

theorem World.removed_withMap (w : World) (r : Removal) (o : Outcome) :
    (w.withMap m).removed r o = (w.removed r o).map fun w => w.withMap m := by
  unfold World.removed
  rw [World.withMap_cgroups]
  cases o with
  | ok => by_cases hb : w.cgroups.Busy r.info.id <;> simp [hb, World.withMap]
  | fails n =>
      by_cases hb : w.cgroups.Busy r.info.id <;>
        rcases n with _ | _ | n <;> simp [hb, World.withMap]
  | child | garbled => rfl

/-- **Only the stages of the allocator look at the map.** -/
theorem Installation.step_withMap (s : Installation) {a : Act} (ha : ¬ s.Uses a) :
    (s.withMap m).step a = (s.step a).map fun t => t.withMap m := by
  cases a with
  | system a =>
      have hstep : (s.withMap m).system.step a = _ :=
        System.step_withMap s.system fun e he => by
          subst he
          exact ha
      simp only [Installation.step, s.writable_withMap, s.lostAfter_withMap, hstep]
      split_ifs
      · rw [Option.map_map, Option.map_map]
        rfl
      · rfl
  | remove id =>
      simp only [Installation.step]
      rw [show (s.withMap m).system.host.world.config = s.system.host.world.config from rfl]
      cases s.system.host.world.config id with
      | none => rfl
      | some info =>
          simp only []
          split_ifs <;> rfl
  | finish x o =>
      simp only [Installation.step]
      rw [show (s.withMap m).removals = s.removals from rfl]
      cases s.removals x with
      | none => rfl
      | some r =>
          have hremoved : (s.withMap m).system.host.world.removed r o = _ :=
            World.removed_withMap s.system.host.world r o
          simp only [Option.bind_some, hremoved, Option.map_map]
          rfl

end

/-- The structure of a host says nothing of the map. -/
theorem Consistent.withMap {s : Host} (h : Consistent s) (m : ContainerToIP) :
    Consistent (s.withMap m) where
  record := h.record
  call k c hk := by
    have hc := h.call k c hk
    exact ⟨hc.lt, hc.dir, hc.info, hc.ne, hc.program, hc.child, hc.proc, hc.request, hc.release⟩

theorem Consistent.of_withMap {s : Host} {m : ContainerToIP} (h : Consistent (s.withMap m)) :
    Consistent s :=
  h.withMap s.world.ipam

/-! ## Sites -/

/-- The operation of the allocator that is the next stage of a call. -/
def Call.operation (c : Call) : Option Network.Op :=
  match c.todo with
  | .allocateIP :: _ => some (.allocate c.container c.desiredIP)
  | .releaseIP :: _ => some (.release c.container)
  | _ => none

/-- How the call goes on after a stage of the allocator that has returned: a failed release is
only logged. -/
def Call.returned (c : Call) : Stage → Except IpamError (Option String) → After
  | .releaseIP, _ => .goOn { c with allocatedIP := none }
  | _, .ok ip => .goOn (c.allocated (ip.getD ""))
  | _, .error _ => .giveUp

/-- How the stage went.  An error that is decided on is no failure of the files. -/
def stageOutcome : Except IpamError (Option String) → Outcome
  | .ok _ => .ok
  | .error err => if err.isDecision then .ok else .fails 0

/-- The functions that the daemon runs. -/
def Fn.inDaemon : Fn → Bool
  | .createAndRun | .start => true
  | .runContainer | .stopContainer | .adjustResourceLimits => false

/-- The calls that are cut off are cut off in the allocator too. -/
def sharedAfter (shared : Shared) : Act → Shared
  | .system (.crash ks _) =>
      { shared with call := fun k => if k ∈ ks then none else shared.call k }
  | _ => shared

/-- The stage of the call `k` has returned. -/
def Installation.returned (s : Installation) (k : CallId) (r : Except IpamError (Option String)) :
    Option Installation :=
  (s.system.host.calls k).bind fun c =>
    match c.todo with
    | [] => none
    | st :: rest => some { s with
        system := { s.system with
          host := s.system.host.resume k c rest (s.system.host.world, c.returned st r) }
        lost := s.lostAfter (.host (.step k (stageOutcome r))) }

/-- An installation, and the allocation file with the calls that are working on it.  A call has
the same number in both. -/
structure Site where
  installation : Installation
  shared : Shared

/-- A move: an act that is no stage of the allocator, the taking of the lock, or a file
operation and how it went. -/
inductive Move where
  | act (a : Act)
  | enter (k : CallId)
  | file (k : CallId) (o : Network.Outcome)

namespace Site

/-- The host at the site. -/
abbrev host (s : Site) : Host := s.installation.system.host

/-- What the allocation file says. -/
def map (s : Site) : ContainerToIP := (loadIPAllocationState s.shared.files).getD ∅

/-- The installation, with the map that the allocation file holds. -/
def view (s : Site) : Installation := s.installation.withMap s.map

/-- The call runs in the daemon, and another one there has the lock. -/
def Locked (s : Site) (c : Call) : Prop :=
  c.fn.inDaemon = true ∧ ∃ j < s.host.nextCall, ∃ d ∈ s.host.calls j,
    d.fn.inDaemon = true ∧ (s.shared.call j).isSome = true

instance (s : Site) (c : Call) : Decidable (s.Locked c) := by
  unfold Locked
  infer_instance

/-- One move.  A stage of the allocator is no act: it begins with the lock, goes on with file
operations, and ends when the last of them has returned. -/
def step (s : Site) : Move → Option Site
  | .act a =>
      if s.installation.Uses a then none
      else (s.installation.step a).map fun i => ⟨i, sharedAfter s.shared a⟩
  | .enter k =>
      (s.host.calls k).bind fun c =>
        c.operation.bind fun op =>
          if s.Locked c then none
          else (Network.step s.shared (.begin k op)).map fun shared => ⟨s.installation, shared⟩
  | .file k o =>
      (Network.step s.shared (.step k o)).bind fun shared =>
        match shared.call k, shared.returned k with
        | none, some r => (s.installation.returned k r).map fun i => ⟨i, shared⟩
        | _, _ => some ⟨s.installation, shared⟩

/-- The act that a move amounts to, if it ends a stage or is no move of the allocator. -/
def amounts (s : Site) : Move → Option Act
  | .act a => some a
  | .enter _ => none
  | .file k o =>
      (Network.step s.shared (.step k o)).bind fun shared =>
        match shared.call k with
        | some _ => none
        | none => (shared.returned k).map fun r => .system (.host (.step k (stageOutcome r)))

/-- A call finds the files as it left and loaded them. -/
def Undisturbed (s : Site) : Move → Prop
  | .file k o => Network.Undisturbed s.shared (.step k o)
  | _ => True

instance (s : Site) (mv : Move) : Decidable (s.Undisturbed mv) := by
  cases mv <;> unfold Undisturbed <;> infer_instance

/-- The file can be loaded, the calls in the allocator save what they have decided on, and they
are at the stages of the host's calls. -/
structure Tied (s : Site) : Prop where
  consistent : Consistent s.host
  load : loadIPAllocationState s.shared.files = some s.map
  distinct : s.shared.files.Distinct
  decided : ∀ k c, s.shared.call k = some c → c.Decided
  operation : ∀ k c, s.shared.call k = some c →
    ∃ d, s.host.calls k = some d ∧ d.operation = some c.op

end Site

/-! ## One stage of the allocator -/

section
variable {c : Call} {st : Stage} {rest : List Stage} {op : Network.Op} {m m' : ContainerToIP}
  {w : World} {now : Time} {k : CallId}

/-- Only two stages are operations of the allocator. -/
theorem Call.operation_eq_some (hop : c.operation = some op) (htodo : c.todo = st :: rest) :
    st = .allocateIP ∧ op = .allocate c.container c.desiredIP ∨
      st = .releaseIP ∧ op = .release c.container := by
  unfold Call.operation at hop
  rw [htodo] at hop
  split at hop
  · next heq =>
      obtain ⟨rfl, -⟩ := List.cons.inj heq
      exact .inl ⟨rfl, (Option.some.inj hop).symm⟩
  · next heq =>
      obtain ⟨rfl, -⟩ := List.cons.inj heq
      exact .inr ⟨rfl, (Option.some.inj hop).symm⟩
  · cases hop

theorem Call.exists_todo_of_operation (hop : c.operation = some op) :
    ∃ st rest, c.todo = st :: rest := by
  cases htodo : c.todo with
  | nil => simp [Call.operation, htodo] at hop
  | cons st rest => exact ⟨st, rest, rfl⟩

/-- The stage does what its operation decides on the map. -/
theorem perform_operation (hop : c.operation = some op) (htodo : c.todo = st :: rest)
    {r : Except IpamError (Option String)} (hout : (op.decide m).outcome m = (r, m')) :
    perform (w.withMap m) now k c st .ok = some (w.withMap m', c.returned st r) := by
  rcases Call.operation_eq_some hop htodo with ⟨rfl, rfl⟩ | ⟨rfl, rfl⟩
  · simp only [Network.Op.decide, Decision.outcome_map] at hout
    obtain ⟨rfl, rfl⟩ := Prod.mk.inj hout
    simp only [perform, World.withMap]
    cases allocateContainerIP m c.container c.desiredIP <;> rfl
  · simp only [Network.Op.decide, releaseContainerIP] at hout
    split_ifs at hout with hid
    · obtain ⟨rfl, rfl⟩ := Prod.mk.inj hout
      rfl
    · obtain ⟨rfl, rfl⟩ := Prod.mk.inj hout
      have herase : m.erase c.container = m := by
        apply Finmap.ext_lookup
        intro i
        rcases eq_or_ne i c.container with rfl | hne
        · rw [Finmap.lookup_erase, Finmap.lookup_eq_none.mpr hid]
        · rw [Finmap.lookup_erase_ne hne]
      show some (({ w with ipam := m.erase c.container } : World), _) = _
      rw [herase]
      rfl

/-- A stage whose files fail leaves the map alone. -/
theorem perform_operation_fails (hop : c.operation = some op) (htodo : c.todo = st :: rest)
    (n : ℕ) (err : IpamError) :
    perform w now k c st (.fails n) = some (w, c.returned st (.error err)) := by
  rcases Call.operation_eq_some hop htodo with ⟨rfl, -⟩ | ⟨rfl, -⟩ <;> rfl

/-- **A stage of the allocator takes place when its last file operation does**: it takes the map
of the file before to the map of the file after, and the call goes on with what was returned. -/
theorem perform_amounts {shared shared' : Shared} (w : World) (now : Time)
    (hop : c.operation = some op) (htodo : c.todo = st :: rest)
    (h : Amounts shared k op m shared') (hcall : shared'.call k = none) :
    ∃ r m', shared'.returned k = some r ∧ loadIPAllocationState shared'.files = some m' ∧
      perform (w.withMap m) now k c st (stageOutcome r) = some (w.withMap m', c.returned st r) := by
  cases h with
  | going call => cases call.symm.trans hcall
  | @failed err herr _ load returned =>
      refine ⟨_, m, returned, load, ?_⟩
      rw [stageOutcome, if_neg (by simp [herr])]
      exact perform_operation_fails hop htodo 0 err
  | @refused err fail _ load returned =>
      refine ⟨_, m, returned, load, ?_⟩
      rw [stageOutcome, if_pos (Op.decide_fail fail)]
      exact perform_operation hop htodo (by rw [fail]; rfl)
  | finished outcome _ load returned =>
      exact ⟨_, _, returned, load, perform_operation hop htodo outcome⟩

end

namespace Installation

variable {s t : Installation} {a : Act} {k : CallId} {c : Call}

/-- A call at a stage of the allocator stays there while other things happen. -/
theorem call_kept (hs : Consistent s.system.host) (hk : s.system.host.calls k = some c)
    (hop : (c.operation).isSome) (ha : ¬ s.Uses a)
    (hcrash : ∀ ks xs, a = .system (.crash ks xs) → k ∉ ks) (he : s.step a = some t) :
    t.system.host.calls k = some c := by
  cases stepped he with
  | refused | read | finished => exact hk
  | @moved a system writable happened =>
      show system.host.calls k = some c
      cases System.stepped happened with
      | @hosted e host free hstep =>
          show host.calls k = some c
          cases Host.stepped hstep with
          | ran | createdAndRan | starting | stopping | adjusting =>
              exact (WellFormed.begin_calls_ne (hs.call k c hk).lt.ne).trans hk
          | refused | moved | ticked => exact hk
          | @staged j o d st rest w after call todo performed =>
              refine (Host.resume_calls_ne ?_).trans hk
              rintro rfl
              obtain rfl := Option.some.inj (hk.symm.trans call)
              -- the call itself can only take its stage of the allocator
              obtain ⟨op, hop⟩ := Option.isSome_iff_exists.mp hop
              refine ha ⟨c, hk, st, by rw [todo]; rfl, ?_⟩
              rcases Call.operation_eq_some hop todo with ⟨rfl, -⟩ | ⟨rfl, -⟩ <;> rfl
      | crashed ks xs => exact (if_neg (hcrash ks xs rfl)).trans hk
      | reaped | appeared | vanished | begun | checked | ended | unchanged => exact hk

end Installation

/-! ## Runs of a site, seen as runs of its installation -/

namespace Site

variable {s t : Site}

/-- A call that is in the allocator after an act was there before, and has not been cut off. -/
theorem mem_sharedAfter {shared : Shared} {a : Act} {k : CallId} {c : Network.Call}
    (h : (sharedAfter shared a).call k = some c) :
    shared.call k = some c ∧ ∀ ks xs, a = .system (.crash ks xs) → k ∉ ks := by
  unfold sharedAfter at h
  split at h
  · next ks xs =>
      have h : (if k ∈ ks then none else shared.call k) = some c := h
      split_ifs at h with hk
      refine ⟨h, fun ks' xs' heq => ?_⟩
      cases heq
      exact hk
  · next hne => exact ⟨h, fun ks xs heq => absurd heq (hne ks xs)⟩

@[simp] theorem sharedAfter_files (shared : Shared) (a : Act) :
    (sharedAfter shared a).files = shared.files := by
  unfold sharedAfter
  split <;> rfl

theorem map_of_load {m : ContainerToIP} (h : loadIPAllocationState s.shared.files = some m) :
    s.map = m := by
  rw [map, h, Option.getD_some]

/-- What a move of a site amounts to, where the invariant holds. -/
def Seen (s t : Site) (mv : Move) : Prop :=
  match s.amounts mv with
  | none => t.view = s.view
  | some a => s.view.step a = some t.view

theorem Tied.act (h : s.Tied) {a : Act} (he : s.step (.act a) = some t) :
    t.Tied ∧ Seen s t (.act a) := by
  simp only [step] at he
  split_ifs at he with huses
  obtain ⟨i, hi, rfl⟩ := Option.map_eq_some_iff.mp he
  have hmap : map ⟨i, sharedAfter s.shared a⟩ = s.map := by simp [map]
  refine ⟨⟨Installation.consistent_step h.consistent hi, ?_, ?_, ?_, ?_⟩, ?_⟩
  · rw [hmap, sharedAfter_files]
    exact h.load
  · rw [sharedAfter_files]
    exact h.distinct
  · exact fun k c hk => h.decided k c (mem_sharedAfter hk).1
  · intro k c hk
    obtain ⟨hk, hcrash⟩ := mem_sharedAfter hk
    obtain ⟨d, hd, hop⟩ := h.operation k c hk
    exact ⟨d, Installation.call_kept h.consistent hd (by rw [hop]; rfl) huses hcrash hi, hop⟩
  · show s.view.step a = some (view _)
    rw [view, view, hmap, Installation.step_withMap _ huses, hi]
    rfl

theorem Tied.enter (h : s.Tied) {k : CallId} (he : s.step (.enter k) = some t) :
    t.Tied ∧ Seen s t (.enter k) := by
  obtain ⟨c, hk, he⟩ := Option.bind_eq_some_iff.mp he
  obtain ⟨op, hop, he⟩ := Option.bind_eq_some_iff.mp he
  split_ifs at he with hlocked
  obtain ⟨shared, hshared, rfl⟩ := Option.map_eq_some_iff.mp he
  simp only [Network.step] at hshared
  split at hshared
  · obtain rfl := Option.some.inj hshared
    refine ⟨⟨h.consistent, h.load, h.distinct, ?_, ?_⟩, rfl⟩
    · refine decided_update h.decided fun c hc => ?_
      obtain rfl := Option.some.inj hc
      trivial
    · intro j c' hj
      rcases of_update_eq_some hj with ⟨rfl, hnew⟩ | ⟨-, hold⟩
      · obtain rfl := Option.some.inj hnew
        exact ⟨c, hk, hop⟩
      · exact h.operation j c' hold
  · cases hshared

/-- A file operation after which the call goes on amounts to nothing. -/
theorem amounts_of_call {k : CallId} {o : Network.Outcome} {shared : Shared} {c : Network.Call}
    (hstep : Network.step s.shared (.step k o) = some shared) (hcall : shared.call k = some c) :
    s.amounts (.file k o) = none := by
  simp only [amounts, hstep, Option.bind_some, hcall]

/-- A file operation with which the call returns amounts to the stage. -/
theorem amounts_of_returned {k : CallId} {o : Network.Outcome} {shared : Shared}
    {r : Except IpamError (Option String)}
    (hstep : Network.step s.shared (.step k o) = some shared) (hcall : shared.call k = none)
    (hr : shared.returned k = some r) :
    s.amounts (.file k o) = some (.system (.host (.step k (stageOutcome r)))) := by
  simp only [amounts, hstep, Option.bind_some, hcall, hr, Option.map_some]

theorem of_file {k : CallId} {o : Network.Outcome} (he : s.step (.file k o) = some t) :
    ∃ op stage shared, s.shared.call k = some ⟨op, stage⟩ ∧
      Advanced s.shared k op stage o shared ∧
      Network.step s.shared (.step k o) = some shared ∧
      ((∃ c, shared.call k = some c) ∧ t = ⟨s.installation, shared⟩ ∨
        shared.call k = none ∧ (shared.returned k = none ∧ t = ⟨s.installation, shared⟩ ∨
          ∃ r i, shared.returned k = some r ∧ s.installation.returned k r = some i ∧
            t = ⟨i, shared⟩)) := by
  obtain ⟨shared, hstep, he⟩ := Option.bind_eq_some_iff.mp he
  obtain ⟨⟨op, stage⟩, hcall, hadv⟩ := Option.bind_eq_some_iff.mp hstep
  refine ⟨op, stage, shared, hcall, advance_advanced hadv, hstep, ?_⟩
  cases hk : shared.call k with
  | some c =>
      rw [hk] at he
      exact .inl ⟨⟨c, rfl⟩, (Option.some.inj he).symm⟩
  | none =>
      rw [hk] at he
      cases hr : shared.returned k with
      | none =>
          rw [hr] at he
          exact .inr ⟨rfl, .inl ⟨rfl, (Option.some.inj he).symm⟩⟩
      | some r =>
          rw [hr] at he
          obtain ⟨i, hi, rfl⟩ := Option.map_eq_some_iff.mp he
          exact .inr ⟨rfl, .inr ⟨r, i, rfl, hi, rfl⟩⟩

/-- A stage of the allocator launches no process. -/
theorem stageOutcome_ne_child (r : Except IpamError (Option String)) (p : PID) :
    stageOutcome r ≠ .child p := by
  cases r with
  | ok ip => nofun
  | error err =>
      simp only [stageOutcome]
      split <;> nofun

/-- A stage that has returned, seen in the installation. -/
theorem view_returned {k : CallId} {c : Call} {st : Stage} {rest : List Stage}
    {op : Network.Op} {r : Except IpamError (Option String)} {i : Installation} {shared : Shared}
    {m : ContainerToIP} (hk : s.host.calls k = some c) (htodo : c.todo = st :: rest)
    (hop : c.operation = some op) (hi : s.installation.returned k r = some i)
    (hload : loadIPAllocationState shared.files = some m)
    (hp : perform (s.host.world.withMap s.map) s.host.clock k c st (stageOutcome r) =
      some (s.host.world.withMap m, c.returned st r)) :
    s.view.step (.system (.host (.step k (stageOutcome r)))) = some (view ⟨i, shared⟩) := by
  have hwrite : ¬ st.isWrite = true := by
    rcases Call.operation_eq_some hop htodo with ⟨rfl, -⟩ | ⟨rfl, -⟩ <;> nofun
  have hstep := Installation.step_of_stage (s := s.view) hk htodo hp
    (fun p hp => absurd hp (stageOutcome_ne_child r p)) fun _ hw => absurd hw hwrite
  have hview : view ⟨i, shared⟩ = i.withMap m := by
    rw [view, map_of_load hload]
  have hresume : s.view.system.host.resume k c rest (s.host.world.withMap m, c.returned st r) =
      (s.host.resume k c rest (s.host.world, c.returned st r)).withMap m :=
    Host.resume_withMap ..
  have hlost : s.view.lostAfter (.host (.step k (stageOutcome r))) = s.installation.lostAfter _ :=
    Installation.lostAfter_withMap ..
  rw [hstep, hresume, hlost, hview]
  simp only [Installation.returned, hk, Option.bind_some, htodo, Option.some.injEq] at hi
  subst hi
  rfl

/-- A file operation is seen as the stage if it is the last one, and not at all otherwise. -/
theorem Tied.file (h : s.Tied) {k : CallId} {o : Network.Outcome} (hC : s.Undisturbed (.file k o))
    (he : s.step (.file k o) = some t) : t.Tied ∧ Seen s t (.file k o) := by
  obtain ⟨op, stage, shared, hcall, hadv, hstep, hcases⟩ := of_file he
  obtain ⟨hamounts, hdistinct⟩ :=
    hadv.amounts h.distinct h.load (h.decided k _ hcall) (hC _ hcall)
  obtain ⟨c, hk, hop⟩ := h.operation k _ hcall
  obtain ⟨st, rest, htodo⟩ := Call.exists_todo_of_operation hop
  have others : ∀ {j d}, j ≠ k → shared.call j = some d → s.shared.call j = some d :=
    fun hne hd => (hadv.others hne).1.symm.trans hd
  rcases hcases with ⟨⟨c', hc'⟩, rfl⟩ | ⟨hnone, hreturned⟩
  · cases hamounts with
    | failed _ call | refused _ call | finished _ call => cases call.symm.trans hc'
    | going call hdecided load =>
        refine ⟨⟨h.consistent, ?_, hdistinct, fun j d hj => ?_, fun j d hj => ?_⟩, ?_⟩
        · rw [map_of_load (s := ⟨_, shared⟩) load]
          exact load
        · rcases eq_or_ne j k with rfl | hne
          · obtain rfl := Option.some.inj (call.symm.trans hj)
            exact hdecided
          · exact h.decided j d (others hne hj)
        · rcases eq_or_ne j k with rfl | hne
          · obtain rfl := Option.some.inj (call.symm.trans hj)
            exact ⟨c, hk, hop⟩
          · exact h.operation j d (others hne hj)
        · rw [Seen, amounts_of_call hstep hc']
          show view _ = s.view
          rw [view, map_of_load (s := ⟨_, shared⟩) load]
          rfl
  · obtain ⟨r, m, hr, hload, hperform⟩ :=
      perform_amounts s.host.world s.host.clock hop htodo hamounts hnone
    rcases hreturned with ⟨hno, -⟩ | ⟨r', i, hr', hi, rfl⟩
    · cases hr.symm.trans hno
    · obtain rfl := Option.some.inj (hr.symm.trans hr')
      have hseen := view_returned hk htodo hop hi hload hperform
      refine ⟨⟨?_, ?_, hdistinct, fun j d hj => ?_, fun j d hj => ?_⟩, ?_⟩
      · exact (Installation.consistent_step (h.consistent.withMap s.map) hseen).of_withMap
      · rw [map_of_load (s := ⟨i, shared⟩) hload]
        exact hload
      · rcases eq_or_ne j k with rfl | hne
        · cases hnone.symm.trans hj
        · exact h.decided j d (others hne hj)
      · rcases eq_or_ne j k with rfl | hne
        · cases hnone.symm.trans hj
        · obtain ⟨e, hcalled, hope⟩ := h.operation j d (others hne hj)
          refine ⟨e, ?_, hope⟩
          simp only [Installation.returned, hk, Option.bind_some, htodo, Option.some.injEq] at hi
          subst hi
          exact (Host.resume_calls_ne hne).trans hcalled
      · rw [Seen, amounts_of_returned hstep hnone hr]
        exact hseen

/-- **A move is seen as one act or as none**, where the file is not disturbed. -/
theorem Tied.step (h : s.Tied) {mv : Move} (hC : s.Undisturbed mv) (he : s.step mv = some t) :
    t.Tied ∧ Seen s t mv := by
  cases mv with
  | act a => exact h.act he
  | enter k => exact h.enter he
  | file k o => exact h.file hC he

/-- The move finds the files undisturbed, and the act that it amounts to meets the guard. -/
def Guarded (C : Installation → Act → Prop) (s : Site) (mv : Move) : Prop :=
  s.Undisturbed mv ∧ ∀ a ∈ s.amounts mv, C s.view a

instance (C : Installation → Act → Prop) [∀ s a, Decidable (C s a)] (s : Site) (mv : Move) :
    Decidable (s.Guarded C mv) :=
  inferInstanceAs (Decidable (_ ∧ _))

/-- **What holds of the runs of the installation holds of those of a site** where no call of the
allocator is disturbed. -/
theorem projection {C : Installation → Act → Prop} (hs : s.Tied)
    (h : Reaches step (Guarded C) s t) :
    t.Tied ∧ Reaches Installation.step C s.view t.view :=
  h.projection view amounts hs fun s mv t hs ⟨hundisturbed, hC⟩ he => by
    obtain ⟨ht, hseen⟩ := hs.step hundisturbed he
    refine ⟨ht, ?_⟩
    unfold Seen at hseen
    cases ha : s.amounts mv with
    | none =>
        rw [ha] at hseen
        exact hseen
    | some a =>
        rw [ha] at hseen
        exact ⟨hC a ha, hseen⟩

end Site

end Gocker.Container
