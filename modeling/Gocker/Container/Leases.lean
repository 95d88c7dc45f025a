import Gocker.Container.Contract
import Gocker.Container.Serial

/-!
# Addresses, as the processes of the program allocate them

The properties that rest on the allocator, for the program with its file operations: every
`gocker run` and `gocker stop` is a process, all of them load and save one allocation file, and
`ipamMu` keeps the calls of one process apart only.

* `live_addresses`: containers with a live process have different addresses.
* `contract_kept`: a process is sent the id and an address of its container.
* `no_address_after_removal`: a removed container has no entry in the file, and every entry can
  still be taken away.

Each is a result on the host or the installation, where an operation of the allocator is one
step, brought to the site by its projection.  So each has two conditions.  One is on the steps
of the installation.  The other is on the files: no call is disturbed between its load and its
rename, or, for the last one, no two calls are in the allocator at once.

### Where the conditions fail

* `stopped_address_shared`: `StopContainer` releases the address of a process that has not ended.
* `racing_runs`: two `gocker run` load before either of them saves, and get one address.
* `contract_broken`: `CreateAndRun` sends neither the id nor an address.
* `address_outlives`: a `gocker run` is killed after its first record, and its container is
  removed.
* `address_stranded`: a `gocker run` is killed before its first record, and nothing finds the
  container any more.
-/

namespace Gocker.Container

open Machine Network

/-! ## Runs of the host -/

/-- Only the host moves, and its events meet the condition. -/
def OnHost (C : Host → Event → Prop) (s : Installation) : Act → Prop
  | .system (.host e) => C s.system.host e
  | _ => False

instance (C : Host → Event → Prop) [∀ s e, Decidable (C s e)] (s : Installation) (a : Act) :
    Decidable (OnHost C s a) :=
  match a with
  | .system (.host e) => inferInstanceAs (Decidable (C s.system.host e))
  | .system (.crash _ _) | .system (.reap _) | .system (.appear _) | .system (.vanish _)
  | .system (.exec _ _) | .system (.check _) | .system (.enter _ _) | .remove _
  | .finish _ _ => .isFalse id

variable {C : Host → Event → Prop}

/-- A run of the installation in which only the host moves is a run of the host. -/
theorem reaches_host {s t : Installation} (h : Reaches Installation.step (OnHost C) s t) :
    Reaches Host.step C s.system.host t.system.host := by
  obtain ⟨host, hreach, hhost⟩ := h.simulation (R := fun (s : Installation) host =>
    s.system.host = host) rfl fun s a t host hhost hC he => by
      subst hhost
      cases a with
      | system a =>
          cases a with
          | host e =>
              simp only [Installation.step] at he
              split_ifs at he
              obtain ⟨system, hsystem, rfl⟩ := Option.map_eq_some_iff.mp he
              exact ⟨_, .tail (.refl _) hC (System.step_host hsystem), rfl⟩
          | crash | reap | appear | vanish | exec | check | enter => cases hC
      | remove | finish => cases hC
  exact hhost ▸ hreach

/-- Nothing is running, no call is in the allocator, and the allocation file can be read and
gives no address out twice. -/
structure Site.AtRest (s : Site) : Prop where
  host : Idle s.host
  calls : ∀ k, s.shared.call k = none
  distinct : s.shared.files.Distinct
  load : loadIPAllocationState s.shared.files = some s.map
  valid : Valid s.map

/-- Nobody is in the allocator, and what is said of its calls is said of none. -/
theorem Site.AtRest.quiet {s : Site} (h : s.AtRest) : s.Quiet where
  tied := {
    consistent := h.host.wellFormed.consistent
    load := h.load
    distinct := h.distinct
    decided := fun k c hk => by cases (h.calls k).symm.trans hk
    operation := fun k c hk => by cases (h.calls k).symm.trans hk }
  calls := h.calls

/-- The host that the installation is seen to have is as idle. -/
theorem Site.AtRest.view {s : Site} (h : s.AtRest) : Idle s.view.system.host :=
  ⟨h.host.record, h.host.calls, h.host.procs⟩

/-- A run of a site whose steps, seen in the host, meet the condition, is seen there as a run. -/
theorem Site.AtRest.reaches_host {s t : Site} (hs : s.AtRest)
    (h : Reaches Site.step (Site.Guarded (OnHost C)) s t) :
    Reaches Host.step C s.view.system.host t.view.system.host :=
  Gocker.Container.reaches_host (Site.projection hs.quiet.tied h).2

/-- A host without containers and without an allocation file. -/
def emptySite : Site := ⟨Installation.emptyInstallation, start noFiles⟩

theorem emptySite_atRest : emptySite.AtRest where
  host := emptyHost_idle
  calls _ := rfl
  distinct := noFiles_distinct
  load := rfl
  valid := Valid.empty

/-! ## Events of a site -/

/-- Events that are no stage of the allocator. -/
def moves (events : List Event) : List Move := events.map fun e => .act (.system (.host e))

/-- An operation on the allocator from its lock to its return, with something to save. -/
def operating (k : CallId) : List Move := .enter k :: List.replicate 5 (.file k .ok)

/-- A new container is launched as the process `p`, by the call `k`, and its record says so. -/
def launchingAt (k : CallId) (id : ContainerID) (p : PID) : List Move :=
  moves [.runContainer shellRequest id] ++ operating k ++
    moves (.step k .ok :: .step k (.child p) :: stages k 4)

/-! ## Live containers -/

/-- **Live containers do not share an address**, in any run of `RunContainer`, `Start` and
`StopContainer` in which no call of the allocator is disturbed, and no release takes an address
from a call that still relies on it. -/
theorem live_addresses {s t : Site} (hs : s.AtRest)
    (h : Reaches Site.step
      (Site.Guarded (OnHost fun s e => NotCreateAndRun e ∧ ReleasesUnused s e)) s t) :
    AddressesUnshared t.host := by
  have hview : AddressesUnshared t.view.system.host :=
    unshared_of_reaches hs.view hs.valid (hs.reaches_host h)
  exact hview

/-- Two containers are launched one after the other. -/
theorem live_addresses_two :
    ∃ t : Site, (t.host.world.procs 100).any (·.alive) ∧ (t.host.world.procs 101).any (·.alive) ∧
      AddressesUnshared t.host :=
  ⟨outcome Site.step (Site.Guarded (OnHost fun s e => NotCreateAndRun e ∧ ReleasesUnused s e))
      emptySite (launchingAt 0 "a" 100 ++ launchingAt 1 "b" 101),
    by decide +kernel, by decide +kernel, live_addresses emptySite_atRest (reaches_outcome ..)⟩

/-- The process `p` of the container is alive, and has been configured with the address. -/
def Host.Configured (s : Host) (p : PID) (id : ContainerID) (ip : String) : Prop :=
  ∃ x ∈ s.world.procs p, x.container = id ∧ x.alive = true ∧ ∃ r ∈ x.pipe, r.ipAddress = ip

instance (s : Host) (p : PID) (id : ContainerID) (ip : String) :
    Decidable (s.Configured p id ip) := by
  unfold Host.Configured
  infer_instance

/-- Two live processes of different containers with one address. -/
theorem Host.Configured.shared {s : Host} {p q : PID} {id id' : ContainerID} {ip : String}
    (hp : s.Configured p id ip) (hq : s.Configured q id' ip) (hne : id ≠ id') :
    ¬ AddressesUnshared s := by
  obtain ⟨x, hx, rfl, hxalive, r, hr, rfl⟩ := hp
  obtain ⟨y, hy, rfl, hyalive, u, hu, huip⟩ := hq
  exact fun h => hne (h p q x y r u hx hy hxalive hyalive hr hu huip.symm)

/-- The first container is stopped, and its process takes its time. -/
def stopThenRun : List Move :=
  launchingAt 0 "a" 100 ++ moves (.stopContainer "a" [] :: stages 1 2) ++ operating 1 ++
    launchingAt 2 "b" 101

/-- Both processes are alive, configured with the same address. -/
theorem stopped_address_shared :
    ∃ t, Reaches Site.step (Site.Guarded (OnHost fun _ e => NotCreateAndRun e)) emptySite t ∧
      ¬ AddressesUnshared t.host := by
  let t := outcome Site.step (Site.Guarded (OnHost fun _ e => NotCreateAndRun e)) emptySite
    stopThenRun
  have first : t.host.Configured 100 "a" "10.20.0.2" := by decide +kernel
  have second : t.host.Configured 101 "b" "10.20.0.2" := by decide +kernel
  exact ⟨t, reaches_outcome .., first.shared second (by decide)⟩

/-- Two `gocker run` load the allocation file before either of them saves, and go on up to the
sending of the request. -/
def racing : List Move :=
  moves [.runContainer shellRequest "a", .runContainer shellRequest "b"] ++
    [.enter 0, .enter 1, .file 0 .ok, .file 1 .ok] ++
    List.replicate 4 (.file 0 .ok) ++ List.replicate 4 (.file 1 .ok) ++
    moves (.step 0 .ok :: .step 0 (.child 100) :: stages 0 2) ++
    moves (.step 1 .ok :: .step 1 (.child 101) :: stages 1 2)

/-- Without a release, two processes are configured with one address; and the first request is
sent when the entry of its container is gone. -/
theorem racing_runs :
    ∃ s t, Reaches Site.step
        (fun s mv => ∀ a ∈ s.amounts mv, OnHost (fun s e => NotCreateAndRun e ∧
          ReleasesUnused s e ∧ ReleasesSent s e) s.view a) emptySite s ∧
      (∃ c ∈ s.host.calls 0, c.todo.head? = some .encode ∧
        ¬ MeetsContract s.view.system.host c.container c.request) ∧
      Reaches Site.step Always s t ∧ ¬ AddressesUnshared t.host := by
  let s := outcome Site.step
    (fun s mv => ∀ a ∈ s.amounts mv, OnHost (fun s e => NotCreateAndRun e ∧
      ReleasesUnused s e ∧ ReleasesSent s e) s.view a) emptySite racing
  let t := outcome Site.step Always s (moves [.step 0 .ok, .step 1 .ok])
  obtain ⟨c, hk, hencode, hentry⟩ : ∃ c ∈ s.host.calls 0, c.todo.head? = some .encode ∧
      s.map.lookup c.container ≠ some c.request.ipAddress := by
    decide +kernel
  have first : t.host.Configured 100 "a" "10.20.0.2" := by decide +kernel
  have second : t.host.Configured 101 "b" "10.20.0.2" := by decide +kernel
  refine ⟨s, t, reaches_outcome .., ⟨c, hk, hencode, fun hmeets => ?_⟩, reaches_outcome ..,
    first.shared second (by decide)⟩
  exact hentry ((hmeets.address.2 c.container).mpr rfl)

/-! ## The contract of the launched process -/

/-- **The contract of the launched process** is kept by `RunContainer` and `Start`, in any run
in which no call of the allocator is disturbed, and no release takes an address that a call
still has to send; and by `CreateAndRun` only where its request already came with the id and
the address. -/
theorem contract_kept {s t : Site} (hs : s.AtRest)
    (h : Reaches Site.step (Site.Guarded (OnHost ReleasesSent)) s t) :
    ContractKept t.view.system.host :=
  contractKept_of_reaches hs.view hs.valid (hs.reaches_host h)

/-- A first launch, up to the sending of its request. -/
def launchingFirst : List Move :=
  moves [.runContainer shellRequest "a"] ++ operating 0 ++
    moves (.step 0 .ok :: .step 0 (.child 100) :: stages 0 2)

/-- A first launch comes to the sending of its request. -/
theorem contract_kept_launch :
    ∃ (t : Site) (c : Call), t.host.calls 0 = some c ∧ c.todo.head? = some .encode ∧
      c.fn = .runContainer ∧ ContractKept t.view.system.host := by
  obtain ⟨c, hk, hencode, hfn⟩ : ∃ c ∈ (outcome Site.step (Site.Guarded (OnHost ReleasesSent))
      emptySite launchingFirst).host.calls 0,
        c.todo.head? = some .encode ∧ c.fn = .runContainer := by
    decide +kernel
  exact ⟨_, c, hk, hencode, hfn, contract_kept emptySite_atRest (reaches_outcome ..)⟩

/-- The same launch by the daemon's `run` command. -/
def launchingByDaemon : List Move :=
  moves (.createAndRun shellRequest "a" :: stages 0 1 ++ .step 0 (.child 100) :: stages 0 2)

/-- The request is sent, and the process comes to its network. -/
def sentByDaemon : List Move := moves (stages 0 1 ++ List.replicate 4 (.init 100 .ok))

/-- **`CreateAndRun` breaks the contract**, and its process ends where it would configure
its network. -/
theorem contract_broken :
    ∃ s t u, Reaches Site.step (Site.Guarded (OnHost ReleasesSent)) emptySite s ∧
      Reaches Site.step Always s t ∧
      (∃ c ∈ s.host.calls 0, c.todo.head? = some .encode ∧
        ¬ MeetsContract s.view.system.host c.container c.request) ∧
      (∃ x ∈ t.host.world.procs 100, x.alive ∧
        x.todo.head? = some .configureContainerNetwork) ∧
      t.step (.act (.system (.host (.init 100 .ok)))) = some u ∧
      ∃ x ∈ u.host.world.procs 100, ¬ x.alive := by
  let s := outcome Site.step (Site.Guarded (OnHost ReleasesSent)) emptySite launchingByDaemon
  let t := outcome Site.step Always s sentByDaemon
  obtain ⟨c, hk, hencode, hid⟩ : ∃ c ∈ s.host.calls 0, c.todo.head? = some .encode ∧
      c.request.containerID ≠ c.container := by
    decide +kernel
  have hconfigure : ∃ x ∈ t.host.world.procs 100, x.alive ∧
      x.todo.head? = some .configureContainerNetwork := by
    decide +kernel
  obtain ⟨u, hu, hended⟩ : ∃ u ∈ t.step (.act (.system (.host (.init 100 .ok)))),
      ∃ x ∈ u.host.world.procs 100, ¬ x.alive := by
    decide +kernel
  exact ⟨s, t, u, reaches_outcome .., reaches_outcome ..,
    ⟨c, hk, hencode, fun hmeets => hid hmeets.named⟩, hconfigure, hu, hended⟩

/-! ## Removed containers -/

/-- The allocation file can be read, and has no entry of the container. -/
def Site.Unassigned (s : Site) (d : ContainerID) : Prop :=
  ∃ m, loadIPAllocationState s.shared.files = some m ∧ m.lookup d = none

/-- No call comes to the allocator while another is in it, and the addresses can be traced. -/
def Site.SerialTraced (s : Site) (mv : Move) : Prop :=
  s.Exclusive mv ∧ ∀ a ∈ s.amounts mv, Traced s.view a

instance (s : Site) (mv : Move) : Decidable (s.SerialTraced mv) :=
  inferInstanceAs (Decidable (_ ∧ _))

/-- What the view says of an entry, the file says. -/
theorem Site.Tied.unassigned {s : Site} (h : s.Tied) {d : ContainerID}
    (hd : s.view.system.host.world.ipam.lookup d = none) : s.Unassigned d :=
  ⟨s.map, h.load, hd⟩

/-- A stage of the allocator that works leaves the addresses traced. -/
theorem traced_ok (s : Installation) (k : CallId) : Traced s (.system (.host (.step k .ok))) :=
  fun _ _ => ⟨fun _ h => absurd rfl h, fun _ h => absurd rfl h⟩

/-- What can be done where the addresses can be traced: the call in the allocator returns, and
from then on the site does what the installation can. -/
theorem Site.Single.releasable {s : Site} (h : s.Single) (hkept : s.view.Kept) (d : ContainerID) :
    ∃ t, Reaches Site.step Site.Exclusive s t ∧ t.Unassigned d := by
  obtain ⟨t, ht, hquiet, hview⟩ := h.quiet
  have hkept : t.view.Kept := by
    rcases hview with hsame | ⟨k, hstep⟩
    · exact hsame ▸ hkept
    · exact hkept.step (traced_ok _ k) hstep
  by_cases hd : t.view.system.host.world.ipam.lookup d = none
  · exact ⟨t, ht, hquiet.tied.unassigned hd⟩
  · obtain ⟨i, hi, hreleased⟩ := hkept.releasable hd
    obtain ⟨u, hu, hquiet, rfl⟩ := hquiet.lift hi
    exact ⟨u, ht.trans hu, hquiet.tied.unassigned hreleased⟩

theorem emptySite_starting : emptySite.view.Starting := Installation.emptyInstallation_starting

/-- The container runs when its `gocker run` is killed; it is stopped and removed. -/
def stoppedAndRemoved : List Move :=
  launchingAt 0 "a" 100 ++ .act (.system (.crash [0] [])) ::
    moves (.stopContainer "a" [] :: stages 1 2) ++ operating 1 ++ moves [.exit 100] ++
      [.act (.remove "a"), .act (.finish 0 .ok)]

/-- The `gocker run` is killed after its first record, and the container is removed. -/
def createdAndRemoved : List Move :=
  moves [.runContainer shellRequest "a"] ++ operating 0 ++ moves [.step 0 .ok] ++
    [.act (.system (.crash [0] [])), .act (.remove "a"), .act (.finish 0 .ok)]

/-- The `gocker run` is killed before its first record. -/
def strandedByKill : List Move :=
  moves [.runContainer shellRequest "a"] ++ operating 0 ++ [.act (.system (.crash [0] []))]

/-- The address is taken for good: no run takes the entry away in which no call of the allocator
is disturbed. -/
theorem address_stranded :
    ∃ t, Reaches Site.step Site.Exclusive emptySite t ∧
      ∀ u, Reaches Site.step (Site.Guarded Always) t u → ¬ u.Unassigned "a" := by
  let t := outcome Site.step Site.Exclusive emptySite strandedByKill
  have hreach : Reaches Site.step Site.Exclusive emptySite t := reaches_outcome ..
  have htied : t.Tied := (emptySite_atRest.quiet.single.reaches hreach).tied
  have hnone : ∀ k < t.host.nextCall, (t.host.calls k).isNone := by decide +kernel
  have hstranded : Installation.Stranded t.view.system "a" "10.20.0.2" := by
    refine ⟨by decide +kernel, Option.isNone_iff_eq_none.mp (by decide +kernel), by decide +kernel,
      fun k c hk => ?_⟩
    have hk : t.host.calls k = some c := hk
    have hlt := (htied.consistent.call k c hk).lt
    rw [Option.isNone_iff_eq_none.mp (hnone k hlt)] at hk
    cases hk
  refine ⟨t, hreach, ?_⟩
  rintro u hu ⟨m, hload, hm⟩
  obtain ⟨hutied, hview⟩ := Site.projection htied hu
  have hentry : u.map.lookup "a" = some "10.20.0.2" :=
    hstranded.forever (htied.consistent.withMap t.map) hview
  rw [hutied.load] at hload
  rw [Option.some.inj hload, hm] at hentry
  cases hentry

end Gocker.Container
