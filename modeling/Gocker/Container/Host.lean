import Gocker.Container.Program
import Gocker.Network.Ipam
import Gocker.Pkg
import Mathlib.Data.List.Sort
import Mathlib.Data.String.Basic

/-!
# The host

The state that the operations on containers share, and their steps on it.

* A `World` is what the operations change: the records, the allocator's map, the
  cgroups and the container processes.
* A `Call` is one running call of one of the five functions, with the stages it
  has not reached yet, its in-memory copy of the record, and what it knows of its
  child.  Nothing locks a container, so the stages of all running calls interleave
  freely (`Host.step`).
* The environment decides the rest, in the event of a step: whether an operation
  of the system fails, which process number a child gets, which records cannot be
  read at the moment, when a process exits.

Three remarks on what is one step.  `WriteContainerInfo` truncates the file and
then writes it; a reader that comes between the two finds no record, which is the
`skip` of a reading event, and two overlapping writers may leave a text that is no
JSON although both succeed, which is the outcome `garbled`.  `Kill` is `SIGKILL`,
so the child is gone with the stage that gives up; `SIGTERM` has no effect of its
own, the process exits later or not at all.  The allocator's operations are single
steps on its map here; `Container/Site.lean` takes them apart into the file operations
of which they consist, which calls of different processes interleave.

### What is left out

The daemon's accept loop and its connections are elsewhere (`Daemon/`); here a call of `Start`
is one that has got past its checks.  The messages on the standard output are left out, and so
are the reasons for which an operation of the system fails: an event says that it has failed,
and after how much of its work.

### How to read `perform`

A stage takes the world and the copy of the record that its call keeps, and an outcome that the
environment has chosen.  It answers with the world after it and with what becomes of the call: it
goes on, with another copy, or it gives up.  Without an answer the stage is not possible with
this outcome, as for a wait whose process is still alive.
-/

namespace Gocker.Container

open Network

/-! ## Requests and records -/

/-- Where the overlay of a container is mounted.  The launchers put it into the request and into
the record, and `Start` takes it from there. -/
def mountPointOf (id : ContainerID) : String :=
  Config.containerStoragePath ++ "/" ++ id ++ "/rootfs"

/-- The request of a launcher, with the container's name defaulted to its id. -/
def nameRequest (id : ContainerID) (req : RunRequest) : RunRequest :=
  { req with
      containerName := if req.containerName = "" then id else req.containerName
      mountPoint := mountPointOf id }

/-- The request of `RunContainer`, which also sets the id. -/
def launchRequest (id : ContainerID) (req : RunRequest) : RunRequest :=
  { nameRequest id req with containerID := id }

/-- The first record of a container, without the time. -/
def newInfo (id : ContainerID) (req : RunRequest) : ContainerInfo where
  id := id
  pid := 0
  name := req.containerName
  command := req.containerCommand
  status := .created
  createdAt := zeroTime
  image := imageText req.imageName req.imageTag
  mountPoint := req.mountPoint
  requestedIP := ""
  ipAddress := ""
  finishedAt := zeroTime
  limits := req.containerLimits

/-- The request that `Start` rebuilds from the record. -/
def startRequest (info : ContainerInfo) (vethPeer ip : String) : RunRequest where
  imageName := (parse info.image).1
  imageTag := (parse info.image).2
  containerName := ""
  containerCommand := info.command
  containerID := info.id
  containerArgs := []
  mountPoint := info.mountPoint
  vethPeerName := vethPeer
  initCommands := []
  requestedIP := info.requestedIP
  ipAddress := ip
  containerLimits := info.limits

/-- An adjust keeps the limits that were not given. -/
def mergeLimits (original limits : ContainerLimits) : ContainerLimits where
  memoryLimit :=
    if limits.memoryLimit = Config.invalidLimit then original.memoryLimit else limits.memoryLimit
  pidsLimit :=
    if limits.pidsLimit = Config.invalidLimit then original.pidsLimit else limits.pidsLimit
  cpuLimit :=
    if limits.cpuLimit = Config.invalidLimit then original.cpuLimit else limits.cpuLimit

/-! ## Cgroups -/

/-- A cgroup directory: the three control files, where written, and its members. -/
structure Cgroup where
  cpuMax : Option String
  memoryMax : Option String
  pidsMax : Option String
  procs : List PID
deriving DecidableEq, Repr

/-- A directory that `MkdirAll` has just made: no limit has been written, and no process has
joined. -/
def Cgroup.empty : Cgroup := ⟨none, none, none, []⟩

/-- An `int` of the program. -/
def wrapInt (n : Int) : Int := n.bmod (2 ^ 64)

/-- The writes of `setResourceLimits`, in order; a limit that is not positive is
left alone. -/
def limitWrites (limits : ContainerLimits) : List (Cgroup → Cgroup) :=
  (if 0 < limits.cpuLimit then
    [fun g => { g with
      cpuMax := some (toString (wrapInt (limits.cpuLimit * 100000)) ++ " 100000") }] else []) ++
  (if 0 < limits.memoryLimit then
    [fun g => { g with memoryMax := some (toString limits.memoryLimit) }] else []) ++
  (if 0 < limits.pidsLimit then
    [fun g => { g with pidsMax := some (toString limits.pidsLimit) }] else [])

/-- The first `n` of the writes. -/
def setResourceLimits (n : ℕ) (limits : ContainerLimits) (g : Cgroup) : Cgroup :=
  ((limitWrites limits).take n).foldl (fun g write => write g) g

/-- The cgroups below that of the program, by the names of their directories.  The name is the id
of the container, or the number of its process where an older version has made it. -/
abbrev Cgroups := String → Option Cgroup

/-- The process is in none of the cgroups. -/
def Cgroups.leave (gs : Cgroups) (p : PID) : Cgroups := fun name =>
  (gs name).map fun g => { g with procs := g.procs.filter (· ≠ p) }

/-- `CleanupCgroup`: a directory with members cannot be removed. -/
def Cgroups.cleanup (gs : Cgroups) (name : String) : Cgroups :=
  match gs name with
  | some g => if g.procs = [] then Function.update gs name none else gs
  | none => gs

/-! ## The state -/

/-- The calls are numbered in the order in which they begin.  No number comes twice. -/
abbrev CallId := ℕ

/-- A container's process: the call that launched it, the request on its pipe, and
the steps of `InitContainer` before it (none once it runs the command). -/
structure Proc where
  container : ContainerID
  launcher : CallId
  alive : Bool
  pipe : Option RunRequest
  todo : List InitStage
deriving DecidableEq, Repr

/-- A process that has just been launched; it waits for its request. -/
def Proc.launched (container : ContainerID) (launcher : CallId) : Proc :=
  ⟨container, launcher, true, none, [.decode]⟩

/-- What the operations change.  Each part is seen by all calls at once: the records and the
allocator's map are files, the cgroups are directories, and the processes are the kernel's. -/
structure World where
  /-- the readable `config.json` of each container -/
  config : ContainerID → Option ContainerInfo
  ipam : ContainerToIP
  cgroups : Cgroups
  procs : PID → Option Proc

/-- A running call. -/
structure Call where
  fn : Fn
  container : ContainerID
  todo : List Stage
  /-- the copy of the record that the call keeps and writes back -/
  info : ContainerInfo
  /-- the request of a first launch; `Start` rebuilds it from `info` -/
  req : Option RunRequest
  child : Option PID
  /-- set between the allocation of an address and its release -/
  allocatedIP : Option String
  vethPeer : String
deriving DecidableEq, Repr

/-- The world together with the calls that are running.  A directory stays in `dirs` once it is
there, and the ids of new containers are not among them. -/
structure Host where
  world : World
  /-- the entries of the storage directory, in order -/
  dirs : List ContainerID
  calls : CallId → Option Call
  nextCall : CallId
  clock : Time

/-- How a stage went: it worked, it launched the process `pid`, it worked but left
the record unreadable, or it failed after `n` parts of its work. -/
inductive Outcome where
  | ok
  | child (pid : PID)
  | garbled
  | fails (n : ℕ)
deriving DecidableEq, Repr

/-- What becomes of a call after a stage: it goes on with its next stage, or it
gives up, which kills its child and leaves the deferred release. -/
inductive After where
  | goOn (c : Call)
  | giveUp

/-! ## Reading a record -/

/-- The test that `findContainerInfo` makes on one record: the identifier is the id, the name,
or a prefix of the id. -/
def ContainerInfo.matches (info : ContainerInfo) (identifier : String) : Bool :=
  info.id == identifier || info.name == identifier ||
    identifier.toList.isPrefixOf info.id.toList

/-- `findContainerInfo`: the first readable record, in the order of the directory,
that matches; the records in `skip` cannot be read at the moment. -/
def Host.findContainerInfo (s : Host) (skip : List ContainerID) (identifier : String) :
    Option ContainerInfo :=
  s.dirs.findSome? fun d =>
    if d ∈ skip then none else (s.world.config d).filter (ContainerInfo.matches · identifier)

/-! ## The stages -/

namespace Call

/-- The address asked for: for a restart the requested one, else the last one. -/
def desiredIP (c : Call) : String :=
  match c.req with
  | some req => req.requestedIP
  | none => if c.info.requestedIP ≠ "" then c.info.requestedIP else c.info.ipAddress

/-- The limits given to `SetupCgroup`. -/
def launchLimits (c : Call) : ContainerLimits :=
  match c.req with
  | some req => req.containerLimits
  | none => c.info.limits

/-- The address is in the request and in the record to come. -/
def allocated (c : Call) (ip : String) : Call :=
  { c with
      allocatedIP := some ip
      req := c.req.map fun req => { req with ipAddress := ip }
      info := { c.info with ipAddress := ip } }

/-- The request that goes into the pipe. -/
def request (c : Call) : RunRequest :=
  match c.req with
  | some req => { req with vethPeerName := c.vethPeer }
  | none => startRequest c.info c.vethPeer (c.allocatedIP.getD "")

/-- The record that a write stage writes. -/
def record (c : Call) (now : Time) : Write → ContainerInfo
  | .created => { c.info with createdAt := now }
  | .running => { c.info with pid := c.child.getD 0, status := .running }
  | .restarted =>
      { c.info with pid := c.child.getD 0, status := .running, finishedAt := zeroTime }
  | .exited => { c.info with pid := 0, status := .stopped }
  | .finished | .stopped => { c.info with pid := 0, status := .stopped, finishedAt := now }
  | .limits => c.info

end Call

namespace World

/-- Nothing but the one process changes. -/
def setProc (w : World) (p : PID) (x : Option Proc) : World :=
  { w with procs := Function.update w.procs p x }

/-- Nothing but the one directory changes. -/
def setCgroup (w : World) (name : String) (g : Option Cgroup) : World :=
  { w with cgroups := Function.update w.cgroups name g }

/-- The process ends: by itself, or by `SIGKILL`. -/
def exit (w : World) (p : PID) : World :=
  { w with
      cgroups := w.cgroups.leave p
      procs := Function.update w.procs p ((w.procs p).map fun x => { x with alive := false }) }

/-- The process is gone. -/
def reap (w : World) (p : PID) : World :=
  { w with cgroups := w.cgroups.leave p, procs := Function.update w.procs p none }

/-- A call that gives up kills its child. -/
def kill (w : World) : Option PID → World
  | some p => w.reap p
  | none => w

/-- `SetupCgroup`; a process that is dead already joins nothing. -/
def setupCgroup (w : World) (id : ContainerID) (limits : ContainerLimits) (p : PID) : World :=
  let g := setResourceLimits 3 limits ((w.cgroups id).getD .empty)
  let members := if (w.procs p).any (·.alive) then [p] else []
  { w with
      cgroups := Function.update (w.cgroups.leave p) id
        (some { g with procs := g.procs.filter (· ≠ p) ++ members }) }

/-- `SetupCgroup` that fails: without a directory, or after `n` of the limits, and
then it removes the directory. -/
def failSetupCgroup (w : World) (id : ContainerID) (limits : ContainerLimits) : ℕ → World
  | 0 => w
  | n + 1 =>
      let g := setResourceLimits n limits ((w.cgroups id).getD .empty)
      { w with cgroups := Cgroups.cleanup (Function.update w.cgroups id (some g)) id }

/-- `cgroupPath`: the directory under the id, or the one under the process number
that older versions used. -/
def cgroupPath (w : World) (info : ContainerInfo) : Option String :=
  if (w.cgroups info.id).isSome then some info.id
  else if 0 < info.pid ∧ (w.cgroups (Nat.repr info.pid)).isSome then some (Nat.repr info.pid)
  else none

/-- The file of the record after a write of `r`. -/
def written (w : World) (d : ContainerID) (r : ContainerInfo) : Outcome → Option World
  | .ok => some { w with config := Function.update w.config d (some r) }
  | .garbled | .fails (_ + 1) => some { w with config := Function.update w.config d none }
  | .fails 0 => some w
  | .child _ => none

end World

/-- One stage of the call `k`.  The two stages of the allocator are its decision on the map;
what becomes of it between the processes that share the file is for `Site`. -/
def perform (w : World) (now : Time) (k : CallId) (c : Call) : Stage → Outcome →
    Option (World × After)
  | .allocateIP, .ok =>
      match allocateContainerIP w.ipam c.container c.desiredIP with
      | .done ip => some (w, .goOn (c.allocated ip))
      | .save m ip => some ({ w with ipam := m }, .goOn (c.allocated ip))
      | .fail _ => some (w, .giveUp)
  | .write wr, o =>
      let r := c.record now wr
      (w.written c.container r o).map fun w' =>
        match o with
        | .fails _ => (w', if wr.required then .giveUp else .goOn { c with info := r })
        | _ => (w', .goOn { c with info := r })
  | .launch, .child p =>
      if 0 < p ∧ w.procs p = none then
        some (w.setProc p (some (Proc.launched c.container k)), .goOn { c with child := some p })
      else none
  | .setupCgroup, .ok =>
      c.child.map fun p => (w.setupCgroup c.container c.launchLimits p, .goOn c)
  | .setupCgroup, .fails n => some (w.failSetupCgroup c.container c.launchLimits n, .giveUp)
  | .setupVeth, .ok =>
      c.child.map fun p => (w, .goOn { c with vethPeer := "peer-" ++ Nat.repr p })
  | .encode, .ok =>
      c.child.map fun p =>
        (w.setProc p ((w.procs p).map fun x => { x with pipe := some c.request }), .goOn c)
  | .wait, .ok =>
      c.child.bind fun p => (w.procs p).bind fun x =>
        if x.alive then none
        else some (w.setProc p none, .goOn { c with child := none })
  | .cleanupCgroup, .ok =>
      some ({ w with cgroups := w.cgroups.cleanup c.container }, .goOn c)
  | .cleanupCgroup, .fails _ => some (w, .goOn c)
  | .releaseIP, .ok =>
      some ({ w with ipam := w.ipam.erase c.container }, .goOn { c with allocatedIP := none })
  | .releaseIP, .fails _ => some (w, .goOn { c with allocatedIP := none })
  | .kill, .ok => some (w, .goOn c)
  | .setResourceLimits, .ok =>
      match w.cgroupPath c.info with
      | none => some (w, .giveUp)
      | some name =>
          some (w.setCgroup name ((w.cgroups name).map (setResourceLimits 3 c.info.limits)),
            .goOn c)
  | .setResourceLimits, .fails n =>
      match w.cgroupPath c.info with
      | none => some (w, .giveUp)
      | some name =>
          some (w.setCgroup name ((w.cgroups name).map (setResourceLimits n c.info.limits)),
            .giveUp)
  | .allocateIP, .fails _ | .launch, .fails _ | .setupVeth, .fails _ | .encode, .fails _
  | .kill, .fails _ => some (w, .giveUp)
  | _, _ => none

/-! ## The steps of the host -/

/-- One step of `InitContainer`.  Decoding waits for the request, an address is
needed to configure the network, and a monitor that does not start is only logged;
any other failure ends the process. -/
def initStep (w : World) (p : PID) (o : Outcome) : Option World :=
  (w.procs p).bind fun x =>
    let next (todo : List InitStage) : World := w.setProc p (some { x with todo := todo })
    if x.alive then
      match x.todo, x.pipe, o with
      | .decode :: _, some req, .ok => some (next (InitStage.afterDecode req))
      | .decode :: _, none, _ => none
      | .configureContainerNetwork :: rest, some req, .ok =>
          some (if req.ipAddress = "" then w.exit p else next rest)
      | .startMonitor :: rest, _, .fails _ => some (next rest)
      | _ :: rest, _, .ok => some (next rest)
      | _ :: _, _, .fails _ => some (w.exit p)
      | _, _, _ => none
    else none

/-- What can happen: one of the five functions is called, a call takes its next stage, a process
takes a step of `InitContainer` or ends, the clock moves.  The `skip` of a call are the records
that its search cannot read. -/
inductive Event where
  | runContainer (req : RunRequest) (id : ContainerID)
  | createAndRun (req : RunRequest) (id : ContainerID)
  | start (identifier : String) (skip : List ContainerID)
  | stopContainer (identifier : String) (skip : List ContainerID)
  | adjustResourceLimits (identifier : String) (limits : ContainerLimits)
      (skip : List ContainerID)
  | step (k : CallId) (o : Outcome)
  | init (p : PID) (o : Outcome)
  | exit (p : PID)
  | tick (now : Time)

/-- The call whose stage an event is, and how it went. -/
def Event.stage : Event → Option (CallId × Outcome)
  | .step k o => some (k, o)
  | _ => none

/-- All writes of records succeed, and each leaves the record that it has written.  This excludes
the outcome `garbled` as well, of which `os.Create` and the encoder know nothing: two writes of one
record overlap, both succeed, and what they leave does not decode. -/
def RecordsWritten (s : Host) (e : Event) : Prop :=
  ∀ ko ∈ e.stage, ∀ c ∈ s.calls ko.1, (∃ st ∈ c.todo.head?, st.isWrite = true) → ko.2 = .ok

instance (s : Host) (e : Event) : Decidable (RecordsWritten s e) := by
  unfold RecordsWritten
  infer_instance

/-- The function that an event calls. -/
def Event.calls : Event → Option Fn
  | .runContainer _ _ => some .runContainer
  | .createAndRun _ _ => some .createAndRun
  | .start _ _ => some .start
  | .stopContainer _ _ => some .stopContainer
  | .adjustResourceLimits _ _ _ => some .adjustResourceLimits
  | _ => none

/-- `AdjustResourceLimits` is not among the operations. -/
def NotAdjust (e : Event) : Prop := e.calls ≠ some .adjustResourceLimits

instance (e : Event) : Decidable (NotAdjust e) := inferInstanceAs (Decidable (_ ≠ _))

namespace Host

/-- A call that begins. -/
def begin (s : Host) (fn : Fn) (info : ContainerInfo) (req : Option RunRequest) : Host :=
  { s with
      calls := Function.update s.calls s.nextCall
        (some ⟨fn, info.id, fn.program, info, req, none, none, ""⟩)
      nextCall := s.nextCall + 1 }

/-- `RunContainer`, up to its first stage. -/
def runContainer (s : Host) (req : RunRequest) (id : ContainerID) : Host :=
  let req := launchRequest id req
  { s with dirs := s.dirs.orderedInsert (· ≤ ·) id }.begin .runContainer
    { newInfo id req with requestedIP := req.requestedIP } (some req)

/-- `CreateAndRun`, up to its first stage: it sets neither the id nor the address. -/
def createAndRun (s : Host) (req : RunRequest) (id : ContainerID) : Host :=
  let req := nameRequest id req
  { s with dirs := s.dirs.orderedInsert (· ≤ ·) id }.begin .createAndRun (newInfo id req)
    (some req)

/-- The record with which `Start` goes on. -/
def startable (s : Host) (skip : List ContainerID) (identifier : String) :
    Option ContainerInfo :=
  (s.findContainerInfo skip identifier).filter fun info =>
    info.status == .stopped || info.status == .created

/-- The record with which `StopContainer` and `AdjustResourceLimits` go on. -/
def running (s : Host) (skip : List ContainerID) (identifier : String) :
    Option ContainerInfo :=
  (s.findContainerInfo skip identifier).filter fun info => info.status == .running

/-- The calls after a stage of the call `k`. -/
def resume (s : Host) (k : CallId) (c : Call) (rest : List Stage) : World × After → Host
  | (w, .goOn c') =>
      { s with
          world := w
          calls := Function.update s.calls k
            (if rest = [] then none else some { c' with todo := rest }) }
  | (w, .giveUp) =>
      { s with
          world := w.kill c.child
          calls := Function.update s.calls k
            (if c.allocatedIP = none then none
              else some { c with child := none, todo := [.releaseIP] }) }

/-- One step.  An id is drawn afresh; a call that finds no record in the status it
needs returns its error and changes nothing. -/
def step (s : Host) : Event → Option Host
  | .runContainer req id => if id ∈ s.dirs then none else some (s.runContainer req id)
  | .createAndRun req id => if id ∈ s.dirs then none else some (s.createAndRun req id)
  | .start identifier skip =>
      match s.startable skip identifier with
      | none => some s
      | some info => some (s.begin .start info none)
  | .stopContainer identifier skip =>
      match s.running skip identifier with
      | none => some s
      | some info => some (s.begin .stopContainer info none)
  | .adjustResourceLimits identifier limits skip =>
      match s.running skip identifier with
      | none => some s
      | some info =>
          some (s.begin .adjustResourceLimits
            { info with limits := mergeLimits info.limits limits } none)
  | .step k o =>
      (s.calls k).bind fun c =>
        match c.todo with
        | [] => none
        | st :: rest => (perform s.world s.clock k c st o).map (s.resume k c rest)
  | .init p o => (initStep s.world p o).map fun w => { s with world := w }
  | .exit p =>
      if (s.world.procs p).any (·.alive) then some { s with world := s.world.exit p } else none
  | .tick now => some { s with clock := now }

end Host

/-! ## Runs -/

/-- A host without containers. -/
def emptyHost : Host where
  world := { config := fun _ => none, ipam := ∅, cgroups := fun _ => none, procs := fun _ => none }
  dirs := []
  calls _ := none
  nextCall := 0
  clock := "2025-01-01T00:00:00Z"

/-- `gocker run --memory ... --pids ... --cpus 1 alpine /bin/sh` -/
def shellRequest : RunRequest where
  imageName := "alpine"
  imageTag := "latest"
  containerName := ""
  containerCommand := "/bin/sh"
  containerID := ""
  containerArgs := []
  mountPoint := ""
  vethPeerName := ""
  initCommands := []
  requestedIP := ""
  ipAddress := ""
  containerLimits := { memoryLimit := 1000000, pidsLimit := 10, cpuLimit := 1 }

/-- The record that such a container leaves. -/
def stoppedRecord : ContainerInfo where
  id := "a"
  pid := 0
  name := "a"
  command := "/bin/sh"
  status := .stopped
  createdAt := "2025-01-01T00:00:00Z"
  image := "alpine:latest"
  mountPoint := mountPointOf "a"
  requestedIP := ""
  ipAddress := "10.20.0.2"
  finishedAt := "2025-01-01T00:00:00Z"
  limits := { memoryLimit := 1000000, pidsLimit := 10, cpuLimit := 1 }

/-- A host with one container, which is stopped. -/
def stoppedHost : Host :=
  { emptyHost with
      world := { emptyHost.world with
        config := Function.update emptyHost.world.config "a" (some stoppedRecord) }
      dirs := ["a"] }

/-- The next `n` stages of a call go well. -/
def stages (k : CallId) (n : ℕ) : List Event := List.replicate n (.step k .ok)

/-- A new container is launched as the process `p`, by the call `k`, and its record
says so. -/
def launching (k : CallId) (id : ContainerID) (p : PID) : List Event :=
  .runContainer shellRequest id :: stages k 2 ++ .step k (.child p) :: stages k 4

end Gocker.Container
