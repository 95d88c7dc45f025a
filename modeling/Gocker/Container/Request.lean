import Gocker.Lib.Machine
import Gocker.Container.Steps

/-!
# The request of a restart

`RunContainer` sends its request to the launched process and keeps a record of it;
`Start` rebuilds a request from the record.  `restart_survives` says what gets through:
the image, the command, the mount point, the limits, the id and the requested address.
The name of the container and the arguments of the command are not in the request of
`Start` at all, so that no request of a restart is the one of the first run:
`restart_differs`.

The record has no field for the arguments, so nothing could bring them back, and `Start` leaves
the name of the container out although the record has it.  `Agrees` compares every field of the
two requests but the name of the interface and the address, which are new for each process.
-/

namespace Gocker.Container

open Machine

/-- Two requests run the same container: `InitContainer` sets up the same file system
and limits, and runs the same command line under the same host name. -/
structure Agrees (a b : RunRequest) : Prop where
  imageName : b.imageName = a.imageName
  imageTag : b.imageTag = a.imageTag
  command : b.containerCommand = a.containerCommand
  args : b.containerArgs = a.containerArgs
  name : b.containerName = a.containerName
  mountPoint : b.mountPoint = a.mountPoint
  limits : b.containerLimits = a.containerLimits
  id : b.containerID = a.containerID
  requestedIP : b.requestedIP = a.requestedIP

instance (a b : RunRequest) : Decidable (Agrees a b) :=
  decidable_of_iff (b.imageName = a.imageName ∧ b.imageTag = a.imageTag ∧
      b.containerCommand = a.containerCommand ∧ b.containerArgs = a.containerArgs ∧
      b.containerName = a.containerName ∧ b.mountPoint = a.mountPoint ∧
      b.containerLimits = a.containerLimits ∧ b.containerID = a.containerID ∧
      b.requestedIP = a.requestedIP)
    ⟨fun ⟨h₁, h₂, h₃, h₄, h₅, h₆, h₇, h₈, h₉⟩ => ⟨h₁, h₂, h₃, h₄, h₅, h₆, h₇, h₈, h₉⟩,
      fun ⟨h₁, h₂, h₃, h₄, h₅, h₆, h₇, h₈, h₉⟩ => ⟨h₁, h₂, h₃, h₄, h₅, h₆, h₇, h₈, h₉⟩⟩

variable {s t : Host} {id : ContainerID} {req : RunRequest}

/-! ## What a record keeps of the first request -/

/-- The record of the container and all copies of it come from the first request. -/
structure Descends (id : ContainerID) (req : RunRequest) (s : Host) : Prop where
  dir : id ∈ s.dirs
  record : ∀ r, s.world.config id = some r → ContainerInfo.lasting r =
    ContainerInfo.lasting { newInfo id (launchRequest id req) with requestedIP := req.requestedIP }
  copy : ∀ k c, s.calls k = some c → c.container = id → ContainerInfo.lasting c.info =
    ContainerInfo.lasting { newInfo id (launchRequest id req) with requestedIP := req.requestedIP }
  sent : ∀ k c r, s.calls k = some c → c.container = id → c.req = some r →
    RunRequest.lasting r = RunRequest.lasting (launchRequest id req)

/-- A new container has the record that its request makes. -/
theorem descends_runContainer (wf : WellFormed s) (hid : id ∉ s.dirs) :
    Descends id req (s.runContainer req id) := by
  have fresh : ∀ k c, s.calls k = some c → c.container ≠ id := fun k c hk heq =>
    hid (heq ▸ (wf.call k c hk).dir)
  refine ⟨(List.mem_orderedInsert _).mpr (.inl rfl), fun r hr => ?_, fun k c hk hc => ?_,
    fun k c r hk hc hr => ?_⟩
  · exact absurd (wf.record id r hr).2 hid
  · rcases WellFormed.begin_calls hk with ⟨-, rfl⟩ | ⟨-, hold⟩
    · rfl
    · exact absurd hc (fresh k c hold)
  · rcases WellFormed.begin_calls hk with ⟨-, rfl⟩ | ⟨-, hold⟩
    · obtain rfl := Option.some.inj hr
      rfl
    · exact absurd hc (fresh k c hold)

/-- More directories do no harm, as long as the container keeps its own. -/
theorem Descends.of_dirs (h : Descends id req s) {dirs : List ContainerID} (hdir : id ∈ dirs) :
    Descends id req { s with dirs := dirs } :=
  ⟨hdir, h.record, h.copy, h.sent⟩

/-- A call begins on another container, or with the record of this one. -/
theorem Descends.begin (h : Descends id req s) {fn : Fn} {info : ContainerInfo}
    {r : Option RunRequest}
    (hinfo : info.id = id → s.world.config id = some info ∧ r = none) :
    Descends id req (s.begin fn info r) := by
  refine ⟨h.dir, h.record, fun k c hk hc => ?_, fun k c r hk hc hr => ?_⟩
  · rcases WellFormed.begin_calls hk with ⟨-, rfl⟩ | ⟨-, hold⟩
    · exact h.record _ (hinfo hc).1
    · exact h.copy k c hold hc
  · rcases WellFormed.begin_calls hk with ⟨-, rfl⟩ | ⟨-, hold⟩
    · exact absurd ((hinfo hc).2.symm.trans hr) nofun
    · exact h.sent k c r hold hc hr

/-- A stage writes copies that descend from the first request, or leaves the record as it is. -/
theorem Descends.stage (h : Descends id req s) {k : CallId} {c : Call} {st : Stage}
    {rest : List Stage} {o : Outcome} {w' : World} {after : After} (hk : s.calls k = some c)
    (hp : Performed s.world s.clock k c st o w' after) :
    Descends id req (s.resume k c rest (w', after)) := by
  constructor
  · rw [Host.resume_dirs]
    exact h.dir
  · intro r hr
    rw [Host.resume_config] at hr
    rcases hp.record_source hr with hold | ⟨wr, -, hown, rfl, -⟩
    · exact h.record r hold
    · exact (c.record_lasting s.clock wr).trans (h.copy k c hk hown.symm)
  · intro j d hj hd
    obtain ⟨e, he, hcontainer, hlasting⟩ := WellFormed.source_lasting hk hp hj
    exact hlasting.trans (h.copy j e he (hcontainer.symm.trans hd))
  · intro j d r hj hd hr
    rcases Host.resume_calls hj with ⟨-, hold⟩ | ⟨rfl, ⟨c', rfl, -, rfl⟩ | ⟨rfl, -, rfl⟩⟩
    · exact h.sent j d r hold hd hr
    · obtain ⟨r', hr', heq⟩ := hp.req_source hr
      exact heq.symm.trans (h.sent _ c r' hk (hp.container_eq.symm.trans hd) hr')
    · exact h.sent _ c r hk hd hr

/-- Without an adjust, every step keeps the descent. -/
theorem Descends.step {e : Event} (wf : WellFormed s) (h : Descends id req s) (hD : NotAdjust e)
    (he : s.step e = some t) : Descends id req t := by
  have kept : ∀ d, id ∈ s.dirs.orderedInsert (· ≤ ·) d := fun d =>
    (List.mem_orderedInsert _).mpr (.inr h.dir)
  cases Host.stepped he with
  | ran fresh =>
      refine (h.of_dirs (kept _)).begin ?_
      rintro rfl
      exact absurd h.dir fresh
  | createdAndRan fresh =>
      refine (h.of_dirs (kept _)).begin ?_
      rintro rfl
      exact absurd h.dir fresh
  | starting found =>
      refine h.begin ?_
      rintro rfl
      exact ⟨(wf.consistent.startable found).1, rfl⟩
  | stopping found =>
      refine h.begin ?_
      rintro rfl
      exact ⟨(wf.consistent.running found).1, rfl⟩
  | adjusting => exact absurd rfl hD
  | refused => exact h
  | staged call todo performed => exact h.stage call (perform_performed performed)
  | moved moved => exact ⟨h.dir, moved.config ▸ h.record, h.copy, h.sent⟩
  | ticked => exact ⟨h.dir, h.record, h.copy, h.sent⟩

/-! ## What is sent -/

/-- `Start` has no request of its own to send. -/
theorem WellFormed.start_request (wf : WellFormed s) {k : CallId} {c : Call}
    (hk : s.calls k = some c) (hfn : c.fn = .start) :
    c.request = startRequest c.info c.vethPeer (c.allocatedIP.getD "") := by
  have hreq : c.req = none := by
    rw [← Option.not_isSome_iff_eq_none, (wf.call k c hk).request, hfn]
    decide
  rw [Call.request, hreq]

/-! ## Runs from a first request on -/

section
variable {s₀ : Host} (hs : Idle s₀) (hrun : Reaches Host.step (fun _ _ => True) s₀ s)
  (hid : id ∉ s.dirs)
  (h : Reaches Host.step (fun _ e => NotAdjust e) (s.runContainer req id) t)
include hs hrun hid h

/-- What a run that begins with the first launch keeps of its request. -/
theorem descends_of_run : WellFormed t ∧ Descends id req t := by
  have wf : WellFormed s := hrun.invariant (I := WellFormed) hs.wellFormed
    fun _ _ _ wf _ he => wf.step he
  have hstep : s.step (.runContainer req id) = some (s.runContainer req id) := if_neg hid
  exact h.invariant (I := fun t => WellFormed t ∧ Descends id req t)
    ⟨wf.step hstep, descends_runContainer wf hid⟩
    fun _ _ _ ⟨wf, hi⟩ hD he => ⟨wf.step he, hi.step wf hD he⟩

variable {k : CallId} {c : Call} (hk : t.calls k = some c) (hc : c.container = id)
include hk hc

/-- The first run sends its own request. -/
theorem launch_agrees (hfn : c.fn = .runContainer) : Agrees (launchRequest id req) c.request := by
  obtain ⟨wf, hd⟩ := descends_of_run hs hrun hid h
  obtain ⟨r, hr⟩ := Option.isSome_iff_exists.mp ((wf.call k c hk).request.mpr (.inl hfn))
  have hlasting : RunRequest.lasting c.request = RunRequest.lasting (launchRequest id req) := by
    rw [← hd.sent k c r hk hc hr, Call.request, hr]
    rfl
  have field : ∀ {α : Type} (f : RunRequest → α), f (RunRequest.lasting c.request) =
      f (RunRequest.lasting (launchRequest id req)) := fun f => congrArg f hlasting
  exact ⟨field RunRequest.imageName, field RunRequest.imageTag,
    field RunRequest.containerCommand, field RunRequest.containerArgs,
    field RunRequest.containerName, field RunRequest.mountPoint, field RunRequest.containerLimits,
    field RunRequest.containerID, field RunRequest.requestedIP⟩

/-- **What survives**: after a first run whose image is one that `Parse` gives, and
without an adjust, a restart sends the same image, command, mount point, limits, id and
requested address. -/
theorem restart_survives {image : String} (himage : parse image = (req.imageName, req.imageTag))
    (hfn : c.fn = .start) :
    Agrees { launchRequest id req with containerName := "", containerArgs := [] } c.request := by
  obtain ⟨wf, hd⟩ := descends_of_run hs hrun hid h
  have field : ∀ {α : Type} (f : ContainerInfo → α), f (ContainerInfo.lasting c.info) =
      f (ContainerInfo.lasting
        { newInfo id (launchRequest id req) with requestedIP := req.requestedIP }) :=
    fun f => congrArg f (hd.copy k c hk hc)
  have himg : parse c.info.image = (req.imageName, req.imageTag) := by
    have hi : c.info.image = imageText req.imageName req.imageTag := field ContainerInfo.image
    have hparse := parse_imageText image
    rwa [himage, ← hi] at hparse
  rw [wf.start_request hk hfn]
  exact ⟨congrArg Prod.fst himg, congrArg Prod.snd himg, field ContainerInfo.command, rfl, rfl,
    field ContainerInfo.mountPoint, field ContainerInfo.limits, field ContainerInfo.id,
    field ContainerInfo.requestedIP⟩

end

/-- **A restart runs another container**: whatever the request of the first run, no
request of a restart has its name, which `RunContainer` never leaves empty. -/
theorem restart_differs (hs : Idle s) (h : Reaches Host.step (fun _ _ => True) s t) {k : CallId}
    {c : Call} (hk : t.calls k = some c) (hfn : c.fn = .start) (hid : id ≠ "") :
    ¬ Agrees (launchRequest id req) c.request := by
  have wf : WellFormed t := h.invariant (I := WellFormed) hs.wellFormed
    fun _ _ _ wf _ he => wf.step he
  intro hagrees
  have hname := hagrees.name
  rw [wf.start_request hk hfn] at hname
  have hempty : (if req.containerName = "" then id else req.containerName) = "" := hname.symm
  split_ifs at hempty with hreq
  · exact hid hempty
  · exact hreq hempty

/-- `gocker run --name box alpine /bin/echo hello` -/
def echoRequest : RunRequest :=
  { shellRequest with
      containerName := "box", containerCommand := "/bin/echo", containerArgs := ["hello"] }

/-- The first run of the container, up to its end. -/
def echoRun : List Event :=
  .runContainer echoRequest "a" :: stages 0 2 ++ .step 0 (.child 100) :: stages 0 4

/-- The process exits, and the container is started again. -/
def echoRestart : List Event :=
  .exit 100 :: stages 0 4 ++ .start "a" [] :: .step 1 (.child 101) :: stages 1 3

/-- A container that runs `echo` with an argument is restarted, and its request has no
arguments. -/
theorem restart_differs_echo :
    ∃ (t : Host) (c : Call), t.calls 1 = some c ∧
      ¬ Agrees (launchRequest "a" echoRequest) c.request := by
  let t := outcome Host.step (fun _ _ => True) emptyHost (echoRun ++ echoRestart)
  obtain ⟨c, hk, hfn⟩ : ∃ c ∈ t.calls 1, c.fn = .start := by decide +kernel
  exact ⟨t, c, hk, restart_differs emptyHost_idle (reaches_outcome ..) hk hfn (by decide)⟩

/-- The process of the first run and the one of its restart get different requests. -/
theorem restart_changes_request :
    ∃ s t, Reaches Host.step (fun _ e => NotAdjust e) emptyHost s ∧
      Reaches Host.step (fun _ e => NotAdjust e) s t ∧
      ∃ x ∈ s.world.procs 100, ∃ y ∈ t.world.procs 101, y.container = x.container ∧
        ∃ r ∈ x.pipe, ∃ r' ∈ y.pipe, ¬ Agrees r r' := by
  refine ⟨outcome Host.step (fun _ e => NotAdjust e) emptyHost echoRun,
    outcome Host.step (fun _ e => NotAdjust e)
      (outcome Host.step (fun _ e => NotAdjust e) emptyHost echoRun) echoRestart,
    reaches_outcome .., reaches_outcome .., ?_⟩
  decide +kernel

end Gocker.Container
