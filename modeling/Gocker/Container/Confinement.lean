import Gocker.Lib.Machine
import Gocker.Container.Steps

/-!
# Commands and their cgroup

The launched process waits for its request and then goes on by itself, up to the
commands of the container.  `RunContainer` and `CreateAndRun` set up the cgroup
before they send the request; `Start` sends the request first.

`commands_confined` covers every run of the launching functions and of
`StopContainer`, with any number of restarts, signals and completions of earlier runs
in between: a process is in the cgroup of its container, with the limits of its
launch, whenever it is about to run a command, provided that the child of a `Start`
takes its request only after the `SetupCgroup` of that call.  `command_unconfined` is
the run in which it does not wait for that.

### The condition

`DecodesConfined` is about one step: the process of a `Start` takes its request from the pipe.
The condition is that its call has set up the cgroup by then.  The source orders the two the
other way round, and nothing in `InitContainer` waits, so whether the condition holds is a
matter of scheduling.

### The invariant

Membership in a cgroup is lost in three ways: the process ends, another `SetupCgroup` takes it,
or the directory is removed.  A directory with a process in it cannot be removed, so the
completion of an earlier run does no harm to the process of a later one; that is `Confined` and
its lemmas.
-/

namespace Gocker.Container

open Machine

/-! ## Limits of a cgroup -/

/-- The control files hold the limits. -/
structure Limited (limits : ContainerLimits) (g : Cgroup) : Prop where
  cpu : 0 < limits.cpuLimit →
    g.cpuMax = some (toString (wrapInt (limits.cpuLimit * 100000)) ++ " 100000")
  memory : 0 < limits.memoryLimit → g.memoryMax = some (toString limits.memoryLimit)
  pids : 0 < limits.pidsLimit → g.pidsMax = some (toString limits.pidsLimit)

variable {limits : ContainerLimits} {g : Cgroup}

/-- What every write keeps, any number of them keeps. -/
theorem setResourceLimits_keeps {P : Cgroup → Prop}
    (hP : ∀ write ∈ limitWrites limits, ∀ g, P g → P (write g)) (n : ℕ) (hg : P g) :
    P (setResourceLimits n limits g) := by
  have keeps : ∀ writes : List (Cgroup → Cgroup), (∀ write ∈ writes, ∀ g, P g → P (write g)) →
      ∀ g, P g → P (writes.foldl (fun g write => write g) g) := by
    intro writes
    induction writes with
    | nil => exact fun _ _ hg => hg
    | cons write writes ih =>
        intro hw g hg
        exact ih (fun w hmem => hw w (List.mem_cons_of_mem _ hmem)) _
          (hw write List.mem_cons_self g hg)
  exact keeps _ (fun write hmem => hP write (List.mem_of_mem_take hmem)) g hg

theorem setResourceLimits_procs (n : ℕ) (limits : ContainerLimits) (g : Cgroup) :
    (setResourceLimits n limits g).procs = g.procs := by
  refine setResourceLimits_keeps (P := fun g' => g'.procs = g.procs) ?_ n rfl
  intro write hmem g' hg
  simp only [limitWrites, List.mem_append] at hmem
  rcases hmem with (hmem | hmem) | hmem <;> split_ifs at hmem <;>
    first
    | exact absurd hmem List.not_mem_nil
    | (obtain rfl := List.mem_singleton.mp hmem; exact hg)

/-- Limits that are set stay set. -/
theorem Limited.setResourceLimits (h : Limited limits g) (n : ℕ) :
    Limited limits (setResourceLimits n limits g) := by
  refine setResourceLimits_keeps ?_ n h
  intro write hmem g' hg
  simp only [limitWrites, List.mem_append] at hmem
  rcases hmem with (hmem | hmem) | hmem <;> split_ifs at hmem <;>
    first | exact absurd hmem List.not_mem_nil | obtain rfl := List.mem_singleton.mp hmem
  · exact ⟨fun _ => rfl, hg.memory, hg.pids⟩
  · exact ⟨hg.cpu, fun _ => rfl, hg.pids⟩
  · exact ⟨hg.cpu, hg.memory, fun _ => rfl⟩

/-- All the writes together set the limits. -/
theorem limited_setResourceLimits (limits : ContainerLimits) (g : Cgroup) :
    Limited limits (setResourceLimits 3 limits g) := by
  unfold Container.setResourceLimits limitWrites
  constructor <;> intro hpos <;> split_ifs <;> rfl

/-! ## Members of a cgroup -/

/-- The process is in the cgroup of the container, with the limits set. -/
def Confined (gs : Cgroups) (d : ContainerID) (limits : ContainerLimits) (p : PID) : Prop :=
  ∃ g, gs d = some g ∧ p ∈ g.procs ∧ Limited limits g

section
variable {gs : Cgroups} {w : World} {d id : ContainerID} {l : ContainerLimits} {p q : PID}

/-- A process stays in its cgroup when another one leaves. -/
theorem Confined.leave (h : Confined gs d limits p) (hne : p ≠ q) :
    Confined (gs.leave q) d limits p := by
  obtain ⟨g, hg, hp, hl⟩ := h
  refine ⟨_, congrArg (Option.map _) hg, ?_, hl.cpu, hl.memory, hl.pids⟩
  exact List.mem_filter.mpr ⟨hp, by simpa using hne⟩

/-- A directory with members is not removed. -/
theorem Confined.cleanup (h : Confined gs d limits p) (name : String) :
    Confined (gs.cleanup name) d limits p := by
  unfold Cgroups.cleanup
  split
  · next g hg =>
      split_ifs with hprocs
      · obtain ⟨g', hg', hp, hl⟩ := h
        refine ⟨g', ?_, hp, hl⟩
        rw [Function.update_of_ne]
        · exact hg'
        · rintro rfl
          obtain rfl := Option.some.inj (hg.symm.trans hg')
          rw [hprocs] at hp
          exact absurd hp List.not_mem_nil
      · exact h
  · exact h

/-- Another `SetupCgroup` with the same limits takes no member away. -/
theorem Confined.setup (h : Confined w.cgroups d limits p) (hne : p ≠ q)
    (hlimits : id = d → l = limits) : Confined (w.setupCgroup id l q).cgroups d limits p := by
  rcases eq_or_ne d id with rfl | hother
  · obtain ⟨g, hg, hp, hl⟩ := h
    rw [World.setupCgroup, hlimits rfl]
    have hset := hl.setResourceLimits 3
    refine ⟨_, Function.update_self .., ?_, ?_⟩
    · rw [hg]
      refine List.mem_append_left _ (List.mem_filter.mpr ⟨?_, by simpa using hne⟩)
      exact (setResourceLimits_procs 3 limits g).symm ▸ hp
    · rw [hg]
      exact ⟨hset.cpu, hset.memory, hset.pids⟩
  · obtain ⟨g, hg, hp⟩ := h.leave hne
    exact ⟨g, (Function.update_of_ne hother ..).trans hg, hp⟩

/-- A `SetupCgroup` that fails removes no cgroup that has a process, and takes no limit away. -/
theorem Confined.failedSetup (h : Confined w.cgroups d limits p) (hlimits : id = d → l = limits)
    (n : ℕ) : Confined (w.failSetupCgroup id l n).cgroups d limits p := by
  cases n with
  | zero => exact h
  | succ n =>
      refine Confined.cleanup ?_ id
      rcases eq_or_ne d id with rfl | hother
      · obtain ⟨g, hg, hp, hl⟩ := h
        refine ⟨_, Function.update_self .., ?_, ?_⟩
        · rw [hg, hlimits rfl]
          exact (setResourceLimits_procs n limits g).symm ▸ hp
        · rw [hg, hlimits rfl]
          exact hl.setResourceLimits n
      · obtain ⟨g, hg, hp⟩ := h
        exact ⟨g, (Function.update_of_ne hother ..).trans hg, hp⟩

/-- A live process is a member after its `SetupCgroup`. -/
theorem confined_setupCgroup (halive : (w.procs p).any (·.alive) = true) :
    Confined (w.setupCgroup id l p).cgroups id l p := by
  have hset := limited_setResourceLimits l ((w.cgroups id).getD .empty)
  refine ⟨_, Function.update_self .., ?_, hset.cpu, hset.memory, hset.pids⟩
  exact List.mem_append_right _ (by rw [if_pos halive]; exact List.mem_singleton_self p)

end

/-! ## The property and its condition -/

/-- A live process that is about to run a command is in the cgroup of its container,
with the limits of its launch. -/
def CommandsConfined (s : Host) : Prop :=
  ∀ p x, s.world.procs p = some x → x.alive = true →
    (∃ st ∈ x.todo.head?, st.isCommand = true) →
      ∃ c, s.calls x.launcher = some c ∧ Confined s.world.cgroups x.container c.launchLimits p

/-- The child of a `Start` takes its request only after the `SetupCgroup` of the call. -/
def DecodesConfined (s : Host) : Event → Prop
  | .init p .ok => ∀ x ∈ s.world.procs p, x.todo.head? = some .decode →
      ∀ c ∈ s.calls x.launcher, c.fn = .start → .setupCgroup ∉ c.todo
  | _ => True

instance (s : Host) (e : Event) : Decidable (DecodesConfined s e) := by
  unfold DecodesConfined
  split <;> infer_instance

/-! ## The limits of a container -/

/-- Without an adjust, all copies of the record of a container have the same limits. -/
structure SameLimits (s : Host) : Prop where
  fn : ∀ k c, s.calls k = some c → c.fn ≠ .adjustResourceLimits
  request : ∀ k c req, s.calls k = some c → c.req = some req →
    req.containerLimits = c.info.limits
  record : ∀ k c r, s.calls k = some c → s.world.config c.container = some r →
    r.limits = c.info.limits
  copies : ∀ i j c d, s.calls i = some c → s.calls j = some d → d.container = c.container →
    d.info.limits = c.info.limits

variable {s t : Host}

/-- A call gives `SetupCgroup` the limits of its copy of the record. -/
theorem SameLimits.launchLimits (h : SameLimits s) {k : CallId} {c : Call}
    (hk : s.calls k = some c) : c.launchLimits = c.info.limits := by
  unfold Call.launchLimits
  split
  · next req hreq => exact h.request k c req hk hreq
  · rfl

theorem SameLimits.of_dirs (h : SameLimits s) (dirs : List ContainerID) :
    SameLimits { s with dirs := dirs } :=
  ⟨h.fn, h.request, h.record, h.copies⟩

/-- A call begins with the limits that the record and the other calls have. -/
theorem SameLimits.begin (h : SameLimits s) {fn : Fn} {info : ContainerInfo}
    {req : Option RunRequest} (hfn : fn ≠ .adjustResourceLimits)
    (hreq : ∀ r, req = some r → r.containerLimits = info.limits)
    (hrecord : ∀ r, s.world.config info.id = some r → r.limits = info.limits)
    (hcopies : ∀ k c, s.calls k = some c → c.container = info.id → c.info.limits = info.limits) :
    SameLimits (s.begin fn info req) where
  fn k c hk := by
    rcases WellFormed.begin_calls hk with ⟨-, rfl⟩ | ⟨-, hold⟩
    · exact hfn
    · exact h.fn k c hold
  request k c r hk hr := by
    rcases WellFormed.begin_calls hk with ⟨-, rfl⟩ | ⟨-, hold⟩
    · exact hreq r hr
    · exact h.request k c r hold hr
  record k c r hk hr := by
    rcases WellFormed.begin_calls hk with ⟨-, rfl⟩ | ⟨-, hold⟩
    · exact hrecord r hr
    · exact h.record k c r hold hr
  copies i j c d hi hj heq := by
    rcases WellFormed.begin_calls hi with ⟨-, rfl⟩ | ⟨-, hi⟩
    · rcases WellFormed.begin_calls hj with ⟨-, rfl⟩ | ⟨-, hj⟩
      · rfl
      · exact hcopies j d hj heq
    · rcases WellFormed.begin_calls hj with ⟨-, rfl⟩ | ⟨-, hj⟩
      · exact (hcopies i c hi heq.symm).symm
      · exact h.copies i j c d hi hj heq

section
variable {k : CallId} {c : Call} {st : Stage} {rest : List Stage} {o : Outcome} {w' : World}
  {after : After}

/-- No stage changes the limits of a container: writes copy them, and requests carry them. -/
theorem SameLimits.stage (h : SameLimits s) (hk : s.calls k = some c)
    (hp : Performed s.world s.clock k c st o w' after) :
    SameLimits (s.resume k c rest (w', after)) where
  fn j d hj := by
    obtain ⟨e, he, hfn, -⟩ := WellFormed.source hk hp hj
    rw [hfn]
    exact h.fn j e he
  request j d req hj hreq := by
    rcases Host.resume_calls hj with ⟨-, hold⟩ | ⟨rfl, ⟨c', rfl, -, rfl⟩ | ⟨rfl, -, rfl⟩⟩
    · exact h.request j d req hold hreq
    · obtain ⟨req', hreq', heq⟩ := hp.req_source hreq
      have hlimits := congrArg RunRequest.containerLimits heq
      exact hlimits.symm.trans ((h.request _ c req' hk hreq').trans hp.limits_eq.symm)
    · exact h.request _ c req hk hreq
  record j d r hj hr := by
    obtain ⟨e, he, hcontainer, hlimits⟩ := WellFormed.source_lasting hk hp hj
    rw [Host.resume_config, hcontainer] at hr
    rw [limits_of_lasting hlimits]
    rcases hp.record_source hr with hold | ⟨wr, -, hown, rfl, -⟩
    · exact h.record j e r he hold
    · rw [Call.record_limits]
      exact h.copies j k e c he hk hown.symm
  copies i j d e hi hj heq := by
    obtain ⟨d', hi', hdc, hdl⟩ := WellFormed.source_lasting hk hp hi
    obtain ⟨e', hj', hec, hel⟩ := WellFormed.source_lasting hk hp hj
    rw [limits_of_lasting hdl, limits_of_lasting hel]
    exact h.copies i j d' e' hi' hj' (hec.symm.trans (heq.trans hdc))

end

/-- Without an adjust, the limits of a container stay those of its first request. -/
theorem SameLimits.step {e : Event} (wf : WellFormed s) (h : SameLimits s) (hD : NotAdjust e)
    (he : s.step e = some t) : SameLimits t := by
  have fresh : ∀ {id r}, id ∉ s.dirs → s.world.config id = some r → False := fun hid hr =>
    hid (wf.record _ _ hr).2
  have alone : ∀ {id k c}, id ∉ s.dirs → s.calls k = some c → c.container = id → False :=
    fun hid hk heq => hid (heq ▸ (wf.call _ _ hk).dir)
  have found : ∀ {info r}, s.world.config info.id = some info → s.world.config info.id = some r →
      r.limits = info.limits := fun hinfo hr => by
    obtain rfl := Option.some.inj (hinfo.symm.trans hr)
    rfl
  have same : ∀ {info}, s.world.config info.id = some info → ∀ k c, s.calls k = some c →
      c.container = info.id → c.info.limits = info.limits := fun hinfo k c hk heq =>
    (h.record k c _ hk (heq ▸ hinfo)).symm
  cases Host.stepped he with
  | ran hid =>
      refine (h.of_dirs _).begin (by decide) (fun r hr => ?_) (fun _ hr => (fresh hid hr).elim)
        fun _ _ hk heq => (alone hid hk heq).elim
      obtain rfl := Option.some.inj hr
      rfl
  | createdAndRan hid =>
      refine (h.of_dirs _).begin (by decide) (fun r hr => ?_) (fun _ hr => (fresh hid hr).elim)
        fun _ _ hk heq => (alone hid hk heq).elim
      obtain rfl := Option.some.inj hr
      rfl
  | starting hfound =>
      have hinfo := (wf.consistent.startable hfound).1
      exact h.begin (by decide) nofun (fun _ => found hinfo) (same hinfo)
  | stopping hfound =>
      have hinfo := (wf.consistent.running hfound).1
      exact h.begin (by decide) nofun (fun _ => found hinfo) (same hinfo)
  | adjusting => exact absurd rfl hD
  | refused => exact h
  | staged call todo performed => exact h.stage call (perform_performed performed)
  | moved moved =>
      refine ⟨h.fn, h.request, ?_, h.copies⟩
      rw [moved.config]
      exact h.record
  | ticked => exact ⟨h.fn, h.request, h.record, h.copies⟩

/-! ## The invariant -/

/-- How far a process can be, given how far its launcher is. -/
structure Confining (s : Host) : Prop where
  setup : ∀ p x c, s.world.procs p = some x → x.alive = true → s.calls x.launcher = some c →
    .setupCgroup ∉ c.todo → Confined s.world.cgroups c.container c.launchLimits p
  sent : ∀ p x c, s.world.procs p = some x → s.calls x.launcher = some c →
    x.pipe.isSome = true → .encode ∉ c.todo
  decoded : ∀ p x c, s.world.procs p = some x → s.calls x.launcher = some c →
    x.todo.head? ≠ some .decode → .setupCgroup ∉ c.todo

/-- The invariant gives the property: a process that is about to run a command has decoded its
request. -/
theorem Confining.commandsConfined (wf : WellFormed s) (h : Confining s) :
    CommandsConfined s := by
  rintro p x hx halive ⟨st, hst, hcommand⟩
  obtain ⟨c, hc, -, hcontainer⟩ := wf.launcher hx
  refine ⟨c, hc, hcontainer ▸ h.setup p x c hx halive hc (h.decoded p x c hx hc ?_)⟩
  rw [Option.mem_def] at hst
  rw [hst]
  rintro heq
  obtain rfl := Option.some.inj heq
  exact absurd hcommand Bool.false_ne_true

theorem Confining.begin (wf : WellFormed s) (h : Confining s) {fn : Fn} {info : ContainerInfo}
    {req : Option RunRequest} : Confining (s.begin fn info req) := by
  have old : ∀ {p x c}, s.world.procs p = some x →
      (s.begin fn info req).calls x.launcher = some c → s.calls x.launcher = some c :=
    fun hx hc => by
      rcases WellFormed.begin_calls hc with ⟨hl, -⟩ | ⟨-, hold⟩
      · exact absurd hl (wf.launcher_ne hx)
      · exact hold
  exact ⟨fun p x c hx halive hc => h.setup p x c hx halive (old hx hc),
    fun p x c hx hc => h.sent p x c hx (old hx hc),
    fun p x c hx hc => h.decoded p x c hx (old hx hc)⟩

theorem Confining.of_dirs (h : Confining s) (dirs : List ContainerID) :
    Confining { s with dirs := dirs } :=
  ⟨h.setup, h.sent, h.decoded⟩

section
variable {k : CallId} {c : Call} {st : Stage} {rest : List Stage} {o : Outcome} {w' : World}
  {after : After}

/-- A stage takes no member of a cgroup away, except the child of a call that gives
up. -/
theorem Confined.stage {d : ContainerID} {p : PID} (h : Confined s.world.cgroups d limits p)
    (hp : Performed s.world s.clock k c st o w' after)
    (hst : st ≠ .setResourceLimits) (hlimits : c.container = d → c.launchLimits = limits)
    (hchild : st = .setupCgroup ∨ after = .giveUp → c.child ≠ some p) :
    Confined (s.resume k c rest (w', after)).world.cgroups d limits p := by
  have regrouped : ∀ {gs}, Regrouped s.world c st o gs → Confined gs d limits p := by
    rintro gs (⟨child⟩ | _ | _ | _ | _)
    · exact h.setup (fun heq => hchild (.inl rfl) (heq ▸ child)) hlimits
    · exact h.failedSetup hlimits _
    · exact h.cleanup _
    · exact absurd rfl hst
    · exact h
  cases hp with
  | allocated | written | torn | unwritten | launched | encoded | waited | released | peered =>
      exact h
  | plain _ _ hgs => exact regrouped hgs
  | gaveUp _ _ _ hgs =>
      have hkept := regrouped hgs
      rw [show (s.resume k c rest _).world = World.kill _ c.child from rfl]
      cases hc : c.child with
      | none => exact hkept
      | some q => exact hkept.leave fun heq => hchild (.inr rfl) (heq ▸ hc)

variable (wf : WellFormed s) (hsame : SameLimits s) (h : Confining s) (hk : s.calls k = some c)
  (htodo : c.todo = st :: rest) (hp : Performed s.world s.clock k c st o w' after)
include wf hsame h hk htodo hp

/-- A process is confined once its call has set up the cgroup. -/
theorem Confining.stage_setup {p : PID} {x : Proc} {d : Call}
    (hx : (s.resume k c rest (w', after)).world.procs p = some x) (halive : x.alive = true)
    (hd : (s.resume k c rest (w', after)).calls x.launcher = some d)
    (hset : .setupCgroup ∉ d.todo) :
    Confined (s.resume k c rest (w', after)).world.cgroups d.container d.launchLimits p := by
  have hprog : st :: rest <:+ c.fn.program := htodo ▸ (wf.call k c hk).program
  have hst : st ≠ .setResourceLimits := by
    rintro rfl
    exact hsame.fn k c hk (adjust_of_setResourceLimits hprog)
  have hlimits : ∀ {j e}, s.calls j = some e → c.container = e.container →
      c.launchLimits = e.launchLimits := fun he heq => by
    rw [hsame.launchLimits hk, hsame.launchLimits he]
    exact hsame.copies _ _ _ _ he hk heq
  rcases wf.procs_source hk hp hx with ⟨rfl, rfl⟩ | ⟨y, hy, hl, -, hya, -⟩
  · -- a new process, whose cgroup is still to come
    rcases Host.resume_calls hd with ⟨hne, -⟩ | ⟨-, ⟨c', rfl, -, rfl⟩ | ⟨rfl, -⟩⟩
    · exact absurd rfl hne
    · exact absurd (setup_after_launch hprog) hset
    · obtain ⟨hne, -⟩ | ⟨-, -, c', hgo, -⟩ := wf.procs_inv hk htodo hp hx
      · exact absurd rfl hne
      · exact absurd hgo nofun
  · have hya : y.alive = true := hya.trans halive
    rcases Host.resume_calls hd with ⟨hne, hold⟩ | ⟨hl', ⟨c', rfl, -, rfl⟩ | ⟨rfl, -⟩⟩
    · -- of another call, perhaps for the same container, then with the same limits
      refine (h.setup p y d hy hya (hl ▸ hold) hset).stage hp hst (hlimits hold) fun _ hchild => ?_
      obtain ⟨z, hz, hlauncher, -⟩ := (wf.call k c hk).proc p hchild
      obtain rfl := Option.some.inj (hy.symm.trans hz)
      exact hne (hl.symm.trans hlauncher)
    · -- the process of the call that takes the stage
      have hown : s.calls y.launcher = some c := (hl.trans hl') ▸ hk
      have hchild : c.child = some p := by
        obtain ⟨e, he, hchild, -⟩ := wf.launcher hy
        obtain rfl := Option.some.inj (hown.symm.trans he)
        exact hchild
      have hcontainer := hp.container_eq
      have hlaunch : Call.launchLimits { c' with todo := rest } = c.launchLimits := by
        have hafter := (hsame.stage hk hp).launchLimits hd
        rw [hafter, hsame.launchLimits hk]
        exact hp.limits_eq
      rw [hlaunch, show ({ c' with todo := rest } : Call).container = c.container from hcontainer]
      by_cases hsetup : st = .setupCgroup
      · subst hsetup
        cases hp with
        | plain _ ho hgs =>
            cases hgs with
            | failedSetup => exact absurd (ho rfl) nofun
            | setup child =>
                obtain rfl := Option.some.inj (child.symm.trans hchild)
                exact confined_setupCgroup (by rw [hy]; exact hya)
            | same hne => exact absurd rfl hne
      · have hbefore : .setupCgroup ∉ c.todo := by
          rw [htodo]
          exact fun hmem => (List.mem_cons.mp hmem).elim (fun heq => hsetup heq.symm) hset
        refine (h.setup p y c hy hya hown hbefore).stage hp hst (fun _ => rfl) ?_
        rintro (heq | heq)
        · exact absurd heq hsetup
        · exact absurd heq nofun
    · obtain ⟨hne, -⟩ | ⟨-, -, c', hgo, -⟩ := wf.procs_inv hk htodo hp hx
      · exact absurd hl' hne
      · exact absurd hgo nofun

/-- The invariant survives a stage: the cgroup of a process is touched by its own call and by
calls that complete. -/
theorem Confining.stage : Confining (s.resume k c rest (w', after)) := by
  have hprog : st :: rest <:+ c.fn.program := htodo ▸ (wf.call k c hk).program
  -- what a call has behind it before a stage, it has behind it afterwards
  have behind : ∀ {x : Proc} {d : Call} {st' : Stage}, st' ≠ .releaseIP →
      (s.resume k c rest (w', after)).calls x.launcher = some d →
      (∀ e, s.calls x.launcher = some e → st' ∉ e.todo) → st' ∉ d.todo := by
    intro x d st' hst' hd hbefore
    rcases Host.resume_calls hd with ⟨-, hold⟩ | ⟨hl, ⟨c', rfl, -, rfl⟩ | ⟨rfl, -, rfl⟩⟩
    · exact hbefore d hold
    · intro hmem
      exact hbefore c (hl ▸ hk) (htodo ▸ List.mem_cons_of_mem _ hmem)
    · intro hmem
      exact hst' (List.mem_singleton.mp hmem)
  refine ⟨fun p x d hx halive hd hset => h.stage_setup wf hsame hk htodo hp hx halive hd hset,
    fun p x d hx hd hpipe => ?_, fun p x d hx hd hhead => ?_⟩
  · rcases wf.procs_source hk hp hx with ⟨rfl, rfl⟩ | ⟨y, hy, hl, -, -, hsame | ⟨rfl, hl'⟩⟩
    · exact absurd hpipe Bool.false_ne_true
    · refine behind nofun hd fun e he => ?_
      exact h.sent p y e hy (hl ▸ he) (hsame ▸ hpipe)
    · rcases Host.resume_calls hd with ⟨hne, -⟩ | ⟨-, ⟨c', rfl, -, rfl⟩ | ⟨rfl, -, rfl⟩⟩
      · exact absurd hl' hne
      · exact not_mem_rest hprog
      · exact fun hmem => absurd (List.mem_singleton.mp hmem) nofun
  · rcases wf.procs_source hk hp hx with ⟨rfl, rfl⟩ | ⟨y, hy, hl, htodo, -⟩
    · exact absurd rfl hhead
    · refine behind nofun hd fun e he => ?_
      exact h.decoded p y e hy (hl ▸ he) (htodo ▸ hhead)

end

/-- A process that ends takes no other out of a cgroup, and one that decodes its
request is confined already. -/
theorem Confining.own {e : Event} {w' : World} (wf : WellFormed s) (h : Confining s)
    (hC : DecodesConfined s e) (how : Own s.world e w') : Confining { s with world := w' } := by
  cases how with
  | @ended e p x hp =>
      have source : ∀ {q y}, (s.world.exit p).procs q = some y → ∃ z, s.world.procs q = some z ∧
          z.launcher = y.launcher ∧ z.pipe = y.pipe ∧ z.todo = y.todo ∧
            (y.alive = true → z.alive = true ∧ q ≠ p) := by
        intro q y hy
        rcases of_update_eq_some hy with ⟨rfl, hnew⟩ | ⟨hne, hold⟩
        · rw [hp] at hnew
          obtain rfl := Option.some.inj hnew
          exact ⟨x, hp, rfl, rfl, rfl, fun halive => absurd halive Bool.false_ne_true⟩
        · exact ⟨y, hold, rfl, rfl, rfl, fun halive => ⟨halive, hne⟩⟩
      refine ⟨fun q y c hy halive hc hset => ?_, fun q y c hy hc hpipe => ?_,
        fun q y c hy hc hhead => ?_⟩
      · obtain ⟨z, hz, hl, -, -, hza⟩ := source hy
        obtain ⟨hza, hne⟩ := hza halive
        exact (h.setup q z c hz hza (hl ▸ hc) hset).leave hne
      · obtain ⟨z, hz, hl, hpipe', -⟩ := source hy
        exact h.sent q z c hz (hl ▸ hc) (hpipe' ▸ hpipe)
      · obtain ⟨z, hz, hl, -, htodo, -⟩ := source hy
        exact h.decoded q z c hz (hl ▸ hc) (htodo ▸ hhead)
  | @next p o x todo hp sent =>
      have source : ∀ {q y}, (s.world.setProc p (some { x with todo := todo })).procs q = some y →
          (q = p ∧ y = { x with todo := todo }) ∨ s.world.procs q = some y := by
        intro q y hy
        rcases of_update_eq_some hy with ⟨rfl, hnew⟩ | ⟨-, hold⟩
        · exact .inl ⟨rfl, (Option.some.inj hnew).symm⟩
        · exact .inr hold
      refine ⟨fun q y c hy halive hc hset => ?_, fun q y c hy hc hpipe => ?_,
        fun q y c hy hc hhead => ?_⟩
      · rcases source hy with ⟨rfl, rfl⟩ | hy
        · exact h.setup q x c hp halive hc hset
        · exact h.setup q y c hy halive hc hset
      · rcases source hy with ⟨rfl, rfl⟩ | hy
        · exact h.sent q x c hp hc hpipe
        · exact h.sent q y c hy hc hpipe
      · rcases source hy with ⟨rfl, rfl⟩ | hy
        · by_cases hdecode : x.todo.head? = some .decode
          · obtain ⟨hpipe, rfl⟩ := sent hdecode
            -- `Start` alone sends the request before it sets up the cgroup
            by_cases hfn : c.fn = .start
            · exact hC x hp hdecode c hc hfn
            · exact setup_before_encode (wf.call _ c hc).program hfn (h.sent q x c hp hc hpipe)
          · exact h.decoded q x c hp hc hdecode
        · exact h.decoded q y c hy hc hhead

/-- The invariant survives every step that meets the condition. -/
theorem Confining.step {e : Event} (wf : WellFormed s) (hsame : SameLimits s) (h : Confining s)
    (hC : DecodesConfined s e) (he : s.step e = some t) : Confining t := by
  cases Host.stepped he with
  | ran | createdAndRan => exact (h.of_dirs _).begin (wf.of_fresh _)
  | starting | stopping | adjusting => exact h.begin wf
  | refused => exact h
  | staged call todo performed => exact h.stage wf hsame call todo (perform_performed performed)
  | moved _ own => exact h.own wf hC own
  | ticked => exact ⟨h.setup, h.sent, h.decoded⟩

/-- **Commands run within their limits**: in any run without an adjust in which the
child of a `Start` does not overtake its `SetupCgroup`, every process is in the cgroup
of its container, with the limits of its launch, whenever it is about to run a command. -/
theorem commands_confined (hs : Idle s)
    (h : Reaches Host.step (fun s e => NotAdjust e ∧ DecodesConfined s e) s t) :
    CommandsConfined t := by
  have start : SameLimits s ∧ Confining s :=
    ⟨⟨fun k c hk => (hs.nocall hk).elim, fun k c _ hk => (hs.nocall hk).elim,
        fun k c _ hk => (hs.nocall hk).elim, fun i _ c _ hi => (hs.nocall hi).elim⟩,
      ⟨fun _ _ c _ _ hc => (hs.nocall hc).elim, fun _ _ c _ hc => (hs.nocall hc).elim,
        fun _ _ c _ hc => (hs.nocall hc).elim⟩⟩
  have inv : WellFormed t ∧ SameLimits t ∧ Confining t :=
    h.invariant (I := fun s => WellFormed s ∧ SameLimits s ∧ Confining s)
      ⟨hs.wellFormed, start⟩ fun _ _ _ ⟨wf, hl, hi⟩ ⟨hD, hC⟩ he =>
        ⟨wf.step he, hl.step wf hD he, hi.step wf hl hC he⟩
  exact inv.2.2.commandsConfined inv.1

/-- The next `n` steps of `InitContainer` go well. -/
def initSteps (p : PID) (n : ℕ) : List Event := List.replicate n (.init p .ok)

/-- A container gets up to its monitor, and so does a restart of it that overlaps the
first run. -/
def restartWithinLimits : List Event :=
  launching 0 "a" 100 ++ initSteps 100 7 ++ .stopContainer "a" [] :: stages 1 3 ++
    .start "a" [] :: .step 2 (.child 101) :: stages 2 5 ++ initSteps 101 7

/-- A container is launched and started again, and both processes come to their commands. -/
theorem commands_confined_restart :
    ∃ t : Host, (∀ p ∈ [100, 101], ∃ x ∈ t.world.procs p, x.alive = true ∧
      x.todo.head? = some .startMonitor) ∧ CommandsConfined t :=
  ⟨outcome Host.step (fun s e => NotAdjust e ∧ DecodesConfined s e) emptyHost
      restartWithinLimits,
    by decide +kernel, commands_confined emptyHost_idle (reaches_outcome ..)⟩

/-- The child of a `Start` decodes its request before the call sets up the cgroup. -/
def restartOvertakes : List Event :=
  .start "a" [] :: .step 0 (.child 100) :: stages 0 3 ++ initSteps 100 7

/-- The monitor is about to start, and the container has no cgroup. -/
theorem command_unconfined :
    ∃ t, Reaches Host.step (fun _ e => NotAdjust e) stoppedHost t ∧ ¬ CommandsConfined t := by
  let t := outcome Host.step (fun _ e => NotAdjust e) stoppedHost restartOvertakes
  have process : ∃ x ∈ t.world.procs 100, x.alive = true ∧
      x.todo.head? = some .startMonitor ∧ t.world.cgroups x.container = none := by decide +kernel
  refine ⟨t, reaches_outcome .., fun h => ?_⟩
  obtain ⟨x, hx, halive, hhead, hnone⟩ := process
  obtain ⟨c, -, g, hg, -⟩ := h 100 x hx halive ⟨.startMonitor, hhead, rfl⟩
  exact absurd (hnone.symm.trans hg) nofun

end Gocker.Container
