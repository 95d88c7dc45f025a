import Gocker.Lib.Machine
import Gocker.Container.Steps

/-!
# Addresses of live containers

A process configures the address that its request carries, and the address stays
with the container as long as the allocator's map says so.  `Leased` is the
invariant between the two: an address held by a call whose process is alive or still
to be launched is the one that the map has for the container.

The map is released in three places: at the end of `RunContainer` and of `Start`,
after the wait, and in `StopContainer`, right after the signal.  `unshared_of_reaches`
says that live containers have different addresses as long as no release comes while
another call of the container relies on its address.

An allocation is one step here.  `Container/Leases.lean` takes the result to the file
operations that it consists of.

### The condition

`ReleasesUnused` looks at the state before a release: a running call of the same container that
still holds an address must have neither its launch ahead nor a live process.  A release after
the wait of the only running call meets it.  The release of `StopContainer` meets it only if the
process has ended by then, and the code does not wait for that.

The proof is the usual one: `Accounted` and `Leased` survive the beginning of a call, a stage
and a move of a process.  Two live processes with one address would be two containers with one
address in the map, and the map is injective (`Valid`).
-/

namespace Gocker.Container

open Machine Network

/-- No two containers with a live process have been configured with one address. -/
def AddressesUnshared (s : Host) : Prop :=
  ∀ p q x y r u, s.world.procs p = some x → s.world.procs q = some y → x.alive → y.alive →
    x.pipe = some r → y.pipe = some u → r.ipAddress = u.ipAddress → x.container = y.container

/-- `CreateAndRun`, which allocates no address, is not among the operations. -/
def NotCreateAndRun (e : Event) : Prop := e.calls ≠ some .createAndRun

/-- The call holds an address, for a process that is alive or still to be launched. -/
def Call.Relies (s : Host) (c : Call) : Prop :=
  c.allocatedIP ≠ none ∧
    (.launch ∈ c.todo ∨ ∃ p ∈ c.child, ∃ x ∈ s.world.procs p, x.alive = true)

instance (s : Host) (c : Call) : Decidable (c.Relies s) := by
  unfold Call.Relies
  infer_instance

/-- When a call releases the address of its container, no call of the container
relies on it. -/
def ReleasesUnused (s : Host) (e : Event) : Prop :=
  ∀ ko ∈ e.stage, ∀ c ∈ s.calls ko.1, c.todo.head? = some .releaseIP →
    ∀ j < s.nextCall, ∀ d ∈ s.calls j, d.container = c.container → ¬ d.Relies s

instance (e : Event) : Decidable (NotCreateAndRun e) := inferInstanceAs (Decidable (_ ≠ _))

instance (s : Host) (e : Event) : Decidable (ReleasesUnused s e) := by
  unfold ReleasesUnused
  infer_instance

/-- What a call knows of its address: it has one between the allocation and the release,
its request has that address, and so has what its process got. -/
structure Accounted (s : Host) : Prop where
  valid : Valid s.world.ipam
  holds : ∀ k c, s.calls k = some c → c.fn ≠ .createAndRun → c.fn.launches →
    (c.allocatedIP.isSome ↔ .allocateIP ∉ c.todo ∧ .releaseIP ∈ c.todo)
  request : ∀ k c a req, s.calls k = some c → c.allocatedIP = some a → c.req = some req →
    req.ipAddress = a
  pipe : ∀ p x r c, s.world.procs p = some x → x.pipe = some r → s.calls x.launcher = some c →
    c.fn ≠ .createAndRun → c.allocatedIP = some r.ipAddress

/-- The invariant of the runs without `CreateAndRun`.  Besides the account of `Accounted` it says
that an address which a process is configured with, or will be, is the one that the map has:
`ahead` until the launch, and `live` while the process is alive. -/
structure Leased (s : Host) : Prop where
  valid : Valid s.world.ipam
  fn : ∀ k c, s.calls k = some c → c.fn ≠ .createAndRun
  holds : ∀ k c, s.calls k = some c → c.fn.launches →
    (c.allocatedIP.isSome ↔ .allocateIP ∉ c.todo ∧ .releaseIP ∈ c.todo)
  request : ∀ k c a req, s.calls k = some c → c.allocatedIP = some a → c.req = some req →
    req.ipAddress = a
  ahead : ∀ k c a, s.calls k = some c → c.allocatedIP = some a → .launch ∈ c.todo →
    s.world.ipam.lookup c.container = some a
  live : ∀ p x c a, s.world.procs p = some x → x.alive → s.calls x.launcher = some c →
    c.allocatedIP = some a → s.world.ipam.lookup c.container = some a
  pipe : ∀ p x r c, s.world.procs p = some x → x.pipe = some r → s.calls x.launcher = some c →
    c.allocatedIP = some r.ipAddress

/-- An address held by live processes of two containers would be two times in the
map. -/
theorem Leased.unshared {s : Host} (wf : WellFormed s) (h : Leased s) : AddressesUnshared s := by
  intro p q x y r u hp hq hx hy hr hu heq
  obtain ⟨c, hc, -, hcx⟩ := wf.launcher hp
  obtain ⟨d, hd, -, hdy⟩ := wf.launcher hq
  have hcip := h.live p x c _ hp hx hc (h.pipe p x r c hp hr hc)
  have hdip := h.live q y d _ hq hy hd (h.pipe q y u d hq hu hd)
  rw [heq] at hcip
  rw [← hcx, ← hdy]
  exact h.valid.injective _ _ _ hcip hdip

variable {s t : Host}

/-- A call holds an address from its allocation to its release. -/
def Holding (s : Host) : Prop :=
  ∀ k c, s.calls k = some c → c.fn ≠ .createAndRun → c.fn.launches →
    (c.allocatedIP.isSome ↔ .allocateIP ∉ c.todo ∧ .releaseIP ∈ c.todo)

/-- A call that begins holds no address. -/
theorem Holding.begin (h : Holding s) {fn : Fn} {info : ContainerInfo}
    {req : Option RunRequest} : Holding (s.begin fn info req) := by
  intro k c hk hfn hl
  rcases WellFormed.begin_calls hk with ⟨rfl, rfl⟩ | ⟨-, hold⟩
  · cases fn with
    | runContainer => simp [Fn.program]
    | createAndRun => exact absurd rfl hfn
    | start => simp [Fn.program]
    | stopContainer => exact absurd hl Bool.false_ne_true
    | adjustResourceLimits => exact absurd hl Bool.false_ne_true
  · exact h k c hold hfn hl

/-- A call that begins holds no address, and nothing that is accounted for changes. -/
theorem Accounted.begin (wf : WellFormed s) (h : Accounted s) {fn : Fn} {info : ContainerInfo}
    {req : Option RunRequest} : Accounted (s.begin fn info req) := by
  refine ⟨h.valid, Holding.begin h.holds, ?_, ?_⟩
  · intro k c a req hk ha hreq
    rcases WellFormed.begin_calls hk with ⟨rfl, rfl⟩ | ⟨-, hold⟩
    · cases ha
    · exact h.request k c a req hold ha hreq
  · intro p x r c hp hr hk hfn
    rcases WellFormed.begin_calls hk with ⟨hl, -⟩ | ⟨-, hold⟩
    · exact absurd hl (wf.launcher_ne hp)
    · exact h.pipe p x r c hp hr hold hfn

/-- The part of the invariant that needs no condition on the releases. -/
theorem Leased.accounted (h : Leased s) : Accounted s where
  valid := h.valid
  holds k c hk _ hl := h.holds k c hk hl
  request := h.request
  pipe p x r c hp hr hc _ := h.pipe p x r c hp hr hc

/-- What is left of a lease where the calls account for their addresses. -/
theorem Accounted.leased (h : Accounted s) (hfn : ∀ k c, s.calls k = some c → c.fn ≠ .createAndRun)
    (ahead : ∀ k c a, s.calls k = some c → c.allocatedIP = some a → .launch ∈ c.todo →
      s.world.ipam.lookup c.container = some a)
    (live : ∀ p x c a, s.world.procs p = some x → x.alive → s.calls x.launcher = some c →
      c.allocatedIP = some a → s.world.ipam.lookup c.container = some a) : Leased s where
  valid := h.valid
  fn := hfn
  holds k c hk hl := h.holds k c hk (hfn k c hk) hl
  request := h.request
  ahead := ahead
  live := live
  pipe p x r c hp hr hc := h.pipe p x r c hp hr hc (hfn _ c hc)

/-- A call that begins holds no address, so it has no lease to account for. -/
theorem Leased.begin (wf : WellFormed s) (h : Leased s) {fn : Fn} (hfn : fn ≠ .createAndRun)
    {info : ContainerInfo} {req : Option RunRequest} : Leased (s.begin fn info req) := by
  refine (h.accounted.begin wf).leased ?_ ?_ ?_
  · intro k c hk
    rcases WellFormed.begin_calls hk with ⟨rfl, rfl⟩ | ⟨-, hold⟩
    · exact hfn
    · exact h.fn k c hold
  · intro k c a hk ha hl
    rcases WellFormed.begin_calls hk with ⟨rfl, rfl⟩ | ⟨-, hold⟩
    · cases ha
    · exact h.ahead k c a hold ha hl
  · intro p x c a hp hx hk ha
    rcases WellFormed.begin_calls hk with ⟨-, rfl⟩ | ⟨-, hold⟩
    · cases ha
    · exact h.live p x c a hp hx hold ha

section
variable {k : CallId} {c : Call} {st : Stage} {rest : List Stage} {o : Outcome} {w' : World}
  {after : After}

/-- The address in the request is the one the call holds. -/
theorem Accounted.request_ip (h : Accounted s) (hk : s.calls k = some c)
    (hsome : c.allocatedIP.isSome) : c.allocatedIP = some c.request.ipAddress := by
  obtain ⟨a, ha⟩ := Option.isSome_iff_exists.mp hsome
  cases hreq : c.req with
  | none => simp [Call.request, startRequest, hreq, ha]
  | some req => simp [Call.request, hreq, ha, h.request k c a req hk ha hreq]

/-- An allocation and a release keep the map valid, whatever else happens at the stage. -/
theorem Accounted.performed_valid (h : Accounted s)
    (hp : Performed s.world s.clock k c st o w' after) : Valid w'.ipam := by
  cases hp with
  | allocated own kept others valid => exact valid h.valid
  | released hm =>
      rcases hm with rfl | rfl
      · exact h.valid
      · exact h.valid.erase c.container
  | written | torn | unwritten | launched | encoded | waited | peered | plain | gaveUp =>
      exact h.valid

/-- A stage that goes on keeps the account of the call's own address. -/
theorem Holding.performed (h : Holding s) (hs : Consistent s) (hk : s.calls k = some c)
    (htodo : c.todo = st :: rest) {c' : Call}
    (hp : Performed s.world s.clock k c st o w' (.goOn c')) (hfn : c.fn ≠ .createAndRun)
    (hl : c.fn.launches) :
    c'.allocatedIP.isSome ↔ .allocateIP ∉ rest ∧ .releaseIP ∈ rest := by
  have hprog : st :: rest <:+ c.fn.program := htodo ▸ (hs.call k c hk).program
  have hold := h k c hk hfn hl
  rw [htodo] at hold
  have other : st ≠ .allocateIP → st ≠ .releaseIP → c'.allocatedIP = c.allocatedIP →
      (c'.allocatedIP.isSome ↔ .allocateIP ∉ rest ∧ .releaseIP ∈ rest) := by
    intro ha hr heq
    rw [heq, hold]
    simp [ha.symm, hr.symm]
  cases hp with
  | allocated => simp [Call.allocated, not_mem_rest hprog, release_after_allocate hprog]
  | released => simp [not_mem_rest hprog]
  | written | torn | unwritten | launched | encoded | waited | peered =>
      exact other (by simp) (by simp) rfl
  | plain hst =>
      refine other ?_ ?_ rfl
      · rintro rfl
        exact absurd hst (by decide)
      · rintro rfl
        exact absurd hst (by decide)

/-- A call that gives up keeps its address for the release. -/
theorem Holding.stage (hs : Consistent s) (h : Holding s) (hk : s.calls k = some c)
    (htodo : c.todo = st :: rest) (hp : Performed s.world s.clock k c st o w' after) :
    Holding (s.resume k c rest (w', after)) := by
  intro j d hj hfn hl
  rcases Host.resume_calls hj with ⟨-, hold⟩ | ⟨rfl, ⟨c', rfl, -, rfl⟩ | ⟨rfl, hip, rfl⟩⟩
  · exact h j d hold hfn hl
  · have hholds := h.performed hs hk htodo hp (hp.fn_eq ▸ hfn) (hp.fn_eq ▸ hl)
    exact hholds
  · simpa [Option.isSome_iff_ne_none] using hip

/-- What a request carries is the address of the call that sends it. -/
theorem Accounted.stage (wf : WellFormed s) (h : Accounted s) (hk : s.calls k = some c)
    (htodo : c.todo = st :: rest) (hp : Performed s.world s.clock k c st o w' after) :
    Accounted (s.resume k c rest (w', after)) := by
  have hprog : st :: rest <:+ c.fn.program := htodo ▸ (wf.call k c hk).program
  refine ⟨?_, Holding.stage wf.consistent h.holds hk htodo hp, ?_, ?_⟩
  · rw [Valid, Host.resume_ipam]
    exact h.performed_valid hp
  · intro j d a req hj ha hreq
    rcases Host.resume_calls hj with ⟨-, hold⟩ | ⟨rfl, ⟨c', rfl, -, rfl⟩ | ⟨rfl, -, rfl⟩⟩
    · exact h.request j d a req hold ha hreq
    · cases hp with
      | allocated =>
          obtain ⟨req', -, rfl⟩ := Option.map_eq_some_iff.mp hreq
          exact Option.some.inj ha
      | released => cases ha
      | written | torn | unwritten | launched | encoded | waited | peered | plain =>
          exact h.request j c a req hk ha hreq
    · exact h.request j c a req hk ha hreq
  · intro p x r d hx hr hd hfn
    rcases wf.procs_inv hk htodo hp hx with ⟨hne, hold⟩ | ⟨hl, -, c', rfl, hchild⟩
    · rw [Host.resume_calls_ne hne] at hd
      exact h.pipe p x r d hold hr hd hfn
    · subst hl
      rcases Host.resume_calls hd with ⟨hne, -⟩ | ⟨-, ⟨e, he, -, rfl⟩ | ⟨he, -⟩⟩
      · exact absurd rfl hne
      · obtain rfl := After.goOn.inj he
        have hfn : c.fn ≠ .createAndRun := hp.fn_eq ▸ hfn
        cases hp with
        | allocated =>
            -- the request has gone out, so the allocation is behind the call
            have hheld := h.pipe p x r c hx hr hk hfn
            have hnot := ((h.holds _ c hk hfn (launches_of_allocate hprog)).mp
              (by rw [hheld]; rfl)).1
            exact absurd (htodo ▸ List.mem_cons_self) hnot
        | released =>
            have hwait := ((wf.call _ c hk).child.mp (by rw [show c.child = _ from hchild]; rfl)).2
            rw [htodo, nil_after_release hprog] at hwait
            cases List.mem_singleton.mp hwait
        | waited => cases hchild
        | launched =>
            -- nothing is in a new pipe
            obtain rfl := Option.some.inj hchild
            rw [← Option.some.inj (of_update_self hx)] at hr
            cases hr
        | encoded child =>
            obtain rfl := Option.some.inj (child.symm.trans hchild)
            obtain ⟨y, -, rfl⟩ := Option.map_eq_some_iff.mp (of_update_self hx)
            obtain rfl := Option.some.inj hr
            obtain ⟨hlaunches, hnot, hmem⟩ := held_at_encode hprog hfn
            have hheld : c.allocatedIP.isSome := by
              rw [h.holds _ c hk hfn hlaunches, htodo]
              exact ⟨by simpa using hnot, List.mem_cons_of_mem _ hmem⟩
            exact (h.request_ip hk hheld :)
        | written | torn | unwritten | peered | plain => exact h.pipe p x r c hx hr hk hfn
      · cases he

/-- A stage keeps the leases, unless it releases an address in use. -/
theorem Leased.stage (wf : WellFormed s) (h : Leased s) (hk : s.calls k = some c)
    (htodo : c.todo = st :: rest) (hp : Performed s.world s.clock k c st o w' after)
    (hC : ReleasesUnused s (.step k o)) : Leased (s.resume k c rest (w', after)) := by
  have hprog : st :: rest <:+ c.fn.program := htodo ▸ (wf.call k c hk).program
  -- the lookups that the guard protects
  have stays : ∀ j d a, s.calls j = some d → d.allocatedIP = some a → d.Relies s →
      s.world.ipam.lookup d.container = some a → w'.ipam.lookup d.container = some a := by
    intro j d a hj ha hrelies hlookup
    refine hp.lookup_stays hlookup fun heq hst => ?_
    subst hst
    exact hC _ rfl c hk (by rw [htodo]; rfl) j (wf.call j d hj).lt d hj heq hrelies
  have relies_of_launch : ∀ {d : Call} {a}, d.allocatedIP = some a → .launch ∈ d.todo →
      d.Relies s := fun ha hl => ⟨by simp [ha], .inl hl⟩
  have relies_of_alive : ∀ {d : Call} {a p x}, d.allocatedIP = some a → d.child = some p →
      s.world.procs p = some x → x.alive → d.Relies s :=
    fun ha hchild hx halive => ⟨by simp [ha], .inr ⟨_, hchild, _, hx, halive⟩⟩
  have own_live : ∀ {p x}, s.world.procs p = some x → x.launcher = k → x.alive →
      ∀ a, c.allocatedIP = some a → w'.ipam.lookup c.container = some a := by
    intro p x hx hl halive a ha
    obtain ⟨d, hd, hchild, -⟩ := wf.launcher hx
    obtain rfl := Option.some.inj ((hl ▸ hd : s.calls k = some d).symm.trans hk)
    exact stays k d a hk ha (relies_of_alive ha hchild hx halive) (h.live p x d a hx halive hd ha)
  refine (h.accounted.stage wf hk htodo hp).leased ?_ ?_ ?_
  · intro j d hj
    rcases Host.resume_calls hj with ⟨-, hold⟩ | ⟨rfl, ⟨c', rfl, -, rfl⟩ | ⟨rfl, -, rfl⟩⟩
    · exact h.fn j d hold
    · exact hp.fn_eq ▸ h.fn j c hk
    · exact h.fn j c hk
  · intro j d a hj ha hl
    rw [Host.resume_ipam]
    rcases Host.resume_calls hj with ⟨-, hold⟩ | ⟨rfl, ⟨c', rfl, -, rfl⟩ | ⟨rfl, -, rfl⟩⟩
    · exact stays j d a hold ha (relies_of_launch ha hl) (h.ahead j d a hold ha hl)
    · have hl' : .launch ∈ c.todo := htodo ▸ List.mem_cons_of_mem _ hl
      cases hp with
      | allocated own =>
          obtain rfl := Option.some.inj ha
          exact own
      | released => cases ha
      | written | torn | unwritten | launched | encoded | waited | peered | plain =>
          exact stays j c a hk ha (relies_of_launch ha hl') (h.ahead j c a hk ha hl')
    · cases List.mem_singleton.mp hl
  · intro p x d a hx halive hd ha
    rw [Host.resume_ipam]
    rcases wf.procs_inv hk htodo hp hx with ⟨hne, hold⟩ | ⟨hl, -, c', rfl, hchild⟩
    · rw [Host.resume_calls_ne hne] at hd
      obtain ⟨e, he, hechild, -⟩ := wf.launcher hold
      obtain rfl := Option.some.inj (he.symm.trans hd)
      exact stays _ _ a he ha (relies_of_alive ha hechild hold halive)
        (h.live p x _ a hold halive he ha)
    · subst hl
      rcases Host.resume_calls hd with ⟨hne, -⟩ | ⟨-, ⟨e, he, -, rfl⟩ | ⟨he, -⟩⟩
      · exact absurd rfl hne
      · obtain rfl := After.goOn.inj he
        rw [show Call.container _ = c.container from hp.container_eq]
        cases hp with
        | allocated own =>
            obtain rfl := Option.some.inj ha
            exact own
        | released => cases ha
        | waited => cases hchild
        | launched =>
            have hl : .launch ∈ c.todo := htodo ▸ List.mem_cons_self
            exact h.ahead _ c a hk ha hl
        | encoded child =>
            obtain rfl := Option.some.inj (child.symm.trans hchild)
            obtain ⟨y, hy, rfl⟩ := Option.map_eq_some_iff.mp (of_update_self hx)
            exact own_live hy rfl halive a ha
        | written | torn | unwritten | peered | plain => exact own_live hx rfl halive a ha
      · cases he

end

theorem Accounted.of_dirs (h : Accounted s) (dirs : List ContainerID) :
    Accounted { s with dirs := dirs } :=
  ⟨h.valid, h.holds, h.request, h.pipe⟩

/-- What processes do of themselves leaves the map and the calls alone. -/
theorem Accounted.moved (h : Accounted s) {w : World} (hw : Moved s.world w) :
    Accounted { s with world := w } := by
  refine ⟨?_, h.holds, h.request, fun p y r c hy hr hc hfn => ?_⟩
  · rw [Valid, hw.ipam]
    exact h.valid
  · obtain ⟨x, hx, hxy⟩ := hw.back p y hy
    exact h.pipe p x r c hx (hxy.pipe ▸ hr) (hxy.launcher ▸ hc) hfn

/-- The account is kept by every step, with no condition. -/
theorem Accounted.step {e : Event} (wf : WellFormed s) (h : Accounted s) (he : s.step e = some t) :
    Accounted t := by
  cases Host.stepped he with
  | ran fresh => exact (h.of_dirs _).begin (wf.of_fresh _)
  | createdAndRan fresh => exact (h.of_dirs _).begin (wf.of_fresh _)
  | starting found => exact h.begin wf
  | stopping found => exact h.begin wf
  | adjusting found => exact h.begin wf
  | refused => exact h
  | staged call todo performed => exact h.stage wf call todo (perform_performed performed)
  | moved moved => exact h.moved moved
  | ticked => exact ⟨h.valid, h.holds, h.request, h.pipe⟩

/-- The part of the account that does not mention processes is kept even where calls can be cut
off. -/
theorem Holding.step {e : Event} (hs : Consistent s) (h : Holding s) (he : s.step e = some t) :
    Holding t := by
  cases Host.stepped he with
  | ran | createdAndRan | starting | stopping | adjusting => exact Holding.begin h
  | staged call todo performed => exact h.stage hs call todo (perform_performed performed)
  | refused | moved | ticked => exact h

theorem Leased.of_dirs (h : Leased s) (dirs : List ContainerID) : Leased { s with dirs := dirs } :=
  ⟨h.valid, h.fn, h.holds, h.request, h.ahead, h.live, h.pipe⟩

/-- **The leases are kept** by every step that calls no `CreateAndRun` and releases no address
in use. -/
theorem Leased.step {e : Event} (wf : WellFormed s) (h : Leased s) (hD : NotCreateAndRun e)
    (hC : ReleasesUnused s e) (he : s.step e = some t) : Leased t := by
  cases Host.stepped he with
  | ran fresh =>
      exact (h.of_dirs _).begin (wf.of_fresh _) (by decide)
  | createdAndRan fresh => exact absurd rfl hD
  | starting found => exact h.begin wf (by decide)
  | stopping found => exact h.begin wf (by decide)
  | adjusting found => exact h.begin wf (by decide)
  | refused => exact h
  | staged call todo performed => exact h.stage wf call todo (perform_performed performed) hC
  | moved moved =>
      refine (h.accounted.moved moved).leased h.fn ?_ ?_
      · intro k c a hk ha hl
        rw [moved.ipam]
        exact h.ahead k c a hk ha hl
      · intro p y c a hy halive hc ha
        obtain ⟨x, hx, hxy⟩ := moved.back p y hy
        rw [moved.ipam]
        exact h.live p x c a hx (hxy.alive halive) (hxy.launcher ▸ hc) ha
  | ticked => exact ⟨h.valid, h.fn, h.holds, h.request, h.ahead, h.live, h.pipe⟩

/-- Where nothing is running there is nothing to account for but the map. -/
theorem Idle.accounted (h : Idle s) (hv : Valid s.world.ipam) : Accounted s := by
  refine ⟨hv, ?_, ?_, ?_⟩
  · exact fun k c hk => (h.nocall hk).elim
  · exact fun k c _ _ hk => (h.nocall hk).elim
  · exact fun p x _ c _ _ hk => (h.nocall hk).elim

theorem Idle.leased (h : Idle s) (hv : Valid s.world.ipam) : Leased s := by
  refine (h.accounted hv).leased ?_ ?_ ?_
  · exact fun k c hk => (h.nocall hk).elim
  · exact fun k c _ hk => (h.nocall hk).elim
  · exact fun p x c _ _ _ hk => (h.nocall hk).elim

/-- Live containers do not share an address, in any run of `RunContainer`, `Start` and
`StopContainer` in which no release takes an address from a call that still relies on it. -/
theorem unshared_of_reaches (hs : Idle s) (hv : Valid s.world.ipam)
    (h : Reaches Host.step (fun s e => NotCreateAndRun e ∧ ReleasesUnused s e) s t) :
    AddressesUnshared t := by
  have inv : WellFormed t ∧ Leased t :=
    h.invariant (I := fun s => WellFormed s ∧ Leased s) ⟨hs.wellFormed, hs.leased hv⟩
      fun _ _ _ ⟨wf, hl⟩ ⟨hD, hC⟩ he => ⟨wf.step he, hl.step wf hD hC he⟩
  exact inv.2.unshared inv.1

end Gocker.Container
