import Gocker.Container.Frame

/-!
# A start that fails

`Start` undoes what it has done in each of its error branches: it kills the child, and the
deferred release gives the address back.  The record is written before the last stage that
may fail, `SetupCgroup`, and its error branch does not write it again.

A failed start is followed from the record that it reads to the error that it returns, while
the calls on other containers go on (`FailedStart`).  `Restarting` is what holds of the
container all the way, `failed_start_iff` says when the container can be started again, and
`running_after_error` is the run in which it cannot.

### What can be started again

A container can be started again if its record says `Stopped` or `Created`.  Up to the write of
`Running` the record is the one that the call has read, so every failure before it leaves the
container startable.  `SetupCgroup` comes after the write.  When it fails, the child is killed and
the record still says `Running` with its number: `Start` refuses the container from then on, and
`gocker stop` is the only way back.
-/

namespace Gocker.Container

open Machine Network

/-! ## The container during a start -/

/-- The error branches of `Start`: until `SetupCgroup`, the write of `Running` is ahead. -/
theorem restart_ahead {st : Stage} {rest : List Stage} (h : st :: rest <:+ Fn.start.program)
    (hst : st.mayGiveUp = true) :
    st = .setupCgroup ∨ .write .restarted ∈ rest := by
  have all : ∀ fn, ∀ todo ∈ Fn.program fn |>.tails, fn = .start → ∀ st ∈ todo.head?,
      st.mayGiveUp = true → st = .setupCgroup ∨ .write .restarted ∈ todo.tail := by
    decide
  exact forall_rest all h rfl st rfl hst

/-- The first write of `Start` is that of `Running`. -/
theorem restart_write {wr : Write} {rest : List Stage}
    (h : .write wr :: rest <:+ Fn.start.program) :
    .write .restarted ∉ rest ∧ (.setupCgroup ∈ rest → wr = .restarted) := by
  have all : ∀ fn, ∀ todo ∈ Fn.program fn |>.tails, fn = .start → ∀ wr,
      todo.head? = some (.write wr) →
        .write .restarted ∉ todo.tail ∧ (.setupCgroup ∈ todo.tail → wr = .restarted) := by
    decide
  exact forall_rest all h rfl wr rfl

/-- The call `k` of `Start` has read `info` in the state `s`; what is true of the container
and of the call in any state `t` until it returns. -/
structure Restarting (s : Host) (info : ContainerInfo) (k : CallId) (t : Host) : Prop where
  lt : k < t.nextCall
  fn : ∀ c, t.calls k = some c → c.fn = .start ∧ c.container = info.id
  unwritten : ∀ c, t.calls k = some c → .write .restarted ∈ c.todo →
    t.world.config info.id = some info
  written : ∀ c, t.calls k = some c → .setupCgroup ∈ c.todo →
    t.world.config info.id = some info ∨ ∀ r, t.world.config info.id = some r → r.status = .running
  unallocated : ∀ c, t.calls k = some c → c.allocatedIP = none →
    t.world.ipam.lookup info.id = s.world.ipam.lookup info.id
  allocated : ∀ c, t.calls k = some c → c.allocatedIP ≠ none →
    t.world.ipam.lookup info.id ≠ none
  procs : ∀ p x, t.world.procs p = some x → x.launcher = k →
    ∃ c, t.calls k = some c ∧ c.child = some p

section
variable {s t u : Host} {info : ContainerInfo} {k : CallId}

/-- What other containers' calls do leaves the restart where it is. -/
theorem Restarting.of_unmoved (h : Restarting s info k t) (hu : Unmoved k info.id t u) :
    Restarting s info k u where
  lt := h.lt.trans_le hu.next
  fn c hc := h.fn c (hu.call ▸ hc)
  unwritten c hc hmem := hu.config.trans (h.unwritten c (hu.call ▸ hc) hmem)
  written c hc hmem := by
    rw [hu.config]
    exact h.written c (hu.call ▸ hc) hmem
  unallocated c hc hip := hu.address.trans (h.unallocated c (hu.call ▸ hc) hip)
  allocated c hc hip := by
    rw [hu.address]
    exact h.allocated c (hu.call ▸ hc) hip
  procs p x hx hl := by
    obtain ⟨y, hy, hyl⟩ := hu.procs p x hx hl
    rw [hu.call]
    exact h.procs p y hy hyl

section
variable {c : Call} {st : Stage} {rest : List Stage} {o : Outcome} {w' : World} {after : After}

/-- The record after a stage of the call. -/
theorem Restarting.stage_config (h : Restarting s info k t) (hk : t.calls k = some c)
    (hprog : st :: rest <:+ c.fn.program) (htodo : c.todo = st :: rest) {c' : Call}
    (hp : Performed t.world t.clock k c st o w' (.goOn c')) :
    (.write .restarted ∈ rest → w'.config info.id = some info) ∧
      (.setupCgroup ∈ rest → w'.config info.id = some info ∨
        ∀ r, w'.config info.id = some r → r.status = .running) := by
  obtain ⟨hfn, hcontainer⟩ := h.fn c hk
  rw [hfn] at hprog
  have hunwritten : .write .restarted ∈ rest → t.world.config info.id = some info := fun hmem =>
    h.unwritten c hk (htodo ▸ List.mem_cons_of_mem _ hmem)
  have hwritten := fun hmem : .setupCgroup ∈ rest =>
    h.written c hk (htodo ▸ List.mem_cons_of_mem _ hmem)
  cases hp with
  | allocated | launched | encoded | waited | released | peered | plain =>
      exact ⟨hunwritten, hwritten⟩
  | unwritten => exact ⟨hunwritten, hwritten⟩
  | written =>
      obtain ⟨hnot, hsetup⟩ := restart_write hprog
      refine ⟨fun hmem => absurd hmem hnot, fun hmem => .inr fun r hr => ?_⟩
      obtain rfl := hsetup hmem
      rw [← hcontainer] at hr
      obtain rfl := Option.some.inj (of_update_self hr)
      rfl
  | torn =>
      refine ⟨fun hmem => absurd hmem (restart_write hprog).1, fun _ => .inr fun r hr => ?_⟩
      rw [← hcontainer] at hr
      cases of_update_self hr

/-- The address after a stage of the call. -/
theorem Restarting.stage_address (h : Restarting s info k t) (hk : t.calls k = some c)
    (hprog : st :: rest <:+ c.fn.program) (hrest : rest ≠ []) {c' : Call}
    (hp : Performed t.world t.clock k c st o w' (.goOn c')) :
    (c'.allocatedIP = none → w'.ipam.lookup info.id = s.world.ipam.lookup info.id) ∧
      (c'.allocatedIP ≠ none → w'.ipam.lookup info.id ≠ none) := by
  obtain ⟨-, hcontainer⟩ := h.fn c hk
  cases hp with
  | allocated own =>
      refine ⟨nofun, fun _ => ?_⟩
      show Finmap.lookup info.id _ ≠ none
      rw [← hcontainer, own]
      nofun
  | released => exact absurd (nil_after_release hprog) hrest
  | written | torn | unwritten | launched | encoded | waited | peered | plain =>
      exact ⟨h.unallocated c hk, h.allocated c hk⟩

/-- A process of the call after one of its stages is its child. -/
theorem Restarting.stage_child (ht : Consistent t) (h : Restarting s info k t)
    (hk : t.calls k = some c) (htodo : c.todo = st :: rest)
    (hp : Performed t.world t.clock k c st o w' after) {p : PID} {x : Proc}
    (hx : (t.resume k c rest (w', after)).world.procs p = some x) (hl : x.launcher = k) :
    ∃ c', after = .goOn c' ∧ c'.child = some p := by
  have child : ∀ {q y}, t.world.procs q = some y → y.launcher = k → c.child = some q := by
    intro q y hy hyl
    obtain ⟨d, hd, hchild⟩ := h.procs q y hy hyl
    obtain rfl := Option.some.inj (hk.symm.trans hd)
    exact hchild
  cases hp with
  | allocated | written | torn | unwritten | released | peered | plain =>
      exact ⟨_, rfl, child hx hl⟩
  | launched =>
      rcases of_update_eq_some hx with ⟨rfl, -⟩ | ⟨-, hold⟩
      · exact ⟨_, rfl, rfl⟩
      · have hlaunch := ((ht.call k c hk).child.mp (by rw [child hold hl]; rfl)).1
        exact absurd (htodo ▸ List.mem_cons_self) hlaunch
  | encoded =>
      rcases of_update_eq_some hx with ⟨rfl, hnew⟩ | ⟨-, hold⟩
      · obtain ⟨y, hy, rfl⟩ := Option.map_eq_some_iff.mp hnew
        exact ⟨_, rfl, child hy hl⟩
      · exact ⟨_, rfl, child hold hl⟩
  | waited hchild =>
      obtain ⟨hne, hold⟩ := of_erase_eq_some hx
      exact absurd (Option.some.inj ((child hold hl).symm.trans hchild)) hne
  | gaveUp =>
      obtain ⟨hchild, hold⟩ := World.of_kill_eq_some hx
      exact absurd (child hold hl) hchild

/-- A call that has returned has left no child. -/
theorem Restarting.childless (h : Restarting s info k t) (hnone : t.calls k = none)
    {p : PID} {x : Proc} (hx : t.world.procs p = some x) : x.launcher ≠ k := by
  intro hl
  obtain ⟨c, hc, -⟩ := h.procs p x hx hl
  rw [hnone] at hc
  cases hc

/-- A stage of the call itself keeps what holds of a restart. -/
theorem Restarting.stage (ht : Consistent t) (h : Restarting s info k t) (hk : t.calls k = some c)
    (htodo : c.todo = st :: rest) (hp : Performed t.world t.clock k c st o w' after) :
    Restarting s info k (t.resume k c rest (w', after)) := by
  have hprog : st :: rest <:+ c.fn.program := htodo ▸ (ht.call k c hk).program
  have self : ∀ d, (t.resume k c rest (w', after)).calls k = some d →
      (∃ c', after = .goOn c' ∧ rest ≠ [] ∧ d = { c' with todo := rest }) ∨
        after = .giveUp ∧ c.allocatedIP ≠ none ∧
          d = { c with child := none, todo := [.releaseIP] } := by
    intro d hd
    rcases Host.resume_calls hd with ⟨hne, -⟩ | ⟨-, hself⟩
    · exact absurd rfl hne
    · exact hself
  refine ⟨?_, ?_, ?_, ?_, ?_, ?_, ?_⟩
  · rw [Host.resume_nextCall]
    exact h.lt
  · intro d hd
    rcases self d hd with ⟨c', rfl, -, rfl⟩ | ⟨-, -, rfl⟩
    · show c'.fn = .start ∧ c'.container = info.id
      rw [hp.fn_eq, hp.container_eq]
      exact h.fn c hk
    · exact h.fn c hk
  · intro d hd hmem
    rw [Host.resume_config]
    rcases self d hd with ⟨c', rfl, -, rfl⟩ | ⟨-, -, rfl⟩
    · exact (h.stage_config hk hprog htodo hp).1 hmem
    · cases List.mem_singleton.mp hmem
  · intro d hd hmem
    rw [Host.resume_config]
    rcases self d hd with ⟨c', rfl, -, rfl⟩ | ⟨-, -, rfl⟩
    · exact (h.stage_config hk hprog htodo hp).2 hmem
    · cases List.mem_singleton.mp hmem
  · intro d hd hip
    rw [Host.resume_ipam]
    rcases self d hd with ⟨c', rfl, hrest, rfl⟩ | ⟨-, hip', rfl⟩
    · exact (h.stage_address hk hprog hrest hp).1 hip
    · exact absurd hip hip'
  · intro d hd hip
    rw [Host.resume_ipam]
    rcases self d hd with ⟨c', rfl, hrest, rfl⟩ | ⟨rfl, hip', rfl⟩
    · exact (h.stage_address hk hprog hrest hp).2 hip
    · cases hp with
      | gaveUp => exact h.allocated c hk hip'
  · intro p x hx hl
    obtain ⟨c', rfl, hchild⟩ := h.stage_child ht hk htodo hp hx hl
    have hsome := hp.child_isSome hprog (htodo ▸ (ht.call k c hk).child)
    have hwait : .wait ∈ rest := (hsome.mp (by rw [hchild]; rfl)).2
    rw [Host.resume_goOn_calls, if_neg (List.ne_nil_of_mem hwait)]
    exact ⟨_, rfl, hchild⟩

end

/-- The state in which a call of `Start` begins. -/
theorem Restarting.begin (hs : Consistent s) (hprocs : ∀ p x, s.world.procs p = some x →
    x.launcher < s.nextCall) {skip : List ContainerID} {identifier : String}
    (found : s.startable skip identifier = some info) :
    Restarting s info s.nextCall (s.begin .start info none) := by
  have hconfig : s.world.config info.id = some info := (hs.startable found).1
  have self : ∀ c, (s.begin .start info none).calls s.nextCall = some c →
      c = ⟨.start, info.id, Fn.start.program, info, none, none, none, ""⟩ := by
    intro c hc
    rcases WellFormed.begin_calls hc with ⟨-, rfl⟩ | ⟨hne, -⟩
    · rfl
    · exact absurd rfl hne
  refine ⟨Nat.lt_succ_self _, fun c hc => ?_, fun _ _ _ => hconfig, fun _ _ _ => .inl hconfig,
    fun _ _ _ => rfl, fun c hc hip => ?_, fun p x hx hl => ?_⟩
  · obtain rfl := self c hc
    exact ⟨rfl, rfl⟩
  · obtain rfl := self c hc
    exact absurd rfl hip
  · exact absurd hl (hprocs p x hx).ne

end

/-- Every process has been launched by a call that has begun. -/
def LaunchersBegun (s : Host) : Prop :=
  ∀ p x, s.world.procs p = some x → x.launcher < s.nextCall

/-- The processes are children of calls that have begun. -/
theorem LaunchersBegun.step {s t : Host} {e : Event} (hs : Consistent s) (h : LaunchersBegun s)
    (he : s.step e = some t) : LaunchersBegun t := by
  intro p x hx
  cases Host.stepped he with
  | ran | createdAndRan | starting | stopping | adjusting => exact Nat.lt_succ_of_lt (h p x hx)
  | refused | ticked => exact h p x hx
  | moved moved =>
      obtain ⟨y, hy, hyx⟩ := moved.back p x hx
      exact hyx.launcher.symm ▸ h p y hy
  | staged call todo performed =>
      rw [Host.resume_nextCall]
      rcases (perform_performed performed).launcher_source hx with ⟨hl, -⟩ | ⟨y, hy, hyl⟩
      · exact hl ▸ (hs.call _ _ call).lt
      · exact hyl ▸ h p y hy

/-! ## The start that fails -/

/-- The call gives up at the stage `st`. -/
def Call.GivesUp (s : Host) (k : CallId) (c : Call) (st : Stage) (o : Outcome) : Prop :=
  ∃ rest w, c.todo = st :: rest ∧ perform s.world s.clock k c st o = some (w, .giveUp)

namespace System

/-- A call of `Start` that reads `info` in `s`, fails in `u` at the stage `st`, and returns in
`t`, its release having gone as `release` if it had an address to release. -/
structure FailedStart (s : System) (info : ContainerInfo) (u : System) (c : Call) (st : Stage)
    (release : Outcome) (t : System) : Prop where
  found : ∃ identifier skip, s.host.startable skip identifier = some info
  run : Reaches step (Beside s.host.nextCall info.id)
    { s with host := s.host.begin .start info none } u
  call : u.host.calls s.host.nextCall = some c
  returns : ∃ o v, c.GivesUp u.host s.host.nextCall st o ∧
    u.step (.host (.step s.host.nextCall o)) = some v ∧
    (c.allocatedIP = none ∧ t = v ∨
      c.allocatedIP ≠ none ∧ ∃ v', Reaches step (Beside s.host.nextCall info.id) v v' ∧
        v'.step (.host (.step s.host.nextCall release)) = some t)

/-- The child is gone, the record admits a start, and no address is taken. -/
structure StartableAgain (k : CallId) (d : ContainerID) (t : Host) : Prop where
  killed : ∀ p x, t.world.procs p = some x → x.launcher ≠ k
  record : ∃ r, t.world.config d = some r ∧ (r.status = .created ∨ r.status = .stopped) ∧ r.pid = 0
  address : t.world.ipam.lookup d = none

/-- If the start fails in `SetupCgroup`, its write of `Running` has not changed the file; if it
fails before it has an address, the container had none left; and otherwise the release
works. -/
structure Undone (s u : Host) (d : ContainerID) (c : Call) (st : Stage) (release : Outcome) :
    Prop where
  record : st = .setupCgroup → u.world.config d = s.world.config d
  address : c.allocatedIP = none → s.world.ipam.lookup d = none
  release : c.allocatedIP ≠ none → release = .ok

variable {s₀ s t u v : System} {info : ContainerInfo} {k : CallId} {c : Call} {st : Stage}
  {release : Outcome}

/-- A step of the system, the call's own or another one. -/
theorem restarting_step {a : Happening} (hu : Consistent u.host)
    (h : Restarting s.host info k u.host) (hC : Beside k info.id u a) (he : u.step a = some t) :
    Restarting s.host info k t.host := by
  by_cases hown : ∃ o, a = .host (.step k o)
  · obtain ⟨o, rfl⟩ := hown
    obtain ⟨c, st, rest, w, after, hk, htodo, hp, ht⟩ := Host.step_stage (step_host he)
    rw [ht]
    exact h.stage hu hk htodo (perform_performed hp)
  · exact h.of_unmoved (unmoved h.lt hC (fun o ho => hown ⟨o, ho⟩) he)

theorem restarting_reaches (hu : Consistent u.host) (h : Restarting s.host info k u.host)
    (hrun : Reaches step (Beside k info.id) u t) :
    Consistent t.host ∧ Restarting s.host info k t.host :=
  hrun.invariant (I := fun t => Consistent t.host ∧ Restarting s.host info k t.host) ⟨hu, h⟩
    fun _ _ _ ⟨hu, h⟩ hC he => ⟨consistent_step hu he, restarting_step hu h hC he⟩

/-- The release of a call with nothing else left. -/
theorem release_step {s t : Host} (hk : s.calls k = some c) (htodo : c.todo = [.releaseIP])
    (he : s.step (.step k release) = some t) :
    t.calls k = none ∧ t.nextCall = s.nextCall ∧ t.world.config = s.world.config ∧
      (release = .ok ∧ t.world.ipam = s.world.ipam.erase c.container ∨
        release ≠ .ok ∧ t.world.ipam = s.world.ipam) := by
  obtain ⟨c', st, rest, w, after, hk', htodo', hp, rfl⟩ := Host.step_stage he
  obtain rfl := Option.some.inj (hk.symm.trans hk')
  rw [htodo] at htodo'
  obtain ⟨rfl, rfl⟩ := List.cons.inj htodo'
  cases release with
  | ok =>
      cases hp
      exact ⟨Host.resume_goOn_calls, rfl, rfl, .inl ⟨rfl, rfl⟩⟩
  | fails n =>
      cases hp
      exact ⟨Host.resume_goOn_calls, rfl, rfl, .inr ⟨nofun, rfl⟩⟩
  | garbled | child => cases hp

/-- A call with its release left has it left, or has returned. -/
theorem releasing_reaches (hlt : k < v.host.nextCall) (hk : v.host.calls k = some c)
    (htodo : c.todo = [.releaseIP]) (hrun : Reaches step (Beside k info.id) v u) :
    Unmoved k info.id v.host u.host ∨ u.host.calls k = none := by
  have inv : (Unmoved k info.id v.host u.host ∨ u.host.calls k = none) ∧ k < u.host.nextCall := by
    refine hrun.invariant (I := fun u => (Unmoved k info.id v.host u.host ∨
      u.host.calls k = none) ∧ k < u.host.nextCall) ⟨.inl (.refl ..), hlt⟩ ?_
    rintro u a t ⟨hu, hlt⟩ hC he
    by_cases hown : ∃ o, a = .host (.step k o)
    · obtain ⟨o, rfl⟩ := hown
      have hstep := step_host he
      have hcall : u.host.calls k = some c := by
        rcases hu with hu | hnone
        · exact hu.call.trans hk
        · obtain ⟨c', _, _, _, _, hk', -⟩ := Host.step_stage hstep
          rw [hnone] at hk'
          cases hk'
      obtain ⟨hnone, hnext, -⟩ := release_step hcall htodo hstep
      exact ⟨.inr hnone, hnext ▸ hlt⟩
    · have hun := unmoved hlt hC (fun o ho => hown ⟨o, ho⟩) he
      exact ⟨hu.imp (Unmoved.trans · hun) hun.call.trans, hlt.trans_le hun.next⟩
  exact inv.1

/-- The release of a call that has nothing else left, after steps of other calls. -/
theorem release_after (hlt : k < v.host.nextCall) (hk : v.host.calls k = some c)
    (htodo : c.todo = [.releaseIP]) (hcontainer : c.container = info.id)
    (hrun : Reaches step (Beside k info.id) v u)
    (he : u.step (.host (.step k release)) = some t) :
    t.host.calls k = none ∧ t.host.world.config info.id = v.host.world.config info.id ∧
      (release = .ok ∧ t.host.world.ipam.lookup info.id = none ∨
        release ≠ .ok ∧ t.host.world.ipam.lookup info.id = v.host.world.ipam.lookup info.id) := by
  have hstep := step_host he
  have hun : Unmoved k info.id v.host u.host := by
    rcases releasing_reaches hlt hk htodo hrun with hun | hnone
    · exact hun
    · obtain ⟨c', _, _, _, _, hk', -⟩ := Host.step_stage hstep
      rw [hnone] at hk'
      cases hk'
  obtain ⟨hnone, -, hconfig, hipam⟩ := release_step (hun.call.trans hk) htodo hstep
  refine ⟨hnone, (congrFun hconfig _).trans hun.config, ?_⟩
  rcases hipam with ⟨rfl, hipam⟩ | ⟨hfails, hipam⟩
  · refine .inl ⟨rfl, ?_⟩
    rw [hipam, hcontainer, Finmap.lookup_erase]
  · refine .inr ⟨hfails, ?_⟩
    rw [hipam, hun.address]

/-- The error branch kills the child and changes nothing else. -/
theorem gaveUp_world {s t : Host} {o : Outcome} (hs : Consistent s) (hk : s.calls k = some c)
    (hfn : c.fn = .start) (hg : c.GivesUp s k st o) (he : s.step (.step k o) = some t) :
    t.world.config = s.world.config ∧ t.world.ipam = s.world.ipam ∧
      t.nextCall = s.nextCall ∧
      t.calls k = (if c.allocatedIP = none then none
        else some { c with child := none, todo := [.releaseIP] }) ∧
      (st = .setupCgroup ∨ .write .restarted ∈ c.todo) := by
  obtain ⟨rest, w, htodo, hp⟩ := hg
  obtain ⟨c', st', rest', w', after, hk', htodo', hp', rfl⟩ := Host.step_stage he
  obtain rfl := Option.some.inj (hk.symm.trans hk')
  rw [htodo] at htodo'
  obtain ⟨rfl, rfl⟩ := List.cons.inj htodo'
  obtain ⟨rfl, rfl⟩ := Prod.mk.inj (Option.some.inj (hp.symm.trans hp'))
  have hprog : st :: rest <:+ Fn.start.program := by
    rw [← hfn, ← htodo]
    exact (hs.call k c hk).program
  have hperf := perform_performed hp
  rw [Host.resume_config, Host.resume_ipam, Host.resume_nextCall, Host.resume_giveUp_calls, htodo]
  cases hperf with
  | gaveUp hst ho hconfig =>
      have hahead := restart_ahead hprog hst
      refine ⟨?_, rfl, rfl, rfl, hahead.imp_right (List.mem_cons_of_mem _)⟩
      rcases hconfig with rfl | ⟨⟨wr, rfl, -⟩, -⟩
      · rfl
      · rcases hahead with hsetup | hmem
        · cases hsetup
        · exact absurd hmem (restart_write hprog).1

/-- The record at the error: an idle one, unless `SetupCgroup` fails after it was written. -/
theorem record_at_error {s u : Host} (hidle : info.status = .created ∨ info.status = .stopped)
    (hpid : info.pid = 0) (hconfig : s.world.config info.id = some info)
    (h : Restarting s info k u) (hk : u.calls k = some c) (hmem : st ∈ c.todo)
    (hst : st = .setupCgroup ∨ .write .restarted ∈ c.todo) :
    (∃ r, u.world.config info.id = some r ∧ (r.status = .created ∨ r.status = .stopped) ∧
        r.pid = 0) ↔
      (st = .setupCgroup → u.world.config info.id = s.world.config info.id) := by
  constructor
  · rintro ⟨r, hr, hstatus, -⟩ rfl
    rcases h.written c hk hmem with hsame | hrunning
    · rw [hsame, hconfig]
    · rw [hrunning r hr] at hstatus
      exact absurd hstatus (by decide)
  · intro hsame
    refine ⟨info, ?_, hidle, hpid⟩
    rcases hst with hst | hahead
    · rw [hsame hst, hconfig]
    · exact h.unwritten c hk hahead

/-- The container when the error is returned: the record of the failure, and no address unless
it was there before the start or could not be released. -/
theorem error_returned (hu : Consistent u.host)
    (hrest : Restarting s.host info s.host.nextCall u.host)
    (hf : FailedStart s info u c st release t) :
    t.host.world.config info.id = u.host.world.config info.id ∧
      (∀ p x, t.host.world.procs p = some x → x.launcher ≠ s.host.nextCall) ∧
      (t.host.world.ipam.lookup info.id = none ↔
        (c.allocatedIP = none → s.host.world.ipam.lookup info.id = none) ∧
          (c.allocatedIP ≠ none → release = .ok)) := by
  obtain ⟨o, v, hgives, hv, hreturns⟩ := hf.returns
  have hk := hf.call
  obtain ⟨hfn, hcontainer⟩ := hrest.fn c hk
  have own : ∀ u o, Beside s.host.nextCall info.id u (.host (.step s.host.nextCall o)) := by
    rintro u o ko ⟨⟩
    exact .inl rfl
  have hvrest := restarting_step hu hrest (own u o) hv
  obtain ⟨hconfig, hipam, hnext, hcalls, -⟩ := gaveUp_world hu hk hfn hgives (step_host hv)
  rcases hreturns with ⟨hip, rfl⟩ | ⟨hip, v', hrun, hrelease⟩
  · rw [if_pos hip] at hcalls
    refine ⟨congrFun hconfig _, fun p x hx => hvrest.childless hcalls hx, ?_⟩
    rw [hipam, hrest.unallocated c hk hip]
    simp [hip]
  · rw [if_neg hip] at hcalls
    obtain ⟨hvcons', hvrest'⟩ := restarting_reaches (consistent_step hu hv) hvrest hrun
    have htrest := restarting_step hvcons' hvrest' (own v' release) hrelease
    obtain ⟨hnone, hconfig', haddress⟩ :=
      release_after hvrest.lt hcalls rfl hcontainer hrun hrelease
    refine ⟨?_, fun p x hx => htrest.childless hnone hx, ?_⟩
    · rw [hconfig', hconfig]
    · have hheld := hrest.allocated c hk hip
      rcases haddress with ⟨rfl, hgone⟩ | ⟨hfails, hkept⟩
      · simp [hgone, hip]
      · rw [hkept, hipam]
        simp [hip, hfails, hheld]

/-- The structure of a host, what its records say, and who has launched its processes. -/
theorem started_reaches (hs : Starting s₀) (h : Reaches step Always s₀ s) :
    Consistent s.host ∧ Coherent s.host ∧ LaunchersBegun s.host := by
  refine h.invariant (I := fun s => Consistent s.host ∧ Coherent s.host ∧ LaunchersBegun s.host)
    ⟨hs.idle.wellFormed.consistent, hs.coherent, fun p x hx => ?_⟩ ?_
  · rw [hs.idle.procs p] at hx
    cases hx
  · rintro s a t ⟨hcons, hcoherent, hbegun⟩ - he
    refine ⟨consistent_step hcons he, coherent_step hcons hcoherent he, ?_⟩
    cases stepped he with
    | hosted free hstep => exact hbegun.step hcons hstep
    | reaped hx orphan =>
        intro p y hy
        obtain ⟨-, hold⟩ := of_erase_eq_some hy
        exact hbegun p y hold
    | crashed | appeared | vanished | begun | checked | ended | unchanged => exact hbegun

/-- **When a container can be started again** after a start that has failed, at whatever
stage, in a host that any run of the system has left. -/
theorem failed_start_iff (hs : Starting s₀) (h : Reaches step Always s₀ s)
    (hf : FailedStart s info u c st release t) :
    StartableAgain s.host.nextCall info.id t.host ↔
      Undone s.host u.host info.id c st release := by
  obtain ⟨hcons, hcoherent, hbegun⟩ := started_reaches hs h
  obtain ⟨identifier, skip, found⟩ := hf.found
  obtain ⟨hconfig, hdir, hstatus⟩ := hcons.startable found
  have hidle : info.status = .created ∨ info.status = .stopped := hstatus.symm
  have hpid : info.pid = 0 := (hcoherent.record _ _ hconfig).idle.mp hidle
  obtain ⟨hu, hrest⟩ := restarting_reaches (s := s)
    (u := { s with host := s.host.begin .start info none })
    (hcons.begin hdir (by simp)) (.begin hcons hbegun found) hf.run
  obtain ⟨hsame, hkilled, haddress⟩ := error_returned hu hrest hf
  obtain ⟨o, v, hgives, hv, -⟩ := hf.returns
  have hhead := (gaveUp_world hu hf.call (hrest.fn c hf.call).1 hgives (step_host hv)).2.2.2.2
  obtain ⟨rest, w, htodo, -⟩ := hgives
  have hrecord := record_at_error hidle hpid hconfig hrest hf.call
    (htodo ▸ List.mem_cons_self) hhead
  constructor
  · intro ha
    obtain ⟨hbefore, hrelease⟩ := haddress.mp ha.address
    exact ⟨hrecord.mp (hsame ▸ ha.record), hbefore, hrelease⟩
  · intro hundone
    refine ⟨hkilled, ?_, haddress.mpr ⟨hundone.address, hundone.release⟩⟩
    rw [hsame]
    exact hrecord.mpr hundone.record

/-! ### Two starts -/

/-- One container, which is stopped. -/
def stoppedSystem : System := { emptySystem with host := stoppedHost }

/-- A system with one stopped container is a start. -/
theorem stoppedSystem_starting : Starting stoppedSystem where
  idle := stoppedHost_idle
  execs _ := rfl
  records d r hr := by
    rcases of_update_eq_some hr with ⟨-, hnew⟩ | ⟨-, hold⟩
    · obtain rfl := Option.some.inj hnew
      exact coherent_idle (.inr rfl) rfl
    · cases hold

/-- The first call has begun a start of the container. -/
def startingSystem : System :=
  { stoppedSystem with host := stoppedHost.begin .start stoppedRecord none }

/-- The start up to its stage after `n` more. -/
def startUpTo (n : ℕ) : System :=
  outcome step (Beside 0 "a") startingSystem (.host (.step 0 (.child 100)) ::
    (stages 0 n).map .host)

/-- Its next stage fails. -/
def startFailed (n : ℕ) : System :=
  ((startUpTo n).step (.host (.step 0 (.fails 0)))).getD (startUpTo n)

/-- The address is released. -/
def startReturned (n : ℕ) : System :=
  ((startFailed n).step (.host (.step 0 .ok))).getD (startFailed n)

/-- A start that fails after `n` stages, as an evaluated run. -/
theorem failedStart_after {n : ℕ} {c : Call} {st : Stage}
    (hc : (startUpTo n).host.calls 0 = some c)
    (hgives : c.GivesUp (startUpTo n).host 0 st (.fails 0)) (hip : c.allocatedIP ≠ none)
    (hv : (startUpTo n).step (.host (.step 0 (.fails 0))) = some (startFailed n))
    (ht : (startFailed n).step (.host (.step 0 .ok)) = some (startReturned n)) :
    FailedStart stoppedSystem stoppedRecord (startUpTo n) c st .ok (startReturned n) where
  found := ⟨"a", [], by decide +kernel⟩
  run := reaches_outcome ..
  call := hc
  returns := ⟨_, _, hgives, hv, .inr ⟨hip, _, .refl _, ht⟩⟩

/-- The request cannot be sent: the container is as it was. -/
theorem failed_start_iff_encode :
    ∃ t : System, StartableAgain 0 "a" t.host := by
  have hf : FailedStart stoppedSystem stoppedRecord (startUpTo 2)
      (((startUpTo 2).host.calls 0).get (by decide +kernel)) .encode .ok (startReturned 2) :=
    failedStart_after rfl ⟨_, _, rfl, rfl⟩ (by decide +kernel) rfl rfl
  refine ⟨_, (failed_start_iff stoppedSystem_starting (.refl stoppedSystem) hf).mpr ⟨nofun, ?_, ?_⟩⟩
  · exact fun _ => rfl
  · exact fun _ => rfl

/-- The cgroup cannot be set up: the child is dead, and the record says `Running`. -/
theorem running_after_error :
    ∃ s info u c t, Reaches step Always stoppedSystem s ∧
      FailedStart s info u c .setupCgroup .ok t ∧
        ¬ StartableAgain s.host.nextCall info.id t.host := by
  have hf : FailedStart stoppedSystem stoppedRecord (startUpTo 4)
      (((startUpTo 4).host.calls 0).get (by decide +kernel)) .setupCgroup .ok (startReturned 4) :=
    failedStart_after rfl ⟨_, _, rfl, rfl⟩ (by decide +kernel) rfl rfl
  refine ⟨_, _, _, _, _, .refl _, hf, fun h => ?_⟩
  obtain ⟨r, hr, hstatus, -⟩ := h.record
  have hrunning : ∃ r ∈ (startReturned 4).host.world.config "a", r.status = .running := by
    decide +kernel
  obtain ⟨r', hr', hrunning⟩ := hrunning
  obtain rfl := Option.some.inj (hr.symm.trans hr')
  rw [hrunning] at hstatus
  exact absurd hstatus (by decide)

end System

end Gocker.Container
