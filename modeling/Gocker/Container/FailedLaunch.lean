import Gocker.Container.Confinement
import Gocker.Container.FailedStart

/-!
# A launch that fails

`SetupCgroup` makes the cgroup directory of the container, and removes it when it fails itself.
In `RunContainer` and `CreateAndRun` the veth pair and the request come after it, and their error
branches kill the child and return; in `Start` it comes last.

`failed_launch_iff` follows a call of any of the three from its beginning to its error, while the
calls on other containers go on, and says when the directory is gone; `cgroup_left` is the run in
which it is not.

### Where the directory stays

`SetupCgroup` undoes its own work: after the failure of a write it removes the directory, which
has no process in it yet.  Nobody undoes it for the stages that come later.  So the answer depends
on the position at which the call gives up: before `SetupCgroup` or in it nothing is left, after
it the directory is.
-/

namespace Gocker.Container

open Machine

/-! ## Positions in a program -/

section
variable {fn : Fn} {st : Stage} {rest : List Stage}

/-- The error branches are before the wait. -/
theorem wait_after_giveUp (h : st :: rest <:+ fn.program) (hst : st.mayGiveUp = true)
    (hfn : fn.launches = true) : .wait ∈ rest := by
  have all : ∀ fn, ∀ todo ∈ Fn.program fn |>.tails, (∃ st ∈ todo.head?, st.mayGiveUp = true) →
      fn.launches = true → .wait ∈ todo.tail := by
    decide
  exact forall_rest all h ⟨st, rfl, hst⟩ hfn

/-- The error branches with the cgroup set up. -/
theorem setup_at_giveUp (h : st :: rest <:+ fn.program) (hst : st.mayGiveUp = true)
    (hfn : fn.launches = true) :
    .setupCgroup ∈ st :: rest ↔ fn = .start ∨ st ≠ .setupVeth ∧ st ≠ .encode := by
  have all : ∀ fn, ∀ todo ∈ Fn.program fn |>.tails, ∀ st ∈ todo.head?, st.mayGiveUp = true →
      fn.launches = true →
        (.setupCgroup ∈ todo ↔ fn = .start ∨ st ≠ .setupVeth ∧ st ≠ .encode) := by
    decide
  exact forall_rest all h st rfl hst hfn

end

/-! ## What happens to a cgroup -/

section
variable {w w' : World} {now : Time} {k : CallId} {c : Call} {st : Stage} {o : Outcome}
  {gs : Cgroups} {d : ContainerID}

/-- A process that leaves takes no directory with it. -/
theorem Cgroups.leave_isSome (gs : Cgroups) (p : PID) (d : ContainerID) :
    (gs.leave p d).isSome = (gs d).isSome := by
  rw [Cgroups.leave, Option.isSome_map]

theorem Cgroups.cleanup_ne {name : String} (h : d ≠ name) : gs.cleanup name d = gs d := by
  unfold Cgroups.cleanup
  cases gs name with
  | none => rfl
  | some g =>
      show (if g.procs = [] then Function.update gs name none else gs) d = gs d
      split_ifs
      · exact Function.update_of_ne h ..
      · rfl

/-- Only `SetupCgroup` and `CleanupCgroup` make or remove a directory, that of their container. -/
theorem Regrouped.isSome_eq (h : Regrouped w c st o gs)
    (hd : d ≠ c.container ∨ st ≠ .setupCgroup ∧ st ≠ .cleanupCgroup) :
    (gs d).isSome = (w.cgroups d).isSome := by
  cases h with
  | setup =>
      have hne := hd.resolve_right fun h => h.1 rfl
      exact (congrArg Option.isSome (Function.update_of_ne hne ..)).trans (Cgroups.leave_isSome ..)
  | @failedSetup n =>
      have hne := hd.resolve_right fun h => h.1 rfl
      cases n with
      | zero => rfl
      | succ n =>
          show (Cgroups.cleanup _ _ d).isSome = _
          rw [Cgroups.cleanup_ne hne, Function.update_of_ne hne]
  | cleanup =>
      rw [Cgroups.cleanup_ne (hd.resolve_right fun h => h.2 rfl)]
  | @limits o name n =>
      rcases eq_or_ne d name with rfl | hne
      · simp only [World.setCgroup, Function.update_self, Option.isSome_map]
      · simp only [World.setCgroup, Function.update_of_ne hne]
  | same => rfl

/-- A directory appears with `SetupCgroup` and goes with `CleanupCgroup`, and otherwise stays. -/
theorem Performed.cgroup_isSome {after : After} (h : Performed w now k c st o w' after)
    (hd : d ≠ c.container ∨ st ≠ .setupCgroup ∧ st ≠ .cleanupCgroup) :
    (w'.cgroups d).isSome = (w.cgroups d).isSome := by
  cases h with
  | allocated | written | torn | unwritten | launched | encoded | waited | released | peered => rfl
  | plain _ _ regrouped => exact regrouped.isSome_eq hd
  | gaveUp _ _ _ regrouped => exact regrouped.isSome_eq hd

/-- A child that is killed leaves its cgroup, which stays. -/
theorem Host.resume_cgroup {s : Host} {rest : List Stage} {after : After} :
    ((s.resume k c rest (w, after)).world.cgroups d).isSome = (w.cgroups d).isSome := by
  cases after with
  | goOn c' => rfl
  | giveUp =>
      show ((w.kill c.child).cgroups d).isSome = _
      cases c.child with
      | none => rfl
      | some p => exact Cgroups.leave_isSome w.cgroups p d

/-- `SetupCgroup` leaves a directory when it succeeds. -/
theorem setupCgroup_isSome (limits : ContainerLimits) (p : PID) :
    ((w.setupCgroup d limits p).cgroups d).isSome = true := by
  simp only [World.setupCgroup, Function.update_self, Option.isSome_some]

/-- A `SetupCgroup` that fails leaves no directory that it has made. -/
theorem failSetupCgroup_eq_none (h : w.cgroups d = none) (limits : ContainerLimits) (n : ℕ) :
    (w.failSetupCgroup d limits n).cgroups d = none := by
  cases n with
  | zero => exact h
  | succ n =>
      show Cgroups.cleanup (Function.update w.cgroups d _) d d = none
      have hprocs : (setResourceLimits n limits ((w.cgroups d).getD .empty)).procs = [] := by
        rw [setResourceLimits_procs, h]
        rfl
      simp only [Cgroups.cleanup, Function.update_self, hprocs, if_true]

end

/-- A step of the host that is not a stage of a call of the container. -/
theorem Host.cgroup_isSome {s t : Host} {e : Event} {d : ContainerID} (he : s.step e = some t)
    (hd : ∀ ko ∈ e.stage, ∀ c ∈ s.calls ko.1, c.container ≠ d) :
    (t.world.cgroups d).isSome = (s.world.cgroups d).isSome := by
  cases Host.stepped he with
  | ran | createdAndRan | starting | stopping | adjusting | refused | ticked => rfl
  | staged call todo performed =>
      rw [Host.resume_cgroup]
      exact (perform_performed performed).cgroup_isSome (.inl (hd _ rfl _ call).symm)
  | moved _ own =>
      cases own with
      | ended => exact Cgroups.leave_isSome ..
      | next => rfl

/-! ## The container during a launch -/

/-- The call `k` on the container has begun in the state `s`: until its wait is over, the
directory is there in `t` if it was there in `s`, or the call has set it up. -/
structure Launching (s : Host) (d : ContainerID) (k : CallId) (t : Host) : Prop where
  lt : k < t.nextCall
  call : ∀ c, t.calls k = some c → c.container = d ∧ c.fn.launches = true
  cgroup : ∀ c, t.calls k = some c → .wait ∈ c.todo →
    ((t.world.cgroups d).isSome ↔ (s.world.cgroups d).isSome ∨ .setupCgroup ∉ c.todo)

section
variable {s t u : Host} {d : ContainerID} {k : CallId}

/-- What other containers' calls do leaves the launch where it is. -/
theorem Launching.of_unmoved (h : Launching s d k t) (hu : Unmoved k d t u)
    (hcgroup : (u.world.cgroups d).isSome = (t.world.cgroups d).isSome) : Launching s d k u where
  lt := h.lt.trans_le hu.next
  call c hc := h.call c (hu.call ▸ hc)
  cgroup c hc hwait := by
    rw [hcgroup]
    exact h.cgroup c (hu.call ▸ hc) hwait

/-- A call that has just begun has made no directory. -/
theorem Launching.begin (hs : Consistent s) {e : Event} (hfn : ∃ fn ∈ e.calls, fn.launches = true)
    (he : s.step e = some t) {c : Call} (hc : t.calls s.nextCall = some c) :
    Launching s c.container s.nextCall t := by
  -- a call that has just begun
  have begun : ∀ dirs fn {info req}, fn.launches = true →
      Host.begin { s with dirs := dirs } fn info req = t →
        Launching s c.container s.nextCall t := by
    rintro dirs fn info req hlaunches rfl
    rcases WellFormed.begin_calls hc with ⟨-, rfl⟩ | ⟨hne, -⟩
    · refine ⟨Nat.lt_succ_self _, fun c' hc' => ?_, fun c' hc' _ => ?_⟩
      · obtain rfl := Option.some.inj (hc.symm.trans hc')
        exact ⟨rfl, hlaunches⟩
      · obtain rfl := Option.some.inj (hc.symm.trans hc')
        cases fn <;> first | exact absurd hlaunches (by decide) | simp [Host.begin, Fn.program]
    · exact absurd rfl hne
  obtain ⟨fn, hmem, hlaunches⟩ := hfn
  cases e with
  | runContainer req id =>
      simp only [Host.step] at he
      split_ifs at he
      have ht : s.runContainer req id = t := Option.some.inj he
      exact begun _ .runContainer rfl ht
  | createAndRun req id =>
      simp only [Host.step] at he
      split_ifs at he
      have ht : s.createAndRun req id = t := Option.some.inj he
      exact begun _ .createAndRun rfl ht
  | start identifier skip =>
      simp only [Host.step] at he
      split at he
      · -- refused, and no call has begun
        obtain rfl := Option.some.inj he
        exact absurd (hs.call _ c hc).lt (Nat.lt_irrefl _)
      · exact begun s.dirs .start rfl (Option.some.inj he)
  | stopContainer | adjustResourceLimits =>
      obtain rfl := Option.some.inj hmem
      exact absurd hlaunches (by decide)
  | step | init | exit | tick => cases hmem

/-- A stage of the call itself keeps what holds of a launch. -/
theorem Launching.stage (ht : Consistent t) (h : Launching s d k t) {c : Call} {st : Stage}
    {rest : List Stage} {o : Outcome} {w' : World} {after : After} (hk : t.calls k = some c)
    (htodo : c.todo = st :: rest) (hp : Performed t.world t.clock k c st o w' after) :
    Launching s d k (t.resume k c rest (w', after)) := by
  have hprog : st :: rest <:+ c.fn.program := htodo ▸ (ht.call k c hk).program
  obtain ⟨hcontainer, hlaunches⟩ := h.call c hk
  refine ⟨?_, fun e he => ?_, fun e he hwait => ?_⟩
  · rw [Host.resume_nextCall]
    exact h.lt
  · rcases Host.resume_calls he with ⟨hne, -⟩ | ⟨-, ⟨c', rfl, -, rfl⟩ | ⟨-, -, rfl⟩⟩
    · exact absurd rfl hne
    · show c'.container = d ∧ c'.fn.launches = true
      rw [hp.container_eq, hp.fn_eq]
      exact ⟨hcontainer, hlaunches⟩
    · exact ⟨hcontainer, hlaunches⟩
  · rw [Host.resume_cgroup]
    rcases Host.resume_calls he with ⟨hne, -⟩ | ⟨-, ⟨c', rfl, -, rfl⟩ | ⟨-, -, rfl⟩⟩
    · exact absurd rfl hne
    · have hwait : .wait ∈ rest := hwait
      have hold := h.cgroup c hk (htodo ▸ List.mem_cons_of_mem _ hwait)
      by_cases hsetup : st = .setupCgroup
      · subst hsetup
        refine iff_of_true ?_ (.inr (not_mem_rest hprog))
        cases hp with
        | plain _ ho regrouped =>
            obtain rfl := ho rfl
            cases regrouped with
            | setup child =>
                rw [← hcontainer]
                exact setupCgroup_isSome _ _
            | same hst => exact absurd rfl hst
      · have hcleanup : st ≠ .cleanupCgroup := by
          rintro rfl
          exact no_wait_of_completes hprog ⟨_, rfl, rfl⟩ hlaunches (List.mem_cons_of_mem _ hwait)
        rw [hp.cgroup_isSome (.inr ⟨hsetup, hcleanup⟩), hold, htodo, List.mem_cons,
          or_iff_right (Ne.symm hsetup)]
    · cases List.mem_singleton.mp hwait

end

/-! ## The launch that fails -/

namespace System

/-- The event `e` of the state `s` begins a launch of the container, whose call fails in `u` at
the stage `st`, and has returned in `t`. -/
structure FailedLaunch (s : System) (e : Event) (d : ContainerID) (u : System) (c : Call)
    (st : Stage) (t : System) : Prop where
  launches : ∃ fn ∈ e.calls, fn.launches = true
  run : ∃ s₁ c₁, s.step (.host e) = some s₁ ∧ s₁.host.calls s.host.nextCall = some c₁ ∧
    c₁.container = d ∧ Reaches step (Beside s.host.nextCall d) s₁ u
  call : u.host.calls s.host.nextCall = some c
  returns : ∃ o v, c.GivesUp u.host s.host.nextCall st o ∧
    u.step (.host (.step s.host.nextCall o)) = some v ∧
    Reaches step (Beside s.host.nextCall d) v t
  returned : t.host.calls s.host.nextCall = none

/-- A directory of the container's cgroup that was not there before is not there after. -/
def LeavesNoCgroup (s t : Host) (d : ContainerID) : Prop :=
  s.world.cgroups d = none → t.world.cgroups d = none

variable {s₀ s t u v : System} {e : Event} {d : ContainerID} {k : CallId} {c : Call} {st : Stage}

/-- What is not a stage of the call leaves the directory. -/
theorem cgroup_isSome {a : Happening} (hC : Beside k d u a) (hnot : ∀ o, a ≠ .host (.step k o))
    (he : u.step a = some t) :
    (t.host.world.cgroups d).isSome = (u.host.world.cgroups d).isSome := by
  cases stepped he with
  | @hosted e host free hstep =>
      refine Host.cgroup_isSome hstep fun ko hko c hc => ?_
      rcases hC ko hko with rfl | hother
      · cases e with
        | step k o =>
            cases hko
            exact absurd rfl (hnot o)
        | _ => cases hko
      · exact hother c hc
  | crashed | reaped | appeared | vanished | begun | checked | ended | unchanged => rfl

/-- A step of the system, the call's own or another one. -/
theorem launching_step {a : Happening} (hu : Consistent u.host) (h : Launching s.host d k u.host)
    (hC : Beside k d u a) (he : u.step a = some t) : Launching s.host d k t.host := by
  by_cases hown : ∃ o, a = .host (.step k o)
  · obtain ⟨o, rfl⟩ := hown
    obtain ⟨c, st, rest, w, after, hk, htodo, hp, ht⟩ := Host.step_stage (step_host he)
    rw [ht]
    exact h.stage hu hk htodo (perform_performed hp)
  · have hnot : ∀ o, a ≠ .host (.step k o) := fun o ho => hown ⟨o, ho⟩
    exact h.of_unmoved (unmoved h.lt hC hnot he) (cgroup_isSome hC hnot he)

theorem launching_reaches (hu : Consistent u.host) (h : Launching s.host d k u.host)
    (hrun : Reaches step (Beside k d) u t) :
    Consistent t.host ∧ Launching s.host d k t.host :=
  hrun.invariant (I := fun t => Consistent t.host ∧ Launching s.host d k t.host) ⟨hu, h⟩
    fun _ _ _ ⟨hu, h⟩ hC he => ⟨consistent_step hu he, launching_step hu h hC he⟩

/-- A call that has at most its release left does nothing to the directory. -/
theorem released_cgroup (hlt : k < v.host.nextCall)
    (hv : ∀ c, v.host.calls k = some c → c.todo = [.releaseIP])
    (hrun : Reaches step (Beside k d) v t) :
    (t.host.world.cgroups d).isSome = (v.host.world.cgroups d).isSome := by
  have inv : k < t.host.nextCall ∧ (∀ c, t.host.calls k = some c → c.todo = [.releaseIP]) ∧
      (t.host.world.cgroups d).isSome = (v.host.world.cgroups d).isSome := by
    refine hrun.invariant (I := fun t => k < t.host.nextCall ∧
      (∀ c, t.host.calls k = some c → c.todo = [.releaseIP]) ∧
      (t.host.world.cgroups d).isSome = (v.host.world.cgroups d).isSome) ⟨hlt, hv, rfl⟩ ?_
    rintro u a t ⟨hlt, htodo, hsame⟩ hC he
    by_cases hown : ∃ o, a = .host (.step k o)
    · obtain ⟨o, rfl⟩ := hown
      obtain ⟨c, st, rest, w, after, hk, hstages, hp, ht⟩ := Host.step_stage (step_host he)
      obtain ⟨rfl, rfl⟩ := List.cons.inj (hstages.symm.trans (htodo c hk))
      rw [ht]
      refine ⟨?_, fun c' hc' => ?_, ?_⟩
      · rw [Host.resume_nextCall]
        exact hlt
      · rcases Host.resume_calls hc' with ⟨hne, -⟩ | ⟨-, ⟨-, -, hrest, -⟩ | ⟨-, -, rfl⟩⟩
        · exact absurd rfl hne
        · exact absurd rfl hrest
        · rfl
      · rw [Host.resume_cgroup, (perform_performed hp).cgroup_isSome (.inr ⟨nofun, nofun⟩), hsame]
    · have hnot : ∀ o, a ≠ .host (.step k o) := fun o ho => hown ⟨o, ho⟩
      have hun := unmoved hlt hC hnot he
      refine ⟨hlt.trans_le hun.next, fun c hc => htodo c (hun.call ▸ hc), ?_⟩
      rw [cgroup_isSome hC hnot he, hsame]
  exact inv.2.2

/-- The error branch: the child is gone, at most the release is left, and the directory is there
if the call has set it up and it was not this that failed. -/
theorem cgroup_at_error {s u v : Host} {o : Outcome} (hu : Consistent u) (h : Launching s d k u)
    (hk : u.calls k = some c) (hg : c.GivesUp u k st o) (he : u.step (.step k o) = some v)
    (hs : s.world.cgroups d = none) :
    (∀ c', v.calls k = some c' → c'.todo = [.releaseIP]) ∧
      (v.world.cgroups d = none ↔ c.fn = .start ∨ st ≠ .setupVeth ∧ st ≠ .encode) := by
  obtain ⟨rest, w, htodo, hp⟩ := hg
  obtain ⟨c', st', rest', w', after, hk', htodo', hp', rfl⟩ := Host.step_stage he
  obtain rfl := Option.some.inj (hk.symm.trans hk')
  obtain ⟨rfl, rfl⟩ := List.cons.inj (htodo.symm.trans htodo')
  obtain ⟨rfl, rfl⟩ := Prod.mk.inj (Option.some.inj (hp.symm.trans hp'))
  obtain ⟨hcontainer, hlaunches⟩ := h.call c hk
  have hprog : st :: rest <:+ c.fn.program := htodo ▸ (hu.call k c hk).program
  have hperf := perform_performed hp
  have hst : st.mayGiveUp = true := by
    cases hperf with
    | gaveUp hst => exact hst
  have hold := h.cgroup c hk
    (htodo ▸ List.mem_cons_of_mem _ (wait_after_giveUp hprog hst hlaunches))
  rw [hs, htodo] at hold
  refine ⟨fun c' hc' => ?_, ?_⟩
  · rcases Host.resume_calls hc' with ⟨hne, -⟩ | ⟨-, ⟨_, hafter, -⟩ | ⟨-, -, rfl⟩⟩
    · exact absurd rfl hne
    · cases hafter
    · rfl
  · rw [← setup_at_giveUp hprog hst hlaunches, ← Option.not_isSome_iff_eq_none, Host.resume_cgroup]
    by_cases hsetup : st = .setupCgroup
    · subst hsetup
      refine iff_of_true ?_ List.mem_cons_self
      have hnone : u.world.cgroups d = none := by
        rw [← Option.not_isSome_iff_eq_none, hold]
        simp
      rw [Option.not_isSome_iff_eq_none]
      cases hperf with
      | gaveUp _ ho _ regrouped =>
          cases regrouped with
          | setup => exact absurd rfl (ho (.inl rfl))
          | failedSetup =>
              rw [hcontainer]
              exact failSetupCgroup_eq_none hnone ..
          | same hne => exact absurd rfl hne
    · have hcleanup : st ≠ .cleanupCgroup := by
        rintro rfl
        cases hst
      rw [hperf.cgroup_isSome (.inr ⟨hsetup, hcleanup⟩), hold]
      simp only [Option.isSome_none, Bool.false_eq_true, false_or, not_not]

/-- **When a failed launch leaves no cgroup behind**, at whatever stage it fails: there was one
before, it is a `Start`, or the stage is not one of the two that come after `SetupCgroup` has made
the directory. -/
theorem failed_launch_iff (hs : Idle s₀.host) (h : Reaches step Always s₀ s)
    (hf : FailedLaunch s e d u c st t) :
    LeavesNoCgroup s.host t.host d ↔
      (s.host.world.cgroups d = none → c.fn = .start ∨ st ≠ .setupVeth ∧ st ≠ .encode) := by
  have hcons : Consistent s.host := h.invariant (I := fun s => Consistent s.host)
    hs.wellFormed.consistent fun _ _ _ hs _ he => consistent_step hs he
  obtain ⟨s₁, c₁, he, hc₁, rfl, hrun⟩ := hf.run
  obtain ⟨hu, hlaunching⟩ := launching_reaches (consistent_step hcons he)
    (.begin hcons hf.launches (step_host he) hc₁) hrun
  obtain ⟨o, v, hgives, hv, hreturns⟩ := hf.returns
  refine forall_congr' fun hnone => ?_
  obtain ⟨hreleased, hiff⟩ :=
    cgroup_at_error hu hlaunching hf.call hgives (step_host hv) hnone
  have own : Beside s.host.nextCall c₁.container u (.host (.step s.host.nextCall o)) := by
    rintro ko ⟨⟩
    exact .inl rfl
  have hlt := (launching_step hu hlaunching own hv).lt
  rw [← hiff, ← Option.not_isSome_iff_eq_none, ← Option.not_isSome_iff_eq_none,
    released_cgroup hlt hreleased hreturns]

/-! ### Two launches -/

/-- A `RunContainer` has begun. -/
def launchingSystem : System :=
  (emptySystem.step (.host (.runContainer shellRequest "a"))).getD emptySystem

/-- The launch after these steps. -/
def launchUpTo (es : List Event) : System :=
  outcome step (Beside 0 "a") launchingSystem (es.map .host)

/-- Its next stage fails; `n` says how far it came if it is `SetupCgroup`. -/
def launchFailed (n : ℕ) (es : List Event) : System :=
  ((launchUpTo es).step (.host (.step 0 (.fails n)))).getD (launchUpTo es)

/-- The address is released. -/
def launchReturned (n : ℕ) (es : List Event) : System :=
  outcome step (Beside 0 "a") (launchFailed n es) [.host (.step 0 .ok)]

/-- A launch that fails after some events, as an evaluated run. -/
theorem failedLaunch_after {n : ℕ} {es : List Event} {c : Call} {st : Stage}
    (hc : (launchUpTo es).host.calls 0 = some c)
    (hgives : c.GivesUp (launchUpTo es).host 0 st (.fails n))
    (hv : (launchUpTo es).step (.host (.step 0 (.fails n))) = some (launchFailed n es))
    (hnone : (launchReturned n es).host.calls 0 = none) :
    FailedLaunch emptySystem (.runContainer shellRequest "a") "a" (launchUpTo es) c st
      (launchReturned n es) where
  launches := ⟨.runContainer, rfl, rfl⟩
  run := ⟨launchingSystem, _, rfl, rfl, rfl, reaches_outcome ..⟩
  call := hc
  returns := ⟨_, _, hgives, hv, reaches_outcome ..⟩
  returned := hnone

/-- The steps of a launch up to `SetupCgroup`. -/
def childLaunched : List Event := stages 0 2 ++ [.step 0 (.child 100)]

/-- `SetupCgroup` has made the directory and written a limit when the next one is refused: the
launch returns the error, and the directory is gone again. -/
theorem failed_launch_iff_limit :
    ∃ t : System, t = launchReturned 2 childLaunched ∧ t.host.world.procs 100 = none ∧
      LeavesNoCgroup emptySystem.host t.host "a" := by
  have hf : FailedLaunch emptySystem (.runContainer shellRequest "a") "a"
      (launchUpTo childLaunched) (((launchUpTo childLaunched).host.calls 0).get (by decide +kernel))
      .setupCgroup (launchReturned 2 childLaunched) :=
    failedLaunch_after rfl ⟨_, _, rfl, rfl⟩ rfl rfl
  exact ⟨_, rfl, by decide +kernel,
    (failed_launch_iff emptyHost_idle (.refl emptySystem) hf).mpr
      fun _ => .inr ⟨by decide, by decide⟩⟩

/-- The steps of a launch up to its veth pair. -/
def cgroupSetUp : List Event := childLaunched ++ stages 0 1

/-- **The veth pair cannot be set up**: the child is dead, the error is returned, and the
directory of the cgroup is there. -/
theorem cgroup_left :
    ∃ s e d u c t, Reaches step Always emptySystem s ∧ FailedLaunch s e d u c .setupVeth t ∧
      ¬ LeavesNoCgroup s.host t.host d := by
  have hf : FailedLaunch emptySystem (.runContainer shellRequest "a") "a"
      (launchUpTo cgroupSetUp) (((launchUpTo cgroupSetUp).host.calls 0).get (by decide +kernel))
      .setupVeth (launchReturned 0 cgroupSetUp) :=
    failedLaunch_after rfl ⟨_, _, rfl, rfl⟩ rfl rfl
  refine ⟨_, _, _, _, _, _, .refl _, hf, fun h => ?_⟩
  have hleft : (launchReturned 0 cgroupSetUp).host.world.cgroups "a" ≠ none := by
    decide +kernel
  exact hleft (h rfl)

end System

end Gocker.Container
