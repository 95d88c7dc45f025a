import Gocker.Lib.Machine
import Gocker.Container.Steps

/-!
# Completing an earlier run

After the wait, `RunContainer`, `CreateAndRun` and `Start` write a `Stopped` record,
remove the cgroup and release the address, all of it under the container's id.  That
is right as long as the container has not been restarted in the meantime.

`restarted_spared` gives the condition: a call sets the record to `Running` only
when it is the only running call that has launched, or will launch, a process of the
container.  Then a `Running` record means that no earlier call is left (`Alone`).
Nothing in the code enforces it, because `StopContainer` sets the record to
`Stopped` while the earlier call still waits: `restarted_destroyed` is that run, and
`completion_overwrites` says that the write after the wait never looks at the record.

### What is destroyed

The write after the wait says `Stopped` and leaves the number 0, so the record no longer leads
to the live process.  The cgroup is removed if the live process is not in it.  And the address is
released, so that the next container may get it.  All three go by the id alone, and none of them
asks whether the record is still the one that the call has written.
-/

namespace Gocker.Container

open Machine

/-- A step keeps the record, the cgroup and the address of the container. -/
structure Spares (s t : Host) (d : ContainerID) : Prop where
  config : t.world.config d = s.world.config d
  cgroup : t.world.cgroups d = s.world.cgroups d
  address : t.world.ipam.lookup d = s.world.ipam.lookup d

/-- Where the record says `Running` with the number of a live process, the steps
that complete an earlier run of the container leave it alone. -/
def RestartedSpared (s : Host) : Prop :=
  ∀ k c st o t r x, s.calls k = some c → c.fn.launches = true → c.todo.head? = some st →
    st.completes = true → s.step (.step k o) = some t →
    s.world.config c.container = some r → r.status = .running →
    s.world.procs r.pid = some x → x.alive = true → x.container = c.container →
    Spares s t c.container

/-- A call that sets the record to `Running` is the only running call of a launching
function on the container. -/
def RestartsAlone (s : Host) (e : Event) : Prop :=
  ∀ ko ∈ e.stage, ∀ c ∈ s.calls ko.1, (∃ st ∈ c.todo.head?, st.setsRunning = true) →
    ∀ j < s.nextCall, ∀ d ∈ s.calls j, d.container = c.container → d.fn.launches = true → j = ko.1

instance (s : Host) (e : Event) : Decidable (RestartsAlone s e) := by
  unfold RestartsAlone
  infer_instance

/-- A `Running` record belongs to a single launching call. -/
structure Alone (s : Host) : Prop where
  fn : ∀ k c, s.calls k = some c → c.fn ≠ .adjustResourceLimits
  first : ∀ k c, s.calls k = some c → .write .created ∈ c.todo → c.info.status = .created
  alone : ∀ r i j c d, s.world.config c.container = some r → r.status = .running →
    s.calls i = some c → s.calls j = some d → c.fn.launches = true → d.fn.launches = true →
    d.container = c.container → i = j

variable {s t : Host}

/-- Where nothing is running, no container has two calls. -/
theorem Idle.alone (h : Idle s) : Alone s := by
  exact ⟨fun k c hk => (h.nocall hk).elim, fun k c hk => (h.nocall hk).elim,
    fun r i j c d _ _ hi => (h.nocall hi).elim⟩

/-- A call that completes has no process, so the live one is not an earlier call's. -/
theorem Alone.spared (wf : WellFormed s) (h : Alone s) : RestartedSpared s := by
  intro k c st o t r x hk hfn hhead hst _ hr hrunning hx _ hcontainer
  obtain ⟨d, hd, hchild, hdc⟩ := wf.launcher hx
  have hdwf := wf.call _ d hd
  have hwait : .wait ∈ d.todo := (hdwf.child.mp (by rw [hchild]; rfl)).2
  have hkd : k = x.launcher := h.alone r k x.launcher c d hr hrunning hk hd hfn
    (launches_of_wait hdwf.program hwait) (hdc.trans hcontainer)
  subst hkd
  obtain rfl := Option.some.inj (hk.symm.trans hd)
  exact absurd hwait (no_wait_of_completes hdwf.program ⟨st, hhead, hst⟩ hfn)

/-! ## The invariant -/

theorem Alone.of_dirs (h : Alone s) (dirs : List ContainerID) : Alone { s with dirs := dirs } :=
  ⟨h.fn, h.first, h.alone⟩

/-- A launching call begins where the record does not say `Running`. -/
theorem Alone.begin (h : Alone s) {fn : Fn} {info : ContainerInfo} {req : Option RunRequest}
    (hfn : fn ≠ .adjustResourceLimits)
    (hfirst : .write .created ∈ fn.program → info.status = .created)
    (hidle : fn.launches = true → ∀ r, s.world.config info.id = some r → r.status ≠ .running) :
    Alone (s.begin fn info req) where
  fn k c hk := by
    rcases WellFormed.begin_calls hk with ⟨-, rfl⟩ | ⟨-, hold⟩
    · exact hfn
    · exact h.fn k c hold
  first k c hk hmem := by
    rcases WellFormed.begin_calls hk with ⟨-, rfl⟩ | ⟨-, hold⟩
    · exact hfirst hmem
    · exact h.first k c hold hmem
  alone r i j c d hr hrunning hi hj hc hd heq := by
    rcases WellFormed.begin_calls hi with ⟨rfl, rfl⟩ | ⟨-, hi⟩
    · exact absurd hrunning (hidle hc r hr)
    · rcases WellFormed.begin_calls hj with ⟨rfl, rfl⟩ | ⟨-, hj⟩
      · have hr : s.world.config c.container = some r := hr
        rw [← heq] at hr
        exact absurd hrunning (hidle hd r hr)
      · exact h.alone r i j c d hr hrunning hi hj hc hd heq

/-- A stage keeps it, because a call sets `Running` only when no other call of the container has
a process. -/
theorem Alone.stage (wf : WellFormed s) (h : Alone s) {k : CallId} {c : Call} {st : Stage}
    {rest : List Stage} {o : Outcome} {w' : World} {after : After} (hk : s.calls k = some c)
    (htodo : c.todo = st :: rest) (hp : Performed s.world s.clock k c st o w' after)
    (hC : RestartsAlone s (.step k o)) : Alone (s.resume k c rest (w', after)) where
  fn j d hj := by
    obtain ⟨e, he, hfn, -⟩ := WellFormed.source hk hp hj
    exact hfn ▸ h.fn j e he
  first j d hj hmem := by
    rcases Host.resume_calls hj with ⟨-, hold⟩ | ⟨rfl, ⟨c', rfl, -, rfl⟩ | ⟨rfl, -, rfl⟩⟩
    · exact h.first j d hold hmem
    · have hprog : st :: rest <:+ c.fn.program := htodo ▸ (wf.call _ c hk).program
      have hold := h.first _ c hk (htodo ▸ List.mem_cons_of_mem _ hmem)
      cases hp with
      | written | torn | unwritten => exact absurd hmem (no_created_after_write hprog)
      | allocated | launched | encoded | waited | released | peered | plain => exact hold
    · exact absurd (List.mem_singleton.mp hmem) nofun
  alone r i j d e hr hrunning hi hj hd he heq := by
    have hprog : st :: rest <:+ c.fn.program := htodo ▸ (wf.call k c hk).program
    obtain ⟨d', hi', hdfn, hdc⟩ := WellFormed.source hk hp hi
    obtain ⟨e', hj', hefn, hec⟩ := WellFormed.source hk hp hj
    rw [hdfn] at hd
    rw [hefn] at he
    rw [hdc, hec] at heq
    rw [Host.resume_config, hdc] at hr
    have old : s.world.config d'.container = some r → i = j := fun hr =>
      h.alone r i j d' e' hr hrunning hi' hj' hd he heq
    rcases hp.record_source hr with hold | ⟨wr, rfl, hown, rfl, -⟩
    · exact old hold
    · rcases Call.record_status hrunning with hset | ⟨rfl | rfl, hinfo⟩
      · have alone : ∀ l f, s.calls l = some f → f.container = c.container →
            f.fn.launches = true → l = k := fun l f hl hfc hf =>
          hC _ rfl c hk ⟨_, by rw [htodo]; rfl, hset⟩ l (wf.call l f hl).lt f hl hfc hf
        rw [alone i d' hi' hown hd, alone j e' hj' (heq.trans hown) he]
      · rw [h.first k c hk (htodo ▸ List.mem_cons_self)] at hinfo
        cases hinfo
      · exact absurd (adjust_of_limits hprog) (h.fn k c hk)

/-- **No container has two calls with a process while its record says `Running`**, in every run
that meets the condition. -/
theorem Alone.step {e : Event} (wf : WellFormed s) (h : Alone s) (hD : NotAdjust e)
    (hC : RestartsAlone s e) (he : s.step e = some t) : Alone t := by
  have notDir : ∀ {id r}, id ∉ s.dirs → s.world.config id = some r → r.status ≠ .running :=
    fun hid hr => absurd (wf.record _ _ hr).2 hid
  cases Host.stepped he with
  | ran fresh =>
      exact (h.of_dirs _).begin (by decide) (fun _ => rfl) fun _ _ hr => notDir fresh hr
  | createdAndRan fresh =>
      exact (h.of_dirs _).begin (by decide) (fun _ => rfl) fun _ _ hr => notDir fresh hr
  | starting found =>
      refine h.begin (by decide) (by simp [Fn.program]) fun _ r hr => ?_
      obtain ⟨hconfig, -, hstatus⟩ := wf.consistent.startable found
      obtain rfl := Option.some.inj (hconfig.symm.trans hr)
      rcases hstatus with hs | hs <;> simp [hs]
  | stopping found =>
      exact h.begin (by decide) (by simp [Fn.program]) fun hl => absurd hl (by decide)
  | adjusting found => exact absurd rfl hD
  | refused => exact h
  | staged call todo performed => exact h.stage wf call todo (perform_performed performed) hC
  | moved moved =>
      refine ⟨h.fn, h.first, ?_⟩
      intro r i j c d hr
      exact h.alone r i j c d (moved.config ▸ hr)
  | ticked => exact ⟨h.fn, h.first, h.alone⟩

/-- **Completing an earlier run leaves a restarted container alone**, in any run of
`RunContainer`, `CreateAndRun`, `Start` and `StopContainer` in which a call sets the
record to `Running` only once the calls of earlier runs have returned. -/
theorem restarted_spared (hs : Idle s)
    (h : Reaches Host.step (fun s e => NotAdjust e ∧ RestartsAlone s e) s t) :
    RestartedSpared t := by
  have inv : WellFormed t ∧ Alone t :=
    h.invariant (I := fun s => WellFormed s ∧ Alone s) ⟨hs.wellFormed, hs.alone⟩
      fun _ _ _ ⟨wf, ha⟩ ⟨hD, hC⟩ he => ⟨wf.step he, ha.step wf hD hC he⟩
  exact inv.2.spared inv.1

/-- A container that is stopped, waited for and restarted. -/
def restartAfterWait : List Event :=
  launching 0 "a" 100 ++ .stopContainer "a" [] :: stages 1 3 ++ .exit 100 :: stages 0 4 ++
    .start "a" [] :: .step 2 (.child 101) :: stages 2 5

/-- A container is stopped, its process ends, its call completes, and it is started again. -/
theorem restarted_spared_after_wait :
    ∃ t : Host, (∃ r ∈ t.world.config "a", r.status = .running ∧ r.pid = 101) ∧
      RestartedSpared t :=
  ⟨outcome Host.step (fun s e => NotAdjust e ∧ RestartsAlone s e) emptyHost restartAfterWait,
    by decide +kernel, restarted_spared emptyHost_idle (reaches_outcome ..)⟩

/-- A write after the wait replaces the record, whatever it says. -/
theorem completion_overwrites {k : CallId} {c : Call} {wr : Write} {rest : List Stage}
    (hk : s.calls k = some c) (htodo : c.todo = .write wr :: rest)
    (hwr : (Stage.write wr).completes = true) (ht : s.step (.step k .ok) = some t) :
    ∃ r, t.world.config c.container = some r ∧ r.status = .stopped ∧ r.pid = 0 := by
  simp only [Host.step, hk, Option.bind_some, htodo, perform, World.written, Option.map_some,
    Option.some.injEq] at ht
  subst ht
  refine ⟨c.record s.clock wr, Function.update_self .., ?_⟩
  cases wr <;> first | exact ⟨rfl, rfl⟩ | exact absurd hwr (by decide)

/-- The container is restarted while its first process has not handled the signal,
and the first process exits after that. -/
def restartBeforeExit : List Event :=
  launching 0 "a" 100 ++ .stopContainer "a" [] :: stages 1 3 ++
    .start "a" [] :: .step 2 (.child 101) :: stages 2 5 ++ .exit 100 :: stages 0 1

/-- The call that waited for the first process is about to overwrite the record of the
second one. -/
theorem restarted_destroyed :
    ∃ t, Reaches Host.step (fun _ e => NotAdjust e) emptyHost t ∧ ¬ RestartedSpared t := by
  let t := outcome Host.step (fun _ e => NotAdjust e) emptyHost restartBeforeExit
  have call : ∃ c ∈ t.calls 0, c.fn.launches = true ∧ c.container = "a" ∧
      c.todo.head? = some (.write .exited) := by decide +kernel
  have record : ∃ r ∈ t.world.config "a", r.status = .running ∧
      ∃ x ∈ t.world.procs r.pid, x.alive = true ∧ x.container = "a" := by decide +kernel
  have next : ∃ u ∈ t.step (.step 0 .ok), ∃ r ∈ u.world.config "a", r.status = .stopped := by
    decide +kernel
  refine ⟨t, reaches_outcome .., fun h => ?_⟩
  obtain ⟨c, hk, hfn, hca, hhead⟩ := call
  obtain ⟨r, hr, hrunning, x, hx, halive, hxa⟩ := record
  obtain ⟨u, hu, r', hr', hstopped⟩ := next
  have hspared := h 0 c _ .ok u r x hk hfn hhead rfl hu (hca ▸ hr) hrunning hx halive
    (hxa.trans hca.symm)
  have hsame := hspared.config
  rw [hca] at hsame
  obtain rfl := Option.some.inj (hr'.symm.trans (hsame.trans hr))
  rw [hrunning] at hstopped
  exact absurd hstopped nofun

end Gocker.Container
