import Gocker.Lib.Machine
import Gocker.Container.Steps

/-!
# Concurrent restarts

The daemon serves each connection in a goroutine of its own, so any number of
`Start` calls of one container run at the same time.  Each of them reads the record,
refuses one that says `Running`, and writes `Running` only after it has launched its
process and sent the request.

`single_init` gives the condition under which the check excludes a second process: a
call passes it only while no other call that has passed it has its write still ahead,
and the write reaches the file.  `two_inits` is the run in which two calls pass the
check one after the other.

### Why a check and a write are not enough

The check and the write are far apart: between them `Start` launches the process, sets up its
interface, allocates an address and sends the request.  Any call that reads the record in this
time is let through.  The condition names exactly this window, and the invariant says what is
true outside it: a container with a live process or a call that is going to launch one has one
such call, or its record says `Running`.
-/

namespace Gocker.Container

open Machine

/-- No two processes of one container are alive. -/
def SingleInit (s : Host) : Prop :=
  ∀ p q x y, s.world.procs p = some x → s.world.procs q = some y → x.alive = true →
    y.alive = true → x.container = y.container → p = q

/-- The only function called is `Start`. -/
def OnlyStart (e : Event) : Prop := ∀ fn ∈ e.calls, fn = .start

/-- A call that passes the check is the only one with its write of `Running` ahead. -/
def PassesAlone (s : Host) : Event → Prop
  | .start identifier skip =>
      ∀ info ∈ s.startable skip identifier, ∀ j < s.nextCall, ∀ d ∈ s.calls j,
        d.container = info.id → .write .restarted ∉ d.todo
  | _ => True

/-- The write of `Running` reaches the file. -/
def RestartWritten (s : Host) (e : Event) : Prop :=
  ∀ ko ∈ e.stage, ∀ c ∈ s.calls ko.1, c.todo.head? = some (.write .restarted) → ko.2 ≠ .fails 0

instance (e : Event) : Decidable (OnlyStart e) := by
  unfold OnlyStart
  infer_instance

instance (s : Host) (e : Event) : Decidable (PassesAlone s e) := by
  cases e <;> unfold PassesAlone <;> infer_instance

instance (s : Host) (e : Event) : Decidable (RestartWritten s e) := by
  unfold RestartWritten
  infer_instance

/-- The call has not made its write after the wait. -/
def Call.Active (c : Call) : Prop := ∃ st ∈ c.todo, st.isFinal = true

/-- One restart of a container at a time, and while it is up no record admits
another. -/
structure Single (s : Host) : Prop where
  fn : ∀ k c, s.calls k = some c → c.fn = .start
  up : ∀ k c, s.calls k = some c → c.Up → ∀ r, s.world.config c.container = some r →
    r.status = .running
  one : ∀ i j c d, s.calls i = some c → s.calls j = some d → c.Active → d.Active →
    d.container = c.container → i = j

variable {s t : Host}

/-- Where nothing is running, no container has two processes. -/
theorem Idle.single (h : Idle s) : Single s := by
  exact ⟨fun k c hk => (h.nocall hk).elim, fun k c hk => (h.nocall hk).elim,
    fun i _ c _ hi => (h.nocall hi).elim⟩

/-- A process is the child of an active call. -/
theorem Single.singleInit (wf : WellFormed s) (h : Single s) : SingleInit s := by
  intro p q x y hx hy _ _ heq
  have active : ∀ {p x}, s.world.procs p = some x →
      ∃ c, s.calls x.launcher = some c ∧ c.Active ∧ c.container = x.container := by
    intro p x hx
    obtain ⟨c, hc, hchild, hcontainer⟩ := wf.launcher hx
    have hcwf := wf.call _ c hc
    have hwait : .wait ∈ c.todo := (hcwf.child.mp (by rw [hchild]; rfl)).2
    exact ⟨c, hc, final_of_wait hcwf.program hwait, hcontainer⟩
  obtain ⟨c, hc, hca, hcx⟩ := active hx
  obtain ⟨d, hd, hda, hdy⟩ := active hy
  exact wf.proc_inj hx hy (h.one _ _ c d hc hd hca hda (hdy.trans (heq.symm.trans hcx.symm)))

/-! ## The invariant -/

/-- A call that passes the check finds no active call of the container. -/
theorem Single.begin (wf : WellFormed s) (h : Single s) {identifier : String}
    {skip : List ContainerID} {info : ContainerInfo}
    (found : s.startable skip identifier = some info)
    (hC : PassesAlone s (.start identifier skip)) : Single (s.begin .start info none) := by
  obtain ⟨hconfig, -, hstatus⟩ := wf.consistent.startable found
  have inactive : ∀ j d, s.calls j = some d → d.container = info.id → ¬ d.Active := by
    intro j d hj hd hactive
    have hdwf := wf.call j d hj
    have hfn := h.fn j d hj
    have hprog : d.todo <:+ Fn.start.program := hfn ▸ hdwf.program
    rcases restarting_or_up hprog hactive with hahead | hup
    · exact hC info found j hdwf.lt d hj hd hahead
    · have hrunning := h.up j d hj (by rw [Call.Up, hfn]; exact hup) info (hd ▸ hconfig)
      rw [hrunning] at hstatus
      exact absurd hstatus (by decide)
  constructor
  · intro k c hk
    rcases WellFormed.begin_calls hk with ⟨-, rfl⟩ | ⟨-, hold⟩
    · rfl
    · exact h.fn k c hold
  · intro k c hk hup
    rcases WellFormed.begin_calls hk with ⟨-, rfl⟩ | ⟨-, hold⟩
    · exact absurd hup (not_upAt_program .start)
    · exact h.up k c hold hup
  · intro i j c d hi hj hc hd heq
    rcases WellFormed.begin_calls hi with ⟨rfl, rfl⟩ | ⟨-, hi⟩
    · rcases WellFormed.begin_calls hj with ⟨rfl, -⟩ | ⟨-, hj⟩
      · rfl
      · exact absurd hd (inactive j d hj heq)
    · rcases WellFormed.begin_calls hj with ⟨rfl, rfl⟩ | ⟨-, hj⟩
      · exact absurd hc (inactive i c hi heq.symm)
      · exact h.one i j c d hi hj hc hd heq

/-- A call that is active after a stage was active before. -/
theorem Performed.active_source {k : CallId} {c : Call} {st : Stage} {rest : List Stage}
    {o : Outcome} {w' : World} {after : After} (hk : s.calls k = some c)
    (htodo : c.todo = st :: rest) (hp : Performed s.world s.clock k c st o w' after) {j : CallId}
    {d : Call} (hj : (s.resume k c rest (w', after)).calls j = some d) (hactive : d.Active) :
    ∃ e, s.calls j = some e ∧ e.Active ∧ e.container = d.container := by
  rcases Host.resume_calls hj with ⟨-, hold⟩ | ⟨rfl, ⟨c', rfl, -, rfl⟩ | ⟨rfl, -, rfl⟩⟩
  · exact ⟨d, hold, hactive, rfl⟩
  · obtain ⟨final, hmem, hfinal⟩ := hactive
    exact ⟨c, hk, ⟨final, htodo ▸ List.mem_cons_of_mem _ hmem, hfinal⟩, hp.container_eq.symm⟩
  · obtain ⟨final, hmem, hfinal⟩ := hactive
    obtain rfl := List.mem_singleton.mp hmem
    exact absurd hfinal Bool.false_ne_true

section
variable {k : CallId} {c : Call} {st : Stage} {rest : List Stage} {o : Outcome} {w' : World}
  {after : After} (wf : WellFormed s) (h : Single s) (hk : s.calls k = some c)
  (htodo : c.todo = st :: rest) (hp : Performed s.world s.clock k c st o w' after)
include wf h hk htodo hp

/-- While a call is up, the record says `Running` or cannot be read. -/
theorem Single.stage_up (hC : RestartWritten s (.step k o)) {j : CallId} {d : Call}
    (hj : (s.resume k c rest (w', after)).calls j = some d) (hup : d.Up) {r : ContainerInfo}
    (hr : w'.config d.container = some r) : r.status = .running := by
  have hprog : st :: rest <:+ c.fn.program := htodo ▸ (wf.call k c hk).program
  have hstart : st :: rest <:+ Fn.start.program := h.fn k c hk ▸ hprog
  rcases WellFormed.up_source hk htodo hp hj hup with ⟨rfl, hset⟩ | ⟨e, he, heup, hec⟩
  · -- the call has just written `Running`
    obtain ⟨e, he, -, hdc⟩ := WellFormed.source hk hp hj
    obtain rfl := Option.some.inj (hk.symm.trans he)
    rw [hdc] at hr
    cases hp with
    | written =>
        obtain rfl := Option.some.inj (of_update_self hr)
        rcases write_of_start hstart with rfl | rfl
        · rfl
        · exact absurd hset Bool.false_ne_true
    | torn => exact absurd (of_update_self hr) nofun
    | unwritten =>
        rcases write_of_start hstart with rfl | rfl
        · exact absurd rfl (hC _ rfl c hk (by rw [htodo]; rfl))
        · exact absurd hset Bool.false_ne_true
    | allocated | launched | encoded | waited | released | peered =>
        exact absurd hset Bool.false_ne_true
    | plain hst | gaveUp hst =>
        rcases Stage.write_of_setsRunning hset with rfl | rfl <;>
          exact absurd hst Bool.false_ne_true
  · -- a call that was up already: its record is as it was, or this call has written it
    have hold := h.up j e he heup
    rw [hec] at hold
    rcases hp.record_source hr with hr | ⟨wr, rfl, hown, rfl, rfl⟩
    · exact hold r hr
    · rcases write_of_start hstart with rfl | rfl
      · rfl
      · -- the write after the wait comes from the call that is up, which is then over
        have hcactive : c.Active := ⟨_, htodo ▸ List.mem_cons_self, rfl⟩
        obtain rfl := h.one j k e c he hk heup.2.2 hcactive (hown.symm.trans hec.symm)
        rcases Host.resume_calls hj with ⟨hne, -⟩ | ⟨-, ⟨c', hgo, -, rfl⟩ | ⟨hgo, -⟩⟩
        · exact absurd rfl hne
        · cases hgo
          exact absurd hup (upAt_of_isFinal hprog rfl).2
        · cases hgo

/-- The invariant survives a stage: one lemma for each of its fields. -/
theorem Single.stage (hC : RestartWritten s (.step k o)) :
    Single (s.resume k c rest (w', after)) := by
  refine ⟨?_, ?_, ?_⟩
  · intro j d hj
    obtain ⟨e, he, hfn, -⟩ := WellFormed.source hk hp hj
    exact hfn.trans (h.fn j e he)
  · intro j d hj hup r hr
    rw [Host.resume_config] at hr
    exact h.stage_up wf hk htodo hp hC hj hup hr
  · intro i j d e hi hj hd he heq
    obtain ⟨d', hi', hd', hdc⟩ := hp.active_source hk htodo hi hd
    obtain ⟨e', hj', he', hec⟩ := hp.active_source hk htodo hj he
    exact h.one i j d' e' hi' hj' hd' he' (hec.trans (heq.trans hdc.symm))

end

/-- The invariant survives every step that meets the conditions. -/
theorem Single.step {e : Event} (wf : WellFormed s) (h : Single s) (hD : OnlyStart e)
    (hP : PassesAlone s e) (hR : RestartWritten s e) (he : s.step e = some t) : Single t := by
  cases Host.stepped he with
  | ran | createdAndRan | stopping | adjusting => exact absurd (hD _ rfl) nofun
  | starting found => exact h.begin wf found hP
  | refused => exact h
  | staged call todo performed => exact h.stage wf call todo (perform_performed performed) hR
  | moved moved => exact ⟨h.fn, moved.config ▸ h.up, h.one⟩
  | ticked => exact ⟨h.fn, h.up, h.one⟩

/-- **At most one process of a container is alive**, in any run of `Start` calls in
which each passes the check alone and its write of `Running` reaches the file. -/
theorem single_init (hs : Idle s)
    (h : Reaches Host.step (fun s e => OnlyStart e ∧ PassesAlone s e ∧ RestartWritten s e) s t) :
    SingleInit t := by
  have inv : WellFormed t ∧ Single t :=
    h.invariant (I := fun s => WellFormed s ∧ Single s) ⟨hs.wellFormed, hs.single⟩
      fun _ _ _ ⟨wf, hi⟩ ⟨hD, hP, hR⟩ he => ⟨wf.step he, hi.step wf hD hP hR he⟩
  exact inv.2.singleInit inv.1

/-- A restart, a second request that is refused, the exit, and another restart. -/
def restartTwice : List Event :=
  .start "a" [] :: .step 0 (.child 100) :: stages 0 5 ++ [.start "a" [], .exit 100] ++
    stages 0 4 ++ .start "a" [] :: .step 1 (.child 101) :: stages 1 5

/-- A container is started, ends, and is started again. -/
theorem single_init_twice :
    ∃ t : Host, (∃ x ∈ t.world.procs 101, x.alive = true) ∧ SingleInit t :=
  ⟨outcome Host.step (fun s e => OnlyStart e ∧ PassesAlone s e ∧ RestartWritten s e) stoppedHost
      restartTwice,
    by decide +kernel, single_init stoppedHost_idle (reaches_outcome ..)⟩

/-- Two requests are checked before either of the calls has written `Running`. -/
def restartConcurrently : List Event :=
  [.start "a" [], .start "a" [], .step 0 (.child 100), .step 1 (.child 101)]

/-- Both calls have launched a process. -/
theorem two_inits :
    ∃ t, Reaches Host.step (fun _ e => OnlyStart e) stoppedHost t ∧ ¬ SingleInit t := by
  let t := outcome Host.step (fun _ e => OnlyStart e) stoppedHost restartConcurrently
  have processes : ∃ x ∈ t.world.procs 100, ∃ y ∈ t.world.procs 101,
      x.alive = true ∧ y.alive = true ∧ x.container = y.container := by decide +kernel
  refine ⟨t, reaches_outcome .., fun h => ?_⟩
  obtain ⟨x, hx, y, hy, hxa, hya, heq⟩ := processes
  exact absurd (h 100 101 x y hx hy hxa hya heq) (by decide)

end Gocker.Container
