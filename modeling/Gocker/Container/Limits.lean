import Gocker.Lib.Machine
import Gocker.Container.Steps

/-!
# Adjusted limits

`AdjustResourceLimits` stores the new limits in the record, and `Start` takes the
limits of a restart from there.  Every other function that writes the record writes
its own copy of it, which may be older than the adjust.

`limits_kept` gives the condition under which an update survives whatever happens to
the container afterwards: a call writes the record only while its copy has the limits
that the record has.  The call that waits for the process took its copy before the
process was launched, so the first exit after an adjust brings back the limits of the
launch: `adjust_lost`.

### Two places for one value

The limits of a container are in its record and in the control files of its cgroup, and
`AdjustResourceLimits` changes both.  The cgroup goes with the process; the record is what a
restart is set up from.  So what counts for the next process is which copy of the record was
written last, and the calls that wait for a process write theirs when it ends, however old it
is.
-/

namespace Gocker.Container

open Machine

/-- The record of the container has these limits, and so has every restart of it by a
call from `n` on. -/
structure LimitsKept (d : ContainerID) (n : CallId) (limits : ContainerLimits) (s : Host) :
    Prop where
  record : ∃ r, s.world.config d = some r ∧ r.limits = limits
  start : ∀ k c, s.calls k = some c → n ≤ k → c.fn = .start → c.container = d →
    c.launchLimits = limits

/-- The step is not one of an adjust of the container. -/
def NotAdjusted (d : ContainerID) (s : Host) (e : Event) : Prop :=
  ∀ ko ∈ e.stage, ∀ c ∈ s.calls ko.1, c.container = d → c.fn ≠ .adjustResourceLimits

/-- A write of the record by another function has the limits of the record, and leaves
it readable. -/
def LimitsCurrent (d : ContainerID) (s : Host) (e : Event) : Prop :=
  ∀ ko ∈ e.stage, ∀ c ∈ s.calls ko.1, c.container = d → c.fn ≠ .adjustResourceLimits →
    (∃ st ∈ c.todo.head?, st.isWrite = true) →
      (∃ r ∈ s.world.config d, r.limits = c.info.limits) ∧ (ko.2 = .ok ∨ ko.2 = .fails 0)

instance (d : ContainerID) (s : Host) (e : Event) : Decidable (NotAdjusted d s e) := by
  unfold NotAdjusted
  infer_instance

instance (d : ContainerID) (s : Host) (e : Event) : Decidable (LimitsCurrent d s e) := by
  unfold LimitsCurrent
  infer_instance

/-- The record has the limits, and so have the copies of later restarts. -/
structure Kept (d : ContainerID) (n : CallId) (limits : ContainerLimits) (s : Host) : Prop where
  record : ∃ r, s.world.config d = some r ∧ r.limits = limits
  copy : ∀ k c, s.calls k = some c → n ≤ k → c.fn = .start → c.container = d →
    c.info.limits = limits

variable {s t : Host} {d : ContainerID} {n : CallId} {limits : ContainerLimits}

/-- A restart has no request of its own. -/
theorem Kept.limitsKept (wf : WellFormed s) (h : Kept d n limits s) : LimitsKept d n limits s := by
  refine ⟨h.record, fun k c hk hn hfn hd => ?_⟩
  have hreq : c.req = none := by
    rw [← Option.not_isSome_iff_eq_none, (wf.call k c hk).request, hfn]
    decide
  rw [Call.launchLimits, hreq]
  exact h.copy k c hk hn hfn hd

/-! ## The adjust -/

/-- The write of an adjust stores its limits. -/
theorem kept_of_adjust (wf : WellFormed s) {k : CallId} {c : Call} (hk : s.calls k = some c)
    (htodo : c.todo = [.write .limits]) (h : s.step (.step k .ok) = some t) :
    Kept c.container t.nextCall c.info.limits t := by
  have wf' := wf.step h
  simp only [Host.step, hk, Option.bind_some, htodo, perform, World.written, Option.map_some,
    Option.some.injEq] at h
  subst h
  refine ⟨⟨c.info, Function.update_self .., rfl⟩, fun j d hj hn _ _ => ?_⟩
  exact absurd hn (wf'.call j d hj).lt.not_ge

/-! ## Later steps -/

theorem Kept.of_dirs (h : Kept d n limits s) (dirs : List ContainerID) :
    Kept d n limits { s with dirs := dirs } :=
  ⟨h.record, h.copy⟩

/-- A call that begins after the adjust has its copy from the record, and the limits with it. -/
theorem Kept.begin (h : Kept d n limits s) {fn : Fn} {info : ContainerInfo}
    {req : Option RunRequest}
    (hinfo : fn = .start → s.world.config info.id = some info) :
    Kept d n limits (s.begin fn info req) := by
  refine ⟨h.record, fun k c hk hn hfn hd => ?_⟩
  rcases WellFormed.begin_calls hk with ⟨-, rfl⟩ | ⟨-, hold⟩
  · obtain ⟨r, hr, hlimits⟩ := h.record
    have hd : info.id = d := hd
    obtain rfl := Option.some.inj ((hinfo hfn).symm.trans (hd ▸ hr))
    exact hlimits
  · exact h.copy k c hold hn hfn hd

/-- A stage keeps them, unless it writes a copy with other limits. -/
theorem Kept.stage (h : Kept d n limits s) {k : CallId} {c : Call} {st : Stage}
    {rest : List Stage} {o : Outcome} {w' : World} {after : After} (hk : s.calls k = some c)
    (htodo : c.todo = st :: rest) (hp : Performed s.world s.clock k c st o w' after)
    (hD : NotAdjusted d s (.step k o)) (hC : LimitsCurrent d s (.step k o)) :
    Kept d n limits (s.resume k c rest (w', after)) := by
  have current : c.container = d → st.isWrite = true →
      (∃ r ∈ s.world.config d, r.limits = c.info.limits) ∧ (o = .ok ∨ o = .fails 0) :=
    fun hd hst => hC _ rfl c hk hd (hD _ rfl c hk hd) ⟨st, by rw [htodo]; rfl, hst⟩
  constructor
  · rw [Host.resume_config]
    obtain ⟨r, hr, hlimits⟩ := h.record
    have torn : (c.container = d → False) →
        Function.update s.world.config c.container none d = some r := fun hne =>
      (Function.update_of_ne (fun heq => hne heq.symm) ..).trans hr
    cases hp with
    | allocated | unwritten | launched | encoded | waited | released | peered | plain =>
        exact ⟨r, hr, hlimits⟩
    | written =>
        rcases eq_or_ne c.container d with rfl | hne
        · obtain ⟨⟨r', hr', hcopy⟩, -⟩ := current rfl rfl
          obtain rfl := Option.some.inj (hr.symm.trans hr')
          refine ⟨_, Function.update_self .., ?_⟩
          rw [Call.record_limits, ← hcopy]
          exact hlimits
        · exact ⟨r, (Function.update_of_ne hne.symm ..).trans hr, hlimits⟩
    | torn ho hn =>
        refine ⟨r, torn fun hd => ?_, hlimits⟩
        exact (current hd rfl).2.elim ho hn
    | gaveUp _ _ hconfig =>
        rcases hconfig with rfl | ⟨⟨wr, rfl, ho, hn⟩, rfl⟩
        · exact ⟨r, hr, hlimits⟩
        · refine ⟨r, torn fun hd => ?_, hlimits⟩
          exact (current hd rfl).2.elim ho hn
  · intro j e hj hn hfn hd
    rcases Host.resume_calls hj with ⟨-, hold⟩ | ⟨rfl, ⟨c', rfl, -, rfl⟩ | ⟨rfl, -, rfl⟩⟩
    · exact h.copy j e hold hn hfn hd
    · rw [hp.limits_eq]
      exact h.copy _ c hk hn (hp.fn_eq.symm.trans hfn) (hp.container_eq.symm.trans hd)
    · exact h.copy _ c hk hn hfn hd

/-- The limits are kept by every step that meets the conditions. -/
theorem Kept.step {e : Event} (wf : WellFormed s) (h : Kept d n limits s)
    (hD : NotAdjusted d s e) (hC : LimitsCurrent d s e) (he : s.step e = some t) :
    Kept d n limits t := by
  cases Host.stepped he with
  | ran => exact (h.of_dirs _).begin (absurd · (by decide))
  | createdAndRan => exact (h.of_dirs _).begin (absurd · (by decide))
  | starting found => exact h.begin fun _ => (wf.consistent.startable found).1
  | stopping => exact h.begin (absurd · (by decide))
  | adjusting => exact h.begin (absurd · (by decide))
  | refused => exact h
  | staged call todo performed => exact h.stage call todo (perform_performed performed) hD hC
  | moved moved => exact ⟨moved.config ▸ h.record, h.copy⟩
  | ticked => exact ⟨h.record, h.copy⟩

/-- **An adjust that returned is not lost**: after its write, which is its last step,
the record keeps its limits and every later restart gets them, in any run without a
further adjust in which the record is written only with the limits it has. -/
theorem limits_kept {s₀ s s₁ : Host} (hs : Idle s₀)
    (hrun : Reaches Host.step (fun _ _ => True) s₀ s)
    {k : CallId} {c : Call} (hk : s.calls k = some c) (htodo : c.todo = [.write .limits])
    (hadjust : s.step (.step k .ok) = some s₁)
    (h : Reaches Host.step
      (fun s e => NotAdjusted c.container s e ∧ LimitsCurrent c.container s e) s₁ t) :
    LimitsKept c.container s₁.nextCall c.info.limits t := by
  have wf : WellFormed s := hrun.invariant (I := WellFormed) hs.wellFormed
    fun _ _ _ wf _ he => wf.step he
  have inv : WellFormed t ∧ Kept c.container s₁.nextCall c.info.limits t :=
    h.invariant (I := fun t => WellFormed t ∧ Kept c.container s₁.nextCall c.info.limits t)
      ⟨wf.step hadjust, kept_of_adjust wf hk htodo hadjust⟩
      fun _ _ _ ⟨wf, hi⟩ ⟨hD, hC⟩ he => ⟨wf.step he, hi.step wf hD hC he⟩
  exact inv.2.limitsKept inv.1

/-! ## Two runs -/

/-- A container runs, and an adjust of it is about to write the record. -/
def adjusting : Host :=
  outcome Host.step (fun _ _ => True) emptyHost
    (launching 0 "a" 100 ++ [.adjustResourceLimits "a" ⟨2000000, -1, -1⟩ [], .step 1 .ok])

/-- The call of the adjust that is next to write. -/
theorem adjusting_call : ∃ c ∈ adjusting.calls 1, c.todo = [.write .limits] ∧
    c.container = "a" ∧ c.info.limits = ⟨2000000, 10, 1⟩ := by
  decide +kernel

/-- The adjust has written it. -/
def adjusted : Host := (adjusting.step (.step 1 .ok)).get (by decide +kernel)

theorem adjusting_adjusted : adjusting.step (.step 1 .ok) = some adjusted :=
  (Option.some_get _).symm

/-- The container is stopped, and started again while the first process is alive. -/
def stopAndStart : List Event :=
  .stopContainer "a" [] :: stages 2 3 ++ .start "a" [] :: .step 3 (.child 101) :: stages 3 5

/-- The container ends before it is adjusted, so that its first call has no write left; then it
is started again. -/
theorem limits_kept_restart :
    ∃ t : Host, (∃ c ∈ t.calls 3, c.fn = .start) ∧
      LimitsKept "a" adjusted.nextCall ⟨2000000, 10, 1⟩ t := by
  obtain ⟨c, hk, htodo, hcontainer, hlimits⟩ := adjusting_call
  rw [← hcontainer, ← hlimits]
  refine ⟨outcome Host.step
    (fun s e => NotAdjusted c.container s e ∧ LimitsCurrent c.container s e) adjusted stopAndStart,
    ?_, limits_kept emptyHost_idle (reaches_outcome ..) hk htodo adjusting_adjusted
      (reaches_outcome ..)⟩
  rw [hcontainer]
  decide +kernel

/-- The process exits, and the call that waited for it writes its copy of the record. -/
def exitAndWrite : List Event := .exit 100 :: stages 0 2

/-- The limits of the launch are back. -/
theorem adjust_lost :
    ∃ s k c s₁ t, Reaches Host.step (fun _ _ => True) emptyHost s ∧ s.calls k = some c ∧
      c.todo = [.write .limits] ∧ s.step (.step k .ok) = some s₁ ∧
      Reaches Host.step (NotAdjusted c.container) s₁ t ∧
      ¬ LimitsKept c.container s₁.nextCall c.info.limits t := by
  obtain ⟨c, hk, htodo, hcontainer, hlimits⟩ := adjusting_call
  refine ⟨adjusting, 1, c, adjusted,
    outcome Host.step (NotAdjusted c.container) adjusted exitAndWrite, reaches_outcome .., hk,
    htodo, adjusting_adjusted, reaches_outcome .., ?_⟩
  rw [hcontainer, hlimits]
  rintro ⟨⟨r, hr, hkept⟩, -⟩
  have restored :
      ∀ r ∈ (outcome Host.step (NotAdjusted "a") adjusted exitAndWrite).world.config "a",
        r.limits = shellRequest.containerLimits := by
    decide +kernel
  rw [restored r hr] at hkept
  exact absurd hkept (by decide)

end Gocker.Container
