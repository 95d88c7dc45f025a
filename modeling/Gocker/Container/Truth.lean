import Gocker.Lib.Machine
import Gocker.Container.Steps

/-!
# What a record says about the process

A record is *truthful* if it says `Running` with the number of exactly the live
process of its container.  It can be so only while nobody is in the middle of an
operation on the container, so truthfulness is claimed of *quiescent* containers:
every running call of the container has made its last write, or waits for a live
process.

Four things in the code break it, each by a write that does not look at the record
or the process it is about, and `records_truthful` excludes exactly these: the
`Stopped` that `StopContainer` writes while the process is alive, an adjust that
brings back the status it had read, a restart while the write after an earlier wait
is outstanding, and a `Start` that gives up after its write of `Running`.

### The invariant

`Recorded` ties the records to the calls that are *up*: between their write of `Running` and the
write after their wait.  There is at most one for each container, its child is the process that
the record names, and a record says `Running` only if there is one.  Truthfulness follows where
nobody is in between, because then a call that is up has a live child.

The condition on the writes is that they succeed and leave what they were given.
-/

namespace Gocker.Container

open Machine

/-! ## The property -/

/-- The child of the call is alive. -/
def Call.ChildAlive (s : Host) (c : Call) : Prop :=
  ∃ p ∈ c.child, ∃ x ∈ s.world.procs p, x.alive = true

instance (s : Host) (c : Call) : Decidable (c.ChildAlive s) := by
  unfold Call.ChildAlive
  infer_instance

/-- No call of the container is between its read and its last write, except those that
wait for a live process. -/
def Quiescent (s : Host) (d : ContainerID) : Prop :=
  ∀ k < s.nextCall, ∀ c ∈ s.calls k, c.container = d →
    (∀ st ∈ c.todo, st.isWrite = false) ∨ c.Up ∧ c.ChildAlive s

instance (s : Host) (d : ContainerID) : Decidable (Quiescent s d) := by
  unfold Quiescent
  infer_instance

/-- The record says `Running` with the number of exactly the live process, and a
container that can be removed has no live process. -/
structure Truthful (s : Host) (d : ContainerID) : Prop where
  running : ∀ p, (∃ r, s.world.config d = some r ∧ r.status = .running ∧ r.pid = p) ↔
    ∃ x, s.world.procs p = some x ∧ x.alive = true ∧ x.container = d
  removable : ∀ r, s.world.config d = some r → r.status ≠ .running →
    ∀ p x, s.world.procs p = some x → x.container = d → x.alive = false

/-! ## The conditions -/

/-- `StopContainer` writes `Stopped` only when no process of the container is alive. -/
def StopsDead (s : Host) (e : Event) : Prop :=
  ∀ ko ∈ e.stage, ∀ c ∈ s.calls ko.1, c.todo.head? = some (.write .stopped) →
    ∀ j < s.nextCall, ∀ d ∈ s.calls j, d.container = c.container → ¬ d.ChildAlive s

/-- An adjust writes only the status and the process number that the record has. -/
def AdjustsCurrent (s : Host) (e : Event) : Prop :=
  ∀ ko ∈ e.stage, ∀ c ∈ s.calls ko.1, c.todo.head? = some (.write .limits) →
    ∃ r ∈ s.world.config c.container, r.status = c.info.status ∧ r.pid = c.info.pid

/-- A call writes `Running` only when no other call of the container is up. -/
def RestartsDown (s : Host) (e : Event) : Prop :=
  ∀ ko ∈ e.stage, ∀ c ∈ s.calls ko.1, (∃ st ∈ c.todo.head?, st.setsRunning = true) →
    ∀ j < s.nextCall, ∀ d ∈ s.calls j, d.container = c.container → ¬ d.Up

/-- A call that is up does not fail to set up its cgroup. -/
def UpStays (s : Host) (e : Event) : Prop :=
  ∀ ko ∈ e.stage, ∀ c ∈ s.calls ko.1, c.Up → c.todo.head? = some .setupCgroup → ko.2 = .ok

/-- The four conditions together.  Each is about the state before a step and excludes one way in
which a record becomes false. -/
structure Undisturbed (s : Host) (e : Event) : Prop where
  stops : StopsDead s e
  adjusts : AdjustsCurrent s e
  restarts : RestartsDown s e
  up : UpStays s e

instance (s : Host) (e : Event) : Decidable (StopsDead s e) := by
  unfold StopsDead
  infer_instance

instance (s : Host) (e : Event) : Decidable (AdjustsCurrent s e) := by
  unfold AdjustsCurrent
  infer_instance

instance (s : Host) (e : Event) : Decidable (RestartsDown s e) := by
  unfold RestartsDown
  infer_instance

instance (s : Host) (e : Event) : Decidable (UpStays s e) := by
  unfold UpStays
  infer_instance

instance (s : Host) (e : Event) : Decidable (Undisturbed s e) :=
  decidable_of_iff (StopsDead s e ∧ AdjustsCurrent s e ∧ RestartsDown s e ∧ UpStays s e)
    ⟨fun ⟨a, b, c, d⟩ => ⟨a, b, c, d⟩, fun ⟨a, b, c, d⟩ => ⟨a, b, c, d⟩⟩

/-! ## The invariant -/

/-- What the records say about the calls that are up, and the other way round. -/
structure Recorded (s : Host) : Prop where
  first : ∀ k c, s.calls k = some c → .write .created ∈ c.todo →
    c.info.status = .created ∧ s.world.config c.container = none ∧
      ∀ j d, s.calls j = some d → d.container = c.container → j = k
  unique : ∀ i j c d, s.calls i = some c → s.calls j = some d → c.Up → d.Up →
    d.container = c.container → i = j
  running : ∀ d r, s.world.config d = some r → r.status = .running →
    ∃ k c, s.calls k = some c ∧ c.container = d ∧ c.Up ∧ (.wait ∈ c.todo → c.child = some r.pid)
  live : ∀ p x c, s.world.procs p = some x → x.alive = true → s.calls x.launcher = some c → c.Up →
    ∃ r, s.world.config c.container = some r ∧ r.status = .running ∧ r.pid = p

variable {s t : Host}

/-- In a quiescent container, the calls that are up are the ones with a live process. -/
theorem Recorded.truthful (wf : WellFormed s) (h : Recorded s) {d : ContainerID}
    (hq : Quiescent s d) : Truthful s d := by
  have record_of_live : ∀ p x, s.world.procs p = some x → x.alive = true → x.container = d →
      ∃ r, s.world.config d = some r ∧ r.status = .running ∧ r.pid = p := by
    rintro p x hx halive rfl
    obtain ⟨c, hc, hchild, hcontainer⟩ := wf.launcher hx
    have hcwf := wf.call _ c hc
    have hwait := (hcwf.child.mp (by rw [hchild]; rfl)).2
    rcases hq _ hcwf.lt c hc hcontainer with hdone | ⟨hup, -⟩
    · obtain ⟨st, hst, hfinal⟩ := final_of_wait hcwf.program hwait
      have hwrite := Stage.isWrite_of_isFinal hfinal
      rw [hdone st hst] at hwrite
      exact absurd hwrite Bool.false_ne_true
    · rw [← hcontainer]
      exact h.live p x c hx halive hc hup
  refine ⟨fun p => ⟨?_, ?_⟩, ?_⟩
  · rintro ⟨r, hr, hrunning, rfl⟩
    obtain ⟨k, c, hk, rfl, hup, hpid⟩ := h.running d r hr hrunning
    have hcwf := wf.call k c hk
    rcases hq k hcwf.lt c hk rfl with hdone | ⟨-, p, hchild, x, hx, halive⟩
    · obtain ⟨-, -, st, hst, hfinal⟩ := hup
      have hwrite := Stage.isWrite_of_isFinal hfinal
      rw [hdone st hst] at hwrite
      exact absurd hwrite Bool.false_ne_true
    · have hwait := (hcwf.child.mp (by rw [show c.child = _ from hchild]; rfl)).2
      obtain rfl := Option.some.inj ((hpid hwait).symm.trans hchild)
      obtain ⟨y, hy, -, hcontainer⟩ := hcwf.proc _ hchild
      obtain rfl := Option.some.inj (hy.symm.trans hx)
      exact ⟨y, hy, halive, hcontainer⟩
  · rintro ⟨x, hx, halive, hcontainer⟩
    exact record_of_live p x hx halive hcontainer
  · intro r hr hstatus p x hx hcontainer
    cases halive : x.alive with
    | false => rfl
    | true =>
        obtain ⟨r', hr', hrunning, -⟩ := record_of_live p x hx halive hcontainer
        obtain rfl := Option.some.inj (hr.symm.trans hr')
        exact absurd hrunning hstatus

/-! ## The invariant holds at the start -/

/-- Where nothing is running, no record may say `Running`. -/
theorem Idle.recorded (h : Idle s)
    (hdown : ∀ d r, s.world.config d = some r → r.status ≠ .running) : Recorded s := by
  exact ⟨fun k c hk => (h.nocall hk).elim, fun i _ c _ hi => (h.nocall hi).elim,
    fun d r hr hs => absurd hs (hdown d r hr), fun p x c _ _ hc => (h.nocall hc).elim⟩

/-! ## A call that begins -/

theorem Recorded.of_dirs (h : Recorded s) (dirs : List ContainerID) :
    Recorded { s with dirs := dirs } :=
  ⟨h.first, h.unique, h.running, h.live⟩

/-- A call begins either on a container without a record and without calls, or on a
container with a record. -/
theorem Recorded.begin (wf : WellFormed s) (h : Recorded s) {fn : Fn} {info : ContainerInfo}
    {req : Option RunRequest}
    (hfirst : .write .created ∈ fn.program → info.status = .created ∧
      s.world.config info.id = none ∧ ∀ j d, s.calls j = some d → d.container ≠ info.id)
    (hrecord : .write .created ∉ fn.program → ∃ r, s.world.config info.id = some r) :
    Recorded (s.begin fn info req) where
  first k c hk hmem := by
    rcases WellFormed.begin_calls hk with ⟨rfl, rfl⟩ | ⟨hne, hold⟩
    · obtain ⟨hstatus, hnone, halone⟩ := hfirst hmem
      refine ⟨hstatus, hnone, fun j d hj hd => ?_⟩
      rcases WellFormed.begin_calls hj with ⟨rfl, -⟩ | ⟨-, hj⟩
      · rfl
      · exact absurd hd (halone j d hj)
    · obtain ⟨hstatus, hnone, halone⟩ := h.first k c hold hmem
      refine ⟨hstatus, hnone, fun j d hj hd => ?_⟩
      rcases WellFormed.begin_calls hj with ⟨rfl, rfl⟩ | ⟨-, hj⟩
      · -- the new call is for another container: this one has no record yet
        by_cases hcreated : .write .created ∈ fn.program
        · exact absurd hd.symm ((hfirst hcreated).2.2 k c hold)
        · obtain ⟨r, hr⟩ := hrecord hcreated
          have hd : info.id = c.container := hd
          rw [hd, hnone] at hr
          exact absurd hr nofun
      · exact halone j d hj hd
  unique i j c d hi hj hc hd heq := by
    rcases WellFormed.begin_calls hi with ⟨-, rfl⟩ | ⟨-, hi⟩
    · exact absurd hc (not_upAt_program fn)
    · rcases WellFormed.begin_calls hj with ⟨-, rfl⟩ | ⟨-, hj⟩
      · exact absurd hd (not_upAt_program fn)
      · exact h.unique i j c d hi hj hc hd heq
  running d r hr hrunning := by
    obtain ⟨k, c, hk, hc⟩ := h.running d r hr hrunning
    exact ⟨k, c, (WellFormed.begin_calls_ne (wf.call k c hk).lt.ne).trans hk, hc⟩
  live p x c hx halive hc hup := by
    rcases WellFormed.begin_calls hc with ⟨hl, -⟩ | ⟨-, hold⟩
    · exact absurd hl (wf.launcher_ne hx)
    · exact h.live p x c hx halive hold hup

/-! ## A stage -/

section
variable {k : CallId} {c : Call} {st : Stage} {rest : List Stage} {o : Outcome} {w' : World}
  {after : After}

/-- Where all writes succeed, a stage keeps the records or writes the call's own. -/
theorem Performed.config_ok {w : World} {now : Time}
    (hp : Performed w now k c st o w' after) (ho : st.isWrite = true → o = .ok) :
    w'.config = w.config ∧ (st.isWrite = true → False) ∨
      ∃ wr, st = .write wr ∧ after = .goOn { c with info := c.record now wr } ∧
        w'.config = Function.update w.config c.container (some (c.record now wr)) := by
  cases hp with
  | allocated | launched | encoded | waited | released | peered =>
      exact .inl ⟨rfl, Bool.false_ne_true⟩
  | plain hst =>
      refine .inl ⟨rfl, fun hwrite => ?_⟩
      cases st <;>
        first
        | exact absurd hwrite Bool.false_ne_true
        | exact absurd hst Bool.false_ne_true
  | written => exact .inr ⟨_, rfl, rfl, rfl⟩
  | torn hne => exact absurd (ho rfl) hne
  | unwritten => exact absurd (ho rfl) nofun
  | gaveUp hst hne hconfig =>
      rcases hconfig with rfl | ⟨⟨wr, rfl, hnotok, -⟩, -⟩
      · exact .inl ⟨rfl, fun hwrite => hne (.inr hwrite) (ho hwrite)⟩
      · exact absurd (ho rfl) hnotok

/-- A call that is up goes on with its wait ahead, waits, or makes its last write. -/
theorem Performed.of_up {w : World} {now : Time} (hp : Performed w now k c st o w' after)
    (hprog : st :: rest <:+ c.fn.program) (hup : UpAt c.fn (st :: rest))
    (hstays : st = .setupCgroup → o = .ok) :
    (st = .setupCgroup ∧ after = .goOn c ∧ UpAt c.fn rest ∧ w'.procs = w.procs) ∨
      (st = .wait ∧ after = .goOn { c with child := none } ∧ UpAt c.fn rest) ∨
        st.isFinal = true := by
  rcases head_of_upAt hprog hup with rfl | rfl | hfinal
  · obtain rfl := hstays rfl
    cases hp with
    | plain => exact .inl ⟨rfl, rfl, upAt_of_not_final hup Bool.false_ne_true, rfl⟩
    | gaveUp _ hne => exact absurd rfl (hne (.inl rfl))
  · cases hp with
    | waited => exact .inr (.inl ⟨rfl, rfl, upAt_of_not_final hup Bool.false_ne_true⟩)
    | plain hst => exact absurd hst Bool.false_ne_true
    | gaveUp hst => exact absurd hst Bool.false_ne_true
  · exact .inr (.inr hfinal)

/-! The four fields, after a stage. -/

section
variable (wf : WellFormed s) (h : Recorded s) (hk : s.calls k = some c)
  (htodo : c.todo = st :: rest) (hp : Performed s.world s.clock k c st o w' after)
include wf h hk htodo hp

/-- A call that still has to write its first record is the only one of its container, and there
is no record yet. -/
theorem Recorded.stage_first (ho : st.isWrite = true → o = .ok) {j : CallId} {d : Call}
    (hj : (s.resume k c rest (w', after)).calls j = some d) (hmem : .write .created ∈ d.todo) :
    d.info.status = .created ∧ w'.config d.container = none ∧
      ∀ i e, (s.resume k c rest (w', after)).calls i = some e → e.container = d.container →
        i = j := by
  have hprog : st :: rest <:+ c.fn.program := htodo ▸ (wf.call k c hk).program
  have alone : ∀ d', s.calls j = some d' → d'.container = d.container →
      .write .created ∈ d'.todo →
      ∀ i e, (s.resume k c rest (w', after)).calls i = some e → e.container = d.container →
        i = j := fun d' hd' hcontainer hmem i e hi he => by
    obtain ⟨e', he', -, hec⟩ := WellFormed.source hk hp hi
    exact (h.first j d' hd' hmem).2.2 i e' he' (hec.symm.trans (he.trans hcontainer.symm))
  rcases Host.resume_calls hj with ⟨hne, hold⟩ | ⟨rfl, ⟨c', rfl, -, rfl⟩ | ⟨rfl, -, rfl⟩⟩
  · obtain ⟨hstatus, hnone, honly⟩ := h.first j d hold hmem
    refine ⟨hstatus, ?_, alone d hold rfl hmem⟩
    rcases hp.config_ok ho with ⟨hsame, -⟩ | ⟨wr, rfl, -, hconfig⟩
    · rw [hsame]
      exact hnone
    · rw [hconfig, Function.update_of_ne]
      · exact hnone
      · intro heq
        exact hne (honly k c hk heq.symm).symm
  · have hmem' : .write .created ∈ c.todo := htodo ▸ List.mem_cons_of_mem _ hmem
    obtain ⟨hstatus, hnone, -⟩ := h.first _ c hk hmem'
    have hcontainer : c.container = c'.container := hp.container_eq.symm
    refine ⟨?_, ?_, alone c hk hcontainer hmem'⟩
    · cases hp with
      | written | torn | unwritten => exact absurd hmem (no_created_after_write hprog)
      | allocated | launched | encoded | waited | released | peered | plain => exact hstatus
    · rcases hp.config_ok ho with ⟨hsame, -⟩ | ⟨wr, rfl, -, -⟩
      · rw [hsame]
        exact hcontainer ▸ hnone
      · exact absurd hmem (no_created_after_write hprog)
  · exact absurd (List.mem_singleton.mp hmem) nofun

/-- At most one call of a container is up after a stage. -/
theorem Recorded.stage_unique (hC : RestartsDown s (.step k o)) {i j : CallId} {d e : Call}
    (hi : (s.resume k c rest (w', after)).calls i = some d)
    (hj : (s.resume k c rest (w', after)).calls j = some e) (hd : d.Up) (he : e.Up)
    (heq : e.container = d.container) : i = j := by
  have down : st.setsRunning = true → ∀ l f, s.calls l = some f →
      f.container = c.container → ¬ f.Up := fun hst l f hl =>
    hC _ rfl c hk ⟨st, by rw [htodo]; rfl, hst⟩ l (wf.call l f hl).lt f hl
  have own : ∀ l f, (s.resume k c rest (w', after)).calls l = some f → l = k →
      f.container = c.container := by
    rintro l f hl rfl
    obtain ⟨f', hf', -, hfc⟩ := WellFormed.source hk hp hl
    obtain rfl := Option.some.inj (hk.symm.trans hf')
    exact hfc
  rcases WellFormed.up_source hk htodo hp hi hd with ⟨rfl, hst⟩ | ⟨d', hi', hd', hdc⟩
  · rcases WellFormed.up_source hk htodo hp hj he with ⟨rfl, -⟩ | ⟨e', hj', he', hec⟩
    · rfl
    · exact absurd he' (down hst j e' hj' (hec.trans (heq.trans (own _ d hi rfl))))
  · rcases WellFormed.up_source hk htodo hp hj he with ⟨rfl, hst⟩ | ⟨e', hj', he', hec⟩
    · exact absurd hd' (down hst i d' hi' (hdc.trans (heq.symm.trans (own _ e hj rfl))))
    · exact h.unique i j d' e' hi' hj' hd' he' (hec.trans (heq.trans hdc.symm))

/-- A record that says `Running` belongs to a call that is up, with the number of its child. -/
theorem Recorded.stage_running (ho : st.isWrite = true → o = .ok)
    (hC : Undisturbed s (.step k o)) {d : ContainerID} {r : ContainerInfo}
    (hr : w'.config d = some r) (hrunning : r.status = .running) :
    ∃ j e, (s.resume k c rest (w', after)).calls j = some e ∧ e.container = d ∧ e.Up ∧
      (.wait ∈ e.todo → e.child = some r.pid) := by
  have hprog : st :: rest <:+ c.fn.program := htodo ▸ (wf.call k c hk).program
  have head : c.todo.head? = some st := by rw [htodo]; rfl
  have stays : ∀ j e, s.calls j = some e → j ≠ k → e.container = d → e.Up →
      (.wait ∈ e.todo → e.child = some r.pid) →
      ∃ j e, (s.resume k c rest (w', after)).calls j = some e ∧ e.container = d ∧ e.Up ∧
        (.wait ∈ e.todo → e.child = some r.pid) := fun j e hj hne hd hup hpid =>
    ⟨j, e, (Host.resume_calls_ne hne).trans hj, hd, hup, hpid⟩
  have goes : ∀ c', after = .goOn c' → c'.container = d → UpAt c'.fn rest →
      (.wait ∈ rest → c'.child = some r.pid) →
      ∃ j e, (s.resume k c rest (w', after)).calls j = some e ∧ e.container = d ∧ e.Up ∧
        (.wait ∈ e.todo → e.child = some r.pid) := by
    rintro c' rfl hd hup hpid
    refine ⟨k, { c' with todo := rest }, ?_, hd, hup, hpid⟩
    rw [Host.resume_goOn_calls, if_neg]
    rintro rfl
    obtain ⟨-, -, final, hmem, -⟩ := hup
    exact List.not_mem_nil hmem
  rcases hp.config_ok ho with ⟨hsame, hwrite⟩ | ⟨wr, rfl, rfl, hconfig⟩
  · -- no write: the call behind the record is still up, whether or not it is this one
    rw [hsame] at hr
    obtain ⟨j, e, hj, hd, hup, hpid⟩ := h.running d r hr hrunning
    rcases eq_or_ne j k with rfl | hne
    · obtain rfl := Option.some.inj (hk.symm.trans hj)
      have stay : st = .setupCgroup → o = .ok := fun hst => hC.up _ rfl c hk hup (hst ▸ head)
      have hup' : UpAt c.fn (st :: rest) := htodo ▸ hup
      rcases hp.of_up hprog hup' stay with ⟨-, rfl, hrest, -⟩ | ⟨rfl, rfl, hrest⟩ | hfinal
      · exact goes c rfl hd hrest fun hwait => hpid (htodo ▸ List.mem_cons_of_mem _ hwait)
      · exact goes _ rfl hd hrest fun hwait => absurd hwait (not_mem_rest hprog)
      · exact (hwrite (Stage.isWrite_of_isFinal hfinal)).elim
    · exact stays j e hj hne hd hup hpid
  · rw [hconfig] at hr
    rcases of_update_eq_some hr with ⟨rfl, hnew⟩ | ⟨hne, hold⟩
    · obtain rfl := Option.some.inj hnew
      -- the writes that can say `Running`: after the launch, or as the snapshot said
      rcases Call.record_status hrunning with hset | ⟨rfl | rfl, hinfo⟩
      · obtain ⟨hup, hwait, hlaunch⟩ := upAt_of_setsRunning hprog hset
        refine goes _ rfl rfl hup fun _ => ?_
        have hsome : c.child.isSome := (wf.call k c hk).child.mpr
          ⟨htodo ▸ hlaunch, htodo ▸ List.mem_cons_of_mem _ hwait⟩
        obtain ⟨p, hchild⟩ := Option.isSome_iff_exists.mp hsome
        rw [Call.record_pid_of_setsRunning hset hchild]
        exact hchild
      · rw [(h.first k c hk (htodo ▸ List.mem_cons_self)).1] at hinfo
        exact absurd hinfo nofun
      · obtain ⟨r₀, hr₀, hstatus, hpid₀⟩ := hC.adjusts _ rfl c hk head
        obtain ⟨j, e, hj, hd, hup, hpid⟩ := h.running _ r₀ hr₀ (hstatus.trans hinfo)
        refine stays j e hj ?_ hd hup (fun hwait => (hpid hwait).trans (congrArg some hpid₀))
        -- an adjustment launches nothing, so it is not up itself
        rintro rfl
        obtain rfl := Option.some.inj (hk.symm.trans hj)
        have hl := hup.1
        rw [adjust_of_limits hprog] at hl
        exact absurd hl Bool.false_ne_true
    · obtain ⟨j, e, hj, hd, hup, hpid⟩ := h.running d r hold hrunning
      refine stays j e hj ?_ hd hup hpid
      rintro rfl
      obtain rfl := Option.some.inj (hk.symm.trans hj)
      exact hne hd.symm

/-- A process of another call keeps its record, which only a write of this call can change. -/
theorem Recorded.stage_live_other (ho : st.isWrite = true → o = .ok)
    (hC : Undisturbed s (.step k o)) {p : PID} {x : Proc} {d : Call} (hne : x.launcher ≠ k)
    (hx : s.world.procs p = some x) (halive : x.alive = true)
    (hd : s.calls x.launcher = some d) (hup : d.Up) :
    ∃ r, w'.config d.container = some r ∧ r.status = .running ∧ r.pid = p := by
  have head : c.todo.head? = some st := by rw [htodo]; rfl
  obtain ⟨r, hr, hrunning, hpid⟩ := h.live p x d hx halive hd hup
  rcases hp.config_ok ho with ⟨hsame, -⟩ | ⟨wr, rfl, -, hconfig⟩
  · exact ⟨r, hsame ▸ hr, hrunning, hpid⟩
  · rw [hconfig]
    rcases eq_or_ne d.container c.container with heq | hother
    · rw [heq] at hr
      rw [heq, Function.update_self]
      cases wr with
      | running | restarted =>
          exact absurd hup (hC.restarts _ rfl c hk ⟨_, head, rfl⟩ _ (wf.call _ d hd).lt d hd heq)
      | created =>
          have honly := (h.first k c hk (htodo ▸ List.mem_cons_self)).2.2
          exact absurd (honly _ d hd heq) hne
      | exited | finished =>
          have hself : c.Up := by
            rw [Call.Up, htodo]
            exact (upAt_of_isFinal (htodo ▸ (wf.call k c hk).program) rfl).1
          exact absurd (h.unique _ _ d c hd hk hup hself heq.symm) hne
      | stopped =>
          obtain ⟨d', hd', hchild, -⟩ := wf.launcher hx
          obtain rfl := Option.some.inj (hd.symm.trans hd')
          exact absurd ⟨p, hchild, x, hx, halive⟩
            (hC.stops _ rfl c hk head _ (wf.call _ d hd).lt d hd heq)
      | limits =>
          obtain ⟨r₀, hr₀, hstatus, hpid₀⟩ := hC.adjusts _ rfl c hk head
          obtain rfl := Option.some.inj (hr.symm.trans hr₀)
          exact ⟨_, rfl, hstatus.symm.trans hrunning, hpid₀.symm.trans hpid⟩
    · exact ⟨r, (Function.update_of_ne hother ..).trans hr, hrunning, hpid⟩

/-- The process of the call itself: the call has come up with this write, or was up before the
stage. -/
theorem Recorded.stage_live_own (ho : st.isWrite = true → o = .ok)
    (hC : Undisturbed s (.step k o)) {p : PID} {x : Proc} {c' : Call}
    (hafter : after = .goOn c') (hchild : c'.child = some p) (hl : x.launcher = k)
    (hx : w'.procs p = some x) (halive : x.alive = true) (hup : UpAt c.fn rest) :
    ∃ r, w'.config c'.container = some r ∧ r.status = .running ∧ r.pid = p := by
  subst hafter
  have hprog : st :: rest <:+ c.fn.program := htodo ▸ (wf.call k c hk).program
  cases hset : st.setsRunning with
  | true =>
      obtain ⟨wr, rfl⟩ : ∃ wr, st = .write wr :=
        (Stage.write_of_setsRunning hset).elim (fun h => ⟨_, h⟩) fun h => ⟨_, h⟩
      obtain rfl := ho rfl
      cases hp with
      | written =>
          refine ⟨_, Function.update_self .., ?_⟩
          have hself : c.child = some p := hchild
          refine ⟨?_, Call.record_pid_of_setsRunning hset hself⟩
          cases wr <;> first | rfl | exact absurd hset Bool.false_ne_true
      | plain hst => exact absurd hst Bool.false_ne_true
      | torn hne => exact absurd rfl hne
  | false =>
      have hbefore : UpAt c.fn (st :: rest) := upAt_of_rest hup hset
      have hself : c.Up := by
        rw [Call.Up, htodo]
        exact hbefore
      have stay : st = .setupCgroup → o = .ok := by
        rintro rfl
        exact hC.up _ rfl c hk hself (by rw [htodo]; rfl)
      rcases hp.of_up hprog hbefore stay with ⟨rfl, hgo, -, hprocs⟩ | ⟨-, hgo, -⟩ | hfinal
      · cases hgo
        rw [hprocs] at hx
        obtain ⟨r, hr, hrunning, hpid⟩ := h.live p x c hx halive (hl ▸ hk) hself
        rcases hp.config_ok ho with ⟨hsame, -⟩ | ⟨wr, hwr, -⟩
        · exact ⟨r, hsame ▸ hr, hrunning, hpid⟩
        · cases hwr
      · cases hgo
        cases hchild
      · exact absurd hup (upAt_of_isFinal hprog hfinal).2

/-- A live process whose call is up has a record that says so. -/
theorem Recorded.stage_live (ho : st.isWrite = true → o = .ok)
    (hC : Undisturbed s (.step k o)) {p : PID} {x : Proc} {d : Call}
    (hx : (s.resume k c rest (w', after)).world.procs p = some x) (halive : x.alive = true)
    (hd : (s.resume k c rest (w', after)).calls x.launcher = some d) (hup : d.Up) :
    ∃ r, w'.config d.container = some r ∧ r.status = .running ∧ r.pid = p := by
  rcases wf.procs_inv hk htodo hp hx with ⟨hne, hx⟩ | ⟨hl, -, c', rfl, hchild⟩
  · rw [Host.resume_calls_ne hne] at hd
    exact h.stage_live_other wf hk htodo hp ho hC hne hx halive hd hup
  · rw [hl, Host.resume_goOn_calls] at hd
    split_ifs at hd with hrest
    obtain rfl := Option.some.inj hd
    have hup' : UpAt c.fn rest := hp.fn_eq ▸ hup
    have own := h.stage_live_own wf hk htodo hp ho hC rfl hchild hl hx halive hup'
    exact own

end

end

/-! ## All runs -/

/-- The invariant survives a stage: one lemma for each of its fields. -/
theorem Recorded.stage (wf : WellFormed s) (h : Recorded s) {k : CallId} {c : Call} {st : Stage}
    {rest : List Stage} {o : Outcome} {w' : World} {after : After} (hk : s.calls k = some c)
    (htodo : c.todo = st :: rest) (hp : Performed s.world s.clock k c st o w' after)
    (hD : RecordsWritten s (.step k o)) (hC : Undisturbed s (.step k o)) :
    Recorded (s.resume k c rest (w', after)) := by
  have ho : st.isWrite = true → o = .ok := fun hst => hD _ rfl c hk ⟨st, by rw [htodo]; rfl, hst⟩
  refine ⟨?_, fun i j d e hi hj => h.stage_unique wf hk htodo hp hC.restarts hi hj, ?_, ?_⟩
  · rw [Host.resume_config]
    exact fun j d hj hmem => h.stage_first wf hk htodo hp ho hj hmem
  · rw [Host.resume_config]
    exact fun d r hr hrunning => h.stage_running wf hk htodo hp ho hC hr hrunning
  · rw [Host.resume_config]
    exact fun p x d hx halive hd => h.stage_live wf hk htodo hp ho hC hx halive hd

/-- The invariant survives every step that meets the conditions. -/
theorem Recorded.step {e : Event} (wf : WellFormed s) (h : Recorded s) (hD : RecordsWritten s e)
    (hC : Undisturbed s e) (he : s.step e = some t) : Recorded t := by
  have fresh : ∀ {id}, id ∉ s.dirs → s.world.config id = none ∧
      ∀ j d, s.calls j = some d → d.container ≠ id := by
    refine fun {id} hid => ⟨?_, fun j d hj heq => hid (heq ▸ (wf.call j d hj).dir)⟩
    cases hr : s.world.config id with
    | none => rfl
    | some r => exact absurd (wf.record id r hr).2 hid
  cases Host.stepped he with
  | ran hid =>
      exact (h.of_dirs _).begin (wf.of_fresh _) (fun _ => ⟨rfl, fresh hid⟩)
        (by simp [Fn.program])
  | createdAndRan hid =>
      exact (h.of_dirs _).begin (wf.of_fresh _) (fun _ => ⟨rfl, fresh hid⟩)
        (by simp [Fn.program])
  | starting found =>
      exact h.begin wf (by simp [Fn.program]) fun _ => ⟨_, (wf.consistent.startable found).1⟩
  | stopping found =>
      exact h.begin wf (by simp [Fn.program]) fun _ => ⟨_, (wf.consistent.running found).1⟩
  | adjusting found =>
      exact h.begin wf (by simp [Fn.program]) fun _ => ⟨_, (wf.consistent.running found).1⟩
  | refused => exact h
  | staged call todo performed =>
      exact h.stage wf call todo (perform_performed performed) hD hC
  | moved moved =>
      obtain ⟨first, unique, running, live⟩ := h
      refine ⟨?_, unique, ?_, ?_⟩
      · rw [moved.config]
        exact first
      · rw [moved.config]
        exact running
      · rw [moved.config]
        intro p y c hy halive hc hup
        obtain ⟨x, hx, hxy⟩ := moved.back p y hy
        exact live p x c hx (hxy.alive halive) (hxy.launcher ▸ hc) hup
  | ticked => exact ⟨h.first, h.unique, h.running, h.live⟩

/-- **Records are truthful**, in any run of the five functions in which all records
are written and the steps are undisturbed. -/
theorem records_truthful (hs : Idle s)
    (hdown : ∀ d r, s.world.config d = some r → r.status ≠ .running)
    (h : Reaches Host.step (fun s e => RecordsWritten s e ∧ Undisturbed s e) s t)
    {d : ContainerID} (hq : Quiescent t d) : Truthful t d := by
  have inv : WellFormed t ∧ Recorded t :=
    h.invariant (I := fun s => WellFormed s ∧ Recorded s) ⟨hs.wellFormed, hs.recorded hdown⟩
      fun _ _ _ ⟨wf, hr⟩ ⟨hD, hC⟩ he => ⟨wf.step he, hr.step wf hD hC he⟩
  exact inv.2.truthful inv.1 hq

/-- A container whose limits are adjusted, which exits, and which is started again. -/
def adjustAndRestart : List Event :=
  launching 0 "a" 100 ++ .adjustResourceLimits "a" ⟨2000000, -1, -1⟩ [] :: stages 1 2 ++
    .exit 100 :: stages 0 4 ++ .start "a" [] :: .step 2 (.child 101) :: stages 2 5

/-- A container is stopped, and started again when its process has ended and its call is over. -/
theorem records_truthful_restarted :
    ∃ t : Host, (∃ r ∈ t.world.config "a", r.status = .running ∧ r.pid = 101) ∧
      Truthful t "a" :=
  ⟨outcome Host.step (fun s e => RecordsWritten s e ∧ Undisturbed s e) emptyHost
      adjustAndRestart,
    by decide +kernel, records_truthful emptyHost_idle nofun (reaches_outcome ..)
      (by decide +kernel)⟩

/-- The container is stopped and does not handle the signal. -/
def stopUnheeded : List Event :=
  launching 0 "a" 100 ++ .stopContainer "a" [] :: stages 1 3

/-- The record says `Stopped` while the process is alive, and nobody is at work on
the container except the call that waits for the process. -/
theorem stopped_while_alive :
    ∃ t, Reaches Host.step RecordsWritten emptyHost t ∧ Quiescent t "a" ∧
      ¬ Truthful t "a" := by
  let t := outcome Host.step RecordsWritten emptyHost stopUnheeded
  have record : ∃ r ∈ t.world.config "a", r.status = .stopped := by decide +kernel
  have process : ∃ x ∈ t.world.procs 100, x.alive = true ∧ x.container = "a" := by
    decide +kernel
  refine ⟨t, reaches_outcome .., by decide +kernel, fun h => ?_⟩
  obtain ⟨r, hr, hstopped⟩ := record
  obtain ⟨x, hx, halive, hcontainer⟩ := process
  have hdead := h.removable r hr (by rw [hstopped]; nofun) 100 x hx hcontainer
  rw [halive] at hdead
  exact absurd hdead.symm Bool.false_ne_true

end Gocker.Container
