import Gocker.Container.Crash

/-!
# Whose process a number names

`StopContainer` sends its signal, and `handleExec` enters the namespaces, by the process
number in the record that it has read.  A record keeps the number of a process that is
dead when the call that would have cleared it was cut off, and the kernel gives the number
to somebody else.

`hits_own` says that a number hits the container's own process or nobody, as long as no
process takes a number that a record of another container, or a call or exec that has read
one, still names.  `stranger_hit` is the run in which a `gocker run` crashes, its container
ends, and a stranger takes the number.

### The condition

`TakesUnnamed` is about two steps: a stranger appears, and a call launches a process.  Either
takes a number that is free, and the kernel may choose any.  The condition is that no record of
another container names it, and no call and no exec that has read such a record and still uses
it.  Only the kernel could keep that; the program has no means to, since it knows a process by
nothing but its number.
-/

namespace Gocker.Container

open Machine

/-! ## Names -/

/-- The stages that use the number in the call's copy of the record. -/
def Stage.usesPid : Stage → Bool
  | .kill | .write .created | .write .limits => true
  | _ => false

/-- The call still has to signal the number in its copy of the record, or to look for a cgroup
under it. -/
def Call.UsesPid (c : Call) : Prop := ∃ st ∈ c.todo, st.usesPid = true

instance (c : Call) : Decidable c.UsesPid := inferInstanceAs (Decidable (∃ _ ∈ _, _))

/-- The record of the container has the number, or a call that is still going to use it. -/
def Host.Names (s : Host) (d : ContainerID) (p : PID) : Prop :=
  (∃ r ∈ s.world.config d, r.pid = p) ∨
    ∃ k < s.nextCall, ∃ c ∈ s.calls k, c.container = d ∧ c.info.pid = p ∧ c.UsesPid

instance (s : Host) (d : ContainerID) (p : PID) : Decidable (s.Names d p) := by
  unfold Host.Names
  infer_instance

/-- A process of the container has the number. -/
def Host.Owns (s : Host) (d : ContainerID) (p : PID) : Prop :=
  ∃ x, s.world.procs p = some x ∧ x.container = d

namespace System

/-- The container's record, a call on it, or an exec into it has the number. -/
def Names (s : System) (d : ContainerID) (p : PID) : Prop :=
  s.host.Names d p ∨ ∃ x < s.nextExec, ∃ e ∈ s.execs x, e.container = d ∧ e.pid = p

instance (s : System) (d : ContainerID) (p : PID) : Decidable (s.Names d p) := by
  unfold System.Names
  infer_instance

/-- Whatever process has the number is one of the container. -/
def OwnedBy (s : System) (d : ContainerID) (p : PID) : Prop :=
  s.others p = false ∧ ∀ x, s.host.world.procs p = some x → x.container = d

/-- Signals and `nsenter` hit the container's own process or nobody. -/
structure HitsOwn (s : System) : Prop where
  signal : ∀ k c, s.host.calls k = some c → c.todo.head? = some .kill →
    s.OwnedBy c.container c.info.pid
  enter : ∀ x e, s.execs x = some e → e.stage = .entering → s.OwnedBy e.container e.pid

/-- The number that gets a process, and the container for which it is launched. -/
def takes (s : System) : Happening → Option (PID × Option ContainerID)
  | .appear p => some (p, none)
  | .host (.step k (.child p)) => (s.host.calls k).map fun c => (p, some c.container)
  | _ => none

/-- No process takes a number that names another container. -/
def TakesUnnamed (s : System) (a : Happening) : Prop :=
  ∀ t ∈ s.takes a, ∀ d ∈ s.host.dirs, t.2 ≠ some d → ¬ s.Names d t.1

instance (s : System) (a : Happening) : Decidable (s.TakesUnnamed a) := by
  unfold TakesUnnamed
  infer_instance

end System

/-! ## Where a name comes from -/

/-- No number is used after a write. -/
theorem not_usesPid_after_write {fn : Fn} {rest : List Stage} {wr : Write}
    (h : .write wr :: rest <:+ fn.program) : ∀ st ∈ rest, st.usesPid = false := by
  have all : ∀ fn, ∀ todo ∈ Fn.program fn |>.tails, ∀ wr,
      todo.head? = some (.write wr) → ∀ st ∈ todo.tail, st.usesPid = false := by
    decide
  exact forall_rest all h wr rfl

section
variable {s t : Host} {d : ContainerID} {p : PID}

/-- A call that begins names nothing new: it has no number, it does not use it, or it has
it from the record. -/
theorem Host.Names.of_begin {fn : Fn} {info : ContainerInfo} {req : Option RunRequest}
    (hs : Consistent s) (h : (s.begin fn info req).Names d p) (hpos : 0 < p)
    (hinfo : info.pid = 0 ∨ (∀ st ∈ fn.program, st.usesPid = false) ∨
      ∃ r, s.world.config info.id = some r ∧ r.pid = info.pid) : s.Names d p := by
  rcases h with hrecord | ⟨k, hk, c, hc, hcontainer, hpid, st, hmem, huses⟩
  · exact .inl hrecord
  · rcases WellFormed.begin_calls hc with ⟨-, rfl⟩ | ⟨-, hold⟩
    · rcases hinfo with hzero | hunused | ⟨r, hr, hrpid⟩
      · exact absurd (hpid.symm.trans hzero) (Nat.ne_of_gt hpos)
      · rw [hunused st hmem] at huses
        cases huses
      · exact .inl ⟨r, hcontainer ▸ hr, hrpid.trans hpid⟩
    · exact .inr ⟨k, (hs.call k c hold).lt, c, hold, hcontainer, hpid, st, hmem, huses⟩

theorem Host.Names.of_call (hs : Consistent s) {k : CallId} {c : Call} (hk : s.calls k = some c)
    {st : Stage} (hmem : st ∈ c.todo) (huses : st.usesPid = true) :
    s.Names c.container c.info.pid :=
  .inr ⟨k, (hs.call k c hk).lt, c, hk, rfl, rfl, st, hmem, huses⟩

section
variable {k : CallId} {c : Call} {st : Stage} {rest : List Stage} {o : Outcome} {w' : World}
  {after : After}

/-- The number that a call writes into the record is one that was named, or that of its
child. -/
theorem Consistent.record_names (hs : Consistent s) (hk : s.calls k = some c) {wr : Write}
    (htodo : c.todo = .write wr :: rest) (hpos : 0 < (c.record s.clock wr).pid) :
    s.Names c.container (c.record s.clock wr).pid ∨
      s.Owns c.container (c.record s.clock wr).pid := by
  have hc := hs.call k c hk
  have hmem : .write wr ∈ c.todo := htodo ▸ List.mem_cons_self
  have child : (Stage.write wr).setsRunning = true →
      s.Owns c.container (c.record s.clock wr).pid := by
    intro hset
    obtain ⟨-, hwait, hlaunch⟩ := upAt_of_setsRunning (htodo ▸ hc.program) hset
    obtain ⟨q, hq⟩ := Option.isSome_iff_exists.mp
      (hc.child.mpr (htodo ▸ ⟨hlaunch, List.mem_cons_of_mem _ hwait⟩))
    obtain ⟨x, hx, -, hcontainer⟩ := hc.proc q hq
    rw [Call.record_pid_of_setsRunning hset hq]
    exact ⟨x, hx, hcontainer⟩
  cases wr with
  | created | limits => exact .inl (.of_call hs hk hmem rfl)
  | running | restarted => exact .inr (child rfl)
  | exited | finished | stopped => exact absurd hpos (lt_irrefl 0)

/-- After a stage, a call that goes on uses the number that it used before. -/
theorem Performed.pid_eq (hprog : st :: rest <:+ c.fn.program) {now : Time} {w : World} {c' : Call}
    (hp : Performed w now k c st o w' (.goOn c')) {st' : Stage} (hmem : st' ∈ rest)
    (huses : st'.usesPid = true) : c'.info.pid = c.info.pid := by
  cases hp with
  | written | torn | unwritten =>
      rw [not_usesPid_after_write hprog st' hmem] at huses
      cases huses
  | allocated | launched | encoded | waited | released | peered | plain => rfl

/-- A name after a stage was there before it, or is the number of the container's own process. -/
theorem Host.Names.of_stage (hs : Consistent s) (hk : s.calls k = some c)
    (htodo : c.todo = st :: rest) (hp : Performed s.world s.clock k c st o w' after)
    (h : (s.resume k c rest (w', after)).Names d p) (hpos : 0 < p) :
    s.Names d p ∨ s.Owns d p := by
  rcases h with ⟨r, hr, rfl⟩ | ⟨j, hj, e, he, rfl, rfl, st', hmem, huses⟩
  · replace hr : (s.resume k c rest (w', after)).world.config d = some r := hr
    rw [Host.resume_config] at hr
    rcases hp.record_source hr with hold | ⟨wr, rfl, rfl, rfl, -⟩
    · exact .inl (.inl ⟨r, hold, rfl⟩)
    · exact hs.record_names hk htodo hpos
  · rcases Host.resume_calls he with ⟨-, hold⟩ | ⟨rfl, ⟨c', rfl, -, rfl⟩ | ⟨rfl, -, rfl⟩⟩
    · exact .inl (.of_call hs hold hmem huses)
    · have hprog : st :: rest <:+ c.fn.program := htodo ▸ (hs.call _ c hk).program
      have hmem' : st' ∈ c.todo := htodo ▸ List.mem_cons_of_mem _ hmem
      have hpid : c'.info.pid = c.info.pid := hp.pid_eq hprog hmem huses
      refine .inl ?_
      show s.Names c'.container c'.info.pid
      rw [hp.container_eq, hpid]
      exact .of_call hs hk hmem' huses
    · obtain rfl := List.mem_singleton.mp hmem
      cases huses

/-- **No step of the host invents a name**: a number that names a container did so before,
or is that of a process of the container. -/
theorem Host.Names.of_step {e : Event} (hs : Consistent s) (he : s.step e = some t)
    (h : t.Names d p) (hpos : 0 < p) : s.Names d p ∨ s.Owns d p := by
  cases Host.stepped he with
  | ran fresh =>
      have hnames := Host.Names.of_begin (hs.of_fresh _) h hpos (.inl rfl)
      exact .inl hnames
  | createdAndRan fresh =>
      have hnames := Host.Names.of_begin (hs.of_fresh _) h hpos (.inl rfl)
      exact .inl hnames
  | starting found => exact .inl (.of_begin hs h hpos (.inr (.inl (by decide))))
  | stopping found =>
      exact .inl (.of_begin hs h hpos (.inr (.inr ⟨_, (hs.running found).1, rfl⟩)))
  | adjusting found =>
      exact .inl (.of_begin hs h hpos (.inr (.inr ⟨_, (hs.running found).1, rfl⟩)))
  | refused => exact .inl h
  | staged call todo performed =>
      exact Host.Names.of_stage hs call todo (perform_performed performed) h hpos
  | moved moved =>
      rcases h with ⟨r, hr, hpid⟩ | hcall
      · exact .inl (.inl ⟨r, moved.config ▸ hr, hpid⟩)
      · exact .inl (.inr hcall)
  | ticked => exact .inl h

end

/-- A process after a step of the host was there, or has just been launched. -/
theorem Host.procs_step {e : Event} (he : s.step e = some t) {x : Proc}
    (hx : t.world.procs p = some x) :
    s.Owns x.container p ∨ ∃ k c, e = .step k (.child p) ∧ s.calls k = some c ∧
      x.container = c.container ∧ s.world.procs p = none := by
  have same : s.world.procs p = some x → s.Owns x.container p := fun hx => ⟨x, hx, rfl⟩
  cases Host.stepped he with
  | ran | createdAndRan | starting | stopping | adjusting | refused | ticked => exact .inl (same hx)
  | moved moved =>
      obtain ⟨y, hy, hyx⟩ := moved.back p x hx
      exact .inl ⟨y, hy, hyx.container.symm⟩
  | @staged k o c st rest w after call todo performed =>
      cases perform_performed performed with
      | allocated | written | torn | unwritten | released | peered | plain => exact .inl (same hx)
      | launched pos free =>
          rcases of_update_eq_some hx with ⟨rfl, hnew⟩ | ⟨-, hold⟩
          · obtain rfl := Option.some.inj hnew
            exact .inr ⟨k, c, rfl, call, rfl, free⟩
          · exact .inl (same hold)
      | encoded =>
          rcases of_update_eq_some hx with ⟨rfl, hnew⟩ | ⟨-, hold⟩
          · obtain ⟨y, hy, rfl⟩ := Option.map_eq_some_iff.mp hnew
            exact .inl ⟨y, hy, rfl⟩
          · exact .inl (same hold)
      | waited =>
          obtain ⟨-, hold⟩ := of_erase_eq_some hx
          exact .inl (same hold)
      | gaveUp =>
          -- the child it kills is gone
          obtain ⟨-, hold⟩ := World.of_kill_eq_some hx
          exact .inl (same hold)

/-- Directories stay. -/
theorem Host.dirs_step {e : Event} (he : s.step e = some t) (hd : d ∈ s.dirs) : d ∈ t.dirs := by
  cases Host.stepped he with
  | ran | createdAndRan => exact (List.mem_orderedInsert _).mpr (.inr hd)
  | staged =>
      rw [Host.resume_dirs]
      exact hd
  | starting | stopping | adjusting | refused | moved | ticked => exact hd

end

/-! ## Owned names -/

namespace System

/-- Every number that names a container belongs to it or to nobody. -/
structure Owned (s : System) : Prop where
  others : ∀ p, s.others p = true → s.host.world.procs p = none
  exec : ∀ x e, s.execs x = some e → x < s.nextExec ∧ e.container ∈ s.host.dirs ∧ 0 < e.pid
  named : ∀ d p, 0 < p → s.Names d p → s.OwnedBy d p

variable {s t : System} {d : ContainerID} {p : PID}

theorem Owned.mem_dirs (hs : Consistent s.host) (h : Owned s) (hnames : s.Names d p) :
    d ∈ s.host.dirs := by
  rcases hnames with (⟨r, hr, -⟩ | ⟨k, -, c, hk, rfl, -⟩) | ⟨x, -, e, he, rfl, -⟩
  · exact (hs.record d r hr).2
  · exact (hs.call k c hk).dir
  · exact (h.exec x e he).2.1

/-- A container with a process of its own under the number shares it with nobody. -/
theorem Owned.of_owns (h : Owned s) (howns : s.host.Owns d p) : s.OwnedBy d p := by
  obtain ⟨x, hx, rfl⟩ := howns
  refine ⟨?_, fun y hy => ?_⟩
  · by_contra hother
    rw [h.others p (by simpa using hother)] at hx
    cases hx
  · obtain rfl := Option.some.inj (hx.symm.trans hy)
    rfl

/-- After a step that adds no names and no processes. -/
theorem Owned.fewer (h : Owned s) (hnames : ∀ d p, t.Names d p → s.Names d p)
    (hothers : ∀ p, t.others p = true → s.others p = true)
    (hprocs : ∀ p x, t.host.world.procs p = some x → s.host.world.procs p = some x)
    (hexec : ∀ x e, t.execs x = some e →
      x < t.nextExec ∧ e.container ∈ t.host.dirs ∧ 0 < e.pid) : Owned t where
  others p hp := by
    cases hx : t.host.world.procs p with
    | none => rfl
    | some x =>
        have hnone := h.others p (hothers p hp)
        rw [hprocs p x hx] at hnone
        cases hnone
  exec := hexec
  named d p hpos hn := by
    obtain ⟨hother, hproc⟩ := h.named d p hpos (hnames d p hn)
    refine ⟨?_, fun x hx => hproc x (hprocs p x hx)⟩
    by_contra hp
    rw [hothers p (by simpa using hp)] at hother
    cases hother

/-- A step of the host: a launch does not take a number that names another container. -/
theorem Owned.hosted (hs : Consistent s.host) (h : Owned s) {e : Event} {host : Host}
    (hfree : ∀ q ∈ e.launched, s.others q = false) (he : s.host.step e = some host)
    (hC : s.TakesUnnamed (.host e)) : Owned { s with host := host } := by
  refine ⟨fun q hq => ?_, fun x e' hx => ?_, fun d q hpos hnames => ?_⟩
  · show host.world.procs q = none
    cases hx : host.world.procs q with
    | none => rfl
    | some x =>
        rcases Host.procs_step he hx with ⟨y, hy, -⟩ | ⟨k, c, rfl, -⟩
        · rw [h.others q hq] at hy
          cases hy
        · have hq : s.others q = true := hq
          rw [hfree q rfl] at hq
          cases hq
  · obtain ⟨hlt, hdir, hpid⟩ := h.exec x e' hx
    exact ⟨hlt, Host.dirs_step he hdir, hpid⟩
  · have hbefore : s.Names d q ∨ s.host.Owns d q := by
      rcases hnames with hhost | hexec
      · exact (hhost.of_step hs he hpos).imp_left .inl
      · exact .inl (.inr hexec)
    have howned : s.OwnedBy d q := hbefore.elim (h.named d q hpos) h.of_owns
    -- only a launch gives the number to a new process
    refine ⟨howned.1, fun x hx => ?_⟩
    rcases Host.procs_step he hx with ⟨y, hy, hcontainer⟩ | ⟨k, c, rfl, hk, hcontainer, hnone⟩
    · exact hcontainer.symm.trans (howned.2 y hy)
    · rcases hbefore with hnamed | ⟨y, hy, -⟩
      · -- the guard: what names another container is not given away
        by_contra hne
        have htakes : (q, some c.container) ∈ s.takes (.host (.step k (.child q))) := by
          simp [takes, hk]
        refine hC _ htakes d (h.mem_dirs hs hnamed) (fun heq => hne ?_) hnamed
        exact hcontainer.trans (Option.some.inj heq)
      · rw [hnone] at hy
        cases hy

/-- A stranger that takes a number which nobody names disowns nobody. -/
theorem Owned.appeared (hs : Consistent s.host) (h : Owned s) {q : PID}
    (hfree : s.host.world.procs q = none) (hC : s.TakesUnnamed (.appear q)) :
    Owned { s with others := Function.update s.others q true } := by
  refine ⟨fun p hp => ?_, h.exec, fun d p hpos hnames => ?_⟩
  · by_cases hpq : p = q
    · exact hpq ▸ hfree
    · replace hp : Function.update s.others q true p = true := hp
      rw [Function.update_of_ne hpq] at hp
      exact h.others p hp
  · have hnamed : s.Names d p := hnames
    have hpq : p ≠ q := by
      rintro rfl
      exact hC (p, none) rfl d (h.mem_dirs hs hnamed) (by simp) hnamed
    obtain ⟨hother, hproc⟩ := h.named d p hpos hnamed
    exact ⟨(Function.update_of_ne hpq ..).trans hother, hproc⟩

/-- An exec names what the record names. -/
theorem Owned.begun (hs : Consistent s.host) (h : Owned s) {identifier : String}
    {skip : List ContainerID} {info : ContainerInfo}
    (found : s.host.findContainerInfo skip identifier = some info) (hpid : info.pid ≠ 0) :
    Owned (s.exec info) := by
  obtain ⟨hconfig, hdir⟩ := hs.found found
  refine h.fewer ?_ (fun _ hp => hp) (fun _ _ hx => hx) ?_
  · rintro d p (hhost | ⟨x, -, e, he, rfl, rfl⟩)
    · exact .inl hhost
    · rcases of_update_eq_some he with ⟨rfl, hnew⟩ | ⟨-, hold⟩
      · obtain rfl := Option.some.inj hnew
        exact .inl (.inl ⟨info, hconfig, rfl⟩)
      · exact .inr ⟨x, (h.exec x e hold).1, e, hold, rfl, rfl⟩
  · intro x e he
    rcases of_update_eq_some he with ⟨rfl, hnew⟩ | ⟨-, hold⟩
    · obtain rfl := Option.some.inj hnew
      exact ⟨Nat.lt_succ_self _, hdir, Nat.pos_of_ne_zero hpid⟩
    · obtain ⟨hlt, hrest⟩ := h.exec x e hold
      exact ⟨Nat.lt_succ_of_lt hlt, hrest⟩

/-- An exec that ends or goes on names nothing new. -/
theorem Owned.setExec (h : Owned s) {x : ℕ} {e' : Option Exec}
    (he' : ∀ e ∈ e', ∃ e₀, s.execs x = some e₀ ∧ e.container = e₀.container ∧ e.pid = e₀.pid) :
    Owned (s.setExec x e') := by
  have source : ∀ y e, (s.setExec x e').execs y = some e →
      ∃ e₀, s.execs y = some e₀ ∧ e.container = e₀.container ∧ e.pid = e₀.pid := by
    intro y e hy
    rcases of_update_eq_some hy with ⟨rfl, hnew⟩ | ⟨-, hold⟩
    · exact he' e hnew
    · exact ⟨e, hold, rfl, rfl⟩
  refine h.fewer ?_ (fun _ hp => hp) (fun _ _ hx => hx) ?_
  · rintro d p (hhost | ⟨y, hlt, e, hy, rfl, rfl⟩)
    · exact .inl hhost
    · obtain ⟨e₀, he₀, hcontainer, hpid⟩ := source y e hy
      exact .inr ⟨y, hlt, e₀, he₀, hcontainer.symm, hpid.symm⟩
  · intro y e hy
    obtain ⟨e₀, he₀, hcontainer, hpid⟩ := source y e hy
    rw [hcontainer, hpid]
    exact h.exec y e₀ he₀

/-- A crash takes names away, and processes stay. -/
theorem Owned.cutOff (h : Owned s) (ks : List CallId) (xs : List ℕ) : Owned (s.cutOff ks xs) := by
  have exec_of : ∀ x e, (s.cutOff ks xs).execs x = some e → s.execs x = some e := by
    intro x e hx
    simp only [System.cutOff] at hx
    split_ifs at hx
    exact hx
  refine h.fewer ?_ (fun _ hp => hp) (fun _ _ hx => hx) fun x e hx => h.exec x e (exec_of x e hx)
  rintro d p ((hrecord | ⟨k, hk, c, hc, hcall⟩) | ⟨x, hlt, e, he, hexec⟩)
  · exact .inl (.inl hrecord)
  · exact .inl (.inr ⟨k, hk, c, of_cutOff hc, hcall⟩)
  · exact .inr ⟨x, hlt, e, exec_of x e he, hexec⟩

/-- Every step keeps the numbers owned, if new processes take unnamed ones. -/
theorem Owned.step {a : Happening} (hs : Consistent s.host) (h : Owned s) (hC : s.TakesUnnamed a)
    (he : s.step a = some t) : Owned t := by
  cases stepped he with
  | hosted free hstep => exact h.hosted hs free hstep hC
  | crashed ks xs => exact h.cutOff ks xs
  | reaped hx orphan =>
      refine h.fewer (fun _ _ hn => hn) (fun _ hp => hp) (fun q y hy => ?_) h.exec
      exact (of_erase_eq_some hy).2
  | appeared pos free => exact h.appeared hs free hC
  | vanished q =>
      -- a process less cannot take a number
      refine h.fewer (fun _ _ hn => hn) (fun p hp => ?_) (fun _ _ hx => hx) h.exec
      replace hp : Function.update s.others q false p = true := hp
      by_cases hpq : p = q
      · subst hpq
        rw [Function.update_self] at hp
        cases hp
      · rwa [Function.update_of_ne hpq] at hp
  | begun found pid => exact h.begun hs found pid
  | checked hx =>
      refine h.setExec fun e he => ?_
      obtain rfl := Option.some.inj he
      exact ⟨_, hx, rfl, rfl⟩
  | ended x => exact h.setExec fun e he => by cases he
  | unchanged => exact h

/-- Where nothing is running, no container has a process, and the numbers in the records must be
free. -/
theorem Starting.owned (h : Starting s)
    (hothers : ∀ d r, s.host.world.config d = some r → 0 < r.pid → s.others r.pid = false) :
    Owned s where
  others p _ := h.idle.procs p
  exec x e hx := by
    rw [h.execs x] at hx
    cases hx
  named d p hpos hnames := by
    refine ⟨?_, fun x hx => ?_⟩
    · rcases hnames with (⟨r, hr, rfl⟩ | ⟨k, -, c, hk, -⟩) | ⟨x, -, e, he, -⟩
      · exact hothers d r hr hpos
      · rw [h.idle.calls k] at hk
        cases hk
      · rw [h.execs x] at he
        cases he
    · rw [h.idle.procs p] at hx
      cases hx

/-! ## Signals and execs -/

/-- **A signal or an exec hits the container's own process or nobody**, whatever crashes
and whoever comes and goes, as long as no process takes a number that still names another
container. -/
theorem hits_own (hs : Starting s)
    (hothers : ∀ d r, s.host.world.config d = some r → 0 < r.pid → s.others r.pid = false)
    (h : Reaches step TakesUnnamed s t) : HitsOwn t := by
  have inv : Consistent t.host ∧ Coherent t.host ∧ Owned t :=
    h.invariant (I := fun s => Consistent s.host ∧ Coherent s.host ∧ Owned s)
      ⟨hs.idle.wellFormed.consistent, hs.coherent, hs.owned hothers⟩
      fun _ _ _ ⟨hs, hc, hi⟩ hC he =>
        ⟨consistent_step hs he, coherent_step hs hc he, hi.step hs hC he⟩
  obtain ⟨hcons, hcoherent, howned⟩ := inv
  refine ⟨fun k c hk hhead => ?_, fun x e hx _ => ?_⟩
  · obtain ⟨rest, htodo⟩ := List.head?_eq_some_iff.mp hhead
    have hmem : .kill ∈ c.todo := htodo ▸ List.mem_cons_self
    exact howned.named _ _ (hcoherent.target k c hk hmem) (.inl (.of_call hcons hk hmem rfl))
  · obtain ⟨hlt, -, hpos⟩ := howned.exec x e hx
    exact howned.named _ _ hpos (.inr ⟨x, hlt, e, hx, rfl, rfl⟩)

/-- The `gocker run` of a container crashes, and then its process ends and is reaped. -/
def abandoned : List Happening :=
  (launching 0 "a" 100).map .host ++ [.crash [0] [], .host (.exit 100), .reap 100]

/-- A `gocker run` is killed, a stranger appears under another number, and `gocker stop` signals
the container's own process. -/
theorem hits_own_abandoned :
    ∃ t : System, (∃ c ∈ t.host.calls 1, c.todo.head? = some .kill ∧ c.info.pid = 100) ∧
      t.others 101 = true ∧ HitsOwn t :=
  ⟨outcome step TakesUnnamed emptySystem
      (abandoned ++ [.appear 101, .host (.stopContainer "a" [])]),
    by decide +kernel, by decide +kernel,
    hits_own emptySystem_starting (fun _ _ _ _ => rfl) (reaches_outcome ..)⟩

/-- **A stranger takes the number** that the record still has, and is about to get the signal
of `gocker stop a`, and to have its namespaces entered by `gocker exec a`. -/
theorem stranger_hit :
    ∃ t, Reaches step Always emptySystem t ∧
      (∃ c ∈ t.host.calls 1, c.container = "a" ∧ c.todo.head? = some .kill ∧ c.info.pid = 100) ∧
      (∃ e ∈ t.execs 0, e.container = "a" ∧ e.stage = .entering ∧ e.pid = 100) ∧
      t.others 100 = true ∧ ¬ HitsOwn t := by
  let t := outcome step Always emptySystem
    (abandoned ++ [.appear 100, .host (.stopContainer "a" []), .exec "a" [], .check 0])
  have hstop : ∃ c ∈ t.host.calls 1, c.container = "a" ∧ c.todo.head? = some .kill ∧
      c.info.pid = 100 := by
    decide +kernel
  have hexec : ∃ e ∈ t.execs 0, e.container = "a" ∧ e.stage = .entering ∧ e.pid = 100 := by
    decide +kernel
  have hother : t.others 100 = true := by decide +kernel
  refine ⟨t, reaches_outcome .., hstop, hexec, hother, fun hown => ?_⟩
  obtain ⟨c, hk, -, hkill, hpid⟩ := hstop
  have hnobody := (hown.signal 1 c hk hkill).1
  rw [hpid, hother] at hnobody
  cases hnobody

end System

end Gocker.Container
