import Gocker.Container.Removal

/-!
# Addresses that can still be released

An entry of the allocator is lost for good if nothing that the program can do takes it away
again.  Where the addresses can be traced, no entry is: there is a call that holds the address,
or the container has a readable record (`Kept`), and in both cases the program has a way to the
release.

* A call that holds an address has its release ahead.  Whatever stage it is at, the stage can
  come to an end: the container's process exits, or the stage fails.  `releasable_of_held` is the
  induction on what the call has left.
* `StopContainer` finds a record that says `Running`, and releases as its last stage.
* `Start` finds a record that says `Created` or `Stopped`.  It launches a process, and is given
  the address that the allocator has for the container, which makes it a call that holds the
  address.

The two searches need a record whose status is one of the three, as those that the program
writes are (`Coherent`).

The other way round, an address whose container has neither a record nor a call is never given
back (`Stranded.forever`): every way to a release begins with one of the two.
-/

namespace Gocker.Container

open Machine Network

/-! ## Finding a record -/

/-- A container is found under its id, where the records before it cannot be read. -/
theorem Consistent.finds {s : Host} (hs : Consistent s) {d : ContainerID} {info : ContainerInfo}
    (hd : s.world.config d = some info) :
    ∃ skip, s.findContainerInfo skip d = some info := by
  obtain ⟨hid, hdir⟩ := hs.record d info hd
  have hmatch : ContainerInfo.matches info d = true := by simp [ContainerInfo.matches, hid]
  refine ⟨s.dirs.filter (· ≠ d), ?_⟩
  have read : ∀ e ∈ s.dirs, (if e ∈ s.dirs.filter (· ≠ d) then none
      else (s.world.config e).filter (ContainerInfo.matches · d)) =
        if e = d then some info else none := by
    intro e he
    rcases eq_or_ne e d with rfl | hne
    · simp [hd, hmatch]
    · simp [he, hne]
  cases hfind : s.findContainerInfo (s.dirs.filter (· ≠ d)) d with
  | none =>
      have hnone := List.findSome?_eq_none_iff.mp hfind d hdir
      rw [read d hdir, if_pos rfl] at hnone
      cases hnone
  | some r =>
      obtain ⟨e, he, hr⟩ := List.exists_of_findSome?_eq_some hfind
      rw [read e he] at hr
      split_ifs at hr
      exact hr.symm

/-- An allocation for a container that has an entry gives the address of this entry. -/
theorem perform_allocate_held {w : World} {now : Time} {k : CallId} {c : Call} {a : String}
    (h : w.ipam.lookup c.container = some a) :
    perform w now k c .allocateIP .ok = some (w, .goOn (c.allocated a)) := by
  simp only [perform, allocateContainerIP, h]

namespace Installation

variable {s t : Installation} {d : ContainerID}

/-- The program can come to a state in which the allocator has no entry for the container. -/
def Releasable (s : Installation) (d : ContainerID) : Prop :=
  ∃ t, Reaches step Always s t ∧ t.system.host.world.ipam.lookup d = none

/-- What can be released after a step, or after a run, can be released before it. -/
theorem Releasable.of_step {a : Act} (he : s.step a = some t) (h : t.Releasable d) :
    s.Releasable d := by
  obtain ⟨u, hu, hd⟩ := h
  exact ⟨u, .head trivial he hu, hd⟩

theorem Releasable.of_reaches (hs : Reaches step Always s t) (h : t.Releasable d) :
    s.Releasable d := by
  obtain ⟨u, hu, hd⟩ := h
  exact ⟨u, hs.trans hu, hd⟩

/-- Every step of the installation keeps the host consistent. -/
theorem consistent_step {a : Act} (hs : Consistent s.system.host) (he : s.step a = some t) :
    Consistent t.system.host := by
  cases stepped he with
  | refused | read => exact hs
  | moved writable hstep => exact System.consistent_step hs hstep
  | finished removal hw => exact hs.of_removed hw

/-! ## Steps of the host -/

/-- An event of the host as a step of the installation. -/
theorem step_of_host {e : Event} {host : Host} (he : s.system.host.step e = some host)
    (hfree : ∀ p ∈ e.launched, s.system.others p = false) (hw : s.Writable (.host e)) :
    s.step (.system (.host e)) =
      some { s with system := { s.system with host := host }, lost := s.lostAfter (.host e) } := by
  simp only [step, if_pos hw, System.step, if_pos hfree, he, Option.map_some]

section
variable {k : CallId} {c : Call} {st : Stage} {rest : List Stage} {o : Outcome} {w : World}
  {after : After}

/-- A stage can be performed, if the number of a new process is free, and a record is written
where there is a directory. -/
theorem step_of_stage (hk : s.system.host.calls k = some c) (htodo : c.todo = st :: rest)
    (hp : perform s.system.host.world s.system.host.clock k c st o = some (w, after))
    (hfree : ∀ p, o = .child p → s.system.others p = false)
    (hw : c.container ∈ s.removed → st.isWrite = true → o = .fails 0) :
    s.step (.system (.host (.step k o))) = some { s with
      system := { s.system with host := s.system.host.resume k c rest (w, after) }
      lost := s.lostAfter (.host (.step k o)) } := by
  refine step_of_host ?_ ?_ ?_
  · simp only [Host.step, hk, Option.bind_some, htodo, hp, Option.map_some]
  · intro q hq
    cases o with
    | child p =>
        obtain rfl := Option.some.inj hq
        exact hfree _ rfl
    | ok | garbled | fails => cases hq
  · rintro c' hc' hremoved ⟨st', hst', hwrite⟩
    obtain rfl := Option.some.inj (hk.symm.trans hc')
    rw [htodo] at hst'
    obtain rfl := Option.some.inj hst'
    exact hw hremoved hwrite

theorem goes_on {c' : Call} (hs : Consistent s.system.host) (hk : s.system.host.calls k = some c)
    (htodo : c.todo = st :: rest) (hrest : rest ≠ [])
    (hp : perform s.system.host.world s.system.host.clock k c st o = some (w, .goOn c'))
    (hfree : ∀ p, o = .child p → s.system.others p = false)
    (hw : c.container ∈ s.removed → st.isWrite = true → o = .fails 0) :
    ∃ t, s.step (.system (.host (.step k o))) = some t ∧ Consistent t.system.host ∧
      t.system.host.world = w ∧ t.system.host.calls k = some { c' with todo := rest } ∧
      t.removed = s.removed := by
  have hstep := step_of_stage hk htodo hp hfree hw
  refine ⟨_, hstep, ?_, rfl, ?_, rfl⟩
  · refine hs.step (e := .step k o) ?_
    simp only [Host.step, hk, Option.bind_some, htodo, hp, Option.map_some]
  · show (s.system.host.resume k c rest (w, .goOn c')).calls k = _
    rw [Host.resume_goOn_calls, if_neg hrest]

end

/-- A call that begins with a record that it has found. -/
theorem begins {e : Event} {fn : Fn} {info : ContainerInfo} (hs : Consistent s.system.host)
    (he : s.system.host.step e = some (s.system.host.begin fn info none))
    (hlaunched : e.launched = none) (hw : s.Writable (.host e)) :
    ∃ t, s.step (.system (.host e)) = some t ∧ Consistent t.system.host ∧
      t.system.host.world = s.system.host.world ∧ t.system.host.calls s.system.host.nextCall =
        some ⟨fn, info.id, fn.program, info, none, none, none, ""⟩ ∧
      t.removed = s.removed ∧ t.system.others = s.system.others := by
  have hstep := step_of_host he (fun p hp => by rw [hlaunched] at hp; cases hp) hw
  exact ⟨_, hstep, hs.step he, rfl, Function.update_self .., rfl, rfl⟩

section
variable {k : CallId} {c : Call} {st : Stage} {rest : List Stage} {o : Outcome} {w : World}
  {after : After}

/-! ## A call that holds an address -/

/-- Any stage but the release can come to its end: it fails, or the process exits that the call
waits for. -/
theorem stage_ends (hs : Consistent s.system.host) (hk : s.system.host.calls k = some c)
    (htodo : c.todo = st :: rest) (hst : st ≠ .releaseIP) :
    ∃ u o w after, Reaches step Always s u ∧ Consistent u.system.host ∧
      u.system.host.calls k = some c ∧
      perform u.system.host.world u.system.host.clock k c st o = some (w, after) ∧
      (∀ p, o ≠ .child p) ∧ (st.isWrite = true → o = .fails 0) := by
  cases st with
  | releaseIP => exact absurd rfl hst
  | allocateIP | write | launch | setupCgroup | setupVeth | encode | cleanupCgroup | kill =>
      exact ⟨s, .fails 0, _, _, .refl s, hs, hk, rfl, (fun _ hp => by cases hp), fun _ => rfl⟩
  | setResourceLimits =>
      obtain ⟨w, after, hp⟩ : ∃ w after, perform s.system.host.world s.system.host.clock k c
          .setResourceLimits (.fails 0) = some (w, after) := by
        simp only [perform]
        split <;> exact ⟨_, _, rfl⟩
      exact ⟨s, .fails 0, w, after, .refl s, hs, hk, hp, (fun _ hp => by cases hp), fun _ => rfl⟩
  | wait =>
      have hc := hs.call k c hk
      have hprog : .wait :: rest <:+ c.fn.program := htodo ▸ hc.program
      obtain ⟨p, hchild⟩ := Option.isSome_iff_exists.mp (hc.child.mpr (by
        rw [htodo]
        exact ⟨no_launch_at_wait hprog, List.mem_cons_self⟩))
      obtain ⟨x, hx, -⟩ := hc.proc p hchild
      by_cases halive : x.alive = true
      · -- the process exits first
        have hexit : s.system.host.step (.exit p) =
            some { s.system.host with world := s.system.host.world.exit p } := by
          simp only [Host.step, hx, Option.any_some, halive, if_true]
        have hstep := step_of_host (s := s) hexit (fun _ hp => by cases hp) trivial
        refine ⟨_, .ok, (s.system.host.world.exit p).setProc p none,
          .goOn { c with child := none }, .head trivial hstep (.refl _), hs.step hexit, hk, ?_,
          (fun _ hp => by cases hp), (fun hw => by cases hw)⟩
        have hdead : (s.system.host.world.exit p).procs p = some { x with alive := false } := by
          simp [World.exit, hx]
        simp only [perform, hchild, Option.bind_some, hdead, Bool.false_eq_true, if_false]
      · refine ⟨s, .ok, s.system.host.world.setProc p none, .goOn { c with child := none },
          .refl s, hs, hk, ?_, (fun _ hp => by cases hp), (fun hw => by cases hw)⟩
        simp only [perform, hchild, Option.bind_some, hx, halive, Bool.false_eq_true, if_false]

/-- The last stage of a call is its release, and the release works. -/
theorem releasable_of_release (hk : s.system.host.calls k = some c)
    (htodo : c.todo = .releaseIP :: rest) : s.Releasable c.container := by
  have hp : perform s.system.host.world s.system.host.clock k c .releaseIP .ok =
      some ({ s.system.host.world with
        ipam := s.system.host.world.ipam.erase c.container },
        .goOn { c with allocatedIP := none }) := rfl
  have hstep := step_of_stage hk htodo hp (fun _ hp => by cases hp)
      fun _ hw => by cases hw
  refine ⟨_, .head trivial hstep (.refl _), ?_⟩
  exact Finmap.lookup_erase c.container s.system.host.world.ipam

end

/-- **A call that holds an address comes to its release.**  The induction is on the stages that
it has left; one that gives up has only the release left. -/
theorem releasable_of_held (n : ℕ) : ∀ {s : Installation} {k : CallId} {c : Call},
    Consistent s.system.host → s.system.host.calls k = some c → c.allocatedIP ≠ none →
      c.todo.length ≤ n → s.Releasable c.container := by
  induction n with
  | zero =>
      intro s k c hs hk _ hlen
      exact absurd (List.length_eq_zero_iff.mp (Nat.le_zero.mp hlen)) (hs.call k c hk).ne
  | succ n ih =>
      intro s k c hs hk hip hlen
      obtain ⟨st, rest, htodo⟩ := List.exists_cons_of_ne_nil (hs.call k c hk).ne
      by_cases hst : st = .releaseIP
      · exact releasable_of_release hk (hst ▸ htodo)
      · obtain ⟨u, o, w, after, hreach, hu, hku, hp, ho, hw⟩ := stage_ends hs hk htodo hst
        have hstep := step_of_stage hku htodo hp (fun p hp => absurd hp (ho p)) fun _ => hw
        refine .of_reaches hreach (.of_step hstep ?_)
        obtain ⟨e, he, hcontainer, hheld⟩ :=
          hu.stage_holds hku htodo hst (perform_performed hp) hip
        have hstage : u.system.host.step (.step k o) =
            some (u.system.host.resume k c rest (w, after)) := by
          simp only [Host.step, hku, Option.bind_some, htodo, hp, Option.map_some]
        rw [← hcontainer]
        refine ih (hu.step hstage) he hheld ?_
        rw [htodo, List.length_cons] at hlen
        rcases Host.resume_calls he with ⟨hne, -⟩ | ⟨-, ⟨c', rfl, -, rfl⟩ | ⟨rfl, -, rfl⟩⟩
        · exact absurd rfl hne
        · exact Nat.le_of_succ_le_succ hlen
        · -- the release is among the stages behind this one
          have hmem := (hu.call k c hku).release (Option.isSome_iff_ne_none.mpr hip)
          rw [htodo] at hmem
          have hrest := List.length_pos_of_mem (List.mem_of_ne_of_mem (Ne.symm hst) hmem)
          exact hrest.trans_le (Nat.le_of_succ_le_succ hlen)

/-! ## A record that can be read -/

/-- `StopContainer` releases the address of a container that its record calls running. -/
theorem releasable_of_running (hs : Consistent s.system.host) {info : ContainerInfo}
    (hd : s.system.host.world.config d = some info) (hstatus : info.status = .running)
    (hremoved : d ∉ s.removed) : s.Releasable d := by
  obtain ⟨hid, -⟩ := hs.record d info hd
  obtain ⟨skip, hfind⟩ := hs.finds hd
  have hrunning : s.system.host.running skip d = some info := by
    rw [Host.running, hfind, Option.filter_eq_some_iff]
    simp [hstatus]
  have hcalled : s.system.host.step (.stopContainer d skip) =
      some (s.system.host.begin .stopContainer info none) := by
    simp only [Host.step, hrunning]
  obtain ⟨t, hbegin, ht, -, hk, hrem, -⟩ := begins hs hcalled rfl trivial
  refine .of_step hbegin ?_
  obtain ⟨u, hkill, hu, -, hk, hrem'⟩ :=
    goes_on ht hk rfl (List.cons_ne_nil _ _)
      (show perform _ _ _ _ .kill .ok = some (_, .goOn _) from rfl)
      (fun _ hp => by cases hp)
      fun _ hw => by cases hw
  refine .of_step hkill ?_
  have hmem : info.id ∉ u.removed := by
    rw [hrem', hrem, hid]
    exact hremoved
  obtain ⟨v, hwrite, -, -, hk, -⟩ :=
    goes_on hu hk rfl (List.cons_ne_nil _ _)
      (show perform _ _ _ _ (.write .stopped) .ok = some (_, .goOn _) from rfl)
      (fun _ hp => by cases hp)
      fun h _ => absurd h hmem
  refine .of_step hwrite ?_
  have hrelease := releasable_of_release hk rfl
  exact hid ▸ hrelease

/-- `Start` is given the address of a container that its record calls created or stopped, and
so holds it. -/
theorem releasable_of_startable (hs : Consistent s.system.host) {info : ContainerInfo}
    (hd : s.system.host.world.config d = some info)
    (hstatus : info.status = .stopped ∨ info.status = .created)
    (hentry : s.system.host.world.ipam.lookup d ≠ none)
    (hroom : ∃ n, ∀ p, n ≤ p → s.system.host.world.procs p = none) : s.Releasable d := by
  obtain ⟨hid, -⟩ := hs.record d info hd
  obtain ⟨skip, hfind⟩ := hs.finds hd
  obtain ⟨a, ha⟩ := Option.ne_none_iff_exists'.mp hentry
  obtain ⟨n, hn⟩ := hroom
  have hfree := hn (n + 1) (Nat.le_succ n)
  -- no stranger has the number that the process is to get
  have hvanish : s.step (.system (.vanish (n + 1))) = some { s with
      system := { s.system with others := Function.update s.system.others (n + 1) false } } := rfl
  refine .of_step hvanish ?_
  have hstartable : s.system.host.startable skip d = some info := by
    rw [Host.startable, hfind, Option.filter_eq_some_iff]
    rcases hstatus with hstatus | hstatus <;> simp [hstatus]
  have hcalled : s.system.host.step (.start d skip) =
      some (s.system.host.begin .start info none) := by
    simp only [Host.step, hstartable]
  obtain ⟨t, hbegin, ht, hw, hk, -, hothers⟩ :=
    begins (s := { s with
      system := { s.system with others := Function.update s.system.others (n + 1) false } })
      hs hcalled rfl trivial
  refine .of_step hbegin ?_
  have hlaunch : perform t.system.host.world t.system.host.clock s.system.host.nextCall
      ⟨.start, info.id, Fn.start.program, info, none, none, none, ""⟩ .launch (.child (n + 1)) =
        some (t.system.host.world.setProc (n + 1)
          (some (Proc.launched info.id s.system.host.nextCall)),
          .goOn ⟨.start, info.id, Fn.start.program, info, none, some (n + 1), none, ""⟩) := by
    simp only [perform, hw]
    rw [if_pos ⟨Nat.succ_pos n, hfree⟩]
  obtain ⟨u, hstep, hu, hw', hk, -⟩ := goes_on ht hk rfl (List.cons_ne_nil _ _) hlaunch
    (fun p hp => by
      obtain rfl := Outcome.child.inj hp
      rw [hothers]
      exact Function.update_self ..) fun _ hw => by cases hw
  refine .of_step hstep ?_
  obtain ⟨v, hstep, hv, hw'', hk, -⟩ :=
    goes_on hu hk rfl (List.cons_ne_nil _ _)
      (show perform _ _ _ _ .setupVeth .ok = some (_, .goOn _) from rfl)
      (fun _ hp => by cases hp)
      fun _ hw => by cases hw
  refine .of_step hstep ?_
  have hlookup : v.system.host.world.ipam.lookup info.id = some a := by
    rw [hw'', hw', hid]
    exact (congrArg (fun w => Finmap.lookup d (World.ipam w)) hw).trans ha
  obtain ⟨x, hstep, hx, -, hk, -⟩ :=
    goes_on hv hk rfl (List.cons_ne_nil _ _) (perform_allocate_held hlookup)
      (fun _ hp => by cases hp)
      fun _ hw => by cases hw
  refine .of_step hstep ?_
  have hheld := releasable_of_held _ hx hk (by intro h; cases h) le_rfl
  exact hid ▸ hheld

/-- **No address is lost for good** where the addresses can be traced. -/
theorem Kept.releasable (h : s.Kept) (hentry : s.system.host.world.ipam.lookup d ≠ none) :
    s.Releasable d := by
  have source : Readable s d ∨ s.system.host.Held d := by
    rcases h.answered d hentry with hlost | hheld
    · exact h.findable d hlost
    · exact .inr hheld
  rcases source with hr | ⟨k, c, hk, rfl, hip⟩
  · obtain ⟨info, hd⟩ := Option.isSome_iff_exists.mp hr
    have hremoved : d ∉ s.removed := by
      intro hmem
      rw [(h.gone d hmem).record] at hd
      cases hd
    have hinfo := h.coherent.record d info hd
    rcases Nat.eq_zero_or_pos info.pid with hpid | hpid
    · exact releasable_of_startable h.consistent hd (hinfo.idle.mpr hpid).symm hentry h.room
    · exact releasable_of_running h.consistent hd (hinfo.running.mpr hpid) hremoved
  · exact releasable_of_held _ h.consistent hk hip le_rfl

/-! ## An address that nothing releases -/

/-- The container has an entry and no record, and no call works on it. -/
structure Stranded (s : System) (d : ContainerID) (a : String) : Prop where
  address : s.host.world.ipam.lookup d = some a
  record : s.host.world.config d = none
  dir : d ∈ s.host.dirs
  calls : ∀ k c, s.host.calls k = some c → c.container ≠ d

variable {a : String}

theorem Stranded.begin {s : System} (h : Stranded s d a) {fn : Fn} {info : ContainerInfo}
    {req : Option RunRequest} (hne : info.id ≠ d) :
    Stranded { s with host := s.host.begin fn info req } d a where
  address := h.address
  record := h.record
  dir := h.dir
  calls k c hk := by
    rcases WellFormed.begin_calls hk with ⟨-, rfl⟩ | ⟨-, hold⟩
    · exact hne
    · exact h.calls k c hold

/-- No search finds the container, and no new one gets its id. -/
theorem Stranded.moved {s t : System} (hs : Consistent s.host) (h : Stranded s d a) {e : Happening}
    (he : s.step e = some t) : Stranded t d a := by
  have fresh : ∀ {id : ContainerID}, id ∉ s.host.dirs → id ≠ d := by
    rintro id hid rfl
    exact hid h.dir
  have recorded : ∀ {info : ContainerInfo}, s.host.world.config info.id = some info →
      info.id ≠ d := by
    intro info hr heq
    rw [heq, h.record] at hr
    cases hr
  have inserted : ∀ id,
      Stranded { s with host := { s.host with dirs := s.host.dirs.orderedInsert (· ≤ ·) id } }
        d a :=
    fun id => ⟨h.address, h.record, (List.mem_orderedInsert _).mpr (.inr h.dir), h.calls⟩
  cases System.stepped he with
  | @hosted e host free hstep =>
      cases Host.stepped hstep with
      | ran hid => exact (inserted _).begin (fresh hid)
      | createdAndRan hid => exact (inserted _).begin (fresh hid)
      | starting found => exact h.begin (recorded (hs.startable found).1)
      | stopping found => exact h.begin (recorded (hs.running found).1)
      | adjusting found =>
          have hrecord := recorded (hs.running found).1
          exact h.begin hrecord
      | refused => exact h
      | @staged k o c st rest w after call todo performed =>
          have hp := perform_performed performed
          have hne := (h.calls k c call).symm
          refine ⟨?_, ?_, ?_, fun j e hj => ?_⟩
          · rw [Host.resume_ipam]
            exact (hp.ipam_others hne).trans h.address
          · rw [Host.resume_config]
            exact (hp.config_others hne).trans h.record
          · rw [Host.resume_dirs]
            exact h.dir
          · rcases Host.resume_calls hj with ⟨-, hold⟩ | ⟨rfl, ⟨c', rfl, -, rfl⟩ | ⟨rfl, -, rfl⟩⟩
            · exact h.calls j e hold
            · exact hp.container_eq ▸ h.calls j c call
            · exact h.calls j c call
      | moved moved =>
          have haddress := congrArg (Finmap.lookup d) moved.ipam
          exact ⟨haddress.trans h.address, (congrFun moved.config d).trans h.record, h.dir, h.calls⟩
      | ticked => exact ⟨h.address, h.record, h.dir, h.calls⟩
  | crashed ks xs => exact ⟨h.address, h.record, h.dir, fun k c hk => h.calls k c (of_cutOff hk)⟩
  | reaped | appeared | vanished | begun | checked | ended | unchanged =>
      exact ⟨h.address, h.record, h.dir, h.calls⟩

/-- Every step of the installation leaves the entry where it is. -/
theorem Stranded.step {e : Act} (hs : Consistent s.system.host) (h : Stranded s.system d a)
    (he : s.step e = some t) : Stranded t.system d a := by
  cases stepped he with
  | refused | read => exact h
  | moved writable hstep => exact h.moved hs hstep
  | finished removal hw =>
      have haddress := congrArg (Finmap.lookup d) (World.of_removed hw).1
      exact ⟨haddress.trans h.address, World.unrecorded_of_removed hw h.record, h.dir, h.calls⟩

/-- **A stranded address is never given back**, whatever the program does from then on. -/
theorem Stranded.forever (hs : Consistent s.system.host) (h : Stranded s.system d a)
    (hrun : Reaches Installation.step Always s t) : t.system.host.world.ipam.lookup d = some a := by
  have inv : Consistent t.system.host ∧ Stranded t.system d a :=
    hrun.invariant (I := fun t => Consistent t.system.host ∧ Stranded t.system d a) ⟨hs, h⟩
      fun _ _ _ ⟨hs, h⟩ _ he => ⟨consistent_step hs he, h.step hs he⟩
  exact inv.2.address

end Installation

end Gocker.Container
