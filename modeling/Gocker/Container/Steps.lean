import Gocker.Container.Host

/-!
# What a step can do

* `Performed` lists what a stage can do to the world and to its call, once for all
  the properties that follow; `perform_performed` says that nothing else happens.
* `WellFormed` is the structure that every state has: the record of a container is
  under its id, a call is somewhere in its program, and the processes are exactly
  the children of the calls between their launch and their wait.  In particular no
  process outlives the call that launched it.

### How the invariants are proved

An invariant of the host is shown to hold of an idle host, to survive the beginning of a call,
and to survive a stage, with the cases of `Performed` for the stage.  `Host.stepped` says that
these and the moves of single processes are all the steps there are, and `Reaches.invariant`
does the induction on the run.

What a stage leaves alone is said by lemmas on `Host.resume`, one for each part of the state, so
that no proof has to take `resume` apart.  What it leaves alone of a record and of a request is
what is *lasting* in it: the id, the name, the command, the image and the limits, as against the
status, the process number, the address and the times.

### Two strengths

`WellFormed` is for runs in which a call ends only by itself.  `Consistent` leaves out that each
process has its call, and holds also where a CLI process is killed or the daemon crashes
(`Container/Crash.lean`).
-/

namespace Gocker.Container

open Network

/-! ## Stages -/

/-- The stages at which a call may give up. -/
def Stage.mayGiveUp : Stage → Bool
  | .write wr => wr.required
  | .wait | .cleanupCgroup | .releaseIP => false
  | _ => true

/-- The stages that, done, leave the call as it was. -/
def Stage.plain : Stage → Bool
  | .setupCgroup | .cleanupCgroup | .kill | .setResourceLimits => true
  | _ => false

/-- What a stage can do to the cgroups. -/
inductive Regrouped (w : World) (c : Call) : Stage → Outcome → Cgroups → Prop where
  | setup {p : PID} (child : c.child = some p) :
      Regrouped w c .setupCgroup .ok (w.setupCgroup c.container c.launchLimits p).cgroups
  | failedSetup {n : ℕ} :
      Regrouped w c .setupCgroup (.fails n)
        (w.failSetupCgroup c.container c.launchLimits n).cgroups
  | cleanup {o : Outcome} : Regrouped w c .cleanupCgroup o (w.cgroups.cleanup c.container)
  | limits {o : Outcome} {name : String} {n : ℕ} :
      Regrouped w c .setResourceLimits o
        (w.setCgroup name ((w.cgroups name).map (setResourceLimits n c.info.limits))).cgroups
  | same {st : Stage} {o : Outcome} (hst : st ≠ .setupCgroup) : Regrouped w c st o w.cgroups

/-- What a stage of the call `k` can do. -/
inductive Performed (w : World) (now : Time) (k : CallId) (c : Call) :
    Stage → Outcome → World → After → Prop where
  /-- the container has the address, an earlier one if it had one, and the others
  have what they had -/
  | allocated {m : ContainerToIP} {ip : String} (own : m.lookup c.container = some ip)
      (kept : ∀ a, w.ipam.lookup c.container = some a → a = ip)
      (others : ∀ d, d ≠ c.container → m.lookup d = w.ipam.lookup d)
      (valid : Valid w.ipam → Valid m) :
      Performed w now k c .allocateIP .ok { w with ipam := m } (.goOn (c.allocated ip))
  | written {wr : Write} :
      Performed w now k c (.write wr) .ok
        { w with config := Function.update w.config c.container (some (c.record now wr)) }
        (.goOn { c with info := c.record now wr })
  /-- the file is left unreadable -/
  | torn {wr : Write} {o : Outcome} (ho : o ≠ .ok) (hn : o ≠ .fails 0) :
      Performed w now k c (.write wr) o
        { w with config := Function.update w.config c.container none }
        (.goOn { c with info := c.record now wr })
  /-- the file could not be opened -/
  | unwritten {wr : Write} :
      Performed w now k c (.write wr) (.fails 0) w (.goOn { c with info := c.record now wr })
  | launched {p : PID} (pos : 0 < p) (free : w.procs p = none) :
      Performed w now k c .launch (.child p)
        (w.setProc p (some (Proc.launched c.container k))) (.goOn { c with child := some p })
  | encoded {p : PID} (child : c.child = some p) :
      Performed w now k c .encode .ok
        (w.setProc p ((w.procs p).map fun x => { x with pipe := some c.request })) (.goOn c)
  | waited {p : PID} {x : Proc} (child : c.child = some p) (hx : w.procs p = some x)
      (dead : x.alive = false) :
      Performed w now k c .wait .ok (w.setProc p none) (.goOn { c with child := none })
  | released {o : Outcome} {m : ContainerToIP}
      (hm : m = w.ipam ∨ m = w.ipam.erase c.container) :
      Performed w now k c .releaseIP o { w with ipam := m } (.goOn { c with allocatedIP := none })
  | peered {peer : String} :
      Performed w now k c .setupVeth .ok w (.goOn { c with vethPeer := peer })
  | plain {st : Stage} {o : Outcome} {gs : Cgroups} (hst : st.plain)
      (ho : st = .setupCgroup → o = .ok) (regrouped : Regrouped w c st o gs) :
      Performed w now k c st o { w with cgroups := gs } (.goOn c)
  /-- only the write of a record that is required touches the record -/
  | gaveUp {st : Stage} {o : Outcome} {gs : Cgroups} {config : ContainerID → Option ContainerInfo}
      (hst : st.mayGiveUp) (ho : st = .setupCgroup ∨ st.isWrite = true → o ≠ .ok)
      (hconfig : config = w.config ∨
        (∃ wr, st = .write wr ∧ o ≠ .ok ∧ o ≠ .fails 0) ∧
          config = Function.update w.config c.container none)
      (regrouped : Regrouped w c st o gs) :
      Performed w now k c st o { w with config := config, cgroups := gs } .giveUp

section
variable {w w' : World} {now : Time} {k : CallId} {c : Call} {st : Stage} {o : Outcome}
  {after : After}

/-- A stage that fails with nothing done. -/
theorem Performed.failed (hst : st.mayGiveUp) (hsetup : st ≠ .setupCgroup)
    (hwrite : st.isWrite = false) : Performed w now k c st o w .giveUp :=
  .gaveUp hst (by simp [hsetup, hwrite]) (.inl rfl) (.same hsetup)

/-- An allocation gives the call the address that the map then has for its container, or the
call gives up. -/
theorem performed_allocateIP (h : perform w now k c .allocateIP o = some (w', after)) :
    Performed w now k c .allocateIP o w' after := by
  cases o with
  | ok =>
      simp only [perform] at h
      split at h
      · next ip hd =>
          -- the container has an address, and gets it again
          cases h
          have own := allocate_done hd
          exact .allocated own (fun a ha => Option.some.inj (ha.symm.trans own)) (fun _ _ => rfl) id
      · next m ip hd =>
          cases h
          obtain ⟨hnone, rfl, -⟩ := allocate_save hd
          refine .allocated ?_ (fun a ha => ?_) (fun d hne => ?_) fun hv => hv.allocate hd
          · exact Finmap.lookup_insert _
          · exact absurd (hnone.symm.trans ha) nofun
          · exact Finmap.lookup_insert_of_ne _ hne
      · cases h
        exact .failed rfl nofun rfl
  | fails n =>
      cases h
      exact .failed rfl nofun rfl
  | garbled | child => cases h

/-- A write leaves the new record, an unreadable one, or the old one; only a failing write that
is required ends the call. -/
theorem performed_write {wr : Write} (h : perform w now k c (.write wr) o = some (w', after)) :
    Performed w now k c (.write wr) o w' after := by
  cases o with
  | ok =>
      cases h
      exact .written
  | garbled =>
      cases h
      exact .torn nofun nofun
  | child p => cases h
  | fails n =>
      simp only [perform, World.written] at h
      -- an error before the file is opened leaves it, a later one leaves a part of the text
      cases n with
      | zero =>
          cases hr : wr.required with
          | true =>
              simp only [hr, if_true] at h
              cases h
              exact .gaveUp hr (fun _ => nofun) (.inl rfl) (.same nofun)
          | false =>
              simp only [hr] at h
              cases h
              exact .unwritten
      | succ n =>
          cases hr : wr.required with
          | true =>
              simp only [hr, if_true] at h
              cases h
              exact .gaveUp hr (fun _ => nofun) (.inr ⟨⟨wr, rfl, nofun, by simp⟩, rfl⟩)
                (.same nofun)
          | false =>
              simp only [hr] at h
              cases h
              exact .torn nofun (by simp)

/-- Setting up the cgroup changes nothing but cgroups, and its failure ends the call. -/
theorem performed_setupCgroup (h : perform w now k c .setupCgroup o = some (w', after)) :
    Performed w now k c .setupCgroup o w' after := by
  cases o with
  | ok =>
      obtain ⟨p, hp, h⟩ := Option.map_eq_some_iff.mp h
      cases h
      exact .plain rfl (fun _ => rfl) (.setup hp)
  | fails n =>
      cases h
      cases n with
      | zero => exact .gaveUp rfl (fun _ => nofun) (.inl rfl) (.failedSetup (n := 0))
      | succ n => exact .gaveUp rfl (fun _ => nofun) (.inl rfl) .failedSetup
  | garbled | child => cases h

/-- Setting the limits changes nothing but one cgroup, and its failure ends the call. -/
theorem performed_setResourceLimits
    (h : perform w now k c .setResourceLimits o = some (w', after)) :
    Performed w now k c .setResourceLimits o w' after := by
  cases o with
  | ok =>
      simp only [perform] at h
      split at h <;> cases h
      · exact .failed rfl nofun rfl
      · exact .plain rfl nofun .limits
  | fails n =>
      simp only [perform] at h
      split at h <;> cases h
      · exact .failed rfl nofun rfl
      · exact .gaveUp rfl (by simp [Stage.isWrite]) (.inl rfl) .limits
  | garbled | child => cases h

/-- **Nothing else happens.**  The properties that follow split a stage into the cases of
`Performed` and never look at `perform` again. -/
theorem perform_performed (h : perform w now k c st o = some (w', after)) :
    Performed w now k c st o w' after := by
  cases st with
  | allocateIP => exact performed_allocateIP h
  | write wr => exact performed_write h
  | launch =>
      cases o with
      | child p =>
          simp only [perform] at h
          split_ifs at h with hp
          cases h
          exact .launched hp.1 hp.2
      | fails n =>
          cases h
          exact .failed rfl nofun rfl
      | ok | garbled => cases h
  | setupCgroup => exact performed_setupCgroup h
  | setupVeth =>
      cases o with
      | ok =>
          obtain ⟨p, -, h⟩ := Option.map_eq_some_iff.mp h
          cases h
          exact .peered
      | fails n =>
          cases h
          exact .failed rfl nofun rfl
      | garbled | child => cases h
  | encode =>
      cases o with
      | ok =>
          obtain ⟨p, hp, h⟩ := Option.map_eq_some_iff.mp h
          cases h
          exact .encoded hp
      | fails n =>
          cases h
          exact .failed rfl nofun rfl
      | garbled | child => cases h
  | wait =>
      cases o with
      | ok =>
          obtain ⟨p, hp, h⟩ := Option.bind_eq_some_iff.mp h
          obtain ⟨x, hx, h⟩ := Option.bind_eq_some_iff.mp h
          split_ifs at h with hdead
          cases h
          exact .waited hp hx (by simpa using hdead)
      | fails | garbled | child => cases h
  | cleanupCgroup =>
      cases o with
      | ok =>
          cases h
          exact .plain rfl nofun .cleanup
      | fails n =>
          cases h
          exact .plain rfl nofun (.same nofun)
      | garbled | child => cases h
  | releaseIP =>
      cases o with
      | ok =>
          cases h
          exact .released (.inr rfl)
      | fails n =>
          cases h
          exact .released (.inl rfl)
      | garbled | child => cases h
  | kill =>
      cases o with
      | ok =>
          cases h
          exact .plain rfl nofun (.same nofun)
      | fails n =>
          cases h
          exact .failed rfl nofun rfl
      | garbled | child => cases h
  | setResourceLimits => exact performed_setResourceLimits h

end

/-- A table after an update has the new entry and the others. -/
theorem of_update_eq_some {α β : Type} [DecidableEq α] {f : α → Option β} {a b : α}
    {v : Option β} {y : β} (h : Function.update f a v b = some y) :
    (b = a ∧ v = some y) ∨ (b ≠ a ∧ f b = some y) := by
  rcases eq_or_ne b a with rfl | hne
  · rw [Function.update_self] at h
    exact .inl ⟨rfl, h⟩
  · rw [Function.update_of_ne hne] at h
    exact .inr ⟨hne, h⟩

/-- What is found after something has been taken out was there, and is something else. -/
theorem of_erase_eq_some {α β : Type} [DecidableEq α] {f : α → Option β} {a b : α} {y : β}
    (h : Function.update f a none b = some y) : b ≠ a ∧ f b = some y :=
  (of_update_eq_some h).resolve_left fun hnone => Option.some_ne_none y hnone.2.symm

/-- What stands at the place that was updated is the new value. -/
theorem of_update_self {α β : Type} [DecidableEq α] {f : α → Option β} {a : α} {v : Option β}
    {y : β} (h : Function.update f a v a = some y) : v = some y := by
  rwa [Function.update_self] at h

/-! ## The record that a stage writes -/

/-- What a record says of its container for good, as long as nobody adjusts the limits. -/
def ContainerInfo.lasting (info : ContainerInfo) : ContainerInfo :=
  { info with
      pid := 0, status := .created, createdAt := zeroTime, ipAddress := "", finishedAt := zeroTime }

/-- What a request says of its container, whatever the network. -/
def RunRequest.lasting (req : RunRequest) : RunRequest :=
  { req with vethPeerName := "", ipAddress := "" }

theorem id_of_lasting {r r' : ContainerInfo}
    (h : ContainerInfo.lasting r = ContainerInfo.lasting r') : r.id = r'.id := by
  have hid := congrArg ContainerInfo.id h
  exact hid

theorem limits_of_lasting {r r' : ContainerInfo}
    (h : ContainerInfo.lasting r = ContainerInfo.lasting r') : r.limits = r'.limits := by
  have hlimits := congrArg ContainerInfo.limits h
  exact hlimits

/-- A write changes what a record says of the process and of the times, and nothing that lasts. -/
theorem Call.record_lasting (c : Call) (now : Time) (wr : Write) :
    ContainerInfo.lasting (c.record now wr) = ContainerInfo.lasting c.info := by
  cases wr <;> rfl

/-- In particular a write keeps the limits and the id that the call's copy has. -/
theorem Call.record_limits (c : Call) (now : Time) (wr : Write) :
    (c.record now wr).limits = c.info.limits :=
  limits_of_lasting (c.record_lasting now wr)

theorem Call.record_id (c : Call) (now : Time) (wr : Write) : (c.record now wr).id = c.info.id :=
  id_of_lasting (c.record_lasting now wr)

/-- A record that says `Running` comes from one of the two writes that set it, or from a copy
that said so when it was read. -/
theorem Call.record_status {c : Call} {now : Time} {wr : Write}
    (h : (c.record now wr).status = .running) : (Stage.write wr).setsRunning = true ∨
      (wr = .created ∨ wr = .limits) ∧ c.info.status = .running := by
  cases wr with
  | created => exact .inr ⟨.inl rfl, h⟩
  | limits => exact .inr ⟨.inr rfl, h⟩
  | running => exact .inl rfl
  | restarted => exact .inl rfl
  | exited => exact absurd h nofun
  | finished => exact absurd h nofun
  | stopped => exact absurd h nofun

/-- With `Running` comes the number of the call's child. -/
theorem Call.record_pid_of_setsRunning {c : Call} {now : Time} {wr : Write} {p : PID}
    (hset : (Stage.write wr).setsRunning = true) (hchild : c.child = some p) :
    (c.record now wr).pid = p := by
  cases wr <;> first
    | exact absurd hset Bool.false_ne_true
    | exact congrArg (Option.getD · 0) hchild

/-! ## The call after a stage -/

section
variable {w w' : World} {now : Time} {k : CallId} {c c' : Call} {st : Stage} {o : Outcome}
  {rest : List Stage}

/-- A call goes on as a call of the same function and for the same container. -/
theorem Performed.fn_eq (h : Performed w now k c st o w' (.goOn c')) : c'.fn = c.fn := by
  cases h <;> rfl

theorem Performed.container_eq (h : Performed w now k c st o w' (.goOn c')) :
    c'.container = c.container := by
  cases h <;> rfl


/-- A call never changes the lasting part of its copy of the record. -/
theorem Performed.lasting_eq (h : Performed w now k c st o w' (.goOn c')) :
    ContainerInfo.lasting c'.info = ContainerInfo.lasting c.info := by
  cases h <;> first | rfl | exact c.record_lasting now _

theorem Performed.info_id (h : Performed w now k c st o w' (.goOn c')) : c'.info.id = c.info.id :=
  id_of_lasting h.lasting_eq

theorem Performed.limits_eq (h : Performed w now k c st o w' (.goOn c')) :
    c'.info.limits = c.info.limits :=
  limits_of_lasting h.lasting_eq

/-- The request of a first launch gets its address and the name of its interface from the
stages, and keeps everything else. -/
theorem Performed.req_lasting (h : Performed w now k c st o w' (.goOn c')) :
    c'.req.map RunRequest.lasting = c.req.map RunRequest.lasting := by
  cases h with
  | allocated => cases hreq : c.req <;> simp [Call.allocated, hreq, RunRequest.lasting]
  | written | torn | unwritten | launched | encoded | waited | released | peered | plain => rfl

/-- Whether a call has a request of its own is settled when it begins. -/
theorem Performed.req_isSome (h : Performed w now k c st o w' (.goOn c')) :
    c'.req.isSome = c.req.isSome := by
  have hreq := congrArg Option.isSome h.req_lasting
  rwa [Option.isSome_map, Option.isSome_map] at hreq

/-- The request of a call that goes on was there, up to what it has from the network. -/
theorem Performed.req_source (h : Performed w now k c st o w' (.goOn c')) {r : RunRequest}
    (hr : c'.req = some r) :
    ∃ r', c.req = some r' ∧ RunRequest.lasting r' = RunRequest.lasting r := by
  have hlasting := h.req_lasting
  rw [hr] at hlasting
  exact Option.map_eq_some_iff.mp hlasting.symm

/-- **Where a record comes from**: after a stage, a record that can be read was there
before, or the stage has just written it. -/
theorem Performed.record_source {after : After} (h : Performed w now k c st o w' after)
    {d : ContainerID} {r : ContainerInfo} (hd : w'.config d = some r) :
    w.config d = some r ∨ ∃ wr, st = .write wr ∧ d = c.container ∧ r = c.record now wr ∧
      after = .goOn { c with info := c.record now wr } := by
  have cleared : Function.update w.config c.container none d = some r → w.config d = some r := by
    intro hd
    exact (of_erase_eq_some hd).2
  cases h with
  | allocated | unwritten | launched | encoded | waited | released | peered | plain =>
      exact .inl hd
  | written =>
      rcases of_update_eq_some hd with ⟨hown, hnew⟩ | ⟨-, hold⟩
      · exact .inr ⟨_, rfl, hown, (Option.some.inj hnew).symm, rfl⟩
      · exact .inl hold
  | torn => exact .inl (cleared hd)
  | gaveUp hst ho hconfig =>
      rcases hconfig with rfl | ⟨-, rfl⟩
      · exact .inl hd
      · exact .inl (cleared hd)

/-- Only a release takes an address away, and only from its own container. -/
theorem Performed.lookup_stays {after : After} (h : Performed w now k c st o w' after)
    {d : ContainerID} {a : String} (ha : w.ipam.lookup d = some a)
    (hd : d = c.container → st ≠ .releaseIP) : w'.ipam.lookup d = some a := by
  cases h with
  | allocated own kept others =>
      rcases eq_or_ne d c.container with rfl | hne
      · rw [kept a ha]
        exact own
      · exact (others d hne).trans ha
  | released hm =>
      have hne : d ≠ c.container := fun h => hd h rfl
      rcases hm with rfl | rfl
      · exact ha
      · exact (Finmap.lookup_erase_ne hne).trans ha
  | written | torn | unwritten | launched | encoded | waited | peered | plain | gaveUp => exact ha

/-- A call has a child from its launch to its wait. -/
theorem Performed.child_isSome (h : Performed w now k c st o w' (.goOn c'))
    (hprog : st :: rest <:+ c.fn.program)
    (hc : c.child.isSome ↔ .launch ∉ st :: rest ∧ .wait ∈ st :: rest) :
    c'.child.isSome ↔ .launch ∉ rest ∧ .wait ∈ rest := by
  have other : st ≠ .launch → st ≠ .wait → c'.child = c.child →
      (c'.child.isSome ↔ .launch ∉ rest ∧ .wait ∈ rest) := by
    intro hl hw hchild
    rw [hchild, hc]
    simp [hl.symm, hw.symm]
  cases h with
  | allocated => exact other nofun nofun rfl
  | written => exact other nofun nofun rfl
  | torn => exact other nofun nofun rfl
  | unwritten => exact other nofun nofun rfl
  | launched pos free => simp [not_mem_rest hprog, wait_after_launch hprog]
  | encoded child => exact other nofun nofun rfl
  | waited child hx dead => simp [not_mem_rest hprog]
  | released hm => exact other nofun nofun rfl
  | peered => exact other nofun nofun rfl
  | plain hst =>
      refine other ?_ ?_ rfl
      · rintro rfl
        exact absurd hst (by decide)
      · rintro rfl
        exact absurd hst (by decide)

/-- An address that is held is released in the end. -/
theorem Performed.release (h : Performed w now k c st o w' (.goOn c'))
    (hprog : st :: rest <:+ c.fn.program)
    (hc : c.allocatedIP.isSome → .releaseIP ∈ st :: rest) (hsome : c'.allocatedIP.isSome) :
    .releaseIP ∈ rest := by
  have other : st ≠ .releaseIP → c.allocatedIP.isSome → .releaseIP ∈ rest := fun hst hs =>
    (List.mem_cons.mp (hc hs)).resolve_left hst.symm
  cases h with
  | allocated => exact release_after_allocate hprog
  | written | torn | unwritten | launched | encoded | waited | peered => exact other nofun hsome
  | released => exact absurd hsome nofun
  | plain hst =>
      refine other ?_ hsome
      rintro rfl
      exact absurd hst (by decide)

end

/-! ## The calls after a step -/

section
variable {s : Host} {k j : CallId} {c c' : Call} {rest : List Stage} {w : World} {after : After}

/-- A stage of one call leaves the others where they are. -/
theorem Host.resume_calls_ne (h : j ≠ k) :
    (s.resume k c rest (w, after)).calls j = s.calls j := by
  cases after <;> exact Function.update_of_ne h ..

/-- A call that goes on has its rest ahead, and is over if there is none. -/
theorem Host.resume_goOn_calls :
    (s.resume k c rest (w, .goOn c')).calls k =
      if rest = [] then none else some { c' with todo := rest } :=
  Function.update_self ..

/-- A call that gives up is over, unless it holds an address: then it has the deferred release
ahead, and its child is gone. -/
theorem Host.resume_giveUp_calls :
    (s.resume k c rest (w, .giveUp)).calls k =
      if c.allocatedIP = none then none
      else some { c with child := none, todo := [.releaseIP] } :=
  Function.update_self ..

/-- The calls after a stage: the others, and the call itself, which goes on with the
rest or has its release left. -/
theorem Host.resume_calls {d : Call} (hj : (s.resume k c rest (w, after)).calls j = some d) :
    (j ≠ k ∧ s.calls j = some d) ∨
      j = k ∧ ((∃ c', after = .goOn c' ∧ rest ≠ [] ∧ d = { c' with todo := rest }) ∨
        after = .giveUp ∧ c.allocatedIP ≠ none ∧
          d = { c with child := none, todo := [.releaseIP] }) := by
  rcases eq_or_ne j k with rfl | hne
  · refine .inr ⟨rfl, ?_⟩
    cases after with
    | goOn c' =>
        rw [Host.resume_goOn_calls] at hj
        split_ifs at hj with hrest
        exact .inl ⟨c', rfl, hrest, (Option.some.inj hj).symm⟩
    | giveUp =>
        rw [Host.resume_giveUp_calls] at hj
        split_ifs at hj with hip
        exact .inr ⟨rfl, hip, (Option.some.inj hj).symm⟩
  · rw [Host.resume_calls_ne hne] at hj
    exact .inl ⟨hne, hj⟩

@[simp] theorem Host.resume_dirs : (s.resume k c rest (w, after)).dirs = s.dirs := by
  cases after <;> rfl

@[simp] theorem Host.resume_nextCall : (s.resume k c rest (w, after)).nextCall = s.nextCall := by
  cases after <;> rfl

@[simp] theorem Host.resume_clock : (s.resume k c rest (w, after)).clock = s.clock := by
  cases after <;> rfl

@[simp] theorem World.kill_config (w : World) (p : Option PID) : (w.kill p).config = w.config := by
  cases p <;> rfl

@[simp] theorem World.kill_ipam (w : World) (p : Option PID) : (w.kill p).ipam = w.ipam := by
  cases p <;> rfl

theorem World.kill_procs_ne {w : World} {p : Option PID} {q : PID} (h : p ≠ some q) :
    (w.kill p).procs q = w.procs q := by
  cases p with
  | none => rfl
  | some p =>
      refine Function.update_of_ne ?_ _ _
      rintro rfl
      exact h rfl

theorem World.kill_procs_self (w : World) (p : PID) : (w.kill (some p)).procs p = none :=
  Function.update_self ..

/-- A process after a kill was there before, and is not the one that was killed. -/
theorem World.of_kill_eq_some {w : World} {p : Option PID} {q : PID} {x : Proc}
    (hx : (w.kill p).procs q = some x) : p ≠ some q ∧ w.procs q = some x := by
  by_cases hp : p = some q
  · rw [hp, World.kill_procs_self] at hx
    cases hx
  · rw [World.kill_procs_ne hp] at hx
    exact ⟨hp, hx⟩

/-- The records after a stage are those that the stage has left, also where the call gives up. -/
theorem Host.resume_config :
    (s.resume k c rest (w, after)).world.config = w.config := by
  cases after with
  | goOn c' => rfl
  | giveUp => exact World.kill_config w c.child

theorem Host.resume_ipam : (s.resume k c rest (w, after)).world.ipam = w.ipam := by
  cases after with
  | goOn c' => rfl
  | giveUp => exact World.kill_ipam w c.child

end

/-- The call is between its write of `Running` and its write after the wait. -/
def Call.Up (c : Call) : Prop := UpAt c.fn c.todo

instance (c : Call) : Decidable c.Up := inferInstanceAs (Decidable (UpAt _ _))

/-! ## Well-formed hosts -/

/-- What a running call is.  Its number has been given out and its directory exists; it has its
container's record; what is left of it is the end of its program.  It knows its child between the
launch and the wait, and the child is the process that it has launched.  It has a request of its
own if it is a first launch, and if it holds an address, the release is still ahead. -/
structure Call.WellFormed (s : Host) (k : CallId) (c : Call) : Prop where
  lt : k < s.nextCall
  dir : c.container ∈ s.dirs
  info : c.info.id = c.container
  ne : c.todo ≠ []
  program : c.todo <:+ c.fn.program
  child : c.child.isSome ↔ .launch ∉ c.todo ∧ .wait ∈ c.todo
  proc : ∀ p, c.child = some p →
    ∃ x, s.world.procs p = some x ∧ x.launcher = k ∧ x.container = c.container
  request : c.req.isSome ↔ c.fn = .runContainer ∨ c.fn = .createAndRun
  release : c.allocatedIP.isSome → .releaseIP ∈ c.todo

/-- What every reachable state is.  The last field says that no process is without the call that
launched it; it fails as soon as a call can be cut off, and the modules that admit that use
`Consistent`. -/
structure WellFormed (s : Host) : Prop where
  record : ∀ d r, s.world.config d = some r → r.id = d ∧ d ∈ s.dirs
  call : ∀ k c, s.calls k = some c → c.WellFormed s k
  proc : ∀ p x, s.world.procs p = some x → ∃ c, s.calls x.launcher = some c ∧ c.child = some p

/-- The part of the structure that does not depend on who launched a process. -/
structure Consistent (s : Host) : Prop where
  record : ∀ d r, s.world.config d = some r → r.id = d ∧ d ∈ s.dirs
  call : ∀ k c, s.calls k = some c → c.WellFormed s k

/-- The part that survives when calls are cut off. -/
theorem WellFormed.consistent {s : Host} (wf : WellFormed s) : Consistent s := ⟨wf.record, wf.call⟩

/-- No call is running and there is no container process. -/
structure Idle (s : Host) : Prop where
  record : ∀ d r, s.world.config d = some r → r.id = d ∧ d ∈ s.dirs
  calls : ∀ k, s.calls k = none
  procs : ∀ p, s.world.procs p = none

/-- An idle host has no call to speak of. -/
theorem Idle.nocall {s : Host} (h : Idle s) {k : CallId} {c : Call} (hk : s.calls k = some c) :
    False := by
  rw [h.calls k] at hk
  cases hk

theorem emptyHost_idle : Idle emptyHost := ⟨nofun, fun _ => rfl, fun _ => rfl⟩

theorem stoppedHost_idle : Idle stoppedHost := by
  refine ⟨fun d r hr => ?_, fun _ => rfl, fun _ => rfl⟩
  rcases of_update_eq_some hr with ⟨rfl, hnew⟩ | ⟨-, hold⟩
  · obtain rfl := Option.some.inj hnew
    exact ⟨rfl, List.mem_singleton_self _⟩
  · exact absurd hold nofun

/-- An idle host is well formed: there are no calls and no processes of which anything could be
wrong. -/
theorem Idle.wellFormed {s : Host} (h : Idle s) : WellFormed s where
  record := h.record
  call _ _ hk := (h.nocall hk).elim
  proc p _ hp := absurd (hp.symm.trans (h.procs p)) nofun

section
variable {s : Host}

/-- The calls that were running are still there when one begins. -/
theorem WellFormed.begin_calls_ne {fn : Fn} {info : ContainerInfo} {req : Option RunRequest}
    {k : CallId} (h : k ≠ s.nextCall) : (s.begin fn info req).calls k = s.calls k :=
  Function.update_of_ne h ..

/-- A call after another one has begun is that one, at the beginning of its program, or was
there before. -/
theorem WellFormed.begin_calls {fn : Fn} {info : ContainerInfo} {req : Option RunRequest}
    {k : CallId} {c : Call} (hk : (s.begin fn info req).calls k = some c) :
    (k = s.nextCall ∧ c = ⟨fn, info.id, fn.program, info, req, none, none, ""⟩) ∨
      k ≠ s.nextCall ∧ s.calls k = some c := by
  rcases of_update_eq_some hk with ⟨rfl, hnew⟩ | hold
  · exact .inl ⟨rfl, (Option.some.inj hnew).symm⟩
  · exact .inr hold

end

/-! ### What does not depend on the launchers -/

namespace Consistent

variable {s : Host}

open WellFormed (begin_calls)

theorem of_dirs (hs : Consistent s) {dirs : List ContainerID} (h : ∀ d ∈ s.dirs, d ∈ dirs) :
    Consistent { s with dirs := dirs } where
  record d r hd := ⟨(hs.record d r hd).1, h d (hs.record d r hd).2⟩
  call k c hk :=
    have hc := hs.call k c hk
    ⟨hc.lt, h _ hc.dir, hc.info, hc.ne, hc.program, hc.child, hc.proc, hc.request,
      hc.release⟩

/-- The directory of a new container is there before its call begins. -/
theorem of_fresh (hs : Consistent s) (id : ContainerID) :
    Consistent { s with dirs := s.dirs.orderedInsert (· ≤ ·) id } :=
  hs.of_dirs fun _ hd => (List.mem_orderedInsert _).mpr (.inr hd)

/-- A call may begin on a container that has a directory. -/
theorem begin (hs : Consistent s) {fn : Fn} {info : ContainerInfo} {req : Option RunRequest}
    (hdir : info.id ∈ s.dirs) (hreq : req.isSome ↔ fn = .runContainer ∨ fn = .createAndRun) :
    Consistent (s.begin fn info req) where
  record := hs.record
  call k c hk := by
    rcases begin_calls hk with ⟨rfl, rfl⟩ | ⟨-, hk⟩
    · refine ⟨Nat.lt_succ_self _, hdir, rfl, ?_, List.suffix_rfl, ?_, nofun, hreq, nofun⟩
      · cases fn <;> exact List.cons_ne_nil _ _
      · cases fn <;> simp [Fn.program]
    · have hc := hs.call k c hk
      exact ⟨Nat.lt_succ_of_lt hc.lt, hc.dir, hc.info, hc.ne, hc.program, hc.child, hc.proc,
        hc.request, hc.release⟩

section
variable {k : CallId} {c : Call} {st : Stage} {rest : List Stage} {o : Outcome} {w' : World}
  {after : After}

/-- A stage leaves the processes of other calls alone. -/
theorem procs_other (hs : Consistent s) (hk : s.calls k = some c)
    (hp : Performed s.world s.clock k c st o w' after) {q : PID} {x : Proc}
    (hx : s.world.procs q = some x) (hne : x.launcher ≠ k) :
    (s.resume k c rest (w', after)).world.procs q = some x := by
  have notChild : ∀ p, c.child = some p → q ≠ p := by
    rintro p hchild rfl
    obtain ⟨y, hy, hlauncher, -⟩ := (hs.call k c hk).proc q hchild
    obtain rfl := Option.some.inj (hx.symm.trans hy)
    exact hne hlauncher
  cases hp with
  | allocated | written | torn | unwritten | released | peered | plain => exact hx
  | launched pos free =>
      refine (Function.update_of_ne ?_ ..).trans hx
      rintro rfl
      exact absurd (hx.symm.trans free) nofun
  | encoded child => exact (Function.update_of_ne (notChild _ child) ..).trans hx
  | waited child => exact (Function.update_of_ne (notChild _ child) ..).trans hx
  | gaveUp =>
      refine (World.kill_procs_ne ?_).trans hx
      intro hchild
      exact notChild q hchild rfl

/-- The child that a call has after a stage is its process. -/
theorem child_proc (hs : Consistent s) (hk : s.calls k = some c) {c' : Call}
    (hp : Performed s.world s.clock k c st o w' (.goOn c')) {p : PID}
    (hchild : c'.child = some p) :
    ∃ x, w'.procs p = some x ∧ x.launcher = k ∧ x.container = c.container := by
  have hc := hs.call k c hk
  cases hp with
  | allocated | written | torn | unwritten | released | peered | plain => exact hc.proc p hchild
  | launched pos free =>
      obtain rfl := Option.some.inj hchild
      exact ⟨_, Function.update_self .., rfl, rfl⟩
  | encoded child =>
      obtain rfl := Option.some.inj (child.symm.trans hchild)
      obtain ⟨x, hx, hlauncher, hcontainer⟩ := hc.proc _ child
      refine ⟨{ x with pipe := some c.request }, ?_, hlauncher, hcontainer⟩
      simp [World.setProc, hx]
  | waited => exact absurd hchild nofun

/-- A stage writes the record of its own container only, and under its id. -/
theorem performed_record (hs : Consistent s) (hk : s.calls k = some c)
    (hp : Performed s.world s.clock k c st o w' after) {d : ContainerID} {r : ContainerInfo}
    (hd : w'.config d = some r) : r.id = d ∧ d ∈ s.dirs := by
  have hc := hs.call k c hk
  rcases hp.record_source hd with hold | ⟨wr, -, rfl, rfl, -⟩
  · exact hs.record d r hold
  · exact ⟨(c.record_id s.clock wr).trans hc.info, hc.dir⟩

end

/-- A stage keeps the structure. -/
theorem stage (hs : Consistent s) {k : CallId} {c : Call} {st : Stage} {rest : List Stage}
    {o : Outcome} {w' : World} {after : After} (hk : s.calls k = some c)
    (htodo : c.todo = st :: rest) (hp : Performed s.world s.clock k c st o w' after) :
    Consistent (s.resume k c rest (w', after)) where
  record d r hd := by
    rw [Host.resume_config] at hd
    rw [Host.resume_dirs]
    exact hs.performed_record hk hp hd
  call j d hj := by
    have hc := hs.call k c hk
    have hprog : st :: rest <:+ c.fn.program := htodo ▸ hc.program
    rcases eq_or_ne j k with rfl | hne
    · cases after with
      | giveUp =>
          rw [Host.resume_giveUp_calls] at hj
          split_ifs at hj
          obtain rfl := Option.some.inj hj
          refine ⟨?_, ?_, hc.info, List.cons_ne_nil _ _, ?_, ?_, nofun, hc.request, ?_⟩
          · rw [Host.resume_nextCall]
            exact hc.lt
          · rw [Host.resume_dirs]
            exact hc.dir
          · refine release_last hc.program (hc.release ?_)
            exact Option.isSome_iff_ne_none.mpr (by assumption)
          · simp
          · exact fun _ => List.mem_singleton.mpr rfl
      | goOn c' =>
          rw [Host.resume_goOn_calls] at hj
          split_ifs at hj with hrest
          obtain rfl := Option.some.inj hj
          refine ⟨?_, ?_, ?_, hrest, ?_, ?_, ?_, ?_, ?_⟩
          · rw [Host.resume_nextCall]
            exact hc.lt
          · rw [Host.resume_dirs]
            exact hp.container_eq ▸ hc.dir
          · exact hp.info_id.trans (hc.info.trans hp.container_eq.symm)
          · exact hp.fn_eq ▸ rest_suffix hprog
          · exact hp.child_isSome hprog (htodo ▸ hc.child)
          · intro p hchild
            obtain ⟨x, hx, hlauncher, hcontainer⟩ := hs.child_proc hk hp hchild
            exact ⟨x, hx, hlauncher, hcontainer.trans hp.container_eq.symm⟩
          · rw [hp.req_isSome, hp.fn_eq]
            exact hc.request
          · exact hp.release hprog (htodo ▸ hc.release)
    · rw [Host.resume_calls_ne hne] at hj
      have hd := hs.call j d hj
      refine ⟨?_, ?_, hd.info, hd.ne, hd.program, hd.child, ?_, hd.request, hd.release⟩
      · rw [Host.resume_nextCall]
        exact hd.lt
      · rw [Host.resume_dirs]
        exact hd.dir
      · intro p hchild
        obtain ⟨x, hx, hlauncher, hcontainer⟩ := hd.proc p hchild
        exact ⟨x, hs.procs_other hk hp hx (hlauncher ▸ hne), hlauncher, hcontainer⟩

end Consistent

/-! ### Every process has its call -/

namespace WellFormed

variable {s t : Host}

/-- The container of a process is its launcher's. -/
theorem launcher (wf : WellFormed s) {p : PID} {x : Proc} (hp : s.world.procs p = some x) :
    ∃ c, s.calls x.launcher = some c ∧ c.child = some p ∧ c.container = x.container := by
  obtain ⟨c, hc, hchild⟩ := wf.proc p x hp
  obtain ⟨y, hy, -, hcontainer⟩ := (wf.call _ c hc).proc p hchild
  obtain rfl := Option.some.inj (hp.symm.trans hy)
  exact ⟨c, hc, hchild, hcontainer.symm⟩

/-- A call has one process. -/
theorem proc_inj (wf : WellFormed s) {p q : PID} {x y : Proc} (hp : s.world.procs p = some x)
    (hq : s.world.procs q = some y) (h : x.launcher = y.launcher) : p = q := by
  obtain ⟨c, hc, hchild⟩ := wf.proc p x hp
  obtain ⟨d, hd, hchild'⟩ := wf.proc q y hq
  rw [h] at hc
  obtain rfl := Option.some.inj (hc.symm.trans hd)
  exact Option.some.inj (hchild.symm.trans hchild')

/-- A process has been launched by an earlier call. -/
theorem launcher_ne (wf : WellFormed s) {p : PID} {x : Proc} (hp : s.world.procs p = some x) :
    x.launcher ≠ s.nextCall := by
  obtain ⟨c, hc, -⟩ := wf.proc p x hp
  exact (wf.call _ c hc).lt.ne

/-- The directory of a new container is there before its call begins. -/
theorem of_fresh (wf : WellFormed s) (id : ContainerID) :
    WellFormed { s with dirs := s.dirs.orderedInsert (· ≤ ·) id } :=
  have hs := wf.consistent.of_fresh id
  ⟨hs.record, hs.call, wf.proc⟩

/-- A process keeps its call when another call begins. -/
theorem proc_begin (wf : WellFormed s) (fn : Fn) (info : ContainerInfo) (req : Option RunRequest)
    {p : PID} {x : Proc} (hp : s.world.procs p = some x) :
    ∃ c, (s.begin fn info req).calls x.launcher = some c ∧ c.child = some p := by
  obtain ⟨c, hc, hchild⟩ := wf.proc p x hp
  refine ⟨c, ?_, hchild⟩
  rwa [begin_calls_ne (wf.call _ c hc).lt.ne]

/-! ### A stage -/

section
variable {k : CallId} {c : Call} {st : Stage} {rest : List Stage} {o : Outcome} {w' : World}
  {after : After}

/-- After a stage, a process belongs to another call, as before, or is the child of
the call. -/
theorem procs_inv (wf : WellFormed s) (hk : s.calls k = some c) (htodo : c.todo = st :: rest)
    (hp : Performed s.world s.clock k c st o w' after) {q : PID} {x : Proc}
    (hx : (s.resume k c rest (w', after)).world.procs q = some x) :
    (x.launcher ≠ k ∧ s.world.procs q = some x) ∨
      x.launcher = k ∧ x.container = c.container ∧
        ∃ c', after = .goOn c' ∧ c'.child = some q := by
  have hc := wf.call k c hk
  have old : s.world.procs q = some x → x.launcher = k →
      c.child = some q ∧ x.container = c.container := by
    intro hq hlauncher
    obtain ⟨d, hd, hchild, hcontainer⟩ := wf.launcher hq
    rw [hlauncher] at hd
    obtain rfl := Option.some.inj (hk.symm.trans hd)
    exact ⟨hchild, hcontainer.symm⟩
  have same : ∀ {c' : Call}, s.world.procs q = some x → c'.child = c.child →
      (x.launcher ≠ k ∧ s.world.procs q = some x) ∨ x.launcher = k ∧ x.container = c.container ∧
        ∃ d, After.goOn c' = .goOn d ∧ d.child = some q := by
    intro c' hq hchild
    by_cases hl : x.launcher = k
    · obtain ⟨hself, hcontainer⟩ := old hq hl
      exact .inr ⟨hl, hcontainer, c', rfl, hchild.trans hself⟩
    · exact .inl ⟨hl, hq⟩
  cases hp with
  | allocated | written | torn | unwritten | released | peered | plain => exact same hx rfl
  | launched pos free =>
      rcases of_update_eq_some hx with ⟨rfl, hnew⟩ | ⟨-, hx⟩
      · obtain rfl := Option.some.inj hnew
        exact .inr ⟨rfl, rfl, _, rfl, rfl⟩
      · refine .inl ⟨?_, hx⟩
        intro hl
        -- before its launch a call has no child
        have hnone : ¬ c.child.isSome := by
          rw [hc.child, htodo]
          simp
        exact hnone (by rw [(old hx hl).1]; rfl)
  | encoded child =>
      rcases of_update_eq_some hx with ⟨rfl, hnew⟩ | ⟨-, hx⟩
      · obtain ⟨y, hy, rfl⟩ := Option.map_eq_some_iff.mp hnew
        obtain ⟨z, hz, hlauncher, hcontainer⟩ := hc.proc q child
        obtain rfl := Option.some.inj (hy.symm.trans hz)
        exact .inr ⟨hlauncher, hcontainer, c, rfl, child⟩
      · exact same hx rfl
  | waited child hy dead =>
      obtain ⟨hqp, hx⟩ := of_erase_eq_some hx
      refine .inl ⟨fun hl => ?_, hx⟩
      exact hqp (Option.some.inj ((old hx hl).1.symm.trans child))
  | gaveUp hst ho hconfig =>
      -- the error path kills the child, and nothing else
      obtain ⟨hchild, hx⟩ := World.of_kill_eq_some hx
      exact .inl ⟨fun hl => hchild (old hx hl).1, hx⟩

/-- Every call after a stage was there before. -/
theorem source (hk : s.calls k = some c) (hp : Performed s.world s.clock k c st o w' after)
    {j : CallId} {d : Call} (hj : (s.resume k c rest (w', after)).calls j = some d) :
    ∃ e, s.calls j = some e ∧ d.fn = e.fn ∧ d.container = e.container := by
  rcases Host.resume_calls hj with ⟨-, hold⟩ | ⟨rfl, ⟨c', rfl, -, rfl⟩ | ⟨rfl, -, rfl⟩⟩
  · exact ⟨d, hold, rfl, rfl⟩
  · exact ⟨c, hk, hp.fn_eq, hp.container_eq⟩
  · exact ⟨c, hk, rfl, rfl⟩

/-- A call that is up after a stage was up before, or has just written `Running`. -/
theorem up_source (hk : s.calls k = some c) (htodo : c.todo = st :: rest)
    (hp : Performed s.world s.clock k c st o w' after) {j : CallId} {d : Call}
    (hj : (s.resume k c rest (w', after)).calls j = some d) (hup : d.Up) :
    (j = k ∧ st.setsRunning = true) ∨
      ∃ e, s.calls j = some e ∧ e.Up ∧ e.container = d.container := by
  rcases Host.resume_calls hj with ⟨-, hold⟩ | ⟨rfl, ⟨c', rfl, -, rfl⟩ | ⟨rfl, -, rfl⟩⟩
  · exact .inr ⟨d, hold, hup, rfl⟩
  · cases hst : st.setsRunning with
    | true => exact .inl ⟨rfl, rfl⟩
    | false =>
        refine .inr ⟨c, hk, ?_, hp.container_eq.symm⟩
        have hup : UpAt c'.fn rest := hup
        rw [hp.fn_eq] at hup
        rw [Call.Up, htodo]
        exact upAt_of_rest hup hst
  · obtain ⟨-, -, st, hmem, hfinal⟩ := hup
    obtain rfl := List.mem_singleton.mp hmem
    exact absurd hfinal Bool.false_ne_true

/-- A call after a stage was there before it, on the same container and with the same lasting
data. -/
theorem source_lasting (hk : s.calls k = some c)
    (hp : Performed s.world s.clock k c st o w' after) {j : CallId} {d : Call}
    (hj : (s.resume k c rest (w', after)).calls j = some d) :
    ∃ e, s.calls j = some e ∧ d.container = e.container ∧
      ContainerInfo.lasting d.info = ContainerInfo.lasting e.info := by
  rcases Host.resume_calls hj with ⟨-, hold⟩ | ⟨rfl, ⟨c', rfl, -, rfl⟩ | ⟨rfl, -, rfl⟩⟩
  · exact ⟨d, hold, rfl, rfl⟩
  · exact ⟨c, hk, hp.container_eq, hp.lasting_eq⟩
  · exact ⟨c, hk, rfl, rfl⟩

/-- A process after a stage has just been launched, or was there, and only its pipe
can be another. -/
theorem procs_source (wf : WellFormed s) (hk : s.calls k = some c)
    (hp : Performed s.world s.clock k c st o w' after) {q : PID} {x : Proc}
    (hx : (s.resume k c rest (w', after)).world.procs q = some x) :
    (st = .launch ∧ x = Proc.launched c.container k) ∨
      ∃ y, s.world.procs q = some y ∧ y.launcher = x.launcher ∧ y.todo = x.todo ∧
        y.alive = x.alive ∧ (y.pipe = x.pipe ∨ st = .encode ∧ x.launcher = k) := by
  have same : s.world.procs q = some x → ∃ y, s.world.procs q = some y ∧
      y.launcher = x.launcher ∧ y.todo = x.todo ∧ y.alive = x.alive ∧
        (y.pipe = x.pipe ∨ st = .encode ∧ x.launcher = k) := fun hx =>
    ⟨x, hx, rfl, rfl, rfl, .inl rfl⟩
  cases hp with
  | allocated | written | torn | unwritten | released | peered | plain => exact .inr (same hx)
  | launched =>
      rcases of_update_eq_some hx with ⟨-, hnew⟩ | ⟨-, hold⟩
      · exact .inl ⟨rfl, (Option.some.inj hnew).symm⟩
      · exact .inr (same hold)
  | encoded child =>
      rcases of_update_eq_some hx with ⟨rfl, hnew⟩ | ⟨-, hold⟩
      · obtain ⟨y, hy, rfl⟩ := Option.map_eq_some_iff.mp hnew
        obtain ⟨z, hz, hlauncher, -⟩ := (wf.call k c hk).proc q child
        obtain rfl := Option.some.inj (hy.symm.trans hz)
        exact .inr ⟨y, hy, rfl, rfl, rfl, .inr ⟨rfl, hlauncher⟩⟩
      · exact .inr (same hold)
  | waited =>
      obtain ⟨-, hold⟩ := of_erase_eq_some hx
      exact .inr (same hold)
  | gaveUp =>
      obtain ⟨-, hold⟩ := World.of_kill_eq_some hx
      exact .inr (same hold)

end

/-- A process after a stage has its call. -/
theorem proc_stage (wf : WellFormed s) {k : CallId} {c : Call} {st : Stage} {rest : List Stage}
    {o : Outcome} {w' : World} {after : After} (hk : s.calls k = some c)
    (htodo : c.todo = st :: rest) (hp : Performed s.world s.clock k c st o w' after)
    {p : PID} {x : Proc} (hx : (s.resume k c rest (w', after)).world.procs p = some x) :
    ∃ d, (s.resume k c rest (w', after)).calls x.launcher = some d ∧ d.child = some p := by
  have hprog : st :: rest <:+ c.fn.program := htodo ▸ (wf.call k c hk).program
  rcases wf.procs_inv hk htodo hp hx with ⟨hne, hold⟩ | ⟨hl, -, c', rfl, hchild⟩
  · obtain ⟨d, hd, hchild⟩ := wf.proc p x hold
    exact ⟨d, by rwa [Host.resume_calls_ne hne], hchild⟩
  · refine ⟨{ c' with todo := rest }, ?_, hchild⟩
    have hsome := hp.child_isSome hprog (htodo ▸ (wf.call k c hk).child)
    have hwait : .wait ∈ rest := (hsome.mp (by rw [hchild]; rfl)).2
    rw [hl, Host.resume_goOn_calls, if_neg (List.ne_nil_of_mem hwait)]

end WellFormed

/-! ## All steps -/

/-- The same process at another point of its life. -/
structure Proc.Same (x y : Proc) : Prop where
  container : y.container = x.container
  launcher : y.launcher = x.launcher
  pipe : y.pipe = x.pipe
  alive : y.alive → x.alive

/-- What a step of `InitContainer` or an exit does: nothing but move a process on. -/
structure Moved (w w' : World) : Prop where
  config : w'.config = w.config
  ipam : w'.ipam = w.ipam
  back : ∀ q y, w'.procs q = some y → ∃ x, w.procs q = some x ∧ x.Same y
  forth : ∀ q x, w.procs q = some x → ∃ y, w'.procs q = some y ∧ x.Same y

/-- A step of one process, as a change of the world in which nothing else moves. -/
theorem Moved.of_update {w w' : World} {p : PID} {x y : Proc} (hp : w.procs p = some x)
    (hxy : x.Same y) (hprocs : w'.procs = Function.update w.procs p (some y))
    (hconfig : w'.config = w.config) (hipam : w'.ipam = w.ipam) : Moved w w' where
  config := hconfig
  ipam := hipam
  back q z hz := by
    rw [hprocs] at hz
    rcases of_update_eq_some hz with ⟨rfl, hnew⟩ | ⟨-, hold⟩
    · obtain rfl := Option.some.inj hnew
      exact ⟨x, hp, hxy⟩
    · exact ⟨z, hold, rfl, rfl, rfl, id⟩
  forth q z hz := by
    rw [hprocs]
    rcases eq_or_ne q p with rfl | hne
    · obtain rfl := Option.some.inj (hp.symm.trans hz)
      exact ⟨y, Function.update_self .., hxy⟩
    · exact ⟨z, (Function.update_of_ne hne ..).trans hz, rfl, rfl, rfl, id⟩

/-- A process that ends stays in the table, as dead, and leaves its cgroup. -/
theorem moved_exit {w : World} {p : PID} {x : Proc} (hp : w.procs p = some x) :
    Moved w (w.exit p) := by
  refine .of_update (y := { x with alive := false }) hp ⟨rfl, rfl, rfl, nofun⟩ ?_ rfl rfl
  rw [World.exit, hp]
  rfl

/-- A step of a process: it ends, or it goes on, and its first step needs the request. -/
inductive Own (w : World) : Event → World → Prop where
  | ended {e : Event} {p : PID} {x : Proc} (hx : w.procs p = some x) : Own w e (w.exit p)
  | next {p : PID} {o : Outcome} {x : Proc} {todo : List InitStage} (hx : w.procs p = some x)
      (sent : x.todo.head? = some .decode → x.pipe.isSome = true ∧ o = .ok) :
      Own w (.init p o) (w.setProc p (some { x with todo := todo }))

/-- The steps of a process change neither records nor addresses. -/
theorem Own.moved {w w' : World} {e : Event} (h : Own w e w') : Moved w w' := by
  cases h with
  | ended hx => exact moved_exit hx
  | @next p o x todo hx =>
      exact .of_update (y := { x with todo := todo }) hx ⟨rfl, rfl, rfl, id⟩ rfl rfl rfl

/-- A step of `InitContainer` is a step of its own process. -/
theorem initStep_own {w w' : World} {p : PID} {o : Outcome} (h : initStep w p o = some w') :
    Own w (.init p o) w' := by
  obtain ⟨x, hp, h⟩ := Option.bind_eq_some_iff.mp h
  have sent : x.todo.head? = some .decode → x.pipe.isSome = true := by
    intro hdecode
    obtain ⟨rest, htodo⟩ := List.head?_eq_some_iff.mp hdecode
    cases hpipe : x.pipe with
    | some req => rfl
    | none => simp [htodo, hpipe] at h
  split at h
  · split at h
    · obtain rfl := Option.some.inj h
      exact .next hp fun hdecode => ⟨sent hdecode, rfl⟩
    · exact absurd h nofun
    · obtain rfl := Option.some.inj h
      split_ifs
      · exact .ended hp
      · exact .next hp fun hdecode => ⟨sent hdecode, rfl⟩
    · next htodo _ =>
        obtain rfl := Option.some.inj h
        exact .next hp fun hdecode => absurd (htodo ▸ hdecode) nofun
    · obtain rfl := Option.some.inj h
      exact .next hp fun hdecode => ⟨sent hdecode, rfl⟩
    · obtain rfl := Option.some.inj h
      exact .ended hp
    · exact absurd h nofun
  · exact absurd h nofun

/-- What a step of the host can do. -/
inductive Stepped (s : Host) : Event → Host → Prop where
  | ran {req : RunRequest} {id : ContainerID} (fresh : id ∉ s.dirs) :
      Stepped s (.runContainer req id) (s.runContainer req id)
  | createdAndRan {req : RunRequest} {id : ContainerID} (fresh : id ∉ s.dirs) :
      Stepped s (.createAndRun req id) (s.createAndRun req id)
  | starting {identifier : String} {skip : List ContainerID} {info : ContainerInfo}
      (found : s.startable skip identifier = some info) :
      Stepped s (.start identifier skip) (s.begin .start info none)
  | stopping {identifier : String} {skip : List ContainerID} {info : ContainerInfo}
      (found : s.running skip identifier = some info) :
      Stepped s (.stopContainer identifier skip) (s.begin .stopContainer info none)
  | adjusting {identifier : String} {limits : ContainerLimits} {skip : List ContainerID}
      {info : ContainerInfo} (found : s.running skip identifier = some info) :
      Stepped s (.adjustResourceLimits identifier limits skip)
        (s.begin .adjustResourceLimits { info with limits := mergeLimits info.limits limits } none)
  | refused {e : Event} : Stepped s e s
  | staged {k : CallId} {o : Outcome} {c : Call} {st : Stage} {rest : List Stage} {w : World}
      {after : After} (call : s.calls k = some c) (todo : c.todo = st :: rest)
      (performed : perform s.world s.clock k c st o = some (w, after)) :
      Stepped s (.step k o) (s.resume k c rest (w, after))
  | moved {e : Event} {w : World} (moved : Moved s.world w) (own : Own s.world e w) :
      Stepped s e { s with world := w }
  | ticked {now : Time} : Stepped s (.tick now) { s with clock := now }

/-- **What a step of the host is**, for all properties that follow: a call begins, a call takes
a stage, a process moves, the clock moves, or nothing happens. -/
theorem Host.stepped {s t : Host} {e : Event} (h : s.step e = some t) : Stepped s e t := by
  cases e with
  | runContainer req id =>
      simp only [Host.step] at h
      split_ifs at h with hid
      obtain rfl := Option.some.inj h
      exact .ran hid
  | createAndRun req id =>
      simp only [Host.step] at h
      split_ifs at h with hid
      obtain rfl := Option.some.inj h
      exact .createdAndRan hid
  | start identifier skip =>
      simp only [Host.step] at h
      split at h
      · obtain rfl := Option.some.inj h
        exact .refused
      · next info found =>
          obtain rfl := Option.some.inj h
          exact .starting found
  | stopContainer identifier skip =>
      simp only [Host.step] at h
      split at h
      · obtain rfl := Option.some.inj h
        exact .refused
      · next info found =>
          obtain rfl := Option.some.inj h
          exact .stopping found
  | adjustResourceLimits identifier limits skip =>
      simp only [Host.step] at h
      split at h
      · obtain rfl := Option.some.inj h
        exact .refused
      · next info found =>
          obtain rfl := Option.some.inj h
          exact .adjusting found
  | step k o =>
      obtain ⟨c, hk, h⟩ := Option.bind_eq_some_iff.mp h
      split at h
      · exact absurd h nofun
      · next st rest htodo =>
          obtain ⟨⟨w, after⟩, hp, rfl⟩ := Option.map_eq_some_iff.mp h
          exact .staged hk htodo hp
  | init p o =>
      obtain ⟨w, hw, rfl⟩ := Option.map_eq_some_iff.mp h
      exact .moved (initStep_own hw).moved (initStep_own hw)
  | exit p =>
      simp only [Host.step] at h
      split_ifs at h with halive
      obtain rfl := Option.some.inj h
      obtain ⟨x, hx, -⟩ := (Option.any_eq_true _ _).mp halive
      exact .moved (moved_exit hx) (.ended hx)
  | tick now =>
      obtain rfl := Option.some.inj h
      exact .ticked

/-! ### The records that calls begin with -/

/-- A search finds a record that is there, under the id that it names. -/
theorem Consistent.found {s : Host} (hs : Consistent s) {skip : List ContainerID}
    {identifier : String} {info : ContainerInfo}
    (h : s.findContainerInfo skip identifier = some info) :
    s.world.config info.id = some info ∧ info.id ∈ s.dirs := by
  obtain ⟨d, -, hd⟩ := List.exists_of_findSome?_eq_some h
  split_ifs at hd
  have hconfig := (Option.filter_eq_some_iff.mp hd).1
  obtain ⟨hid, hdir⟩ := hs.record d info hconfig
  rw [hid]
  exact ⟨hconfig, hdir⟩

/-- `Start` goes on with a record that says `Stopped` or `Created`. -/
theorem Consistent.startable {s : Host} (hs : Consistent s) {skip : List ContainerID}
    {identifier : String} {info : ContainerInfo} (h : s.startable skip identifier = some info) :
    s.world.config info.id = some info ∧ info.id ∈ s.dirs ∧
      (info.status = .stopped ∨ info.status = .created) := by
  obtain ⟨hfound, hstatus⟩ := Option.filter_eq_some_iff.mp h
  obtain ⟨hconfig, hdir⟩ := hs.found hfound
  exact ⟨hconfig, hdir, by simpa using hstatus⟩

/-- `StopContainer` and `AdjustResourceLimits` go on with one that says `Running`. -/
theorem Consistent.running {s : Host} (hs : Consistent s) {skip : List ContainerID}
    {identifier : String} {info : ContainerInfo} (h : s.running skip identifier = some info) :
    s.world.config info.id = some info ∧ info.id ∈ s.dirs ∧ info.status = .running := by
  obtain ⟨hfound, hstatus⟩ := Option.filter_eq_some_iff.mp h
  obtain ⟨hconfig, hdir⟩ := hs.found hfound
  exact ⟨hconfig, hdir, by simpa using hstatus⟩

/-- What processes do of themselves keeps the host consistent. -/
theorem Consistent.moved {s : Host} (hs : Consistent s) {w : World} (hw : Moved s.world w) :
    Consistent { s with world := w } where
  record d r hd := hs.record d r (hw.config ▸ hd)
  call k c hk := by
    have hc := hs.call k c hk
    refine ⟨hc.lt, hc.dir, hc.info, hc.ne, hc.program, hc.child, ?_, hc.request, hc.release⟩
    intro p hchild
    obtain ⟨x, hx, hlauncher, hcontainer⟩ := hc.proc p hchild
    obtain ⟨y, hy, hxy⟩ := hw.forth p x hx
    exact ⟨y, hy, hxy.launcher.trans hlauncher, hxy.container.trans hcontainer⟩

/-- **Every step keeps the host consistent.**  It is `WellFormed` without its last field, so it
also holds where calls are cut off between their stages. -/
theorem Consistent.step {s t : Host} {e : Event} (hs : Consistent s) (h : s.step e = some t) :
    Consistent t := by
  cases Host.stepped h with
  | ran fresh =>
      refine (hs.of_fresh _).begin ?_ ?_
      · exact (List.mem_orderedInsert _).mpr (.inl rfl)
      · simp
  | createdAndRan fresh =>
      refine (hs.of_fresh _).begin ?_ ?_
      · exact (List.mem_orderedInsert _).mpr (.inl rfl)
      · simp
  | starting found => exact hs.begin (hs.startable found).2.1 (by simp)
  | stopping found => exact hs.begin (hs.running found).2.1 (by simp)
  | adjusting found =>
      exact hs.begin (show _ ∈ s.dirs from (hs.running found).2.1) (by simp)
  | refused => exact hs
  | staged call todo performed => exact hs.stage call todo (perform_performed performed)
  | moved moved => exact hs.moved moved
  | ticked =>
      refine ⟨hs.record, fun k c hk => ?_⟩
      have hc := hs.call k c hk
      exact ⟨hc.lt, hc.dir, hc.info, hc.ne, hc.program, hc.child, hc.proc, hc.request, hc.release⟩

/-- **The structure of every state.** -/
theorem WellFormed.step {s t : Host} {e : Event} (wf : WellFormed s) (h : s.step e = some t) :
    WellFormed t := by
  have ht := wf.consistent.step h
  refine ⟨ht.record, ht.call, ?_⟩
  cases Host.stepped h with
  | ran fresh => exact fun p x => (wf.of_fresh _).proc_begin _ _ _
  | createdAndRan fresh => exact fun p x => (wf.of_fresh _).proc_begin _ _ _
  | starting found => exact fun p x => wf.proc_begin _ _ _
  | stopping found => exact fun p x => wf.proc_begin _ _ _
  | adjusting found => exact fun p x => wf.proc_begin _ _ _
  | refused => exact wf.proc
  | staged call todo performed =>
      exact fun p x => wf.proc_stage call todo (perform_performed performed)
  | moved moved =>
      intro p y hy
      obtain ⟨x, hx, hxy⟩ := moved.back p y hy
      obtain ⟨c, hc, hchild⟩ := wf.proc p x hx
      exact ⟨c, hxy.launcher ▸ hc, hchild⟩
  | ticked => exact wf.proc

end Gocker.Container
