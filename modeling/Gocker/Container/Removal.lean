import Gocker.Container.Frame
import Gocker.Container.Ownership

/-!
# Removing a container

`removeContainer` (`internal/remove.go`) among the other operations: it reads the record,
refuses one that says `Running`, and removes the cgroup and the directory.  The two halves
are two steps.

It does not release the address.  The address goes with the call that holds it, so it stays
in the allocator when that call is cut off, or when its release fails; `lost` keeps account of
these containers, and no step reads it.  The account is kept from what happens to the calls,
not from the allocator: a call that is cut off puts its container on it, and so does a failed
release, and a release that works takes the container off.

Two things can go wrong with a container on the account.

* The container is removed, and its address stays.  `address_outlives` is the run in which a
  `gocker run` is killed after its first record and the container is removed.
* Its record is gone or cannot be read.  Then neither `StopContainer` nor `Start` finds the
  container any more, and these are the only ones that would release the address.
  `address_stranded` is the run in which a `gocker run` is killed before its first record.

`Traced` is the condition that neither happens, and `Kept` the invariant that it keeps: an
entry of the allocator is that of a call that has its release ahead, or of a container with a
readable record; and what is left of a removed container is nothing.
-/

namespace Gocker.Container

open Machine Network

/-! ## The steps -/

/-- A `removeContainer` that has passed its check, with the record that it has read. -/
structure Removal where
  container : ContainerID
  info : ContainerInfo
deriving DecidableEq, Repr

/-- The system with the removals that are under way, and with what has become of containers and
addresses so far. -/
structure Installation where
  system : System
  removals : ℕ → Option Removal
  nextRemoval : ℕ
  /-- the containers that have been removed -/
  removed : List ContainerID
  /-- the containers whose address is left in the allocator -/
  lost : ContainerID → Bool

/-- An act of the system, the check of a `removeContainer`, or the rest of it. -/
inductive Act where
  | system (a : Happening)
  | remove (id : ContainerID)
  | finish (x : ℕ) (o : Outcome)

/-- There are processes in the cgroup. -/
def Cgroups.Busy (gs : Cgroups) (name : String) : Prop := ∃ g ∈ gs name, g.procs ≠ []

instance (gs : Cgroups) (name : String) : Decidable (gs.Busy name) := by
  unfold Cgroups.Busy
  infer_instance

/-- The removals of the cgroup and of the directory.  The first fails if there are processes;
one that fails later has removed the cgroup, and then maybe the record.  The name of the
directory stays among the `dirs`: no search finds anything under it, and no id comes
twice. -/
def World.removed (w : World) (r : Removal) (o : Outcome) : Option World :=
  let cgroups := w.cgroups.cleanup r.info.id
  let config := Function.update w.config r.container none
  match o with
  | .fails 0 => some w
  | .fails 1 => if w.cgroups.Busy r.info.id then none else some { w with cgroups := cgroups }
  | .ok | .fails _ =>
      if w.cgroups.Busy r.info.id then none
      else some { w with cgroups := cgroups, config := config }
  | _ => none

namespace Installation

/-- A record cannot be written where there is no directory. -/
def Writable (s : Installation) : Happening → Prop
  | .host (.step k o) =>
      ∀ c ∈ s.system.host.calls k, c.container ∈ s.removed →
        (∃ st ∈ c.todo.head?, st.isWrite = true) → o = .fails 0
  | _ => True

instance (s : Installation) (a : Happening) : Decidable (s.Writable a) := by
  unfold Writable
  split <;> infer_instance

/-- The containers on the account after a step.  A release that works takes its container
off; one that fails puts it on, if the call held the address; and so does the end of a call
that holds one. -/
def lostAfter (s : Installation) : Happening → ContainerID → Bool
  | .host (.step k o) =>
      match s.system.host.calls k with
      | some c =>
          if c.todo.head? = some .releaseIP then
            Function.update s.lost c.container
              (decide (o ≠ .ok) && (s.lost c.container || c.allocatedIP.isSome))
          else s.lost
      | none => s.lost
  | .crash ks _ => fun d =>
      s.lost d || decide (∃ k ∈ ks, ∃ c ∈ s.system.host.calls k,
        c.container = d ∧ c.allocatedIP ≠ none)
  | _ => s.lost

/-- Nothing but the world changes. -/
def setWorld (s : Installation) (w : World) : Installation :=
  { s with system := { s.system with host := { s.system.host with world := w } } }

/-- One step.  A removal reads the record and keeps it; a removal of a container without a
record, or of one that runs, is over at once. -/
def step (s : Installation) : Act → Option Installation
  | .system a =>
      if s.Writable a then
        (s.system.step a).map fun system => { s with system := system, lost := s.lostAfter a }
      else none
  | .remove id =>
      match s.system.host.world.config id with
      | some info =>
          if info.status = .running then some s
          else some { s with
            removals := Function.update s.removals s.nextRemoval (some ⟨id, info⟩)
            nextRemoval := s.nextRemoval + 1 }
      | none => some s
  | .finish x o =>
      (s.removals x).bind fun r =>
        (s.system.host.world.removed r o).map fun w =>
          { s.setWorld w with
            removals := Function.update s.removals x none
            removed := if o = .ok then r.container :: s.removed else s.removed }

end Installation

/-- A call holds an address of the container. -/
def Host.Held (s : Host) (d : ContainerID) : Prop :=
  ∃ k c, s.calls k = some c ∧ c.container = d ∧ c.allocatedIP ≠ none

/-- The call holds an address or is going to allocate one. -/
def Call.Claims (c : Call) : Prop := .allocateIP ∈ c.todo ∨ c.allocatedIP ≠ none

instance (c : Call) : Decidable c.Claims := inferInstanceAs (Decidable (_ ∨ _))

/-- There is a readable record of the container. -/
def Readable (s : Installation) (d : ContainerID) : Prop :=
  (s.system.host.world.config d).isSome

instance (s : Installation) (d : ContainerID) : Decidable (Readable s d) :=
  inferInstanceAs (Decidable (_ = true))

/-- Addresses can be traced to a record.

* A call that holds an address is killed, or fails to release it, only while the record of its
  container can be read.
* No write leaves the record of a container on the account unreadable, unless the call holds
  the address itself.
* No removal takes away the record of a container on the account, and where it succeeds, no
  call claims an address of the container. -/
def Traced (s : Installation) : Act → Prop
  | .system (.host (.step k o)) =>
      ∀ c ∈ s.system.host.calls k,
        (c.todo.head? = some .releaseIP → o ≠ .ok → c.allocatedIP ≠ none →
          Readable s c.container) ∧
        ((∃ st ∈ c.todo.head?, st.isWrite = true) → o ≠ .ok → o ≠ .fails 0 →
          s.lost c.container = true → c.allocatedIP ≠ none)
  | .system (.crash ks _) =>
      ∀ k ∈ ks, ∀ c ∈ s.system.host.calls k, c.allocatedIP ≠ none → Readable s c.container
  | .finish x o =>
      ∀ r ∈ s.removals x,
        (o ≠ .fails 0 → o ≠ .fails 1 → s.lost r.container = false) ∧
        (o = .ok → ∀ k < s.system.host.nextCall, ∀ c ∈ s.system.host.calls k,
          c.container = r.container → ¬ c.Claims)
  | _ => True

instance (s : Installation) (a : Act) : Decidable (Traced s a) := by
  unfold Traced
  split <;> infer_instance

/-! ## What a removal leaves -/

/-- A removal touches no address and no process, and takes away the one record, unless it fails
before that. -/
theorem World.of_removed {w w' : World} {r : Removal} {o : Outcome}
    (h : w.removed r o = some w') :
    w'.ipam = w.ipam ∧ w'.procs = w.procs ∧
      (w'.config = w.config ∧ o ≠ .ok ∨
        (o ≠ .fails 0 ∧ o ≠ .fails 1) ∧
          w'.config = Function.update w.config r.container none) := by
  unfold World.removed at h
  split at h
  · cases h
    exact ⟨rfl, rfl, .inl ⟨rfl, nofun⟩⟩
  · split_ifs at h
    cases h
    exact ⟨rfl, rfl, .inl ⟨rfl, nofun⟩⟩
  · split_ifs at h
    cases h
    exact ⟨rfl, rfl, .inr ⟨⟨nofun, nofun⟩, rfl⟩⟩
  · next h0 h1 =>
      split_ifs at h
      cases h
      exact ⟨rfl, rfl, .inr ⟨⟨fun h => h0 (Outcome.fails.inj h),
        fun h => h1 (Outcome.fails.inj h)⟩, rfl⟩⟩
  · cases h

section
variable {w w' : World} {r : Removal} {o : Outcome}

/-- A removal takes away a record at most. -/
theorem World.config_of_removed (h : w.removed r o = some w') {d : ContainerID}
    {info : ContainerInfo} (hd : w'.config d = some info) : w.config d = some info := by
  obtain ⟨-, -, ⟨hconfig, -⟩ | ⟨-, hconfig⟩⟩ := World.of_removed h
  · rwa [hconfig] at hd
  · rw [hconfig] at hd
    exact (of_erase_eq_some hd).2

theorem World.unrecorded_of_removed (h : w.removed r o = some w') {d : ContainerID}
    (hd : w.config d = none) : w'.config d = none := by
  apply Option.eq_none_iff_forall_ne_some.mpr
  intro info hinfo
  rw [World.config_of_removed h hinfo] at hd
  cases hd

theorem World.config_removed_ok (h : w.removed r .ok = some w') :
    w'.config r.container = none := by
  obtain ⟨-, -, ⟨-, hok⟩ | ⟨-, hconfig⟩⟩ := World.of_removed h
  · exact absurd rfl hok
  · rw [hconfig, Function.update_self]

theorem Consistent.of_removed {s : Host} (hs : Consistent s) (h : s.world.removed r o = some w) :
    Consistent { s with world := w } where
  record d info hd := hs.record d info (World.config_of_removed h hd)
  call k c hk := by
    obtain ⟨-, hprocs, -⟩ := World.of_removed h
    have hc := hs.call k c hk
    refine ⟨hc.lt, hc.dir, hc.info, hc.ne, hc.program, hc.child, ?_, hc.request, hc.release⟩
    intro p hchild
    obtain ⟨x, hx, hlive⟩ := hc.proc p hchild
    exact ⟨x, (congrFun hprocs p).trans hx, hlive⟩

theorem Coherent.of_removed {s : Host} (hs : Coherent s) (h : s.world.removed r o = some w) :
    Coherent { s with world := w } :=
  ⟨fun d info hd => hs.record d info (World.config_of_removed h hd), hs.copy, hs.child, hs.target⟩

end

namespace Installation

variable {s t : Installation}

/-- A step is one of the system, or reads a record, or removes what it has found. -/
inductive Stepped (s : Installation) : Act → Installation → Prop where
  | moved {a : Happening} {system : System} (writable : s.Writable a)
      (he : s.system.step a = some system) :
      Stepped s (.system a) { s with system := system, lost := s.lostAfter a }
  | read {id : ContainerID} {info : ContainerInfo}
      (record : s.system.host.world.config id = some info) :
      Stepped s (.remove id)
        { s with
          removals := Function.update s.removals s.nextRemoval (some ⟨id, info⟩)
          nextRemoval := s.nextRemoval + 1 }
  | refused {a : Act} : Stepped s a s
  | finished {x : ℕ} {o : Outcome} {r : Removal} {w : World} (removal : s.removals x = some r)
      (hw : s.system.host.world.removed r o = some w) :
      Stepped s (.finish x o)
        { s.setWorld w with
          removals := Function.update s.removals x none
          removed := if o = .ok then r.container :: s.removed else s.removed }

/-- **What a step of the installation is**, for the proofs that follow. -/
theorem stepped {a : Act} (h : s.step a = some t) : Stepped s a t := by
  cases a with
  | system a =>
      simp only [step] at h
      split_ifs at h with hwritable
      obtain ⟨system, he, rfl⟩ := Option.map_eq_some_iff.mp h
      exact .moved hwritable he
  | remove id =>
      simp only [step] at h
      split at h
      · next info record =>
          split_ifs at h
          · cases h
            exact .refused
          · cases h
            exact .read record
      · cases h
        exact .refused
  | finish x o =>
      obtain ⟨r, hr, h⟩ := Option.bind_eq_some_iff.mp h
      obtain ⟨w, hw, rfl⟩ := Option.map_eq_some_iff.mp h
      exact .finished hr hw

/-! ## Who answers for an entry -/

/-- An entry of the allocator is that of a call that holds it, or its container is on the
account. -/
def Answered (s : Installation) : Prop :=
  ∀ d, s.system.host.world.ipam.lookup d ≠ none → s.lost d = true ∨ s.system.host.Held d

/-- A container on the account has a readable record, or a call holds its address. -/
def Findable (s : Installation) : Prop :=
  ∀ d, s.lost d = true → Readable s d ∨ s.system.host.Held d

/-- What a removed container has left: nothing that could bring an entry back. -/
structure Gone (s : System) (d : ContainerID) : Prop where
  address : s.host.world.ipam.lookup d = none
  record : s.host.world.config d = none
  dir : d ∈ s.host.dirs
  calls : ∀ k c, s.host.calls k = some c → c.container = d → ¬ c.Claims

end Installation

section
variable {s : Host} {k : CallId} {c : Call} {st : Stage} {rest : List Stage} {o : Outcome}
  {w' : World} {after : After}

/-- A call that holds an address after a stage still has its release to come. -/
theorem Consistent.goOn_holds (hs : Consistent s) (hk : s.calls k = some c)
    (htodo : c.todo = st :: rest) {c' : Call}
    (hp : Performed s.world s.clock k c st o w' (.goOn c')) (hip : c'.allocatedIP ≠ none) :
    ∃ e, (s.resume k c rest (w', .goOn c')).calls k = some e ∧ e.container = c.container ∧
      e.allocatedIP ≠ none := by
  have hc := hs.call k c hk
  have hrelease : .releaseIP ∈ rest :=
    hp.release (htodo ▸ hc.program) (htodo ▸ hc.release) (Option.isSome_iff_ne_none.mpr hip)
  rw [Host.resume_goOn_calls, if_neg (List.ne_nil_of_mem hrelease)]
  exact ⟨_, rfl, hp.container_eq, hip⟩

/-- A call keeps its address at every stage but the release. -/
theorem Consistent.stage_holds (hs : Consistent s) (hk : s.calls k = some c)
    (htodo : c.todo = st :: rest) (hst : st ≠ .releaseIP)
    (hp : Performed s.world s.clock k c st o w' after) (hip : c.allocatedIP ≠ none) :
    ∃ e, (s.resume k c rest (w', after)).calls k = some e ∧ e.container = c.container ∧
      e.allocatedIP ≠ none := by
  cases after with
  | giveUp =>
      rw [Host.resume_giveUp_calls, if_neg hip]
      exact ⟨_, rfl, rfl, hip⟩
  | goOn c' =>
      refine hs.goOn_holds hk htodo hp ?_
      cases hp with
      | allocated => nofun
      | released => exact absurd rfl hst
      | written | torn | unwritten | launched | encoded | waited | peered | plain => exact hip

/-- An address is held over a stage, if this is not a release of the container. -/
theorem Host.Held.stage (hs : Consistent s) {d : ContainerID} (h : s.Held d)
    (hk : s.calls k = some c) (htodo : c.todo = st :: rest)
    (hp : Performed s.world s.clock k c st o w' after) (hst : c.container = d → st ≠ .releaseIP) :
    (s.resume k c rest (w', after)).Held d := by
  obtain ⟨j, e, hj, rfl, hip⟩ := h
  rcases eq_or_ne j k with rfl | hne
  · obtain rfl := Option.some.inj (hk.symm.trans hj)
    exact ⟨j, hs.stage_holds hk htodo (hst rfl) hp hip⟩
  · exact ⟨j, e, (Host.resume_calls_ne hne).trans hj, rfl, hip⟩

/-- Over a release of the container the address is held by the other calls that hold it. -/
theorem Host.Held.release {d : ContainerID} (h : s.Held d) (hk : s.calls k = some c) :
    c.allocatedIP ≠ none ∨ (s.resume k c rest (w', after)).Held d := by
  obtain ⟨j, e, hj, rfl, hip⟩ := h
  rcases eq_or_ne j k with rfl | hne
  · obtain rfl := Option.some.inj (hk.symm.trans hj)
    exact .inl hip
  · exact .inr ⟨j, e, (Host.resume_calls_ne hne).trans hj, rfl, hip⟩

/-- A record can be read after a stage, if it could before and the stage is no write of the
container that tears it. -/
theorem Performed.recorded {w : World} {now : Time} (h : Performed w now k c st o w' after)
    {d : ContainerID} (hd : (w.config d).isSome)
    (hwrite : c.container = d → st.isWrite = true → o ≠ .ok → o = .fails 0) :
    (w'.config d).isSome := by
  by_cases hc : c.container = d
  · cases h with
    | written =>
        rw [← hc]
        simp
    | torn ho hn => exact absurd (hwrite hc rfl ho) hn
    | gaveUp hst ho hconfig =>
        rcases hconfig with rfl | ⟨⟨wr, rfl, ho, hn⟩, -⟩
        · exact hd
        · exact absurd (hwrite hc rfl ho) hn
    | allocated | unwritten | launched | encoded | waited | released | peered | plain => exact hd
  · rw [h.config_others (Ne.symm hc)]
    exact hd

end

namespace Installation

variable {s t : Installation}

theorem lostAfter_release {k : CallId} {c : Call} {o : Outcome}
    (hk : s.system.host.calls k = some c) (hhead : c.todo.head? = some .releaseIP) :
    s.lostAfter (.host (.step k o)) = Function.update s.lost c.container
      (decide (o ≠ .ok) && (s.lost c.container || c.allocatedIP.isSome)) := by
  simp only [lostAfter, hk, hhead, if_true]

theorem lostAfter_stage {k : CallId} {c : Call} {o : Outcome}
    (hk : s.system.host.calls k = some c) (hhead : c.todo.head? ≠ some .releaseIP) :
    s.lostAfter (.host (.step k o)) = s.lost := by
  simp only [lostAfter, hk, hhead, if_false]

/-- Nothing comes on the account by a step that is neither a stage nor a crash. -/
theorem lostAfter_other {a : Happening} (hstage : ¬ ∃ k o, a = .host (.step k o))
    (hcrash : ¬ ∃ ks xs, a = .crash ks xs) : s.lostAfter a = s.lost := by
  cases a with
  | host e =>
      cases e with
      | step k o => exact absurd ⟨k, o, rfl⟩ hstage
      | runContainer | createAndRun | start | stopContainer | adjustResourceLimits | init | exit
      | tick => rfl
  | crash ks xs => exact absurd ⟨ks, xs, rfl⟩ hcrash
  | reap | appear | vanish | exec | check | enter => rfl

/-- A crash puts the containers on it whose calls it has cut off while they held an address. -/
theorem lostAfter_crash {ks : List CallId} (xs : List ℕ) {d : ContainerID} :
    s.lostAfter (.crash ks xs) d = true ↔ s.lost d = true ∨
      ∃ k ∈ ks, ∃ c, s.system.host.calls k = some c ∧ c.container = d ∧ c.allocatedIP ≠ none := by
  simp [lostAfter, Option.mem_def]

section
variable {k : CallId} {c : Call} {st : Stage} {rest : List Stage} {o : Outcome} {w' : World}
  {after : After}

/-- A release that works takes the entry away; one that fails puts its container on the account
or leaves the entry to another call. -/
theorem Answered.release (h : s.Answered) (hk : s.system.host.calls k = some c)
    (htodo : c.todo = .releaseIP :: rest)
    (hp : perform s.system.host.world s.system.host.clock k c .releaseIP o = some (w', after))
    {d : ContainerID} (hd : w'.ipam.lookup d ≠ none) :
    s.lostAfter (.host (.step k o)) d = true ∨
      (s.system.host.resume k c rest (w', after)).Held d := by
  have hne : ∀ e, c.container ≠ d → s.system.host.Held e → e = d →
      (s.system.host.resume k c rest (w', after)).Held d := by
    rintro e hcd ⟨j, f, hj, rfl, hip⟩ rfl
    refine ⟨j, f, (Host.resume_calls_ne ?_).trans hj, rfl, hip⟩
    rintro rfl
    obtain rfl := Option.some.inj (hk.symm.trans hj)
    exact hcd rfl
  rw [lostAfter_release hk (by rw [htodo]; rfl)]
  by_cases hcd : c.container = d
  · subst hcd
    cases o with
    | ok =>
        cases hp
        exact absurd (Finmap.lookup_erase _ _) hd
    | fails n =>
        cases hp
        rw [Function.update_self]
        rcases h _ hd with hlost | hheld
        · exact .inl (by simp [hlost])
        · refine (hheld.release hk).imp_left fun hip => ?_
          simp [Option.isSome_iff_ne_none.mpr hip]
    | garbled | child => cases hp
  · rw [Function.update_of_ne (Ne.symm hcd)]
    rw [(perform_performed hp).ipam_others (Ne.symm hcd)] at hd
    exact (h d hd).imp_right fun hheld => hne d hcd hheld rfl

/-- A stage that takes an entry away, or the call that answers for it, puts the container on
the account. -/
theorem Answered.stage (hs : Consistent s.system.host) (h : s.Answered)
    (hk : s.system.host.calls k = some c) (htodo : c.todo = st :: rest)
    (hp : perform s.system.host.world s.system.host.clock k c st o = some (w', after))
    {d : ContainerID} (hd : w'.ipam.lookup d ≠ none) :
    s.lostAfter (.host (.step k o)) d = true ∨
      (s.system.host.resume k c rest (w', after)).Held d := by
  by_cases hst : st = .releaseIP
  · subst hst
    exact h.release hk htodo hp hd
  · have hperf := perform_performed hp
    rw [lostAfter_stage hk (by simpa [htodo] using hst)]
    have answered : s.system.host.world.ipam.lookup d ≠ none → s.lost d = true ∨
        (s.system.host.resume k c rest (w', after)).Held d := fun hd =>
      (h d hd).imp_right fun hheld => hheld.stage hs hk htodo hperf fun _ => hst
    cases hperf with
    | allocated own kept others =>
        rcases eq_or_ne d c.container with rfl | hne
        · exact .inr ⟨k, hs.goOn_holds hk htodo (perform_performed hp) (by nofun)⟩
        · refine answered ?_
          rw [← others d hne]
          exact hd
    | released => exact absurd rfl hst
    | written | torn | unwritten | launched | encoded | waited | peered | plain | gaveUp =>
        exact answered hd

/-- The record of a container on the account stays, or the call that tears it holds the
address. -/
theorem Findable.stage (hs : Consistent s.system.host) (h : s.Findable)
    (hk : s.system.host.calls k = some c) (htodo : c.todo = st :: rest)
    (hp : Performed s.system.host.world s.system.host.clock k c st o w' after)
    (hC : Traced s (.system (.host (.step k o)))) {d : ContainerID}
    (hd : s.lostAfter (.host (.step k o)) d = true) :
    (w'.config d).isSome ∨ (s.system.host.resume k c rest (w', after)).Held d := by
  obtain ⟨hrelease, htear⟩ := hC c hk
  by_cases hst : st = .releaseIP
  · subst hst
    have hhead : c.todo.head? = some .releaseIP := by
      rw [htodo]
      rfl
    have kept : Readable s d → (w'.config d).isSome := fun hr =>
      hp.recorded hr fun _ hw => by cases hw
    rw [lostAfter_release hk hhead] at hd
    by_cases hcd : c.container = d
    · subst hcd
      rw [Function.update_self, Bool.and_eq_true, decide_eq_true_eq, Bool.or_eq_true] at hd
      obtain ⟨ho, hlost⟩ := hd
      have held : c.allocatedIP ≠ none → (w'.config c.container).isSome := fun hip =>
        kept (hrelease hhead ho hip)
      rcases hlost with hlost | hip
      · rcases h _ hlost with hr | hheld
        · exact .inl (kept hr)
        · exact (hheld.release hk).imp_left held
      · exact .inl (held (Option.isSome_iff_ne_none.mp hip))
    · rw [Function.update_of_ne (Ne.symm hcd)] at hd
      rcases h d hd with hr | hheld
      · exact .inl (kept hr)
      · exact .inr (hheld.stage hs hk htodo hp fun heq => absurd heq hcd)
  · rw [lostAfter_stage hk (by simpa [htodo] using hst)] at hd
    rcases h d hd with hr | hheld
    · by_cases hwrite : c.container = d → st.isWrite = true → o ≠ .ok → o = .fails 0
      · exact .inl (hp.recorded hr hwrite)
      · simp only [not_forall] at hwrite
        obtain ⟨rfl, hw, ho, hn⟩ := hwrite
        have hip := htear ⟨st, by rw [htodo]; rfl, hw⟩ ho hn hd
        exact .inr ⟨k, hs.stage_holds hk htodo hst hp hip⟩
    · exact .inr (hheld.stage hs hk htodo hp fun _ => hst)

end

/-- Where no call moves, everybody holds what he held. -/
theorem held_unmoved (hs : Consistent s.system.host) {a : Happening}
    (hstage : ¬ ∃ k o, a = .host (.step k o)) (hcrash : ¬ ∃ ks xs, a = .crash ks xs)
    {system : System} (he : s.system.step a = some system) {d : ContainerID}
    (h : s.system.host.Held d) : system.host.Held d := by
  obtain ⟨j, e, hj, hd, hip⟩ := h
  have hun : Unmoved j d s.system.host system.host := by
    refine System.unmoved (hs.call j e hj).lt ?_ ?_ he
    · cases a with
      | host e =>
          intro ko hko
          cases e with
          | step k o => exact absurd ⟨k, o, rfl⟩ hstage
          | runContainer | createAndRun | start | stopContainer | adjustResourceLimits | init
          | exit | tick => cases hko
      | crash ks xs => exact absurd ⟨ks, xs, rfl⟩ hcrash
      | reap | appear | vanish | exec | check | enter => trivial
    · rintro o rfl
      exact hstage ⟨j, o, rfl⟩
  exact ⟨j, e, hun.call.trans hj, hd, hip⟩

/-- No entry and no record changes where no call moves. -/
theorem world_unmoved {a : Happening} (hstage : ¬ ∃ k o, a = .host (.step k o)) {s t : System}
    (he : s.step a = some t) :
    t.host.world.ipam = s.host.world.ipam ∧ t.host.world.config = s.host.world.config := by
  cases System.stepped he with
  | hosted free hstep =>
      cases Host.stepped hstep with
      | staged => exact absurd ⟨_, _, rfl⟩ hstage
      | moved moved => exact ⟨moved.ipam, moved.config⟩
      | ran | createdAndRan | starting | stopping | adjusting | refused | ticked =>
          exact ⟨rfl, rfl⟩
  | crashed | reaped | appeared | vanished | begun | checked | ended | unchanged =>
      exact ⟨rfl, rfl⟩

/-- The call that holds an address is cut off, or it goes on. -/
theorem held_crash {ks : List CallId} {xs : List ℕ} {d : ContainerID} (h : s.system.host.Held d) :
    (∃ k ∈ ks, ∃ c, s.system.host.calls k = some c ∧ c.container = d ∧ c.allocatedIP ≠ none) ∨
      (s.system.cutOff ks xs).host.Held d := by
  obtain ⟨j, e, hj, hd, hip⟩ := h
  by_cases hmem : j ∈ ks
  · exact .inl ⟨j, hmem, e, hj, hd, hip⟩
  · exact .inr ⟨j, e, (if_neg hmem).trans hj, hd, hip⟩

/-- Every step of the system keeps the entries answered for. -/
theorem Answered.moved (hs : Consistent s.system.host) (h : s.Answered) {a : Happening}
    {system : System} (he : s.system.step a = some system) :
    Answered { s with system := system, lost := s.lostAfter a } := by
  intro d hd
  have hd : system.host.world.ipam.lookup d ≠ none := hd
  show s.lostAfter a d = true ∨ system.host.Held d
  by_cases hstage : ∃ k o, a = .host (.step k o)
  · obtain ⟨k, o, rfl⟩ := hstage
    obtain ⟨c, st, rest, w, after, hk, htodo, hp, hhost⟩ :=
      Host.step_stage (System.step_host he)
    rw [hhost, Host.resume_ipam] at hd
    rw [hhost]
    exact h.stage hs hk htodo hp hd
  · rw [(world_unmoved hstage he).1] at hd
    by_cases hcrash : ∃ ks xs, a = .crash ks xs
    · obtain ⟨ks, xs, rfl⟩ := hcrash
      cases he
      rw [lostAfter_crash xs, or_assoc]
      exact (h d hd).imp_right held_crash
    · rw [lostAfter_other hstage hcrash]
      exact (h d hd).imp_right (held_unmoved hs hstage hcrash he)

/-- And the containers on the account findable, if the addresses can be traced. -/
theorem Findable.moved (hs : Consistent s.system.host) (h : s.Findable) {a : Happening}
    (hC : Traced s (.system a)) {system : System} (he : s.system.step a = some system) :
    Findable { s with system := system, lost := s.lostAfter a } := by
  intro d hd
  have hd : s.lostAfter a d = true := hd
  show (system.host.world.config d).isSome ∨ system.host.Held d
  by_cases hstage : ∃ k o, a = .host (.step k o)
  · obtain ⟨k, o, rfl⟩ := hstage
    obtain ⟨c, st, rest, w, after, hk, htodo, hp, hhost⟩ :=
      Host.step_stage (System.step_host he)
    rw [hhost, Host.resume_config]
    exact h.stage hs hk htodo (perform_performed hp) hC hd
  · rw [(world_unmoved hstage he).2]
    by_cases hcrash : ∃ ks xs, a = .crash ks xs
    · obtain ⟨ks, xs, rfl⟩ := hcrash
      cases he
      have cut : (∃ k ∈ ks, ∃ c, s.system.host.calls k = some c ∧ c.container = d ∧
          c.allocatedIP ≠ none) → Readable s d := by
        rintro ⟨k, hk, c, hc, rfl, hip⟩
        exact hC k hk c hc hip
      rcases (lostAfter_crash xs).mp hd with hlost | hcut
      · rcases h d hlost with hr | hheld
        · exact .inl hr
        · exact (held_crash hheld).imp_left cut
      · exact .inl (cut hcut)
    · rw [lostAfter_other hstage hcrash] at hd
      exact (h d hd).imp_right (held_unmoved hs hstage hcrash he)

/-! ## A removed container stays removed -/

theorem Gone.begin {s : System} {d : ContainerID} (h : Gone s d) {fn : Fn} {info : ContainerInfo}
    {req : Option RunRequest} (hne : info.id ≠ d) :
    Gone { s with host := s.host.begin fn info req } d where
  address := h.address
  record := h.record
  dir := h.dir
  calls k c hk hd := by
    rcases WellFormed.begin_calls hk with ⟨-, rfl⟩ | ⟨-, hold⟩
    · exact absurd hd hne
    · exact h.calls k c hold hd

section
variable {c : Call} {st : Stage} {o : Outcome} {w w' : World} {now : Time} {k : CallId}
  {after : After} {d : ContainerID}

/-- No stage but an allocation of the container itself gives it an entry. -/
theorem unallocated_performed (hp : Performed w now k c st o w' after)
    (hst : c.container = d → st ≠ .allocateIP) (h : w.ipam.lookup d = none) :
    w'.ipam.lookup d = none := by
  by_cases hd : c.container = d
  · cases hp with
    | allocated => exact absurd rfl (hst hd)
    | released hm =>
        rcases hm with rfl | rfl
        · exact h
        · rw [hd]
          exact Finmap.lookup_erase ..
    | written | torn | unwritten | launched | encoded | waited | peered | plain | gaveUp =>
        exact h
  · rw [hp.ipam_others (Ne.symm hd)]
    exact h

/-- No stage but a write of the container itself that changes the file gives it a record. -/
theorem unrecorded_performed (hp : Performed w now k c st o w' after)
    (hwrite : c.container = d → st.isWrite = true → o = .fails 0) (h : w.config d = none) :
    w'.config d = none := by
  by_cases hd : c.container = d
  · cases hp with
    | written => exact absurd (hwrite hd rfl) nofun
    | torn ho hn => exact absurd (hwrite hd rfl) hn
    | gaveUp hst ho hconfig =>
        rcases hconfig with rfl | ⟨⟨wr, rfl, -, hn⟩, -⟩
        · exact h
        · exact absurd (hwrite hd rfl) hn
    | allocated | unwritten | launched | encoded | waited | released | peered | plain => exact h
  · rw [hp.config_others (Ne.symm hd)]
    exact h

end

/-- A call of a removed container claims no address, and cannot write its record. -/
theorem Gone.stage {s : System} {d : ContainerID} (h : Gone s d) {k : CallId} {c : Call}
    {st : Stage} {rest : List Stage} {o : Outcome} {w' : World} {after : After}
    (hk : s.host.calls k = some c) (htodo : c.todo = st :: rest)
    (hp : Performed s.host.world s.host.clock k c st o w' after)
    (hwrite : c.container = d → st.isWrite = true → o = .fails 0) :
    Gone { s with host := s.host.resume k c rest (w', after) } d := by
  have claims : c.container = d → .allocateIP ∉ st :: rest ∧ c.allocatedIP = none := by
    intro hd
    have hnot := h.calls k c hk hd
    rw [Call.Claims, not_or, not_not, htodo] at hnot
    exact hnot
  refine ⟨?_, ?_, ?_, ?_⟩
  · show (s.host.resume k c rest (w', after)).world.ipam.lookup d = none
    rw [Host.resume_ipam]
    refine unallocated_performed hp (fun hd hst => ?_) h.address
    exact (claims hd).1 (hst ▸ List.mem_cons_self)
  · show (s.host.resume k c rest (w', after)).world.config d = none
    rw [Host.resume_config]
    exact unrecorded_performed hp hwrite h.record
  · show d ∈ (s.host.resume k c rest (w', after)).dirs
    rw [Host.resume_dirs]
    exact h.dir
  · intro j e hj hd
    rcases Host.resume_calls hj with ⟨-, hold⟩ | ⟨rfl, ⟨c', rfl, -, rfl⟩ | ⟨rfl, hip, rfl⟩⟩
    · exact h.calls j e hold hd
    · have hd : c.container = d := hp.container_eq.symm.trans hd
      obtain ⟨hnot, hip⟩ := claims hd
      have hnone : c'.allocatedIP = none := by
        cases hp with
        | allocated => exact absurd List.mem_cons_self hnot
        | released => rfl
        | written | torn | unwritten | launched | encoded | waited | peered | plain => exact hip
      rintro (hmem | hip')
      · exact hnot (List.mem_cons_of_mem _ hmem)
      · exact hip' hnone
    · exact absurd (claims hd).2 hip

/-- A removed container stays removed: no search finds it, and its id is not given out again. -/
theorem Gone.moved (hs : Consistent s.system.host) {d : ContainerID} (h : Gone s.system d)
    (hd : d ∈ s.removed) {a : Happening} (hw : s.Writable a) {system : System}
    (he : s.system.step a = some system) : Gone system d := by
  have hne : ∀ {id : ContainerID}, id ∉ s.system.host.dirs → id ≠ d := by
    rintro id hid rfl
    exact hid h.dir
  have recorded : ∀ {info : ContainerInfo}, s.system.host.world.config info.id = some info →
      info.id ≠ d := by
    intro info hr heq
    rw [heq, h.record] at hr
    cases hr
  have inserted : ∀ id, Gone { s.system with
      host := { s.system.host with dirs := s.system.host.dirs.orderedInsert (· ≤ ·) id } } d :=
    fun id => ⟨h.address, h.record, (List.mem_orderedInsert _).mpr (.inr h.dir), h.calls⟩
  cases System.stepped he with
  | @hosted e host free hstep =>
      cases Host.stepped hstep with
      | ran fresh => exact (inserted _).begin (hne fresh)
      | createdAndRan fresh => exact (inserted _).begin (hne fresh)
      | starting found => exact h.begin (recorded (hs.startable found).1)
      | stopping found => exact h.begin (recorded (hs.running found).1)
      | adjusting found =>
          have hrecord := recorded (hs.running found).1
          exact h.begin hrecord
      | refused => exact h
      | @staged k o c st rest w after call todo performed =>
          refine h.stage call todo (perform_performed performed) fun hcontainer hst => ?_
          exact hw c call (hcontainer ▸ hd) ⟨st, by rw [todo]; rfl, hst⟩
      | moved moved =>
          have haddress := congrArg (Finmap.lookup d) moved.ipam
          exact ⟨haddress.trans h.address, (congrFun moved.config d).trans h.record, h.dir, h.calls⟩
      | ticked => exact ⟨h.address, h.record, h.dir, h.calls⟩
  | crashed ks xs => exact ⟨h.address, h.record, h.dir, fun k c hk => h.calls k c (of_cutOff hk)⟩
  | reaped | appeared | vanished | begun | checked | ended | unchanged =>
      exact ⟨h.address, h.record, h.dir, h.calls⟩

theorem Gone.of_removed {d : ContainerID} (h : Gone s.system d) {r : Removal} {o : Outcome}
    {w : World} (hw : s.system.host.world.removed r o = some w) : Gone (s.setWorld w).system d where
  address := (congrArg (Finmap.lookup d) (World.of_removed hw).1).trans h.address
  record := World.unrecorded_of_removed hw h.record
  dir := h.dir
  calls := h.calls

/-- The container of a removal that succeeds is gone, if nobody answers for an entry of it:
then it has none. -/
theorem Answered.gone_of_removed (hs : Consistent s.system.host) (h : s.Answered) {x : ℕ}
    {r : Removal} (hC : Traced s (.finish x .ok)) (hr : s.removals x = some r)
    (hdir : r.container ∈ s.system.host.dirs) {w : World}
    (hw : s.system.host.world.removed r .ok = some w) :
    Gone (s.setWorld w).system r.container := by
  have hlost := (hC r hr).1 nofun nofun
  have hclaims := (hC r hr).2 rfl
  have hnone : s.system.host.world.ipam.lookup r.container = none := by
    by_contra hentry
    rcases h _ hentry with hl | ⟨j, e, hj, hcontainer, hip⟩
    · rw [hlost] at hl
      cases hl
    · exact hclaims j (hs.call j e hj).lt e hj hcontainer (.inr hip)
  exact
    { address := (congrArg (Finmap.lookup _) (World.of_removed hw).1).trans hnone
      record := World.config_removed_ok hw
      dir := hdir
      calls := fun k c hk hd => hclaims k (hs.call k c hk).lt c hk hd }

/-! ## All runs -/

/-- What every state keeps. -/
structure Kept (s : Installation) : Prop where
  consistent : Consistent s.system.host
  coherent : Coherent s.system.host
  answered : s.Answered
  findable : s.Findable
  pending : ∀ x r, s.removals x = some r → r.container ∈ s.system.host.dirs
  gone : ∀ d ∈ s.removed, Gone s.system d
  /-- there are numbers left for processes -/
  room : ∃ n, ∀ p, n ≤ p → s.system.host.world.procs p = none

theorem dirs_moved {a : Happening} {s t : System} (he : s.step a = some t) {d : ContainerID}
    (hd : d ∈ s.host.dirs) : d ∈ t.host.dirs := by
  cases System.stepped he with
  | hosted free hstep => exact Host.dirs_step hstep hd
  | crashed | reaped | appeared | vanished | begun | checked | ended | unchanged => exact hd

/-- A step adds one process at most, so that there are numbers left. -/
theorem room_moved {a : Happening} {s t : System} (he : s.step a = some t)
    (h : ∃ n, ∀ p, n ≤ p → s.host.world.procs p = none) :
    ∃ n, ∀ p, n ≤ p → t.host.world.procs p = none := by
  obtain ⟨n, hn⟩ := h
  -- a number that is taken was taken before, or has just been given to a process
  have room : ∀ m, (∀ p x, t.host.world.procs p = some x → p < m ∨ s.host.world.procs p ≠ none) →
      ∃ n, ∀ p, n ≤ p → t.host.world.procs p = none := by
    intro m hm
    refine ⟨max n m, fun p hp => Option.eq_none_iff_forall_ne_some.mpr fun x hx => ?_⟩
    rcases hm p x hx with hlt | hold
    · exact absurd ((le_max_right n m).trans hp) (Nat.not_le.mpr hlt)
    · exact hold (hn p ((le_max_left n m).trans hp))
  cases System.stepped he with
  | hosted free hstep =>
      cases Host.stepped hstep with
      | ran | createdAndRan | starting | stopping | adjusting | refused | ticked => exact ⟨n, hn⟩
      | @staged k o c st rest w after call todo performed =>
          have source : ∀ p x, (s.host.resume k c rest (w, after)).world.procs p = some x →
              o = .child p ∨ s.host.world.procs p ≠ none := by
            intro p x hx
            rcases (perform_performed performed).launcher_source hx with ⟨-, ho⟩ | ⟨y, hy, -⟩
            · exact .inl ho
            · exact .inr (by simp [hy])
          cases o with
          | child q =>
              refine room (q + 1) fun p x hx => (source p x hx).imp_left fun ho => ?_
              obtain rfl := Outcome.child.inj ho
              exact Nat.lt_succ_self q
          | ok | garbled | fails =>
              exact room 0 fun p x hx => .inr ((source p x hx).resolve_left nofun)
      | moved moved =>
          refine room 0 fun p y hy => .inr ?_
          obtain ⟨x, hx, -⟩ := moved.back p y hy
          simp [hx]
  | reaped =>
      refine room 0 fun p y hy => .inr ?_
      obtain ⟨-, hold⟩ := of_erase_eq_some hy
      simp [hold]
  | crashed | appeared | vanished | begun | checked | ended | unchanged => exact ⟨n, hn⟩

/-- **The invariant is kept** by every step in which the addresses can be traced. -/
theorem Kept.step {a : Act} (h : s.Kept) (hC : Traced s a) (he : s.step a = some t) : t.Kept := by
  obtain ⟨hs, hcoherent, hanswered, hfindable, hpending, hgone, hroom⟩ := h
  cases stepped he with
  | refused => exact ⟨hs, hcoherent, hanswered, hfindable, hpending, hgone, hroom⟩
  | moved writable hstep =>
      refine ⟨System.consistent_step hs hstep, System.coherent_step hs hcoherent hstep,
        hanswered.moved hs hstep, hfindable.moved hs hC hstep, ?_, ?_, room_moved hstep hroom⟩
      · exact fun x r hr => dirs_moved hstep (hpending x r hr)
      · exact fun d hd => (hgone d hd).moved hs hd writable hstep
  | read record =>
      refine ⟨hs, hcoherent, hanswered, hfindable, fun x r hr => ?_, hgone, hroom⟩
      rcases of_update_eq_some hr with ⟨-, hnew⟩ | ⟨-, hold⟩
      · obtain rfl := Option.some.inj hnew
        exact (hs.record _ _ record).2
      · exact hpending x r hold
  | @finished x o r w removal hw =>
      obtain ⟨hipam, hprocs, hconfig⟩ := World.of_removed hw
      refine ⟨hs.of_removed hw, hcoherent.of_removed hw, ?_, ?_, ?_, ?_, ?_⟩
      · intro d hd
        have hd : w.ipam.lookup d ≠ none := hd
        rw [hipam] at hd
        exact hanswered d hd
      · intro d hd
        have hd : s.lost d = true := hd
        refine (hfindable d hd).imp_left fun hr => ?_
        show (w.config d).isSome
        rcases hconfig with ⟨hsame, -⟩ | ⟨⟨h0, h1⟩, htaken⟩
        · rw [hsame]
          exact hr
        · -- the container whose record is taken away is not on the account
          have hnot := (hC r removal).1 h0 h1
          rw [htaken, Function.update_of_ne]
          · exact hr
          · rintro rfl
            rw [hnot] at hd
            cases hd
      · intro y r' hr'
        obtain ⟨-, hold⟩ := of_erase_eq_some hr'
        exact hpending y r' hold
      · intro d hd
        have hd : d ∈ if o = .ok then r.container :: s.removed else s.removed := hd
        split_ifs at hd with ho
        · subst ho
          rcases List.mem_cons.mp hd with rfl | hd
          · exact hanswered.gone_of_removed hs hC removal (hpending x r removal) hw
          · exact (hgone d hd).of_removed hw
        · exact (hgone d hd).of_removed hw
      · obtain ⟨n, hn⟩ := hroom
        exact ⟨n, fun p hp => (congrFun hprocs p).trans (hn p hp)⟩

/-- Nothing is running, nothing has been removed, the records are coherent, and the containers
with an address in the allocator are on the account and have a record. -/
structure Starting (s : Installation) : Prop where
  system : System.Starting s.system
  removals : ∀ x, s.removals x = none
  removed : s.removed = []
  lost : ∀ d, s.system.host.world.ipam.lookup d ≠ none → s.lost d = true
  found : ∀ d, s.lost d = true → Readable s d

theorem Starting.kept (h : s.Starting) : s.Kept where
  consistent := h.system.idle.wellFormed.consistent
  coherent := h.system.coherent
  answered d hd := .inl (h.lost d hd)
  findable d hd := .inl (h.found d hd)
  pending x r hr := by
    rw [h.removals x] at hr
    cases hr
  gone d hd := by
    rw [h.removed] at hd
    cases hd
  room := ⟨0, fun p _ => h.system.idle.procs p⟩

/-- The invariant, in every run in which the addresses can be traced. -/
theorem Starting.kept_of_reaches (hs : s.Starting) (h : Reaches step Traced s t) : t.Kept :=
  h.invariant (I := Kept) hs.kept fun _ _ _ hs hC he => hs.step hC he

/-- A host without containers. -/
def emptyInstallation : Installation where
  system := System.emptySystem
  removals _ := none
  nextRemoval := 0
  removed := []
  lost _ := false

theorem emptyInstallation_starting : Starting emptyInstallation where
  system := System.emptySystem_starting
  removals _ := rfl
  removed := rfl
  lost _ hd := absurd rfl hd
  found _ hd := by cases hd

end Installation

end Gocker.Container
