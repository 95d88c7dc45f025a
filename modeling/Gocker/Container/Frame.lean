import Gocker.Container.Crash

/-!
# What a call leaves alone

A stage of a call touches the record and the address of its own container, and its own
process.  `Unmoved` says this from the side of a container: a step that is not one of its
calls' stages leaves its record, its address and the processes of a given call as they were.

The claims about one execution of a function, `address_given_back`, `failed_start_iff` and
`failed_launch_iff`, follow a call through a run in which everything else goes on.  They split
the run into the call's own stages, where they use `Performed`, and the rest, where they use
`Unmoved`.  The condition on the rest (`System.Beside`) is that the other calls are on other
containers, and that the process that serves the call lives.
-/

namespace Gocker.Container

open Machine Network

/-! ## Stages -/

section
variable {s : Host} {w w' : World} {now : Time} {k : CallId} {c : Call} {st : Stage} {o : Outcome}
  {rest : List Stage} {after : After}

theorem Performed.config_others (h : Performed w now k c st o w' after) {d : ContainerID}
    (hd : d ≠ c.container) : w'.config d = w.config d := by
  cases h with
  | written | torn => exact Function.update_of_ne hd ..
  | gaveUp hst ho hconfig =>
      rcases hconfig with rfl | ⟨-, rfl⟩
      · rfl
      · exact Function.update_of_ne hd ..
  | allocated | unwritten | launched | encoded | waited | released | peered | plain => rfl

theorem Performed.ipam_others (h : Performed w now k c st o w' after) {d : ContainerID}
    (hd : d ≠ c.container) : w'.ipam.lookup d = w.ipam.lookup d := by
  cases h with
  | allocated own kept others => exact others d hd
  | released hm =>
      rcases hm with rfl | rfl
      · rfl
      · exact Finmap.lookup_erase_ne hd
  | written | torn | unwritten | launched | encoded | waited | peered | plain | gaveUp => rfl

/-- A process after a stage is the one that the call has launched, or it was there. -/
theorem Performed.launcher_source (h : Performed s.world s.clock k c st o w' after) {q : PID}
    {x : Proc} (hx : (s.resume k c rest (w', after)).world.procs q = some x) :
    x.launcher = k ∧ o = .child q ∨ ∃ y, s.world.procs q = some y ∧ y.launcher = x.launcher := by
  cases h with
  | allocated | written | torn | unwritten | released | peered | plain => exact .inr ⟨x, hx, rfl⟩
  | launched =>
      rcases of_update_eq_some hx with ⟨rfl, hnew⟩ | ⟨-, hold⟩
      · obtain rfl := Option.some.inj hnew
        exact .inl ⟨rfl, rfl⟩
      · exact .inr ⟨x, hold, rfl⟩
  | encoded =>
      rcases of_update_eq_some hx with ⟨rfl, hnew⟩ | ⟨-, hold⟩
      · obtain ⟨y, hy, rfl⟩ := Option.map_eq_some_iff.mp hnew
        exact .inr ⟨y, hy, rfl⟩
      · exact .inr ⟨x, hold, rfl⟩
  | waited =>
      obtain ⟨-, hold⟩ := of_erase_eq_some hx
      exact .inr ⟨x, hold, rfl⟩
  | gaveUp =>
      obtain ⟨-, hold⟩ := World.of_kill_eq_some hx
      exact .inr ⟨x, hold, rfl⟩

end

/-- A stage of a call, and the host after it. -/
theorem Host.step_stage {s t : Host} {k : CallId} {o : Outcome}
    (he : s.step (.step k o) = some t) :
    ∃ c st rest w after, s.calls k = some c ∧ c.todo = st :: rest ∧
      perform s.world s.clock k c st o = some (w, after) ∧ t = s.resume k c rest (w, after) := by
  obtain ⟨c, hk, he⟩ := Option.bind_eq_some_iff.mp he
  split at he
  · cases he
  · next st rest htodo =>
      obtain ⟨⟨w, after⟩, hp, rfl⟩ := Option.map_eq_some_iff.mp he
      exact ⟨c, st, rest, w, after, hk, htodo, hp, rfl⟩

/-! ## Steps -/

/-- A step of the host changes an entry only as a stage of a call of the container. -/
theorem Host.entry_step {s t : Host} {e : Event} {d : ContainerID} (he : s.step e = some t)
    (hd : ∀ ko ∈ e.stage, ∀ c ∈ s.calls ko.1, c.container ≠ d) :
    t.world.ipam.lookup d = s.world.ipam.lookup d := by
  cases Host.stepped he with
  | ran | createdAndRan | starting | stopping | adjusting | refused | ticked => rfl
  | moved moved =>
      show Finmap.lookup d (World.ipam _) = _
      rw [moved.ipam]
  | staged call todo performed =>
      rw [Host.resume_ipam]
      exact (perform_performed performed).ipam_others (hd _ rfl _ call).symm

/-- The same record, address and call, and no new process of the call. -/
structure Unmoved (k : CallId) (d : ContainerID) (s t : Host) : Prop where
  next : s.nextCall ≤ t.nextCall
  call : t.calls k = s.calls k
  config : t.world.config d = s.world.config d
  address : t.world.ipam.lookup d = s.world.ipam.lookup d
  procs : ∀ p x, t.world.procs p = some x → x.launcher = k →
    ∃ y, s.world.procs p = some y ∧ y.launcher = k

/-- Nothing has moved where nothing has happened. -/
theorem Unmoved.refl (k : CallId) (d : ContainerID) (s : Host) : Unmoved k d s s :=
  ⟨le_rfl, rfl, rfl, rfl, fun _ x hx hl => ⟨x, hx, hl⟩⟩

/-- What two stretches of a run have each left alone, both together have. -/
theorem Unmoved.trans {k : CallId} {d : ContainerID} {s t u : Host} (h : Unmoved k d s t)
    (h' : Unmoved k d t u) : Unmoved k d s u where
  next := h.next.trans h'.next
  call := h'.call.trans h.call
  config := h'.config.trans h.config
  address := h'.address.trans h.address
  procs p x hx hl := by
    obtain ⟨y, hy, hyl⟩ := h'.procs p x hx hl
    exact h.procs p y hy hyl

/-- Of the calls on the container, only this one moves. -/
def OnlyCall (k : CallId) (d : ContainerID) (s : Host) (e : Event) : Prop :=
  ∀ ko ∈ e.stage, ko.1 = k ∨ ∀ c ∈ s.calls ko.1, c.container ≠ d

instance (k : CallId) (d : ContainerID) (s : Host) (e : Event) : Decidable (OnlyCall k d s e) := by
  unfold OnlyCall
  infer_instance

/-- An event that is no stage of a call of the container leaves it alone. -/
theorem Host.unmoved {s t : Host} {k : CallId} {d : ContainerID} {e : Event} (hk : k < s.nextCall)
    (hC : OnlyCall k d s e) (hnot : ∀ o, e ≠ .step k o) (he : s.step e = some t) :
    Unmoved k d s t := by
  have procs : ∀ p x, s.world.procs p = some x → x.launcher = k →
      ∃ y, s.world.procs p = some y ∧ y.launcher = k := fun p x hx hl => ⟨x, hx, hl⟩
  cases Host.stepped he with
  | ran | createdAndRan | starting | stopping | adjusting =>
      exact ⟨Nat.le_succ _, WellFormed.begin_calls_ne hk.ne, rfl, rfl, procs⟩
  | refused | ticked => exact ⟨le_rfl, rfl, rfl, rfl, procs⟩
  | moved moved =>
      refine ⟨le_rfl, rfl, congrFun moved.config d, congrArg (Finmap.lookup d) moved.ipam, ?_⟩
      intro p y hy hl
      obtain ⟨x, hx, hxy⟩ := moved.back p y hy
      exact ⟨x, hx, hxy.launcher.symm.trans hl⟩
  | @staged j o c st rest w after call todo performed =>
      have hp := perform_performed performed
      have hjk : k ≠ j := by
        rintro rfl
        exact hnot o rfl
      have hd : d ≠ c.container := by
        rcases hC _ rfl with rfl | hother
        · exact absurd rfl hjk
        · exact (hother c call).symm
      refine ⟨Host.resume_nextCall.ge, Host.resume_calls_ne hjk, ?_, ?_, ?_⟩
      · rw [Host.resume_config]
        exact hp.config_others hd
      · rw [Host.resume_ipam]
        exact hp.ipam_others hd
      · intro p x hx hl
        rcases hp.launcher_source hx with ⟨rfl, -⟩ | ⟨y, hy, hyl⟩
        · exact absurd hl.symm hjk
        · exact ⟨y, hy, hyl.trans hl⟩

namespace System

/-- Only the call `k` moves on the container, and the process that serves it lives. -/
def Beside (k : CallId) (d : ContainerID) (s : System) : Happening → Prop
  | .host e => OnlyCall k d s.host e
  | .crash ks _ => k ∉ ks
  | _ => True

instance (k : CallId) (d : ContainerID) (s : System) (a : Happening) :
    Decidable (Beside k d s a) := by
  cases a <;> unfold Beside <;> infer_instance

variable {s t : System} {k : CallId} {d : ContainerID} {a : Happening}

/-- **What happens beside a call leaves its container alone**: stages of other containers'
calls, crashes that spare it, other processes, and execs. -/
theorem unmoved (hk : k < s.host.nextCall) (hC : Beside k d s a)
    (hnot : ∀ o, a ≠ .host (.step k o)) (he : s.step a = some t) : Unmoved k d s.host t.host := by
  cases stepped he with
  | hosted free hstep =>
      refine Host.unmoved hk hC (fun o => ?_) hstep
      rintro rfl
      exact hnot o rfl
  | crashed ks xs => exact ⟨le_rfl, if_neg hC, rfl, rfl, fun p x hx hl => ⟨x, hx, hl⟩⟩
  | reaped hx orphan =>
      refine ⟨le_rfl, rfl, rfl, rfl, fun p y hy hl => ?_⟩
      obtain ⟨-, hold⟩ := of_erase_eq_some hy
      exact ⟨y, hold, hl⟩
  | appeared | vanished | begun | checked | ended | unchanged => exact .refl k d s.host

/-- A step of the system that is an event of the host is a step of the host. -/
theorem step_host {s t : System} {e : Event} (he : s.step (.host e) = some t) :
    s.host.step e = some t.host := by
  simp only [step] at he
  split_ifs at he with hfree
  obtain ⟨host, hstep, rfl⟩ := Option.map_eq_some_iff.mp he
  exact hstep

/-- The step is not a stage of a call of the container. -/
def Elsewhere (d : ContainerID) (s : System) (a : Happening) : Prop :=
  ∀ e, a = .host e → ∀ ko ∈ e.stage, ∀ c ∈ s.host.calls ko.1, c.container ≠ d

/-- **An entry is touched by nobody else.** -/
theorem entry_kept (h : Reaches step (Elsewhere d) s t) :
    t.host.world.ipam.lookup d = s.host.world.ipam.lookup d := by
  refine h.invariant (I := fun t => t.host.world.ipam.lookup d = s.host.world.ipam.lookup d) rfl ?_
  intro u a t hu hC he
  refine Eq.trans ?_ hu
  cases stepped he with
  | hosted free hstep => exact Host.entry_step hstep (hC _ rfl)
  | crashed | reaped | appeared | vanished | begun | checked | ended | unchanged => rfl

end System

end Gocker.Container
