import Gocker.Container.Addresses
import Gocker.Container.Frame

/-!
# Giving the address back

`RunContainer` and `Start` release the address in a deferred function, so the release is what
they do last, whichever way they return after the allocation.

A call holds its address from the allocation on (`Holding`), a call that gives up while it
holds one has its release left, and the release is the last stage of both functions.  This
gives `address_given_back`, for every run of the system; `entry_kept` is the other half, that
nobody but a call of a container touches its entry.

The release is one step here, as in the whole model of the host.  What becomes of the file when
two processes release at once is the subject of `Container/Site.lean`; that the release is
called at all, with the right container, is the subject here.
-/

namespace Gocker.Container

open Machine Network

namespace System

variable {s₀ s : System}

/-- The structure of the calls and what they hold, in every run. -/
theorem holding_reaches (hs : Idle s₀.host) (h : Reaches step Always s₀ s) :
    Consistent s.host ∧ Holding s.host := by
  refine h.invariant (I := fun s => Consistent s.host ∧ Holding s.host)
    ⟨hs.wellFormed.consistent, fun k c hk => (hs.nocall hk).elim⟩ ?_
  intro s a t hinv _ he
  obtain ⟨hs, hh⟩ := hinv
  refine ⟨consistent_step hs he, ?_⟩
  cases stepped he with
  | hosted free hstep => exact hh.step hs hstep
  | crashed ks xs => exact fun k c hk => hh k c (of_cutOff hk)
  | reaped | appeared | vanished | begun | checked | ended | unchanged => exact hh

end System

/-- The release is ahead of the two functions as long as they run. -/
theorem release_ahead {fn : Fn} {todo : List Stage} (h : todo <:+ fn.program)
    (hfn : fn = .runContainer ∨ fn = .start) (hne : todo ≠ []) : .releaseIP ∈ todo := by
  have all : ∀ fn, ∀ todo ∈ Fn.program fn |>.tails, fn = .runContainer ∨ fn = .start →
      todo ≠ [] → .releaseIP ∈ todo := by
    decide
  exact forall_rest all h hfn hne

/-- A call that has allocated an address returns with its release. -/
theorem Host.returned {s t : Host} (hs : Consistent s) (hh : Holding s) {k : CallId} {c : Call}
    {o : Outcome} (hk : s.calls k = some c) (hfn : c.fn = .runContainer ∨ c.fn = .start)
    (halloc : .allocateIP ∉ c.todo) (he : s.step (.step k o) = some t) (hret : t.calls k = none) :
    c.todo = [.releaseIP] ∧ (o = .ok → t.world.ipam = s.world.ipam.erase c.container) := by
  have hc := hs.call k c hk
  have hrelease : .releaseIP ∈ c.todo := release_ahead hc.program hfn hc.ne
  have holds : c.allocatedIP ≠ none := by
    rw [← Option.isSome_iff_ne_none, hh k c hk]
    · exact ⟨halloc, hrelease⟩
    · rcases hfn with hfn | hfn <;> simp [hfn]
    · rcases hfn with hfn | hfn <;> simp [hfn, Fn.launches]
  obtain ⟨c', st, rest, w, after, hc', htodo, hp, rfl⟩ := Host.step_stage he
  obtain rfl := Option.some.inj (hk.symm.trans hc')
  cases after with
  | giveUp =>
      rw [Host.resume_giveUp_calls, if_neg holds] at hret
      cases hret
  | goOn c' =>
      rw [Host.resume_goOn_calls] at hret
      split_ifs at hret with hrest
      subst hrest
      rw [htodo] at hrelease
      obtain rfl := List.mem_singleton.mp hrelease
      refine ⟨htodo, ?_⟩
      rintro rfl
      cases hp
      rfl

namespace System

variable {s₀ s t u : System} {d : ContainerID}

/-- **Every launch gives its address back.**  Let a call of `RunContainer` or `Start` have
allocated its address, in any run of the system.  When it returns, wherever it has failed or
not, the allocator has no entry for the container, provided the release works; and the entry
of another container is what it was at any earlier point from which no call of that container
has moved. -/
theorem address_given_back (hs : Idle s₀.host) (h : Reaches step Always s₀ s) {k : CallId}
    {c : Call} {o : Outcome} (hk : s.host.calls k = some c)
    (hfn : c.fn = .runContainer ∨ c.fn = .start) (halloc : .allocateIP ∉ c.todo)
    (he : s.step (.host (.step k o)) = some t) (hret : t.host.calls k = none)
    (hrelease : c.todo.head? = some .releaseIP → o = .ok) :
    t.host.world.ipam.lookup c.container = none ∧
      ∀ d, d ≠ c.container → ∀ s₁, Reaches step (Elsewhere d) s₁ s →
        t.host.world.ipam.lookup d = s₁.host.world.ipam.lookup d := by
  obtain ⟨hcons, hholding⟩ := holding_reaches hs h
  constructor
  · simp only [step] at he
    split_ifs at he with hfree
    obtain ⟨host, hstep, rfl⟩ := Option.map_eq_some_iff.mp he
    obtain ⟨htodo, hipam⟩ := Host.returned hcons hholding hk hfn halloc hstep hret
    show host.world.ipam.lookup c.container = none
    rw [hipam (hrelease (by rw [htodo]; rfl))]
    exact Finmap.lookup_erase c.container s.host.world.ipam
  · intro d hd s₁ hbefore
    refine entry_kept (hbefore.tail ?_ he)
    rintro e ⟨⟩ ko ⟨⟩ c' hc'
    obtain rfl := Option.some.inj (hk.symm.trans hc')
    exact hd.symm

/-- Another container runs, and a launch fails at its veth pair. -/
def failedLaunch : List Happening :=
  List.map .host (launching 0 "a" 100 ++ .runContainer shellRequest "b" :: stages 1 2 ++
    [.step 1 (.child 101), .step 1 .ok, .step 1 (.fails 0)])

/-- A second container's `gocker run` fails to set up the interface, and its address is given
back while the first one keeps its own. -/
theorem address_given_back_veth :
    ∃ s t : System, s.host.world.ipam.lookup "b" = some "10.20.0.3" ∧
      t.host.world.ipam.lookup "b" = none ∧
      t.host.world.ipam.lookup "a" = s.host.world.ipam.lookup "a" := by
  let s := outcome step Always emptySystem failedLaunch
  let t := (s.step (.host (.step 1 .ok))).getD s
  obtain ⟨c, hk, hfn, hcontainer, halloc⟩ :
      ∃ c, s.host.calls 1 = some c ∧ c.fn = .runContainer ∧ c.container = "b" ∧
        .allocateIP ∉ c.todo :=
    ⟨_, rfl, by decide +kernel, by decide +kernel, by decide +kernel⟩
  have hstep : s.step (.host (.step 1 .ok)) = some t := rfl
  have back := address_given_back emptyHost_idle (reaches_outcome ..) hk (.inl hfn) halloc hstep
    (by decide +kernel) fun _ => rfl
  rw [hcontainer] at back
  exact ⟨s, t, by decide +kernel, back.1, back.2 "a" (by decide) s (.refl s)⟩

end System

end Gocker.Container
