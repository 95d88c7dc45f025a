import Gocker.Container.Addresses

/-!
# What a launched process needs of its request

`InitContainer` takes the request from the pipe, and `ConfigureContainerNetwork` gives up
without an address.  So each of the three functions that launch a process owes it a request
with the id of the container and with an address that the allocator has for this container
and for no other.

`contractKept_of_reaches` says when they deliver.  `RunContainer` and `Start` do, as long as
nobody releases the address of the container between the allocation and the sending.
`CreateAndRun` adds neither the id nor an address to the request that it was given, so that
the processes it launches end with an error.

An allocation is one step here.  `Container/Leases.lean` takes the result to the file
operations that it consists of.

### The two halves

What is *sent* is about the calls that have the sending next: their request, as `Call.request`
makes it, meets the contract at this moment.  What is *received* is about the processes whose
pipe is full: they have an address to configure.  The second is what `InitContainer` notices, and
it is weaker, because an address may be released between the two.
-/

namespace Gocker.Container

open Machine Network NetIP

/-! ## The contract -/

/-- The allocator has the address for this container and for no other. -/
def AllocatedTo (s : Host) (id : ContainerID) (ip : String) : Prop :=
  ip ≠ "" ∧ ∀ d, s.world.ipam.lookup d = some ip ↔ d = id

/-- What the process of the container needs of its request. -/
structure MeetsContract (s : Host) (id : ContainerID) (req : RunRequest) : Prop where
  named : req.containerID = id
  address : AllocatedTo s id req.ipAddress

/-- The requests that are about to be sent meet the contract, where a request of
`CreateAndRun` does so only if it came like that; and the processes of the other two
functions have an address to configure. -/
structure ContractKept (s : Host) : Prop where
  sent : ∀ k c, s.calls k = some c → c.todo.head? = some .encode →
    (MeetsContract s c.container c.request ↔
      (c.fn = .createAndRun → ∃ req ∈ c.req, MeetsContract s c.container req))
  received : ∀ p x r c, s.world.procs p = some x → x.pipe = some r →
    s.calls x.launcher = some c → c.fn ≠ .createAndRun → r.ipAddress ≠ ""

/-- The call has an address that it has not sent yet. -/
def Call.Unsent (c : Call) : Prop := c.allocatedIP ≠ none ∧ .encode ∈ c.todo

/-- When a call releases the address of its container, no call of the container still has
to send it. -/
def ReleasesSent (s : Host) (e : Event) : Prop :=
  ∀ ko ∈ e.stage, ∀ c ∈ s.calls ko.1, c.todo.head? = some .releaseIP →
    ∀ j < s.nextCall, ∀ d ∈ s.calls j, d.container = c.container → ¬ d.Unsent

instance (c : Call) : Decidable c.Unsent := inferInstanceAs (Decidable (_ ∧ _))

instance (s : Host) (e : Event) : Decidable (ReleasesSent s e) := by
  unfold ReleasesSent
  infer_instance

/-! ## The invariant -/

/-- What a call has to have before it sends its request: the id in the request of
`RunContainer`, and an address that is a text and is still the container's in the map. -/
structure Prepared (s : Host) : Prop where
  /-- `RunContainer` has put the id into its request -/
  named : ∀ k c req, s.calls k = some c → c.fn = .runContainer → c.req = some req →
    req.containerID = c.container
  nonempty : ∀ k c a, s.calls k = some c → c.allocatedIP = some a → a ≠ ""
  /-- until it is sent, the address stays with the container -/
  unsent : ∀ k c a, s.calls k = some c → c.allocatedIP = some a → .encode ∈ c.todo →
    s.world.ipam.lookup c.container = some a

/-- An address in a valid map is the text of an address, and so not empty. -/
theorem ne_empty_of_lookup {m : ContainerToIP} (hm : Valid m) {d : ContainerID} {ip : String}
    (h : m.lookup d = some ip) : ip ≠ "" := by
  obtain ⟨a, ha, rfl⟩ := hm.range d ip h
  exact dotted_ne_empty ha.isV4

/-- An address in the map is allocated to exactly one container. -/
theorem allocatedTo_of_lookup {s : Host} (hm : Valid s.world.ipam) {id : ContainerID} {ip : String}
    (h : s.world.ipam.lookup id = some ip) : AllocatedTo s id ip := by
  refine ⟨ne_empty_of_lookup hm h, fun d => ⟨fun hd => hm.injective d id ip hd h, ?_⟩⟩
  rintro rfl
  exact h

variable {s t : Host}

/-- A call that begins has the id in its request if it is one of `RunContainer`. -/
theorem Prepared.begin (h : Prepared s) {fn : Fn} {info : ContainerInfo} {req : Option RunRequest}
    (hreq : fn = .runContainer → ∀ r ∈ req, r.containerID = info.id) :
    Prepared (s.begin fn info req) := by
  refine ⟨?_, ?_, ?_⟩
  · intro k c r hk hfn hr
    rcases WellFormed.begin_calls hk with ⟨-, rfl⟩ | ⟨-, hold⟩
    · exact hreq hfn r hr
    · exact h.named k c r hold hfn hr
  · intro k c a hk ha
    rcases WellFormed.begin_calls hk with ⟨-, rfl⟩ | ⟨-, hold⟩
    · cases ha
    · exact h.nonempty k c a hold ha
  · intro k c a hk ha hmem
    rcases WellFormed.begin_calls hk with ⟨-, rfl⟩ | ⟨-, hold⟩
    · cases ha
    · exact h.unsent k c a hold ha hmem

/-- A new directory is nothing to what is prepared. -/
theorem Prepared.of_dirs (h : Prepared s) (dirs : List ContainerID) :
    Prepared { s with dirs := dirs } :=
  ⟨h.named, h.nonempty, h.unsent⟩

/-- A stage keeps what is prepared, unless it releases an address that is not sent yet. -/
theorem Prepared.stage (wf : WellFormed s) (hacc : Accounted s) (h : Prepared s) {k : CallId}
    {c : Call} {st : Stage} {rest : List Stage} {o : Outcome} {w' : World} {after : After}
    (hk : s.calls k = some c) (htodo : c.todo = st :: rest)
    (hp : Performed s.world s.clock k c st o w' after) (hC : ReleasesSent s (.step k o)) :
    Prepared (s.resume k c rest (w', after)) := by
  -- the lookups that the guard protects
  have stays : ∀ j d a, s.calls j = some d → d.allocatedIP = some a → .encode ∈ d.todo →
      w'.ipam.lookup d.container = some a := by
    intro j d a hj ha hmem
    refine hp.lookup_stays (h.unsent j d a hj ha hmem) fun heq hst => ?_
    subst hst
    exact hC _ rfl c hk (by rw [htodo]; rfl) j (wf.call j d hj).lt d hj heq ⟨by simp [ha], hmem⟩
  refine ⟨?_, ?_, ?_⟩
  · intro j d r hj hfn hr
    rcases Host.resume_calls hj with ⟨-, hold⟩ | ⟨rfl, ⟨c', rfl, -, rfl⟩ | ⟨rfl, -, rfl⟩⟩
    · exact h.named j d r hold hfn hr
    · obtain ⟨r', hr', heq⟩ := hp.req_source hr
      have hid := congrArg RunRequest.containerID heq
      have hnamed := h.named _ c r' hk (hp.fn_eq.symm.trans hfn) hr'
      exact hid.symm.trans (hnamed.trans hp.container_eq.symm)
    · exact h.named j c r hk hfn hr
  · intro j d a hj ha
    rcases Host.resume_calls hj with ⟨-, hold⟩ | ⟨rfl, ⟨c', rfl, -, rfl⟩ | ⟨rfl, -, rfl⟩⟩
    · exact h.nonempty j d a hold ha
    · cases hp with
      | allocated own kept others valid =>
          obtain rfl := Option.some.inj ha
          exact ne_empty_of_lookup (valid hacc.valid) own
      | released => cases ha
      | written | torn | unwritten | launched | encoded | waited | peered | plain =>
          exact h.nonempty j c a hk ha
    · exact h.nonempty j c a hk ha
  · intro j d a hj ha hmem
    rw [Host.resume_ipam]
    rcases Host.resume_calls hj with ⟨-, hold⟩ | ⟨rfl, ⟨c', rfl, -, rfl⟩ | ⟨rfl, -, rfl⟩⟩
    · exact stays j d a hold ha hmem
    · have hmem' : .encode ∈ c.todo := htodo ▸ List.mem_cons_of_mem _ hmem
      cases hp with
      | allocated own =>
          obtain rfl := Option.some.inj ha
          exact own
      | released => cases ha
      | written | torn | unwritten | launched | encoded | waited | peered | plain =>
          exact stays j c a hk ha hmem'
    · cases List.mem_singleton.mp hmem

/-- What is prepared stays so, in every step that takes no unsent address. -/
theorem Prepared.step {e : Event} (wf : WellFormed s) (hacc : Accounted s) (h : Prepared s)
    (hC : ReleasesSent s e) (he : s.step e = some t) : Prepared t := by
  cases Host.stepped he with
  | ran fresh =>
      refine (h.of_dirs _).begin fun _ r hr => ?_
      obtain rfl := Option.some.inj hr
      rfl
  | createdAndRan fresh => exact (h.of_dirs _).begin fun hfn => by cases hfn
  | starting found => exact h.begin fun hfn => by cases hfn
  | stopping found => exact h.begin fun hfn => by cases hfn
  | adjusting found => exact h.begin fun hfn => by cases hfn
  | refused => exact h
  | staged call todo performed =>
      exact h.stage wf hacc call todo (perform_performed performed) hC
  | moved moved =>
      refine ⟨h.named, h.nonempty, fun k c a hk ha hmem => ?_⟩
      rw [moved.ipam]
      exact h.unsent k c a hk ha hmem
  | ticked => exact ⟨h.named, h.nonempty, h.unsent⟩

/-- Where no call is running, nothing has to be prepared. -/
theorem Idle.prepared (h : Idle s) : Prepared s := by
  refine ⟨?_, ?_, ?_⟩
  · exact fun k c _ hk => (h.nocall hk).elim
  · exact fun k c _ hk => (h.nocall hk).elim
  · exact fun k c _ hk => (h.nocall hk).elim

/-! ## What is sent -/

/-- The request of `RunContainer` and of `Start` meets the contract when it is sent. -/
theorem Prepared.meetsContract (wf : WellFormed s) (hacc : Accounted s) (h : Prepared s)
    {k : CallId} {c : Call} (hk : s.calls k = some c) (hencode : c.todo.head? = some .encode)
    (hfn : c.fn ≠ .createAndRun) : MeetsContract s c.container c.request := by
  obtain ⟨rest, htodo⟩ := List.head?_eq_some_iff.mp hencode
  have hc := wf.call k c hk
  obtain ⟨hlaunches, hnot, hmem⟩ := held_at_encode (htodo ▸ hc.program) hfn
  have hheld : c.allocatedIP.isSome := by
    rw [hacc.holds k c hk hfn hlaunches, htodo]
    exact ⟨by simpa using hnot, List.mem_cons_of_mem _ hmem⟩
  have hip := hacc.request_ip hk hheld
  refine ⟨?_, allocatedTo_of_lookup hacc.valid
    (h.unsent k c _ hk hip (htodo ▸ List.mem_cons_self))⟩
  cases hreq : c.req with
  | none =>
      rw [Call.request, hreq]
      exact hc.info
  | some req =>
      have hrun : c.fn = .runContainer := (hc.request.mp (by rw [hreq]; rfl)).resolve_right hfn
      rw [Call.request, hreq]
      exact h.named k c req hk hrun hreq

/-- The contract of the launched process is kept by `RunContainer` and `Start`, in any
run in which no release takes an address that a call still has to send, and by
`CreateAndRun` only where its request already came with the id and the address. -/
theorem contractKept_of_reaches (hs : Idle s) (hv : Valid s.world.ipam)
    (h : Reaches Host.step ReleasesSent s t) : ContractKept t := by
  have inv : WellFormed t ∧ Accounted t ∧ Prepared t :=
    h.invariant (I := fun s => WellFormed s ∧ Accounted s ∧ Prepared s)
      ⟨hs.wellFormed, hs.accounted hv, hs.prepared⟩
      fun _ _ _ ⟨wf, hacc, hi⟩ hC he => ⟨wf.step he, hacc.step wf he, hi.step wf hacc hC he⟩
  obtain ⟨wf, hacc, hprepared⟩ := inv
  refine ⟨fun k c hk hencode => ?_, fun p x r c hx hr hc hfn => ?_⟩
  · by_cases hfn : c.fn = .createAndRun
    · -- the request is the one that the call began with, but for the peer's name
      obtain ⟨req, hreq⟩ := Option.isSome_iff_exists.mp ((wf.call k c hk).request.mpr (.inr hfn))
      have hrequest : c.request = { req with vethPeerName := c.vethPeer } := by
        rw [Call.request, hreq]
      rw [hrequest, hreq]
      constructor
      · exact fun hmeets _ => ⟨req, rfl, hmeets.named, hmeets.address⟩
      · intro hcame
        obtain ⟨req', hreq', hmeets⟩ := hcame hfn
        obtain rfl := Option.some.inj hreq'
        exact ⟨hmeets.named, hmeets.address⟩
    · exact iff_of_true (hprepared.meetsContract wf hacc hk hencode hfn)
        fun hcreate => absurd hcreate hfn
  · exact hprepared.nonempty _ c _ hc (hacc.pipe p x r c hx hr hc hfn)

end Gocker.Container
