import Gocker.Config
import Gocker.Network.Netlink

/-!
# Connecting a container (`internal/network/veth.go`)

`SetupContainerNetwork` makes a veth pair named after the child, attaches the host end to the
bridge, brings it up and moves the other end into the child's namespace.  Nothing undoes the
pair when a later operation fails.

`allOrNothing_iff` says that this is all that can go wrong: a call either leaves the host's
links as they were or has connected the container, exactly if once the pair exists no
operation fails.  A pair that is left makes every later call for the same PID fail
(`leftover_refuses`).

### The names

Both ends are named after the PID of the child, so that a pair which is left blocks the next
child with the same number: `netlink.LinkAdd` refuses a name that exists.  Nothing in the
repository deletes it.
-/

namespace Gocker.Network

open Fallible

/-- The host's end of the pair. -/
def vethName (childPid : PID) : String := "veth-" ++ toString childPid

/-- The container's end. -/
def peerName (childPid : PID) : String := "peer-" ++ toString childPid

theorem vethName_ne_peerName (pid : PID) : vethName pid ≠ peerName pid := by
  intro h
  have first := congrArg String.toList h
  simp [vethName, peerName] at first

theorem vethName_ne_bridgeName (pid : PID) : vethName pid ≠ Config.bridgeName := by
  intro h
  have first := congrArg String.toList h
  simp [vethName, Config.bridgeName] at first

theorem peerName_ne_bridgeName (pid : PID) : peerName pid ≠ Config.bridgeName := by
  intro h
  have first := congrArg String.toList h
  simp [peerName, Config.bridgeName] at first

namespace Netlink

variable {σ α : Type} (N : Netlink σ α)

/-! ## The source -/

/-- `createVethPair` -/
def createVethPair (vethName peerName : String) : EStateM String σ Unit :=
  N.linkAdd (.veth vethName 1500 peerName)

/-- `connectVethToBridge` -/
def connectVethToBridge (vethName : String) : EStateM String σ Unit := do
  let bridge ← wrap "找不到Bridge" (N.linkByName Config.bridgeName)
  let hostVeth ← wrap "找不到主機端 veth" (N.linkByName vethName)
  wrap "設定 veth master 失敗" (N.linkSetMaster hostVeth bridge)
  wrap "啟動主機端 veth 失敗" (N.linkSetUp hostVeth)

/-- `moveVethToContainer` -/
def moveVethToContainer (peerName : String) (childPid : PID) : EStateM String σ Unit := do
  let peer ← wrap "找不到容器端 veth" (N.linkByName peerName)
  N.linkSetNsPid peer childPid

/-- `SetupContainerNetwork` -/
def setupContainerNetwork (childPid : PID) : EStateM String σ String := do
  wrap "建立 veth pair 失敗" (N.createVethPair (vethName childPid) (peerName childPid))
  wrap "連接 veth 到Bridge失敗" (N.connectVethToBridge (vethName childPid))
  wrap "移動 veth 到容器失敗" (N.moveVethToContainer (peerName childPid) childPid)
  return peerName childPid

/-- `SetupVeth`, what the launchers call. -/
def setupVeth (pid : PID) : EStateM String σ String :=
  wrap "failed to setup container network" (N.setupContainerNetwork pid)

/-! ## What a call leaves -/

/-- The container is connected: the host end is up on the bridge, which is there, and the
other end is in the child's namespace. -/
def Connected (v : View α) (pid : PID) : Prop :=
  v.links (vethName pid) = some ⟨true, some Config.bridgeName⟩ ∧
    v.links Config.bridgeName ≠ none ∧ peerName pid ∈ v.namespaces pid

/-- Either an error and the host's links as before, or a connected container. -/
def AllOrNothing (pid : PID) (s : σ) : Prop :=
  match N.setupContainerNetwork pid s with
  | .ok _ t => Connected (N.view t) pid
  | .error _ t => (N.view t).names = (N.view s).names

/-- The operations that come after the pair has been created, in their order: each of them
succeeds, and the last one in the state `t`. -/
def Accepts (pid : PID) (s t : σ) : Prop :=
  ∃ bridge s₁ host s₂ s₃ s₄ peer s₅,
    N.linkByName Config.bridgeName s = .ok bridge s₁ ∧
    N.linkByName (vethName pid) s₁ = .ok host s₂ ∧
    N.linkSetMaster host bridge s₂ = .ok () s₃ ∧
    N.linkSetUp host s₃ = .ok () s₄ ∧
    N.linkByName (peerName pid) s₄ = .ok peer s₅ ∧
    N.linkSetNsPid peer pid s₅ = .ok () t

/-- A call succeeds exactly if every operation does. -/
theorem setupContainerNetwork_eq_ok {pid : PID} {s t : σ} {name : String} :
    N.setupContainerNetwork pid s = .ok name t ↔
      (∃ s₁, N.createVethPair (vethName pid) (peerName pid) s = .ok () s₁ ∧
        N.Accepts pid s₁ t) ∧ name = peerName pid := by
  unfold setupContainerNetwork connectVethToBridge moveVethToContainer
  simp only [bind_eq_ok, wrap_eq_ok]
  constructor
  · rintro ⟨_, s₁, hpair, _, _, ⟨bridge, s₂, hb, host, s₃, hh, _, s₄, hm, hu⟩, _, _,
      ⟨peer, s₅, hp, hns⟩, hret⟩
    cases hret
    exact ⟨⟨s₁, hpair, bridge, s₂, host, s₃, s₄, _, peer, s₅, hb, hh, hm, hu, hp, hns⟩, rfl⟩
  · rintro ⟨⟨s₁, hpair, bridge, s₂, host, s₃, s₄, s₅, peer, s₆, hb, hh, hm, hu, hp, hns⟩, rfl⟩
    exact ⟨(), s₁, hpair, (), s₅, ⟨bridge, s₂, hb, host, s₃, hh, (), s₄, hm, hu⟩, (), t,
      ⟨peer, s₆, hp, hns⟩, rfl⟩

/-- Where every operation succeeds, the container is connected. -/
theorem Accepts.connected {N : Netlink σ α} {pid : PID} {s t : σ} (h : N.Accepts pid s t) :
    Connected (N.view t) pid := by
  obtain ⟨bridge, s₁, host, s₂, s₃, s₄, peer, s₅, hb, hh, hm, hu, hp, hns⟩ := h
  obtain ⟨hb, bridge_name, bridge_there⟩ := N.linkByName_ok hb
  obtain ⟨hh, host_name, host_there⟩ := N.linkByName_ok hh
  have hm := N.linkSetMaster_ok hm
  have hu := N.linkSetUp_ok hu
  obtain ⟨hp, peer_name, -⟩ := N.linkByName_ok hp
  obtain ⟨moved, others⟩ := N.linkSetNsPid_ok hns
  rw [peer_name] at moved others
  rw [hh, host_name, bridge_name] at hm
  rw [host_name] at hu
  refine ⟨?_, ?_, moved⟩
  · rw [others _ (vethName_ne_peerName pid), hp, hu, hm]
    simp [host_there]
  · rw [others _ (peerName_ne_bridgeName pid).symm, hp, hu, hm, hb]
    simp [(vethName_ne_bridgeName pid).symm, bridge_there]

/-- The host end is in the host's namespace. -/
def HasVeth (pid : PID) (s : σ) : Prop := (N.view s).links (vethName pid) ≠ none

/-- An operation keeps the host end if it does where it succeeds. -/
theorem keeps_hasVeth {β : Type} {x : EStateM String σ β} {pid : PID}
    (herror : ∀ {s e t}, x s = .error e t → N.view t = N.view s)
    (hok : ∀ {s a t}, N.HasVeth pid s → x s = .ok a t → N.HasVeth pid t) :
    Keeps x (N.HasVeth pid) := by
  intro s hs
  cases h : x s with
  | ok a t => exact hok hs h
  | error e t =>
      unfold HasVeth
      rw [final, herror h]
      exact hs

theorem hasVeth_linkByName (n : String) (pid : PID) :
    Keeps (N.linkByName n) (N.HasVeth pid) := by
  refine N.keeps_hasVeth N.linkByName_error fun hs h => ?_
  unfold HasVeth
  rw [(N.linkByName_ok h).1]
  exact hs

/-- Changing the attributes of a link removes none. -/
theorem hasVeth_of_map {pid : PID} {s t : σ} {name : String} {f : Attrs → Attrs}
    (hs : N.HasVeth pid s)
    (ht : N.view t = (N.view s).setLink name (((N.view s).links name).map f)) :
    N.HasVeth pid t := by
  unfold HasVeth at hs ⊢
  rw [ht, View.setLink_links]
  by_cases hn : vethName pid = name
  · subst hn
    simpa using hs
  · rw [Function.update_of_ne hn]
    exact hs

theorem hasVeth_linkSetMaster (l b : Link) (pid : PID) :
    Keeps (N.linkSetMaster l b) (N.HasVeth pid) :=
  N.keeps_hasVeth N.linkSetMaster_error fun hs h => N.hasVeth_of_map hs (N.linkSetMaster_ok h)

theorem hasVeth_linkSetUp (l : Link) (pid : PID) : Keeps (N.linkSetUp l) (N.HasVeth pid) :=
  N.keeps_hasVeth N.linkSetUp_error fun hs h => N.hasVeth_of_map hs (N.linkSetUp_ok h)

/-- Moving the peer takes the peer only. -/
theorem hasVeth_linkSetNsPid {l : Link} {pid : PID} (hl : l.name = peerName pid) :
    Keeps (N.linkSetNsPid l pid) (N.HasVeth pid) := by
  refine N.keeps_hasVeth N.linkSetNsPid_error fun hs h => ?_
  have others := (N.linkSetNsPid_ok h).2 (vethName pid)
  rw [hl] at others
  unfold HasVeth
  rw [others (vethName_ne_peerName pid)]
  exact hs

/-- Nothing after the pair's creation removes the host end, however it ends. -/
theorem hasVeth_connect (pid : PID) :
    Keeps (N.connectVethToBridge (vethName pid)) (N.HasVeth pid) :=
  ((N.hasVeth_linkByName _ pid).wrap _).bind fun _ bridge _ _ =>
    ((N.hasVeth_linkByName _ pid).wrap _).bind fun _ host _ _ =>
      ((N.hasVeth_linkSetMaster host bridge pid).wrap _).bind fun _ _ _ _ =>
        (N.hasVeth_linkSetUp host pid).wrap _

theorem hasVeth_move (pid : PID) :
    Keeps (N.moveVethToContainer (peerName pid) pid) (N.HasVeth pid) :=
  ((N.hasVeth_linkByName _ pid).wrap _).bind fun _ _ _ h =>
    N.hasVeth_linkSetNsPid (N.linkByName_ok (wrap_eq_ok.mp h)).2.1

/-- The pair is new and the host end is there. -/
theorem hasVeth_createVethPair {pid : PID} {s t : σ}
    (h : N.createVethPair (vethName pid) (peerName pid) s = .ok () t) :
    ¬ N.HasVeth pid s ∧ N.HasVeth pid t := by
  obtain ⟨free, -, ht⟩ := N.linkAdd_veth h
  refine ⟨not_not_intro free, ?_⟩
  unfold HasVeth
  rw [ht]
  simp [vethName_ne_peerName pid]

/-- **What an error leaves.**  A call that fails after it has created the pair leaves the
host end. -/
theorem leftover {pid : PID} {s s₁ t : σ} {e : String}
    (hpair : N.createVethPair (vethName pid) (peerName pid) s = .ok () s₁)
    (h : N.setupContainerNetwork pid s = .error e t) : N.HasVeth pid t := by
  obtain failed | ⟨_, s₂, created, rest⟩ := bind_eq_error.mp h
  · rw [wrap_apply, hpair] at failed
    cases failed
  · rw [wrap_eq_ok, hpair] at created
    cases created
    have keeps := ((N.hasVeth_connect pid).wrap "連接 veth 到Bridge失敗").bind fun _ _ _ _ =>
      ((N.hasVeth_move pid).wrap "移動 veth 到容器失敗").bind fun _ _ _ _ =>
        Keeps.pure (peerName pid)
    exact keeps.of_error (N.hasVeth_createVethPair hpair).2 rest

/-- While a host end of that name is there, every call for the PID fails. -/
theorem leftover_refuses {pid : PID} {s : σ} (hs : N.HasVeth pid s) :
    ∃ e t, N.setupContainerNetwork pid s = .error e t := by
  cases h : N.setupContainerNetwork pid s with
  | error e t => exact ⟨e, t, rfl⟩
  | ok name t =>
      obtain ⟨⟨s₁, hpair, -⟩, -⟩ := N.setupContainerNetwork_eq_ok.mp h
      exact absurd hs (N.hasVeth_createVethPair hpair).1

/-- **All or nothing.**  A call leaves the host's links as they were or has connected the
container exactly if no operation fails once the pair has been created. -/
theorem allOrNothing_iff (pid : PID) (s : σ) :
    N.AllOrNothing pid s ↔
      ∀ s₁, N.createVethPair (vethName pid) (peerName pid) s = .ok () s₁ →
        ∃ t, N.Accepts pid s₁ t := by
  unfold AllOrNothing
  cases h : N.setupContainerNetwork pid s with
  | ok name t =>
      obtain ⟨⟨s₁, hpair, accepted⟩, -⟩ := N.setupContainerNetwork_eq_ok.mp h
      refine ⟨fun _ s₂ hpair' => ?_, fun _ => accepted.connected⟩
      rw [hpair] at hpair'
      cases hpair'
      exact ⟨t, accepted⟩
  | error e t =>
      cases hpair : N.createVethPair (vethName pid) (peerName pid) s with
      | error e' t' =>
          have stopped := h
          unfold setupContainerNetwork at stopped
          rw [bind_apply, wrap_apply, hpair] at stopped
          cases stopped
          simp [N.linkAdd_error hpair]
      | ok _ s₁ =>
          have stays := N.leftover hpair h
          have fresh := (N.hasVeth_createVethPair hpair).1
          constructor
          · intro same
            have there : vethName pid ∈ (N.view t).names := View.mem_names.mpr stays
            rw [same] at there
            exact absurd (View.mem_names.mp there) fresh
          · intro accepts
            obtain ⟨u, accepted⟩ := accepts s₁ rfl
            have succeeds := N.setupContainerNetwork_eq_ok.mpr ⟨⟨s₁, hpair, accepted⟩, rfl⟩
            rw [h] at succeeds
            cases succeeds

/-- A host with the bridge; of the operations to come only `LinkSetMaster` is refused. -/
def busyHost : Kernel where
  net :=
    { links := fun n => if n = Config.bridgeName then some ⟨true, none⟩ else none
      addrs := fun _ => []
      rules := []
      namespaces := fun _ => [] }
  refused := [none, none, none, some "device or resource busy"]

/-- `LinkSetMaster` fails: both ends of the pair stay with the host. -/
theorem pair_left : ¬ Kernel.netlink.AllOrNothing 7 busyHost := by
  intro all
  have failed : Kernel.netlink.setupContainerNetwork 7 busyHost =
      .error "連接 veth 到Bridge失敗: 設定 veth master 失敗: device or resource busy"
        ⟨(busyHost.net.setLink "veth-7" (some ⟨false, none⟩)).setLink "peer-7"
          (some ⟨false, none⟩), []⟩ := by
    rfl
  unfold AllOrNothing at all
  rw [failed] at all
  have left : "veth-7" ∈ busyHost.net.names := by
    rw [← show _ = busyHost.net.names from all]
    simp [Kernel.netlink]
  exact View.mem_names.mp left rfl

end Netlink

end Gocker.Network
