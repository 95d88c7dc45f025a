import Gocker.Lib.Fallible
import Gocker.Network.Subnet

/-!
# The network in a container (`internal/network/container.go`)

`ConfigureContainerNetwork` runs in the network namespace of a container.  It renames the end of
the pair that has been moved there, gives it the address of the container, brings it up and makes
the bridge the default gateway.

The state is the links and the default routes of that namespace.  The kernel refuses a route whose
gateway is not on the network of an address; `configureContainerNetwork_allocated` says that with
an address of the allocator this never happens.

### Why the route is reachable

An address of the allocator is one of the bridge's network, and `ConfigureContainerNetwork` puts
the prefix of that network behind it.  So the gateway, which is the bridge's own address, lies on
the network of the address (`Network.Valid` gives the range), and the route is accepted as soon
as the link is up.
-/

namespace Gocker.Network

open Fallible NetIP

/-! ## The namespace -/

/-- An address as `netlink.ParseAddr` returns it. -/
structure NetAddr where
  ip : IP
  net : IPNet
deriving DecidableEq, Repr

/-- A link; the code holds on to it by its index. -/
structure NetLink where
  index : ℕ
  name : String
  up : Bool
  addrs : List NetAddr
deriving DecidableEq, Repr

/-- The links of the namespace, and its default routes. -/
structure NetNamespace where
  links : List NetLink
  /-- the gateways of the default routes -/
  gateways : List IP
deriving DecidableEq, Repr

/-- The operations, by what tells them apart where one of them fails. -/
inductive NetOp where
  | linkByName (name : String)
  | linkSetName
  | addrAdd
  | linkSetUp (index : ℕ)
  | routeAdd
deriving DecidableEq, Repr

namespace NetNamespace

/-- The link with this index is changed. -/
def change (index : ℕ) (f : NetLink → NetLink) (s : NetNamespace) : NetNamespace :=
  { s with links := s.links.map fun l => if l.index = index then f l else l }

/-- The gateway is on the network of an address of a link that is up. -/
def Reaches (s : NetNamespace) (gateway : IP) : Prop :=
  ∃ l ∈ s.links, l.up = true ∧ ∃ a ∈ l.addrs, a.net.contains gateway = true

instance (s : NetNamespace) (gateway : IP) : Decidable (s.Reaches gateway) :=
  inferInstanceAs (Decidable (∃ l ∈ s.links, l.up = true ∧
    ∃ a ∈ l.addrs, a.net.contains gateway = true))

end NetNamespace

/-! ## The operations -/

section
variable (fails : NetOp → Option String)

/-- An operation that fails changes nothing. -/
def netCall (op : NetOp) (serve : NetNamespace → Except String NetNamespace) :
    EStateM String NetNamespace Unit := fun s =>
  match fails op with
  | some err => .error err s
  | none =>
      match serve s with
      | .error err => .error err s
      | .ok t => .ok () t

/-- `netlink.LinkByName` -/
def linkByName (name : String) : EStateM String NetNamespace NetLink := fun s =>
  match fails (.linkByName name) with
  | some err => .error err s
  | none =>
      match s.links.find? (·.name = name) with
      | none => .error "Link not found" s
      | some l => .ok l s

/-- `netlink.LinkSetName`; a name is given once. -/
def linkSetName (l : NetLink) (name : String) : EStateM String NetNamespace Unit :=
  netCall fails .linkSetName fun s =>
    if ∃ l' ∈ s.links, l'.name = name ∧ l'.index ≠ l.index then .error "file exists"
    else .ok (s.change l.index fun l => { l with name := name })

/-- `netlink.AddrAdd`; an address is given to a link once. -/
def addrAdd (l : NetLink) (a : NetAddr) : EStateM String NetNamespace Unit :=
  netCall fails .addrAdd fun s =>
    if ∃ l' ∈ s.links, l'.index = l.index ∧ a ∈ l'.addrs then .error "file exists"
    else .ok (s.change l.index fun l => { l with addrs := l.addrs ++ [a] })

/-- `netlink.LinkSetUp` -/
def linkSetUp (l : NetLink) : EStateM String NetNamespace Unit :=
  netCall fails (.linkSetUp l.index) fun s => .ok (s.change l.index fun l => { l with up := true })

/-- `netlink.RouteAdd` of a default route: there is one at most, and its gateway has to be on
the network of an address. -/
def routeAdd (gateway : IP) : EStateM String NetNamespace Unit :=
  netCall fails .routeAdd fun s =>
    if s.gateways ≠ [] then .error "file exists"
    else if s.Reaches gateway then .ok { s with gateways := [gateway] }
    else .error "network is unreachable"

/-! ## The function -/

/-- `Mask.Size`: the number of leading ones. -/
def maskSize (mask : List UInt8) : ℕ :=
  ((List.range (8 * mask.length + 1)).find? fun ones => cidrMask ones mask.length = mask).getD 0

/-- `netlink.ParseAddr` -/
def parseNetAddr (text : String) : Except String NetAddr :=
  match parseCIDR text with
  | some (ip, net) => .ok ⟨ip, net⟩
  | none => .error ("invalid CIDR address: " ++ text)

/-- The last step; a link that is not found is a nil pointer. -/
def raiseLoopback : EStateM String NetNamespace Unit := do
  match ← attempt (linkByName fails "lo") with
  | .ok lo =>
      let _ ← attempt (linkSetUp fails lo)
  | .error _ => throw "invalid memory address or nil pointer dereference"

/-- What is done to the link that has been found. -/
def configurePeer (peer : NetLink) (ipAddress : String) : EStateM String NetNamespace Unit := do
  wrap "重新命名 veth peer 為 eth0 失敗" (linkSetName fails peer "eth0")
  let (_, subnet) ← wrap ("cannot parse network CIDR '" ++ Config.networkCIDR ++ "'")
    (lift (match parseCIDR Config.networkCIDR with
      | some p => .ok p
      | none => .error ("invalid CIDR address: " ++ Config.networkCIDR)))
  let addr ← wrap ("解析容器 IP 位址 '" ++ ipAddress ++ "' 失敗")
    (lift (parseNetAddr (cidrText ipAddress (maskSize subnet.mask))))
  wrap "為 eth0 設定 IP 失敗" (addrAdd fails peer addr)
  wrap "啟動 eth0 失敗" (linkSetUp fails peer)
  match parseIP Config.gatewayIP with
  | none => throw ("解析閘道 IP '" ++ Config.gatewayIP ++ "' 失敗")
  | some gateway =>
      wrap "設定預設路由失敗" (routeAdd fails gateway)
      raiseLoopback fails

/-- `ConfigureContainerNetwork` -/
def configureContainerNetwork (peerName ipAddress : String) : EStateM String NetNamespace Unit := do
  let peer ← wrap ("在容器內找不到 veth peer '" ++ peerName ++ "'") (linkByName fails peerName)
  if ipAddress = "" then throw "no IP address provided for container"
  else configurePeer fails peer ipAddress

/-! ## When an operation succeeds -/

variable {fails} {s t : NetNamespace}

/-- An operation that succeeds does not fail, and the kernel serves it. -/
theorem netCall_eq_ok {op : NetOp} {serve : NetNamespace → Except String NetNamespace} {u : Unit} :
    netCall fails op serve s = .ok u t ↔ fails op = none ∧ serve s = .ok t := by
  unfold netCall
  cases fails op with
  | some err => simp
  | none => cases serve s <;> simp

/-- A link is found if there is one of this name. -/
theorem linkByName_eq_ok {name : String} {l : NetLink} :
    linkByName fails name s = .ok l t ↔
      fails (.linkByName name) = none ∧ s.links.find? (·.name = name) = some l ∧ s = t := by
  unfold linkByName
  cases fails (.linkByName name) with
  | some err => simp
  | none => cases s.links.find? (·.name = name) <;> simp

theorem ok_ite_error {α : Type} {p : Prop} [Decidable p] {e : String} {x a : α} :
    (if p then Except.error e else Except.ok x) = .ok a ↔ ¬ p ∧ x = a := by
  by_cases hp : p <;> simp [hp]

theorem linkSetName_eq_ok {l : NetLink} {name : String} {u : Unit} :
    linkSetName fails l name s = .ok u t ↔ fails .linkSetName = none ∧
      (¬ ∃ l' ∈ s.links, l'.name = name ∧ l'.index ≠ l.index) ∧
      s.change l.index (fun l => { l with name := name }) = t := by
  rw [linkSetName, netCall_eq_ok, ok_ite_error]

/-- A link is given an address that it does not have. -/
theorem addrAdd_eq_ok {l : NetLink} {a : NetAddr} {u : Unit} :
    addrAdd fails l a s = .ok u t ↔ fails .addrAdd = none ∧
      (¬ ∃ l' ∈ s.links, l'.index = l.index ∧ a ∈ l'.addrs) ∧
      s.change l.index (fun l => { l with addrs := l.addrs ++ [a] }) = t := by
  rw [addrAdd, netCall_eq_ok, ok_ite_error]

theorem linkSetUp_eq_ok {l : NetLink} {u : Unit} :
    linkSetUp fails l s = .ok u t ↔ fails (.linkSetUp l.index) = none ∧
      s.change l.index (fun l => { l with up := true }) = t := by
  rw [linkSetUp, netCall_eq_ok, Except.ok.injEq]

/-- A default route is added where there is none, to a gateway that is reached. -/
theorem routeAdd_eq_ok {gateway : IP} {u : Unit} :
    routeAdd fails gateway s = .ok u t ↔ fails .routeAdd = none ∧ s.gateways = [] ∧
      s.Reaches gateway ∧ { s with gateways := [gateway] } = t := by
  rw [routeAdd, netCall_eq_ok]
  by_cases hgateways : s.gateways = [] <;> by_cases hreach : s.Reaches gateway <;>
    simp [hgateways, hreach]

/-- An error of the last operation is dropped. -/
theorem attempt_linkSetUp (l : NetLink) :
    attempt (linkSetUp fails l) s = match fails (.linkSetUp l.index) with
      | none => .ok (.ok ()) (s.change l.index fun l => { l with up := true })
      | some err => .ok (.error err) s := by
  rw [attempt_apply]
  unfold linkSetUp netCall
  cases fails (.linkSetUp l.index) <;> rfl

/-- The loopback is brought up, if that does not fail; a failure is only logged. -/
theorem raiseLoopback_eq_ok {u : Unit} :
    raiseLoopback fails s = .ok u t ↔ ∃ lo, fails (.linkByName "lo") = none ∧
      s.links.find? (·.name = "lo") = some lo ∧
      (if fails (.linkSetUp lo.index) = none then
        s.change lo.index (fun l => { l with up := true }) else s) = t := by
  rw [raiseLoopback, bind_apply, attempt_apply]
  unfold linkByName
  cases hop : fails (.linkByName "lo") with
  | some err => simp [throw_ne_ok]
  | none =>
      cases hfind : s.links.find? (·.name = "lo") with
      | none => simp [throw_ne_ok]
      | some lo =>
          simp only [true_and, Option.some.injEq, exists_eq_left']
          rw [bind_apply, attempt_linkSetUp]
          cases fails (.linkSetUp lo.index) <;> simp [pure, EStateM.pure]

/-! ## In a new namespace -/

/-- The gateway, in its long form. -/
def gateway : IP := as16 [10, 20, 0, 1]

theorem parseIP_gatewayIP : parseIP Config.gatewayIP = some gateway := by decide

theorem maskSize_subnet : maskSize subnet.mask = 24 := by decide

/-- The namespace of a new container: the loopback, and the end of the pair. -/
structure Entered (peerName : String) (lo peer : NetLink) (s : NetNamespace) : Prop where
  links : s.links = [lo, peer]
  gateways : s.gateways = []
  loName : lo.name = "lo"
  peerNamed : peer.name = peerName
  notLo : peerName ≠ "lo"
  apart : lo.index ≠ peer.index
  addrs : peer.addrs = []
  loDown : lo.up = false

/-- What the code needs of the operations; bringing the loopback up is not among it. -/
structure NetInOrder (fails : NetOp → Option String) (peerName : String) (peer : NetLink) :
    Prop where
  findPeer : fails (.linkByName peerName) = none
  rename : fails .linkSetName = none
  address : fails .addrAdd = none
  raise : fails (.linkSetUp peer.index) = none
  route : fails .routeAdd = none
  findLo : fails (.linkByName "lo") = none

/-- The namespace of a container that has its address. -/
def joined (fails : NetOp → Option String) (lo peer : NetLink) (a : NetAddr) : NetNamespace where
  links :=
    [ { lo with up := fails (.linkSetUp lo.index) = none },
      { peer with name := "eth0", up := true, addrs := [a] } ]
  gateways := [gateway]

variable {peerName ipAddress : String} {lo peer : NetLink}

theorem change_second {l l' : NetLink} {gateways : List IP} {i : ℕ} (f : NetLink → NetLink)
    (h : l.index ≠ i) (h' : l'.index = i) :
    NetNamespace.change i f ⟨[l, l'], gateways⟩ = ⟨[l, f l'], gateways⟩ := by
  simp [NetNamespace.change, h, h']

theorem change_first {l l' : NetLink} {gateways : List IP} {i : ℕ} (f : NetLink → NetLink)
    (h : l.index = i) (h' : l'.index ≠ i) :
    NetNamespace.change i f ⟨[l, l'], gateways⟩ = ⟨[f l, l'], gateways⟩ := by
  simp [NetNamespace.change, h, h']

/-- Where only the second link is up, a gateway is reached through its address. -/
theorem reaches_iff {l l' : NetLink} {gateways : List IP} {a : NetAddr} (hl : l.up = false)
    (hl' : l'.up = true) (ha : l'.addrs = [a]) :
    NetNamespace.Reaches ⟨[l, l'], gateways⟩ gateway ↔ a.net.contains gateway = true := by
  simp [NetNamespace.Reaches, hl, hl', ha]

/-- The steps one after the other: each is computed in the namespace that the one before has
left. -/
theorem configurePeer_eq_ok (h : Entered peerName lo peer s) {u : Unit} :
    configurePeer fails peer ipAddress s = .ok u t ↔
      (fails .linkSetName = none ∧ fails .addrAdd = none ∧ fails (.linkSetUp peer.index) = none ∧
        fails .routeAdd = none ∧ fails (.linkByName "lo") = none) ∧
      ∃ a, parseNetAddr (cidrText ipAddress 24) = .ok a ∧ a.net.contains gateway = true ∧
        joined fails lo peer a = t := by
  have hnetwork : (match parseCIDR Config.networkCIDR with
      | some p => Except.ok p
      | none => .error ("invalid CIDR address: " ++ Config.networkCIDR)) =
      (.ok (as16 [10, 20, 0, 0], subnet) : Except String (IP × IPNet)) := by
    rw [parseCIDR_networkCIDR]
  have hs : s = ⟨[lo, peer], []⟩ := by
    rw [← h.links, ← h.gateways]
  obtain ⟨index, name, up, addrs⟩ := peer
  obtain rfl : addrs = [] := h.addrs
  obtain ⟨loIndex, loName, loUp, loAddrs⟩ := lo
  obtain rfl : loName = "lo" := h.loName
  obtain rfl : loUp = false := h.loDown
  have hapart : loIndex ≠ index := h.apart
  -- the namespace after each step
  have hnamed : NetNamespace.change index (fun l => { l with name := "eth0" })
      ⟨[⟨loIndex, "lo", false, loAddrs⟩, ⟨index, name, up, []⟩], []⟩ =
      ⟨[⟨loIndex, "lo", false, loAddrs⟩, ⟨index, "eth0", up, []⟩], []⟩ := change_second _ hapart rfl
  have haddressed : ∀ a, NetNamespace.change index (fun l => { l with addrs := l.addrs ++ [a] })
      ⟨[⟨loIndex, "lo", false, loAddrs⟩, ⟨index, "eth0", up, []⟩], []⟩ =
      ⟨[⟨loIndex, "lo", false, loAddrs⟩, ⟨index, "eth0", up, [a]⟩], []⟩ :=
    fun a => change_second _ hapart rfl
  have hraised : ∀ a, NetNamespace.change index (fun l => { l with up := true })
      ⟨[⟨loIndex, "lo", false, loAddrs⟩, ⟨index, "eth0", up, [a]⟩], []⟩ =
      ⟨[⟨loIndex, "lo", false, loAddrs⟩, ⟨index, "eth0", true, [a]⟩], []⟩ :=
    fun a => change_second _ hapart rfl
  have hfirst : ∀ a, NetNamespace.change loIndex (fun l => { l with up := true })
      ⟨[⟨loIndex, "lo", false, loAddrs⟩, ⟨index, "eth0", true, [a]⟩], [gateway]⟩ =
      ⟨[⟨loIndex, "lo", true, loAddrs⟩, ⟨index, "eth0", true, [a]⟩], [gateway]⟩ :=
    fun a => change_first _ rfl hapart.symm
  have hlast : ∀ a, (if fails (.linkSetUp loIndex) = none then
        NetNamespace.change loIndex (fun l => { l with up := true })
          ⟨[⟨loIndex, "lo", false, loAddrs⟩, ⟨index, "eth0", true, [a]⟩], [gateway]⟩
      else ⟨[⟨loIndex, "lo", false, loAddrs⟩, ⟨index, "eth0", true, [a]⟩], [gateway]⟩) =
      joined fails ⟨loIndex, "lo", false, loAddrs⟩ ⟨index, name, up, []⟩ a := by
    intro a
    rw [joined]
    split_ifs with hlo
    · rw [hfirst]
      simp [hlo]
    · simp [hlo]
  have hreaches : ∀ a, NetNamespace.Reaches
      ⟨[⟨loIndex, "lo", false, loAddrs⟩, ⟨index, "eth0", true, [a]⟩], []⟩ gateway ↔
      a.net.contains gateway = true := fun a => reaches_iff rfl rfl rfl
  unfold configurePeer
  rw [hnetwork, parseIP_gatewayIP]
  simp only [bind_eq_ok, wrap_eq_ok, linkSetName_eq_ok, lift_eq_ok, addrAdd_eq_ok, linkSetUp_eq_ok,
    routeAdd_eq_ok, raiseLoopback_eq_ok, hs]
  constructor
  · rintro ⟨-, _, ⟨hrename, -, rfl⟩, _, _, ⟨hsubnet, rfl⟩, a, _, ⟨haddr, rfl⟩, -, _,
      ⟨hadd, -, rfl⟩, -, _, ⟨hraise, rfl⟩, -, _, ⟨hroute, -, hreach, rfl⟩, l, hlo, hfind, rfl⟩
    obtain rfl := Except.ok.inj hsubnet
    rw [hnamed, haddressed, hraised] at hreach hfind ⊢
    obtain rfl : ⟨loIndex, "lo", false, loAddrs⟩ = l := by simpa using hfind
    rw [maskSize_subnet] at haddr
    exact ⟨⟨hrename, hadd, hraise, hroute, hlo⟩, a, haddr, (hreaches a).mp hreach, (hlast a).symm⟩
  · rintro ⟨⟨hrename, hadd, hraise, hroute, hlo⟩, a, haddr, hcontains, rfl⟩
    refine ⟨(), _, ⟨hrename, ?_, hnamed⟩, _, _, ⟨rfl, rfl⟩, a, _, ⟨?_, rfl⟩, (), _,
      ⟨hadd, ?_, haddressed a⟩, (), _, ⟨hraise, hraised a⟩, (), _,
      ⟨hroute, rfl, (hreaches a).mpr hcontains, rfl⟩, ⟨loIndex, "lo", false, loAddrs⟩, hlo, ?_,
      hlast a⟩
    · simp
    · rwa [maskSize_subnet]
    · simp [hapart]
    · simp

/-- **`ConfigureContainerNetwork`** succeeds exactly if its operations do and the gateway is on the
network of the address; the container then has this address and the gateway. -/
theorem configureContainerNetwork_iff (h : Entered peerName lo peer s) :
    configureContainerNetwork fails peerName ipAddress s = .ok () t ↔
      NetInOrder fails peerName peer ∧ ipAddress ≠ "" ∧
      ∃ a, parseNetAddr (cidrText ipAddress 24) = .ok a ∧ a.net.contains gateway = true ∧
        joined fails lo peer a = t := by
  have hfind : s.links.find? (·.name = peerName) = some peer := by
    rw [h.links]
    simp [h.loName, h.notLo.symm, h.peerNamed]
  have hrun : configureContainerNetwork fails peerName ipAddress s = .ok () t ↔
      fails (.linkByName peerName) = none ∧ ipAddress ≠ "" ∧
        configurePeer fails peer ipAddress s = .ok () t := by
    rw [configureContainerNetwork, bind_eq_ok]
    simp only [wrap_eq_ok, linkByName_eq_ok, hfind, Option.some.injEq]
    constructor
    · rintro ⟨l, s', ⟨hlink, rfl, rfl⟩, hrest⟩
      split_ifs at hrest with hempty
      · cases hrest
      · exact ⟨hlink, hempty, hrest⟩
    · rintro ⟨hlink, hempty, hrest⟩
      exact ⟨peer, s, ⟨hlink, rfl, rfl⟩, by rwa [if_neg hempty]⟩
  rw [hrun, configurePeer_eq_ok h]
  constructor
  · rintro ⟨hlink, hempty, ⟨hrename, hadd, hraise, hroute, hlo⟩, hresult⟩
    exact ⟨⟨hlink, hrename, hadd, hraise, hroute, hlo⟩, hempty, hresult⟩
  · rintro ⟨hall, hempty, hresult⟩
    exact ⟨hall.findPeer, hempty,
      ⟨hall.rename, hall.address, hall.raise, hall.route, hall.findLo⟩, hresult⟩

/-! ## With an address of the allocator -/

/-- The address in the network of the bridge. -/
def onBridge (ip : IP) : NetAddr := ⟨as16 ip, subnet⟩

/-- **Every address that can be allocated is good**: its text is read back as the address, and the
gateway is on its network. -/
theorem parseNetAddr_hostAddress {ip : IP} (hip : HostAddress ip) :
    parseNetAddr (cidrText (dotted ip) 24) = .ok (onBridge ip) ∧
      (onBridge ip).net.contains gateway = true := by
  obtain ⟨self, net, hnet, hin, -, -⟩ := hip.inside
  rw [parseCIDR_networkCIDR] at hnet
  obtain ⟨-, rfl⟩ := Prod.mk.inj (Option.some.inj hnet)
  have hmasked : List.zipWith (· &&& ·) ip (cidrMask 24 4) = [10, 20, 0, 0] := by
    have hsame := (subnet_isV4.contains_iff hip.isV4).mp hin
    rw [show cidrMask 24 4 = subnet.mask by decide, ← hsame]
    decide
  have hlength : (cidrMask 24 4).length = ip.length := by rw [hip.isV4, length_cidrMask]
  have hparse := parseCIDR_dotted hip.isV4 (show 24 ≤ 32 by decide)
  rw [maskWith_as16 hlength, Option.map_some, hmasked] at hparse
  have hgateway : subnet.contains gateway = true := by decide
  refine ⟨?_, hgateway⟩
  rw [parseNetAddr, hparse]
  rfl

/-- What an allocation returns, saved or not. -/
theorem allocate_hostAddress {m : ContainerToIP} (hm : Valid m) {id : ContainerID}
    {requestedIP text : String}
    (h : (∃ m', allocateContainerIP m id requestedIP = .save m' text) ∨
      allocateContainerIP m id requestedIP = .done text) :
    ∃ ip, HostAddress ip ∧ text = dotted ip := by
  rcases h with ⟨m', hsave⟩ | hdone
  · exact (allocate_save hsave).2.2.1
  · exact hm.range id text (allocate_done hdone)

/-- **Allocator and container agree**: whatever address a container is given, in its namespace
`ConfigureContainerNetwork` succeeds if the operations do, and then the container has this address
and reaches the bridge. -/
theorem configureContainerNetwork_allocated {m : ContainerToIP} (hm : Valid m) {id : ContainerID}
    {requestedIP text : String}
    (halloc : (∃ m', allocateContainerIP m id requestedIP = .save m' text) ∨
      allocateContainerIP m id requestedIP = .done text)
    (h : Entered peerName lo peer s) (hall : NetInOrder fails peerName peer) :
    ∃ ip, HostAddress ip ∧ text = dotted ip ∧
      configureContainerNetwork fails peerName text s =
        .ok () (joined fails lo peer (onBridge ip)) ∧
      (joined fails lo peer (onBridge ip)).Reaches gateway := by
  obtain ⟨ip, hip, rfl⟩ := allocate_hostAddress hm halloc
  obtain ⟨hparse, hcontains⟩ := parseNetAddr_hostAddress hip
  refine ⟨ip, hip, rfl, ?_, ?_⟩
  · exact (configureContainerNetwork_iff h).mpr ⟨hall, dotted_ne_empty hip.isV4, _, hparse,
      hcontains, rfl⟩
  · exact ⟨_, List.mem_cons_of_mem _ List.mem_cons_self, rfl, _, List.mem_cons_self, hcontains⟩

/-- A container of its own process. -/
def entered : NetNamespace where
  links := [⟨1, "lo", false, []⟩, ⟨2, "peer-7", false, []⟩]
  gateways := []

theorem entered_entered :
    Entered "peer-7" ⟨1, "lo", false, []⟩ ⟨2, "peer-7", false, []⟩ entered :=
  ⟨rfl, rfl, rfl, rfl, by decide, by decide, rfl, rfl⟩

theorem configureContainerNetwork_allocated_first :
    ∃ ip, HostAddress ip ∧ "10.20.0.2" = dotted ip ∧
      configureContainerNetwork (fun _ => none) "peer-7" "10.20.0.2" entered =
        .ok () (joined (fun _ => none) ⟨1, "lo", false, []⟩ ⟨2, "peer-7", false, []⟩
          (onBridge ip)) ∧
      (joined (fun _ => none) ⟨1, "lo", false, []⟩ ⟨2, "peer-7", false, []⟩ (onBridge ip)).Reaches
        gateway := by
  have halloc : (∃ m', allocateContainerIP ∅ "a" "" = .save m' "10.20.0.2") ∨
      allocateContainerIP ∅ "a" "" = .done "10.20.0.2" := .inl ⟨_, rfl⟩
  exact configureContainerNetwork_allocated Valid.empty halloc entered_entered
    ⟨rfl, rfl, rfl, rfl, rfl, rfl⟩

end

end Gocker.Network
