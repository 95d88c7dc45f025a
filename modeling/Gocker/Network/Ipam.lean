import Gocker.Config
import Gocker.Types
import Gocker.Lib.Assignment
import Gocker.Lib.NetIP
import Mathlib.Data.Finmap

/-!
# The address allocator

`internal/network/ipam.go` without its file: what `AllocateContainerIP` and
`ReleaseContainerIP` do with the state they loaded.  Both are a `Decision`, that
is either a result with nothing to save, a new state to save with the result to
return once it is saved, or an error.

The source checks the range of an address on the parsed `net.IP` and its
uniqueness on the text, and takes one of two paths to a new address (the
requested one, or the first free one of the subnet).  `allocate_save` says what
the two paths have in common: the text put into the map is the canonical text of
a host address and no other container has it.  With the general facts on
assignments this gives `Decision.valid`: whatever the request, a valid state is
followed by a valid state.  `scanFrom_eq_none` is the converse for the scan: it
gives up only when every host address is taken.
-/

namespace Gocker.Network

open NetIP

/-- The addresses in use (`ipAllocationState.ContainerToIP`). -/
abbrev ContainerToIP := Finmap fun _ : ContainerID => String

/-- The errors of the allocator. -/
inductive IpamError where
  | ensureDir
  | readFile
  | parseFile
  | parseCIDR
  | noAvailable
  | openTemp
  | writeTemp
  | syncTemp
  | replaceFile
deriving DecidableEq, Repr

/-- The message of an error, up to the error it wraps. -/
def IpamError.message : IpamError → String
  | .ensureDir => "failed to ensure network state directory"
  | .readFile => "failed to read allocation file"
  | .parseFile => "failed to parse allocation file"
  | .parseCIDR => "failed to parse network CIDR " ++ Config.networkCIDR
  | .noAvailable => "no available IP addresses in " ++ Config.networkCIDR
  | .openTemp => "failed to open temp allocation file"
  | .writeTemp => "failed to write allocation file"
  | .syncTemp => "failed to sync allocation file"
  | .replaceFile => "failed to replace allocation file"

/-- What an operation does with the state it loaded: return without saving, save
a new state and return, or fail. -/
inductive Decision (α : Type) where
  | done (result : α)
  | save (state : ContainerToIP) (result : α)
  | fail (err : IpamError)

/-! ## The source's functions -/

/-- The loop of `nextIP`, from the last byte up: the bytes and the carry. -/
def increment : IP → IP × Bool
  | [] => ([], true)
  | b :: bs =>
      let (bs, carry) := increment bs
      if carry then ((b + 1) :: bs, b + 1 == 0) else (b :: bs, false)

/-- `nextIP`: the address plus one. -/
def nextIP (ip : IP) : IP := (increment ip).1

/-- `broadcastIP`: the bits of the host are all set. -/
def broadcastIP (subnet : IPNet) : IP :=
  List.zipWith (fun b m => b ||| ~~~m) subnet.ip subnet.mask

/-- The texts of the gateway, the bridge, the network and the broadcast address. -/
def buildReservedIPs (subnet : IPNet) : List String :=
  ((parseIP Config.gatewayIP).map ipString).toList ++
    ((parseCIDR Config.bridgeIP).map fun p => ipString p.1).toList ++
    [ipString subnet.ip, ipString (broadcastIP subnet)]

/-- Some container has the address (`used` in the source). -/
def Used (m : ContainerToIP) (ip : String) : Prop := ∃ id, m.lookup id = some ip

/-- An address is in use if some container has it. -/
theorem used_iff_keys {m : ContainerToIP} {ip : String} :
    (∃ id ∈ m.keys, m.lookup id = some ip) ↔ Used m ip :=
  ⟨fun ⟨id, _, h⟩ => ⟨id, h⟩,
    fun ⟨id, h⟩ => ⟨id, Finmap.mem_keys.mpr (Finmap.mem_of_lookup_eq_some h), h⟩⟩

instance (m : ContainerToIP) (ip : String) : Decidable (Used m ip) :=
  decidable_of_iff _ used_iff_keys

/-- The requested address, if it can be had; otherwise the scan decides. -/
def requestedAddress (subnet : IPNet) (reserved : List String) (m : ContainerToIP)
    (requestedIP : String) : Option String :=
  if requestedIP = "" then none
  else (parseIP requestedIP).bind fun ip =>
    if subnet.contains ip ∧ ¬ equal ip subnet.ip ∧ ¬ equal ip (broadcastIP subnet) then
      if ipString ip ∈ reserved then none
      else if Used m (ipString ip) then none
      else some (ipString ip)
    else none

/-- The loop over the candidates, cut off after `fuel` of them. -/
def scanFrom (subnet : IPNet) (reserved : List String) (m : ContainerToIP) :
    ℕ → IP → Option String
  | 0, _ => none
  | fuel + 1, candidate =>
      if subnet.contains candidate then
        if equal candidate (broadcastIP subnet) then
          scanFrom subnet reserved m fuel (nextIP candidate)
        else if ipString candidate ∈ reserved then
          scanFrom subnet reserved m fuel (nextIP candidate)
        else if Used m (ipString candidate) then
          scanFrom subnet reserved m fuel (nextIP candidate)
        else some (ipString candidate)
      else none

/-- As many candidates as there are addresses of the subnet's length. -/
def scan (subnet : IPNet) (reserved : List String) (m : ContainerToIP) : Option String :=
  scanFrom subnet reserved m (256 ^ subnet.ip.length) (nextIP subnet.ip)

/-- `AllocateContainerIP` between loading and saving. -/
def allocateContainerIP (m : ContainerToIP) (containerID : ContainerID) (requestedIP : String) :
    Decision String :=
  match m.lookup containerID with
  | some existing => .done existing
  | none =>
      match parseCIDR Config.networkCIDR with
      | none => .fail .parseCIDR
      | some (_, subnet) =>
          let reserved := buildReservedIPs subnet
          match requestedAddress subnet reserved m requestedIP with
          | some ip => .save (m.insert containerID ip) ip
          | none =>
              match scan subnet reserved m with
              | some ip => .save (m.insert containerID ip) ip
              | none => .fail .noAvailable

/-- `ReleaseContainerIP` between loading and saving. -/
def releaseContainerIP (m : ContainerToIP) (containerID : ContainerID) : Decision Unit :=
  if containerID ∈ m then .save (m.erase containerID) () else .done ()

/-! ## Host addresses -/

/-- An address of the configured network that is neither the network's, the
broadcast, the gateway's nor the bridge's. -/
structure HostAddress (ip : IP) : Prop where
  isV4 : ip.length = 4
  inside : ∃ self net, parseCIDR Config.networkCIDR = some (self, net) ∧ net.contains ip = true ∧
    ip ≠ net.ip ∧ ip ≠ broadcastIP net
  gateway : parseIP Config.gatewayIP ≠ some (as16 ip)
  bridge : ∀ self net, parseCIDR Config.bridgeIP = some (self, net) → self ≠ as16 ip

/-- The canonical texts of the host addresses. -/
def HostText : Set String := {text | ∃ ip, HostAddress ip ∧ text = dotted ip}

/-- An injective map into the host addresses. -/
abbrev Valid (m : ContainerToIP) : Prop :=
  Assignment.Valid HostText fun id => m.lookup id

/-- The configured network. -/
def subnet : IPNet := { ip := [10, 20, 0, 0], mask := [255, 255, 255, 0] }

theorem parseCIDR_networkCIDR :
    parseCIDR Config.networkCIDR = some (as16 [10, 20, 0, 0], subnet) := by decide

theorem subnet_isV4 : subnet.IsV4 := by decide

theorem ipString_as16 {ip : IP} (h : ip.length = 4) : ipString (as16 ip) = ipString ip := by
  have h16 : to4 (as16 ip) = some ip := by
    simp [to4, as16, h, v4InV6Prefix]
  rw [ipString_eq_dotted h16, ipString_eq_dotted (to4_of_length h)]

/-- **Both paths end in a host address.**  What lies in the subnet, is not its
broadcast address and has no reserved text is a host address. -/
theorem hostText_of_not_reserved {ip : IP} (hin : subnet.contains ip = true)
    (hbroadcast : equal ip (broadcastIP subnet) = false)
    (hreserved : ipString ip ∉ buildReservedIPs subnet) : ipString ip ∈ HostText := by
  obtain ⟨a, ha⟩ := subnet_isV4.exists_to4 hin
  have hlen : a.length = 4 := length_of_to4 ha
  have htext : ipString ip = ipString a := by
    rw [ipString_eq_dotted ha, ipString_eq_dotted (to4_of_length hlen)]
  rw [htext] at hreserved
  simp only [buildReservedIPs, List.mem_append, Option.mem_toList, Option.map_eq_some_iff,
    List.mem_cons, List.not_mem_nil, or_false, not_or, not_exists, not_and] at hreserved
  obtain ⟨⟨hgateway, hbridge⟩, hnet, -⟩ := hreserved
  refine ⟨a, ⟨hlen, ⟨_, subnet, parseCIDR_networkCIDR, ?_, ?_, ?_⟩, ?_, ?_⟩, ?_⟩
  · rw [← IPNet.contains_to4 subnet ha, hin]
  · rintro rfl
    exact hnet rfl
  · rintro rfl
    rw [(equal_iff ha (to4_of_length hlen)).mpr rfl] at hbroadcast
    exact absurd hbroadcast (by decide)
  · intro h
    exact hgateway _ h (ipString_as16 hlen)
  · rintro self net h rfl
    exact hbridge _ h (ipString_as16 hlen)
  · exact ipString_eq_dotted ha

/-! ## What the two paths have in common -/

/-- An address the allocator may give out in state `m`. -/
def Free (m : ContainerToIP) (ip : String) : Prop := ip ∈ HostText ∧ ¬ Used m ip

/-- An address that was requested and is given is free. -/
theorem requestedAddress_free {m : ContainerToIP} {requestedIP ip : String}
    (h : requestedAddress subnet (buildReservedIPs subnet) m requestedIP = some ip) :
    Free m ip := by
  unfold requestedAddress at h
  split_ifs at h with hempty
  obtain ⟨a, -, ha⟩ := Option.bind_eq_some_iff.mp h
  split_ifs at ha with hrange hreserved hused
  obtain rfl := Option.some.inj ha
  obtain ⟨hin, -, hbroadcast⟩ := hrange
  exact ⟨hostText_of_not_reserved hin (by simpa using hbroadcast) hreserved, hused⟩

/-- The induction is on the number of candidates left. -/
theorem scanFrom_free {m : ContainerToIP} {ip : String} (fuel : ℕ) (candidate : IP)
    (h : scanFrom subnet (buildReservedIPs subnet) m fuel candidate = some ip) : Free m ip := by
  induction fuel generalizing candidate with
  | zero => exact absurd h nofun
  | succ fuel ih =>
      rw [scanFrom] at h
      split_ifs at h with hin hbroadcast hreserved hused
      · exact ih _ h
      · exact ih _ h
      · exact ih _ h
      · obtain rfl := Option.some.inj h
        exact ⟨hostText_of_not_reserved hin (by simpa using hbroadcast) hreserved, hused⟩

/-- **What an allocation saves.**  A container that had no address gets a free
host address, and nothing else changes. -/
theorem allocate_save {m m' : ContainerToIP} {id : ContainerID} {requestedIP ip : String}
    (h : allocateContainerIP m id requestedIP = .save m' ip) :
    m.lookup id = none ∧ m' = m.insert id ip ∧ Free m ip := by
  unfold allocateContainerIP at h
  rw [parseCIDR_networkCIDR] at h
  cases hid : m.lookup id with
  | some existing => simp [hid] at h
  | none =>
      simp only [hid] at h
      cases hreq : requestedAddress subnet (buildReservedIPs subnet) m requestedIP with
      | some a =>
          simp only [hreq, Decision.save.injEq] at h
          obtain ⟨rfl, rfl⟩ := h
          exact ⟨rfl, rfl, requestedAddress_free hreq⟩
      | none =>
          simp only [hreq] at h
          cases hscan : scan subnet (buildReservedIPs subnet) m with
          | none => simp [hscan] at h
          | some a =>
              simp only [hscan, Decision.save.injEq] at h
              obtain ⟨rfl, rfl⟩ := h
              exact ⟨rfl, rfl, scanFrom_free _ _ hscan⟩

/-- An allocation that saves nothing returns the address the container has. -/
theorem allocate_done {m : ContainerToIP} {id : ContainerID} {requestedIP ip : String}
    (h : allocateContainerIP m id requestedIP = .done ip) : m.lookup id = some ip := by
  unfold allocateContainerIP at h
  rw [parseCIDR_networkCIDR] at h
  cases hid : m.lookup id with
  | some existing =>
      simp only [hid, Decision.done.injEq] at h
      rw [h]
  | none =>
      simp only [hid] at h
      split at h
      · exact absurd h nofun
      · split at h <;> exact absurd h nofun

/-- A release takes away the entry of its container, if there is one. -/
theorem release_save {m m' : ContainerToIP} {id : ContainerID} {u : Unit}
    (h : releaseContainerIP m id = .save m' u) : id ∈ m ∧ m' = m.erase id := by
  unfold releaseContainerIP at h
  split_ifs at h with hid
  simp only [Decision.save.injEq, and_true] at h
  exact ⟨hid, h.symm⟩

/-! ## Validity -/

theorem lookup_insert_eq_update (m : ContainerToIP) (id : ContainerID) (ip : String) :
    (fun i => (m.insert id ip).lookup i) = Function.update (fun i => m.lookup i) id (some ip) := by
  funext i
  rcases eq_or_ne i id with rfl | hne
  · rw [Finmap.lookup_insert, Function.update_self]
  · rw [Finmap.lookup_insert_of_ne _ hne, Function.update_of_ne hne]

theorem lookup_erase_eq_update (m : ContainerToIP) (id : ContainerID) :
    (fun i => (m.erase id).lookup i) = Function.update (fun i => m.lookup i) id none := by
  funext i
  rcases eq_or_ne i id with rfl | hne
  · rw [Finmap.lookup_erase, Function.update_self]
  · rw [Finmap.lookup_erase_ne hne, Function.update_of_ne hne]

theorem Valid.empty : Valid ∅ := Assignment.Valid.empty

/-- A free address may be given to any container. -/
theorem Valid.insert {m : ContainerToIP} (h : Valid m) {ip : String} (hip : Free m ip)
    (id : ContainerID) : Valid (m.insert id ip) := by
  rw [Valid, lookup_insert_eq_update]
  exact Assignment.Valid.assign h hip.1 (fun j hj => hip.2 ⟨j, hj⟩) id

theorem Valid.erase {m : ContainerToIP} (h : Valid m) (id : ContainerID) : Valid (m.erase id) := by
  rw [Valid, lookup_erase_eq_update]
  exact Assignment.Valid.release h id

/-- Whatever is requested, the state an allocation saves is valid again. -/
theorem Valid.allocate {m m' : ContainerToIP} (h : Valid m) {id : ContainerID}
    {requestedIP ip : String} (hsave : allocateContainerIP m id requestedIP = .save m' ip) :
    Valid m' := by
  obtain ⟨-, rfl, hfree⟩ := allocate_save hsave
  exact h.insert hfree id

theorem Valid.releaseIP {m m' : ContainerToIP} (h : Valid m) {id : ContainerID} {u : Unit}
    (hsave : releaseContainerIP m id = .save m' u) : Valid m' := by
  obtain ⟨-, rfl⟩ := release_save hsave
  exact h.erase id

/-! ## The scan gives up only when nothing is free -/

/-- The scan goes on to the candidate after this one. -/
def Passed (net : IPNet) (reserved : List String) (m : ContainerToIP) (candidate : IP) : Prop :=
  equal candidate (broadcastIP net) = true ∨ ipString candidate ∈ reserved ∨
    Used m (ipString candidate)

/-- A scan without a result has passed over every candidate it reached. -/
theorem scanFrom_eq_none {net : IPNet} {reserved : List String} {m : ContainerToIP} (fuel : ℕ)
    (candidate : IP) (h : scanFrom net reserved m fuel candidate = none) (i : ℕ) (hi : i < fuel)
    (hin : ∀ j ≤ i, net.contains (nextIP^[j] candidate) = true) :
    Passed net reserved m (nextIP^[i] candidate) := by
  induction fuel generalizing candidate i with
  | zero => omega
  | succ fuel ih =>
      have hhead : net.contains candidate = true := hin 0 (Nat.zero_le i)
      rw [scanFrom, if_pos hhead] at h
      cases i with
      | zero =>
          split_ifs at h with hbroadcast hreserved hused
          · exact .inl hbroadcast
          · exact .inr (.inl hreserved)
          · exact .inr (.inr hused)
      | succ i =>
          have htail : scanFrom net reserved m fuel (nextIP candidate) = none := by
            split_ifs at h <;> exact h
          exact ih (nextIP candidate) htail i (by omega) fun j hj => hin (j + 1) (by omega)

theorem nextIP_host (b : UInt8) (h : b + 1 ≠ 0) :
    nextIP [10, 20, 0, b] = [10, 20, 0, b + 1] := by
  simp [nextIP, increment, h]

/-- The candidates of the configured subnet, in order. -/
theorem iterate_nextIP (j : ℕ) (hj : j < 255) :
    nextIP^[j] (nextIP subnet.ip) = [10, 20, 0, UInt8.ofNat (j + 1)] := by
  induction j with
  | zero => decide
  | succ j ih =>
      have hne : UInt8.ofNat (j + 1) + 1 ≠ 0 := by
        intro h0
        have hval := congrArg UInt8.toNat h0
        simp at hval
        omega
      rw [Function.iterate_succ_apply', ih (by omega), nextIP_host _ hne]
      simp

/-- The subnet is a `/24`: the last byte is free. -/
theorem subnet_contains_iff {ip : IP} (h : ip.length = 4) :
    subnet.contains ip = true ↔ ∃ b, ip = [10, 20, 0, b] := by
  have full : ∀ x : UInt8, x &&& 255 = x := fun x => UInt8.and_neg_one
  rw [subnet_isV4.contains_iff h]
  match ip, h with
  | [a, b, c, d], _ =>
      simp only [subnet, List.zipWith_cons_cons, List.zipWith_nil_right, full, UInt8.and_zero,
        List.cons.injEq, and_true]
      constructor
      · rintro ⟨rfl, rfl, rfl⟩
        exact ⟨d, rfl, rfl, rfl, rfl⟩
      · rintro ⟨-, rfl, rfl, rfl, -⟩
        exact ⟨rfl, rfl, rfl⟩

/-- **The pool.**  The host addresses are 10.20.0.2 to 10.20.0.254. -/
theorem hostAddress_iff {ip : IP} :
    HostAddress ip ↔ ∃ b, ip = [10, 20, 0, b] ∧ b ≠ 0 ∧ b ≠ 1 ∧ b ≠ 255 := by
  have hgateway : parseIP Config.gatewayIP = some (as16 [10, 20, 0, 1]) := by decide
  have hbridge : parseCIDR Config.bridgeIP = some (as16 [10, 20, 0, 1], subnet) := by decide
  have hbroadcast : broadcastIP subnet = [10, 20, 0, 255] := by decide
  constructor
  · rintro ⟨hlen, ⟨self, net, hnet, hin, hne, hbc⟩, hgw, -⟩
    rw [parseCIDR_networkCIDR] at hnet
    obtain ⟨-, rfl⟩ := Prod.mk.inj (Option.some.inj hnet)
    obtain ⟨b, rfl⟩ := (subnet_contains_iff hlen).mp hin
    refine ⟨b, rfl, ?_, ?_, ?_⟩
    · rintro rfl
      exact hne rfl
    · rintro rfl
      exact hgw hgateway
    · rintro rfl
      exact hbc hbroadcast.symm
  · rintro ⟨b, rfl, h0, h1, h255⟩
    have hin : subnet.contains [10, 20, 0, b] = true := (subnet_contains_iff rfl).mpr ⟨b, rfl⟩
    have hself : as16 [10, 20, 0, 1] ≠ as16 [10, 20, 0, b] := by
      intro h
      exact h1 (by simpa [as16, v4InV6Prefix] using h.symm)
    refine ⟨rfl, ⟨_, subnet, parseCIDR_networkCIDR, hin, ?_, ?_⟩, ?_, ?_⟩
    · intro h
      exact h0 (by simpa [subnet] using h)
    · rw [hbroadcast]
      intro h
      exact h255 (by simpa using h)
    · rw [hgateway]
      intro h
      exact hself (Option.some.inj h)
    · intro self net h
      rw [hbridge] at h
      obtain ⟨rfl, -⟩ := Prod.mk.inj (Option.some.inj h)
      exact hself

theorem not_reserved {ip : IP} (h : HostAddress ip) : dotted ip ∉ buildReservedIPs subnet := by
  obtain ⟨b, rfl, h0, h1, h255⟩ := hostAddress_iff.mp h
  have texts : buildReservedIPs subnet =
      [dotted [10, 20, 0, 1], dotted [10, 20, 0, 1], dotted [10, 20, 0, 0],
        dotted [10, 20, 0, 255]] := by decide
  have hne : ∀ c, b ≠ c → dotted [10, 20, 0, b] ≠ dotted [10, 20, 0, c] := by
    intro c hbc h
    have heq : [10, 20, 0, b] = [10, 20, 0, c] :=
      dotted_injective (List.cons_ne_nil _ _) (List.cons_ne_nil _ _) h
    exact hbc (by simpa using heq)
  simp [texts, hne _ h0, hne _ h1, hne _ h255]

/-- A host address passes the tests of the source, in whichever form it comes. -/
theorem HostAddress.usable {ip a : IP} (h : HostAddress a) (hip : to4 ip = some a) :
    subnet.contains ip = true ∧ equal ip subnet.ip = false ∧
      equal ip (broadcastIP subnet) = false ∧ ipString ip ∉ buildReservedIPs subnet := by
  obtain ⟨b, rfl, h0, -, h255⟩ := hostAddress_iff.mp h
  have hbroadcast : broadcastIP subnet = [10, 20, 0, 255] := by decide
  refine ⟨?_, ?_, ?_, ?_⟩
  · rw [IPNet.contains_to4 subnet hip]
    exact (subnet_contains_iff rfl).mpr ⟨b, rfl⟩
  · rw [Bool.eq_false_iff, Ne, equal_iff hip (to4_of_length (by decide))]
    intro heq
    exact h0 (by simpa [subnet] using heq)
  · rw [Bool.eq_false_iff, Ne, equal_iff hip (to4_of_length (by decide)), hbroadcast]
    intro heq
    exact h255 (by simpa using heq)
  · rw [ipString_eq_dotted hip]
    exact not_reserved h

/-- A host address is passed over only when it is in use. -/
theorem HostAddress.used_of_passed {m : ContainerToIP} {ip : IP} (h : HostAddress ip)
    (hpass : Passed subnet (buildReservedIPs subnet) m ip) : Used m (dotted ip) := by
  have h4 : to4 ip = some ip := to4_of_length h.isV4
  obtain ⟨-, -, hbroadcast, hreserved⟩ := h.usable h4
  rcases hpass with heq | hmem | hused
  · rw [heq] at hbroadcast
    exact absurd hbroadcast nofun
  · exact absurd hmem hreserved
  · rwa [ipString_eq_dotted h4] at hused

/-- The scan comes to every host address, at the place that its last byte tells. -/
theorem iterate_nextIP_host (b : UInt8) (h0 : b ≠ 0) :
    nextIP^[b.toNat - 1] (nextIP subnet.ip) = [10, 20, 0, b] := by
  have hb := b.toNat_lt
  have hpos : b.toNat ≠ 0 := fun h => h0 (UInt8.toNat_inj.mp h)
  rw [iterate_nextIP _ (by omega), Nat.sub_add_cancel (by omega), UInt8.ofNat_toNat]

/-- No scan of the configured subnet runs into its bound: without a result, every
host address is in use. -/
theorem scan_eq_none {m : ContainerToIP}
    (h : scan subnet (buildReservedIPs subnet) m = none) {ip : IP} (hip : HostAddress ip) :
    Used m (dotted ip) := by
  obtain ⟨b, rfl, h0, h1, h255⟩ := hostAddress_iff.mp hip
  have hb := b.toNat_lt
  have hreach : ∀ j ≤ b.toNat - 1, subnet.contains (nextIP^[j] (nextIP subnet.ip)) = true := by
    intro j hj
    rw [iterate_nextIP j (by omega)]
    exact (subnet_contains_iff rfl).mpr ⟨_, rfl⟩
  have hlen : subnet.ip.length = 4 := rfl
  have hpass := scanFrom_eq_none _ _ h (b.toNat - 1) (by rw [hlen]; omega) hreach
  rw [iterate_nextIP_host b h0] at hpass
  exact hip.used_of_passed hpass

end Gocker.Network
