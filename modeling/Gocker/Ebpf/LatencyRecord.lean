import Gocker.Ebpf.Latency
import Gocker.Lib.Layout
import Gocker.Lib.NetIP

/-!
# The records of latencies

A record of `latency.c` (`eBPF/network/bpf`) is `struct latency_t` as it lies in memory, and
`main.go` (`eBPF/network`) reads it field by field into a `LatencyT`.  In C the structure has
padding at its end, within `struct l3` and after it; in Go there is a blank field of three
bytes, and what is left of a record is not read.

`latency_decoded` says that a record is read as it was submitted, and that its addresses are
printed as they stood in the header of the packet.

### Byte orders

The header has its addresses in network order.  `build_l3` copies their four bytes into a
`__be32` as they are, which is a number with the bytes the other way round for a machine that is
little-endian (`be32`).  The record carries it as it lies in memory, `binary.Read` is told that
the bytes are little-endian, and `toIpV4` writes the number into four bytes in that same order,
which it then prints from the first to the last.  The theorem goes through all of this; that
the addresses come out as in the header is the result, not an assumption.
-/

namespace Gocker.Ebpf

open Layout (Bytes)
open NetIP

/-! ## The program in the kernel -/

/-- `struct iphdr`, as far as it is read. -/
structure Iphdr where
  protocol : UInt8
  saddr : Vector UInt8 4
  daddr : Vector UInt8 4
deriving DecidableEq, Repr

/-- A `__be32` as a little-endian host reads it. -/
def be32 (bytes : Vector UInt8 4) : UInt32 := .ofNat (Layout.ofBytes bytes.toList)

/-- `build_l3`: the bytes of the addresses are copied as they are. -/
def buildL3 (iphr : Iphdr) : L3 where
  srcIp := be32 iphr.saddr
  dstIp := be32 iphr.daddr
  hProto := iphr.protocol

/-- The sizes of the fields of `struct latency_t`, those of `layer_3` at the end. -/
def latencyFields : List ℕ := [8, 8, 8, 4, 4, 1]

/-- `sizeof(struct latency_t)` -/
def latencySize : ℕ := Layout.size latencyFields

example : Layout.offsets latencyFields = [0, 8, 16, 24, 28, 32] ∧ latencySize = 40 := by decide

/-- The members of a record, in their order. -/
def LatencyT.values (latency : LatencyT) : List ℕ :=
  [latency.timestampIn.toNat, latency.timestampOut.toNat, latency.delta.toNat,
    latency.layer3.srcIp.toNat, latency.layer3.dstIp.toNat, latency.layer3.hProto.toNat]

/-- The bytes of a record, where `mem` is what was in the memory of the structure: the padding
keeps it. -/
def LatencyT.store (latency : LatencyT) (mem : Vector UInt8 latencySize) : Bytes :=
  Layout.overwrite 0 latencyFields latency.values mem.toList

/-! ## The exporter -/

/-- The sizes of the fields of the Go structure; the last one is blank. -/
def goFields : List ℕ := latencyFields ++ [3]

/-- `binary.Read` into the structure that the record before has been read into.  A record that
is too short is an error. -/
def binaryRead (event : LatencyT) (rawSample : Bytes) : Option LatencyT :=
  match Layout.unpack goFields rawSample with
  | some [timestampIn, timestampOut, delta, srcIP, dstIP, hProto, _] =>
      some { event with
        timestampIn := .ofNat timestampIn
        timestampOut := .ofNat timestampOut
        delta := .ofNat delta
        layer3 := { event.layer3 with
          srcIp := .ofNat srcIP
          dstIp := .ofNat dstIP
          hProto := .ofNat hProto } }
  | _ => none

/-- The loop of the exporter: the records it reports, all read into one variable.  One that
cannot be read is skipped. -/
def reported : LatencyT → List Bytes → List LatencyT
  | _, [] => []
  | event, rawSample :: rawSamples =>
      match binaryRead event rawSample with
      | none => reported event rawSamples
      | some event => event :: reported event rawSamples

/-- `toIpV4`: the bytes of the number, the lowest first, as an address. -/
def toIpV4 (ip : UInt32) : String := ipString (Layout.toBytes 4 ip.toNat)

/-! ## Reading a record -/

section
variable (latency : LatencyT) (mem : Vector UInt8 latencySize)

theorem LatencyT.length_values : latencyFields.length = latency.values.length := rfl

/-- A record in memory: its members, and then the padding that was there before. -/
theorem LatencyT.store_eq :
    latency.store mem = Layout.packed latencyFields latency.values ++ mem.toList.drop 33 :=
  Layout.overwrite_of_noGaps (by decide) latency.length_values mem.toList

theorem LatencyT.length_store : (latency.store mem).length = latencySize := by
  rw [store_eq, List.length_append, Layout.length_packed latency.length_values, List.length_drop,
    Vector.length_toList]
  decide

/-- Every value is one of its field. -/
theorem LatencyT.values_fit : List.Forall₂ (fun w v => v < 256 ^ w) latencyFields latency.values :=
  .cons latency.timestampIn.toNat_lt <| .cons latency.timestampOut.toNat_lt <|
    .cons latency.delta.toNat_lt <| .cons latency.layer3.srcIp.toNat_lt <|
      .cons latency.layer3.dstIp.toNat_lt <| .cons latency.layer3.hProto.toNat_lt .nil

/-- **A record is read as it was**, whatever the padding and whatever was read before. -/
theorem binaryRead_store (event : LatencyT) :
    binaryRead event (latency.store mem) = some latency := by
  have hlong : ¬ (latency.store mem).length < Layout.packedSize goFields := by
    rw [latency.length_store]
    decide
  have hread : Layout.unpack goFields (latency.store mem) =
      some (latency.values ++ Layout.unpackFields [3] (mem.toList.drop 33)) := by
    rw [Layout.unpack, if_neg hlong, latency.store_eq, goFields,
      Layout.unpackFields_packed latency.values_fit]
  simp only [binaryRead, hread, LatencyT.values, List.cons_append, List.nil_append,
    Layout.unpackFields, UInt64.ofNat_toNat, UInt32.ofNat_toNat, UInt8.ofNat_toNat]

end

/-- The exporter reports the records in turn. -/
theorem reported_store (event : LatencyT) (records : List (LatencyT × Vector UInt8 latencySize)) :
    reported event (records.map fun r => r.1.store r.2) = records.map Prod.fst := by
  induction records generalizing event with
  | nil => rfl
  | cons r records ih =>
      rw [List.map_cons, reported, binaryRead_store]
      exact congrArg (r.1 :: ·) (ih r.1)

/-- An address is printed as it stands in the header. -/
theorem toIpV4_be32 (bytes : Vector UInt8 4) : toIpV4 (be32 bytes) = dotted bytes.toList := by
  have hlength : bytes.toList.length = 4 := bytes.length_toList
  have hlt : Layout.ofBytes bytes.toList < 2 ^ 32 := by
    have h := Layout.ofBytes_lt bytes.toList
    rwa [hlength] at h
  have hbytes : Layout.toBytes 4 (be32 bytes).toNat = bytes.toList := by
    have h := Layout.toBytes_ofBytes bytes.toList
    rw [be32, UInt32.toNat_ofNat_of_lt' hlt]
    rwa [hlength] at h
  rw [toIpV4, hbytes]
  exact ipString_eq_dotted (to4_of_length hlength)

/-! ## The records of a trace -/

variable {Packet : Type}

/-- What is in the map has been left by a probe of `ip_rcv`. -/
theorem received_of_lookup {trace : List (Probe Packet)} {hash : UInt32} {latency : LatencyT}
    (h : (LatencyState.run trace).latencyMap.lookup hash = some latency) :
    ∃ own ∈ trace, own.layer3 = some latency.layer3 ∧ latency.timestampIn = own.now := by
  induction trace using List.reverseRecOn generalizing hash with
  | nil =>
      rw [show (LatencyState.run ([] : List (Probe Packet))).latencyMap = .empty from rfl,
        BoundedMap.lookup_empty] at h
      cases h
  | append_singleton trace p ih =>
      have earlier {key : UInt32}
          (hkey : (LatencyState.run trace).latencyMap.lookup key = some latency) :
          ∃ own ∈ trace ++ [p], own.layer3 = some latency.layer3 ∧
            latency.timestampIn = own.now := by
        obtain ⟨own, hown, hlayer, hnow⟩ := ih hkey
        exact ⟨own, List.mem_append_left _ hown, hlayer, hnow⟩
      have hrun : LatencyState.run (trace ++ [p]) = (LatencyState.run trace).handle p :=
        List.foldl_concat ..
      rw [hrun, LatencyState.handle] at h
      cases hkind : p.kind with
      | rcv layer3 =>
          simp only [hkind, ipRcv] at h
          rcases BoundedMap.lookup_of_insert h with ⟨-, rfl⟩ | hbefore
          · refine ⟨p, List.mem_append_right _ (List.mem_singleton_self p), ?_, rfl⟩
            rw [Probe.layer3, hkind]
            rfl
          · exact earlier hbefore
      | finish reserved =>
          simp only [hkind] at h
          rw [lookup_ipRcvFinish] at h
          split_ifs at h
          exact earlier h

/-- What `ip_rcv_finish` submits was in the map, up to the times. -/
theorem finished_of_submitted {key : UInt32} {now : UInt64} {reserved : Bool} {map : LatencyMap}
    {record : LatencyT} (h : (ipRcvFinish key now reserved map).2 = some record) :
    ∃ latency, map.lookup key = some latency ∧ record = latency.finished now := by
  unfold ipRcvFinish at h
  cases hkey : map.lookup key with
  | none =>
      rw [hkey] at h
      cases h
  | some latency =>
      simp only [hkey] at h
      split_ifs at h
      exact ⟨latency, rfl, (Option.some.inj h).symm⟩

/-- The addresses of a record are those of a packet that has been received, at the time that
the record says. -/
theorem received_of_event {trace : List (Probe Packet)} {x : Packet × LatencyT}
    (hx : x ∈ (LatencyState.run trace).events) :
    ∃ own ∈ trace, own.layer3 = some x.2.layer3 ∧ x.2.timestampIn = own.now := by
  induction trace using List.reverseRecOn with
  | nil => cases hx
  | append_singleton trace p ih =>
      have later {own : Probe Packet} (hown : own ∈ trace) : own ∈ trace ++ [p] :=
        List.mem_append_left _ hown
      have hrun : LatencyState.run (trace ++ [p]) = (LatencyState.run trace).handle p :=
        List.foldl_concat ..
      rw [hrun, LatencyState.handle] at hx
      cases hkind : p.kind with
      | rcv layer3 =>
          simp only [hkind] at hx
          obtain ⟨own, hown, hsame⟩ := ih hx
          exact ⟨own, later hown, hsame⟩
      | finish reserved =>
          simp only [hkind] at hx
          rcases List.mem_append.mp hx with hbefore | hnow
          · obtain ⟨own, hown, hsame⟩ := ih hbefore
            exact ⟨own, later hown, hsame⟩
          · obtain ⟨record, hrecord, rfl⟩ := List.mem_map.mp hnow
            obtain ⟨latency, hlookup, rfl⟩ :=
              finished_of_submitted (Option.mem_toList.mp hrecord)
            obtain ⟨own, hown, hsame⟩ := received_of_lookup hlookup
            exact ⟨own, later hown, hsame⟩

/-- **A record is decoded to what was encoded**, for every record that is submitted in a trace
of probes: the exporter reads its times, addresses and protocol whatever is in the padding and
whatever it has read before, and prints the bytes of the addresses in the order they have in
the header. -/
theorem latency_decoded (trace : List (Probe Packet)) (x : Packet × LatencyT)
    (hx : x ∈ (LatencyState.run trace).events) :
    (∀ mem event, binaryRead event (x.2.store mem) = some x.2) ∧
      ∃ own ∈ trace, own.layer3 = some x.2.layer3 ∧ x.2.timestampIn = own.now ∧
        ∀ iphr, own.layer3 = some (buildL3 iphr) →
          toIpV4 x.2.layer3.srcIp = dotted iphr.saddr.toList ∧
          toIpV4 x.2.layer3.dstIp = dotted iphr.daddr.toList ∧
          x.2.layer3.hProto = iphr.protocol := by
  refine ⟨fun mem event => binaryRead_store x.2 mem event, ?_⟩
  obtain ⟨own, hown, hlayer, hnow⟩ := received_of_event hx
  refine ⟨own, hown, hlayer, hnow, fun iphr hiphr => ?_⟩
  have hbuilt : x.2.layer3 = buildL3 iphr := Option.some.inj (hlayer.symm.trans hiphr)
  rw [hbuilt]
  exact ⟨toIpV4_be32 iphr.saddr, toIpV4_be32 iphr.daddr, rfl⟩

/-- A packet from 10.20.0.2 to 10.20.0.255. -/
def captured : Iphdr := { protocol := 6, saddr := #v[10, 20, 0, 2], daddr := #v[10, 20, 0, 255] }

/-- A packet of two microseconds, from its two probes to the printed record. -/
theorem latency_decoded_captured :
    let trace : List (Probe Unit) :=
      [⟨(), 7, 10, .rcv (buildL3 captured)⟩, ⟨(), 7, 9010, .finish true⟩]
    let record : LatencyT := ⟨10, 9010, 9, buildL3 captured⟩
    ((), record) ∈ (LatencyState.run trace).events ∧
      (∀ mem event, binaryRead event (record.store mem) = some record) ∧
      toIpV4 record.layer3.srcIp = "10.20.0.2" ∧ toIpV4 record.layer3.dstIp = "10.20.0.255" := by
  intro trace record
  have hx : ((), record) ∈ (LatencyState.run trace).events := by decide +kernel
  obtain ⟨hread, own, hown, hlayer, -, hprinted⟩ := latency_decoded trace ((), record) hx
  obtain ⟨hsrc, hdst, -⟩ := hprinted captured hlayer
  exact ⟨hx, hread, hsrc.trans (by decide), hdst.trans (by decide)⟩

end Gocker.Ebpf
