import Gocker.Ebpf.LatencyRecord
import Gocker.Lib.Machine

/-!
# The counters of packets

The exporter of `eBPF/network` counts the records of each pair of addresses (`PacketsCount`).
This module compares the counters with the packets that `ip_rcv` has seen, where the programs
of several CPUs are at work at once.

`ip_rcv` touches the shared map in one call of a helper and is one step.  `ip_rcv_finish` takes
three: it looks its hash up, submits a record, and deletes the entry, and other programs run in
between.

### What can be counted twice

Two programs in `ip_rcv_finish` with one hash can both find the entry before either deletes it, and
each submits it (`counted_twice`).  While no probe begins whose hash a program is at work with
(`Apart`), this does not happen, and `packetsCount_le` says that no counter exceeds the number of
packets received, whatever hashes collide and whatever is lost.  The traces of
`Gocker.Ebpf.Latency`, in which a probe runs at once, are runs of this kind (`reaches_run`).

The proof keeps an account of the packets of one kind (`Account`): the records submitted, with the
entries that wait in the map, are no more than the packets received, with the entries of which a
record has been submitted and which are not deleted yet.  These are in the map too, so that they
cancel.
-/

namespace Gocker.Ebpf

open Machine
open NetIP

/-! ## The counters -/

/-- `PacketsCount`, by its labels. -/
abbrev PacketsCount := String × String → ℕ

/-- `PacketsCount.WithLabelValues(srcIP, dstIP).Inc()` -/
def PacketsCount.inc (gauge : PacketsCount) (event : LatencyT) : PacketsCount :=
  let labels := (toIpV4 event.layer3.srcIp, toIpV4 event.layer3.dstIp)
  Function.update gauge labels (gauge labels + 1)

/-- The gauge after these records. -/
def packetsCount (events : List LatencyT) : PacketsCount :=
  events.foldl PacketsCount.inc fun _ => 0

/-- A packet between these addresses. -/
def L3.between (src dst : Vector UInt8 4) (layer3 : L3) : Bool :=
  layer3.srcIp = be32 src ∧ layer3.dstIp = be32 dst

/-- Different addresses have different texts. -/
theorem toIpV4_injective {a b : UInt32} (h : toIpV4 a = toIpV4 b) : a = b := by
  have hdotted : ∀ ip : UInt32, toIpV4 ip = dotted (Layout.toBytes 4 ip.toNat) := fun ip =>
    ipString_eq_dotted (to4_of_length (Layout.length_toBytes 4 ip.toNat))
  have hne : ∀ ip : UInt32, Layout.toBytes 4 ip.toNat ≠ [] := fun ip =>
    List.ne_nil_of_length_pos (by rw [Layout.length_toBytes]; exact Nat.succ_pos 3)
  rw [hdotted, hdotted] at h
  have hbytes := congrArg Layout.ofBytes (dotted_injective (hne a) (hne b) h)
  rw [Layout.ofBytes_toBytes a.toNat_lt, Layout.ofBytes_toBytes b.toNat_lt] at hbytes
  exact UInt32.toNat_inj.mp hbytes

/-- An address is printed as in the header exactly if its number was built from the bytes of the
header. -/
theorem toIpV4_eq_dotted {ip : UInt32} {bytes : Vector UInt8 4} :
    toIpV4 ip = dotted bytes.toList ↔ ip = be32 bytes := by
  rw [← toIpV4_be32]
  exact ⟨toIpV4_injective, congrArg toIpV4⟩

/-- The gauge counts the records of the pair. -/
theorem packetsCount_eq (events : List LatencyT) (src dst : Vector UInt8 4) :
    packetsCount events (dotted src.toList, dotted dst.toList) =
      events.countP fun e => e.layer3.between src dst := by
  induction events using List.reverseRecOn with
  | nil => rfl
  | append_singleton events e ih =>
      rw [packetsCount] at ih ⊢
      rw [List.foldl_concat, PacketsCount.inc, List.countP_append, List.countP_singleton, ← ih,
        Function.update_apply]
      simp only [Prod.mk.injEq, eq_comm (a := dotted _), toIpV4_eq_dotted, L3.between,
        decide_eq_true_eq]
      split_ifs with hlabels
      · rw [toIpV4_eq_dotted.mpr hlabels.1, toIpV4_eq_dotted.mpr hlabels.2]
      · rfl

/-! ## Programs on several CPUs -/

/-- A program in `ip_rcv_finish` that has found an entry.  It works on the entry where it lies in
the map; while no other program has the same hash, that is the entry as it was found. -/
structure Finishing (Packet : Type) where
  packet : Packet
  hash : UInt32
  latency : LatencyT
  /-- whether a record has been submitted -/
  submitted : Bool
deriving DecidableEq

/-- The map, the programs at work, and what they have done. -/
structure Cpus (Packet : Type) where
  latencyMap : LatencyMap
  finishing : List (Finishing Packet)
  /-- the records that have been submitted, each with the packet at which it was -/
  events : List (Packet × LatencyT)
  /-- what `ip_rcv` has read in the headers -/
  received : List L3

/-- The steps, in which the calls of the helpers are atomic. -/
inductive CpuStep (Packet : Type) where
  /-- `ip_rcv` -/
  | rcv (hash : UInt32) (now : UInt64) (layer3 : L3)
  /-- `bpf_map_lookup_elem` in `ip_rcv_finish`, which ends if it finds nothing -/
  | lookup (packet : Packet) (hash : UInt32)
  /-- a record has been reserved and is submitted -/
  | submit (program : Finishing Packet) (now : UInt64)
  /-- `bpf_map_delete_elem`, whether a record could be reserved or not -/
  | delete (program : Finishing Packet)
deriving DecidableEq

namespace Cpus

variable {Packet : Type} [DecidableEq Packet]

/-- Nothing has been probed. -/
def start : Cpus Packet where
  latencyMap := .empty
  finishing := []
  events := []
  received := []

/-- What a step does. -/
def step (s : Cpus Packet) : CpuStep Packet → Option (Cpus Packet)
  | .rcv hash now layer3 =>
      some { s with
        latencyMap := ipRcv hash now layer3 s.latencyMap
        received := s.received ++ [layer3] }
  | .lookup packet hash =>
      match s.latencyMap.lookup hash with
      | none => some s
      | some latency =>
          some { s with finishing := ⟨packet, hash, latency, false⟩ :: s.finishing }
  | .submit program now =>
      if program ∈ s.finishing ∧ program.submitted = false then
        some { s with
          finishing := { program with submitted := true } :: s.finishing.erase program
          events := s.events ++ [(program.packet, program.latency.finished now)] }
      else none
  | .delete program =>
      if program ∈ s.finishing then
        some { s with
          latencyMap := s.latencyMap.delete program.hash
          finishing := s.finishing.erase program }
      else none

/-- A probe begins only while no program is at work with its hash. -/
def Apart (s : Cpus Packet) : CpuStep Packet → Prop
  | .rcv hash _ _ => ∀ program ∈ s.finishing, program.hash ≠ hash
  | .lookup _ hash => ∀ program ∈ s.finishing, program.hash ≠ hash
  | .submit _ _ => True
  | .delete _ => True

instance (s : Cpus Packet) : ∀ e, Decidable (s.Apart e)
  | .rcv hash _ _ => inferInstanceAs (Decidable (∀ program ∈ s.finishing, program.hash ≠ hash))
  | .lookup _ hash => inferInstanceAs (Decidable (∀ program ∈ s.finishing, program.hash ≠ hash))
  | .submit _ _ => .isTrue trivial
  | .delete _ => .isTrue trivial

/-! ## The account -/

/-- What is known in every state: the programs at work have different hashes, and each has found
what the map still holds under its own; and the account of the packets of a kind. -/
structure Account (kind : L3 → Bool) (s : Cpus Packet) : Prop where
  distinct : (s.finishing.map (·.hash)).Nodup
  found : ∀ program ∈ s.finishing, s.latencyMap.lookup program.hash = some program.latency
  covered : s.events.countP (fun x => kind x.2.layer3) +
      s.latencyMap.count (fun latency => kind latency.layer3) ≤
    s.received.countP kind +
      s.finishing.countP fun program => program.submitted && kind program.latency.layer3

variable {kind : L3 → Bool} {s t : Cpus Packet} {hash : UInt32} {now : UInt64} {layer3 : L3}
  {packet : Packet} {program : Finishing Packet}

omit [DecidableEq Packet] in
theorem Account.start : Account kind (start : Cpus Packet) where
  distinct := List.nodup_nil
  found := fun _ h => absurd h List.not_mem_nil
  covered := Nat.le_refl 0

namespace Account

/-- A packet is received: one more that may wait in the map. -/
theorem rcv (h : Account kind s) (hapart : ∀ program ∈ s.finishing, program.hash ≠ hash)
    (hstep : s.step (.rcv hash now layer3) = some t) : Account kind t := by
  obtain rfl := Option.some.inj hstep
  refine ⟨h.distinct, fun program hmem => ?_, ?_⟩
  · have hne := hapart program hmem
    exact (BoundedMap.lookup_insert_of_ne hne).trans (h.found program hmem)
  · have hinsert := BoundedMap.count_insert_le (m := s.latencyMap) (k := hash)
      (v := .received now layer3) (p := fun latency => kind latency.layer3)
    have hcovered := h.covered
    simp only [ipRcv, List.countP_append, List.countP_singleton]
    have hkind : kind (LatencyT.received now layer3).layer3 = kind layer3 := rfl
    rw [hkind] at hinsert
    omega

/-- A program that finds an entry owns its hash from then on. -/
theorem lookup (h : Account kind s) (hapart : ∀ program ∈ s.finishing, program.hash ≠ hash)
    (hstep : s.step (.lookup packet hash) = some t) : Account kind t := by
  unfold step at hstep
  cases hfound : s.latencyMap.lookup hash with
  | none =>
      simp only [hfound] at hstep
      exact Option.some.inj hstep ▸ h
  | some latency =>
      simp only [hfound] at hstep
      obtain rfl := Option.some.inj hstep
      refine ⟨?_, ?_, ?_⟩
      · refine List.nodup_cons.mpr ⟨fun hmem => ?_, h.distinct⟩
        obtain ⟨program, hprogram, hhash⟩ := List.mem_map.mp hmem
        exact hapart program hprogram hhash
      · exact List.forall_mem_cons.mpr ⟨hfound, h.found⟩
      · simpa using h.covered

/-- A record is submitted: its entry is still in the map, and no longer counts there. -/
theorem submit (h : Account kind s) (hstep : s.step (.submit program now) = some t) :
    Account kind t := by
  simp only [Cpus.step] at hstep
  split_ifs at hstep with hmem
  obtain ⟨hmem, hsubmitted⟩ := hmem
  obtain rfl := Option.some.inj hstep
  have hperm := List.perm_cons_erase hmem
  refine ⟨?_, ?_, ?_⟩
  · exact (hperm.map (·.hash)).nodup_iff.mp h.distinct
  · have hfound := fun other hother => h.found other (hperm.mem_iff.mpr hother)
    rw [List.forall_mem_cons] at hfound
    exact List.forall_mem_cons.mpr hfound
  · have hcovered := h.covered
    rw [hperm.countP_eq, List.countP_cons] at hcovered
    simp only [hsubmitted, Bool.false_and, Bool.false_eq_true, if_false, Nat.add_zero] at hcovered
    have hkind : kind (program.latency.finished now).layer3 = kind program.latency.layer3 := rfl
    simp only [List.countP_append, List.countP_cons, List.countP_nil, Bool.true_and, hkind]
    omega

/-- A program ends: its entry is gone, with or without a record. -/
theorem delete (h : Account kind s) (hstep : s.step (.delete program) = some t) :
    Account kind t := by
  simp only [Cpus.step] at hstep
  split_ifs at hstep with hmem
  obtain rfl := Option.some.inj hstep
  have hperm := List.perm_cons_erase hmem
  have hdistinct := (hperm.map (·.hash)).nodup_iff.mp h.distinct
  rw [List.map_cons, List.nodup_cons] at hdistinct
  refine ⟨hdistinct.2, fun other hother => ?_, ?_⟩
  · have hne : other.hash ≠ program.hash := fun heq =>
      hdistinct.1 (heq ▸ List.mem_map_of_mem hother)
    rw [BoundedMap.lookup_delete, if_neg hne]
    exact h.found other (List.mem_of_mem_erase hother)
  · have hdelete := BoundedMap.count_delete (p := fun latency => kind latency.layer3)
      (h.found program hmem)
    have hcovered := h.covered
    rw [hperm.countP_eq, List.countP_cons] at hcovered
    show s.events.countP (fun x => kind x.2.layer3) +
        (s.latencyMap.delete program.hash).count (fun latency => kind latency.layer3) ≤
      s.received.countP kind + (s.finishing.erase program).countP fun program =>
        program.submitted && kind program.latency.layer3
    cases hsubmitted : program.submitted with
    | false =>
        simp only [hsubmitted, Bool.false_and, Bool.false_eq_true, if_false] at hcovered
        omega
    | true =>
        simp only [hsubmitted, Bool.true_and] at hcovered
        omega

/-- **A step keeps the account**, where the probes are apart. -/
theorem step {e : CpuStep Packet} (h : Account kind s) (hapart : s.Apart e)
    (hstep : s.step e = some t) : Account kind t := by
  cases e with
  | rcv hash now layer3 => exact h.rcv hapart hstep
  | lookup packet hash => exact h.lookup hapart hstep
  | submit program now => exact h.submit hstep
  | delete program => exact h.delete hstep

omit [DecidableEq Packet] in
/-- The programs that have submitted and not deleted are in the map, each under its own hash, so
that what they count twice is covered. -/
theorem events_le (h : Account kind s) :
    s.events.countP (fun x => kind x.2.layer3) ≤ s.received.countP kind := by
  have hmap : (s.finishing.map fun program => (program.hash, program.latency)).countP
      (fun e => kind e.2.layer3) ≤ s.latencyMap.count fun latency => kind latency.layer3 := by
    refine BoundedMap.countP_le_count (p := fun l : LatencyT => kind l.layer3) ?_ ?_
    · rw [List.map_map]
      exact h.distinct
    · intro e he
      obtain ⟨program, hprogram, rfl⟩ := List.mem_map.mp he
      exact h.found program hprogram
  have hsubmitted : s.finishing.countP (fun program =>
      program.submitted && kind program.latency.layer3) ≤
      s.finishing.countP fun program => kind program.latency.layer3 :=
    List.countP_mono_left fun program _ hboth => (Bool.and_eq_true_iff.mp hboth).2
  rw [List.countP_map] at hmap
  have hcovered := h.covered
  exact Nat.le_of_add_le_add_right (hcovered.trans (Nat.add_le_add_left (hsubmitted.trans hmap) _))

end Account

/-! ## The counters and the packets -/

/-- **Nothing is counted that was not there**: in every run in which the probes are apart, whatever
hashes collide and whatever is lost, the counter of a pair of addresses is at most the number of
packets from the one to the other that `ip_rcv` has seen, however many of the records have been
read. -/
theorem packetsCount_le {s : Cpus Packet} (h : Reaches step Apart start s)
    {records : List (LatencyT × Vector UInt8 latencySize)}
    (hread : records.map Prod.fst <+: s.events.map Prod.snd)
    (event : LatencyT) (src dst : Vector UInt8 4) :
    packetsCount (reported event (records.map fun r => r.1.store r.2))
        (dotted src.toList, dotted dst.toList) ≤
      s.received.countP (L3.between src dst) := by
  have haccount : Account (L3.between src dst) s :=
    h.invariant .start fun _ _ _ hs hapart hstep => hs.step hapart hstep
  rw [reported_store, packetsCount_eq]
  calc
    (records.map Prod.fst).countP (fun e => e.layer3.between src dst) ≤
        (s.events.map Prod.snd).countP fun e => e.layer3.between src dst :=
      hread.sublist.countP_le
    _ = s.events.countP fun x => x.2.layer3.between src dst := List.countP_map ..
    _ ≤ s.received.countP (L3.between src dst) := haccount.events_le

/-- Three packets, two of them with one hash, and two programs that finish at once. -/
def collided : List (CpuStep Bool) :=
  let layer3 := buildL3 captured
  [.rcv 7 10 layer3, .rcv 7 20 layer3, .rcv 8 30 layer3, .lookup false 7, .lookup true 8,
    .submit ⟨true, 8, .received 30 layer3, false⟩ 9030,
    .submit ⟨false, 7, .received 20 layer3, false⟩ 9020,
    .delete ⟨false, 7, .received 20 layer3, true⟩, .delete ⟨true, 8, .received 30 layer3, true⟩]

/-- The packet that was overwritten in the map is missing in the counter. -/
theorem packetsCount_le_collided :
    let s := outcome step Apart start collided
    let records := s.events.map fun x => (x.2, Vector.replicate latencySize (0 : UInt8))
    let event : LatencyT := .received 0 (buildL3 captured)
    let gauge := packetsCount (reported event (records.map fun r => r.1.store r.2))
    gauge (dotted captured.saddr.toList, dotted captured.daddr.toList) = 2 ∧
      s.received.countP (L3.between captured.saddr captured.daddr) = 3 ∧
      gauge (dotted captured.saddr.toList, dotted captured.daddr.toList) ≤
        s.received.countP (L3.between captured.saddr captured.daddr) := by
  intro s records event gauge
  have hread : records.map Prod.fst <+: s.events.map Prod.snd := by decide +kernel
  exact ⟨by decide +kernel, by decide +kernel,
    packetsCount_le (reaches_outcome step Apart start collided) hread _ _ _⟩

/-- Two packets of one hash, of which the second has overwritten the first, finish on two CPUs:
both programs find the entry of the second, and its addresses are counted twice. -/
theorem counted_twice :
    ∃ s : Cpus Bool, Reaches step Always start s ∧
      packetsCount (s.events.map Prod.snd)
        (dotted captured.saddr.toList, dotted captured.daddr.toList) = 2 ∧
      s.received.countP (L3.between captured.saddr captured.daddr) = 1 := by
  let found : LatencyT := .received 20 (buildL3 captured)
  let both : List (CpuStep Bool) :=
    [.rcv 7 10 (buildL3 { captured with saddr := #v[10, 20, 0, 3] }),
      .rcv 7 20 (buildL3 captured), .lookup false 7, .lookup true 7,
      .submit ⟨false, 7, found, false⟩ 9020, .submit ⟨true, 7, found, false⟩ 9030,
      .delete ⟨false, 7, found, true⟩, .delete ⟨true, 7, found, true⟩]
  exact ⟨outcome step Always start both, reaches_outcome .., by decide +kernel, by decide +kernel⟩

/-! ## Traces -/

/-- The state of a trace, in which no program is at work. -/
def idle (s : LatencyState Packet) (received : List L3) : Cpus Packet where
  latencyMap := s.latencyMap
  finishing := []
  events := s.events
  received := received

/-- A probe that runs at once is a run. -/
theorem reaches_handle (s : LatencyState Packet) (received : List L3) (p : Probe Packet) :
    Reaches step Apart (idle s received) (idle (s.handle p) (received ++ p.layer3.toList)) := by
  have hidle : ∀ program ∈ (idle s received).finishing, program.hash ≠ p.hash :=
    fun _ hmem => absurd hmem List.not_mem_nil
  obtain ⟨packet, hash, now, kind⟩ := p
  cases kind with
  | rcv layer3 => exact .head (e := .rcv hash now layer3) hidle rfl (.refl _)
  | finish reserved =>
      rw [LatencyState.handle]
      simp only [ipRcvFinish]
      cases hfound : s.latencyMap.lookup hash with
      | none =>
          refine .head (e := .lookup packet hash) hidle ?_ (.refl _)
          simp [step, idle, hfound, Probe.layer3]
      | some latency =>
          let program : Finishing Packet := ⟨packet, hash, latency, false⟩
          let found : Cpus Packet := { idle s received with finishing := [program] }
          have hlookup : (idle s received).step (.lookup packet hash) = some found := by
            simp [step, idle, hfound, found, program]
          refine .head (e := .lookup packet hash) hidle hlookup ?_
          cases reserved with
          | false =>
              refine .head (e := .delete program) trivial ?_ (.refl _)
              simp [step, found, idle, program, Probe.layer3]
          | true =>
              let sent : Cpus Packet :=
                { found with
                  finishing := [{ program with submitted := true }]
                  events := s.events ++ [(packet, latency.finished now)] }
              have hsubmit : found.step (.submit program now) = some sent := by
                simp [step, found, sent, idle, program]
              refine .head (e := .submit program now) trivial hsubmit ?_
              refine .head (e := .delete { program with submitted := true }) trivial ?_ (.refl _)
              simp [step, found, sent, idle, program, Probe.layer3]

/-- **A trace is a run** in which the probes are apart. -/
theorem reaches_run (trace : List (Probe Packet)) :
    Reaches step Apart start (idle (LatencyState.run trace) (trace.filterMap Probe.layer3)) := by
  induction trace using List.reverseRecOn with
  | nil => exact .refl _
  | append_singleton trace p ih =>
      have hrun : LatencyState.run (trace ++ [p]) = (LatencyState.run trace).handle p :=
        List.foldl_concat ..
      have hreceived : (trace ++ [p]).filterMap Probe.layer3 =
          trace.filterMap Probe.layer3 ++ p.layer3.toList := by
        rw [List.filterMap_append]
        cases hlayer : p.layer3 <;> simp [hlayer]
      rw [hrun, hreceived]
      exact ih.trans (reaches_handle _ _ p)

end Cpus

end Gocker.Ebpf
