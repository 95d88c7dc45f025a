import Gocker.Lib.BoundedMap
import Mathlib.Data.UInt

/-!
# Latency of packets

`latency.c` (`eBPF/network/bpf`) probes `ip_rcv` and `ip_rcv_finish`.  The first leaves the
time and the addresses of a packet in a map, and the second takes them out and submits a
record.  The key is the hash of the packet at the time of the probe.

A trace of probes on any number of packets is given with the packet that each is about, which
the programs do not know.  `paired_iff` says for which traces each record is about the packet
at which it was submitted, once, and none is missing because of another packet.

### One probe after the other

`pending` says what the map holds after a trace: for each hash the last packet that was received
under it and not finished since.  The records are then a function of the trace (`submitted`), and
the statements are about traces only.

A probe is one step here.  In the kernel the programs of several CPUs can be at work at once: two
of them in `ip_rcv_finish` with the same hash may both find an entry before either deletes it,
and submit it twice.  `Gocker.Ebpf.PacketsCount` takes the programs apart into their steps; the
traces of this module are the runs in which each probe runs at once.
-/

namespace Gocker.Ebpf

/-- `struct l3` -/
structure L3 where
  srcIp : UInt32
  dstIp : UInt32
  hProto : UInt8
deriving DecidableEq, Repr

/-- `struct latency_t` -/
structure LatencyT where
  timestampIn : UInt64
  timestampOut : UInt64
  delta : UInt64
  layer3 : L3
deriving DecidableEq, Repr

/-- `max_entries` of `latency_map` -/
def latencyEntries : ℕ := 1024

/-- `latency_map`, by the hash of a packet. -/
abbrev LatencyMap := BoundedMap UInt32 LatencyT latencyEntries

/-- What `ip_rcv` leaves in the map. -/
def LatencyT.received (now : UInt64) (layer3 : L3) : LatencyT where
  timestampIn := now
  timestampOut := 0
  delta := 0
  layer3 := layer3

/-- What `ip_rcv_finish` makes of it. -/
def LatencyT.finished (latency : LatencyT) (now : UInt64) : LatencyT :=
  { latency with timestampOut := now, delta := (now - latency.timestampIn) / 1000 }

/-- `ip_rcv`: the time and the addresses are left under the hash; what was there is overwritten. -/
def ipRcv (key : UInt32) (now : UInt64) (layer3 : L3) (map : LatencyMap) : LatencyMap :=
  map.insert key (.received now layer3)

/-- The map afterwards, and the record that is submitted if `bpf_ringbuf_reserve` finds
space. -/
def ipRcvFinish (key : UInt32) (now : UInt64) (reserved : Bool) (map : LatencyMap) :
    LatencyMap × Option LatencyT :=
  match map.lookup key with
  | none => (map, none)
  | some latency => (map.delete key, if reserved then some (latency.finished now) else none)

/-- Whatever it finds, nothing is left under the key. -/
theorem lookup_ipRcvFinish (key : UInt32) (now : UInt64) (reserved : Bool) (map : LatencyMap)
    (k : UInt32) :
    (ipRcvFinish key now reserved map).1.lookup k = if k = key then none else map.lookup k := by
  unfold ipRcvFinish
  cases hkey : map.lookup key with
  | none =>
      show map.lookup k = _
      split_ifs with hk
      · rw [hk, hkey]
      · rfl
  | some latency => exact BoundedMap.lookup_delete

/-! ## Traces -/

/-- Which of the two functions has been entered, and what the program finds there. -/
inductive ProbeKind where
  | rcv (layer3 : L3)
  | finish (reserved : Bool)
deriving DecidableEq, Repr

/-- A probe, with the packet that it is about. -/
structure Probe (Packet : Type) where
  packet : Packet
  /-- `skb->hash` -/
  hash : UInt32
  now : UInt64
  kind : ProbeKind
deriving DecidableEq, Repr

/-- The map, and the records that have been submitted.  A probe is one step of it:
`ip_rcv_finish` looks up, submits and deletes without another probe of the same hash in between.
On several CPUs this is not so where two packets have one hash, which is why the statements
about traces are about probes that run one after the other. -/
structure LatencyState (Packet : Type) where
  latencyMap : LatencyMap
  /-- the records that have been submitted, each with the packet at which it was -/
  events : List (Packet × LatencyT)

variable {Packet : Type}

namespace LatencyState

/-- An empty map, and no record. -/
def start : LatencyState Packet := { latencyMap := .empty, events := [] }

/-- What a probe does. -/
def handle (s : LatencyState Packet) (p : Probe Packet) : LatencyState Packet :=
  match p.kind with
  | .rcv layer3 => { s with latencyMap := ipRcv p.hash p.now layer3 s.latencyMap }
  | .finish reserved =>
      let finished := ipRcvFinish p.hash p.now reserved s.latencyMap
      { latencyMap := finished.1
        events := s.events ++ finished.2.toList.map fun latency => (p.packet, latency) }

/-- The state after these probes. -/
def run (trace : List (Probe Packet)) : LatencyState Packet := trace.foldl handle start

end LatencyState

namespace Probe

/-- The addresses, if this is the probe of `ip_rcv`. -/
def layer3 (p : Probe Packet) : Option L3 :=
  match p.kind with
  | .rcv layer3 => some layer3
  | .finish _ => none

/-- Whether the packet is being received. -/
def isRcv (p : Probe Packet) : Bool := p.layer3.isSome

end Probe

/-! ## What the map holds -/

/-- The last probe that has read this hash. -/
def lastProbe (trace : List (Probe Packet)) (hash : UInt32) : Option (Probe Packet) :=
  trace.reverse.find? (·.hash = hash)

/-- What is waiting under a hash: what the last probe with it has left, if it was `ip_rcv`. -/
def pending (trace : List (Probe Packet)) (hash : UInt32) : Option LatencyT :=
  (lastProbe trace hash).bind fun p => p.layer3.map (.received p.now)

/-- The hashes under which something is waiting. -/
def pendingHashes (trace : List (Probe Packet)) : Finset UInt32 :=
  ((trace.map (·.hash)).filter fun hash => (pending trace hash).isSome).toFinset

/-- The map never gets more than it can take. -/
def Fits (trace : List (Probe Packet)) : Prop :=
  ∀ before, before <+: trace → (pendingHashes before).card ≤ latencyEntries

/-- A beginning of a trace that fits into the map fits. -/
theorem Fits.of_prefix {trace before : List (Probe Packet)} (h : Fits trace)
    (hbefore : before <+: trace) : Fits before :=
  fun _ hb => h _ (hb.trans hbefore)

/-- What is pending after one more probe: the packet that it receives, or nothing where it
finishes one. -/
theorem pending_concat (trace : List (Probe Packet)) (p : Probe Packet) (hash : UInt32) :
    pending (trace ++ [p]) hash =
      if hash = p.hash then p.layer3.map (.received p.now) else pending trace hash := by
  rw [pending, lastProbe, List.reverse_concat, List.find?_cons]
  by_cases hhash : p.hash = hash
  · simp [hhash]
  · simp [hhash, Ne.symm hhash, pending, lastProbe]

/-- A hash that has been probed has a last probe. -/
theorem exists_lastProbe {trace : List (Probe Packet)} {own : Probe Packet} (h : own ∈ trace) :
    ∃ p, lastProbe trace own.hash = some p := by
  apply Option.isSome_iff_exists.mp
  rw [lastProbe, List.find?_isSome]
  exact ⟨own, List.mem_reverse.mpr h, decide_eq_true rfl⟩

/-- The hashes that are pending are those that something is pending for. -/
theorem mem_pendingHashes {trace : List (Probe Packet)} {hash : UInt32} :
    hash ∈ pendingHashes trace ↔ (pending trace hash).isSome = true := by
  rw [pendingHashes, List.mem_toFinset, List.mem_filter, and_iff_right_iff_imp]
  intro hsome
  unfold pending at hsome
  cases hfind : lastProbe trace hash with
  | none =>
      rw [hfind] at hsome
      cases hsome
  | some p =>
      have hhash : p.hash = hash := by simpa using List.find?_some hfind
      have hmem : p ∈ trace := List.mem_reverse.mp (List.mem_of_find?_eq_some hfind)
      exact hhash ▸ List.mem_map_of_mem hmem

/-- **The map holds what is waiting**, while it can take all of it. -/
theorem lookup_run {trace : List (Probe Packet)} (hfit : Fits trace) (hash : UInt32) :
    (LatencyState.run trace).latencyMap.lookup hash = pending trace hash := by
  induction trace using List.reverseRecOn generalizing hash with
  | nil => rfl
  | append_singleton trace p ih =>
      have hbefore := ih (hfit.of_prefix (List.prefix_append trace [p]))
      have hrun : LatencyState.run (trace ++ [p]) = (LatencyState.run trace).handle p :=
        List.foldl_concat ..
      rw [hrun, pending_concat]
      obtain ⟨packet, key, now, kind⟩ := p
      cases kind with
      | rcv layer3 =>
          have hroom : (LatencyState.run trace).latencyMap.HasRoom key := by
            refine BoundedMap.hasRoom_of_subset (fun k hk => ?_) (hfit _ (List.prefix_refl _)) ?_
            · rw [mem_pendingHashes, pending_concat]
              split_ifs
              · rfl
              · rwa [hbefore] at hk
            · rw [mem_pendingHashes, pending_concat, if_pos rfl]
              rfl
          show ((LatencyState.run trace).latencyMap.insert key _).lookup hash = _
          rw [BoundedMap.lookup_insert hroom, hbefore]
          rfl
      | finish reserved =>
          show (ipRcvFinish key now reserved (LatencyState.run trace).latencyMap).1.lookup hash = _
          rw [lookup_ipRcvFinish, hbefore]
          rfl

/-! ## What is submitted -/

/-- A probe of `ip_rcv_finish` submits what is waiting under its hash. -/
def submitted (before : List (Probe Packet)) (p : Probe Packet) : Option LatencyT :=
  match p.kind with
  | .rcv _ => none
  | .finish reserved =>
      if reserved then (pending before p.hash).map fun latency => latency.finished p.now else none

/-- A probe that submits a record is one of `ip_rcv_finish`. -/
theorem isRcv_of_submitted {before : List (Probe Packet)} {p : Probe Packet} {latency : LatencyT}
    (h : submitted before p = some latency) : p.isRcv = false := by
  unfold submitted at h
  unfold Probe.isRcv Probe.layer3
  cases hkind : p.kind with
  | rcv layer3 =>
      rw [hkind] at h
      cases h
  | finish reserved => rfl

/-- Where a record can be reserved, what is pending is submitted. -/
theorem submitted_finish {before : List (Probe Packet)} {p : Probe Packet}
    (hp : p.isRcv = false) (hspace : p.kind ≠ .finish false) :
    submitted before p = (pending before p.hash).map fun latency => latency.finished p.now := by
  unfold submitted
  cases hkind : p.kind with
  | rcv layer3 =>
      rw [Probe.isRcv, Probe.layer3, hkind] at hp
      cases hp
  | finish reserved =>
      cases reserved with
      | false => exact absurd hkind hspace
      | true => rfl

theorem events_concat {trace : List (Probe Packet)} {p : Probe Packet}
    (hfit : Fits (trace ++ [p])) :
    (LatencyState.run (trace ++ [p])).events =
      (LatencyState.run trace).events ++
        (submitted trace p).toList.map fun latency => (p.packet, latency) := by
  have hrun : LatencyState.run (trace ++ [p]) = (LatencyState.run trace).handle p :=
    List.foldl_concat ..
  have hlookup := lookup_run (hfit.of_prefix (List.prefix_append trace [p])) p.hash
  rw [hrun]
  unfold LatencyState.handle submitted
  cases p.kind with
  | rcv layer3 => exact (List.append_nil _).symm
  | finish reserved =>
      simp only [ipRcvFinish, hlookup]
      cases pending trace p.hash with
      | none => cases reserved <;> rfl
      | some latency => cases reserved <;> rfl

/-- **The records are those submitted at the probes**, in the state of the trace before. -/
theorem mem_events {trace : List (Probe Packet)} (hfit : Fits trace) {x : Packet × LatencyT} :
    x ∈ (LatencyState.run trace).events ↔
      ∃ before p, before ++ [p] <+: trace ∧ p.packet = x.1 ∧ submitted before p = some x.2 := by
  induction trace using List.reverseRecOn with
  | nil =>
      constructor
      · intro hx
        cases hx
      · rintro ⟨before, p, hpre, -⟩
        exact absurd (List.prefix_nil.mp hpre) (by simp)
  | append_singleton trace c ih =>
      rw [events_concat hfit, List.mem_append, ih (hfit.of_prefix (List.prefix_append trace [c]))]
      constructor
      · rintro (⟨before, p, hpre, hx⟩ | hx)
        · exact ⟨before, p, hpre.trans (List.prefix_append trace [c]), hx⟩
        · obtain ⟨latency, hlatency, rfl⟩ := List.mem_map.mp hx
          exact ⟨trace, c, List.prefix_refl _, rfl, Option.mem_toList.mp hlatency⟩
      · rintro ⟨before, p, hpre, hpacket, hsubmitted⟩
        rcases List.prefix_concat_iff.mp hpre with heq | hpre
        · obtain ⟨rfl, hp⟩ := List.append_inj' heq rfl
          obtain rfl := List.singleton_inj.mp hp
          right
          exact List.mem_map.mpr ⟨x.2, Option.mem_toList.mpr hsubmitted, Prod.ext hpacket rfl⟩
        · exact .inl ⟨before, p, hpre, hpacket, hsubmitted⟩

/-! ## The life of a packet -/

section
variable [DecidableEq Packet]

/-- Each packet passes `ip_rcv` once, and afterwards `ip_rcv_finish` at most once. -/
def InOrder (trace : List (Probe Packet)) : Prop :=
  ∀ packet, (trace.filter (·.packet = packet)).map Probe.isRcv <+: [true, false]

theorem InOrder.of_prefix {trace before : List (Probe Packet)} (h : InOrder trace)
    (hbefore : before <+: trace) : InOrder before :=
  fun packet => ((hbefore.filter _).map _).trans (h packet)

variable {trace before : List (Probe Packet)} {own p : Probe Packet}

/-- A packet that finishes has been received, and nothing else has happened to it. -/
theorem InOrder.exists_rcv (h : InOrder (before ++ [p])) (hp : p.isRcv = false) :
    ∃ own ∈ before, own.packet = p.packet ∧ own.isRcv = true ∧
      ∀ q ∈ before, q.packet = p.packet → q = own := by
  have hlist : (before.filter (·.packet = p.packet)).map Probe.isRcv ++ [false] <+:
      [true, false] := by
    have := h p.packet
    rwa [List.filter_append, List.map_append, List.filter_singleton, decide_eq_true rfl, cond_true,
      List.map_singleton, hp] at this
  have hmem : ∀ q, q ∈ before.filter (·.packet = p.packet) ↔ q ∈ before ∧ q.packet = p.packet :=
    fun q => by rw [List.mem_filter, decide_eq_true_iff]
  match hbefore : before.filter (·.packet = p.packet) with
  | [] => simp [hbefore] at hlist
  | [own] =>
      rw [hbefore] at hmem hlist
      have hrcv : own.isRcv = true := by simpa using hlist
      obtain ⟨hown, hpacket⟩ := (hmem own).mp (List.mem_singleton_self own)
      exact ⟨own, hown, hpacket, hrcv, fun q hq hqp =>
        List.mem_singleton.mp ((hmem q).mpr ⟨hq, hqp⟩)⟩
  | _ :: _ :: _ =>
      rw [hbefore] at hlist
      have hlength := hlist.length_le
      simp at hlength

/-- A packet is received once. -/
theorem InOrder.rcv_unique (h : InOrder trace) {a b : Probe Packet} (ha : a ∈ trace)
    (hb : b ∈ trace) (hpacket : a.packet = b.packet) (hra : a.isRcv = true)
    (hrb : b.isRcv = true) : a = b := by
  have hpair : (trace.filter (·.packet = b.packet)).Pairwise fun x y =>
      ¬ (x.isRcv = true ∧ y.isRcv = true) := by
    have hone : [true, false].Pairwise fun x y => ¬ (x = true ∧ y = true) := by decide
    exact List.pairwise_map.mp (hone.sublist (h b.packet).sublist)
  have hsymm : Std.Symm fun x y : Probe Packet => ¬ (x.isRcv = true ∧ y.isRcv = true) :=
    ⟨fun _ _ hxy hyx => hxy hyx.symm⟩
  by_contra hne
  refine hpair.forall (List.mem_filter.mpr ⟨ha, ?_⟩) (List.mem_filter.mpr ⟨hb, ?_⟩) hne ⟨hra, hrb⟩
  · exact decide_eq_true hpacket
  · exact decide_eq_true rfl

/-- A packet finishes once. -/
theorem InOrder.finish_unique (h : InOrder trace) {before' : List (Probe Packet)}
    {p' : Probe Packet} (hbefore : before ++ [p] <+: trace) (hbefore' : before' ++ [p'] <+: trace)
    (hpacket : p.packet = p'.packet) (hp : p.isRcv = false) (hp' : p'.isRcv = false) :
    before = before' ∧ p = p' := by
  -- the shorter one comes first
  wlog hle : (before ++ [p]).length ≤ (before' ++ [p']).length generalizing before before' p p'
  · obtain ⟨rfl, rfl⟩ := this hbefore' hbefore hpacket.symm hp' hp (Nat.le_of_not_le hle)
    exact ⟨rfl, rfl⟩
  have hpre : before ++ [p] <+: before' ++ [p'] :=
    List.prefix_of_prefix_length_le hbefore hbefore' hle
  rcases List.prefix_concat_iff.mp hpre with heq | hpre
  · obtain ⟨rfl, hpp⟩ := List.append_inj' heq rfl
    exact ⟨rfl, List.singleton_inj.mp hpp⟩
  · obtain ⟨own, -, -, hrcv, hunique⟩ := (h.of_prefix hbefore').exists_rcv hp'
    have hmem : p ∈ before' := hpre.subset (List.mem_append_right _ (List.mem_singleton_self p))
    rw [hunique p hmem hpacket, hrcv] at hp
    cases hp

/-! ## Pairing -/

/-- A record is about a packet. -/
def LatencyT.IsOf (latency : LatencyT) (own : Probe Packet) : Prop :=
  latency.timestampIn = own.now ∧ some latency.layer3 = own.layer3

/-- Each record is about the packet at which it was submitted, no packet has two, and a packet
whose hash has not changed has one. -/
structure Paired (trace : List (Probe Packet)) : Prop where
  own : ∀ x ∈ (LatencyState.run trace).events,
    ∃ own ∈ trace, own.packet = x.1 ∧ own.isRcv = true ∧ x.2.IsOf own
  once : ((LatencyState.run trace).events.map Prod.fst).Nodup
  complete : ∀ own ∈ trace, own.isRcv = true → ∀ p ∈ trace, p.isRcv = false →
    p.packet = own.packet → p.hash = own.hash →
      own.packet ∈ (LatencyState.run trace).events.map Prod.fst

/-- A packet that has been received and now finishes: the last probe with its hash is its own,
or one of the same time and addresses.  If the hash has changed since, it may be another
`ip_rcv_finish`. -/
def FindsOwn (before : List (Probe Packet)) (p : Probe Packet) : Prop :=
  ∀ own ∈ before, own.packet = p.packet → own.isRcv = true →
    ∀ q ∈ lastProbe before p.hash,
      (q.isRcv = true → q.now = own.now ∧ q.layer3 = own.layer3) ∧
        (p.hash = own.hash → q.isRcv = true)

/-- Every packet that finishes does. -/
def Unmixed (trace : List (Probe Packet)) : Prop :=
  ∀ before p, before ++ [p] <+: trace → p.isRcv = false → FindsOwn before p

instance (before : List (Probe Packet)) (p : Probe Packet) : Decidable (FindsOwn before p) := by
  unfold FindsOwn
  infer_instance

omit [DecidableEq Packet] in
/-- In other words, what is waiting for the packet is about it. -/
theorem waiting_iff (hown : own ∈ before) :
    ((∀ latency ∈ pending before p.hash, latency.IsOf own) ∧
        (p.hash = own.hash → (pending before p.hash).isSome = true)) ↔
      ∀ q ∈ lastProbe before p.hash,
        (q.isRcv = true → q.now = own.now ∧ q.layer3 = own.layer3) ∧
          (p.hash = own.hash → q.isRcv = true) := by
  cases hlast : lastProbe before p.hash with
  | none =>
      have hchanged : p.hash ≠ own.hash := by
        intro hhash
        obtain ⟨q, hq⟩ := exists_lastProbe hown
        rw [← hhash, hlast] at hq
        cases hq
      simp [pending, hlast, hchanged]
  | some q =>
      unfold pending Probe.isRcv
      rw [hlast]
      cases hlayer3 : q.layer3 with
      | none => simp [hlayer3]
      | some layer3 => simp [hlayer3, LatencyT.IsOf, LatencyT.received]

theorem once_events (hfit : Fits trace) (horder : InOrder trace) :
    ((LatencyState.run trace).events.map Prod.fst).Nodup := by
  induction trace using List.reverseRecOn with
  | nil => exact List.nodup_nil
  | append_singleton trace c ih =>
      have hbefore : trace <+: trace ++ [c] := List.prefix_append trace [c]
      rw [events_concat hfit, List.map_append]
      refine List.nodup_append.mpr
        ⟨ih (hfit.of_prefix hbefore) (horder.of_prefix hbefore), ?_, ?_⟩
      · cases submitted trace c with
        | none => exact List.nodup_nil
        | some latency => exact List.nodup_singleton _
      · -- no record of this packet has been submitted before
        intro packet hpacket packet' hpacket' heq
        obtain ⟨x, hx, rfl⟩ := List.mem_map.mp hpacket
        obtain ⟨y, hy, rfl⟩ := List.mem_map.mp hpacket'
        obtain ⟨latency, hlatency, rfl⟩ := List.mem_map.mp hy
        obtain ⟨before, p, hpre, hp, hsubmitted⟩ :=
          (mem_events (hfit.of_prefix hbefore)).mp hx
        obtain ⟨own, -, -, hrcv, hunique⟩ :=
          horder.exists_rcv (isRcv_of_submitted (Option.mem_toList.mp hlatency))
        have hmem : p ∈ trace :=
          hpre.subset (List.mem_append_right _ (List.mem_singleton_self p))
        have hfinish : p.isRcv = false := isRcv_of_submitted hsubmitted
        rw [hunique p hmem (hp.trans heq), hrcv] at hfinish
        cases hfinish

/-- Where the records are right, no two packets with one hash overlap. -/
theorem Paired.unmixed (h : Paired trace) (hfit : Fits trace) (horder : InOrder trace)
    (hspace : ∀ p ∈ trace, p.kind ≠ .finish false) : Unmixed trace := by
  intro before p hpre hp own hown hpacket hrcv
  have hmem : p ∈ trace := hpre.subset (List.mem_append_right _ (List.mem_singleton_self p))
  have hownmem : own ∈ trace := hpre.subset (List.mem_append_left _ hown)
  refine (waiting_iff hown).mp ⟨?_, ?_⟩
  · -- what is waiting is submitted, and so it is about the packet
    intro latency hlatency
    have hsubmitted : submitted before p = some (latency.finished p.now) := by
      rw [submitted_finish hp (hspace p hmem), hlatency, Option.map_some]
    obtain ⟨own', hown', hpacket', hrcv', hisof⟩ := h.own (p.packet, latency.finished p.now)
      ((mem_events hfit).mpr ⟨before, p, hpre, rfl, hsubmitted⟩)
    obtain rfl : own' = own :=
      horder.rcv_unique hown' hownmem (hpacket'.trans hpacket.symm) hrcv' hrcv
    exact hisof
  · -- the record of the packet can only have been submitted here
    intro hhash
    obtain ⟨x, hx, hxpacket⟩ := List.mem_map.mp
      (h.complete own hownmem hrcv p hmem hp hpacket.symm hhash)
    obtain ⟨before', p', hpre', hp', hsubmitted⟩ := (mem_events hfit).mp hx
    obtain ⟨rfl, rfl⟩ := horder.finish_unique hpre hpre'
      (hpacket.symm.trans (hxpacket.symm.trans hp'.symm)) hp (isRcv_of_submitted hsubmitted)
    rw [submitted_finish hp (hspace p hmem)] at hsubmitted
    obtain ⟨latency, hlatency, -⟩ := Option.map_eq_some_iff.mp hsubmitted
    exact Option.isSome_of_eq_some hlatency

/-- Where none overlap, a record is about the packet at which it was submitted. -/
theorem Unmixed.reports_own (h : Unmixed trace) (hfit : Fits trace) (horder : InOrder trace)
    (hspace : ∀ p ∈ trace, p.kind ≠ .finish false) {x : Packet × LatencyT}
    (hx : x ∈ (LatencyState.run trace).events) :
    ∃ own ∈ trace, own.packet = x.1 ∧ own.isRcv = true ∧ x.2.IsOf own := by
  obtain ⟨before, p, hpre, hpacket, hsubmitted⟩ := (mem_events hfit).mp hx
  have hfinish := isRcv_of_submitted hsubmitted
  have hmem : p ∈ trace := hpre.subset (List.mem_append_right _ (List.mem_singleton_self p))
  obtain ⟨own, hown, hownpacket, hrcv, -⟩ := (horder.of_prefix hpre).exists_rcv hfinish
  rw [submitted_finish hfinish (hspace p hmem)] at hsubmitted
  obtain ⟨latency, hlatency, hx2⟩ := Option.map_eq_some_iff.mp hsubmitted
  refine ⟨own, hpre.subset (List.mem_append_left _ hown), hownpacket.trans hpacket, hrcv, ?_⟩
  rw [← hx2]
  exact ((waiting_iff hown).mpr (h before p hpre hfinish own hown hownpacket hrcv)).1
    latency hlatency

theorem Unmixed.complete (h : Unmixed trace) (hfit : Fits trace) (horder : InOrder trace)
    (hspace : ∀ p ∈ trace, p.kind ≠ .finish false) (hown : own ∈ trace) (hrcv : own.isRcv = true)
    (hp : p ∈ trace) (hfinish : p.isRcv = false) (hpacket : p.packet = own.packet)
    (hhash : p.hash = own.hash) :
    own.packet ∈ (LatencyState.run trace).events.map Prod.fst := by
  obtain ⟨before, after, htrace⟩ := List.append_of_mem hp
  have hpre : before ++ [p] <+: trace :=
    ⟨after, by rw [htrace, List.append_assoc, List.singleton_append]⟩
  obtain ⟨own', hown', hpacket', hrcv', -⟩ := (horder.of_prefix hpre).exists_rcv hfinish
  obtain rfl : own' = own := horder.rcv_unique (hpre.subset (List.mem_append_left _ hown')) hown
    (hpacket'.trans hpacket) hrcv' hrcv
  obtain ⟨latency, hlatency⟩ := Option.isSome_iff_exists.mp
    (((waiting_iff hown').mpr (h before p hpre hfinish own' hown' hpacket' hrcv)).2 hhash)
  have hsubmitted : submitted before p = some (latency.finished p.now) := by
    rw [submitted_finish hfinish (hspace p hp), hlatency, Option.map_some]
  exact List.mem_map.mpr ⟨(p.packet, latency.finished p.now),
    (mem_events hfit).mpr ⟨before, p, hpre, rfl, hsubmitted⟩, hpacket⟩

/-- **Latencies are paired with the right packets** if and only if what a packet finds under
its hash when it finishes is always its own. -/
theorem paired_iff (trace : List (Probe Packet)) (hfit : Fits trace) (horder : InOrder trace)
    (hspace : ∀ p ∈ trace, p.kind ≠ .finish false) : Paired trace ↔ Unmixed trace := by
  constructor
  · intro h
    exact h.unmixed hfit horder hspace
  · intro h
    refine ⟨fun x hx => Unmixed.reports_own h hfit horder hspace hx, once_events hfit horder, ?_⟩
    intro own hown hrcv p hp hfinish hpacket hhash
    exact Unmixed.complete h hfit horder hspace hown hrcv hp hfinish hpacket hhash

omit [DecidableEq Packet] in
/-- A trace that is not longer than the map is large fits. -/
theorem fits_of_length (h : trace.length ≤ latencyEntries) : Fits trace := by
  intro before hbefore
  calc
    (pendingHashes before).card ≤
        ((before.map (·.hash)).filter fun hash => (pending before hash).isSome).length :=
      List.toFinset_card_le _
    _ ≤ (before.map (·.hash)).length := List.length_filter_le ..
    _ = before.length := List.length_map _
    _ ≤ trace.length := hbefore.length_le
    _ ≤ latencyEntries := h

omit [DecidableEq Packet] in
/-- It is enough to look at the prefixes of the trace. -/
theorem unmixed_of_inits
    (h : ∀ l ∈ trace.inits, ∀ p ∈ l.getLast?, p.isRcv = false → FindsOwn l.dropLast p) :
    Unmixed trace := by
  intro before p hpre hp
  have hone := h (before ++ [p]) ((List.mem_inits ..).mpr hpre) p List.getLast?_concat hp
  rwa [List.dropLast_concat] at hone

end

/-- Two packets are received one after the other, and finish in the other order. -/
def crossing (hash hash' : UInt32) : List (Probe Bool) :=
  [⟨false, hash, 10, .rcv ⟨1, 3, 6⟩⟩, ⟨true, hash', 20, .rcv ⟨2, 3, 6⟩⟩,
    ⟨true, hash', 5020, .finish true⟩, ⟨false, hash, 9010, .finish true⟩]

/-- Two packets with different hashes may overlap. -/
theorem paired_iff_crossing :
    (LatencyState.run (crossing 7 8)).events =
        [(true, ⟨20, 5020, 5, ⟨2, 3, 6⟩⟩), (false, ⟨10, 9010, 9, ⟨1, 3, 6⟩⟩)] ∧
      Paired (crossing 7 8) :=
  ⟨by decide +kernel,
    (paired_iff (crossing 7 8) (fits_of_length (by decide)) (by unfold InOrder; decide)
      (by decide)).mpr (unmixed_of_inits (by decide +kernel))⟩

/-- Two packets whose hashes have not been computed yet finish in turn.  The first one is
reported with the time and addresses of the second, and the second not at all. -/
theorem unpaired_without_hash :
    let trace : List (Probe Bool) := [⟨false, 0, 10, .rcv ⟨1, 3, 6⟩⟩, ⟨true, 0, 20, .rcv ⟨2, 3, 6⟩⟩,
      ⟨false, 0, 5020, .finish true⟩, ⟨true, 0, 9010, .finish true⟩]
    InOrder trace ∧ Fits trace ∧ (∀ p ∈ trace, p.kind ≠ .finish false) ∧
      (LatencyState.run trace).events = [(false, ⟨20, 5020, 5, ⟨2, 3, 6⟩⟩)] ∧ ¬ Paired trace := by
  intro trace
  have hevents : (LatencyState.run trace).events = [(false, ⟨20, 5020, 5, ⟨2, 3, 6⟩⟩)] := by
    decide +kernel
  refine ⟨by unfold InOrder; decide, fits_of_length (by decide), by decide, hevents, fun h => ?_⟩
  have hsecond := h.complete ⟨true, 0, 20, .rcv ⟨2, 3, 6⟩⟩ (by decide) rfl
    ⟨true, 0, 9010, .finish true⟩ (by decide) rfl rfl rfl
  rw [hevents] at hsecond
  exact absurd hsecond (by decide)

end Gocker.Ebpf
