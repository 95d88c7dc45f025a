import Gocker.Lib.Layout
import Gocker.Obsv.Checks

/-!
# Records of page faults

`pf.bpf.c` (`eBPF/pf-mvp`) stores a `struct event` in the memory that it has reserved in the
ring buffer.  The exporter (`cmd/pf_exporter/main.go`) reads the sample with `binary.Read` into
a structure with the same fields, which for Go follow one another.

`decode_store` says what the exporter makes of a record, and `decoded_iff` for
which ones this is what was stored.

### Where the layouts differ

In C a member of eight bytes lies at a multiple of eight: the two numbers of the process end at
offset 20, the id of the cgroup begins at 24, with four bytes of padding between them.  In Go
`binary.Read` knows no padding, and the id is read from offset 20.  So all that follows is
shifted by four bytes, and the four bytes that the exporter takes for the first half of the id
are those that happened to be in the memory.
-/

namespace Gocker.Ebpf.PageFault

open Layout (Bytes)
open Gocker.Obsv (Task)

/-- `struct event` in C, and `event` in Go -/
structure Event where
  tsNs : UInt64
  /-- 1 for user space, 2 for the kernel -/
  type : UInt32
  pid : UInt32
  tgid : UInt32
  cgroupId : UInt64
  comm : Vector UInt8 16
deriving DecidableEq, Repr

/-- The sizes of the fields; `comm` is 16 fields. -/
def eventFields : List ℕ := [8, 4, 4, 4, 8] ++ List.replicate 16 1

namespace Event

/-- The members of an event, in their order, with each byte of the name as one. -/
def values (e : Event) : List ℕ :=
  [e.tsNs.toNat, e.type.toNat, e.pid.toNat, e.tgid.toNat, e.cgroupId.toNat] ++
    e.comm.toList.map UInt8.toNat

/-- The name from its bytes. -/
def commOf (values : List ℕ) : Vector UInt8 16 := Vector.ofFn fun i => .ofNat (values.getD i 0)

/-- An event from the members. -/
def ofValues : List ℕ → Option Event
  | ts :: type :: pid :: tgid :: cgid :: comm =>
      some ⟨.ofNat ts, .ofNat type, .ofNat pid, .ofNat tgid, .ofNat cgid, commOf comm⟩
  | _ => none

end Event

/-- `sizeof(struct event)` -/
def eventSize : ℕ := Layout.size eventFields

/-! ## The program -/

/-- The constants, which user space can rewrite before it loads the program. -/
structure Rodata where
  sampleRate : UInt32
  enableFilter : UInt32
  targetLevel : UInt32
  targetCgid : UInt64
deriving DecidableEq, Repr

/-- What the helpers return. -/
structure FaultCtx where
  ktimeGetNs : UInt64
  currentPidTgid : UInt64
  current : Task
  currentComm : Vector UInt8 16
  /-- what `bpf_ringbuf_reserve` gives, with whatever is in it -/
  reserved : Option (Vector UInt8 eventSize)

/-- `pass_cgroup_filter`: without the filter every task passes, with it those whose ancestor at
the level is the target. -/
def passCgroupFilter (c : Rodata) (current : Task) : Bool :=
  if c.enableFilter = 0 then true
  else
    let anc := current.ancestorCgroupID c.targetLevel
    if anc = 0 then false else anc = c.targetCgid

/-- The event that the program fills in. -/
def FaultCtx.event (ctx : FaultCtx) (type : UInt32) : Event where
  tsNs := ctx.ktimeGetNs
  type := type
  pid := ctx.currentPidTgid.toUInt32
  tgid := (ctx.currentPidTgid >>> 32).toUInt32
  cgroupId := ctx.current.cgroupID
  comm := ctx.currentComm

/-- The fields are stored one by one, and the padding stays what it is. -/
def Event.store (e : Event) (mem : Vector UInt8 eventSize) : Bytes :=
  Layout.overwrite 0 eventFields e.values mem.toList

/-- `handle_fault`, with the counter of this CPU: the counter afterwards, and the sample that
is submitted. -/
def handleFault (c : Rodata) (type : UInt32) (ctx : FaultCtx) (cnt : UInt64) :
    UInt64 × Option Bytes :=
  if passCgroupFilter c ctx.current = false then (cnt, none)
  else
    let val := cnt + 1
    let rate := if c.sampleRate ≠ 0 then c.sampleRate else 1
    if val % rate.toUInt64 ≠ 0 then (val, none)
    else (val, ctx.reserved.map (ctx.event type).store)

/-! ## The exporter -/

/-- A sample is skipped if it is too short, or cannot be read. -/
def decode (rawSample : Bytes) : Option Event :=
  if rawSample.length < Layout.packedSize eventFields then none
  else (Layout.unpack eventFields rawSample).bind Event.ofValues

/-! ## What is decoded -/

/-- The four bytes between `tgid` and `cgroup_id`. -/
def padding (mem : Vector UInt8 eventSize) : Bytes := (mem.toList.drop 20).take 4

/-- The bytes of the cgroup's id. -/
def Event.cgroupBytes (e : Event) : Bytes := Layout.toBytes 8 e.cgroupId.toNat

/-- The bytes that are read as `comm`. -/
def Event.shiftedComm (e : Event) : Bytes := e.cgroupBytes.drop 4 ++ e.comm.toList.take 12

/-- The event as it is read four bytes early from the padding on. -/
def Event.shifted (e : Event) (padding : Bytes) : Event :=
  { e with
    cgroupId := .ofNat (Layout.ofBytes (padding ++ e.cgroupBytes.take 4))
    comm := Event.commOf (e.shiftedComm.map UInt8.toNat) }

variable (e : Event) (mem : Vector UInt8 eventSize)

/-- The memory of a record. -/
theorem store_eq :
    e.store mem =
      Layout.toBytes 8 e.tsNs.toNat ++ (Layout.toBytes 4 e.type.toNat ++
        (Layout.toBytes 4 e.pid.toNat ++ (Layout.toBytes 4 e.tgid.toNat ++
          (padding mem ++ (e.cgroupBytes ++ e.comm.toList))))) := by
  have hlength : mem.toList.length = 48 := mem.length_toList
  have hcomm : ∀ pos old, Layout.overwrite pos (List.replicate 16 1)
      (e.comm.toList.map UInt8.toNat) old = e.comm.toList ++ old.drop 16 := by
    intro pos old
    have h := Layout.overwrite_replicate_one pos e.comm.toList old
    rwa [e.comm.length_toList] at h
  have hend : mem.toList.drop 48 = [] := List.drop_eq_nil_of_le hlength.le
  unfold Event.store eventFields Event.values
  simp only [List.cons_append, List.nil_append, Layout.overwrite, hcomm, List.drop_drop,
    List.append_assoc]
  show mem.toList.take 0 ++ (_ ++ ((mem.toList.drop 8).take 0 ++ (_ ++
    ((mem.toList.drop 12).take 0 ++ (_ ++ ((mem.toList.drop 16).take 0 ++ (_ ++
      ((mem.toList.drop 20).take 4 ++ (_ ++ (_ ++ mem.toList.drop 48)))))))))) = _
  rw [hend, List.append_nil]
  rfl

theorem length_padding : (padding mem).length = 4 := by
  rw [padding, List.length_take, List.length_drop, Vector.length_toList]
  rfl

theorem length_cgroupBytes : e.cgroupBytes.length = 8 := Layout.length_toBytes 8 _

/-- A name that is shifted is as long as one that is not. -/
theorem length_shiftedComm : e.shiftedComm.length = 16 := by
  rw [Event.shiftedComm, List.length_append, List.length_drop, length_cgroupBytes,
    List.length_take, Vector.length_toList]
  rfl

/-- The fields of a record when they are read one after the other. -/
theorem unpackFields_store :
    Layout.unpackFields eventFields (e.store mem) =
      [e.tsNs.toNat, e.type.toNat, e.pid.toNat, e.tgid.toNat,
        Layout.ofBytes (padding mem ++ e.cgroupBytes.take 4)] ++
          e.shiftedComm.map UInt8.toNat := by
  have hshift : padding mem ++ (e.cgroupBytes ++ e.comm.toList) =
      (padding mem ++ e.cgroupBytes.take 4) ++ (e.shiftedComm ++ e.comm.toList.drop 12) := by
    rw [Event.shiftedComm, List.append_assoc, List.append_assoc, List.take_append_drop,
      ← List.append_assoc (e.cgroupBytes.take 4), List.take_append_drop]
  have hcgroup : (padding mem ++ e.cgroupBytes.take 4).length = 8 := by
    rw [List.length_append, length_padding, List.length_take, length_cgroupBytes]
    rfl
  have hcomm : Layout.unpackFields (List.replicate 16 1)
      (e.shiftedComm ++ e.comm.toList.drop 12) = e.shiftedComm.map UInt8.toNat := by
    have h := Layout.unpackFields_replicate_one e.shiftedComm (e.comm.toList.drop 12)
    rwa [length_shiftedComm] at h
  rw [store_eq, hshift, eventFields]
  simp only [List.cons_append, List.nil_append]
  rw [Layout.unpackFields_append (Layout.length_toBytes 8 _),
    Layout.unpackFields_append (Layout.length_toBytes 4 _),
    Layout.unpackFields_append (Layout.length_toBytes 4 _),
    Layout.unpackFields_append (Layout.length_toBytes 4 _),
    Layout.unpackFields_append hcgroup, hcomm, Layout.ofBytes_toBytes e.tsNs.toNat_lt,
    Layout.ofBytes_toBytes e.type.toNat_lt, Layout.ofBytes_toBytes e.pid.toNat_lt,
    Layout.ofBytes_toBytes e.tgid.toNat_lt]

/-- **The exporter accepts every record**, and reads its end four bytes early. -/
theorem decode_store : decode (e.store mem) = some (e.shifted (padding mem)) := by
  have hlong : ¬ (e.store mem).length < Layout.packedSize eventFields := by
    rw [store_eq]
    simp only [List.length_append, Layout.length_toBytes, length_padding, length_cgroupBytes,
      Vector.length_toList]
    decide
  rw [decode, if_neg hlong, Layout.unpack, if_neg hlong, unpackFields_store, Option.bind_some]
  simp only [List.cons_append, List.nil_append, Event.ofValues, Event.shifted, UInt64.ofNat_toNat,
    UInt32.ofNat_toNat]

/-! ## When this is the same -/

/-- A number is that of some bytes exactly if the bytes are its own. -/
theorem ofNat_ofBytes_eq_iff {bs : Bytes} (h : bs.length = 8) (v : UInt64) :
    UInt64.ofNat (Layout.ofBytes bs) = v ↔ bs = Layout.toBytes 8 v.toNat := by
  constructor
  · rintro rfl
    have hlt : Layout.ofBytes bs < 2 ^ 64 := by simpa [h] using Layout.ofBytes_lt bs
    rw [UInt64.toNat_ofNat_of_lt' hlt, ← h, Layout.toBytes_ofBytes]
  · rintro rfl
    rw [Layout.ofBytes_toBytes v.toNat_lt, UInt64.ofNat_toNat]

theorem toList_commOf {bs : Bytes} (h : bs.length = 16) :
    (Event.commOf (bs.map UInt8.toNat)).toList = bs := by
  apply List.ext_getElem
  · rw [Vector.length_toList, h]
  · intro i hi hi'
    simp [Event.commOf, hi']

/-- What is shifted is the event itself exactly if the bytes of the id and of the name agree
with themselves four places on. -/
theorem shifted_eq_iff_bytes :
    e.shifted (padding mem) = e ↔
      padding mem ++ e.cgroupBytes.take 4 = e.cgroupBytes ∧ e.shiftedComm = e.comm.toList := by
  have hcgroup : (padding mem ++ e.cgroupBytes.take 4).length = 8 := by
    rw [List.length_append, length_padding, List.length_take, length_cgroupBytes]
    rfl
  have hid := ofNat_ofBytes_eq_iff hcgroup e.cgroupId
  have hcomm : Event.commOf (e.shiftedComm.map UInt8.toNat) = e.comm ↔
      e.shiftedComm = e.comm.toList := by
    rw [← Vector.toList_inj, toList_commOf (length_shiftedComm e)]
  rw [← Event.cgroupBytes] at hid
  rw [← hid, ← hcomm]
  constructor
  · intro h
    exact ⟨congrArg Event.cgroupId h, congrArg Event.comm h⟩
  · rintro ⟨hcgroupId, hcomm⟩
    rw [Event.shifted, hcgroupId, hcomm]

/-- A list that does not change when it is shifted by `p` begins with `p` again and again. -/
theorem take_of_shift {p l : Bytes} {n : ℕ} (h : p ++ l.take n = l) {m : ℕ} (hm : m ≤ n) :
    l.take (p.length + m) = p ++ l.take m := by
  calc
    l.take (p.length + m) = (p ++ l.take n).take (p.length + m) := by rw [h]
    _ = p ++ (l.take n).take m := by rw [List.take_length_add_append]
    _ = p ++ l.take m := by rw [List.take_take, Nat.min_eq_left hm]

/-- **Nothing is changed by the shift** if and only if the number of the cgroup and the name
consist of the four bytes of the padding. -/
theorem shifted_eq_iff :
    e.shifted (padding mem) = e ↔
      e.cgroupBytes = padding mem ++ padding mem ∧
        e.comm.toList = padding mem ++ (padding mem ++ (padding mem ++ padding mem)) := by
  have hpad := length_padding mem
  rw [shifted_eq_iff_bytes]
  constructor
  · rintro ⟨hcgroup, hcomm⟩
    have hfirst : e.cgroupBytes.take 4 = padding mem := by
      have h := take_of_shift hcgroup (Nat.zero_le 4)
      rwa [hpad, List.take_zero, List.append_nil] at h
    have htwice : e.cgroupBytes = padding mem ++ padding mem := by rw [← hcgroup, hfirst]
    have hsecond : e.cgroupBytes.drop 4 = padding mem := by rw [htwice, List.drop_left' hpad]
    have hshift : padding mem ++ e.comm.toList.take 12 = e.comm.toList := by
      rwa [Event.shiftedComm, hsecond] at hcomm
    have h4 := take_of_shift hshift (Nat.zero_le 12)
    have h8 := take_of_shift hshift (m := 4) (by decide)
    have h12 := take_of_shift hshift (m := 8) (by decide)
    rw [hpad] at h4 h8 h12
    rw [List.take_zero, List.append_nil] at h4
    refine ⟨htwice, ?_⟩
    calc
      e.comm.toList = padding mem ++ e.comm.toList.take 12 := hshift.symm
      _ = padding mem ++ (padding mem ++ (padding mem ++ padding mem)) := by rw [h12, h8, h4]
  · rintro ⟨hcgroup, hcomm⟩
    have h12 : (padding mem ++ (padding mem ++ padding mem)).length = 12 := by simp [hpad]
    constructor
    · rw [hcgroup, List.take_left' hpad]
    · have htake : e.comm.toList.take 12 = padding mem ++ (padding mem ++ padding mem) := by
        have hassoc : e.comm.toList =
            (padding mem ++ (padding mem ++ padding mem)) ++ padding mem := by
          rw [hcomm, List.append_assoc, List.append_assoc]
        rw [hassoc, List.take_left' h12]
      rw [Event.shiftedComm, hcgroup, List.drop_left' hpad, htake, hcomm]

/-- What is submitted is the event. -/
theorem sample_eq {c : Rodata} {type : UInt32} {ctx : FaultCtx} {cnt : UInt64}
    {mem : Vector UInt8 eventSize} {sample : Bytes} (hmem : ctx.reserved = some mem)
    (h : (handleFault c type ctx cnt).2 = some sample) :
    sample = (ctx.event type).store mem := by
  simp only [handleFault, hmem, Option.map_some] at h
  split_ifs at h
  all_goals exact (Option.some.inj h).symm

/-- **A page fault is exported as it was recorded** if and only if the number of the cgroup
and the name consist of the four bytes that were in the padding. -/
theorem decoded_iff (c : Rodata) (type : UInt32) (ctx : FaultCtx) (cnt : UInt64)
    (mem : Vector UInt8 eventSize) (hmem : ctx.reserved = some mem) (sample : Bytes)
    (h : (handleFault c type ctx cnt).2 = some sample) :
    decode sample = some (ctx.event type) ↔
      (ctx.event type).cgroupBytes = padding mem ++ padding mem ∧
        ctx.currentComm.toList =
          padding mem ++ (padding mem ++ (padding mem ++ padding mem)) := by
  rw [sample_eq hmem h, decode_store, Option.some_inj]
  exact shifted_eq_iff (ctx.event type) mem

/-- A fault in user space of a task `gocker`, with zeros in the padding. -/
def faulting (cgroupId : UInt64) (comm : Vector UInt8 16) : FaultCtx where
  ktimeGetNs := 1000
  currentPidTgid := 7
  current := { pid := 7, cgroups := [cgroupId] }
  currentComm := comm
  reserved := some (Vector.replicate 48 0)

/-- The constants of a program that lets every task pass. -/
def unfiltered : Rodata := { sampleRate := 1, enableFilter := 0, targetLevel := 0, targetCgid := 0 }

/-- The bytes `1 0 0 0` in the padding, twice in the number of the cgroup, and four times in the
name. -/
theorem decoded_iff_padding :
    let mem : Vector UInt8 eventSize := (Vector.replicate eventSize 0).set 20 1
    let comm : Vector UInt8 16 := #v[1, 0, 0, 0, 1, 0, 0, 0, 1, 0, 0, 0, 1, 0, 0, 0]
    let ctx : FaultCtx := { faulting (2 ^ 32 + 1) comm with reserved := some mem }
    padding mem = [1, 0, 0, 0] ∧ ∃ sample, (handleFault unfiltered 1 ctx 0).2 = some sample ∧
      decode sample = some (ctx.event 1) := by
  intro mem comm ctx
  refine ⟨by decide +kernel, _, rfl, (decoded_iff unfiltered 1 ctx 0 mem rfl _ rfl).mpr ⟨?_, ?_⟩⟩
  · decide +kernel
  · decide +kernel

/-- The cgroup 42 and the name `gocker`. -/
theorem cgroup_decoded_wrong :
    let comm : Vector UInt8 16 := #v[103, 111, 99, 107, 101, 114, 0, 0, 0, 0, 0, 0, 0, 0, 0, 0]
    ∃ sample e, (handleFault unfiltered 1 (faulting 42 comm) 0).2 = some sample ∧
      decode sample = some e ∧ e.cgroupId = 42 * 2 ^ 32 ∧
      e ≠ (faulting 42 comm).event 1 := by
  intro comm
  refine ⟨_, _, rfl, decode_store .., ?_, ?_⟩
  · decide +kernel
  · decide +kernel

end Gocker.Ebpf.PageFault
