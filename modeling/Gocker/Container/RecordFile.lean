import Gocker.Lib.JsonFields
import Gocker.Types

/-!
# The record file

The text of `config.json`: what `WriteContainerInfo` (`pkg/common.go`) writes for a
`ContainerInfo`, and what a reader finds in it.  `loadRecord_encodeRecord` is the round
trip, which is why a host keeps the records themselves.

Reading follows `json.Unmarshal` into a zero value.  The texts of the two times are taken
as they are.

### What is representable

A record is `Representable` if its JSON gives it back: its texts are texts of characters, its
numbers fit into an `int`, and its status is not a spelling of one of the three that `statusOf`
would read differently.  Every record that the program writes is, and `representable_of_loadFile`
says so of every record that it reads.
-/

namespace Gocker.Container

open Json (Distinct isInt setText setInt setField setFields setField_getElem
  setFields_append)

/-! ## Writing -/

/-- The text of a status, which is a `string` type in the source: one that is none of the three
is kept. -/
def statusText : Status → String
  | .running => "running"
  | .stopped => "stopped"
  | .created => "created"
  | .other text => text

/-- And the status of a text. -/
def statusOf (text : String) : Status :=
  if text = "running" then .running
  else if text = "stopped" then .stopped
  else if text = "created" then .created
  else .other text

/-- The members of the limits, in the order of the fields, under their Go names (the type has no
tags). -/
def limitsMembers (limits : ContainerLimits) : List (String × Json.Value) :=
  [("MemoryLimit", .num limits.memoryLimit), ("PidsLimit", .num limits.pidsLimit),
    ("CPULimit", .num limits.cpuLimit)]

/-- `omitempty` leaves an empty string out; it does nothing for a structure. -/
def omitEmpty (key text : String) : List (String × Json.Value) :=
  if text = "" then [] else [(key, .str text)]

/-- The members of a record, in the order of the fields, under the names of their tags.  The two
addresses are left out when they are empty. -/
def recordMembers (r : ContainerInfo) : List (String × Json.Value) :=
  ([("id", .str r.id), ("pid", .num r.pid), ("name", .str r.name), ("command", .str r.command),
    ("status", .str (statusText r.status)), ("createdAt", .str r.createdAt),
    ("image", .str r.image), ("mountPoint", .str r.mountPoint)] : List (String × Json.Value)) ++
  omitEmpty "requestedIP" r.requestedIP ++ omitEmpty "ipAddress" r.ipAddress ++
  ([("finishedAt", .str r.finishedAt), ("limits", .obj (Json.ofList (limitsMembers r.limits)))] :
    List (String × Json.Value))

/-- What the encoder writes for a record. -/
def encodeRecord (r : ContainerInfo) : List Char :=
  Json.render (.indent 4) 0 (.obj (Json.ofList (recordMembers r))) ++ ['\n']

/-! ## Reading -/

/-- The fields of the limits, each with what it does to the value so far. -/
def limitsFields : List (Json.Field ContainerLimits) :=
  [("MemoryLimit", fun l => setInt (fun n => { l with memoryLimit := n }) l),
    ("PidsLimit", fun l => setInt (fun n => { l with pidsLimit := n }) l),
    ("CPULimit", fun l => setInt (fun n => { l with cpuLimit := n }) l)]

/-- A process number of the model is natural.  `json.Unmarshal` would take a negative one as well,
and would refuse a time that is none, where any text is a time here; the program writes neither. -/
def setPID (r : ContainerInfo) (v : Json.Value) : Option ContainerInfo :=
  (setInt id (r.pid : Int) v).bind fun n =>
    if 0 ≤ n then some { r with pid := n.toNat } else none

/-- An object sets the limits member by member, and `null` leaves them alone. -/
def setLimits (r : ContainerInfo) : Json.Value → Option ContainerInfo
  | .obj ms => (setFields limitsFields r.limits ms.toList).map fun l => { r with limits := l }
  | .null => some r
  | _ => none

/-- The fields of a record, in the order of the type. -/
def recordFields : List (Json.Field ContainerInfo) :=
  [("id", fun r => setText (fun s => { r with id := s }) r),
    ("pid", setPID),
    ("name", fun r => setText (fun s => { r with name := s }) r),
    ("command", fun r => setText (fun s => { r with command := s }) r),
    ("status", fun r => setText (fun s => { r with status := statusOf s }) r),
    ("createdAt", fun r => setText (fun s => { r with createdAt := s }) r),
    ("image", fun r => setText (fun s => { r with image := s }) r),
    ("mountPoint", fun r => setText (fun s => { r with mountPoint := s }) r),
    ("requestedIP", fun r => setText (fun s => { r with requestedIP := s }) r),
    ("ipAddress", fun r => setText (fun s => { r with ipAddress := s }) r),
    ("finishedAt", fun r => setText (fun s => { r with finishedAt := s }) r),
    ("limits", setLimits)]

/-- The record before anything is read. -/
def zeroInfo : ContainerInfo where
  id := ""
  pid := 0
  name := ""
  command := ""
  status := .other ""
  createdAt := zeroTime
  image := ""
  mountPoint := ""
  requestedIP := ""
  ipAddress := ""
  finishedAt := zeroTime
  limits := { memoryLimit := 0, pidsLimit := 0, cpuLimit := 0 }

/-- `json.Unmarshal` into a zero record. -/
def decodeRecord : Json.Value → Option ContainerInfo
  | .obj ms => setFields recordFields zeroInfo ms.toList
  | .null => some zeroInfo
  | _ => none

/-- What a reader finds in a file with this text. -/
def loadRecord (text : List Char) : Option ContainerInfo :=
  (Json.decode text).bind decodeRecord

/-! ## The round trip -/

/-- The numbers are values of the type `int`, and the status is told by its text. -/
structure Representable (r : ContainerInfo) : Prop where
  pid : isInt r.pid = true
  memory : isInt r.limits.memoryLimit = true
  pids : isInt r.limits.pidsLimit = true
  cpu : isInt r.limits.cpuLimit = true
  status : statusOf (statusText r.status) = r.status

/-- No two fields of the limits have the same name up to case. -/
theorem limitsFields_distinct : Distinct limitsFields := by
  unfold Distinct
  decide

theorem recordFields_distinct : Distinct recordFields := by
  unfold Distinct
  decide +kernel

/-- The limits are read as they were written, whatever was there before. -/
theorem setFields_limitsMembers {l : ContainerLimits} (l₀ : ContainerLimits)
    (hmemory : isInt l.memoryLimit = true) (hpids : isInt l.pidsLimit = true)
    (hcpu : isInt l.cpuLimit = true) :
    setFields limitsFields l₀ (limitsMembers l) = some l := by
  have field := setField_getElem limitsFields_distinct
  have memory : ∀ l n, setField limitsFields l ("MemoryLimit", .num n) =
      if isInt n then some { l with memoryLimit := n } else none := fun l n =>
    field 0 (by decide) l (.num n)
  have pids : ∀ l n, setField limitsFields l ("PidsLimit", .num n) =
      if isInt n then some { l with pidsLimit := n } else none := fun l n =>
    field 1 (by decide) l (.num n)
  have cpu : ∀ l n, setField limitsFields l ("CPULimit", .num n) =
      if isInt n then some { l with cpuLimit := n } else none := fun l n =>
    field 2 (by decide) l (.num n)
  simp [setFields, limitsMembers, memory, pids, cpu, hmemory, hpids, hcpu]

/-- A field that is left out is empty before and after. -/
theorem setFields_omitEmpty {r : ContainerInfo} {key text : String} {set : String → ContainerInfo}
    (hset : ∀ v, setField recordFields r (key, .str v) = some (set v)) (hr : set "" = r) :
    setFields recordFields r (omitEmpty key text) = some (set text) := by
  unfold omitEmpty
  split_ifs with htext
  · rw [htext, hr]
    rfl
  · rw [setFields, List.foldlM_cons, hset]
    rfl

/-- The members of a record, read into a zero one, give it back. -/
theorem setFields_recordMembers {r : ContainerInfo} (h : Representable r) :
    setFields recordFields zeroInfo (recordMembers r) = some r := by
  have field := setField_getElem recordFields_distinct
  have hid : ∀ r s, setField recordFields r ("id", .str s) = some { r with id := s } :=
    fun r s => field 0 (by decide) r (.str s)
  have hpid : ∀ r n, setField recordFields r ("pid", .num n) = setPID r (.num n) :=
    fun r n => field 1 (by decide) r (.num n)
  have hname : ∀ r s, setField recordFields r ("name", .str s) = some { r with name := s } :=
    fun r s => field 2 (by decide) r (.str s)
  have hcommand : ∀ r s, setField recordFields r ("command", .str s) =
      some { r with command := s } := fun r s => field 3 (by decide) r (.str s)
  have hstatus : ∀ r s, setField recordFields r ("status", .str s) =
      some { r with status := statusOf s } := fun r s => field 4 (by decide) r (.str s)
  have hcreated : ∀ r s, setField recordFields r ("createdAt", .str s) =
      some { r with createdAt := s } := fun r s => field 5 (by decide) r (.str s)
  have himage : ∀ r s, setField recordFields r ("image", .str s) = some { r with image := s } :=
    fun r s => field 6 (by decide) r (.str s)
  have hmount : ∀ r s, setField recordFields r ("mountPoint", .str s) =
      some { r with mountPoint := s } := fun r s => field 7 (by decide) r (.str s)
  have hrequested : ∀ r s, setField recordFields r ("requestedIP", .str s) =
      some { r with requestedIP := s } := fun r s => field 8 (by decide) r (.str s)
  have haddress : ∀ r s, setField recordFields r ("ipAddress", .str s) =
      some { r with ipAddress := s } := fun r s => field 9 (by decide) r (.str s)
  have hfinished : ∀ r s, setField recordFields r ("finishedAt", .str s) =
      some { r with finishedAt := s } := fun r s => field 10 (by decide) r (.str s)
  have hlimits : ∀ r ms, setField recordFields r ("limits", .obj ms) = setLimits r (.obj ms) :=
    fun r ms => field 11 (by decide) r (.obj ms)
  have first : setFields recordFields zeroInfo
      [("id", .str r.id), ("pid", .num r.pid), ("name", .str r.name), ("command", .str r.command),
        ("status", .str (statusText r.status)), ("createdAt", .str r.createdAt),
        ("image", .str r.image), ("mountPoint", .str r.mountPoint)] =
      some { r with
        requestedIP := "", ipAddress := "", finishedAt := zeroTime
        limits := zeroInfo.limits } := by
    simp [setFields, hid, hpid, hname, hcommand, hstatus, hcreated, himage, hmount, setPID, setInt,
      zeroInfo, h.pid, h.status]
  have last : ∀ r₀ : ContainerInfo, setFields recordFields r₀
      [("finishedAt", .str r.finishedAt), ("limits", .obj (Json.ofList (limitsMembers r.limits)))] =
      some { r₀ with finishedAt := r.finishedAt, limits := r.limits } := fun r₀ => by
    have hl := setFields_limitsMembers r₀.limits h.memory h.pids h.cpu
    simp only [setFields, List.foldlM_cons, List.foldlM_nil, hfinished, hlimits, setLimits,
      Json.toList_ofList] at hl ⊢
    simp [hl]
  rw [recordMembers, setFields_append, setFields_append, setFields_append, first,
    Option.bind_some, setFields_omitEmpty (hrequested _) rfl, Option.bind_some,
    setFields_omitEmpty (haddress _) rfl, Option.bind_some, last]

/-- **The round trip.**  A record that has been written is read as it was. -/
theorem loadRecord_encodeRecord {r : ContainerInfo} (h : Representable r) :
    loadRecord (encodeRecord r) = some r := by
  have hspace : ∀ c ∈ ['\n'], Json.isSpace c := fun c hc => by
    rw [List.mem_singleton.mp hc]
    rfl
  rw [loadRecord, encodeRecord, Json.decode_render _ _ hspace, Option.bind_some, decodeRecord,
    Json.toList_ofList, setFields_recordMembers h]

/-! ## What is read -/

/-- The limits are values of the type `int`. -/
structure IntLimits (l : ContainerLimits) : Prop where
  memory : isInt l.memoryLimit = true
  pids : isInt l.pidsLimit = true
  cpu : isInt l.cpuLimit = true

/-- A text that has been read as a status and written again is read the same. -/
theorem statusOf_statusText (text : String) :
    statusOf (statusText (statusOf text)) = statusOf text := by
  by_cases hrunning : text = "running"
  · rw [hrunning]
    rfl
  by_cases hstopped : text = "stopped"
  · rw [hstopped]
    rfl
  by_cases hcreated : text = "created"
  · rw [hcreated]
    rfl
  simp only [statusOf, hrunning, hstopped, hcreated, if_false, statusText]

theorem intLimits_of_setFields {l l' : ContainerLimits} (hl : IntLimits l)
    {ms : List (String × Json.Value)} (h : setFields limitsFields l ms = some l') :
    IntLimits l' := by
  refine Json.setFields_invariant (fun field hfield l v l' hl hset => ?_) hl h
  simp only [limitsFields, List.mem_cons, List.not_mem_nil, or_false] at hfield
  rcases hfield with rfl | rfl | rfl
  · rcases Json.setInt_eq_some hset with ⟨n, hn, rfl⟩ | rfl
    · exact ⟨hn, hl.pids, hl.cpu⟩
    · exact hl
  · rcases Json.setInt_eq_some hset with ⟨n, hn, rfl⟩ | rfl
    · exact ⟨hl.memory, hn, hl.cpu⟩
    · exact hl
  · rcases Json.setInt_eq_some hset with ⟨n, hn, rfl⟩ | rfl
    · exact ⟨hl.memory, hl.pids, hn⟩
    · exact hl

/-- A record with other limits that fit can still be written and read back. -/
theorem Representable.with_limits {r : ContainerInfo} (h : Representable r) {l : ContainerLimits}
    (hl : IntLimits l) : Representable { r with limits := l } :=
  ⟨h.pid, hl.memory, hl.pids, hl.cpu, h.status⟩

/-- So can one with a process number that has been read, or with limits that have been. -/
theorem representable_of_setPID {r r' : ContainerInfo} (h : Representable r) {v : Json.Value}
    (hset : setPID r v = some r') : Representable r' := by
  obtain ⟨n, hn, hset⟩ := Option.bind_eq_some_iff.mp hset
  split_ifs at hset with hpos
  obtain rfl := Option.some.inj hset
  refine ⟨?_, h.memory, h.pids, h.cpu, h.status⟩
  show isInt (n.toNat : Int) = true
  rw [Int.toNat_of_nonneg hpos]
  rcases Json.setInt_eq_some hn with ⟨m, hm, rfl⟩ | rfl
  · exact hm
  · exact h.pid

theorem representable_of_setLimits {r r' : ContainerInfo} (h : Representable r) {v : Json.Value}
    (hset : setLimits r v = some r') : Representable r' := by
  unfold setLimits at hset
  split at hset
  · obtain ⟨l, hl, rfl⟩ := Option.map_eq_some_iff.mp hset
    exact h.with_limits (intLimits_of_setFields ⟨h.memory, h.pids, h.cpu⟩ hl)
  · exact Option.some.inj hset ▸ h
  · cases hset

/-- **What is read can be written.** -/
theorem representable_of_loadRecord {text : List Char} {r : ContainerInfo}
    (h : loadRecord text = some r) : Representable r := by
  have zero : Representable zeroInfo :=
    ⟨by decide, by decide, by decide, by decide, by decide⟩
  obtain ⟨v, -, hv⟩ := Option.bind_eq_some_iff.mp h
  unfold decodeRecord at hv
  split at hv
  · refine Json.setFields_invariant (fun field hfield r v r' hr hset => ?_) zero hv
    have text : ∀ {set : String → ContainerInfo}, setText set r v = some r' →
        (∀ s, Representable (set s)) → Representable r' := by
      intro set hset hs
      rcases Json.setText_eq_some hset with ⟨s, rfl⟩ | rfl
      · exact hs s
      · exact hr
    simp only [recordFields, List.mem_cons, List.not_mem_nil, or_false] at hfield
    rcases hfield with rfl | rfl | rfl | rfl | rfl | rfl | rfl | rfl | rfl | rfl | rfl | rfl <;>
      first
      | exact text hset fun s => ⟨hr.pid, hr.memory, hr.pids, hr.cpu, hr.status⟩
      | exact text hset fun s => ⟨hr.pid, hr.memory, hr.pids, hr.cpu, statusOf_statusText s⟩
      | exact representable_of_setPID hr hset
      | exact representable_of_setLimits hr hset
  · exact Option.some.inj hv ▸ zero
  · cases hv

end Gocker.Container
