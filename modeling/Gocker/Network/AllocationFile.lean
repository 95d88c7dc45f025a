import Gocker.Lib.Json
import Gocker.Network.Ipam
import Mathlib.Data.List.Sort
import Mathlib.Data.String.Basic

/-!
# The allocation file

`loadIPAllocationState` and the steps of `saveIPAllocationState`
(`internal/network/ipam.go`), over the two paths they use.

* The *text* is the JSON object that the encoder writes with an indent of four
  blanks: one member `containerToIP`, its keys in order, and a newline.  Reading
  follows `json.Unmarshal` into a state whose map exists already: names are
  compared without case, members are merged, `null` resets.
  `loadState_encodeState` is the round trip.
* The *files* are two path entries and the contents of the inodes they name.  The
  temporary file is opened with `O_TRUNC`, written from offset zero through the
  open file (whatever its path names by then), and renamed.

### Two writers

The temporary file has a fixed name, that of the allocation file with `.tmp` behind it.  Two
processes may have it open at once, and then both write from offset zero into one file, or the
one writes into what the other has renamed already.  Contents are therefore kept by inode, and
`Distinct` says that the live path and the temporary one name different ones.
-/

namespace Gocker.Network

/-! ## The text -/

/-- The keys in the order in which the encoder writes them. -/
def sortedKeys (m : ContainerToIP) : List ContainerID :=
  Quot.liftOn m.keys.val (List.insertionSort (· ≤ ·)) fun l l' h =>
    ((List.perm_insertionSort _ l).trans
      (h.trans (List.perm_insertionSort _ l').symm)).eq_of_pairwise'
        (List.pairwise_insertionSort (· ≤ ·) l) (List.pairwise_insertionSort (· ≤ ·) l')

/-- The keys that are written are those of the map. -/
theorem mem_sortedKeys {m : ContainerToIP} {id : ContainerID} : id ∈ sortedKeys m ↔ id ∈ m := by
  rw [← Finmap.mem_keys, ← Finset.mem_val]
  unfold sortedKeys
  generalize m.keys.val = s
  induction s using Quotient.inductionOn with
  | h l => exact List.mem_insertionSort (· ≤ ·)

/-- The state as a value of JSON. `json.Encoder` writes the keys of a map in their order. -/
def stateValue (m : ContainerToIP) : Json.Value :=
  .obj (.objCons "containerToIP"
    (.obj (Json.ofList ((sortedKeys m).map fun id => (id, .str ((m.lookup id).getD ""))))) .objNil)

/-- What the encoder writes for a state. -/
def encodeState (m : ContainerToIP) : List Char :=
  Json.render (.indent 4) 0 (stateValue m) ++ ['\n']

/-- The members of the map; a `null` leaves the empty string in its place. -/
def decodeEntries : List (String × Json.Value) → ContainerToIP → Option ContainerToIP
  | [], m => some m
  | (id, .str ip) :: ms, m => decodeEntries ms (m.insert id ip)
  | (id, .null) :: ms, m => decodeEntries ms (m.insert id "")
  | _ :: _, _ => none

/-- The members of the state; unknown names are skipped. -/
def decodeMembers : List (String × Json.Value) → ContainerToIP → Option ContainerToIP
  | [], m => some m
  | (key, v) :: ms, m =>
      if Json.sameName "containerToIP" key then
        match v with
        | .obj entries => (decodeEntries entries.toList m).bind (decodeMembers ms)
        | .null => decodeMembers ms ∅
        | _ => none
      else decodeMembers ms m

/-- `json.Unmarshal` into a state whose map is empty; a missing member leaves it so. -/
def decodeState : Json.Value → Option ContainerToIP
  | .null => some ∅
  | .obj ms => decodeMembers ms.toList ∅
  | _ => none

/-- What is loaded from a file with this text. -/
def loadState (text : List Char) : Option ContainerToIP :=
  if text = [] then some ∅ else (Json.decode text).bind decodeState

/-- Entries that are read one after the other are put into the map in this order. -/
theorem decodeEntries_map (m n : ContainerToIP) (ids : List ContainerID) :
    decodeEntries (ids.map fun id => (id, .str ((m.lookup id).getD ""))) n =
      some (ids.foldl (fun n id => n.insert id ((m.lookup id).getD "")) n) := by
  induction ids generalizing n with
  | nil => rfl
  | cons id ids ih => exact ih _

theorem lookup_foldl_insert (f : ContainerID → String) (n : ContainerToIP)
    (ids : List ContainerID) (id : ContainerID) :
    (ids.foldl (fun n id => n.insert id (f id)) n).lookup id =
      if id ∈ ids then some (f id) else n.lookup id := by
  induction ids generalizing n with
  | nil => simp
  | cons i ids ih =>
      rw [List.foldl_cons, ih]
      rcases eq_or_ne id i with rfl | hne
      · simp
      · simp [hne, Finmap.lookup_insert_of_ne]

/-- **The round trip of the state**: it is read as it was written. -/
theorem decodeState_stateValue (m : ContainerToIP) : decodeState (stateValue m) = some m := by
  have hname : Json.sameName "containerToIP" "containerToIP" = true := by decide
  simp only [decodeState, stateValue, Json.Node.toList, decodeMembers, hname, if_true,
    Json.toList_ofList, decodeEntries_map, Option.bind_some, Option.some.injEq]
  apply Finmap.ext_lookup
  intro id
  rw [lookup_foldl_insert]
  split_ifs with hid
  · obtain ⟨ip, hip⟩ := Finmap.mem_iff.mp (mem_sortedKeys.mp hid)
    rw [hip, Option.getD_some]
  · rw [mem_sortedKeys] at hid
    rw [Finmap.lookup_eq_none.mpr hid, Finmap.lookup_empty]

/-- **The round trip.**  A saved state is loaded again as it was. -/
theorem loadState_encodeState (m : ContainerToIP) : loadState (encodeState m) = some m := by
  have hne : encodeState m ≠ [] := by
    simp [encodeState]
  rw [loadState, if_neg hne, encodeState, Json.decode_render, Option.bind_some,
    decodeState_stateValue]
  simp [Json.isSpace]

/-! ## The files -/

/-- What a path names: its content is found under this number, whatever the path names later. -/
abbrev Inode := ℕ

/-- The two paths and the texts behind them. -/
structure Files where
  /-- `config.NetworkAllocationFile` -/
  allocations : Option Inode
  /-- the same with `.tmp` -/
  temp : Option Inode
  content : Inode → List Char
  next : Inode

/-- `loadIPAllocationState` -/
def loadIPAllocationState (fs : Files) : Option ContainerToIP :=
  match fs.allocations with
  | none => some ∅
  | some i => loadState (fs.content i)

namespace Files

/-- `OpenFile` of the temporary path with `O_CREATE|O_TRUNC`. -/
def openTemp (fs : Files) : Files × Inode :=
  match fs.temp with
  | some i => ({ fs with content := Function.update fs.content i [] }, i)
  | none =>
      ({ fs with
          temp := some fs.next
          content := Function.update fs.content fs.next []
          next := fs.next + 1 }, fs.next)

/-- Write through an open file whose offset is zero. -/
def write (fs : Files) (i : Inode) (text : List Char) : Files :=
  { fs with content := Function.update fs.content i (text ++ (fs.content i).drop text.length) }

/-- `Rename` of the temporary path; without one it fails. -/
def rename (fs : Files) : Option Files :=
  fs.temp.map fun i => { fs with allocations := some i, temp := none }

/-- The two paths name different files, and new files are new. -/
structure Distinct (fs : Files) : Prop where
  ne : ∀ i, fs.temp = some i → fs.allocations ≠ some i
  fresh : ∀ i, fs.allocations = some i → i < fs.next
  temp_fresh : ∀ i, fs.temp = some i → i < fs.next

/-- The temporary file is the one that was opened. -/
theorem temp_openTemp (fs : Files) : fs.openTemp.1.temp = some fs.openTemp.2 := by
  unfold openTemp
  split
  · assumption
  · rfl

theorem content_openTemp (fs : Files) : fs.openTemp.1.content fs.openTemp.2 = [] := by
  unfold openTemp
  split <;> exact Function.update_self ..

/-- A text is written over the beginning of what is there. -/
theorem content_write (fs : Files) (i : Inode) (text : List Char) :
    (fs.write i text).content i = text ++ (fs.content i).drop text.length :=
  Function.update_self ..

/-! What the three operations leave of the live file. -/

/-- What is written to another file is not seen by a load. -/
theorem load_update {fs : Files} {i : Inode} (h : fs.allocations ≠ some i) (text : List Char)
    (temp : Option Inode) (next : Inode) :
    loadIPAllocationState
        { fs with temp := temp, content := Function.update fs.content i text, next := next } =
      loadIPAllocationState fs := by
  cases ha : fs.allocations with
  | none => simp [loadIPAllocationState, ha]
  | some j =>
      have hne : j ≠ i := by
        rintro rfl
        exact h ha
      simp [loadIPAllocationState, ha, Function.update_of_ne hne]

theorem load_write {fs : Files} {i : Inode} (h : fs.allocations ≠ some i) (text : List Char) :
    loadIPAllocationState (fs.write i text) = loadIPAllocationState fs :=
  load_update h _ fs.temp fs.next

theorem load_openTemp {fs : Files} (h : fs.Distinct) :
    loadIPAllocationState fs.openTemp.1 = loadIPAllocationState fs := by
  unfold openTemp
  cases ht : fs.temp with
  | some i =>
      have := load_update (h.ne i ht) [] fs.temp fs.next
      rwa [ht] at this
  | none =>
      have hne : fs.allocations ≠ some fs.next := by
        intro ha
        exact absurd (h.fresh _ ha) (lt_irrefl _)
      exact load_update hne [] (some fs.next) (fs.next + 1)

/-- After the rename a load sees the text of the temporary file. -/
theorem load_rename {fs fs' : Files} {i : Inode} {m : ContainerToIP} (h : fs.rename = some fs')
    (ht : fs.temp = some i) (htext : fs.content i = encodeState m) :
    loadIPAllocationState fs' = some m := by
  rw [rename, ht, Option.map_some] at h
  obtain rfl := Option.some.inj h
  simp [loadIPAllocationState, htext, loadState_encodeState]

/-- The two paths name two files once the temporary one has been opened. -/
theorem Distinct.openTemp {fs : Files} (h : fs.Distinct) : fs.openTemp.1.Distinct := by
  unfold Files.openTemp
  cases ht : fs.temp with
  | some i =>
      exact ⟨fun j hj => h.ne j (ht.trans hj), h.fresh, fun j hj => h.temp_fresh j (ht.trans hj)⟩
  | none =>
      refine ⟨?_, fun j hj => Nat.lt_succ_of_lt (h.fresh j hj), ?_⟩
      · rintro j hj ha
        obtain rfl := Option.some.inj hj
        exact absurd (h.fresh _ ha) (lt_irrefl _)
      · rintro j hj
        obtain rfl := Option.some.inj hj
        exact Nat.lt_succ_self _

theorem Distinct.write {fs : Files} (h : fs.Distinct) (i : Inode) (text : List Char) :
    (fs.write i text).Distinct := ⟨h.ne, h.fresh, h.temp_fresh⟩

/-- After the rename only one of them names anything. -/
theorem Distinct.rename {fs fs' : Files} (h : fs.Distinct) (hr : fs.rename = some fs') :
    fs'.Distinct := by
  obtain ⟨i, ht, rfl⟩ := Option.map_eq_some_iff.mp hr
  refine ⟨nofun, ?_, nofun⟩
  rintro j hj
  obtain rfl := Option.some.inj hj
  exact h.temp_fresh _ ht

end Files

end Gocker.Network
