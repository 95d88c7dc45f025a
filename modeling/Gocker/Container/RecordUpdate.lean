import Gocker.Container.Resolve
import Gocker.Lib.JsonCut

/-!
# Updating a record

`WriteContainerInfo` creates `config.json` anew and lets the encoder write into it, so that a
failure, or the end of the process, leaves any first part of the text.  What reads the storage
directory skips a record that does not decode.

`record_survives_iff` says when the container is still found with its old or its new record:
where the file was not created, or nothing but the last newline is missing.  `saveIPAllocationState`
writes a temporary file and renames it; this function does not.

### The states of the file

`os.Create` truncates the file, and the encoder hands its whole text to one `Write`.  A failure
in between, or the end of the process, leaves a prefix of the text: `Update.wrote n` is the file
with the first `n` bytes.  The only prefixes that decode are the whole text and the text without
its newline, because every shorter one ends inside the object (`Json.Complete`).
-/

namespace Gocker.Container

open Json (Bytes readUtf8 utf8)

/-! ## The write -/

/-- How far `WriteContainerInfo` gets. -/
inductive Reached where
  | notCreated
  /-- the file has the first `n` bytes of the text, all of them if there are no more -/
  | wrote (n : ℕ)

/-- The bytes that `WriteContainerInfo` gives to the file, with the newline at the end that
`json.Encoder` adds. -/
def recordBytes (r : ContainerInfo) : Bytes := utf8 (encodeRecord r)

/-- The file after a `WriteContainerInfo` of the record. -/
def writeContainerInfo (file : Bytes) (r : ContainerInfo) : Reached → Bytes
  | .notCreated => file
  | .wrote n => (recordBytes r).take n

/-- What a reader finds in the file. -/
def loadFile (file : Bytes) : Option ContainerInfo := loadRecord (readUtf8 file)

/-- All is written, but for the newline at the end. -/
def Reached.Whole (r : ContainerInfo) : Reached → Prop
  | .notCreated => False
  | .wrote n => (recordBytes r).length ≤ n + 1

instance (r : ContainerInfo) (reached : Reached) : Decidable (reached.Whole r) := by
  unfold Reached.Whole
  split <;> infer_instance

/-- The text without its newline. -/
def recordValue (r : ContainerInfo) : Json.Value := .obj (Json.ofList (recordMembers r))

/-- They are the JSON of the record and one newline. -/
theorem recordBytes_eq (r : ContainerInfo) :
    recordBytes r = Json.encode (.indent 4) (recordValue r) ++ [Json.byte '\n'] := by
  rw [recordBytes, encodeRecord, Json.utf8_append]
  rfl

theorem length_recordBytes (r : ContainerInfo) : (recordBytes r).length =
    (Json.encode (.indent 4) (recordValue r)).length + 1 := by
  rw [recordBytes_eq, List.length_append, List.length_singleton]

/-- A file that was written completely is read as its record. -/
theorem loadFile_recordBytes {r : ContainerInfo} (h : Representable r) :
    loadFile (recordBytes r) = some r := by
  rw [loadFile, recordBytes, Json.readUtf8_utf8, loadRecord_encodeRecord h]

/-- **What is in the file** after a write that got anywhere. -/
theorem loadFile_wrote {r : ContainerInfo} (h : Representable r) (n : ℕ) :
    loadFile ((recordBytes r).take n) =
      if (recordBytes r).length ≤ n + 1 then some r else none := by
  have hlength := length_recordBytes r
  split_ifs with hn
  · rcases Nat.lt_or_ge n (recordBytes r).length with hlt | hle
    · -- the newline is missing
      have htake : (recordBytes r).take n = Json.encode (.indent 4) (recordValue r) := by
        rw [recordBytes_eq, show n = (Json.encode (.indent 4) (recordValue r)).length by omega,
          List.take_left]
      have nospace : ∀ c ∈ ([] : List Char), Json.isSpace c := nofun
      have hdecode := Json.decode_render (.indent 4) (recordValue r) nospace
      rw [List.append_nil] at hdecode
      rw [loadFile, loadRecord, htake, Json.encode, Json.readUtf8_utf8, hdecode, Option.bind_some,
        recordValue, decodeRecord, Json.toList_ofList, setFields_recordMembers h]
    · rw [List.take_of_length_le hle, loadFile_recordBytes h]
  · have hlt : n < (Json.encode (.indent 4) (recordValue r)).length := by omega
    have htake : (recordBytes r).take n = (Json.encode (.indent 4) (recordValue r)).take n := by
      rw [recordBytes_eq, List.take_append_of_le_length hlt.le]
    rw [loadFile, loadRecord, htake, recordValue, Json.decode_cut _ _ hlt]
    rfl

/-- The outcome of a host's write of the record. -/
def Reached.outcome (r : ContainerInfo) : Reached → Outcome
  | .notCreated => .fails 0
  | .wrote n => if (recordBytes r).length ≤ n + 1 then .ok else .fails (n + 1)

/-- **The record of a host is what its file holds.** -/
theorem written_config {w : World} {d : ContainerID} {r : ContainerInfo} {file : Bytes}
    (h : Representable r) (hfile : w.config d = loadFile file) (reached : Reached) :
    ∃ w', w.written d r (reached.outcome r) = some w' ∧
      w'.config d = loadFile (writeContainerInfo file r reached) := by
  cases reached with
  | notCreated => exact ⟨w, rfl, hfile⟩
  | wrote n =>
      rw [writeContainerInfo, loadFile_wrote h, Reached.outcome]
      split_ifs
      · exact ⟨_, rfl, Function.update_self ..⟩
      · exact ⟨_, rfl, Function.update_self ..⟩

/-! ## The readers -/

/-- The entry of a container in the storage directory. -/
def fileEntry (name : String) (file : Bytes) : DirEntry :=
  { name := name, isDir := true, config := some (readUtf8 file) }

/-- An entry of the directory has the record that its file is read as. -/
theorem record_fileEntry (name : String) (file : Bytes) :
    (fileEntry name file).record = loadFile file := rfl

/-- The record is found among the others: by both listings, and by every identifier that
matches it and none of those before it. -/
structure Findable (before after : List ContainerInfo) (files : List DirEntry)
    (r : ContainerInfo) : Prop where
  list : list (.ok files) = .ok (before ++ r :: after)
  listContainers : listContainers (.ok files) = .ok (before ++ r :: after)
  find : ∀ identifier, ContainerInfo.matches r identifier = true →
    (∀ x ∈ before, ContainerInfo.matches x identifier = false) →
      findContainerInfo (.ok files) identifier = .ok r

section
variable {before after : List DirEntry} {name : String} {file : Bytes} {r : ContainerInfo}

/-- A container whose file can be read is found, by each of the two lookups, if its identifier
is its own. -/
theorem findable_of_loadFile (h : loadFile file = some r) :
    Findable (records before) (records after) (before ++ fileEntry name file :: after) r := by
  have hrecords : records (before ++ fileEntry name file :: after) =
      records before ++ r :: records after := by
    rw [records, List.filterMap_append, List.filterMap_cons_some ((record_fileEntry ..).trans h)]
    rfl
  refine ⟨congrArg Except.ok hrecords, congrArg Except.ok hrecords, fun identifier hr hbefore => ?_⟩
  have hfind := findContainerInfo_eq (before ++ fileEntry name file :: after) identifier
  have hnone : (records before).find? (ContainerInfo.matches · identifier) = none := by
    rw [List.find?_eq_none]
    intro x hx
    rw [hbefore x hx]
    exact Bool.false_ne_true
  rw [hrecords, List.find?_append, hnone, Option.none_or, List.find?_cons, hr] at hfind
  cases hx : findContainerInfo (.ok (before ++ fileEntry name file :: after)) identifier with
  | error e =>
      rw [hx] at hfind
      cases hfind
  | ok x =>
      rw [hx] at hfind
      exact congrArg Except.ok (Option.some.inj hfind)

/-- The listings skip the container. -/
theorem list_of_unreadable (h : loadFile file = none) :
    list (.ok (before ++ fileEntry name file :: after)) =
      .ok (records before ++ records after) := by
  refine congrArg Except.ok ?_
  rw [records, List.filterMap_append, List.filterMap_cons_none ((record_fileEntry ..).trans h)]
  rfl

theorem not_findable_of_unreadable (h : loadFile file = none) :
    ¬ Findable (records before) (records after) (before ++ fileEntry name file :: after) r := by
  intro hfindable
  have hlist := Except.ok.inj ((list_of_unreadable h).symm.trans hfindable.list)
  have hlength := congrArg List.length hlist
  simp only [List.length_append, List.length_cons] at hlength
  omega

end

/-! ## The update -/

/-- The container is still found, with its old or its new record. -/
def Survives (before after : List DirEntry) (name : String) (file : Bytes)
    (old r : ContainerInfo) (reached : Reached) : Prop :=
  let files := before ++ fileEntry name (writeContainerInfo file r reached) :: after
  Findable (records before) (records after) files old ∨
    Findable (records before) (records after) files r

/-- **An update keeps the container** if and only if the file was not created, or all of the
text but its last newline is written. -/
theorem record_survives_iff {before after : List DirEntry} {name : String} {file : Bytes}
    {old r : ContainerInfo} (hold : loadFile file = some old) (hr : Representable r)
    (reached : Reached) :
    Survives before after name file old r reached ↔
      reached = .notCreated ∨ reached.Whole r := by
  cases reached with
  | notCreated => exact iff_of_true (.inl (findable_of_loadFile hold)) (.inl rfl)
  | wrote n =>
      have hwrote := loadFile_wrote hr n
      split_ifs at hwrote with hn
      · exact iff_of_true (.inr (findable_of_loadFile hwrote)) (.inr hn)
      · refine iff_of_false ?_ (by simpa [Reached.Whole] using hn)
        rintro (h | h) <;> exact not_findable_of_unreadable hwrote h

/-- A container that has just exited. -/
def exited (r : ContainerInfo) : ContainerInfo := { r with pid := 0, status := .stopped }

/-- The write of a `Stopped` record is cut off before its newline. -/
theorem record_survives_newline :
    ∃ n, n < (recordBytes (exited (named "a1" "web"))).length ∧
      Survives [] [] "a1" (recordBytes (named "a1" "web")) (named "a1" "web")
        (exited (named "a1" "web")) (.wrote n) := by
  obtain ⟨n, hn⟩ : ∃ n, (recordBytes (exited (named "a1" "web"))).length = n + 1 :=
    ⟨_, length_recordBytes _⟩
  refine ⟨n, hn.symm ▸ Nat.lt_succ_self n, ?_⟩
  exact (record_survives_iff (loadFile_recordBytes (representable_named ..))
    ⟨by decide, by decide, by decide, by decide, by decide⟩ _).mpr (.inr hn.le)

/-- **The process ends right after the file is created**: the container, which was found by its
ID, is found no more. -/
theorem record_lost :
    ∃ file, findContainerInfo (.ok [fileEntry "a1" file]) "a1" = .ok (named "a1" "web") ∧
      ¬ Survives [] [] "a1" file (named "a1" "web") (exited (named "a1" "web")) (.wrote 0) ∧
      list (.ok [fileEntry "a1" (writeContainerInfo file (exited (named "a1" "web")) (.wrote 0))]) =
        .ok [] ∧
      (findContainerInfo (.ok [fileEntry "a1"
        (writeContainerInfo file (exited (named "a1" "web")) (.wrote 0))]) "a1").toOption =
          none := by
  refine ⟨recordBytes (named "a1" "web"), ?_, ?_, rfl, rfl⟩
  · have hfile := loadFile_recordBytes (representable_named "a1" "web")
    have hfound : Findable (records []) (records [])
        ([] ++ fileEntry "a1" (recordBytes (named "a1" "web")) :: []) (named "a1" "web") :=
      findable_of_loadFile hfile
    exact hfound.find "a1" (by decide) nofun
  · rintro (h | h) <;> exact not_findable_of_unreadable rfl h

end Gocker.Container
