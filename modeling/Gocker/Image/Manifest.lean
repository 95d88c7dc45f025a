import Gocker.Config
import Gocker.Lib.JsonFields
import Gocker.Lib.Upsert
import Gocker.Pkg

/-!
# The image manifest

`manifest.json` in the images directory: the ID of the image that was pulled last under
each reference.  `updateManifest` and `ListImages` (`internal/image/manager.go`) and
`findImageRootfsPath` (`internal/container/rootfs.go`) read it, the first one writes it.

`manifest_is_map` says what the file is after any sequence of updates: a map from tags to
IDs, read by the other two functions.  The text is written and read with the JSON library
(`loadManifest_encodeManifest`), and the update in place is an `upsert`.

### References as keys

`PullImage` keeps the reference as the user has typed it.  `run` splits it at the colons, and
the name and the tag are put together again for the lookup (`imageText`).  The last part of this
module says which of the images that were pulled are found again (`run_finds_pulled_iff`).
-/

namespace Gocker.Image

open Upsert (upsert replay)

/-! ## The file -/

/-- `types.ImageManifest`: an image, and the reference under which it was pulled. -/
structure ImageManifest where
  imageID : String
  repoTag : String
deriving DecidableEq, Repr

/-- What reading the file gives: `os.IsNotExist`, another error, or its text. -/
inductive ManifestFile where
  | missing
  | unreadable (cause : String)
  | text (data : List Char)
deriving DecidableEq

/-- The errors of the three functions: reading the file, parsing it, and no entry. -/
inductive ManifestError where
  | read (cause : String)
  | parse
  | notFound (searchName : String)
deriving DecidableEq

/-- An entry as `json.Marshal` writes it. -/
def ImageManifest.toJson (m : ImageManifest) : Json.Value :=
  .obj (Json.ofList [("imageID", .str m.imageID), ("repoTag", .str m.repoTag)])

/-- The entries as the elements of an array. -/
def elements : List ImageManifest → Json.Node .elements
  | [] => .nil
  | m :: ms => .cons m.toJson (elements ms)

/-- `json.MarshalIndent` -/
def encodeManifest (ms : List ImageManifest) : List Char :=
  Json.render (.indent 4) 0 (.arr (elements ms))

/-- The fields of an entry, by the names of their tags. -/
def manifestFields : List (Json.Field ImageManifest) :=
  [("imageID", fun m => Json.setText (fun s => { m with imageID := s }) m),
    ("repoTag", fun m => Json.setText (fun s => { m with repoTag := s }) m)]

/-- The elements of an array, each into a zero entry; one that does not fit fails the whole. -/
def decodeElements : {k : Json.Kind} → Json.Node k → Option (List ImageManifest)
  | _, .nil => some []
  | _, .cons x xs =>
      (Json.setObject manifestFields { imageID := "", repoTag := "" } x).bind fun m =>
        (decodeElements xs).map (m :: ·)
  | _, _ => none

/-- `json.Unmarshal` into a slice of entries. -/
def decodeManifest : Json.Value → Option (List ImageManifest)
  | .arr xs => decodeElements xs
  | .null => some []
  | _ => none

/-- The reading of the text, without the file around it. -/
def loadManifest (data : List Char) : Option (List ImageManifest) :=
  (Json.decode data).bind decodeManifest

/-! ## The functions -/

/-- `filepath.Join(config.ImagesDir, m.ImageID, "rootfs")`.  An image id is twelve hexadecimal
digits here; `filepath.Join` cleans what it joins, so that the two agree for the ids that are
not empty, have no `/` and are neither `.` nor `..`. -/
def rootfsPath (imageID : String) : String :=
  Config.imagesDir ++ "/" ++ (imageID ++ "/rootfs")

/-- The loop of `updateManifest`, if it finds the tag. -/
def replaceFirst (repoTag imageID : String) : List ImageManifest → Option (List ImageManifest)
  | [] => none
  | m :: ms =>
      if m.repoTag = repoTag then some ({ m with imageID := imageID } :: ms)
      else (replaceFirst repoTag imageID ms).map (m :: ·)

/-- The loop of `updateManifest`, and the `append` behind it. -/
def setTag (repoTag imageID : String) (manifests : List ImageManifest) : List ImageManifest :=
  match replaceFirst repoTag imageID manifests with
  | some manifests => manifests
  | none => manifests ++ [{ imageID := imageID, repoTag := repoTag }]

/-- Reading where a missing file is an empty manifest. -/
def readManifest : ManifestFile → Except ManifestError (List ImageManifest)
  | .missing => .ok []
  | .unreadable cause => .error (.read cause)
  | .text data =>
      match loadManifest data with
      | some manifests => .ok manifests
      | none => .error .parse

/-- `updateManifest` up to `os.WriteFile`: the text that is written. -/
def updateManifest (file : ManifestFile) (repoTag imageID : String) :
    Except ManifestError (List Char) :=
  (readManifest file).map fun manifests => encodeManifest (setTag repoTag imageID manifests)

/-- `findImageRootfsPath`: the first entry with this reference. -/
def findImageRootfsPath (file : ManifestFile) (imageName imageTag : String) :
    Except ManifestError String :=
  match file with
  | .missing => .error (.read "no such file or directory")
  | .unreadable cause => .error (.read cause)
  | .text data =>
      match loadManifest data with
      | none => .error .parse
      | some manifests =>
          match manifests.find? (·.repoTag = imageText imageName imageTag) with
          | some m => .ok (rootfsPath m.imageID)
          | none => .error (.notFound (imageText imageName imageTag))

/-- `ListImages`: the references, in the order of the file. -/
def listImages (file : ManifestFile) : Except ManifestError (List String) :=
  (readManifest file).map fun entries => entries.map ImageManifest.repoTag

/-! ## Reading what was written -/

/-- No two fields of an entry have the same name up to case. -/
theorem manifestFields_distinct : Json.Distinct manifestFields := by
  unfold Json.Distinct
  decide

/-- An entry is read as it was written, whatever was there before. -/
theorem setObject_toJson (m₀ m : ImageManifest) :
    Json.setObject manifestFields m₀ m.toJson = some m := by
  have field := Json.setField_getElem manifestFields_distinct
  have hid : ∀ m s, Json.setField manifestFields m ("imageID", .str s) =
      some { m with imageID := s } := fun m s => field 0 (by decide) m (.str s)
  have htag : ∀ m s, Json.setField manifestFields m ("repoTag", .str s) =
      some { m with repoTag := s } := fun m s => field 1 (by decide) m (.str s)
  simp [ImageManifest.toJson, Json.setFields, hid, htag]

theorem decodeElements_elements (ms : List ImageManifest) :
    decodeElements (elements ms) = some ms := by
  induction ms with
  | nil => rfl
  | cons m ms ih => simp [elements, decodeElements, setObject_toJson, ih]

/-- **The round trip.** -/
theorem loadManifest_encodeManifest (ms : List ImageManifest) :
    loadManifest (encodeManifest ms) = some ms := by
  have hdecode := Json.decode_render (.indent 4) (.arr (elements ms)) (List.forall_mem_nil _)
  rw [List.append_nil] at hdecode
  rw [loadManifest, encodeManifest, hdecode, Option.bind_some, decodeManifest,
    decodeElements_elements]

/-- The update in place is an `upsert` by the reference. -/
theorem setTag_eq_upsert (repoTag imageID : String) (ms : List ImageManifest) :
    setTag repoTag imageID ms =
      upsert ImageManifest.repoTag { imageID := imageID, repoTag := repoTag } ms := by
  rw [setTag]
  induction ms with
  | nil => rfl
  | cons m ms ih =>
      rw [replaceFirst, upsert]
      split_ifs with htag
      · rw [← htag]
      · cases hreplace : replaceFirst repoTag imageID ms with
        | none =>
            rw [hreplace] at ih
            simp only [Option.map_none, List.cons_append, ih]
        | some ms' =>
            rw [hreplace] at ih
            simp only [Option.map_some, ih]

/-! ## A sequence of updates -/

/-- Successful sequential updates, each with the tag and the ID that it sets. -/
def applyUpdates : ManifestFile → List ImageManifest → Except ManifestError ManifestFile :=
  List.foldlM fun file u => (updateManifest file u.repoTag u.imageID).map .text

/-- The file after these updates of a missing one. -/
def fileAfter (us : List ImageManifest) : ManifestFile :=
  if us = [] then .missing else .text (encodeManifest (replay ImageManifest.repoTag us))

/-- The file after some updates is read as what they come to. -/
theorem readManifest_fileAfter (us : List ImageManifest) :
    readManifest (fileAfter us) = .ok (replay ImageManifest.repoTag us) := by
  rw [fileAfter]
  split_ifs with hus
  · rw [hus]
    rfl
  · rw [readManifest, loadManifest_encodeManifest]

theorem updateManifest_fileAfter (us : List ImageManifest) (u : ImageManifest) :
    (updateManifest (fileAfter us) u.repoTag u.imageID).map .text =
      .ok (fileAfter (us ++ [u])) := by
  rw [updateManifest, readManifest_fileAfter, fileAfter, if_neg (by simp), Upsert.replay_concat,
    ← setTag_eq_upsert]
  rfl

/-- Every update of the sequence succeeds. -/
theorem applyUpdates_missing (us : List ImageManifest) :
    applyUpdates .missing us = .ok (fileAfter us) := by
  induction us using List.reverseRecOn with
  | nil => rfl
  | append_singleton us u ih =>
      rw [applyUpdates] at ih ⊢
      rw [List.foldlM_append, ih]
      simp only [List.foldlM_cons, List.foldlM_nil, bind, Except.bind]
      rw [updateManifest_fileAfter]
      rfl

/-- The ID of the last update of a tag. -/
def lastID (us : List ImageManifest) (tag : String) : Option String :=
  (us.reverse.find? (·.repoTag = tag)).map ImageManifest.imageID

/-- There is an id for the references that have been pulled, and for no others. -/
theorem lastID_isSome {us : List ImageManifest} {tag : String} :
    (lastID us tag).isSome ↔ tag ∈ us.map ImageManifest.repoTag := by
  simp [lastID]

/-- What is found under a reference is the root of the image that was pulled last. -/
theorem find_fileAfter (us : List ImageManifest) (imageName imageTag : String) :
    (findImageRootfsPath (fileAfter us) imageName imageTag).toOption =
      (lastID us (imageText imageName imageTag)).map rootfsPath := by
  rw [fileAfter]
  split_ifs with hus
  · rw [hus]
    rfl
  · rw [findImageRootfsPath, loadManifest_encodeManifest]
    simp only [Upsert.find?_replay, lastID]
    cases us.reverse.find? (·.repoTag = imageText imageName imageTag) <;> rfl

/-! ## The manifest is a map -/

/-- The file holds a map from tags to IDs: that of these updates. -/
structure IsMapOf (us : List ImageManifest) (file : ManifestFile) : Prop where
  unique : ∀ ms, readManifest file = .ok ms → (ms.map ImageManifest.repoTag).Nodup
  /-- a tag is found exactly when it was updated -/
  found : ∀ name tag, (findImageRootfsPath file name tag).toOption.isSome ↔
    imageText name tag ∈ us.map ImageManifest.repoTag
  /-- and then with the ID of its last update -/
  last : ∀ name tag before imageID later,
    us = before ++ { imageID := imageID, repoTag := imageText name tag } :: later →
    (∀ u ∈ later, u.repoTag ≠ imageText name tag) →
    findImageRootfsPath file name tag = .ok (rootfsPath imageID)
  /-- a further update of another tag changes nothing about it -/
  others : ∀ name tag u, u.repoTag ≠ imageText name tag →
    ∃ file', applyUpdates file [u] = .ok file' ∧
      (findImageRootfsPath file' name tag).toOption = (findImageRootfsPath file name tag).toOption
  /-- every tag is listed once, in the order of the first updates -/
  listed : ∃ tags, listImages file = .ok tags ∧ tags.Nodup ∧
    (∀ tag, tag ∈ tags ↔ tag ∈ us.map ImageManifest.repoTag) ∧
    tags.Pairwise fun a b =>
      (us.map ImageManifest.repoTag).idxOf a < (us.map ImageManifest.repoTag).idxOf b

theorem lastID_append {us later : List ImageManifest} {tag : String}
    (h : ∀ u ∈ later, u.repoTag ≠ tag) : lastID (us ++ later) tag = lastID us tag := by
  have hnone : later.reverse.find? (·.repoTag = tag) = none := by
    rw [List.find?_eq_none]
    intro u hu
    simpa using h u (List.mem_reverse.mp hu)
  rw [lastID, List.reverse_append, List.find?_append, hnone, Option.none_or, lastID]

theorem lastID_concat_self (us : List ImageManifest) (imageID tag : String) :
    lastID (us ++ [{ imageID := imageID, repoTag := tag }]) tag = some imageID := by
  simp [lastID]

theorem ok_of_toOption {ε α : Type} {x : Except ε α} {a : α} (h : x.toOption = some a) :
    x = .ok a := by
  cases x with
  | error e => cases h
  | ok b => exact congrArg Except.ok (Option.some.inj h)

/-- **The manifest is a map from tag to image ID**, after any sequence of successful
updates of a missing file. -/
theorem manifest_is_map (us : List ImageManifest) :
    ∃ file, applyUpdates .missing us = .ok file ∧ IsMapOf us file := by
  refine ⟨fileAfter us, applyUpdates_missing us, ?_, ?_, ?_, ?_, ?_⟩
  · intro ms hms
    rw [readManifest_fileAfter] at hms
    obtain rfl := Except.ok.inj hms
    exact Upsert.nodup_replay us
  · intro name tag
    rw [find_fileAfter, Option.isSome_map, lastID_isSome]
  · rintro name tag before imageID later rfl hlater
    apply ok_of_toOption
    rw [find_fileAfter, ← List.singleton_append, ← List.append_assoc, lastID_append hlater,
      lastID_concat_self, Option.map_some]
  · intro name tag u hu
    refine ⟨fileAfter (us ++ [u]), ?_, ?_⟩
    · rw [applyUpdates]
      simp only [List.foldlM_cons, List.foldlM_nil, bind, Except.bind]
      rw [updateManifest_fileAfter]
      rfl
    · rw [find_fileAfter, find_fileAfter, lastID_append]
      intro v hv
      rw [List.mem_singleton.mp hv]
      exact hu
  · refine ⟨(replay ImageManifest.repoTag us).map ImageManifest.repoTag, ?_, ?_, ?_, ?_⟩
    · rw [listImages, readManifest_fileAfter]
      rfl
    · exact Upsert.nodup_replay us
    · exact fun tag => Upsert.mem_keys_replay
    · exact Upsert.ordered_replay us

/-! ## Running what was pulled -/

/-- A pull that succeeds: the reference and the digest of the image that it got. -/
structure Pull where
  reference : String
  digest : String
deriving DecidableEq, Repr

/-- `strings.TrimPrefix(digest.String(), "sha256:")[:12]` -/
def Pull.imageID (p : Pull) : String :=
  let digits := if "sha256:".toList.isPrefixOf p.digest.toList then p.digest.toList.drop 7
    else p.digest.toList
  String.ofList (digits.take 12)

/-- The update that `PullImage` makes, with the reference as it was given. -/
def Pull.update (p : Pull) : ImageManifest :=
  { imageID := p.imageID, repoTag := p.reference }

/-- The file after these pulls, one after the other. -/
def applyPulls (file : ManifestFile) (ps : List Pull) : Except ManifestError ManifestFile :=
  applyUpdates file (ps.map Pull.update)

/-- The reference that `gocker run s` looks for. -/
def searched (s : String) : String := imageText (parse s).1 (parse s).2

/-- `gocker run s` as far as the image is concerned. -/
def runImage (file : ManifestFile) (s : String) : Except ManifestError String :=
  findImageRootfsPath file (parse s).1 (parse s).2

theorem rootfsPath_injective {i j : String} (h : rootfsPath i = rootfsPath j) : i = j := by
  have htext := congrArg String.toList h
  simp only [rootfsPath, String.toList_append, List.append_assoc] at htext
  exact String.toList_injective (List.append_cancel_right (List.append_cancel_left
    (List.append_cancel_left htext)))

/-- **Running finds what was pulled** under a reference, the pull being the last one of this
reference, if and only if the reference has exactly one colon, or what is searched for it
was itself last pulled with the same ID. -/
theorem run_finds_pulled_iff (before later : List Pull) (p : Pull)
    (h : ∀ q ∈ later, q.reference ≠ p.reference) :
    (∃ file, applyPulls .missing (before ++ p :: later) = .ok file ∧
        runImage file p.reference = .ok (rootfsPath p.imageID)) ↔
      p.reference.toList.count ':' = 1 ∨
        lastID ((before ++ p :: later).map Pull.update) (searched p.reference) =
          some p.imageID := by
  have hfound : runImage (fileAfter ((before ++ p :: later).map Pull.update)) p.reference =
        .ok (rootfsPath p.imageID) ↔
      lastID ((before ++ p :: later).map Pull.update) (searched p.reference) =
        some p.imageID := by
    have hfind := find_fileAfter ((before ++ p :: later).map Pull.update) (parse p.reference).1
      (parse p.reference).2
    constructor
    · intro hrun
      rw [runImage] at hrun
      rw [hrun] at hfind
      obtain ⟨i, hi, hpath⟩ := Option.map_eq_some_iff.mp hfind.symm
      rw [searched, hi, rootfsPath_injective hpath]
    · intro hlast
      rw [searched] at hlast
      rw [hlast] at hfind
      exact ok_of_toOption hfind
  rw [applyPulls, applyUpdates_missing]
  simp only [Except.ok.injEq, exists_eq_left', hfound]
  -- one colon is a case of the other condition: what is searched is the reference itself
  refine ⟨.inr, fun hcond => hcond.elim (fun hone => ?_) id⟩
  have hsearched : searched p.reference = p.reference := imageText_parse hone
  have hlater : ∀ u ∈ later.map Pull.update, u.repoTag ≠ p.reference := by
    intro u hu
    obtain ⟨q, hq, rfl⟩ := List.mem_map.mp hu
    exact h q hq
  rw [hsearched, List.map_append, List.map_cons, ← List.singleton_append, ← List.append_assoc,
    lastID_append hlater]
  exact lastID_concat_self _ _ _

/-- `gocker pull alpine:3.20`, then `gocker run alpine:3.20`. -/
theorem run_finds_pulled_tagged :
    let pull : Pull := { reference := "alpine:3.20", digest := "sha256:0123456789abcdef" }
    ∃ file, applyPulls .missing [pull] = .ok file ∧
      runImage file "alpine:3.20" = .ok (rootfsPath "0123456789ab") :=
  (run_finds_pulled_iff [] [] { reference := "alpine:3.20", digest := "sha256:0123456789abcdef" }
    (by simp)).mpr (.inl (by decide))

/-- **A reference without a tag** is stored as it is, and searched with the tag `latest`. -/
theorem run_misses_pulled :
    let pull : Pull := { reference := "alpine", digest := "sha256:0123456789abcdef" }
    ∃ file, applyPulls .missing [pull] = .ok file ∧
      runImage file "alpine" ≠ .ok (rootfsPath pull.imageID) := by
  intro pull
  refine ⟨fileAfter [pull.update], applyUpdates_missing _, fun hrun => ?_⟩
  have hfind := find_fileAfter [pull.update] (parse "alpine").1 (parse "alpine").2
  rw [runImage] at hrun
  have hnone : lastID [pull.update] (imageText (parse "alpine").1 (parse "alpine").2) = none := by
    decide +kernel
  rw [hrun, hnone] at hfind
  cases hfind

end Gocker.Image
