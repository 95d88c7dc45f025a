import Gocker.Image.Pulls
import Gocker.Image.Untar
import Gocker.Lib.JsonCut

/-!
# Pulls from the registry to the manifest

`PullImage` (`internal/image/manager.go`) up to its last step, and any number of pulls with
their calls of `updateManifest` (`Pulls.lean`) in any order.  Nothing serialises these, so
that a text can be written over a longer one, or over one that another call has just begun.

`found_extracted` says that the manifest never tells of an image that is not there: what a
container is started from was in the manifest before, or has been extracted by a pull under
this reference.  It rests on what a text of JSON is, not on an order of the calls: an array
with anything behind it decodes as this array or not at all (`loadManifest_append`).

### Writes that overlap

`os.WriteFile` opens the file, which truncates it, and writes; two calls can be between the two
at once.  The second text is then written over the first from the front, and a longer first one
shows behind it.  `overwrite` is this, and `WrittenWhole` says that no text written over another
one is cut off.  The file then holds a whole text, perhaps with the end of a longer one behind
it, and is read as that text or not at all.  A text that is cut off in an empty file is only the
beginning of one, which is not read either.
-/

namespace Gocker.Image

open Machine FileTree
open Upsert (upsert)

/-! ## One pull -/

/-- What the operations of a pull meet: `crane.Pull` and `img.Digest`, the errors of the next
ones, the tree in which the image is extracted, and the archive; `untarError` is the text of
the error of `Untar`, if it has one. -/
structure PullEnv where
  img : Except String (Except String String)
  mkdirAll : Option String := none
  create : Option String := none
  exportTar : Option String := none
  tree : Tree
  can : Loc → Bool
  archive : Option (List TarRead)
  untarError : String := ""

/-- `fmt.Errorf` with `%w` behind a text -/
def wrapped {α : Type} (text : String) : Except String α → Except String α
  | .ok a => .ok a
  | .error err => .error (text ++ ": " ++ err)

/-- An operation without a result. -/
def attempt : Option String → Except String Unit
  | none => .ok ()
  | some err => .error err

/-- `filepath.Join(m.storageDir, imageID)` -/
def imageStorePath (imageID : String) : String := Config.imagesDir ++ "/" ++ imageID

/-- `PullImage` up to `updateManifest`: the entry that this one is called with. -/
def pullImage (env : PullEnv) (imageName : String) : Except String ImageManifest := do
  let img ← wrapped "crane pull 失敗" env.img
  let digest ← wrapped "獲取映像 digest 失敗" img
  let imageID := Pull.imageID { reference := imageName, digest }
  wrapped ("建立映像儲存目錄 " ++ imageStorePath imageID ++ " 失敗") (attempt env.mkdirAll)
  wrapped "建立映像 tarball 失敗" (attempt env.create)
  wrapped "匯出映像失敗" (attempt env.exportTar)
  wrapped "解壓縮映像失敗" <|
    if (untar env.tree env.can (rootfsPath imageID) env.archive).2 then .ok ()
    else .error env.untarError
  return { imageID, repoTag := imageName }

/-- The image of this entry is on the disk: everything before `updateManifest` has
succeeded. -/
structure PullEnv.Extracts (env : PullEnv) (m : ImageManifest) : Prop where
  named : ∃ digest, env.img = .ok (.ok digest) ∧
    m.imageID = Pull.imageID { reference := m.repoTag, digest }
  stored : env.mkdirAll = none ∧ env.create = none
  exported : env.exportTar = none
  untarred : (untar env.tree env.can (rootfsPath m.imageID) env.archive).2 = true

/-- What succeeds as a whole has succeeded in its first part. -/
theorem ok_of_wrapped_bind {α β : Type} {text : String} {x : Except String α}
    {f : α → Except String β} {b : β} (h : (wrapped text x >>= f) = .ok b) :
    ∃ a, x = .ok a ∧ f a = .ok b := by
  cases x with
  | error err => cases h
  | ok a => exact ⟨a, rfl, h⟩

/-- An operation that is attempted and does not fail has no error. -/
theorem eq_none_of_attempt {err : Option String} {u : Unit} (h : attempt err = .ok u) :
    err = none := by
  cases err with
  | none => rfl
  | some err => cases h

/-- A pull that gets as far as `updateManifest` has everything behind it. -/
theorem pullImage_ok {env : PullEnv} {imageName : String} {m : ImageManifest}
    (h : pullImage env imageName = .ok m) : m.repoTag = imageName ∧ env.Extracts m := by
  unfold pullImage at h
  obtain ⟨img, himg, h⟩ := ok_of_wrapped_bind h
  obtain ⟨digest, hdigest, h⟩ := ok_of_wrapped_bind h
  obtain ⟨_, hmkdir, h⟩ := ok_of_wrapped_bind h
  obtain ⟨_, hcreate, h⟩ := ok_of_wrapped_bind h
  obtain ⟨_, hexport, h⟩ := ok_of_wrapped_bind h
  obtain ⟨_, huntar, h⟩ := ok_of_wrapped_bind h
  obtain rfl := (Except.ok.inj h).symm
  refine ⟨rfl, ⟨digest, himg.trans (congrArg Except.ok hdigest), rfl⟩,
    ⟨eq_none_of_attempt hmkdir, eq_none_of_attempt hcreate⟩, eq_none_of_attempt hexport, ?_⟩
  by_contra hfailed
  rw [if_neg hfailed] at huntar
  cases huntar

/-! ## Texts over texts -/

/-- **A manifest with anything behind it** reads as this manifest, or not at all. -/
theorem loadManifest_append {ms ms' : List ImageManifest} {tail : List Char}
    (h : loadManifest (encodeManifest ms ++ tail) = some ms') : ms' = ms := by
  rw [loadManifest, encodeManifest, Json.decode_array_append] at h
  split_ifs at h
  · rw [Option.bind_some, decodeManifest, decodeElements_elements] at h
    exact (Option.some.inj h).symm
  · cases h

/-- **The beginning of a manifest** is all of it, or does not read. -/
theorem loadManifest_take {ms ms' : List ImageManifest} {n : ℕ}
    (h : loadManifest ((encodeManifest ms).take n) = some ms') : ms' = ms := by
  rcases lt_or_ge n (encodeManifest ms).length with hn | hn
  · rw [loadManifest, encodeManifest, Json.decode_array_take _ _ hn] at h
    cases h
  · rw [List.take_of_length_le hn, loadManifest_encodeManifest] at h
    exact (Option.some.inj h).symm

/-- Whatever the file was, a manifest that is written over it is what is read, if anything
is. -/
theorem readManifest_overwrite {file : ManifestFile} {ms ms' : List ImageManifest}
    (h : readManifest (overwrite file (encodeManifest ms)) = .ok ms') : ms' = ms := by
  have happend : ∃ tail,
      overwrite file (encodeManifest ms) = .text (encodeManifest ms ++ tail) := by
    cases file with
    | text old => exact ⟨_, rfl⟩
    | missing | unreadable => exact ⟨[], congrArg _ (List.append_nil _).symm⟩
  obtain ⟨tail, htail⟩ := happend
  rw [htail, readManifest] at h
  split at h
  · next manifests hload =>
      obtain rfl := Except.ok.inj h
      exact loadManifest_append hload
  · cases h

/-- A beginning of a text is read as all of it, or not at all. -/
theorem readManifest_overwrite_take {ms ms' : List ImageManifest} {n : ℕ}
    (h : readManifest (overwrite (.text []) ((encodeManifest ms).take n)) = .ok ms') :
    ms' = ms := by
  rw [Pulling.overwrite_truncated, readManifest] at h
  split at h
  · next manifests hload =>
      obtain rfl := Except.ok.inj h
      exact loadManifest_take hload
  · cases h

/-! ## The machine -/

/-- The calls of `updateManifest`, and the calls of `PullImage` so far, each with what it has
met. -/
structure Storage where
  pulling : Pulling
  pulls : List (PullEnv × String)

/-- The events: a pull up to the manifest, or a step of one of the calls that write it. -/
inductive StorageEvent where
  /-- a pull up to its call of `updateManifest`, if it gets there -/
  | pull (env : PullEnv) (imageName : String)
  /-- a call of `updateManifest` goes on -/
  | update (a : Activity)

/-- The text that a call has prepared. -/
def Phase.text : Phase → Option (List Char)
  | .holding _ data | .opened data => some data
  | .reading | .returned _ => none

/-- A call begins only as the end of a pull. -/
def Activity.isBegin : Activity → Bool
  | .begin _ _ => true
  | _ => false

namespace Storage

/-- A step; `none` where it is not possible. -/
def step (s : Storage) : StorageEvent → Option Storage
  | .pull env imageName =>
      let pulls := (env, imageName) :: s.pulls
      match pullImage env imageName with
      | .error _ => some { s with pulls }
      | .ok m => (s.pulling.step (.begin m.repoTag m.imageID)).map ({ pulling := ·, pulls })
  | .update a =>
      if a.isBegin then none else (s.pulling.step a).map ({ s with pulling := · })

/-- No pull yet. -/
def start (file : ManifestFile) : Storage := { pulling := .start file, pulls := [] }

/-- No text that is written over another one is cut off. -/
def WrittenWhole (s : Storage) : StorageEvent → Prop
  | .update (.writeFails _ n) => n = 0 ∨ s.pulling.file = .text []
  | _ => True

instance (s : Storage) (e : StorageEvent) : Decidable (WrittenWhole s e) := by
  unfold WrittenWhole
  split <;> infer_instance

/-- A pull under this reference has put the image on the disk. -/
def Extracted (s : Storage) (m : ImageManifest) : Prop :=
  ∃ env, (env, m.repoTag) ∈ s.pulls ∧ env.Extracts m

/-- The entry was in the file before all pulls, or its image has been extracted. -/
def Known (file : ManifestFile) (s : Storage) (m : ImageManifest) : Prop :=
  (∃ ms, readManifest file = .ok ms ∧ m ∈ ms) ∨ s.Extracted m

variable {file : ManifestFile} {s t : Storage} {ms : List ImageManifest} {m : ImageManifest}

/-- What is known of an image stays so when there are more pulls. -/
theorem Known.mono (h : Known file s m) (hpulls : s.pulls ⊆ t.pulls) : Known file t m :=
  h.imp_right fun ⟨env, hmem, hex⟩ => ⟨env, hpulls hmem, hex⟩

/-! ## A step of `updateManifest` -/

/-- What an activity of a call does to it and to the file. -/
inductive Changes (p : Pulling) (a : Activity) (c : Update) : Phase → ManifestFile → Prop
  | read {data : List Char} (hdata : updateManifest p.file c.repoTag c.imageID = .ok data) :
      Changes p a c (.holding p.file data) p.file
  | opened {data : List Char} (hdata : c.phase.text = some data) :
      Changes p a c (.opened data) (.text [])
  | wrote {data : List Char} (hdata : c.phase.text = some data) :
      Changes p a c (.returned true) (overwrite p.file data)
  | failed : Changes p a c (.returned false) p.file
  | cut {data : List Char} {k n : ℕ} (ha : a = .writeFails k n)
      (hdata : c.phase.text = some data) :
      Changes p a c (.returned false) (overwrite p.file (data.take n))

/-- What a step of a call does to the file and to the call. -/
theorem changes {p q : Pulling} {a : Activity} (h : p.step a = some q) (ha : a.isBegin = false) :
    ∃ k c phase file, p.calls k = some c ∧ Changes p a c phase file ∧
      q = { p with file := file }.set k { c with phase := phase } := by
  cases a with
  | begin repoTag imageID => cases ha
  | read k =>
      simp only [Pulling.step] at h
      split at h
      · next repoTag imageID hk =>
          split at h
          · next data hdata =>
              cases h
              exact ⟨k, _, _, _, hk, .read hdata, rfl⟩
          · cases h
            exact ⟨k, _, _, _, hk, .failed, rfl⟩
      · cases h
  | «open» k =>
      simp only [Pulling.step] at h
      split at h
      · next hk =>
          cases h
          exact ⟨k, _, _, _, hk, .opened rfl, rfl⟩
      · cases h
  | write k =>
      simp only [Pulling.step] at h
      split at h
      · next hk =>
          cases h
          exact ⟨k, _, _, _, hk, .wrote rfl, rfl⟩
      · cases h
  | fail k =>
      simp only [Pulling.step] at h
      split at h
      · next hk =>
          cases h
          exact ⟨k, _, _, _, hk, .failed, rfl⟩
      · next hk =>
          cases h
          exact ⟨k, _, _, _, hk, .failed, rfl⟩
      · cases h
  | writeFails k n =>
      simp only [Pulling.step] at h
      split at h
      · next hk =>
          cases h
          exact ⟨k, _, _, _, hk, .cut rfl rfl, rfl⟩
      · cases h

/-! ## The invariant -/

/-- Everything that is read or going to be written is known. -/
structure Sound (file : ManifestFile) (s : Storage) : Prop where
  read : ∀ ms, readManifest s.pulling.file = .ok ms → ∀ m ∈ ms, Known file s m
  calls : ∀ k c, s.pulling.calls k = some c →
    s.Extracted { imageID := c.imageID, repoTag := c.repoTag }
  texts : ∀ k c data, s.pulling.calls k = some c → c.phase.text = some data →
    ∃ ms, data = encodeManifest ms ∧ ∀ m ∈ ms, Known file s m

/-- At the beginning the manifest tells of what it told of. -/
theorem Sound.start (file : ManifestFile) : Sound file (start file) where
  read ms hms m hm := .inl ⟨ms, hms, hm⟩
  calls k c hc := by cases hc
  texts k c data hc := by cases hc

/-- The call is one of a pull that has come to its end. -/
theorem Sound.pull (h : Sound file s) {env : PullEnv} {imageName : String}
    (he : s.step (.pull env imageName) = some t) : Sound file t := by
  have hsub : s.pulls ⊆ (env, imageName) :: s.pulls := List.subset_cons_self _ _
  rw [step] at he
  split at he
  · obtain rfl := Option.some.inj he
    exact ⟨fun ms hms m hm => (h.read ms hms m hm).mono hsub,
      fun k c hc => (h.calls k c hc).imp fun _ => .imp_left (hsub ·),
      fun k c data hc hd => (h.texts k c data hc hd).imp fun _ =>
        .imp_right fun hall m hm => (hall m hm).mono hsub⟩
  · next m hm =>
      obtain ⟨htag, hextracts⟩ := pullImage_ok hm
      obtain ⟨p, hp, rfl⟩ := Option.map_eq_some_iff.mp he
      obtain rfl := Option.some.inj hp
      refine ⟨fun ms hms m hm => (h.read ms hms m hm).mono hsub, fun k c hc => ?_,
        fun k c data hc hd => ?_⟩
      · rcases Pulling.calls_set hc with ⟨rfl, rfl⟩ | ⟨-, hc⟩
        · exact ⟨env, htag ▸ List.mem_cons_self, hextracts⟩
        · exact (h.calls k c hc).imp fun _ => .imp_left (hsub ·)
      · rcases Pulling.calls_set hc with ⟨rfl, rfl⟩ | ⟨-, hc⟩
        · cases hd
        · exact (h.texts k c data hc hd).imp fun _ =>
            .imp_right fun hall m hm => (hall m hm).mono hsub

/-- What a call prepares from a known file is known. -/
theorem Sound.prepared (h : Sound file s) {k : ℕ} {c : Update} {data : List Char}
    (hc : s.pulling.calls k = some c)
    (hdata : updateManifest s.pulling.file c.repoTag c.imageID = .ok data) :
    ∃ ms, data = encodeManifest ms ∧ ∀ m ∈ ms, Known file s m := by
  cases hread : readManifest s.pulling.file with
  | error err =>
      rw [updateManifest, hread] at hdata
      cases hdata
  | ok ms =>
      refine ⟨_, Pulling.updateManifest_ok hdata hread, fun m hm => ?_⟩
      rcases Upsert.mem_of_mem_upsert hm with rfl | hm
      · exact .inr (h.calls k c hc)
      · exact h.read ms hread m hm

/-- What can be read of the changed file is known: it is the old one, or one of the texts. -/
theorem Sound.changed (h : Sound file s) {k : ℕ} {a : Activity} {c : Update} {phase : Phase}
    {changed : ManifestFile} (hc : s.pulling.calls k = some c)
    (hch : Changes s.pulling a c phase changed) (hwhole : WrittenWhole s (.update a))
    (hms : readManifest changed = .ok ms) (hm : m ∈ ms) : Known file s m := by
  cases hch with
  | read hdata => exact h.read ms hms m hm
  | opened hdata => cases hms
  | wrote hdata =>
      obtain ⟨ms', rfl, hall⟩ := h.texts k c _ hc hdata
      exact hall m (readManifest_overwrite hms ▸ hm)
  | failed => exact h.read ms hms m hm
  | @cut data k' n ha hdata =>
      obtain ⟨ms', rfl, hall⟩ := h.texts k c _ hc hdata
      subst ha
      rcases hwhole with rfl | hempty
      · -- nothing has been written
        cases hfile : s.pulling.file with
        | text old => exact h.read ms (hfile ▸ (by simpa [overwrite, hfile] using hms)) m hm
        | missing | unreadable =>
            rw [hfile] at hms
            cases hms
      · rw [hempty] at hms
        exact hall m (readManifest_overwrite_take hms ▸ hm)

/-- A step of a call keeps what the manifest tells of among what is known. -/
theorem Sound.update (h : Sound file s) {a : Activity} (hwhole : WrittenWhole s (.update a))
    (he : s.step (.update a) = some t) : Sound file t := by
  rw [step] at he
  split at he
  · cases he
  · next hbegin =>
      obtain ⟨p, hp, rfl⟩ := Option.map_eq_some_iff.mp he
      obtain ⟨k, c, phase, changed, hc, hch, rfl⟩ := changes hp (Bool.not_eq_true _ ▸ hbegin)
      refine ⟨fun ms hms m hm => h.changed hc hch hwhole hms hm, fun j d hd => ?_,
        fun j d data hd hdata => ?_⟩
      · rcases Pulling.calls_set hd with ⟨rfl, rfl⟩ | ⟨-, hd⟩
        · exact h.calls j c hc
        · exact h.calls j d hd
      · rcases Pulling.calls_set hd with ⟨rfl, rfl⟩ | ⟨-, hd⟩
        · cases hch with
          | read hprepared =>
              obtain rfl := Option.some.inj hdata
              exact h.prepared hc hprepared
          | opened hprepared =>
              obtain rfl := Option.some.inj hdata
              exact h.texts j c _ hc hprepared
          | wrote | failed | cut => cases hdata
        · exact h.texts j d data hd hdata

theorem Sound.step {e : StorageEvent} (h : Sound file s) (hwhole : WrittenWhole s e)
    (he : s.step e = some t) : Sound file t := by
  cases e with
  | pull env imageName => exact h.pull he
  | update a => exact h.update hwhole he

/-! ## What a container is started from -/

/-- **What is found has been extracted**: whatever the order of the steps, a path that
`findImageRootfsPath` returns is that of an entry which was there before the pulls, or whose
image has been extracted by a pull under the reference. -/
theorem found_extracted (h : Reaches step WrittenWhole (start file) s) :
    (∀ ms, readManifest s.pulling.file = .ok ms → ∀ m ∈ ms, Known file s m) ∧
      ∀ name tag path, findImageRootfsPath s.pulling.file name tag = .ok path →
        ∃ m, m.repoTag = imageText name tag ∧ path = rootfsPath m.imageID ∧ Known file s m := by
  have hsound : Sound file s := h.invariant (.start file) fun _ _ _ hi hC he => hi.step hC he
  refine ⟨hsound.read, fun name tag path hpath => ?_⟩
  unfold findImageRootfsPath at hpath
  split at hpath
  · cases hpath
  · cases hpath
  · next data hfile =>
      split at hpath
      · cases hpath
      · next manifests hload =>
          split at hpath
          · next m hfind =>
              have hread : readManifest s.pulling.file = .ok manifests := by
                rw [hfile, readManifest, hload]
              exact ⟨m, by simpa using List.find?_some hfind, (Except.ok.inj hpath).symm,
                hsound.read manifests hread m (List.mem_of_find?_eq_some hfind)⟩
          · cases hpath

/-- A pull from a registry that has the image, with an archive that may not be there. -/
def fetching (digest : String) (archive : Option (List TarRead)) : PullEnv where
  img := .ok (.ok digest)
  tree := host
  can := fine.can
  archive := archive

/-- Two pulls that open the manifest one after the other before either writes, and a third
one that cannot extract its image. -/
def overlapping : List StorageEvent :=
  let bin : List TarRead := [.entry { name := "bin/", typeflag := .dir } fine]
  [.pull (fetching "sha256:0000000000010" (some bin)) "a:1",
    .pull (fetching "sha256:0000000000020" (some bin)) "b:1",
    .pull (fetching "sha256:0000000000030" none) "c:1",
    .update (.read 0), .update (.read 1), .update (.open 0), .update (.open 1),
    .update (.write 1), .update (.write 0)]

/-- Two pulls whose writes overlap: what is found has been extracted. -/
theorem found_extracted_overlapping :
    ∃ s : Storage, (findImageRootfsPath s.pulling.file "a" "1").toOption =
        some "/var/lib/gocker/images/000000000001/rootfs" ∧
      (∀ ms, readManifest s.pulling.file = .ok ms → ∀ m ∈ ms, Known .missing s m) ∧
      ∀ name tag path, findImageRootfsPath s.pulling.file name tag = .ok path →
        ∃ m, m.repoTag = imageText name tag ∧ path = rootfsPath m.imageID ∧ Known .missing s m :=
  ⟨outcome step WrittenWhole (start .missing) overlapping, by decide +kernel,
    found_extracted (reaches_outcome ..)⟩

end Storage

end Gocker.Image
