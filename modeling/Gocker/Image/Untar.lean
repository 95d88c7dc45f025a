import Gocker.Lib.FileTree

/-!
# Extracting an image

`Untar` (`internal/image/manager.go`) on a file system with symbolic links.  An archive is
what the calls of `tarReader.Next` return; an absolute `destPath` is a path from the root.

`contained_iff` says when nothing is created or written outside of the destination: each
entry has to land inside, in the tree as the earlier ones have left it.

### Two ways out

`filepath.Join(destPath, header.Name)` cleans the path, so that `../` in a name leads above the
destination.  And a symbolic link that an entry has made is followed by the entries after it.
`Untar` checks neither.  `Turn.Lands` is where the calls of an entry end up, with the links of
the tree that it meets.
-/

namespace Gocker.Image

open FileTree

/-! ## Untar -/

/-- The kinds of entries that `Untar` tells apart. -/
inductive Typeflag where
  | dir
  | reg
  | symlink
  /-- a hard link -/
  | link
  | other
deriving DecidableEq, Repr

/-- A header, with the data that follow it. -/
structure TarEntry where
  name : String
  typeflag : Typeflag
  linkname : String := ""
  data : List UInt8 := []
deriving DecidableEq, Repr

/-- What the calls for an entry meet: where the disk lets a node be created or a file be
opened, and how many bytes `io.Copy` copies. -/
structure Outcome where
  can : Loc → Bool
  copied : ℕ

/-- `tarReader.Next`, up to the end of the archive. -/
inductive TarRead where
  | entry (e : TarEntry) (o : Outcome)
  | error

/-- `filepath.Clean` of an absolute path. -/
def clean (path : List String) : List String :=
  path.foldl (fun done part =>
    if part = "" ∨ part = "." then done
    else if part = ".." then done.dropLast
    else done ++ [part]) []

/-- `filepath.Join(destPath, header.Name)` -/
def TarEntry.target (destPath : String) (e : TarEntry) : List String :=
  clean (parts destPath ++ parts e.name)

/-- The bytes that `io.Copy` copies. -/
def TarEntry.copied (e : TarEntry) (o : Outcome) : List UInt8 := e.data.take o.copied

/-- The body of the loop; without a result, `Untar` returns an error. -/
def extract (destPath : String) (d : Disk) (e : TarEntry) (o : Outcome) : Option Disk :=
  let target := e.target destPath
  match e.typeflag with
  | .dir => some (d.mkdirAll o.can target.reverse).1
  | .reg =>
      match d.openFile o.can target with
      | .error _ => none
      | .ok (outFile, opened) => some (opened.writeFile outFile (e.copied o))
  | .symlink =>
      match d.symlink o.can e.linkname target with
      | .error _ => some d
      | .ok linked => some linked
  | .link | .other => some d

/-- The loop, and whether `Untar` returns nil. -/
def extractAll (destPath : String) : Disk → List TarRead → Disk × Bool
  | d, [] => (d, true)
  | d, .error :: _ => (d, false)
  | d, .entry e o :: reads =>
      match extract destPath d e o with
      | none => (d, false)
      | some d' => extractAll destPath d' reads

/-- The tree when the loop begins; making `destPath` itself is not noted. -/
def begun (t : Tree) (can : Loc → Bool) (destPath : String) : Disk where
  tree := ((Disk.mk t []).mkdirAll can (parts destPath).reverse).1.tree
  touched := []

/-- `Untar`, on an archive that may not be opened. -/
def untar (t : Tree) (can : Loc → Bool) (destPath : String) (archive : Option (List TarRead)) :
    Disk × Bool :=
  match archive with
  | none => (begun t can destPath, false)
  | some reads => extractAll destPath (begun t can destPath) reads

/-- An entry at its turn. -/
structure Turn where
  before : Disk
  entry : TarEntry
  outcome : Outcome

/-- The entries that are handled, each at its turn. -/
def turns (destPath : String) : Disk → List TarRead → List Turn
  | _, [] => []
  | _, .error :: _ => []
  | d, .entry e o :: reads =>
      ⟨d, e, o⟩ ::
        match extract destPath d e o with
        | none => []
        | some d' => turns destPath d' reads

theorem isName_of_mem_clean {path : List String} {name : String} (h : name ∈ clean path) :
    IsName name := by
  induction path using List.reverseRecOn with
  | nil => cases h
  | append_singleton path part ih =>
      rw [clean, List.foldl_concat, ← clean] at h
      split_ifs at h with hstay hup
      · exact ih h
      · exact ih (List.dropLast_subset _ h)
      · rcases List.mem_append.mp h with h | h
        · exact ih h
        · rw [List.mem_singleton.mp h]
          exact ⟨fun he => hstay (.inl he), fun he => hstay (.inr he), hup⟩

/-! ## Containment -/

/-- Inside the destination, with links resolved. -/
def Inside (t : Tree) (destPath : String) (loc : Loc) : Prop :=
  ∃ real, resolve t (parts destPath) = .ok real ∧ real <+: loc

/-- Where the entry lands: a place on its target where nothing is yet, or a file it writes.
On the way links are followed, and for a regular file also in the last place. -/
def Turn.Lands (turn : Turn) (destPath : String) (loc : Loc) : Prop :=
  let t := turn.before.tree
  let target := turn.entry.target destPath
  match turn.entry.typeflag with
  | .dir => Disk.Missing t turn.outcome.can target.reverse loc
  | .reg =>
      resolve t target = .ok loc ∧ turn.outcome.can loc = true ∧
        (t.node loc = none ∨
          (∃ old, t.node loc = some (.file old)) ∧ turn.entry.copied turn.outcome ≠ [])
  | .symlink =>
      turn.entry.linkname ≠ "" ∧ place t target = .ok loc ∧ t.node loc = none ∧
        turn.outcome.can loc = true
  | .link | .other => False

section
variable {P : Loc → Prop} {destPath : String}

/-- Opening a file and writing to it touches what is opened, where there was nothing or bytes
are written. -/
theorem within_open {d opened : Disk} {can : Loc → Bool} {path : List String} {outFile : Loc}
    {data : List UInt8} (h : d.openFile can path = .ok (outFile, opened)) :
    Disk.Within P (opened.writeFile outFile data) ↔
      Disk.Within P d ∧ (d.tree.node outFile = none ∨
        (∃ old, d.tree.node outFile = some (.file old)) ∧ data ≠ [] → P outFile) := by
  obtain ⟨old, hold, -⟩ := Disk.node_openFile h
  rw [Disk.within_writeFile hold]
  obtain ⟨-, -, ⟨hnone, rfl⟩ | ⟨-, rfl⟩⟩ := Disk.openFile_eq_ok.mp h
  · rw [Disk.within_create]
    simp only [hnone, true_or, true_imp_iff]
    tauto
  · rw [and_comm]
    simp [hold]

/-- An entry stays within a part of the tree exactly if it lands there. -/
theorem within_extract (hP : ∀ loc name, P loc → P (loc ++ [name])) {d : Disk} {e : TarEntry}
    {o : Outcome} :
    Disk.Within P ((extract destPath d e o).getD d) ↔
      Disk.Within P d ∧ ∀ loc, Turn.Lands ⟨d, e, o⟩ destPath loc → P loc := by
  simp only [extract, Turn.Lands]
  cases e.typeflag with
  | dir =>
      refine Disk.within_mkdirAll hP fun name hname => ?_
      exact isName_of_mem_clean (List.mem_reverse.mp hname)
  | reg =>
      cases hopen : d.openFile o.can (e.target destPath) with
      | error err =>
          -- it lands nowhere: otherwise the file could have been opened
          refine ⟨fun h => ⟨h, fun loc ⟨hresolve, hcan, hnode⟩ => ?_⟩, And.left⟩
          rcases hnode with hnone | ⟨hfile, -⟩
          · have hopened := Disk.openFile_eq_ok.mpr ⟨hresolve, hcan, .inl ⟨hnone, rfl⟩⟩
            rw [hopen] at hopened
            cases hopened
          · have hopened := Disk.openFile_eq_ok.mpr ⟨hresolve, hcan, .inr ⟨hfile, rfl⟩⟩
            rw [hopen] at hopened
            cases hopened
      | ok opened =>
          obtain ⟨outFile, opened⟩ := opened
          obtain ⟨hresolve, hcan, -⟩ := Disk.openFile_eq_ok.mp hopen
          show Disk.Within P (opened.writeFile outFile (e.copied o)) ↔ _
          rw [within_open hopen]
          refine and_congr_right fun _ => ⟨fun h loc ⟨hloc, _, hnode⟩ => ?_, fun h hnode => ?_⟩
          · obtain rfl := Except.ok.inj (hresolve.symm.trans hloc)
            exact h hnode
          · exact h outFile ⟨hresolve, hcan, hnode⟩
  | symlink =>
      rw [Disk.symlink]
      split_ifs with hempty
      · simp [hempty]
      · cases hcreate : d.createAt o.can (e.target destPath) (.link e.linkname) with
        | error err =>
            refine ⟨fun h => ⟨h, fun loc ⟨_, hplace, hnone, hcan⟩ => ?_⟩, And.left⟩
            have hcreated := Disk.createAt_eq_ok (n := .link e.linkname) |>.mpr
              ⟨loc, hplace, hnone, hcan, rfl⟩
            rw [hcreate] at hcreated
            cases hcreated
        | ok linked =>
            obtain ⟨loc, hplace, hnone, hcan, rfl⟩ := Disk.createAt_eq_ok.mp hcreate
            show Disk.Within P (d.create loc _) ↔ _
            rw [Disk.within_create, and_comm]
            refine and_congr_right fun _ => ⟨fun hgood loc' ⟨_, hplace', _⟩ => ?_, fun h => ?_⟩
            · obtain rfl := Except.ok.inj (hplace.symm.trans hplace')
              exact hgood
            · exact h loc ⟨hempty, hplace, hnone, hcan⟩
  | link => exact ⟨fun h => ⟨h, fun _ hlands => hlands.elim⟩, And.left⟩
  | other => exact ⟨fun h => ⟨h, fun _ hlands => hlands.elim⟩, And.left⟩

/-- The entries do exactly if each of them lands there, in the tree as the earlier ones have
left it. -/
theorem within_extractAll (hP : ∀ loc name, P loc → P (loc ++ [name])) (d : Disk)
    (reads : List TarRead) :
    Disk.Within P (extractAll destPath d reads).1 ↔
      Disk.Within P d ∧
        ∀ turn ∈ turns destPath d reads, ∀ loc, turn.Lands destPath loc → P loc := by
  induction reads generalizing d with
  | nil => exact ⟨fun h => ⟨h, List.forall_mem_nil _⟩, And.left⟩
  | cons read reads ih =>
      cases read with
      | error => exact ⟨fun h => ⟨h, List.forall_mem_nil _⟩, And.left⟩
      | entry e o =>
          have hone : Disk.Within P ((extract destPath d e o).getD d) ↔ _ := within_extract hP
          simp only [extractAll, turns, List.forall_mem_cons]
          cases hextract : extract destPath d e o with
          | none =>
              rw [hextract, Option.getD_none] at hone
              simpa using hone
          | some d' =>
              rw [hextract, Option.getD_some] at hone
              rw [← and_assoc, ← hone]
              exact ih d'

end

/-- **Nothing is created or written outside of the destination** if and only if each entry, at
its turn, lands inside. -/
theorem contained_iff (t : Tree) (can : Loc → Bool) (destPath : String) (reads : List TarRead) :
    (∀ loc ∈ (untar t can destPath (some reads)).1.touched,
        Inside (begun t can destPath).tree destPath loc) ↔
      ∀ turn ∈ turns destPath (begun t can destPath) reads,
        ∀ loc, turn.Lands destPath loc → Inside (begun t can destPath).tree destPath loc := by
  have hP : ∀ loc name, Inside (begun t can destPath).tree destPath loc →
      Inside (begun t can destPath).tree destPath (loc ++ [name]) := by
    rintro loc name ⟨real, hreal, hpre⟩
    exact ⟨real, hreal, hpre.trans (List.prefix_append loc [name])⟩
  have hbegun : Disk.Within (Inside (begun t can destPath).tree destPath) (begun t can destPath) :=
    List.forall_mem_nil _
  exact (within_extractAll hP (begun t can destPath) reads).trans (and_iff_right hbegun)

/-- A host with an image directory. -/
def host : Tree :=
  ((Tree.empty.create ["etc"] .dir).create ["images"] .dir).create ["images", "rootfs"] .dir

/-- The disk lets everything be done, and files are copied to their ends. -/
def fine : Outcome := { can := fun _ => true, copied := 1000 }

/-- A name that climbs out of the destination. -/
def climbing : List TarRead :=
  [.entry { name := "../evil", typeflag := .reg, data := [1] } fine]

/-- A link out of the destination, and a file behind it. -/
def planted : List TarRead :=
  [.entry { name := "conf", typeflag := .symlink, linkname := "/etc" } fine,
    .entry { name := "conf/passwd", typeflag := .reg, data := [1] } fine]

/-- An entry that climbs out by its name, and one that goes through a link that was planted
before. -/
theorem not_contained :
    (untar host fine.can "/images/rootfs" (some climbing)).1.touched =
        [["images", "evil"], ["images", "evil"]] ∧
      (untar host fine.can "/images/rootfs" (some planted)).1.touched =
        [["etc", "passwd"], ["etc", "passwd"], ["images", "rootfs", "conf"]] ∧
      (¬ ∀ loc ∈ (untar host fine.can "/images/rootfs" (some climbing)).1.touched,
        Inside (begun host fine.can "/images/rootfs").tree "/images/rootfs" loc) ∧
      ¬ ∀ loc ∈ (untar host fine.can "/images/rootfs" (some planted)).1.touched,
        Inside (begun host fine.can "/images/rootfs").tree "/images/rootfs" loc := by
  have hclimbing : (untar host fine.can "/images/rootfs" (some climbing)).1.touched =
      [["images", "evil"], ["images", "evil"]] := by decide +kernel
  have hplanted : (untar host fine.can "/images/rootfs" (some planted)).1.touched =
      [["etc", "passwd"], ["etc", "passwd"], ["images", "rootfs", "conf"]] := by decide +kernel
  have hreal : resolve (begun host fine.can "/images/rootfs").tree (parts "/images/rootfs") =
      .ok ["images", "rootfs"] := by decide +kernel
  have houtside : ∀ loc, ¬ ["images", "rootfs"] <+: loc →
      ¬ Inside (begun host fine.can "/images/rootfs").tree "/images/rootfs" loc := by
    rintro loc hnot ⟨real, hresolve, hpre⟩
    obtain rfl := Except.ok.inj (hreal.symm.trans hresolve)
    exact hnot hpre
  refine ⟨hclimbing, hplanted, fun h => ?_, fun h => ?_⟩
  · rw [hclimbing] at h
    exact houtside ["images", "evil"] (by decide) (h _ List.mem_cons_self)
  · rw [hplanted] at h
    exact houtside ["etc", "passwd"] (by decide) (h _ List.mem_cons_self)

end Gocker.Image
