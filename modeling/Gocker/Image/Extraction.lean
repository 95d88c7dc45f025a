import Gocker.Image.Untar

/-!
# What an extraction leaves

An extraction is complete if each path is what the last entry with its name says.  `Untar`
ignores some errors, hard links, and what a file had before.

`complete_of_faithful` gives the conditions under which it is complete when `Untar` returns
nil, on any tree that is there before.  Directories and links stay once they are made
(`Grows`), so that only the data of files have to be followed.

### What `Untar` passes over

* The errors of `os.MkdirAll`, `os.Symlink` and `io.Copy` are ignored; only one of `os.OpenFile`
  is returned.
* A hard link is not made, and neither is any other kind of entry.
* A regular file is opened without `O_TRUNC`: what was there before remains behind the new data.

So a result of nil does not say that the tree is what the archive describes, and `faithful` says
what has to be added.
-/

namespace Gocker.Image

open FileTree

/-! ## The property -/

/-- The entries of an archive. -/
def entries : List TarRead → List TarEntry
  | [] => []
  | .entry e _ :: reads => e :: entries reads
  | .error :: reads => entries reads

/-- The path of the entry is as it says.  A hard link has the data of its target, which is a
name of the archive. -/
def TarEntry.Extracted (e : TarEntry) (t : Tree) (destPath : String) : Prop :=
  match e.typeflag with
  | .dir => lstat t (e.target destPath) = .ok .dir
  | .reg => lstat t (e.target destPath) = .ok (.file e.data)
  | .symlink => lstat t (e.target destPath) = .ok (.link e.linkname)
  | .link => ∃ data, lstat t (e.target destPath) = .ok (.file data) ∧
      lstat t (clean (parts destPath ++ parts e.linkname)) = .ok (.file data)
  | .other => True

/-- Each entry that is the last one of its name has been extracted. -/
def Complete (t : Tree) (destPath : String) (es : List TarEntry) : Prop :=
  ∀ before e after, es = before ++ e :: after →
    (∀ later ∈ after, later.target destPath ≠ e.target destPath) → e.Extracted t destPath

/-! ## The conditions -/

/-- In the tree as it is at its turn, the entry is handled as it should be.
* A directory is there, or there is nothing and it can be made with its parents.
* For a regular file there is nothing and the copy is complete, or a file with the same data
  behind those that are copied.
* For a link there is nothing and it can be made, or the same link.
* A hard link is never handled. -/
def Turn.handled (turn : Turn) (destPath : String) : Bool :=
  let t := turn.before.tree
  let target := turn.entry.target destPath
  let data := turn.entry.data
  let copied := turn.entry.copied turn.outcome
  match turn.entry.typeflag with
  | .dir =>
      match stat t target with
      | .ok _ => lstat t target = .ok .dir
      | .error _ => (turn.before.mkdirAll turn.outcome.can target.reverse).2
  | .reg =>
      match lstat t target with
      | .ok (.file old) => old.drop copied.length = data.drop copied.length
      | .ok _ => false
      | .error _ => copied = data
  | .symlink =>
      match lstat t target with
      | .ok n => n = .link turn.entry.linkname
      | .error _ => (turn.before.symlink turn.outcome.can turn.entry.linkname target).isOk
  | .link => false
  | .other => true

/-- The entry leaves the data of the file at this location: it is not written, or the
beginning of the same data is. -/
def Turn.leaves (turn : Turn) (destPath : String) (loc : Loc) (data : List UInt8) : Bool :=
  turn.entry.typeflag ≠ .reg || resolve turn.before.tree (turn.entry.target destPath) ≠ .ok loc ||
    (turn.entry.copied turn.outcome).isPrefixOf data

/-- Each entry that is the last one of its name is handled, and if it is a regular file, the
later ones leave its data. -/
def faithful (destPath : String) : List Turn → Bool
  | [] => true
  | turn :: later =>
      (later.any (fun l => l.entry.target destPath = turn.entry.target destPath) ||
          turn.handled destPath &&
            (turn.entry.typeflag ≠ .reg ||
              match place turn.before.tree (turn.entry.target destPath) with
              | .ok loc => later.all (·.leaves destPath loc turn.entry.data)
              | .error _ => true)) &&
        faithful destPath later

/-! ## What an entry does to the others -/

section
variable {destPath : String} {d d' : Disk} {e : TarEntry} {o : Outcome}

/-- A directory is made, as far as possible. -/
theorem extract_of_dir (h : extract destPath d e o = some d') (htype : e.typeflag = .dir) :
    d' = (d.mkdirAll o.can (e.target destPath).reverse).1 := by
  rw [extract, htype] at h
  exact (Option.some.inj h).symm

/-- A regular file has been opened, and is written. -/
theorem extract_of_reg (h : extract destPath d e o = some d') (htype : e.typeflag = .reg) :
    ∃ outFile opened, d.openFile o.can (e.target destPath) = .ok (outFile, opened) ∧
      d' = opened.writeFile outFile (e.copied o) := by
  rw [extract, htype] at h
  cases hopen : d.openFile o.can (e.target destPath) with
  | error err =>
      simp only [hopen] at h
      cases h
  | ok opened =>
      simp only [hopen] at h
      exact ⟨opened.1, opened.2, rfl, (Option.some.inj h).symm⟩

/-- A link is made, or there is an error that is dropped. -/
theorem extract_of_symlink (h : extract destPath d e o = some d') (htype : e.typeflag = .symlink) :
    d.symlink o.can e.linkname (e.target destPath) = .ok d' ∨
      (∃ err, d.symlink o.can e.linkname (e.target destPath) = .error err) ∧ d' = d := by
  rw [extract, htype] at h
  cases hlink : d.symlink o.can e.linkname (e.target destPath) with
  | error err =>
      simp only [hlink] at h
      exact .inr ⟨⟨err, rfl⟩, (Option.some.inj h).symm⟩
  | ok linked =>
      simp only [hlink] at h
      exact .inl (by rw [Option.some.inj h])

/-- The ways in which an entry changes the disk. -/
theorem extract_cases (h : extract destPath d e o = some d') :
    d' = (d.mkdirAll o.can (e.target destPath).reverse).1 ∨
      (e.typeflag = .reg ∧ ∃ outFile opened,
        d.openFile o.can (e.target destPath) = .ok (outFile, opened) ∧
          d' = opened.writeFile outFile (e.copied o)) ∨
      d.symlink o.can e.linkname (e.target destPath) = .ok d' ∨ d' = d := by
  cases htype : e.typeflag with
  | dir => exact .inl (extract_of_dir h htype)
  | reg => exact .inr (.inl ⟨rfl, extract_of_reg h htype⟩)
  | symlink => exact .inr (.inr ((extract_of_symlink h htype).imp_right And.right))
  | link =>
      rw [extract, htype] at h
      exact .inr (.inr (.inr (Option.some.inj h).symm))
  | other =>
      rw [extract, htype] at h
      exact .inr (.inr (.inr (Option.some.inj h).symm))

/-- A link that is made is made where the path leads. -/
theorem symlink_createAt {can : Loc → Bool} {target : String} {path : List String}
    (h : d.symlink can target path = .ok d') : d.createAt can path (.link target) = .ok d' := by
  rw [Disk.symlink] at h
  split_ifs at h
  exact h

/-- An entry leaves the directories and the links that there are. -/
theorem extract_grows (h : extract destPath d e o = some d') : Grows d.tree d'.tree := by
  rcases extract_cases h with rfl | ⟨-, outFile, opened, hopen, rfl⟩ | hlink | rfl
  · exact Disk.mkdirAll_grows ..
  · exact (Disk.openFile_grows hopen).trans (Disk.writeFile_grows ..)
  · exact Disk.createAt_grows (symlink_createAt hlink)
  · exact .refl _

/-- The data of a file stay. -/
theorem extract_leaves (h : extract destPath d e o = some d') {loc : Loc} {data : List UInt8}
    (hloc : d.tree.node loc = some (.file data))
    (hleaves : Turn.leaves ⟨d, e, o⟩ destPath loc data = true) :
    d'.tree.node loc = some (.file data) := by
  rcases extract_cases h with rfl | ⟨htype, outFile, opened, hopen, rfl⟩ | hlink | rfl
  · exact Disk.mkdirAll_keeps _ _ _ hloc
  · obtain ⟨hresolve, -, -⟩ := Disk.openFile_eq_ok.mp hopen
    have hbefore : opened.tree.node loc = some (.file data) := Disk.openFile_keeps hopen hloc
    by_cases heq : loc = outFile
    · subst heq
      have hpre : e.copied o <+: data := by
        simpa [Turn.leaves, htype, hresolve] using hleaves
      rw [Disk.node_writeFile hbefore, ← List.prefix_iff_eq_append.mp hpre]
      simp
    · rw [Disk.writeFile_keeps heq, hbefore]
  · exact Disk.createAt_keeps (symlink_createAt hlink) hloc
  · exact hloc

/-! ## What an entry does to its own path -/

theorem isName_of_mem_target {name : String} (h : name ∈ e.target destPath) : IsName name :=
  isName_of_mem_clean h

/-- A directory is at its path exactly if there was one, or it could be made. -/
theorem extracted_dir_iff :
    lstat (d.mkdirAll o.can (e.target destPath).reverse).1.tree (e.target destPath) = .ok .dir ↔
      (match stat d.tree (e.target destPath) with
        | .ok _ => decide (lstat d.tree (e.target destPath) = .ok .dir)
        | .error _ => (d.mkdirAll o.can (e.target destPath).reverse).2) = true := by
  have hnames : ∀ name ∈ (e.target destPath).reverse, IsName name := fun name hname =>
    isName_of_mem_target (List.mem_reverse.mp hname)
  cases hstat : stat d.tree (e.target destPath) with
  | ok n =>
      rw [← List.reverse_reverse (e.target destPath)] at hstat
      rw [Disk.mkdirAll_of_stat hstat]
      exact decide_eq_true_iff.symm
  | error err =>
      have hnothing : ∀ n, stat d.tree (e.target destPath).reverse.reverse ≠ .ok n := by
        intro n
        rw [List.reverse_reverse, hstat]
        simp
      constructor
      · intro hdone
        obtain ⟨loc, hplace, hnode⟩ := lstat_eq_ok.mp hdone
        refine Disk.mkdirAll_ok hnames ?_
        rw [List.reverse_reverse]
        exact stat_eq_ok.mpr ⟨loc, resolve_of_place hplace (by rw [hnode]; simp), hnode⟩
      · intro hok
        have hmade := Disk.lstat_mkdirAll hnothing hok
        rwa [List.reverse_reverse] at hmade

/-- A file has the data of its entry exactly if what it had before beyond the copied bytes
agrees with them: `os.OpenFile` does not truncate. -/
theorem extracted_reg_iff {outFile : Loc} {opened : Disk}
    (hopen : d.openFile o.can (e.target destPath) = .ok (outFile, opened)) :
    lstat (opened.writeFile outFile (e.copied o)).tree (e.target destPath) = .ok (.file e.data) ↔
      (match lstat d.tree (e.target destPath) with
        | .ok (.file old) =>
            decide (old.drop (e.copied o).length = e.data.drop (e.copied o).length)
        | .ok _ => false
        | .error _ => decide (e.copied o = e.data)) = true := by
  obtain ⟨loc, hplace, hsame⟩ := Disk.openFile_place (fun _ => isName_of_mem_target) hopen
  obtain ⟨old, hold, hbefore⟩ := Disk.node_openFile hopen
  have hgrows : Grows d.tree (opened.writeFile outFile (e.copied o)).tree :=
    (Disk.openFile_grows hopen).trans (Disk.writeFile_grows ..)
  have hplace' := hgrows.place hplace
  by_cases hlink : ∃ target, d.tree.node loc = some (.link target)
  · -- the file behind the link is written, and the link stays
    obtain ⟨target, hnode⟩ := hlink
    rw [lstat_iff_of_place hplace' (hgrows.link loc target hnode),
      lstat_eq_ok.mpr ⟨loc, hplace, hnode⟩]
    simp
  · obtain rfl := hsame (not_exists.mp hlink)
    rw [lstat_iff_of_place hplace' (Disk.node_writeFile hold _), Node.file.injEq]
    rcases hbefore with ⟨hnone, rfl⟩ | hfile
    · rw [lstat_eq_error hplace hnone]
      simp
    · have hdata : e.copied o ++ e.data.drop (e.copied o).length = e.data :=
        List.prefix_iff_eq_append.mp (List.take_prefix ..)
      rw [lstat_eq_ok.mpr ⟨loc, hplace, hfile⟩]
      show _ ↔ decide (old.drop _ = e.data.drop _) = true
      rw [decide_eq_true_iff]
      constructor
      · intro hwritten
        exact List.append_cancel_left (hwritten.trans hdata.symm)
      · intro hrest
        rw [hrest, hdata]

/-- A link is at its path exactly if it was there before, or could be made.  Where something else
is there, the error is ignored. -/
theorem extracted_symlink_iff (htype : e.typeflag = .symlink)
    (h : extract destPath d e o = some d') :
    lstat d'.tree (e.target destPath) = .ok (.link e.linkname) ↔
      (match lstat d.tree (e.target destPath) with
        | .ok n => decide (n = .link e.linkname)
        | .error _ => (d.symlink o.can e.linkname (e.target destPath)).isOk) = true := by
  rcases extract_of_symlink h htype with hmade | ⟨⟨err, herr⟩, rfl⟩
  · -- there was nothing, and now there is the link
    have hcreate := symlink_createAt hmade
    obtain ⟨loc, hplace, hnone, -⟩ := Disk.createAt_eq_ok.mp hcreate
    rw [Disk.lstat_created hcreate, lstat_eq_error hplace hnone, hmade]
    exact ⟨fun _ => rfl, fun _ => rfl⟩
  · rw [herr]
    cases lstat d'.tree (e.target destPath) with
    | ok n => simp
    | error _ => exact ⟨fun h => (by cases h), fun h => (by cases h)⟩

/-- **Right after its turn, an entry has been extracted** if and only if it is handled. -/
theorem extracted_iff_handled (h : extract destPath d e o = some d') (hlink : e.typeflag ≠ .link) :
    e.Extracted d'.tree destPath ↔ Turn.handled ⟨d, e, o⟩ destPath = true := by
  simp only [TarEntry.Extracted, Turn.handled]
  cases htype : e.typeflag with
  | dir =>
      obtain rfl := extract_of_dir h htype
      exact extracted_dir_iff
  | reg =>
      obtain ⟨outFile, opened, hopen, rfl⟩ := extract_of_reg h htype
      exact extracted_reg_iff hopen
  | symlink => exact extracted_symlink_iff htype h
  | link => exact absurd htype hlink
  | other => exact ⟨fun _ => rfl, fun _ => trivial⟩

end

/-! ## All entries -/

section
variable {destPath : String}

theorem extractAll_grows (d : Disk) (reads : List TarRead) :
    Grows d.tree (extractAll destPath d reads).1.tree := by
  induction reads generalizing d with
  | nil => exact .refl _
  | cons read reads ih =>
      cases read with
      | error => exact .refl _
      | entry e o =>
          rw [extractAll]
          cases hextract : extract destPath d e o with
          | none => exact .refl _
          | some d' => exact (extract_grows hextract).trans (ih d')

/-- A file that no entry writes other data to keeps its own. -/
theorem extractAll_leaves {loc : Loc} {data : List UInt8} {d : Disk} {reads : List TarRead}
    (hloc : d.tree.node loc = some (.file data))
    (hleaves : ∀ turn ∈ turns destPath d reads, turn.leaves destPath loc data = true) :
    (extractAll destPath d reads).1.tree.node loc = some (.file data) := by
  induction reads generalizing d with
  | nil => exact hloc
  | cons read reads ih =>
      cases read with
      | error => exact hloc
      | entry e o =>
          rw [extractAll]
          rw [turns] at hleaves
          obtain ⟨hfirst, hrest⟩ := List.forall_mem_cons.mp hleaves
          cases hextract : extract destPath d e o with
          | none => exact hloc
          | some d' =>
              rw [hextract] at hrest
              exact ih (extract_leaves hextract hloc hfirst) hrest

/-- When `Untar` returns nil, every entry has had its turn. -/
theorem entries_turns {d : Disk} {reads : List TarRead}
    (hnil : (extractAll destPath d reads).2 = true) :
    (turns destPath d reads).map Turn.entry = entries reads := by
  induction reads generalizing d with
  | nil => rfl
  | cons read reads ih =>
      cases read with
      | error => cases hnil
      | entry e o =>
          rw [extractAll] at hnil
          rw [turns, entries, List.map_cons]
          cases hextract : extract destPath d e o with
          | none =>
              rw [hextract] at hnil
              cases hnil
          | some d' =>
              rw [hextract] at hnil
              rw [ih hnil]

/-- What has been extracted stays so, if the data of a regular file are left. -/
theorem extracted_stays {d : Disk} {e : TarEntry} {reads : List TarRead}
    (h : e.Extracted d.tree destPath) (hlink : e.typeflag ≠ .link)
    (hleaves : e.typeflag = .reg → ∀ loc, place d.tree (e.target destPath) = .ok loc →
      ∀ turn ∈ turns destPath d reads, turn.leaves destPath loc e.data = true) :
    e.Extracted (extractAll destPath d reads).1.tree destPath := by
  have hgrows : Grows d.tree (extractAll destPath d reads).1.tree := extractAll_grows d reads
  simp only [TarEntry.Extracted] at h ⊢
  cases htype : e.typeflag with
  | dir =>
      rw [htype] at h
      exact hgrows.lstat h rfl
  | reg =>
      rw [htype] at h
      obtain ⟨loc, hplace, hnode⟩ := lstat_eq_ok.mp h
      exact lstat_eq_ok.mpr ⟨loc, hgrows.place hplace,
        extractAll_leaves hnode (hleaves htype loc hplace)⟩
  | symlink =>
      rw [htype] at h
      exact hgrows.lstat h rfl
  | link => exact absurd htype hlink
  | other => trivial

/-- The first entry of an archive, if it is the last one of its name. -/
theorem first_extracted {d d' : Disk} {e : TarEntry} {o : Outcome} {reads : List TarRead}
    (hextract : extract destPath d e o = some d')
    (hnil : (extractAll destPath d' reads).2 = true)
    (hlast : ∀ later ∈ entries reads, later.target destPath ≠ e.target destPath)
    (hfaithful : ((turns destPath d' reads).any
        (fun l => l.entry.target destPath = e.target destPath) ||
      Turn.handled ⟨d, e, o⟩ destPath && (e.typeflag ≠ .reg ||
        match place d.tree (e.target destPath) with
        | .ok loc => (turns destPath d' reads).all (·.leaves destPath loc e.data)
        | .error _ => true)) = true) :
    e.Extracted (extractAll destPath d' reads).1.tree destPath := by
  have hnot : (turns destPath d' reads).any
      (fun l => l.entry.target destPath = e.target destPath) = false := by
    rw [List.any_eq_false]
    intro turn hturn
    rw [decide_eq_true_eq]
    refine hlast turn.entry ?_
    rw [← entries_turns hnil]
    exact List.mem_map_of_mem hturn
  rw [hnot, Bool.false_or, Bool.and_eq_true] at hfaithful
  obtain ⟨hhandled, hleft⟩ := hfaithful
  have hlink : e.typeflag ≠ .link := by
    intro htype
    simp only [Turn.handled, htype] at hhandled
    cases hhandled
  refine extracted_stays ((extracted_iff_handled hextract hlink).mpr hhandled) hlink
    fun htype loc hplace => ?_
  · -- the file is still where it was when the entry had its turn
    have hbefore : place d.tree (e.target destPath) = .ok loc := by
      obtain ⟨outFile, opened, hopen, -⟩ := extract_of_reg hextract htype
      obtain ⟨loc', hloc', -⟩ := Disk.openFile_place (fun _ => isName_of_mem_target) hopen
      rw [hloc', ← hplace, (extract_grows hextract).place hloc']
    rw [hbefore] at hleft
    simpa [htype] using hleft

/-- **Where the entries are handled, the tree is complete.** By induction on the entries, from
the first: what it has left stays, by the conditions on the later ones. -/
theorem complete_extractAll {d : Disk} {reads : List TarRead}
    (hnil : (extractAll destPath d reads).2 = true)
    (hfaithful : faithful destPath (turns destPath d reads) = true) :
    Complete (extractAll destPath d reads).1.tree destPath (entries reads) := by
  induction reads generalizing d with
  | nil =>
      intro before e after h
      exact absurd h (by simp [entries])
  | cons read reads ih =>
      cases read with
      | error => cases hnil
      | entry e o =>
          rw [extractAll] at hnil ⊢
          rw [turns] at hfaithful
          cases hextract : extract destPath d e o with
          | none =>
              rw [hextract] at hnil
              cases hnil
          | some d' =>
              simp only [hextract] at hnil hfaithful ⊢
              rw [faithful, Bool.and_eq_true] at hfaithful
              intro before e' after hsplit hlast
              cases before with
              | cons _ before =>
                  exact ih hnil hfaithful.2 before e' after (List.cons.inj hsplit).2 hlast
              | nil =>
                  obtain ⟨rfl, rfl⟩ := List.cons.inj hsplit
                  exact first_extracted hextract hnil hlast hfaithful.1

end

/-- **The extraction is complete** when `Untar` returns nil, if each entry that is the last one
of its name is handled, and the later ones leave its data. -/
theorem complete_of_faithful {t : Tree} {can : Loc → Bool} {destPath : String}
    {reads : List TarRead} (hnil : (untar t can destPath (some reads)).2 = true)
    (hfaithful : faithful destPath (turns destPath (begun t can destPath) reads) = true) :
    Complete (untar t can destPath (some reads)).1.tree destPath (entries reads) :=
  complete_extractAll hnil hfaithful

/-- A directory, a file in it, and a link to it, on a tree that has an older file. -/
def wellFormed : List TarRead :=
  [.entry { name := "bin/", typeflag := .dir } fine,
    .entry { name := "bin/sh", typeflag := .reg, data := [1, 2, 3] } fine,
    .entry { name := "sh", typeflag := .symlink, linkname := "bin/sh" } fine]

/-- A host on which the image has been extracted before, with a longer file. -/
def hostWithRest : Tree :=
  (host.create ["images", "rootfs", "bin"] .dir).create ["images", "rootfs", "bin", "sh"]
    (.file [7, 7])

/-- An archive with a directory, a file and a link, over what an earlier one has left. -/
theorem complete_of_faithful_wellFormed :
    (untar hostWithRest fine.can "/images/rootfs" (some wellFormed)).1.tree.node
        ["images", "rootfs", "bin", "sh"] = some (.file [1, 2, 3]) ∧
      Complete (untar hostWithRest fine.can "/images/rootfs" (some wellFormed)).1.tree
        "/images/rootfs" (entries wellFormed) :=
  ⟨by decide +kernel, complete_of_faithful (by decide +kernel) (by decide +kernel)⟩

/-- A file and a hard link to it. -/
def hardLinked : List TarRead :=
  [.entry { name := "python3", typeflag := .reg, data := [1, 2, 3] } fine,
    .entry { name := "python", typeflag := .link, linkname := "python3" } fine]

/-- `Untar` returns nil, and the path of the hard link does not exist. -/
theorem not_complete :
    (untar host fine.can "/images/rootfs" (some hardLinked)).2 = true ∧
      lstat (untar host fine.can "/images/rootfs" (some hardLinked)).1.tree
        ["images", "rootfs", "python"] = .error .notExist ∧
      ¬ Complete (untar host fine.can "/images/rootfs" (some hardLinked)).1.tree
        "/images/rootfs" (entries hardLinked) := by
  have hmissing : lstat (untar host fine.can "/images/rootfs" (some hardLinked)).1.tree
      ["images", "rootfs", "python"] = .error .notExist := by decide +kernel
  refine ⟨by decide +kernel, hmissing, fun hcomplete => ?_⟩
  obtain ⟨data, hdata, -⟩ := hcomplete
    [{ name := "python3", typeflag := .reg, data := [1, 2, 3] }]
    { name := "python", typeflag := .link, linkname := "python3" } [] rfl (List.forall_mem_nil _)
  have htarget : TarEntry.target "/images/rootfs"
      { name := "python", typeflag := .link, linkname := "python3" } =
        ["images", "rootfs", "python"] := by decide +kernel
  rw [htarget, hmissing] at hdata
  cases hdata

end Gocker.Image
