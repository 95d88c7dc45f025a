import Gocker.Lib.Fields

/-!
# The file system on a mount point

`checkFSType` (`internal/container/rootfs.go`) reads `/proc/mounts`, and `SetupRootfs` goes on
without a mount of its own if it finds an overlay there.  The lines stand in the order of the
mounts; of several mounts on one mount point the last one is visible.

`checkFSType_iff_topmost` says for which tables the answer is about the visible mount:
`checkFSType` stops at the first line for the mount point, which is the lowest mount.

The text is taken apart as the source does it, by `strings.Fields` of each line of a
`bufio.Scanner`, so a line with less than three words is passed over and a mount point with
blanks in its name is never found.  A mount point is *overmounted* for a file system if the
lowest and the topmost mount on it differ in being of it.
-/

namespace Gocker.Container

open Fields

/-! ## The code -/

/-- The loop over the lines of the table. -/
def checkLines (mountPoint fstype : Text) : List Text → Bool
  | [] => false
  | line :: rest =>
      match fields line with
      | _ :: point :: type :: _ =>
          if point = mountPoint then decide (type = fstype) else checkLines mountPoint fstype rest
      | _ => checkLines mountPoint fstype rest

/-- `none` is a table that cannot be read. -/
def checkFSType (mountPoint fstype : Text) : Option Text → Bool
  | none => false
  | some data => checkLines mountPoint fstype (data.splitOn Rune.newline)

/-- How `syscall.Mount` fails: the source tells `EBUSY` from everything else, by its text. -/
inductive MountError where
  | ebusy
  | other (text : String)
deriving DecidableEq, Repr

/-- The text of the error. -/
def MountError.text : MountError → String
  | .ebusy => "device or resource busy"
  | .other text => text

/-- The file system that `SetupRootfs` looks for. -/
def overlay : Text := ofString "overlay"

/-- The step of `SetupRootfs` that mounts, where `mount` is what the system call returns. -/
def mountOverlay (mountPoint : Text) (mount : Except MountError Unit) (mounts : Option Text) :
    Except String Unit :=
  match mount with
  | .ok () => .ok ()
  | .error err =>
      if err = .ebusy ∧ checkFSType mountPoint overlay mounts then .ok ()
      else .error ("掛載 OverlayFS 失敗: " ++ err.text)

/-! ## The lines for a mount point -/

/-- The type in a line for the mount point. -/
def lineType (mountPoint line : Text) : Option Text :=
  match fields line with
  | _ :: point :: type :: _ => if point = mountPoint then some type else none
  | _ => none

/-- The types of the mounts on a mount point, the lowest one first. -/
def typesAt (mountPoint content : Text) : List Text :=
  (content.splitOn Rune.newline).filterMap (lineType mountPoint)

/-- Another mount lies over the lowest one, and exactly one of these two has the type. -/
def Overmounted (mountPoint fstype content : Text) : Prop :=
  ∃ bottom between top, typesAt mountPoint content = bottom :: (between ++ [top]) ∧
    ¬ (bottom = fstype ↔ top = fstype)

variable {mountPoint fstype content : Text}

/-- The loop answers by the first line that is about the mount point. -/
theorem checkLines_iff (rest : List Text) :
    checkLines mountPoint fstype rest = true ↔
      (rest.filterMap (lineType mountPoint)).head? = some fstype := by
  induction rest with
  | nil => simp [checkLines]
  | cons line rest ih =>
      rw [checkLines, List.filterMap_cons, lineType]
      split
      next point type _ _ =>
        by_cases hpoint : point = mountPoint
        · simp [hpoint]
        · simpa only [hpoint, if_false] using ih
      next => exact ih

/-- The answer is that of the lowest mount. -/
theorem checkFSType_iff :
    checkFSType mountPoint fstype (some content) = true ↔
      (typesAt mountPoint content).head? = some fstype :=
  checkLines_iff _

/-- A busy mount point is accepted if the answer is an overlay. -/
theorem mountOverlay_ebusy (mounts : Option Text) :
    mountOverlay mountPoint (.error .ebusy) mounts = .ok () ↔
      checkFSType mountPoint overlay mounts = true := by
  rw [mountOverlay]
  simp only [true_and]
  split_ifs with h
  · exact iff_of_true rfl h
  · exact iff_of_false (fun heq => by cases heq) h

/-- The first line and the last one give the same answer if and only if the mount point is not
overmounted. -/
theorem head_iff_getLast :
    ((typesAt mountPoint content).head? = some fstype ↔
        (typesAt mountPoint content).getLast? = some fstype) ↔
      ¬ Overmounted mountPoint fstype content := by
  rw [Overmounted]
  generalize typesAt mountPoint content = types
  rcases types with _ | ⟨bottom, rest⟩
  · simp
  rcases List.eq_nil_or_concat rest with rfl | ⟨between, top, rfl⟩
  · simp
  · rw [List.head?_cons, List.concat_eq_append, ← List.cons_append, List.getLast?_concat,
      Option.some_inj, Option.some_inj]
    constructor
    · rintro h ⟨bottom', between', top', heq, hne⟩
      rw [← List.cons_append] at heq
      obtain ⟨hfront, htop⟩ := List.append_inj' heq rfl
      obtain ⟨rfl, -⟩ := List.cons.inj hfront
      obtain rfl := List.singleton_inj.mp htop
      exact hne h
    · intro h
      by_contra hne
      exact h ⟨bottom, between, top, rfl, hne⟩

/-- **The answer is about the visible mount** exactly if the mount point has not been overmounted.
A busy mount point is then accepted if and only if an overlay is visible there. -/
theorem checkFSType_iff_topmost (mountPoint fstype content : Text) :
    ((checkFSType mountPoint fstype (some content) = true ↔
        (typesAt mountPoint content).getLast? = some fstype) ↔
      ¬ Overmounted mountPoint fstype content) ∧
    ((mountOverlay mountPoint (.error .ebusy) (some content) = .ok () ↔
        (typesAt mountPoint content).getLast? = some overlay) ↔
      ¬ Overmounted mountPoint overlay content) := by
  rw [mountOverlay_ebusy, checkFSType_iff, checkFSType_iff]
  exact ⟨head_iff_getLast, head_iff_getLast⟩

/-! ## Tables of mounts -/

/-- A mount, with its fields as they stand in the table. -/
structure Mount where
  device : Text
  mountPoint : Text
  fstype : Text
  options : Text
  isField : ∀ text ∈ [device, mountPoint, fstype, options], IsField text

/-- A line of `/proc/mounts`, with six fields. -/
def Mount.line (m : Mount) : Text :=
  unwords Rune.space
    [m.device, m.mountPoint, m.fstype, m.options, ofString "0", ofString "0"]

/-- What `/proc/mounts` contains. -/
def procMounts (table : List Mount) : Text := unlines Rune.newline (table.map Mount.line)

/-- Each of the fields is one word: the kernel writes blanks as octal escapes. -/
theorem Mount.isField_line (m : Mount) :
    ∀ word ∈ [m.device, m.mountPoint, m.fstype, m.options, ofString "0", ofString "0"],
      IsField word := by
  intro word hword
  rw [show [m.device, m.mountPoint, m.fstype, m.options, ofString "0", ofString "0"] =
    [m.device, m.mountPoint, m.fstype, m.options] ++ [ofString "0", ofString "0"] from rfl,
    List.mem_append] at hword
  rcases hword with hword | hword
  · exact m.isField word hword
  · obtain rfl : word = ofString "0" := by simpa using hword
    decide

/-- A line is about its mount point, and says its file system. -/
theorem lineType_line (m : Mount) :
    lineType mountPoint m.line = if m.mountPoint = mountPoint then some m.fstype else none := by
  rw [lineType, Mount.line, fields_unwords m.isField_line]

/-- The table is read back. -/
theorem typesAt_procMounts (table : List Mount) :
    typesAt mountPoint (procMounts table) =
      (table.filter (·.mountPoint = mountPoint)).map Mount.fstype := by
  have hlines : ∀ l ∈ table.map Mount.line, Rune.newline ∉ l := by
    intro l hl
    obtain ⟨m, -, rfl⟩ := List.mem_map.mp hl
    exact notMem_unwords_fields m.isField_line rfl (by decide)
  have hlast : lineType mountPoint [] = none := rfl
  rw [typesAt, procMounts, splitOn_unlines hlines, List.filterMap_append,
    List.filterMap_cons_none hlast, List.filterMap_nil, List.append_nil]
  induction table with
  | nil => rfl
  | cons m table ih =>
      have hrest := ih fun l hl => hlines l (List.mem_cons_of_mem _ hl)
      rw [List.map_cons, List.filterMap_cons, lineType_line, hrest]
      by_cases hm : m.mountPoint = mountPoint
      · simp [hm]
      · simp [hm]

/-- While nothing else is mounted over an overlay, the answer is right. -/
theorem not_overmounted {table : List Mount}
    (h : ∀ m ∈ table, m.mountPoint = mountPoint → m.fstype = fstype) :
    ¬ Overmounted mountPoint fstype (procMounts table) := by
  rintro ⟨bottom, between, top, htypes, hne⟩
  have hall : ∀ type ∈ typesAt mountPoint (procMounts table), type = fstype := by
    intro type htype
    rw [typesAt_procMounts] at htype
    obtain ⟨m, hm, rfl⟩ := List.mem_map.mp htype
    obtain ⟨hmem, hpoint⟩ := List.mem_filter.mp hm
    exact h m hmem (of_decide_eq_true hpoint)
  rw [htypes] at hall
  have hbottom := hall bottom List.mem_cons_self
  have htop := hall top (List.mem_cons_of_mem _ (List.mem_append_right _ List.mem_cons_self))
  exact hne (iff_of_true hbottom htop)

/-- An overlay on `/m`, and a `tmpfs` over it. -/
def stacked : List Mount :=
  [⟨ofString "overlay", ofString "/m", overlay, ofString "rw", by decide⟩,
    ⟨ofString "tmpfs", ofString "/m", ofString "tmpfs", ofString "rw", by decide⟩]

/-- With an overlay under another file system the answer is about the mount that nobody sees. -/
theorem checkFSType_lowest :
    ¬ ∀ mountPoint fstype content : Text, IsField mountPoint → IsField fstype →
      (checkFSType mountPoint fstype (some content) = true ↔
        (typesAt mountPoint content).getLast? = some fstype) := by
  intro h
  have hstacked := h (ofString "/m") overlay (procMounts stacked) (by decide) (by decide)
  rw [checkFSType_iff, typesAt_procMounts] at hstacked
  exact absurd hstacked (by decide)

end Gocker.Container
