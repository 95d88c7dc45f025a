import Mathlib.Data.List.Infix
import Mathlib.Data.List.Nodup
import Mathlib.Data.List.Perm.Basic
import Mathlib.Data.List.Range
import Mathlib.Data.Nat.Find
import Mathlib.Tactic.SplitIfs

/-!
# The mounts of a namespace

A mount is known by the way to it: the root by `[]`, and a mount on the directory `p` of the
mount `l` by `l ++ [p]`.  Mounts on one directory are stacked, each on the root of the one
before.  What is mounted, `φ`, is left open.

* `find` walks a path and crosses into every mount it comes to; the root itself is where the
  walk begins.  Behind a mount that has been attached at the end of a path, the path leads to
  its root (`find_attach`).
* `bind`, `pivot` and `detach` are the system calls.  `switchRoot` is the idiom that makes a
  directory the root: what is left is a copy of the directory (`mem_switchRoot`).

The walk is bounded by the number of mounts; `top_spec` says that the bound is never reached.

### Ways

`l ++ [p]` is a mount on the directory `p` of `l`; two mounts on one directory are `l ++ [p]`
and `l ++ [p, []]`, the second being on the root of the first.  So every mount has a way of its
own, and a table is a list without repetitions of ways.  The length of the path that leads to a
mount is the sum of the lengths of its parts (`depth`), which crossing does not change; this is
what proofs about `find` go by.
-/

universe u

namespace Mounts

variable {φ : Type u}

/-- A path: its names. -/
abbrev Path := List String

/-- A mount, by the directories on the way to it. -/
abbrev Loc := List Path

/-- The mounts, the last one first. -/
abbrev Table (φ : Type u) := List (Loc × φ)

/-- A directory of a mount. -/
structure Place where
  mount : Loc
  path : Path
deriving DecidableEq, Repr

/-- The mount on this directory, if there is one. -/
def Place.over (x : Place) : Loc := x.mount ++ [x.path]

namespace Table

variable (t : Table φ)

/-- Where they are. -/
def locs : List Loc := t.map Prod.fst

/-- What is mounted there. -/
def what (l : Loc) : Option φ := (t.find? (·.1 = l)).map Prod.snd

/-! ## Paths -/

/-- Cross into the mounts that are stacked on a directory. -/
def cross : ℕ → Place → Place
  | 0, x => x
  | n + 1, x => if x.over ∈ t.locs then cross n ⟨x.over, []⟩ else x

/-- The mount that lies uppermost at a place. -/
def top (x : Place) : Place := t.cross t.length x

/-- The walk along a path, from a place. -/
def walk (x : Place) (p : Path) : Place :=
  p.foldl (fun x a => t.top ⟨x.mount, x.path ++ [a]⟩) x

/-- Where a path leads, from the root. -/
def find (p : Path) : Place := t.walk ⟨[], []⟩ p

/-! ## System calls -/

/-- `mount` -/
def attach (x : Place) (m : φ) : Table φ := (x.over, m) :: t

/-- A mount of a directory, with the mounts in it. -/
def copyOf (dir : Path → φ → φ) (x : Place) : Table φ :=
  (t.what x.mount).toList.map (fun m => ([], dir x.path m)) ++
    t.filterMap fun e =>
      match e.1.drop x.mount.length with
      | [] => none
      | q :: rest =>
          if x.mount <+: e.1 ∧ x.path <+: q then some (q.drop x.path.length :: rest, e.2)
          else none

/-- `mount` with `MS_BIND` and `MS_REC` -/
def bind (dir : Path → φ → φ) (source target : Place) : Table φ :=
  (t.copyOf dir source).map (fun e => (target.over ++ e.1, e.2)) ++ t

/-- The mount `n` becomes the root, and the root is moved to a directory. -/
def pivot (n : Loc) (putOld : Place) : Table φ :=
  t.map fun e =>
    (if n <+: e.1 then e.1.drop n.length else putOld.over.drop n.length ++ e.1, e.2)

/-- `pivot_root`: the new root is a mount other than the root, and the old one goes into it. -/
def pivotRoot (newRoot putOld : Place) : Option (Table φ) :=
  if newRoot.path = [] ∧ newRoot.mount ≠ [] ∧ newRoot.mount <+: putOld.mount then
    some (t.pivot newRoot.mount putOld)
  else none

/-- The mount and all that is mounted in it are gone. -/
def detach (l : Loc) : Table φ := t.filter fun e => ¬ l <+: e.1

/-- `umount` with `MNT_DETACH`: of a mount, and not of the root. -/
def umountDetach (x : Place) : Option (Table φ) :=
  if x.path = [] ∧ x.mount ≠ [] then some (t.detach x.mount) else none

/-- `p` is bound to itself and becomes the root; the old root goes into its directory `old`,
and from there away. -/
def switchRoot (dir : Path → φ → φ) (p : Path) (old : String) : Option (Table φ) :=
  let bound := t.bind dir (t.find p) (t.find p)
  (bound.pivotRoot (bound.find p) (bound.find (p ++ [old]))).bind fun pivoted =>
    pivoted.umountDetach (pivoted.find [old])

/-- Every mount is on a mount. -/
def Rooted : Prop := ∀ l ∈ t.locs, l ≠ [] → l.dropLast ∈ t.locs

/-- The mounts of a namespace: there is a root, and nothing is mounted over it. -/
structure Sound : Prop where
  root : [] ∈ t.locs
  rooted : t.Rooted
  bare : [[]] ∉ t.locs

end Table

/-! ## Stacks -/

/-- The place on the `j`-th mount of the stack on a directory. -/
def Place.lifted (x : Place) : ℕ → Place
  | 0 => x
  | j + 1 => ⟨x.over ++ List.replicate j [], []⟩

theorem Place.over_lifted (x : Place) (j : ℕ) :
    (x.lifted j).over = x.over ++ List.replicate j [] := by
  cases j with
  | zero => simp [lifted]
  | succ j => simp [lifted, Place.over, List.replicate_succ']

/-- The stack on a directory has the height `j`. -/
structure Height (t : Table φ) (x : Place) (j : ℕ) : Prop where
  under : ∀ i < j, x.over ++ List.replicate i [] ∈ t.locs
  free : x.over ++ List.replicate j [] ∉ t.locs

variable {t t' : Table φ} {x y : Place} {p : Path}

theorem Height.unique {i j : ℕ} (hi : Height t x i) (hj : Height t x j) : i = j := by
  rcases Nat.lt_trichotomy i j with hlt | heq | hgt
  · exact absurd (hj.under i hlt) hi.free
  · exact heq
  · exact absurd (hi.under j hgt) hj.free

theorem over_replicate_injective (x : Place) :
    Function.Injective fun j => x.over ++ List.replicate j ([] : Path) := by
  intro i j h
  have hlength := congrArg List.length h
  simpa using hlength

/-- The stack is no higher than there are mounts. -/
theorem height_le {j : ℕ} (h : ∀ i < j, x.over ++ List.replicate i [] ∈ t.locs) :
    j ≤ t.length := by
  have hnodup : ((List.range j).map fun i => x.over ++ List.replicate i ([] : Path)).Nodup :=
    List.nodup_range.map (over_replicate_injective x)
  have hsub : ((List.range j).map fun i => x.over ++ List.replicate i ([] : Path)) ⊆ t.locs := by
    intro l hl
    obtain ⟨i, hi, rfl⟩ := List.mem_map.mp hl
    exact h i (List.mem_range.mp hi)
  have hle := (List.subperm_of_subset hnodup hsub).length_le
  simpa [Table.locs] using hle

/-- Every stack has a height, within the number of mounts. -/
theorem exists_height (t : Table φ) (x : Place) : ∃ j ≤ t.length, Height t x j := by
  have hout : ∃ j, x.over ++ List.replicate j [] ∉ t.locs := by
    by_contra hall
    push Not at hall
    exact absurd (height_le (j := t.length + 1) fun i _ => hall i) (by omega)
  have hheight : Height t x (Nat.find hout) :=
    ⟨fun i hi => by simpa using Nat.find_min hout hi, Nat.find_spec hout⟩
  exact ⟨Nat.find hout, height_le hheight.under, hheight⟩

theorem cross_lifted {n i j : ℕ} (h : Height t x j) (hi : i ≤ j) (hn : j ≤ i + n) :
    t.cross n (x.lifted i) = x.lifted j := by
  induction n generalizing i with
  | zero =>
      obtain rfl : i = j := by omega
      rfl
  | succ n ih =>
      rw [Table.cross, Place.over_lifted]
      by_cases hlt : i < j
      · rw [if_pos (h.under i hlt)]
        exact ih (i := i + 1) hlt (by omega)
      · obtain rfl : i = j := by omega
        rw [if_neg h.free]

/-- **Crossing ends on top of the stack.** -/
theorem top_spec {j : ℕ} (h : Height t x j) : t.top x = x.lifted j := by
  obtain ⟨j', hle, hj'⟩ := exists_height t x
  obtain rfl := h.unique hj'
  exact cross_lifted h (Nat.zero_le j) (by omega)

theorem over_top_notMem (t : Table φ) (x : Place) : (t.top x).over ∉ t.locs := by
  obtain ⟨j, -, hj⟩ := exists_height t x
  rw [top_spec hj, Place.over_lifted]
  exact hj.free

/-! ## Where a path leads -/

/-- The length of the path to a mount. -/
def depth (l : Loc) : ℕ := l.flatten.length

@[simp] theorem depth_append (l l' : Loc) : depth (l ++ l') = depth l + depth l' := by
  simp [depth]

@[simp] theorem depth_singleton (p : Path) : depth [p] = p.length := by simp [depth]

theorem depth_over_lifted (x : Place) (j : ℕ) :
    depth (x.over ++ List.replicate j []) = depth x.mount + x.path.length := by
  simp [Place.over, depth]

theorem depth_top (t : Table φ) (x : Place) :
    depth (t.top x).mount + (t.top x).path.length = depth x.mount + x.path.length := by
  obtain ⟨j, -, hj⟩ := exists_height t x
  rw [top_spec hj]
  cases j with
  | zero => rfl
  | succ j => simp [Place.lifted, Place.over, depth]

theorem find_concat (t : Table φ) (p : Path) (a : String) :
    t.find (p ++ [a]) = t.top ⟨(t.find p).mount, (t.find p).path ++ [a]⟩ := by
  rw [Table.find, Table.walk, List.foldl_concat]
  rfl

theorem depth_find (t : Table φ) (p : Path) :
    depth (t.find p).mount + (t.find p).path.length = p.length := by
  induction p using List.reverseRecOn with
  | nil => rfl
  | append_singleton p a ih =>
      rw [find_concat, depth_top, List.length_append, List.length_append, ← Nat.add_assoc, ih]

/-- What lies uppermost depends on the mounts at this depth only. -/
theorem top_congr (h : ∀ l, depth l = depth x.mount + x.path.length → (l ∈ t.locs ↔ l ∈ t'.locs)) :
    t.top x = t'.top x := by
  obtain ⟨j, -, hj⟩ := exists_height t x
  have hj' : Height t' x j :=
    ⟨fun i hi => (h _ (depth_over_lifted x i)).mp (hj.under i hi),
      fun hmem => hj.free ((h _ (depth_over_lifted x j)).mpr hmem)⟩
  rw [top_spec hj, top_spec hj']

/-- Mounts further down do not change where a path leads. -/
theorem find_congr (h : ∀ l, depth l ≤ p.length → (l ∈ t.locs ↔ l ∈ t'.locs)) :
    t.find p = t'.find p := by
  induction p using List.reverseRecOn with
  | nil => rfl
  | append_singleton p a ih =>
      have hbefore := ih fun l hl => h l (hl.trans (by simp))
      rw [find_concat, find_concat, ← hbefore]
      refine top_congr fun l hl => h l (Nat.le_of_eq ?_)
      rw [hl, List.length_append, List.length_append, ← Nat.add_assoc, depth_find]

theorem over_find_notMem (t : Table φ) (hp : p ≠ []) : (t.find p).over ∉ t.locs := by
  obtain ⟨p, a, rfl⟩ := (List.eq_nil_or_concat' p).resolve_left hp
  rw [find_concat]
  exact over_top_notMem _ _

/-- Behind a mount at the end of a path, the path leads to its root: nothing else has changed
but further down. -/
theorem find_over (hp : p ≠ []) (hold : ∀ l ∈ t.locs, l ∈ t'.locs)
    (hnew : ∀ l ∈ t'.locs, l ∈ t.locs ∨ p.length ≤ depth l)
    (hover : (t.find p).over ∈ t'.locs) (htop : (t.find p).over ++ [[]] ∉ t'.locs) :
    t'.find p = ⟨(t.find p).over, []⟩ := by
  obtain ⟨p, a, rfl⟩ := (List.eq_nil_or_concat' p).resolve_left hp
  -- up to the last name, the walks agree
  have hbefore : t'.find p = t.find p := by
    refine find_congr fun l hl => ⟨fun hmem => (hnew l hmem).resolve_right ?_, hold l⟩
    rw [List.length_append, List.length_singleton]
    omega
  rw [find_concat t', hbefore]
  obtain ⟨j, -, hj⟩ := exists_height t ⟨(t.find p).mount, (t.find p).path ++ [a]⟩
  have hfind : t.find (p ++ [a]) = Place.lifted ⟨(t.find p).mount, (t.find p).path ++ [a]⟩ j := by
    rw [find_concat, top_spec hj]
  have hlifted : (t.find (p ++ [a])).over =
      Place.over ⟨(t.find p).mount, (t.find p).path ++ [a]⟩ ++ List.replicate j [] := by
    rw [hfind, Place.over_lifted]
  -- the stack has one mount more
  have hheight : Height t' ⟨(t.find p).mount, (t.find p).path ++ [a]⟩ (j + 1) := by
    refine ⟨fun i hi => ?_, ?_⟩
    · rcases Nat.lt_succ_iff_lt_or_eq.mp hi with hlt | rfl
      · exact hold _ (hj.under i hlt)
      · rwa [← hlifted]
    · rwa [List.replicate_succ', ← List.append_assoc, ← hlifted]
  rw [top_spec hheight, hlifted]
  rfl

/-- A path goes on from where its first part has led. -/
theorem find_append (t : Table φ) (p q : Path) : t.find (p ++ q) = t.walk (t.find p) q := by
  rw [Table.find, Table.walk, List.foldl_append]
  rfl

/-- Where nothing is mounted, a path stays in its mount. -/
theorem walk_of_notMem {l : Loc} (h : ∀ q rest, l ++ q :: rest ∉ t.locs) (p q : Path) :
    t.walk ⟨l, q⟩ p = ⟨l, q ++ p⟩ := by
  induction p generalizing q with
  | nil => rw [List.append_nil]; rfl
  | cons a p ih =>
      have hfree : Height t ⟨l, q ++ [a]⟩ 0 :=
        ⟨by simp, by simpa [Place.over] using h (q ++ [a]) []⟩
      have hstep : t.walk ⟨l, q⟩ (a :: p) = t.walk (t.top ⟨l, q ++ [a]⟩) p := rfl
      rw [hstep, top_spec hfree, Place.lifted, ih, List.append_assoc, List.singleton_append]

/-! ## Mounts and their mounts -/

theorem mem_locs {l : Loc} : l ∈ t.locs ↔ ∃ m, (l, m) ∈ t := by
  simp [Table.locs]

theorem Table.Rooted.of_prefix (ht : t.Rooted) {l l' : Loc} (hl : l ∈ t.locs) (hpre : l' <+: l) :
    l' ∈ t.locs := by
  induction l using List.reverseRecOn with
  | nil => rwa [List.prefix_nil.mp hpre]
  | append_singleton l q ih =>
      rcases List.prefix_concat_iff.mp hpre with rfl | hpre
      · exact hl
      · have hparent := ht _ hl (by simp)
        rw [List.dropLast_concat] at hparent
        exact ih hparent hpre

/-- Where nothing is mounted, nothing is mounted further down. -/
theorem Table.Sound.notMem_append (ht : t.Sound) {l : Loc} (hl : l ∉ t.locs) (rest : Loc) :
    l ++ rest ∉ t.locs :=
  fun hmem => hl (ht.rooted.of_prefix hmem (List.prefix_append l rest))

theorem top_mount_mem (hx : x.mount ∈ t.locs) : (t.top x).mount ∈ t.locs := by
  obtain ⟨j, -, hj⟩ := exists_height t x
  rw [top_spec hj]
  cases j with
  | zero => exact hx
  | succ j => exact hj.under j (Nat.lt_succ_self j)

theorem find_mount_mem (hroot : [] ∈ t.locs) (p : Path) : (t.find p).mount ∈ t.locs := by
  induction p using List.reverseRecOn with
  | nil => exact hroot
  | append_singleton p a ih =>
      rw [find_concat]
      exact top_mount_mem ih

theorem Table.Sound.attach (ht : t.Sound) (hp : p ≠ []) (m : φ) :
    (t.attach (t.find p) m).Sound := by
  have hlocs : (t.attach (t.find p) m).locs = (t.find p).over :: t.locs := rfl
  refine ⟨?_, fun l hl hne => ?_, fun hbare => ?_⟩
  · rw [hlocs]
    exact List.mem_cons_of_mem _ ht.root
  · rw [hlocs] at hl ⊢
    rcases List.mem_cons.mp hl with rfl | hl
    · rw [Place.over, List.dropLast_concat]
      exact List.mem_cons_of_mem _ (find_mount_mem ht.root p)
    · exact List.mem_cons_of_mem _ (ht.rooted l hl hne)
  · rw [hlocs] at hbare
    rcases List.mem_cons.mp hbare with heq | hbare
    · have hdepth := depth_find t p
      have hover : [] ++ [[]] = (t.find p).mount ++ [(t.find p).path] := heq
      obtain ⟨hmount, hpath⟩ := List.append_inj' hover rfl
      rw [← hmount, ← List.singleton_inj.mp hpath] at hdepth
      exact hp (List.eq_nil_of_length_eq_zero (by simpa [depth] using hdepth.symm))
    · exact ht.bare hbare

/-- **A path leads to the root of what has been mounted on it.** -/
theorem find_attach (ht : t.Sound) (hp : p ≠ []) (m : φ) :
    (t.attach (t.find p) m).find p = ⟨(t.find p).over, []⟩ := by
  refine find_over hp (fun l hl => List.mem_cons_of_mem _ hl) (fun l hl => ?_)
    List.mem_cons_self (fun hmem => ?_)
  · rcases List.mem_cons.mp hl with rfl | hl
    · right
      rw [Place.over, depth_append, depth_singleton, depth_find]
    · exact .inl hl
  · rcases List.mem_cons.mp hmem with heq | hmem
    · simp at heq
    · exact ht.notMem_append (over_find_notMem t hp) [[]] hmem

/-! ## Changing the root -/

variable {dir : Path → φ → φ} {l : Loc} {m : φ}

/-- What is in a copy of a directory. -/
theorem mem_copyOf : (l, m) ∈ t.copyOf dir x ↔
    (l = [] ∧ ∃ m', t.what x.mount = some m' ∧ dir x.path m' = m) ∨
      ∃ q rest, l = q :: rest ∧ (x.mount ++ (x.path ++ q) :: rest, m) ∈ t := by
  rw [Table.copyOf, List.mem_append, List.mem_map, List.mem_filterMap]
  refine or_congr ?_ ?_
  · simp only [Option.mem_toList, Prod.mk.injEq]
    constructor
    · rintro ⟨m', hwhat, rfl, rfl⟩
      exact ⟨rfl, m', hwhat, rfl⟩
    · rintro ⟨rfl, m', hwhat, rfl⟩
      exact ⟨m', hwhat, rfl, rfl⟩
  · constructor
    · rintro ⟨⟨k, m'⟩, hmem, hsome⟩
      dsimp only at hsome
      split at hsome
      · cases hsome
      next q rest hdrop =>
        split_ifs at hsome with hpre
        obtain ⟨⟨k, rfl⟩, ⟨q, rfl⟩⟩ := hpre
        rw [List.drop_left] at hdrop
        obtain ⟨rfl, rfl⟩ := Prod.mk.inj (Option.some.inj hsome)
        rw [List.drop_left]
        exact ⟨q, rest, rfl, hdrop ▸ hmem⟩
    · rintro ⟨q, rest, rfl, hmem⟩
      refine ⟨_, hmem, ?_⟩
      dsimp only
      rw [List.drop_left]
      simp

/-- The mounts after `bind`: those before, and the copies. -/
theorem mem_bind {source target : Place} : (l, m) ∈ t.bind dir source target ↔
    (∃ k, l = target.over ++ k ∧ (k, m) ∈ t.copyOf dir source) ∨ (l, m) ∈ t := by
  rw [Table.bind, List.mem_append, List.mem_map]
  refine or_congr_left ?_
  simp only [Prod.exists, Prod.mk.injEq]
  constructor
  · rintro ⟨k, m', hmem, rfl, rfl⟩
    exact ⟨k, rfl, hmem⟩
  · rintro ⟨k, rfl, hmem⟩
    exact ⟨k, m, hmem, rfl, rfl⟩

/-- The mounts after `pivot`: those below the new root, and the others on what was the root. -/
theorem mem_pivot {n : Loc} : (l, m) ∈ t.pivot n x ↔
    (n ++ l, m) ∈ t ∨ ∃ k, l = x.over.drop n.length ++ k ∧ ¬ n <+: k ∧ (k, m) ∈ t := by
  rw [Table.pivot, List.mem_map]
  simp only [Prod.exists, Prod.mk.injEq]
  constructor
  · rintro ⟨k, m', hmem, hk, rfl⟩
    split_ifs at hk with hpre
    · obtain ⟨rest, rfl⟩ := hpre
      rw [List.drop_left] at hk
      exact .inl (hk ▸ hmem)
    · exact .inr ⟨k, hk.symm, hpre, hmem⟩
  · rintro (hmem | ⟨k, rfl, hpre, hmem⟩)
    · refine ⟨n ++ l, m, hmem, ?_, rfl⟩
      rw [if_pos (List.prefix_append n l), List.drop_left]
    · exact ⟨k, m, hmem, if_neg hpre, rfl⟩

theorem mem_of_what (h : t.what l = some m) : (l, m) ∈ t := by
  obtain ⟨e, he, rfl⟩ := Option.map_eq_some_iff.mp h
  have hloc : e.1 = l := by simpa using List.find?_some he
  exact hloc ▸ List.mem_of_find?_eq_some he

theorem exists_what (hl : l ∈ t.locs) : ∃ m, t.what l = some m := by
  obtain ⟨m, hm⟩ := mem_locs.mp hl
  have hsome : (t.find? (·.1 = l)).isSome :=
    List.find?_isSome.mpr ⟨(l, m), hm, decide_eq_true rfl⟩
  obtain ⟨e, he⟩ := Option.isSome_iff_exists.mp hsome
  exact ⟨e.2, by rw [Table.what, he, Option.map_some]⟩

section
variable (ht : t.Sound) (hp : p ≠ [])
include ht hp

/-- A directory is bound to itself. -/
theorem find_bind : (t.bind dir (t.find p) (t.find p)).find p = ⟨(t.find p).over, []⟩ := by
  have hnew := over_find_notMem t hp
  refine find_over hp (fun l hl => ?_) (fun l hl => ?_) ?_ fun hmem => ?_
  · obtain ⟨m, hm⟩ := mem_locs.mp hl
    exact mem_locs.mpr ⟨m, mem_bind.mpr (.inr hm)⟩
  · obtain ⟨m, hm⟩ := mem_locs.mp hl
    rcases mem_bind.mp hm with ⟨k, rfl, -⟩ | hm
    · right
      rw [Place.over, depth_append, depth_append, depth_singleton, depth_find]
      exact Nat.le_add_right _ _
    · exact .inl (mem_locs.mpr ⟨m, hm⟩)
  · obtain ⟨m, hm⟩ := exists_what (find_mount_mem ht.root p)
    exact mem_locs.mpr
      ⟨_, mem_bind.mpr (.inl ⟨[], by simp, mem_copyOf.mpr (.inl ⟨rfl, m, hm, rfl⟩)⟩)⟩
  · obtain ⟨m, hm⟩ := mem_locs.mp hmem
    rcases mem_bind.mp hm with ⟨k, hk, hcopy⟩ | hm
    · obtain rfl := List.append_cancel_left hk
      rcases mem_copyOf.mp hcopy with ⟨hnil, -⟩ | ⟨q, rest, heq, hm⟩
      · cases hnil
      · -- a mount on the directory itself, where nothing is mounted
        obtain ⟨rfl, rfl⟩ := List.cons.inj heq
        rw [List.append_nil] at hm
        exact hnew (mem_locs.mpr ⟨m, hm⟩)
    · exact ht.notMem_append hnew [[]] (mem_locs.mpr ⟨m, hm⟩)

theorem Table.Sound.bind : (t.bind dir (t.find p) (t.find p)).Sound := by
  have hnew := over_find_notMem t hp
  have hnonempty : depth (t.find p).over ≠ 0 := by
    rw [Place.over, depth_append, depth_singleton, depth_find]
    exact fun h => hp (List.eq_nil_of_length_eq_zero h)
  refine ⟨?_, fun l hl hne => ?_, fun hbare => ?_⟩
  · obtain ⟨m, hm⟩ := mem_locs.mp ht.root
    exact mem_locs.mpr ⟨m, mem_bind.mpr (.inr hm)⟩
  · obtain ⟨m, hm⟩ := mem_locs.mp hl
    rcases mem_bind.mp hm with ⟨k, rfl, hcopy⟩ | hin
    · rcases mem_copyOf.mp hcopy with ⟨rfl, -⟩ | ⟨q, rest, rfl, hin⟩
      · -- the copy itself is on the mount that the path leads to
        obtain ⟨m', hm'⟩ := mem_locs.mp (find_mount_mem ht.root p)
        rw [List.append_nil, Place.over, List.dropLast_concat]
        exact mem_locs.mpr ⟨m', mem_bind.mpr (.inr hm')⟩
      · rcases List.eq_nil_or_concat' rest with rfl | ⟨rest, q', rfl⟩
        · obtain ⟨m', hm'⟩ := exists_what (find_mount_mem ht.root p)
          rw [List.dropLast_concat]
          exact mem_locs.mpr ⟨_, mem_bind.mpr (.inl ⟨[], by simp,
            mem_copyOf.mpr (.inl ⟨rfl, m', hm', rfl⟩)⟩)⟩
        · have hparent := ht.rooted _ (mem_locs.mpr ⟨m, hin⟩) (by simp)
          rw [← List.cons_append, ← List.append_assoc, List.dropLast_concat] at hparent ⊢
          obtain ⟨m', hm'⟩ := mem_locs.mp hparent
          exact mem_locs.mpr ⟨m', mem_bind.mpr (.inl ⟨q :: rest, rfl,
            mem_copyOf.mpr (.inr ⟨q, rest, rfl, hm'⟩)⟩)⟩
    · obtain ⟨m', hm'⟩ := mem_locs.mp (ht.rooted l (mem_locs.mpr ⟨m, hin⟩) hne)
      exact mem_locs.mpr ⟨m', mem_bind.mpr (.inr hm')⟩
  · obtain ⟨m, hm⟩ := mem_locs.mp hbare
    rcases mem_bind.mp hm with ⟨k, hk, -⟩ | hm
    · have hzero : depth ((t.find p).over ++ k) = 0 := by rw [← hk]; rfl
      rw [depth_append] at hzero
      omega
    · exact ht.bare (mem_locs.mpr ⟨m, hm⟩)

/-- The mount is a copy of the directory. -/
theorem mem_bind_over : ((t.find p).over ++ l, m) ∈ t.bind dir (t.find p) (t.find p) ↔
    (l, m) ∈ t.copyOf dir (t.find p) := by
  rw [mem_bind]
  constructor
  · rintro (⟨k, hk, hmem⟩ | hmem)
    · rwa [List.append_cancel_left hk]
    · exact absurd (mem_locs.mpr ⟨m, hmem⟩) (ht.notMem_append (over_find_notMem t hp) l)
  · exact fun hmem => .inl ⟨l, rfl, hmem⟩

end

theorem prefix_top (t : Table φ) (n : Loc) (q : Path) : n <+: (t.top ⟨n, q⟩).mount := by
  obtain ⟨j, -, hj⟩ := exists_height t ⟨n, q⟩
  rw [top_spec hj]
  cases j with
  | zero => exact List.prefix_rfl
  | succ j =>
      rw [Place.lifted, Place.over, List.append_assoc]
      exact List.prefix_append n _

/-- The old root is found where it has been put. -/
theorem find_pivot (ht : t.Sound) {n : Loc} (hn : n ≠ []) (a : String) :
    (t.pivot n (t.top ⟨n, [a]⟩)).find [a] = ⟨(t.top ⟨n, [a]⟩).over.drop n.length, []⟩ := by
  obtain ⟨j, -, hj⟩ := exists_height t ⟨n, [a]⟩
  have hover : (t.top ⟨n, [a]⟩).over.drop n.length = [a] :: List.replicate j [] := by
    rw [top_spec hj, Place.over_lifted, Place.over, List.append_assoc, List.drop_left,
      List.singleton_append]
  have hmem : ∀ l, l ∈ (t.pivot n (t.top ⟨n, [a]⟩)).locs ↔
      n ++ l ∈ t.locs ∨ ∃ k, l = [a] :: List.replicate j [] ++ k ∧ ¬ n <+: k ∧ k ∈ t.locs := by
    intro l
    simp only [mem_locs, mem_pivot, hover]
    constructor
    · rintro ⟨m, hm | ⟨k, rfl, hk, hm⟩⟩
      · exact .inl ⟨m, hm⟩
      · exact .inr ⟨k, rfl, hk, m, hm⟩
    · rintro (⟨m, hm⟩ | ⟨k, rfl, hk, m, hm⟩)
      · exact ⟨m, .inl hm⟩
      · exact ⟨m, .inr ⟨k, rfl, hk, hm⟩⟩
  have hheight : Height (t.pivot n (t.top ⟨n, [a]⟩)) ⟨[], [a]⟩ (j + 1) := by
    refine ⟨fun i hi => (hmem _).mpr ?_, fun hmem' => ?_⟩
    · rcases Nat.lt_succ_iff_lt_or_eq.mp hi with hlt | rfl
      · left
        have hunder := hj.under i hlt
        rwa [Place.over, List.append_assoc] at hunder
      · refine .inr ⟨[], by simp [Place.over], fun hpre => hn (List.prefix_nil.mp hpre), ht.root⟩
    · rcases (hmem _).mp hmem' with hmem' | ⟨k, hk, -, hmem'⟩
      · refine ht.notMem_append hj.free [[]] ?_
        rwa [Place.over, List.nil_append, ← List.append_assoc, List.replicate_succ',
          ← List.append_assoc] at hmem'
      · have hbare : k = [[]] := by
          rw [Place.over, List.nil_append, List.singleton_append, List.replicate_succ',
            ← List.cons_append] at hk
          exact (List.append_cancel_left hk).symm
        exact ht.bare (hbare ▸ hmem')
  rw [hover, ← List.nil_append [a], find_concat]
  exact top_spec hheight

/-- **What is left after changing the root**: a copy of the directory, with the mounts in it. -/
theorem mem_switchRoot (ht : t.Sound) (hp : p ≠ []) (dir : Path → φ → φ) (old : String) :
    ∃ t', t.switchRoot dir p old = some t' ∧
      ∀ l m, (l, m) ∈ t' ↔ (l, m) ∈ t.copyOf dir (t.find p) := by
  set n := (t.find p).over with hn
  set bound := t.bind dir (t.find p) (t.find p) with hbound
  have hsound : bound.Sound := ht.bind hp
  have hne : n ≠ [] := by simp [hn, Place.over]
  have hfind : bound.find p = ⟨n, []⟩ := find_bind ht hp
  have hold : bound.find (p ++ [old]) = bound.top ⟨n, [old]⟩ := by
    rw [find_concat, hfind, List.nil_append]
  obtain ⟨j, -, hj⟩ := exists_height bound ⟨n, [old]⟩
  have hover : (bound.top ⟨n, [old]⟩).over = n ++ [old] :: List.replicate j [] := by
    rw [top_spec hj, Place.over_lifted, Place.over, List.append_assoc, List.singleton_append]
  refine ⟨(bound.pivot n (bound.top ⟨n, [old]⟩)).detach
    ((bound.top ⟨n, [old]⟩).over.drop n.length), ?_, fun l m => ?_⟩
  · have hdrop : (bound.top ⟨n, [old]⟩).over.drop n.length ≠ [] := by
      rw [hover, List.drop_left]
      exact List.cons_ne_nil _ _
    rw [Table.switchRoot, ← hbound, hfind, hold, Table.pivotRoot,
      if_pos ⟨rfl, hne, prefix_top bound n [old]⟩,
      Option.bind_some, find_pivot hsound hne, Table.umountDetach, if_pos ⟨rfl, hdrop⟩]
  · have hcopy : (n ++ l, m) ∈ bound ↔ (l, m) ∈ t.copyOf dir (t.find p) := mem_bind_over ht hp
    rw [Table.detach, List.mem_filter, decide_eq_true_eq, mem_pivot, ← hcopy]
    constructor
    · rintro ⟨hmem | ⟨k, rfl, -, -⟩, hnot⟩
      · exact hmem
      · exact absurd (List.prefix_append _ k) hnot
    · intro hmem
      refine ⟨.inl hmem, ?_⟩
      -- nothing is mounted where the old root goes
      rintro ⟨k, rfl⟩
      refine hsound.notMem_append (over_top_notMem bound ⟨n, [old]⟩) k (mem_locs.mpr ⟨m, ?_⟩)
      rwa [hover, List.drop_left, ← List.append_assoc, ← hover] at hmem

end Mounts
