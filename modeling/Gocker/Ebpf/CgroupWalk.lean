import Gocker.Ebpf.SchedMonitor
import Gocker.Lib.Fallible
import Mathlib.Logic.Relation

/-!
# Filling the filter of the scheduler statistics

`walk_cgroup_tree` (`eBPF/main.c`) visits a directory and everything below it, and adds the
inode number of each directory to `allowed_cgroups`.  Any of its system calls may fail; it
stops at the first failure and returns it.

The walk is a program over the map and the number of calls made, so that what was added before
a failure stays added.  It ends because a path only grows up to `PATH_MAX`.

`walk_exact` says that a walk adds the directories of the tree and nothing else, and all of
them unless it fails.  `Walks` is what every part of the walk does, and is closed under the
ways in which the walk is put together.

### The file system

`FileSystem` gives for each path what `stat` says of it and what `readdir` lists.  `IsTree` says
that this is a tree at and below a directory: an entry that is listed exists, and what `readdir`
says of its type agrees with `stat` or is `DT_UNKNOWN`, where the walk asks `stat`.  A symbolic
link is listed as `DT_LNK` and is not followed.
-/

namespace Gocker.Ebpf.CgroupWalk

open Fallible Relation

/-! ## The file system -/

/-- A path or a name, without the zero at its end. -/
abbrev Text := List UInt8

/-- An error number. -/
structure Errno where
  value : ℕ
  pos : 0 < value
deriving DecidableEq, Repr

/-- `ENOTDIR` -/
def enotdir : Errno := ⟨20, by decide⟩

/-- `ENAMETOOLONG` -/
def enametoolong : Errno := ⟨36, by decide⟩

/-- What the kernel returns for a map that is full. -/
def e2big : Errno := ⟨7, by decide⟩

/-- `struct stat`, as far as it is read. -/
structure Stat where
  ino : UInt64
  /-- `S_ISDIR(st_mode)` -/
  isDir : Bool
deriving DecidableEq, Repr

/-- `struct dirent`, as far as it is read. -/
structure Dirent where
  name : Text
  type : UInt8
  name_nonzero : 0 ∉ name
deriving DecidableEq, Repr

/-- `DT_UNKNOWN`: the file system does not say what an entry is. -/
def dtUnknown : UInt8 := 0

/-- `DT_DIR` -/
def dtDir : UInt8 := 4

/-- `DT_LNK` -/
def dtLnk : UInt8 := 10

/-- The number of bytes that a path may take with its zero. -/
def pathMax : ℕ := 4096

/-- `"%s/%s"` -/
def childPath (path name : Text) : Text := path ++ 47 :: name

/-- A file that a directory has an entry for, itself and not what it links to. -/
inductive FileKind where
  | dir
  | symlink
  | other
deriving DecidableEq, Repr

/-- What is in the file system while the walk runs. -/
structure FileSystem where
  kind : Text → Option FileKind
  /-- what `stat` finds, behind any links -/
  stat : Text → Except Errno Stat
  /-- the entries that `readdir` returns one after the other -/
  entries : Text → Except Errno (List Dirent)

/-! ## The walk -/

/-- What a walk has done so far. -/
structure WalkState (capacity : ℕ) where
  calls : ℕ
  /-- whether a call has failed -/
  failed : Bool
  allowed : BoundedMap UInt64 UInt8 capacity

/-- The file system, and the calls that fail beside those that it makes fail. -/
structure Env where
  fs : FileSystem
  fault : ℕ → Option Errno

variable {capacity : ℕ} {α β : Type}

/-- A part of the walk: it ends with a value or with an error, and in both cases with what it
has done. -/
abbrev Walk (capacity : ℕ) (α : Type) := EStateM Errno (WalkState capacity) α

namespace Env

variable (env : Env)

/-- A system call with this result, unless it fails. -/
def call (result : Except Errno α) : Walk capacity α := fun s =>
  match (env.fault s.calls).elim result .error with
  | .ok a => .ok a { s with calls := s.calls + 1 }
  | .error e => .error e { s with calls := s.calls + 1, failed := true }

/-- `add_allowed_cgroup` -/
def addAllowedCgroup (cgid : UInt64) : Walk capacity Unit := do
  let s ← get
  env.call (if s.allowed.HasRoom cgid then .ok () else .error e2big)
  modify fun s => { s with allowed := s.allowed.insert cgid 1 }

/-- The entries `.` and `..`. -/
def isDotEntry (name : Text) : Bool :=
  name.getD 0 0 = 46 && (name.getD 1 0 = 0 || name.getD 1 0 = 46 && name.getD 2 0 = 0)

/-- The loop over the entries: `readdir` is called before each and once more at the end. -/
def readEntries (visit : Dirent → Walk capacity Unit) : List Dirent → Walk capacity Unit
  | [] => env.call (.ok ())
  | entry :: entries => do
      env.call (.ok ())
      visit entry
      readEntries visit entries

/-- `walk_cgroup_tree`: the directory itself, then its entries, each directory among them with
all that is below it. -/
def walkCgroupTree (path : Text) : Walk capacity Unit := do
  let st ← env.call (env.fs.stat path)
  if st.isDir = false then throw enotdir
  else
    env.addAllowedCgroup st.ino
    let entries ← env.call (env.fs.entries path)
    env.readEntries (fun entry =>
      if isDotEntry entry.name then pure ()
      else if entry.type ≠ dtDir ∧ entry.type ≠ dtUnknown then pure ()
      else if (childPath path entry.name).length < pathMax then do
        let childStat ← env.call (env.fs.stat (childPath path entry.name))
        if childStat.isDir then walkCgroupTree (childPath path entry.name) else pure ()
      else throw enametoolong) entries
termination_by pathMax - path.length
decreasing_by
  rename_i h
  rw [childPath, List.length_append, List.length_cons] at h ⊢
  omega

end Env

/-- What `walk_cgroup_tree` returns. -/
def returned : EStateM.Result Errno (WalkState capacity) Unit → ℤ
  | .ok () _ => 0
  | .error e _ => -e.value

/-! ## The tree -/

/-- A directory with an entry in `path`, other than `.` and `..`. -/
def Subdirectory (fs : FileSystem) (path child : Text) : Prop :=
  ∃ entries, fs.entries path = .ok entries ∧
    ∃ entry ∈ entries, entry.name ≠ [46] ∧ entry.name ≠ [46, 46] ∧
      child = childPath path entry.name ∧ fs.kind child = some .dir

/-- The directories of a tree: its root, and those below it at any depth. -/
def Below (fs : FileSystem) : Text → Text → Prop := ReflTransGen (Subdirectory fs)

/-- The inode numbers of the directories of a tree. -/
def inodes (fs : FileSystem) (root : Text) : Set UInt64 :=
  {ino | ∃ path st, Below fs root path ∧ fs.stat path = .ok st ∧ st.ino = ino}

/-- What the entry of a directory says about the file at `child`: a link is reported as such,
and a directory as one if its type is known. -/
def Truthful (fs : FileSystem) (child : Text) (entry : Dirent) : Prop :=
  match fs.kind child with
  | some .dir => entry.type = dtDir ∨ entry.type = dtUnknown
  | some .symlink => entry.type = dtLnk
  | some .other => ∃ st, fs.stat child = .ok st ∧ st.isDir = false
  | none => False

/-- A directory that can be read, in which every path is short enough. -/
structure Directory (fs : FileSystem) (path : Text) : Prop where
  stat : ∃ ino, fs.stat path = .ok ⟨ino, true⟩
  entries : ∃ entries, fs.entries path = .ok entries ∧
    ∀ entry ∈ entries, entry.name ≠ [46] → entry.name ≠ [46, 46] →
      (childPath path entry.name).length < pathMax ∧
        Truthful fs (childPath path entry.name) entry

/-- A tree of directories. -/
def IsTree (fs : FileSystem) (root : Text) : Prop := ∀ path, Below fs root path → Directory fs path

/-! ## What the parts of the walk do -/

/-- A cgroup is in the map. -/
def WalkState.Has (s : WalkState capacity) (cgid : UInt64) : Prop :=
  (s.allowed.lookup cgid).isSome

/-- Between two states, keys from `inos` have been added. -/
structure Added (inos : Set UInt64) (s t : WalkState capacity) : Prop where
  kept : ∀ cgid, s.Has cgid → t.Has cgid
  new : ∀ cgid, t.Has cgid → s.Has cgid ∨ cgid ∈ inos

/-- The reasons for a failure: a call fails by itself, or a key from `inos` has no room. -/
def Reason (env : Env) (inos : Set UInt64) (t : WalkState capacity) : Prop :=
  (∃ i, env.fault i ≠ none) ∨ ∃ ino ∈ inos, ¬ t.allowed.HasRoom ino

/-- What every part of the walk does: it adds keys from `inos`, all of those in `done` unless it
fails, and it fails if and only if a call does. -/
def Walks (env : Env) (inos done : Set UInt64) (x : Walk capacity α) : Prop :=
  ∀ s, match x s with
    | .ok _ t => t.failed = s.failed ∧ Added inos s t ∧ ∀ cgid ∈ done, t.Has cgid
    | .error _ t => t.failed = true ∧ Added inos s t ∧ Reason env inos t

section
variable {env : Env} {inos done done' : Set UInt64} {s t u : WalkState capacity}

/-- What leaves the map as it is has added nothing. -/
theorem Added.of_allowed (h : t.allowed = s.allowed) : Added inos s t :=
  ⟨fun _ hs => by rwa [WalkState.Has, h], fun _ ht => .inl (by rwa [WalkState.Has, ← h])⟩

/-- Two parts after each other add what they add. -/
theorem Added.trans (h : Added inos s t) (h' : Added inos t u) : Added inos s u := by
  refine ⟨fun cgid hs => h'.kept cgid (h.kept cgid hs), fun cgid hu => ?_⟩
  rcases h'.new cgid hu with ht | hin
  · exact h.new cgid ht
  · exact .inr hin

theorem walks_pure (a : α) : Walks env inos ∅ (pure a : Walk capacity α) :=
  fun _ => ⟨rfl, .of_allowed rfl, fun _ h => absurd h (Set.notMem_empty _)⟩

/-- Parts may follow each other: they add what the one and the other add. -/
theorem Walks.bind {x : Walk capacity α} {f : α → Walk capacity β} (hx : Walks env inos done x)
    (hf : ∀ s a t, x s = .ok a t → Walks env inos done' (f a)) :
    Walks env inos (done ∪ done') (x >>= f) := by
  intro s
  have first := hx s
  rw [bind_apply]
  cases h : x s with
  | error e t =>
      rw [h] at first
      exact first
  | ok a t =>
      rw [h] at first
      obtain ⟨hfailed, hadded, hdone⟩ := first
      have second := hf s a t h t
      show match f a t with | .ok _ t => _ | .error _ t => _
      cases h' : f a t with
      | ok b u =>
          rw [h'] at second
          obtain ⟨hfailed', hadded', hdone'⟩ := second
          refine ⟨hfailed'.trans hfailed, hadded.trans hadded', fun cgid hin => ?_⟩
          rcases hin with hin | hin
          · exact hadded'.kept cgid (hdone cgid hin)
          · exact hdone' cgid hin
      | error e u =>
          rw [h'] at second
          obtain ⟨hfailed', hadded', hreason⟩ := second
          exact ⟨hfailed', hadded.trans hadded', hreason⟩

/-- A part that adds less has done no more. -/
theorem Walks.anti {x : Walk capacity α} (hx : Walks env inos done x) (h : done' ⊆ done) :
    Walks env inos done' x := by
  intro s
  have hs := hx s
  cases hrun : x s with
  | ok a t =>
      rw [hrun] at hs
      exact ⟨hs.1, hs.2.1, fun cgid hin => hs.2.2 cgid (h hin)⟩
  | error e t =>
      rw [hrun] at hs
      exact hs

/-- A call that does not fail of itself. -/
theorem walks_call {result : Except Errno α} {a : α} (h : result = .ok a) :
    Walks env inos ∅ (env.call result : Walk capacity α) := by
  intro s
  subst h
  unfold Env.call
  cases hfault : env.fault s.calls with
  | none => exact ⟨rfl, .of_allowed rfl, fun _ h => absurd h (Set.notMem_empty _)⟩
  | some e =>
      refine ⟨rfl, .of_allowed rfl, .inl ⟨s.calls, ?_⟩⟩
      rw [hfault]
      exact Option.some_ne_none e

/-- A call that does not fail gives what the system says. -/
theorem call_eq_ok {result : Except Errno α} {a : α} (h : env.call result s = .ok a t) :
    result = .ok a := by
  unfold Env.call at h
  cases hfault : env.fault s.calls with
  | some e =>
      rw [hfault] at h
      cases h
  | none =>
      rw [hfault] at h
      cases result with
      | error e => cases h
      | ok b =>
          cases h
          rfl

/-- Such a call goes on with its result. -/
theorem Walks.call_bind {result : Except Errno α} {a : α} (h : result = .ok a)
    {f : α → Walk capacity β} (hf : Walks env inos done (f a)) :
    Walks env inos done (env.call result >>= f) := by
  have hbind : Walks env inos (∅ ∪ done) (env.call result >>= f) := by
    refine (walks_call h).bind fun s b t hb => ?_
    obtain rfl : b = a := Except.ok.inj ((call_eq_ok hb).symm.trans h)
    exact hf
  exact hbind.anti Set.subset_union_right

/-- An entry is added only where there is room for it, and only by a call that does not fail. -/
theorem addAllowedCgroup_apply (ino : UInt64) :
    env.addAllowedCgroup ino s =
      (env.call (if s.allowed.HasRoom ino then .ok () else .error e2big) >>= fun _ =>
        modify fun s => { s with allowed := s.allowed.insert ino 1 }) s := rfl

theorem walks_addAllowedCgroup {ino : UInt64} (hin : ino ∈ inos) :
    Walks env inos {ino} (env.addAllowedCgroup ino : Walk capacity Unit) := by
  intro s
  rw [addAllowedCgroup_apply, bind_apply, Env.call]
  cases hfault : env.fault s.calls with
  | some e =>
      refine ⟨rfl, .of_allowed rfl, .inl ⟨s.calls, ?_⟩⟩
      rw [hfault]
      exact Option.some_ne_none e
  | none =>
      by_cases hroom : s.allowed.HasRoom ino
      · rw [if_pos hroom]
        refine ⟨rfl, ⟨fun cgid hs => ?_, fun cgid ht => ?_⟩, fun cgid hdone => ?_⟩
        · show ((s.allowed.insert ino 1).lookup cgid).isSome
          rw [BoundedMap.lookup_insert hroom]
          split_ifs
          · rfl
          · exact hs
        · replace ht : ((s.allowed.insert ino 1).lookup cgid).isSome := ht
          rw [BoundedMap.lookup_insert hroom] at ht
          split_ifs at ht with heq
          · exact .inr (heq ▸ hin)
          · exact .inl ht
        · show ((s.allowed.insert ino 1).lookup cgid).isSome
          rw [BoundedMap.lookup_insert hroom, if_pos (Set.mem_singleton_iff.mp hdone)]
          rfl
      · rw [if_neg hroom]
        exact ⟨rfl, .of_allowed rfl, .inr ⟨ino, hin, hroom⟩⟩

/-- The loop over the entries adds what is found at each of them. -/
theorem walks_readEntries {visit : Dirent → Walk capacity Unit} {found : Dirent → Set UInt64}
    {entries : List Dirent} (h : ∀ entry ∈ entries, Walks env inos (found entry) (visit entry)) :
    Walks env inos {ino | ∃ entry ∈ entries, ino ∈ found entry}
      (env.readEntries visit entries) := by
  induction entries with
  | nil =>
      refine (walks_call rfl).anti ?_
      rintro ino ⟨entry, hmem, -⟩
      cases hmem
  | cons entry entries ih =>
      have hentry := h entry List.mem_cons_self
      have hrest := ih fun e he => h e (List.mem_cons_of_mem _ he)
      have hboth := hentry.bind fun _ _ _ _ => hrest
      rw [Env.readEntries]
      refine Walks.call_bind rfl (hboth.anti ?_)
      rintro ino ⟨e, hmem, hin⟩
      rcases List.mem_cons.mp hmem with rfl | hmem
      · exact .inl hin
      · exact .inr ⟨e, hmem, hin⟩

end

/-! ## The walk over a tree -/

/-- The test of the first bytes finds the names `.` and `..`, and no others. -/
theorem isDotEntry_iff (entry : Dirent) :
    Env.isDotEntry entry.name = true ↔ entry.name = [46] ∨ entry.name = [46, 46] := by
  obtain ⟨name, type, hname⟩ := entry
  match name, hname with
  | [], _ => simp [Env.isDotEntry]
  | [a], _ => simp [Env.isDotEntry]
  | [a, b], h =>
      have hb : b ≠ 0 := fun hb => h (by simp [hb])
      simp [Env.isDotEntry, hb]
  | a :: b :: c :: rest, h =>
      have hb : b ≠ 0 := fun hb => h (by simp [hb])
      have hc : c ≠ 0 := fun hc => h (by simp [hc])
      simp [Env.isDotEntry, hb, hc]

/-- The entries that are not left out are those besides `.` and `..`. -/
theorem isDotEntry_eq_false_iff (entry : Dirent) :
    Env.isDotEntry entry.name = false ↔ entry.name ≠ [46] ∧ entry.name ≠ [46, 46] := by
  rw [← Bool.not_eq_true, isDotEntry_iff, not_or]

/-- The directories of a tree are its root, and those of the trees in it. -/
theorem mem_inodes_iff {fs : FileSystem} {root : Text} {ino : UInt64} :
    ino ∈ inodes fs root ↔
      (∃ st, fs.stat root = .ok st ∧ st.ino = ino) ∨
        ∃ child, Subdirectory fs root child ∧ ino ∈ inodes fs child := by
  constructor
  · rintro ⟨path, st, hbelow, hst⟩
    rcases hbelow.cases_head with rfl | ⟨child, hsub, hbelow⟩
    · exact .inl ⟨st, hst⟩
    · exact .inr ⟨child, hsub, path, st, hbelow, hst⟩
  · rintro (⟨st, hst⟩ | ⟨child, hsub, path, st, hbelow, hst⟩)
    · exact ⟨root, st, .refl, hst⟩
    · exact ⟨path, st, hbelow.head hsub, hst⟩

section
variable {env : Env} {root path : Text}

/-- The directories that the walk reaches through an entry of `path`. -/
def found (fs : FileSystem) (path : Text) (entry : Dirent) : Set UInt64 :=
  {ino | Env.isDotEntry entry.name = false ∧ fs.kind (childPath path entry.name) = some .dir ∧
    ino ∈ inodes fs (childPath path entry.name)}

/-- Nothing is found at an entry that is no directory. -/
theorem found_subset_empty {fs : FileSystem} {entry : Dirent}
    (h : fs.kind (childPath path entry.name) ≠ some .dir) : found fs path entry ⊆ ∅ :=
  fun _ hin => h hin.2.1

/-- The walk finds the root and what it reaches through its entries. -/
theorem mem_inodes_of_entries {fs : FileSystem} {st : Stat} {entries : List Dirent} {ino : UInt64}
    (hst : fs.stat path = .ok st) (hentries : fs.entries path = .ok entries)
    (hin : ino ∈ inodes fs path) : ino = st.ino ∨ ∃ entry ∈ entries, ino ∈ found fs path entry := by
  rcases mem_inodes_iff.mp hin with ⟨st', hst', rfl⟩ | ⟨child, hsub, hin⟩
  · rw [hst] at hst'
    cases hst'
    exact .inl rfl
  · obtain ⟨entries', hentries', entry, hmem, hdot, hdots, rfl, hdir⟩ := hsub
    rw [hentries] at hentries'
    cases hentries'
    exact .inr ⟨entry, hmem, (isDotEntry_eq_false_iff entry).mpr ⟨hdot, hdots⟩, hdir, hin⟩

/-- One turn of the loop, where `walk` is the recursive call. -/
theorem walks_entry {inos : Set UInt64} {entry : Dirent} {walk : Walk capacity Unit}
    (hdir : Env.isDotEntry entry.name = false →
      (childPath path entry.name).length < pathMax ∧
        Truthful env.fs (childPath path entry.name) entry)
    (hstat : Env.isDotEntry entry.name = false →
      env.fs.kind (childPath path entry.name) = some .dir →
      ∃ ino, env.fs.stat (childPath path entry.name) = .ok ⟨ino, true⟩)
    (hwalk : Env.isDotEntry entry.name = false →
      env.fs.kind (childPath path entry.name) = some .dir →
      Walks env inos (inodes env.fs (childPath path entry.name)) walk) :
    Walks env inos (found env.fs path entry)
      (if Env.isDotEntry entry.name then pure ()
        else if entry.type ≠ dtDir ∧ entry.type ≠ dtUnknown then pure ()
        else if (childPath path entry.name).length < pathMax then do
          let childStat ← env.call (env.fs.stat (childPath path entry.name))
          if childStat.isDir then walk else pure ()
        else throw enametoolong) := by
  by_cases hdot : Env.isDotEntry entry.name = true
  · rw [if_pos hdot]
    refine (walks_pure ()).anti fun ino hin => ?_
    rw [hin.1] at hdot
    cases hdot
  rw [Bool.not_eq_true] at hdot
  obtain ⟨hlength, htruth⟩ := hdir hdot
  rw [if_neg (Bool.eq_false_iff.mp hdot), if_pos hlength]
  rw [Truthful] at htruth
  split at htruth
  next hkind =>
    obtain ⟨ino, hok⟩ := hstat hdot hkind
    have htype : ¬ (entry.type ≠ dtDir ∧ entry.type ≠ dtUnknown) := by tauto
    rw [if_neg htype]
    exact Walks.call_bind hok ((hwalk hdot hkind).anti fun _ hin => hin.2.2)
  next hkind =>
    have htype : entry.type ≠ dtDir ∧ entry.type ≠ dtUnknown := by
      rw [htruth]
      decide
    rw [if_pos htype]
    refine (walks_pure ()).anti (found_subset_empty ?_)
    rw [hkind]
    decide
  next hkind =>
    obtain ⟨st, hok, hnot⟩ := htruth
    have hnone : found env.fs path entry ⊆ ∅ := by
      refine found_subset_empty ?_
      rw [hkind]
      decide
    split_ifs with htype
    · exact (walks_pure ()).anti hnone
    · refine Walks.call_bind hok ?_
      rw [if_neg (Bool.eq_false_iff.mp hnot)]
      exact (walks_pure ()).anti hnone
  next => exact htruth.elim

/-- **The walk from a path adds the directories at and below it.** By induction on the length
that a path may still grow by. -/
theorem walks_walkCgroupTree (htree : IsTree env.fs root) (hbelow : Below env.fs root path) :
    Walks env (inodes env.fs root) (inodes env.fs path)
      (env.walkCgroupTree path : Walk capacity Unit) := by
  induction hn : pathMax - path.length using Nat.strong_induction_on generalizing path with
  | _ n ih =>
  subst hn
  obtain ⟨⟨ino, hstat⟩, entries, hentries, hall⟩ := htree path hbelow
  have hroot : ino ∈ inodes env.fs root := ⟨path, _, hbelow, hstat, rfl⟩
  have hloop : ∀ entry ∈ entries, Env.isDotEntry entry.name = false →
      (childPath path entry.name).length < pathMax ∧
        Truthful env.fs (childPath path entry.name) entry := by
    intro entry hmem hdot
    obtain ⟨hne, hne'⟩ := (isDotEntry_eq_false_iff entry).mp hdot
    exact hall entry hmem hne hne'
  have hchild : ∀ entry ∈ entries, Env.isDotEntry entry.name = false →
      env.fs.kind (childPath path entry.name) = some .dir →
      Below env.fs root (childPath path entry.name) := by
    intro entry hmem hdot hkind
    obtain ⟨hne, hne'⟩ := (isDotEntry_eq_false_iff entry).mp hdot
    exact hbelow.tail ⟨entries, hentries, entry, hmem, hne, hne', rfl, hkind⟩
  have hwalk : Walks env (inodes env.fs root)
      ({ino} ∪ {i | ∃ entry ∈ entries, i ∈ found env.fs path entry})
      (env.walkCgroupTree path : Walk capacity Unit) := by
    rw [Env.walkCgroupTree]
    refine Walks.call_bind hstat ?_
    rw [if_neg Bool.true_eq_false.mp]
    refine (walks_addAllowedCgroup hroot).bind fun _ _ _ _ => ?_
    refine Walks.call_bind hentries (walks_readEntries fun entry hmem => ?_)
    refine walks_entry (hloop entry hmem) (fun hdot hkind => ?_) fun hdot hkind => ?_
    · exact (htree _ (hchild entry hmem hdot hkind)).stat
    · have hlength := (hloop entry hmem hdot).1
      refine ih _ ?_ (hchild entry hmem hdot hkind) rfl
      rw [childPath, List.length_append, List.length_cons] at hlength ⊢
      omega
  refine hwalk.anti fun i hin => ?_
  rcases mem_inodes_of_entries hstat hentries hin with rfl | hfound
  · exact .inl rfl
  · exact .inr hfound

/-- A walk has nothing to fail for if no call fails by itself, and the map is large enough for
what is in it and for the directories of the tree. -/
theorem not_reason {inos : Set UInt64} {s t : WalkState capacity} {cgids : Finset UInt64}
    (hfault : ∀ i, env.fault i = none) (hadded : Added inos s t) (hcard : cgids.card ≤ capacity)
    (hold : ∀ cgid, s.Has cgid → cgid ∈ cgids) (hnew : ∀ cgid ∈ inos, cgid ∈ cgids) :
    ¬ Reason env inos t := by
  rintro (⟨i, hi⟩ | ⟨ino, hin, hroom⟩)
  · exact hi (hfault i)
  · refine hroom (BoundedMap.hasRoom_of_subset (fun cgid ht => ?_) hcard (hnew ino hin))
    rcases hadded.new cgid ht with hs | hcgid
    · exact hold cgid hs
    · exact hnew cgid hcgid

theorem returned_ne_zero (e : Errno) (t : WalkState capacity) : returned (.error e t) ≠ 0 := by
  have hpos := e.pos
  show -(e.value : ℤ) ≠ 0
  omega

/-- **The walk allows exactly the directories of the tree.**  It returns zero if no call fails by
itself and the map is large enough, and has then added the inode numbers of all of them; if any
call has failed it returns an error, and has added nothing else. -/
theorem walk_exact (env : Env) {root : Text} (htree : IsTree env.fs root)
    {s : WalkState capacity} (hs : s.failed = false) :
    ((∀ i, env.fault i = none) →
      (∃ cgids : Finset UInt64, cgids.card ≤ capacity ∧
        (∀ cgid, s.Has cgid → cgid ∈ cgids) ∧ ∀ cgid ∈ inodes env.fs root, cgid ∈ cgids) →
      returned (env.walkCgroupTree root s) = 0 ∧
        ∀ cgid, (final (env.walkCgroupTree root s)).Has cgid ↔
          s.Has cgid ∨ cgid ∈ inodes env.fs root) ∧
    ((final (env.walkCgroupTree root s)).failed = true →
      returned (env.walkCgroupTree root s) ≠ 0 ∧
        (∀ cgid, s.Has cgid → (final (env.walkCgroupTree root s)).Has cgid) ∧
        ∀ cgid, (final (env.walkCgroupTree root s)).Has cgid →
          s.Has cgid ∨ cgid ∈ inodes env.fs root) := by
  have hwalk := walks_walkCgroupTree htree (ReflTransGen.refl : Below env.fs root root) s
  cases hrun : env.walkCgroupTree root s with
  | ok a t =>
      rw [hrun] at hwalk
      obtain ⟨hfailed, hadded, hdone⟩ := hwalk
      refine ⟨fun _ _ => ⟨rfl, fun cgid => ⟨hadded.new cgid, ?_⟩⟩, fun h => ?_⟩
      · rintro (hold | hnew)
        · exact hadded.kept cgid hold
        · exact hdone cgid hnew
      · rw [final, hfailed, hs] at h
        cases h
  | error e t =>
      rw [hrun] at hwalk
      obtain ⟨hfailed, hadded, hreason⟩ := hwalk
      refine ⟨fun hfault ⟨cgids, hcard, hold, hnew⟩ => ?_, fun _ => ?_⟩
      · exact absurd hreason (not_reason hfault hadded hcard hold hnew)
      · exact ⟨returned_ne_zero e t, hadded.kept, hadded.new⟩

end

/-- The programs of the scheduler then look at the cgroups of the tree only. -/
theorem allowCgroup_iff_of_walk {env : Env} {root : Text} (htree : IsTree env.fs root)
    {t : WalkState capacity}
    (hrun : env.walkCgroupTree root { calls := 0, failed := false, allowed := .empty } = .ok () t)
    {m : SchedMonitor} (henabled : m.filterEnabled ≠ 0)
    (hallowed : m.allowedCgroups = t.allowed.lookup) (cgid : UInt64) :
    m.allowCgroup cgid = true ↔ cgid ∈ inodes env.fs root := by
  have hwalk := walks_walkCgroupTree htree (ReflTransGen.refl : Below env.fs root root)
    { calls := 0, failed := false, allowed := (.empty : BoundedMap UInt64 UInt8 capacity) }
  rw [hrun] at hwalk
  obtain ⟨-, hadded, hdone⟩ := hwalk
  rw [SchedMonitor.allowCgroup, if_neg henabled, hallowed]
  refine ⟨fun h => (hadded.new cgid h).resolve_left ?_, hdone cgid⟩
  rw [WalkState.Has, BoundedMap.lookup_empty]
  decide

/-! ## A tree -/

/-- `/r` with a directory `..x`, a link to it, and a file. -/
def sampleTree : FileSystem where
  kind path :=
    if path = [47, 114, 47, 46, 46, 120] then some .dir
    else if path = [47, 114, 47, 108] then some .symlink
    else if path = [47, 114, 47, 102] then some .other
    else none
  stat path :=
    if path = [47, 114] then .ok ⟨1, true⟩
    else if path = [47, 114, 47, 46, 46, 120] ∨ path = [47, 114, 47, 108] then .ok ⟨2, true⟩
    else .ok ⟨3, false⟩
  entries path :=
    if path = [47, 114] then
      .ok [⟨[46], dtDir, by decide⟩, ⟨[46, 46], dtDir, by decide⟩,
        ⟨[46, 46, 120], dtUnknown, by decide⟩, ⟨[108], dtLnk, by decide⟩,
        ⟨[102], dtUnknown, by decide⟩]
    else .ok [⟨[46], dtDir, by decide⟩, ⟨[46, 46], dtDir, by decide⟩]

theorem below_sampleTree {path : Text} (h : Below sampleTree [47, 114] path) :
    path = [47, 114] ∨ path = [47, 114, 47, 46, 46, 120] := by
  induction h with
  | refl => exact .inl rfl
  | tail _ hsub ih =>
      obtain ⟨entries, hentries, entry, hmem, hdot, hdots, rfl, hkind⟩ := hsub
      rcases ih with rfl | rfl
      · cases hentries
        simp only [List.mem_cons, List.not_mem_nil, or_false] at hmem
        rcases hmem with rfl | rfl | rfl | rfl | rfl
        · exact absurd rfl hdot
        · exact absurd rfl hdots
        · exact .inr rfl
        · exact absurd hkind (by decide)
        · exact absurd hkind (by decide)
      · cases hentries
        simp only [List.mem_cons, List.not_mem_nil, or_false] at hmem
        rcases hmem with rfl | rfl
        · exact absurd rfl hdot
        · exact absurd rfl hdots

theorem isTree_sampleTree : IsTree sampleTree [47, 114] := by
  intro path hbelow
  rcases below_sampleTree hbelow with rfl | rfl
  · refine ⟨⟨1, rfl⟩, _, rfl, fun entry hmem hdot hdots => ?_⟩
    simp only [List.mem_cons, List.not_mem_nil, or_false] at hmem
    rcases hmem with rfl | rfl | rfl | rfl | rfl
    · exact absurd rfl hdot
    · exact absurd rfl hdots
    · exact ⟨by decide, .inr rfl⟩
    · exact ⟨by decide, rfl⟩
    · exact ⟨by decide, _, rfl, rfl⟩
  · refine ⟨⟨2, rfl⟩, _, rfl, fun entry hmem hdot hdots => ?_⟩
    simp only [List.mem_cons, List.not_mem_nil, or_false] at hmem
    rcases hmem with rfl | rfl
    · exact absurd rfl hdot
    · exact absurd rfl hdots

theorem mem_inodes_sampleTree {cgid : UInt64} :
    cgid ∈ inodes sampleTree [47, 114] ↔ cgid = 1 ∨ cgid = 2 := by
  constructor
  · rintro ⟨path, st, hbelow, hst, rfl⟩
    rcases below_sampleTree hbelow with rfl | rfl
    · cases hst
      exact .inl rfl
    · cases hst
      exact .inr rfl
  · rintro (rfl | rfl)
    · exact ⟨[47, 114], _, .refl, rfl, rfl⟩
    · refine ⟨[47, 114, 47, 46, 46, 120], _, .single ⟨_, rfl, ⟨[46, 46, 120], dtUnknown, by decide⟩,
        ?_, ?_, ?_, rfl, rfl⟩, rfl, rfl⟩
      · simp
      · decide
      · decide

/-- A walk over the tree without a failure: it returns 0, and both directories have been added. -/
theorem walk_exact_sampleTree :
    (let t := Env.walkCgroupTree { fs := sampleTree, fault := fun _ => none } [47, 114]
      { calls := 0, failed := false, allowed := (.empty : BoundedMap UInt64 UInt8 8) }
    returned t = 0 ∧ ∀ cgid, (final t).Has cgid ↔ cgid = 1 ∨ cgid = 2) := by
  have hexact := walk_exact { fs := sampleTree, fault := fun _ => none } isTree_sampleTree
    (s := { calls := 0, failed := false, allowed := (.empty : BoundedMap UInt64 UInt8 8) }) rfl
  have hempty : ∀ cgid, ¬ WalkState.Has
      { calls := 0, failed := false, allowed := (.empty : BoundedMap UInt64 UInt8 8) } cgid :=
    fun cgid h => Bool.false_ne_true h
  have hroom : ∀ cgid ∈ inodes sampleTree [47, 114], cgid ∈ ({1, 2} : Finset UInt64) := by
    intro cgid hin
    rcases mem_inodes_sampleTree.mp hin with rfl | rfl
    · decide
    · decide
  obtain ⟨hzero, hkeys⟩ := hexact.1 (fun _ => rfl)
    ⟨{1, 2}, by decide, fun cgid h => (hempty cgid h).elim, hroom⟩
  refine ⟨hzero, fun cgid => ?_⟩
  rw [hkeys cgid, or_iff_right (hempty cgid)]
  exact mem_inodes_sampleTree

end Gocker.Ebpf.CgroupWalk
