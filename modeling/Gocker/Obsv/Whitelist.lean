import Gocker.Lib.Upsert
import Gocker.Obsv.Checks
import Mathlib.Data.List.Infix

/-!
# The whitelist of the collector

`collectAllowed` and `refreshAllowed` (`gocker-obsv/cmd/collector/main.go`): the cgroups
whose counters are exported are the target path and the directories in it.  The BPF modules
filter by an ancestor.

`selected_iff` says on which trees, and for which configurations, the whitelist has every
cgroup that the filter lets pass.

### Depth

The filter asks for the ancestor of a task at the level of the target and so lets the whole
subtree pass.  The whitelist has the target and one level below it.  A cgroup further down is
counted in the kernel and is never exported: `Listed` says that the subtree which the filter
selects has no cgroup of this kind.
-/

namespace Gocker.Obsv

open Upsert

/-! ## Collecting -/

/-- The errors of reading a directory. -/
inductive FileError where
  | notExist
  | other
deriving DecidableEq, Repr

/-- An entry of a directory. -/
structure DirEntry where
  name : String
  isDir : Bool
deriving DecidableEq, Repr

/-- What `cgroupInode` and `os.ReadDir` return, for a path below the root of the cgroups. -/
structure Sight where
  inode : List String → Except FileError UInt64
  readDir : List String → Except FileError (List DirEntry)

/-- The cgroup IDs of the whitelist, with their paths. -/
abbrev Allowed := List (UInt64 × List String)

/-- `allowedPath` -/
def Allowed.path (allowed : Allowed) (cgid : UInt64) : Option (List String) :=
  (allowed.find? (·.1 = cgid)).map Prod.snd

/-- A cgroup is listed if it is among the entries. -/
theorem Allowed.path_isSome {allowed : Allowed} {cgid : UInt64} :
    (allowed.path cgid).isSome ↔ cgid ∈ allowed.map Prod.fst := by
  simp [path, List.find?_isSome]

/-- What has been collected, and the errors on the way. -/
structure Collected where
  allowed : Allowed
  errors : List FileError

/-- One entry of the directory; one that is gone is no error. -/
def collectEntry (sight : Sight) (root : List String) (c : Collected) (entry : DirEntry) :
    Collected :=
  if entry.isDir then
    match sight.inode (root ++ [entry.name]) with
    | .ok ino => { c with allowed := upsert Prod.fst (ino, root ++ [entry.name]) c.allowed }
    | .error .notExist => c
    | .error .other => { c with errors := c.errors ++ [.other] }
  else c

/-- `collectAllowed`: the target, and the directories in it.  An error is reported, and what has
been collected by then is used. -/
def collectAllowed (sight : Sight) (root : List String) : Option Allowed × List FileError :=
  match sight.inode root with
  | .error err => (none, [err])
  | .ok ino =>
      let allowed : Allowed := upsert Prod.fst (ino, root) []
      match sight.readDir root with
      | .error err => (some allowed, [err])
      | .ok entries =>
          let collected := entries.foldl (collectEntry sight root) { allowed, errors := [] }
          (some collected.allowed, collected.errors)

/-- The whitelist is never empty. -/
def refreshAllowed (sight : Sight) (targetPath : List String) (targetCgid : UInt64) : Allowed :=
  let set := (collectAllowed sight targetPath).1.getD []
  if set.length = 0 then upsert Prod.fst (targetCgid, targetPath) set else set

/-- What is collected are the directories among the entries. -/
theorem mem_collectEntries (sight : Sight) (root : List String) (cgid : UInt64)
    (entries : List DirEntry) (c : Collected) :
    cgid ∈ (entries.foldl (collectEntry sight root) c).allowed.map Prod.fst ↔
      cgid ∈ c.allowed.map Prod.fst ∨
        ∃ entry ∈ entries, entry.isDir = true ∧ sight.inode (root ++ [entry.name]) = .ok cgid := by
  induction entries generalizing c with
  | nil => simp
  | cons entry entries ih =>
      have hentry : cgid ∈ (collectEntry sight root c entry).allowed.map Prod.fst ↔
          cgid ∈ c.allowed.map Prod.fst ∨
            entry.isDir = true ∧ sight.inode (root ++ [entry.name]) = .ok cgid := by
        rw [collectEntry]
        cases entry.isDir with
        | false => simp
        | true =>
            cases hino : sight.inode (root ++ [entry.name]) with
            | ok ino =>
                simp only [if_true, mem_keys_upsert, true_and, Except.ok.injEq]
                rw [or_comm, eq_comm (a := cgid)]
            | error err => cases err <;> simp
      rw [List.foldl_cons, ih, hentry, or_assoc, List.exists_mem_cons_iff]

/-! ## A hierarchy of cgroups -/

/-- The directories of the cgroups, as paths below the root.  The inode number of a directory
is the ID of its cgroup. -/
structure Hierarchy where
  inode : List String → Option UInt64
  entries : List String → List DirEntry
  parent : ∀ path name, (inode (path ++ [name])).isSome → (inode path).isSome
  mem_entries : ∀ path name, (inode (path ++ [name])).isSome ↔ ⟨name, true⟩ ∈ entries path
  nonzero : ∀ path, inode path ≠ some 0
  injective : ∀ path path' ino, inode path = some ino → inode path' = some ino → path = path'

namespace Hierarchy

variable (h : Hierarchy)

/-- What the collector sees of a hierarchy. -/
def sight : Sight where
  inode path :=
    match h.inode path with
    | none => .error .notExist
    | some ino => .ok ino
  readDir path :=
    match h.inode path with
    | none => .error .notExist
    | some _ => .ok (h.entries path)

/-- A task in the cgroup at this path. -/
def task (pid : UInt32) (path : List String) : Task where
  pid := pid
  cgroups := path.inits.map fun p => (h.inode p).getD 0

/-- The configuration that the collector starts with. -/
def startCfg (sampleRate : UInt32) (targetPath : List String) : Cfg where
  sampleRate := sampleRate
  enableFilter := 1
  targetLevel := .ofNat targetPath.length
  targetCgid := (h.inode targetPath).getD 0

/-- The cgroup that the configuration names. -/
def Selects (c : Cfg) (path : List String) : Prop :=
  c.targetLevel < 0x80000000 ∧ path.length = c.targetLevel.toNat ∧
    h.inode path = some c.targetCgid

/-- The selected subtree is no deeper than the whitelist: it is that of the target path, with
no directories in its subdirectories, or that of one of its subdirectories, without any. -/
def Listed (target : List String) (c : Cfg) : Prop :=
  ∀ path, h.Selects c path →
    (path = target ∧ ∀ a b, h.inode (target ++ [a, b]) = none) ∨
      ∃ a, path = target ++ [a] ∧ ∀ b, h.inode (target ++ [a, b]) = none

variable {h} {target : List String}

/-! ### The filter -/

theorem prefix_isSome {path path' : List String} (hpre : path <+: path')
    (hpath' : (h.inode path').isSome) : (h.inode path).isSome := by
  obtain ⟨rest, rfl⟩ := hpre
  induction rest using List.reverseRecOn with
  | nil => rwa [List.append_nil] at hpath'
  | append_singleton rest name ih =>
      rw [← List.append_assoc] at hpath'
      exact ih (h.parent _ _ hpath')

theorem cgroupID_task (pid : UInt32) (path : List String) :
    (h.task pid path).cgroupID = (h.inode path).getD 0 := by
  have hlast : path.inits.getLast? = some path := by
    rw [List.inits_eq_tails, List.getLast?_reverse, List.head?_map]
    cases hrev : path.reverse with
    | nil => simpa using hrev
    | cons a l => simp [← hrev]
  rw [Task.cgroupID, task, List.getLastD_eq_getLast?, List.getLast?_map, hlast]
  rfl

/-- Its ancestors are those at the beginnings of the path. -/
theorem getD_cgroups (pid : UInt32) (path : List String) (i : ℕ) :
    (h.task pid path).cgroups.getD i 0 =
      if i ≤ path.length then (h.inode (path.take i)).getD 0 else 0 := by
  rw [task, List.getD_eq_getElem?_getD, List.getElem?_map]
  split_ifs with hi
  · have hlt : i < path.inits.length := by
      rw [List.length_inits]
      exact Nat.lt_succ_of_le hi
    rw [List.getElem?_eq_getElem hlt, List.getElem_inits]
    rfl
  · rw [List.getElem?_eq_none]
    · rfl
    · rw [List.length_inits]
      exact Nat.succ_le_of_lt (Nat.not_le.mp hi)

/-- A task passes the filter if its cgroup is in the subtree of the selected one. -/
theorem passes_iff {c : Cfg} (hfilter : c.enableFilter ≠ 0) (pid : UInt32) {path : List String}
    (hpath : (h.inode path).isSome) :
    inTargetSubtreeCurrent c (h.task pid path) = true ↔ ∃ q, h.Selects c q ∧ q <+: path := by
  rw [inTargetSubtreeCurrent, if_neg hfilter, Task.ancestorCgroupID, getD_cgroups]
  simp only [Bool.and_eq_true, decide_eq_true_eq, ne_eq]
  constructor
  · rintro ⟨hne, heq⟩
    split_ifs at hne heq with hlvl hlen
    · refine ⟨path.take c.targetLevel.toNat, ⟨hlvl, List.length_take_of_le hlen, ?_⟩,
        List.take_prefix ..⟩
      obtain ⟨ino, hino⟩ := Option.isSome_iff_exists.mp
        (prefix_isSome (List.take_prefix c.targetLevel.toNat path) hpath)
      rw [hino, Option.getD_some] at heq
      rw [hino, heq]
    · exact absurd rfl hne
    · exact absurd rfl hne
  · rintro ⟨q, ⟨hlvl, hlen, hino⟩, hpre⟩
    have htake : path.take c.targetLevel.toNat = q := by
      rw [← hlen]
      exact (List.prefix_iff_eq_take.mp hpre).symm
    have hle : c.targetLevel.toNat ≤ path.length := hlen ▸ hpre.length_le
    rw [if_pos hlvl, if_pos hle, htake, hino, Option.getD_some]
    refine ⟨fun hzero => h.nonzero q ?_, rfl⟩
    rw [hino, hzero]

/-! ### The whitelist -/

/-- The whitelist has the target and its subdirectories. -/
theorem mem_collectAllowed (htarget : (h.inode target).isSome) (cgid : UInt64) :
    (((collectAllowed h.sight target).1.getD []).path cgid).isSome ↔
      h.inode target = some cgid ∨ ∃ a, h.inode (target ++ [a]) = some cgid := by
  obtain ⟨ino, hino⟩ := Option.isSome_iff_exists.mp htarget
  have hsight : ∀ path, h.sight.inode path = .ok cgid ↔ h.inode path = some cgid := by
    intro path
    simp only [sight]
    cases h.inode path <;> simp
  have hcollected : (collectAllowed h.sight target).1 =
      some ((h.entries target).foldl (collectEntry h.sight target)
        { allowed := upsert Prod.fst (ino, target) [], errors := [] }).allowed := by
    simp only [collectAllowed, sight, hino]
  rw [Allowed.path_isSome, hcollected, Option.getD_some, mem_collectEntries, mem_keys_upsert, hino]
  refine or_congr (by simp [eq_comm]) ⟨?_, ?_⟩
  · rintro ⟨entry, -, -, hentry⟩
    exact ⟨entry.name, (hsight _).mp hentry⟩
  · rintro ⟨a, ha⟩
    have hentry := (h.mem_entries target a).mp (Option.isSome_of_eq_some ha)
    exact ⟨⟨a, true⟩, hentry, rfl, (hsight _).mpr ha⟩

theorem isSome_of_collected (hrun : (collectAllowed h.sight target).2 = []) :
    (h.inode target).isSome := by
  rw [Option.isSome_iff_ne_none]
  intro hnone
  simp only [collectAllowed, sight, hnone] at hrun
  cases hrun

/-- The whitelist, by the paths of the cgroups. -/
theorem whitelisted_iff (htarget : (h.inode target).isSome) (pid : UInt32) {path : List String}
    (hpath : (h.inode path).isSome) :
    (((collectAllowed h.sight target).1.getD []).path (h.task pid path).cgroupID).isSome ↔
      path = target ∨ ∃ a, path = target ++ [a] := by
  obtain ⟨ino, hino⟩ := Option.isSome_iff_exists.mp hpath
  rw [mem_collectAllowed htarget, cgroupID_task, hino, Option.getD_some]
  constructor
  · rintro (hsame | ⟨a, hsame⟩)
    · exact .inl (h.injective _ _ _ hino hsame)
    · exact .inr ⟨a, h.injective _ _ _ hino hsame⟩
  · rintro (rfl | ⟨a, rfl⟩)
    · exact .inl hino
    · exact .inr ⟨a, hino⟩

/-- What lies below a path, if nothing lies two levels below. -/
theorem below_cases {path rest : List String} (hsome : (h.inode (path ++ rest)).isSome)
    (hnone : ∀ a b, h.inode (path ++ [a, b]) = none) : rest = [] ∨ ∃ a, rest = [a] := by
  match rest with
  | [] => exact .inl rfl
  | [a] => exact .inr ⟨a, rfl⟩
  | a :: b :: rest =>
      have htwo : (h.inode (path ++ [a, b])).isSome := prefix_isSome ⟨rest, by simp⟩ hsome
      rw [hnone a b] at htwo
      cases htwo

/-- **The whitelist has what the filter lets pass** if and only if the selected subtree is no
deeper than the whitelist. -/
theorem selected_iff {c : Cfg} (hrun : (collectAllowed h.sight target).2 = [])
    (hfilter : c.enableFilter ≠ 0) :
    (∀ pid path, (h.inode path).isSome →
        inTargetSubtreeCurrent c (h.task pid path) = true →
        (((collectAllowed h.sight target).1.getD []).path (h.task pid path).cgroupID).isSome) ↔
      h.Listed target c := by
  have htarget := isSome_of_collected hrun
  constructor
  · intro hall q hq
    have hbelow : ∀ path, q <+: path → (h.inode path).isSome →
        path = target ∨ ∃ a, path = target ++ [a] := by
      intro path hpre hpath
      rw [← whitelisted_iff htarget 0 hpath]
      exact hall 0 path hpath ((passes_iff hfilter 0 hpath).mpr ⟨q, hq, hpre⟩)
    -- two levels below the target, nothing is in the whitelist
    have hnone : ∀ a b, q <+: target ++ [a, b] → h.inode (target ++ [a, b]) = none := by
      intro a b hpre
      rw [← Option.not_isSome_iff_eq_none]
      intro hsome
      rcases hbelow _ hpre hsome with heq | ⟨a', heq⟩
      · exact absurd (congrArg List.length heq) (by simp)
      · exact absurd (congrArg List.length heq) (by simp)
    rcases hbelow q (List.prefix_refl q) (Option.isSome_of_eq_some hq.2.2) with rfl | ⟨a, rfl⟩
    · exact .inl ⟨rfl, fun a b => hnone a b (List.prefix_append ..)⟩
    · exact .inr ⟨a, rfl, fun b => hnone a b ⟨[b], by simp⟩⟩
  · intro hlisted pid path hpath hpass
    obtain ⟨q, hq, rest, rfl⟩ := (passes_iff hfilter pid hpath).mp hpass
    rw [whitelisted_iff htarget pid hpath]
    rcases hlisted q hq with ⟨rfl, hnone⟩ | ⟨a, rfl, hnone⟩
    · rcases below_cases hpath hnone with rfl | ⟨a, rfl⟩
      · exact .inl (List.append_nil q)
      · exact .inr ⟨a, rfl⟩
    · have hrest : rest = [] := by
        cases rest with
        | nil => rfl
        | cons b rest =>
            have hsome : (h.inode (target ++ [a, b])).isSome :=
              prefix_isSome ⟨rest, by simp⟩ hpath
            rw [hnone b] at hsome
            cases hsome
      exact .inr ⟨a, by rw [hrest, List.append_nil]⟩

/-! ### Two hierarchies -/

theorem toNat_number {dirs : List (List String)} (hlength : dirs.length < 2 ^ 64 - 1)
    {path : List String} (hmem : path ∈ dirs) :
    (UInt64.ofNat (dirs.idxOf path + 1)).toNat = dirs.idxOf path + 1 := by
  have hlt := List.idxOf_lt_length_of_mem hmem
  apply UInt64.toNat_ofNat_of_lt'
  show dirs.idxOf path + 1 < 2 ^ 64
  omega

/-- The hierarchy with these directories, numbered from one. -/
def ofDirs (dirs : List (List String)) (hparent : ∀ d ∈ dirs, d.dropLast ∈ dirs)
    (hlength : dirs.length < 2 ^ 64 - 1) : Hierarchy where
  inode path := if path ∈ dirs then some (.ofNat (dirs.idxOf path + 1)) else none
  entries path := (dirs.filter fun d => d ≠ [] ∧ d.dropLast = path).map
    fun d => { name := d.getLastD "", isDir := true }
  parent path name := by
    simp only [Option.isSome_ite]
    intro hmem
    have hdrop := hparent _ hmem
    rwa [List.dropLast_concat] at hdrop
  mem_entries path name := by
    simp only [Option.isSome_ite, List.mem_map, List.mem_filter, DirEntry.mk.injEq, and_true,
      decide_eq_true_eq]
    constructor
    · intro hmem
      exact ⟨path ++ [name], ⟨hmem, by simp, List.dropLast_concat⟩, by simp⟩
    · rintro ⟨d, ⟨hmem, hne, rfl⟩, rfl⟩
      rwa [List.getLastD_eq_getLast?, List.getLast?_eq_getLast_of_ne_nil hne, Option.getD_some,
        List.dropLast_append_getLast hne]
  nonzero path hzero := by
    split_ifs at hzero with hmem
    have hnat := congrArg UInt64.toNat (Option.some.inj hzero)
    rw [toNat_number hlength hmem] at hnat
    cases hnat
  injective path path' ino hpath hpath' := by
    split_ifs at hpath hpath' with hmem hmem'
    have hnat := congrArg UInt64.toNat (Option.some.inj (hpath.trans hpath'.symm))
    rw [toNat_number hlength hmem, toNat_number hlength hmem'] at hnat
    exact (List.idxOf_inj hmem).mp (Nat.succ.inj hnat)

/-- A container in the target path. -/
def flat : Hierarchy :=
  ofDirs [[], ["gocker"], ["gocker", "web"]] (by decide) (by decide)

/-- A container that has made a cgroup of its own. -/
def nested : Hierarchy :=
  ofDirs [[], ["gocker"], ["gocker", "web"], ["gocker", "web", "init"]] (by decide) (by decide)

/-- A hierarchy without anything below the containers. -/
theorem selected_iff_flat :
    (collectAllowed flat.sight ["gocker"]).2 = [] ∧ (flat.startCfg 1 ["gocker"]).enableFilter ≠ 0 ∧
      ((∀ pid path, (flat.inode path).isSome →
          inTargetSubtreeCurrent (flat.startCfg 1 ["gocker"]) (flat.task pid path) = true →
          (((collectAllowed flat.sight ["gocker"]).1.getD []).path
            (flat.task pid path).cgroupID).isSome) ↔
        flat.Listed ["gocker"] (flat.startCfg 1 ["gocker"])) :=
  have hrun : (collectAllowed flat.sight ["gocker"]).2 = [] := by decide
  have hfilter : (flat.startCfg 1 ["gocker"]).enableFilter ≠ 0 := by decide
  ⟨hrun, hfilter, selected_iff hrun hfilter⟩

/-- A task in the inner cgroup passes the filter of the initial configuration, and its cgroup
is not in the whitelist. -/
theorem nested_not_whitelisted :
    (collectAllowed nested.sight ["gocker"]).2 = [] ∧
      ¬ ∀ pid path, (nested.inode path).isSome →
        inTargetSubtreeCurrent (nested.startCfg 1 ["gocker"]) (nested.task pid path) = true →
        (((collectAllowed nested.sight ["gocker"]).1.getD []).path
          (nested.task pid path).cgroupID).isSome := by
  refine ⟨by decide, fun hall => ?_⟩
  have hpass := hall 7 ["gocker", "web", "init"] (by decide) (by decide)
  have hnone : ((collectAllowed nested.sight ["gocker"]).1.getD []).path
      (nested.task 7 ["gocker", "web", "init"]).cgroupID = none := by decide
  rw [hnone] at hpass
  cases hpass

end Hierarchy

end Gocker.Obsv
