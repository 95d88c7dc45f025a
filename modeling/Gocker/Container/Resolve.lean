import Gocker.Config
import Gocker.Container.Host
import Gocker.Container.RecordFile
import Gocker.Lib.FirstMatch

/-!
# Identifiers

A container is named by its ID, its name or a prefix of its ID.  Two functions look an
identifier up in the storage directory: `findContainerInfo` (`stop`, `start`, `exec`,
`adjust`) takes the first record that matches, `ResolveContainer` (`rm`) collects all that
match and wants exactly one.

Both go through the directory as `os.ReadDir` lists it, and skip what is no directory or
has no readable `config.json`; the failure of `ReadDir` itself is the outer `Except`.
The lookup of the host is the first of the two (`findContainerInfo_host`).

### Priority

Both functions test the id, the name and the prefix of one record before they look at the next
one, so a record further back never gets a chance against a weaker match further ahead.  The
comment in `findContainerInfo` names the three in the order of their strength, and
`priority_iff` says for which directories this is what happens.
-/

namespace Gocker.Container

open FirstMatch (onlyMatch BestFirst find?_eq_onlyMatch_iff find?_best_iff)

/-! ## The storage directory -/

/-- An entry of the storage directory, with the text of its `config.json` if there is
one that can be read. -/
structure DirEntry where
  name : String
  isDir : Bool
  config : Option (List Char)

/-- What `os.ReadDir` of the storage directory has given, or the text of its error. -/
abbrev Listing := Except String (List DirEntry)

/-- The record of an entry, for the loops that skip an entry without one. -/
def DirEntry.record (f : DirEntry) : Option ContainerInfo :=
  if f.isDir then f.config.bind loadRecord else none

/-- The records that can be read, in the order of the directory. -/
def records (files : List DirEntry) : List ContainerInfo := files.filterMap DirEntry.record

/-! ## The two lookups -/

/-- The condition of `findContainerInfo`, with its slice of the ID. -/
def ContainerInfo.found (info : ContainerInfo) (identifier : String) : Bool :=
  info.id == identifier || info.name == identifier ||
    (decide (identifier.toList.length ≤ info.id.toList.length) &&
      info.id.toList.take identifier.toList.length == identifier.toList)

/-- The loop of `findContainerInfo`: the first record that is found under the identifier, where
an entry without a record is passed over. -/
def findLoop (identifier : String) : List DirEntry → Except String ContainerInfo
  | [] => .error ("找不到容器: " ++ identifier)
  | f :: files =>
      match f.record with
      | none => findLoop identifier files
      | some info =>
          if ContainerInfo.found info identifier then .ok info else findLoop identifier files

/-- `findContainerInfo` (`internal/container/manager.go`), which `stop`, `start`, `exec` and
`adjust` use: the first match is taken, and further ones are not looked at. -/
def findContainerInfo (files : Listing) (identifier : String) : Except String ContainerInfo :=
  match files with
  | .error e => .error ("讀取容器儲存目錄失敗: " ++ e)
  | .ok files => findLoop identifier files

/-- `ListContainers` -/
def listContainers (files : Listing) : Except String (List ContainerInfo) :=
  match files with
  | .error e => .error ("讀取容器儲存目錄失敗: " ++ e)
  | .ok files => .ok (records files)

/-- The condition of `ResolveContainer`, with `strings.HasPrefix`. -/
def ContainerInfo.resolves (c : ContainerInfo) (identifier : String) : Bool :=
  c.id == identifier || c.name == identifier || identifier.toList.isPrefixOf c.id.toList

/-- `ResolveContainer` (`pkg/common.go`), which `rm` uses: all matches are collected, and there
has to be exactly one. -/
def resolveContainer (files : Listing) (identifier : String) : Except String ContainerInfo :=
  match listContainers files with
  | .error e => .error ("failed to list containers: " ++ e)
  | .ok containers =>
      match containers.filter (ContainerInfo.resolves · identifier) with
      | [] => .error ("cannot find container: " ++ identifier)
      | [c] => .ok c
      | _ => .error ("found multiple containers matching " ++ identifier ++
          ", please specify a more precise ID")

/-- The condition of the host's lookup is that of both functions. -/
theorem found_eq_matches (info : ContainerInfo) (identifier : String) :
    ContainerInfo.found info identifier = ContainerInfo.matches info identifier := by
  rw [ContainerInfo.found, ContainerInfo.matches]
  congr 1
  rw [Bool.eq_iff_iff, Bool.and_eq_true, decide_eq_true_eq, beq_iff_eq, List.isPrefixOf_iff_prefix,
    List.prefix_iff_eq_take]
  constructor
  · rintro ⟨-, heq⟩
    exact heq.symm
  · intro heq
    refine ⟨?_, heq.symm⟩
    have hlen := congrArg List.length heq
    rw [List.length_take] at hlen
    omega

/-- The two functions test a record alike, although each has its own test. -/
theorem resolves_eq_matches (c : ContainerInfo) (identifier : String) :
    ContainerInfo.resolves c identifier = ContainerInfo.matches c identifier := rfl

/-! ## Each lookup in terms of the records -/

/-- The first lookup takes the first record that matches. -/
theorem findContainerInfo_eq (files : List DirEntry) (identifier : String) :
    (findContainerInfo (.ok files) identifier).toOption =
      (records files).find? (ContainerInfo.matches · identifier) := by
  rw [findContainerInfo, records]
  induction files with
  | nil => rfl
  | cons f files ih =>
      rw [findLoop]
      cases hrecord : f.record with
      | none => rw [List.filterMap_cons_none hrecord, ← ih]
      | some info =>
          rw [List.filterMap_cons_some hrecord, List.find?_cons, ← ih]
          simp only [found_eq_matches]
          cases ContainerInfo.matches info identifier <;> rfl

theorem resolveContainer_eq (files : List DirEntry) (identifier : String) :
    (resolveContainer (.ok files) identifier).toOption =
      onlyMatch (ContainerInfo.matches · identifier) (records files) := by
  simp only [resolveContainer, listContainers, resolves_eq_matches, onlyMatch]
  rcases (records files).filter (ContainerInfo.matches · identifier) with
    _ | ⟨c, _ | ⟨d, cs⟩⟩ <;> rfl

/-- The directory of a host, with the records that are in it. -/
def Host.files (s : Host) (skip : List ContainerID) : List DirEntry :=
  s.dirs.map fun d =>
    { name := d
      isDir := true
      config := if d ∈ skip then none else (s.world.config d).map encodeRecord }

/-- **The host's lookup is `findContainerInfo`** on its directory. -/
theorem findContainerInfo_host (s : Host) (skip : List ContainerID) (identifier : String)
    (h : ∀ d r, s.world.config d = some r → Representable r) :
    (findContainerInfo (.ok (s.files skip)) identifier).toOption =
      s.findContainerInfo skip identifier := by
  rw [findContainerInfo_eq, Host.findContainerInfo, records, Host.files]
  generalize s.dirs = dirs
  induction dirs with
  | nil => rfl
  | cons d dirs ih =>
      rw [List.map_cons, List.findSome?_cons]
      split_ifs with hskip
      · rw [List.filterMap_cons_none (by simp [DirEntry.record]), ih]
      · cases hr : s.world.config d with
        | none => rw [List.filterMap_cons_none (by simp [DirEntry.record]), ih]; rfl
        | some r =>
            have hload :
                DirEntry.record { name := d, isDir := true, config := some (encodeRecord r) } =
                  some r := by
              simp [DirEntry.record, loadRecord_encodeRecord (h d r hr)]
            rw [Option.map_some, List.filterMap_cons_some hload, List.find?_cons, ih]
            cases hmatches : ContainerInfo.matches r identifier <;> simp [Option.filter, hmatches]

/-! ## Agreement -/

/-- The records an identifier matches. -/
def matching (files : List DirEntry) (identifier : String) : List ContainerInfo :=
  (records files).filter (ContainerInfo.matches · identifier)

/-- Both lookups give the container that matches, where exactly one does, and an error
otherwise. -/
def LookupsAgree (files : List DirEntry) (identifier : String) : Prop :=
  (findContainerInfo (.ok files) identifier).toOption =
      onlyMatch (ContainerInfo.matches · identifier) (records files) ∧
    (resolveContainer (.ok files) identifier).toOption =
      onlyMatch (ContainerInfo.matches · identifier) (records files)

/-- **The lookups agree** if and only if the identifier matches at most one record:
`findContainerInfo` takes the first match, `ResolveContainer` wants a single one. -/
theorem lookups_agree_iff (files : List DirEntry) (identifier : String) :
    LookupsAgree files identifier ↔ (matching files identifier).length ≤ 1 := by
  rw [LookupsAgree, findContainerInfo_eq, find?_eq_onlyMatch_iff, matching]
  exact and_iff_left (resolveContainer_eq files identifier)

/-- A directory with this record in it. -/
def entryOf (r : ContainerInfo) : DirEntry :=
  { name := r.id, isDir := true, config := some (encodeRecord r) }

/-- The records of a directory that has been written with these records. -/
theorem records_entryOf {rs : List ContainerInfo} (h : ∀ r ∈ rs, Representable r) :
    records (rs.map entryOf) = rs := by
  induction rs with
  | nil => rfl
  | cons r rs ih =>
      have hr : (entryOf r).record = some r := by
        simp [entryOf, DirEntry.record, loadRecord_encodeRecord (h r List.mem_cons_self)]
      have ih := ih fun r hr => h r (List.mem_cons_of_mem _ hr)
      rw [records] at ih
      rw [List.map_cons, records, List.filterMap_cons_some hr, ih]

/-- A running container with this ID and name. -/
def named (id name : String) : ContainerInfo :=
  { zeroInfo with id := id, name := name, pid := 7, status := .running }

/-- A record that differs from an empty one in its id and name can be written and read back. -/
theorem representable_named (id name : String) : Representable (named id name) :=
  ⟨(by decide : Json.isInt (7 : ℕ) = true), (by decide : Json.isInt 0 = true),
    (by decide : Json.isInt 0 = true), (by decide : Json.isInt 0 = true),
    (by decide : statusOf (statusText .running) = .running)⟩

/-- **A prefix of two IDs**: `findContainerInfo` takes the first of the two containers,
`ResolveContainer` reports an error. -/
theorem prefix_ambiguous :
    ∃ files : List DirEntry,
      (findContainerInfo (.ok files) "a").toOption = some (named "a1" "web") ∧
        (resolveContainer (.ok files) "a").toOption = none := by
  obtain ⟨files, hrecords⟩ : ∃ files, records files = [named "a1" "web", named "a2" "db"] := by
    refine ⟨_, records_entryOf fun r hr => ?_⟩
    simp only [List.mem_cons, List.not_mem_nil, or_false] at hr
    rcases hr with rfl | rfl <;> exact representable_named ..
  refine ⟨files, ?_, ?_⟩
  · rw [findContainerInfo_eq, hrecords]
    decide
  · rw [resolveContainer_eq, hrecords]
    decide

/-! ## Priority -/

/-- How a record matches: by its full ID, by its name, or by a prefix of its ID. -/
def matchRank (identifier : String) (info : ContainerInfo) : ℕ :=
  if info.id = identifier then 0 else if info.name = identifier then 1 else 2

/-- The order of the comment, full ID, then name, then ID prefix: what is found has the
full ID if a record has, otherwise the name if a record has, and otherwise the prefix. -/
structure Prioritised (rs : List ContainerInfo) (identifier : String)
    (found : Option ContainerInfo) : Prop where
  fullID : (∃ r ∈ rs, r.id = identifier) → ∃ x ∈ rs, found = some x ∧ x.id = identifier
  name : (∀ r ∈ rs, r.id ≠ identifier) → (∃ r ∈ rs, r.name = identifier) →
    ∃ x ∈ rs, found = some x ∧ x.name = identifier
  idPrefix : (∀ r ∈ rs, r.id ≠ identifier ∧ r.name ≠ identifier) →
    (∃ r ∈ rs, identifier.toList <+: r.id.toList) →
      ∃ x ∈ rs, found = some x ∧ identifier.toList <+: x.id.toList

/-- In the order of the directory, every record that matches in a weaker way than another
has one in front of it that matches in the strongest way. -/
def StrongestFirst (rs : List ContainerInfo) (identifier : String) : Prop :=
  BestFirst (ContainerInfo.matches · identifier) (matchRank identifier) rs

/-- The test in terms of texts: equal to the id or the name, or a prefix of the id. -/
theorem matches_iff (info : ContainerInfo) (identifier : String) :
    ContainerInfo.matches info identifier = true ↔
      info.id = identifier ∨ info.name = identifier ∨ identifier.toList <+: info.id.toList := by
  simp [ContainerInfo.matches, or_assoc]

/-- The first match is the strongest one if and only if the records stand in such an order. -/
theorem prioritised_iff (rs : List ContainerInfo) (identifier : String) :
    Prioritised rs identifier (rs.find? (ContainerInfo.matches · identifier)) ↔
      StrongestFirst rs identifier := by
  rw [StrongestFirst, ← find?_best_iff]
  constructor
  · intro h x hx y hy hmatches
    have same : ∀ {z}, rs.find? (ContainerInfo.matches · identifier) = some z → z = x :=
      fun hz => Option.some.inj (hz.symm.trans hx)
    simp only [matchRank]
    by_cases hid : ∃ r ∈ rs, r.id = identifier
    · obtain ⟨z, -, hz, hzid⟩ := h.fullID hid
      obtain rfl := same hz
      simp [hzid]
    push Not at hid
    by_cases hname : ∃ r ∈ rs, r.name = identifier
    · obtain ⟨z, -, hz, hzname⟩ := h.name hid hname
      obtain rfl := same hz
      simp only [hid y hy, hzname, if_false, if_true]
      split_ifs <;> omega
    · push Not at hname
      simp only [hid y hy, hname y hy, if_false]
      split_ifs <;> omega
  · intro h
    -- where a record matches, the first that does is at least as good
    have found : ∀ {y}, y ∈ rs → ContainerInfo.matches y identifier → ∃ x ∈ rs,
        rs.find? (ContainerInfo.matches · identifier) = some x ∧
          ContainerInfo.matches x identifier ∧
          matchRank identifier x ≤ matchRank identifier y := by
      intro y hy hmatches
      obtain ⟨x, hx⟩ : ∃ x, rs.find? (ContainerInfo.matches · identifier) = some x := by
        rw [← Option.isSome_iff_exists, List.find?_isSome]
        exact ⟨y, hy, hmatches⟩
      have hmatch := List.find?_some hx
      exact ⟨x, List.mem_of_find?_eq_some hx, hx, hmatch, h x hx y hy hmatches⟩
    refine ⟨?_, ?_, ?_⟩
    · rintro ⟨r, hr, hid⟩
      obtain ⟨x, hxs, hx, -, hrank⟩ := found hr ((matches_iff r identifier).mpr (.inl hid))
      refine ⟨x, hxs, hx, ?_⟩
      by_contra hne
      simp only [matchRank, hid, hne, if_true, if_false] at hrank
      split_ifs at hrank <;> omega
    · rintro hid ⟨r, hr, hname⟩
      obtain ⟨x, hxs, hx, -, hrank⟩ :=
        found hr ((matches_iff r identifier).mpr (.inr (.inl hname)))
      refine ⟨x, hxs, hx, ?_⟩
      by_contra hne
      simp only [matchRank, hid r hr, hid x hxs, hname, hne, if_true, if_false] at hrank
      omega
    · rintro hnone ⟨r, hr, hprefix⟩
      obtain ⟨x, hxs, hx, hmatches, -⟩ :=
        found hr ((matches_iff r identifier).mpr (.inr (.inr hprefix)))
      rcases (matches_iff x identifier).mp hmatches with hid | hname | hprefix
      · exact absurd hid (hnone x hxs).1
      · exact absurd hname (hnone x hxs).2
      · exact ⟨x, hxs, hx, hprefix⟩

/-! ## Stopping all containers -/

/-- The loop of `StopAllContainers`: the ID of each running container, with what
`StopContainer` finds for it.  An ID with less than twelve bytes ends the loop, its slice
`c.ID[:12]` for the log being out of range.  What `StopContainer` rewrites in a record
(status, PID and time) no lookup looks at. -/
def stopLoop (files : Listing) : List ContainerInfo →
    List (ContainerID × Except String ContainerInfo)
  | [] => []
  | c :: cs =>
      if c.status = .running then
        if c.id.utf8ByteSize < 12 then []
        else (c.id, findContainerInfo files c.id) :: stopLoop files cs
      else stopLoop files cs

/-- `Manager.List` -/
def list (files : Listing) : Except String (List ContainerInfo) :=
  match files with
  | .error e => .error ("讀取容器儲存目錄 " ++ Config.containerStoragePath ++ " 失敗: " ++ e)
  | .ok files => .ok (records files)

/-- `StopAllContainers`: the containers are listed, and each one that runs and whose id is long
enough is stopped under its id, which is looked up again. -/
def stopAllContainers (files : Listing) :
    Except String (List (ContainerID × Except String ContainerInfo)) :=
  match list files with
  | .error e => .error ("獲取容器列表失敗: " ++ e)
  | .ok containers => .ok (stopLoop files containers)

/-- What is stopped is one of the listed containers, under its id. -/
theorem mem_stopLoop {files : Listing} {cs : List ContainerInfo}
    {t : ContainerID × Except String ContainerInfo} (h : t ∈ stopLoop files cs) :
    ∃ c ∈ cs, t = (c.id, findContainerInfo files c.id) := by
  induction cs with
  | nil => cases h
  | cons c cs ih =>
      rw [stopLoop] at h
      split_ifs at h
      · cases h
      · rcases List.mem_cons.mp h with rfl | h
        · exact ⟨c, List.mem_cons_self, rfl⟩
        · obtain ⟨d, hd, rfl⟩ := ih h
          exact ⟨d, List.mem_cons_of_mem _ hd, rfl⟩
      · obtain ⟨d, hd, rfl⟩ := ih h
        exact ⟨d, List.mem_cons_of_mem _ hd, rfl⟩

/-- A running container with a long id is stopped. -/
theorem stopLoop_running {files : Listing} {c : ContainerInfo} {cs : List ContainerInfo}
    (hrunning : c.status = .running) (hlong : ¬ c.id.utf8ByteSize < 12) :
    stopLoop files (c :: cs) = (c.id, findContainerInfo files c.id) :: stopLoop files cs := by
  rw [stopLoop, if_pos hrunning, if_neg hlong]

/-- Every container that is stopped is the listed one. -/
def StopsListed (files : List DirEntry) : Prop :=
  ∀ stopped, stopAllContainers (.ok files) = .ok stopped →
    ∀ t ∈ stopped, ∃ x, t.2 = .ok x ∧ x.id = t.1

/-- The stops are of the listed containers if and only if each lookup finds its own. -/
theorem stopsListed_iff (files : List DirEntry) : StopsListed files ↔
    ∀ t ∈ stopLoop (.ok files) (records files), ∃ x, t.2 = .ok x ∧ x.id = t.1 := by
  simp [StopsListed, stopAllContainers, list]

/-- The full ID of a record finds a record with this ID if and only if such a record comes
before all that match it as a name or a prefix. -/
theorem found_by_id_iff {files : List DirEntry} {c : ContainerInfo} (hc : c ∈ records files) :
    (∃ x, findContainerInfo (.ok files) c.id = .ok x ∧ x.id = c.id) ↔
      StrongestFirst (records files) c.id := by
  have toOption : ∀ {x}, findContainerInfo (.ok files) c.id = .ok x ↔
      (records files).find? (ContainerInfo.matches · c.id) = some x := by
    intro x
    rw [← findContainerInfo_eq]
    cases findContainerInfo (.ok files) c.id <;> simp [Except.toOption]
  constructor
  · rintro ⟨x, hx, hid⟩
    rw [StrongestFirst, ← find?_best_iff]
    intro y hy z _ _
    obtain rfl := Option.some.inj ((toOption.mp hx).symm.trans hy)
    simp [matchRank, hid]
  · intro h
    obtain ⟨x, -, hx, hid⟩ := ((prioritised_iff _ _).mpr h).fullID ⟨c, hc, rfl⟩
    exact ⟨x, toOption.mpr hx, hid⟩

/-- **The priority of full IDs over names over prefixes** is kept for an identifier if and
only if no record that matches it in a weaker way comes before all that match it in the
strongest way; and `StopAllContainers` acts on the listed containers if and only if this
is so for their IDs. -/
theorem priority_iff (files : List DirEntry) :
    (∀ identifier, Prioritised (records files) identifier
        (findContainerInfo (.ok files) identifier).toOption ↔
      StrongestFirst (records files) identifier) ∧
    (StopsListed files ↔
      ∀ t ∈ stopLoop (.ok files) (records files), StrongestFirst (records files) t.1) := by
  constructor
  · intro identifier
    rw [findContainerInfo_eq, prioritised_iff]
  · rw [stopsListed_iff]
    refine forall₂_congr fun t ht => ?_
    obtain ⟨c, hc, rfl⟩ := mem_stopLoop ht
    exact found_by_id_iff hc

/-- **A container named like another's ID** is taken for it, where its own ID comes first in
the directory: stopping all containers does not stop the other one. -/
theorem name_before_id :
    ∃ files : List DirEntry,
      named "b00000000000" "db" ∈ records files ∧
        (findContainerInfo (.ok files) "b00000000000").toOption =
          some (named "a00000000000" "b00000000000") ∧
        ¬ StopsListed files := by
  obtain ⟨files, hrecords⟩ : ∃ files, records files =
      [named "a00000000000" "b00000000000", named "b00000000000" "db"] := by
    refine ⟨_, records_entryOf fun r hr => ?_⟩
    simp only [List.mem_cons, List.not_mem_nil, or_false] at hr
    rcases hr with rfl | rfl <;> exact representable_named ..
  have hfound : (findContainerInfo (.ok files) "b00000000000").toOption =
      some (named "a00000000000" "b00000000000") := by
    rw [findContainerInfo_eq, hrecords]
    decide
  refine ⟨files, hrecords ▸ by simp, hfound, fun hstops => ?_⟩
  rw [stopsListed_iff, hrecords] at hstops
  have hlong : ¬ "a00000000000".utf8ByteSize < 12 ∧ ¬ "b00000000000".utf8ByteSize < 12 := by
    decide
  have hlast : ("b00000000000", findContainerInfo (.ok files) "b00000000000") ∈
      stopLoop (.ok files) [named "a00000000000" "b00000000000", named "b00000000000" "db"] := by
    rw [stopLoop_running rfl hlong.1, stopLoop_running rfl hlong.2]
    exact List.mem_cons_of_mem _ List.mem_cons_self
  obtain ⟨x, hx, hid⟩ := hstops _ hlast
  have hx : findContainerInfo (.ok files) "b00000000000" = .ok x := hx
  rw [hx] at hfound
  obtain rfl := Option.some.inj hfound
  have hne : "a00000000000" ≠ "b00000000000" := by decide
  exact hne hid

end Gocker.Container
