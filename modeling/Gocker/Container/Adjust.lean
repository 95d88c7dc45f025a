import Gocker.Lib.Machine
import Gocker.Container.RecordUpdate
import Gocker.Container.Steps

/-!
# Adjusting the limits of a running container

`AdjustResourceLimits` writes the control files of the cgroup one after the other, leaves those
alone whose limit is not positive, and then writes the merged limits into the record as they are.

* `failed_adjust_iff` says when a failed adjust has changed nothing: none of the writes is undone.
* `limits_enforced_iff` says when the recorded limits are the enforced ones after every adjust of
  a sequence: a limit that has been positive stays in its control file when the record gives it
  up, and the CPU quota wraps.

Both are about the files, `Files.adjustResourceLimits`, with the errors of each write; the steps
of a host do the same to its records and cgroups (`adjust_host`).

### The order of the writes

`setResourceLimits` writes `cpu.max`, `memory.max` and `pids.max`, in this order, and returns at
the first error.  The record is written after them.  So a failed adjust has made some number of
the four writes, and `failed_adjust_iff` says for each number when the files are as before: when
the writes that were made have written what was there.

A limit that is not positive is not written.  There is no way back to `max`: a later adjust with
−1 (`InvalidLimit`) keeps the limit of the record, and with 0 or another negative number it
changes the record and not the file.
-/

namespace Gocker.Container

open Machine
open Json (Bytes)

/-! ## The control files -/

/-- The three control files that the program writes. -/
inductive Control where
  | cpu
  | memory
  | pids
deriving DecidableEq, Repr

namespace Control

/-- In the order in which it writes them. -/
def all : List Control := [.cpu, .memory, .pids]

theorem mem_all (x : Control) : x ∈ all := by
  cases x <;> decide

/-- Their names in the directory of the cgroup. -/
def fileName : Control → String
  | .cpu => "cpu.max"
  | .memory => "memory.max"
  | .pids => "pids.max"

/-- The limit for the control file. -/
def limit (limits : ContainerLimits) : Control → Int
  | .cpu => limits.cpuLimit
  | .memory => limits.memoryLimit
  | .pids => limits.pidsLimit

/-- What `setResourceLimits` writes. -/
def text (limits : ContainerLimits) : Control → String
  | .cpu => toString (wrapInt (limits.cpuLimit * 100000)) ++ " 100000"
  | .memory => toString limits.memoryLimit
  | .pids => toString limits.pidsLimit

/-- What the control file holds, if anything has been written to it. -/
def contents (g : Cgroup) : Control → Option String
  | .cpu => g.cpuMax
  | .memory => g.memoryMax
  | .pids => g.pidsMax

/-- A write to the control file. -/
def write (t : String) (g : Cgroup) : Control → Cgroup
  | .cpu => { g with cpuMax := some t }
  | .memory => { g with memoryMax := some t }
  | .pids => { g with pidsMax := some t }

theorem contents_write (t : String) (g : Cgroup) (x y : Control) :
    y.contents (x.write t g) = if y = x then some t else y.contents g := by
  cases x <;> cases y <;> rfl

end Control

/-- The control files that `setResourceLimits` writes, in order. -/
def limitFiles (limits : ContainerLimits) : List Control :=
  Control.all.filter fun x => decide (0 < x.limit limits)

theorem mem_limitFiles {limits : ContainerLimits} {x : Control} :
    x ∈ limitFiles limits ↔ 0 < x.limit limits := by
  rw [limitFiles, List.mem_filter, decide_eq_true_eq]
  exact and_iff_right x.mem_all

/-- The writes of the host's model are the writes of these files. -/
theorem limitWrites_eq (limits : ContainerLimits) :
    limitWrites limits = (limitFiles limits).map fun x g => x.write (x.text limits) g := by
  unfold limitWrites limitFiles Control.all
  by_cases hcpu : 0 < limits.cpuLimit <;> by_cases hmemory : 0 < limits.memoryLimit <;>
    by_cases hpids : 0 < limits.pidsLimit <;>
      simp [Control.limit, Control.write, Control.text, hcpu, hmemory, hpids]

/-- **The control files after the first `n` writes.** -/
theorem contents_setResourceLimits (n : ℕ) (limits : ContainerLimits) (g : Cgroup) (x : Control) :
    x.contents (setResourceLimits n limits g) =
      if x ∈ (limitFiles limits).take n then some (x.text limits) else x.contents g := by
  have writes : ∀ (xs : List Control) (g : Cgroup),
      x.contents ((xs.map fun x g => x.write (x.text limits) g).foldl (fun g write => write g) g) =
        if x ∈ xs then some (x.text limits) else x.contents g := by
    intro xs
    induction xs with
    | nil => exact fun g => rfl
    | cons y xs ih =>
        intro g
        rw [List.map_cons, List.foldl_cons, ih, Control.contents_write]
        by_cases hx : x ∈ xs
        · rw [if_pos hx, if_pos (List.mem_cons_of_mem _ hx)]
        · rw [if_neg hx]
          by_cases hy : x = y
          · subst hy
            rw [if_pos rfl, if_pos List.mem_cons_self]
          · rw [if_neg hy, if_neg (by simp [hx, hy])]
  rw [setResourceLimits, limitWrites_eq, ← List.map_take, writes]

theorem length_limitFiles_le (limits : ContainerLimits) : (limitFiles limits).length ≤ 3 :=
  List.length_filter_le ..

/-- All the writes. -/
theorem contents_setResourceLimits_all (limits : ContainerLimits) (g : Cgroup) (x : Control) :
    x.contents (setResourceLimits 3 limits g) =
      if 0 < x.limit limits then some (x.text limits) else x.contents g := by
  rw [contents_setResourceLimits, List.take_of_length_le (length_limitFiles_le limits)]
  simp only [mem_limitFiles]

/-! ## The adjust -/

/-- The files that an adjust reads and writes: the record of the container, and the cgroups. -/
structure Files where
  config : Bytes
  cgroups : Cgroups

/-- The write that fails: to a control file, after `n` of them, or of the record. -/
inductive Trouble where
  | limit (n : ℕ)
  | record (reached : Reached)

/-- The control file whose write fails, if it is written at all. -/
def Trouble.control (limits : ContainerLimits) : Option Trouble → Option (ℕ × Control)
  | some (.limit n) => (limitFiles limits)[n]?.map fun x => (n, x)
  | _ => none

/-- The record with the merged limits. -/
def merged (info : ContainerInfo) (limits : ContainerLimits) : ContainerInfo :=
  { info with limits := mergeLimits info.limits limits }

/-- The error of `WriteContainerInfo`. -/
def Reached.error (e : String) : Reached → String
  | .notCreated => "建立 config.json 失敗: " ++ e
  | .wrote _ => e

namespace Files

/-- `cgroupPath` -/
def cgroupPath (s : Files) (info : ContainerInfo) : Option String :=
  if (s.cgroups info.id).isSome then some info.id
  else if 0 < info.pid ∧ (s.cgroups (Nat.repr info.pid)).isSome then some (Nat.repr info.pid)
  else none

/-- The files after the first `n` writes of `setResourceLimits`. -/
def limited (s : Files) (name : String) (n : ℕ) (limits : ContainerLimits) : Files :=
  { s with
      cgroups := Function.update s.cgroups name
        ((s.cgroups name).map (setResourceLimits n limits)) }

/-- `AdjustResourceLimits` on what `findContainerInfo` has found; the environment decides which
write fails, and with which error. -/
def adjustResourceLimits (s : Files) (found : Except String ContainerInfo) (identifier : String)
    (limits : ContainerLimits) (trouble : Option Trouble) (e : String) : Files × Option String :=
  match found with
  | .error e' => (s, some ("找不到容器資訊: " ++ e'))
  | .ok info =>
      if info.status ≠ .running then
        (s, some ("容器 " ++ identifier ++ " 不在運行狀態，目前狀態為: " ++ statusText info.status))
      else
        let r := merged info limits
        match s.cgroupPath info with
        | none => (s, some ("cgroup path not found for container " ++ info.id))
        | some name =>
            match Trouble.control r.limits trouble with
            | some (n, x) =>
                (s.limited name n r.limits,
                  some ("調整資源限制失敗: 寫入 " ++ x.fileName ++ " 失敗: " ++ e))
            | none =>
                match trouble with
                | some (.record reached) =>
                    ({ s.limited name 3 r.limits with
                        config := writeContainerInfo s.config r reached },
                      some ("更新容器設定檔失敗: " ++ reached.error e))
                | _ => ({ s.limited name 3 r.limits with config := recordBytes r }, none)

end Files

/-! ### The steps of a host -/

/-- What the stages of an adjust go like, with the record `r` to be written. -/
def Trouble.events (k : CallId) (r : ContainerInfo) (trouble : Option Trouble) : List Event :=
  match Trouble.control r.limits trouble with
  | some (n, _) => [.step k (.fails n)]
  | none =>
      match trouble with
      | some (.record reached) => [.step k .ok, .step k (reached.outcome r)]
      | _ => [.step k .ok, .step k .ok]

theorem World.written_cgroups {w w' : World} {d : ContainerID} {r : ContainerInfo} {o : Outcome}
    (h : w.written d r o = some w') : w'.cgroups = w.cgroups := by
  unfold World.written at h
  split at h <;> cases h <;> rfl

section
variable {s : Host} {k : CallId} {c : Call} {name : String}

/-- The control files in an adjust that goes on, and in one that gives up. -/
theorem Host.step_setResourceLimits (hk : s.calls k = some c)
    (htodo : c.todo = [.setResourceLimits, .write .limits]) (hchild : c.child = none)
    (hpath : s.world.cgroupPath c.info = some name) :
    (∃ t, s.step (.step k .ok) = some t ∧ t.calls k = some { c with todo := [.write .limits] } ∧
      t.world = s.world.setCgroup name
        ((s.world.cgroups name).map (setResourceLimits 3 c.info.limits))) ∧
    ∀ n, ∃ t, s.step (.step k (.fails n)) = some t ∧
      t.world = s.world.setCgroup name
        ((s.world.cgroups name).map (setResourceLimits n c.info.limits)) := by
  simp only [Host.step, hk, Option.bind_some, htodo, perform, hpath, Option.map_some]
  refine ⟨⟨_, rfl, ?_, rfl⟩, fun n => ⟨_, rfl, ?_⟩⟩
  · rw [Host.resume_goOn_calls, if_neg (List.cons_ne_nil _ _)]
  · show World.kill _ c.child = _
    rw [hchild]
    rfl

/-- The write of the record, as the last stage of a call that has no child. -/
theorem Host.step_write_limits (hk : s.calls k = some c) (htodo : c.todo = [.write .limits])
    (hchild : c.child = none) {o : Outcome} {w' : World}
    (h : s.world.written c.container c.info o = some w') :
    ∃ t, s.step (.step k o) = some t ∧ t.world = w' := by
  have hrecord : c.record s.clock .limits = c.info := rfl
  simp only [Host.step, hk, Option.bind_some, htodo, perform, hrecord, h, Option.map_some]
  refine ⟨_, rfl, ?_⟩
  cases o with
  | ok | garbled => rfl
  | child p => cases h
  | fails n =>
      show World.kill w' c.child = w'
      rw [hchild]
      rfl

/-- All control files are written, and then the record as far as it gets. -/
theorem Host.exec_adjust (hk : s.calls k = some c)
    (htodo : c.todo = [.setResourceLimits, .write .limits]) (hchild : c.child = none)
    (hpath : s.world.cgroupPath c.info = some name) (hr : Representable c.info) {file : Bytes}
    (hfile : s.world.config c.container = loadFile file) (reached : Reached) :
    ∃ u, exec Host.step s [.step k .ok, .step k (reached.outcome c.info)] = some u ∧
      u.world.cgroups = Function.update s.world.cgroups name
        ((s.world.cgroups name).map (setResourceLimits 3 c.info.limits)) ∧
      u.world.config c.container = loadFile (writeContainerInfo file c.info reached) := by
  obtain ⟨t, ht, hcall, hworld⟩ := (Host.step_setResourceLimits hk htodo hchild hpath).1
  have hconfig : t.world.config c.container = loadFile file := by
    rw [hworld]
    exact hfile
  obtain ⟨w', hw', hfile'⟩ := written_config hr hconfig reached
  obtain ⟨u, hu, huworld⟩ := Host.step_write_limits hcall rfl hchild hw'
  refine ⟨u, ?_, ?_, ?_⟩
  · simp only [exec, ht, hu, Option.bind_some]
  · rw [huworld, World.written_cgroups hw', hworld]
    rfl
  · rw [huworld]
    exact hfile'

end

/-- **A host does to its record and cgroups what the adjust does to the files.** -/
theorem adjust_host {s : Host} {info : ContainerInfo} {limits : ContainerLimits} {file : Bytes}
    (hr : Representable (merged info limits)) (hfile : s.world.config info.id = loadFile file)
    (hrunning : info.status = .running) {name : String}
    (hpath : s.world.cgroupPath info = some name) (identifier : String)
    (trouble : Option Trouble) (e : String) :
    ∃ t, exec Host.step (s.begin .adjustResourceLimits (merged info limits) none)
        (Trouble.events s.nextCall (merged info limits) trouble) = some t ∧
      t.world.cgroups = ((Files.mk file s.world.cgroups).adjustResourceLimits (.ok info)
        identifier limits trouble e).1.cgroups ∧
      t.world.config info.id = loadFile ((Files.mk file s.world.cgroups).adjustResourceLimits
        (.ok info) identifier limits trouble e).1.config := by
  have hk : (s.begin .adjustResourceLimits (merged info limits) none).calls s.nextCall =
      some ⟨.adjustResourceLimits, info.id, [.setResourceLimits, .write .limits],
        merged info limits, none, none, none, ""⟩ :=
    Function.update_self ..
  have hpath' : World.cgroupPath (s.begin .adjustResourceLimits (merged info limits) none).world
      (merged info limits) = some name := hpath
  have hfound : Files.cgroupPath ⟨file, s.world.cgroups⟩ info = some name := hpath
  simp only [Files.adjustResourceLimits, hrunning, not_true_eq_false, ne_eq, if_false, hfound]
  unfold Trouble.events
  cases hcontrol : Trouble.control (merged info limits).limits trouble with
  | some nx =>
      obtain ⟨n, x⟩ := nx
      obtain ⟨u, hu, huworld⟩ := (Host.step_setResourceLimits hk rfl rfl hpath').2 n
      refine ⟨u, ?_, ?_, ?_⟩
      · simp only [exec, hu, Option.bind_some]
      · rw [huworld]
        rfl
      · rw [huworld]
        exact hfile
  | none =>
      have done := Host.exec_adjust hk rfl rfl hpath' hr hfile
      -- without trouble all of the text is written
      have all := done (.wrote (recordBytes (merged info limits)).length)
      rw [Reached.outcome, if_pos (Nat.le_succ _), writeContainerInfo, List.take_length] at all
      cases trouble with
      | none => exact all
      | some trouble =>
          cases trouble with
          | limit n => exact all
          | record reached => exact done reached

/-! ## A failed adjust -/

theorem intLimits_merge {l l' : ContainerLimits} (hl : IntLimits l) (hl' : IntLimits l') :
    IntLimits (mergeLimits l l') := by
  have pick : ∀ {p : Prop} [Decidable p] {a b : Int}, Json.isInt a = true → Json.isInt b = true →
      Json.isInt (if p then a else b) = true := by
    intro p _ a b ha hb
    split_ifs
    · exact ha
    · exact hb
  exact ⟨pick hl.memory hl'.memory, pick hl.pids hl'.pids, pick hl.cpu hl'.cpu⟩

/-- A record that has been read can be written with the merged limits. -/
theorem representable_merged {file : Bytes} {info : ContainerInfo} {limits : ContainerLimits}
    (hfile : loadFile file = some info) (hlimits : IntLimits limits) :
    Representable (merged info limits) := by
  have hinfo : Representable info := representable_of_loadRecord hfile
  exact hinfo.with_limits (intLimits_merge ⟨hinfo.memory, hinfo.pids, hinfo.cpu⟩ hlimits)

/-- The control files are as they were, and so are the recorded limits. -/
structure Files.Unchanged (s t : Files) : Prop where
  control : ∀ name x, (t.cgroups name).map (Control.contents · x) =
    (s.cgroups name).map (Control.contents · x)
  limits : (loadFile t.config).map ContainerInfo.limits =
    (loadFile s.config).map ContainerInfo.limits

/-- The writes before the failing one change nothing: each of these control files holds its text
already, and of the record nothing is written, or all but the last newline, with the limits that
it has. -/
def Harmless (g : Cgroup) (info r : ContainerInfo) : Trouble → Prop
  | .limit n => ∀ x ∈ (limitFiles r.limits).take n, Control.contents g x = some (x.text r.limits)
  | .record reached =>
      (∀ x ∈ limitFiles r.limits, Control.contents g x = some (x.text r.limits)) ∧
        (reached = .notCreated ∨ reached.Whole r ∧ r.limits = info.limits)

section
variable {s : Files} {name : String} {g : Cgroup}

/-- The writes change the control files of the one cgroup, and of no other. -/
theorem Files.limited_self (hg : s.cgroups name = some g) (n : ℕ) (limits : ContainerLimits) :
    (s.limited name n limits).cgroups name = some (setResourceLimits n limits g) := by
  refine (Function.update_self ..).trans ?_
  rw [hg]
  rfl

theorem Files.limited_ne {d : String} (h : d ≠ name) (n : ℕ) (limits : ContainerLimits) :
    (s.limited name n limits).cgroups d = s.cgroups d :=
  Function.update_of_ne h ..

/-- The first writes have changed nothing if and only if each of these files already says what
is written. -/
theorem limited_control_iff (hg : s.cgroups name = some g) (n : ℕ) (limits : ContainerLimits) :
    (∀ d x, ((s.limited name n limits).cgroups d).map (Control.contents · x) =
        (s.cgroups d).map (Control.contents · x)) ↔
      ∀ x ∈ (limitFiles limits).take n, Control.contents g x = some (x.text limits) := by
  have hname := Files.limited_self hg n limits
  constructor
  · intro h x hx
    have hself := h name x
    rw [hname, hg, Option.map_some, Option.map_some, contents_setResourceLimits, if_pos hx] at hself
    exact (Option.some.inj hself).symm
  · intro h d x
    rcases eq_or_ne d name with rfl | hne
    · rw [hname, hg, Option.map_some, Option.map_some, contents_setResourceLimits]
      split_ifs with hx
      · rw [h x hx]
      · rfl
    · rw [Files.limited_ne hne]

/-- The cgroup that is found is there. -/
theorem Files.cgroups_of_path {info : ContainerInfo} (h : s.cgroupPath info = some name) :
    ∃ g, s.cgroups name = some g := by
  unfold Files.cgroupPath at h
  split_ifs at h with hid hpid
  · obtain rfl := Option.some.inj h
    exact Option.isSome_iff_exists.mp hid
  · obtain rfl := Option.some.inj h
    exact Option.isSome_iff_exists.mp hpid.2

/-- The recorded limits after a failed write of the record. -/
theorem loadFile_limits_iff {file : Bytes} {info r : ContainerInfo}
    (hfile : loadFile file = some info) (hr : Representable r) (reached : Reached) :
    (loadFile (writeContainerInfo file r reached)).map ContainerInfo.limits =
        (loadFile file).map ContainerInfo.limits ↔
      reached = .notCreated ∨ reached.Whole r ∧ r.limits = info.limits := by
  cases reached with
  | notCreated => exact iff_of_true rfl (.inl rfl)
  | wrote n =>
      rw [writeContainerInfo, loadFile_wrote hr, hfile]
      split_ifs with hn
      · simp [Reached.Whole, hn]
      · simp [Reached.Whole, hn]

end

/-- **A failed adjust changes nothing** if and only if the writes before the failing one change
nothing. -/
theorem failed_adjust_iff {s : Files} {info : ContainerInfo} {limits : ContainerLimits}
    (hinfo : loadFile s.config = some info) (hlimits : IntLimits limits) {identifier e : String}
    {trouble : Trouble}
    (herror : (s.adjustResourceLimits (.ok info) identifier limits (some trouble) e).2.isSome) :
    s.Unchanged (s.adjustResourceLimits (.ok info) identifier limits (some trouble) e).1 ↔
      (info.status = .running → ∀ name g, s.cgroupPath info = some name →
        s.cgroups name = some g → Harmless g info (merged info limits) trouble) := by
  have same : s.Unchanged s := ⟨fun _ _ => rfl, rfl⟩
  by_cases hrunning : info.status = .running
  · cases hpath : s.cgroupPath info with
    | none =>
        refine iff_of_true ?_ fun _ name g hname => absurd hname nofun
        simp only [Files.adjustResourceLimits, hrunning, not_true_eq_false, ne_eq, if_false, hpath]
        exact same
    | some name =>
        obtain ⟨g, hg⟩ := Files.cgroups_of_path hpath
        have hharmless : (info.status = .running → ∀ name' g', some name = some name' →
            s.cgroups name' = some g' → Harmless g' info (merged info limits) trouble) ↔
              Harmless g info (merged info limits) trouble := by
          constructor
          · exact fun h => h hrunning name g rfl hg
          · rintro h - name' g' hname hg'
            obtain rfl := Option.some.inj hname
            obtain rfl := Option.some.inj (hg.symm.trans hg')
            exact h
        rw [hharmless]
        simp only [Files.adjustResourceLimits, hrunning, not_true_eq_false, ne_eq, if_false, hpath]
          at herror ⊢
        cases trouble with
        | limit n =>
            cases hx : (limitFiles (merged info limits).limits)[n]? with
            | none =>
                rw [Trouble.control, hx, Option.map_none] at herror
                cases herror
            | some x =>
                rw [Trouble.control, hx, Option.map_some]
                rw [Harmless, ← limited_control_iff hg]
                exact ⟨fun h => h.control, fun h => ⟨h, rfl⟩⟩
        | record reached =>
            rw [Harmless, ← loadFile_limits_iff hinfo (representable_merged hinfo hlimits),
              ← List.take_of_length_le (length_limitFiles_le (merged info limits).limits),
              ← limited_control_iff hg]
            exact ⟨fun h => ⟨h.control, h.limits⟩, fun h => ⟨h.1, h.2⟩⟩
  · refine iff_of_true ?_ fun h => absurd h hrunning
    simp only [Files.adjustResourceLimits, ne_eq, hrunning, not_false_eq_true, if_true]
    exact same

/-- A running container with one CPU, and its files. -/
def limitedRecord : ContainerInfo :=
  { named "a" "web" with limits := { memoryLimit := 1000000, pidsLimit := 10, cpuLimit := 1 } }

/-- A container whose limits have been set up, as its files. -/
def limitedFiles : Files where
  config := recordBytes limitedRecord
  cgroups := Function.update (fun _ => none) "a"
    (some (setResourceLimits 3 limitedRecord.limits .empty))

theorem limitedFiles_config : limitedFiles.config = recordBytes limitedRecord := rfl

theorem representable_limitedRecord : Representable limitedRecord :=
  (representable_named "a" "web").with_limits ⟨by decide, by decide, by decide⟩

theorem loadFile_limitedFiles : loadFile limitedFiles.config = some limitedRecord := by
  rw [limitedFiles_config, loadFile_recordBytes representable_limitedRecord]

/-- The kept CPU limit is written again, and then the new memory limit is refused. -/
theorem failed_adjust_memory :
    ∃ e, (limitedFiles.adjustResourceLimits (.ok limitedRecord) "web" ⟨2000000, -1, -1⟩
        (some (.limit 1)) "invalid argument").2 = some e ∧
      limitedFiles.Unchanged (limitedFiles.adjustResourceLimits (.ok limitedRecord) "web"
        ⟨2000000, -1, -1⟩ (some (.limit 1)) "invalid argument").1 := by
  refine ⟨_, rfl, (failed_adjust_iff loadFile_limitedFiles
    ⟨by decide, by decide, by decide⟩ rfl).mpr ?_⟩
  rintro - name g hname hg
  obtain rfl := Option.some.inj hname
  obtain rfl := Option.some.inj hg
  have hfiles : (limitFiles (merged limitedRecord ⟨2000000, -1, -1⟩).limits).take 1 = [.cpu] := by
    decide
  intro x hx
  rw [hfiles, List.mem_singleton] at hx
  subst hx
  rfl

/-- **The memory limit is refused after the CPU limit is written**: the adjust returns an error,
and the container has two CPUs. -/
theorem cpu_adjusted :
    ∃ e, (limitedFiles.adjustResourceLimits (.ok limitedRecord) "web" ⟨2000000, -1, 2⟩
        (some (.limit 1)) "invalid argument").2 = some e ∧
      ¬ limitedFiles.Unchanged (limitedFiles.adjustResourceLimits (.ok limitedRecord) "web"
        ⟨2000000, -1, 2⟩ (some (.limit 1)) "invalid argument").1 := by
  refine ⟨_, rfl, fun h => ?_⟩
  have hcpu := h.control "a" .cpu
  exact absurd hcpu (by decide)

/-! ## The enforced limits -/

/-- The text of a limit: the CPU quota without a wrap. -/
def Control.exactText (limits : ContainerLimits) : Control → String
  | .cpu => toString (limits.cpuLimit * 100000) ++ " 100000"
  | .memory => toString limits.memoryLimit
  | .pids => toString limits.pidsLimit

/-- The control files hold the positive limits, and nothing otherwise. -/
def Enforced (limits : ContainerLimits) (g : Cgroup) : Prop :=
  ∀ x : Control, x.contents g = if 0 < x.limit limits then some (x.exactText limits) else none

/-- No limit is given up whose control file has been written, and the CPU quota is an `int`. -/
structure Followed (written : Control → Prop) (next : ContainerLimits) : Prop where
  positive : ∀ x, written x → 0 < x.limit next
  fits : 0 < next.cpuLimit → next.cpuLimit * 100000 < 2 ^ 63

/-- A positive number keeps its value as an `int` if and only if it is below `2 ^ 63`. -/
theorem wrapInt_eq_iff {n : Int} (h : 0 < n) : wrapInt n = n ↔ n < 2 ^ 63 := by
  rw [wrapInt, Int.bmod_def]
  split_ifs <;> omega

/-- What is written is the limit itself, except for a CPU quota that does not fit. -/
theorem text_eq_exactText_iff {limits : ContainerLimits} {x : Control} (h : 0 < x.limit limits) :
    x.text limits = x.exactText limits ↔ (x = .cpu → limits.cpuLimit * 100000 < 2 ^ 63) := by
  cases x with
  | cpu =>
      have h : 0 < limits.cpuLimit := h
      rw [← wrapInt_eq_iff (by omega), Control.text, Control.exactText, String.append_left_inj]
      exact Json.toString_inj.trans (by simp)
  | memory => exact iff_of_true rfl nofun
  | pids => exact iff_of_true rfl nofun

/-- Exactly these control files have been written. -/
def Known (written : Control → Prop) (g : Cgroup) : Prop :=
  ∀ x : Control, (x.contents g).isSome ↔ written x

/-- Where the limits are enforced, each positive one is in its file. -/
theorem Enforced.known {limits : ContainerLimits} {g : Cgroup} (h : Enforced limits g) :
    Known (fun x => 0 < x.limit limits) g := by
  intro x
  rw [h x]
  split_ifs with hx <;> simp [hx]

/-- **One adjust.** -/
theorem enforced_adjust_iff {written : Control → Prop} {next : ContainerLimits} {g : Cgroup}
    (h : Known written g) : Enforced next (setResourceLimits 3 next g) ↔ Followed written next := by
  have each : ∀ x : Control, x.contents (setResourceLimits 3 next g) =
      (if 0 < x.limit next then some (x.exactText next) else none) ↔
        (written x → 0 < x.limit next) ∧
          (0 < x.limit next → x = .cpu → next.cpuLimit * 100000 < 2 ^ 63) := by
    intro x
    rw [contents_setResourceLimits_all]
    split_ifs with hx
    · rw [Option.some.injEq, text_eq_exactText_iff hx]
      simp [hx]
    · rw [← h x, Option.isSome_iff_ne_none]
      simp [hx]
  constructor
  · intro hx
    exact ⟨fun x => ((each x).mp (hx x)).1, fun hpos => ((each .cpu).mp (hx .cpu)).2 hpos rfl⟩
  · intro hf x
    refine (each x).mpr ⟨hf.positive x, ?_⟩
    rintro hpos rfl
    exact hf.fits hpos

/-! ### A sequence of adjusts -/

/-- An adjust of the container that succeeds. -/
def Files.adjusted (identifier : String) (s : Files) (limits : ContainerLimits) : Option Files :=
  (loadFile s.config).bind fun info =>
    match s.adjustResourceLimits (.ok info) identifier limits none "" with
    | (t, none) => some t
    | (_, some _) => none

/-- The files of a container that has just been launched: the record with the limits of the
request, and the cgroup that `SetupCgroup` has made for the process. -/
def Files.launched (w : World) (r : ContainerInfo) (p : PID) : Files where
  config := recordBytes r
  cgroups := (w.setupCgroup r.id r.limits p).cgroups

/-- The limits in the record are those in the control files of the cgroup. -/
def Files.Enforced (s : Files) : Prop :=
  ∃ r g, loadFile s.config = some r ∧ s.cgroups r.id = some g ∧ Container.Enforced r.limits g

/-- The record of a running container, and its cgroup. -/
structure Files.Running (s : Files) (r : ContainerInfo) (g : Cgroup) : Prop where
  record : loadFile s.config = some r
  running : r.status = .running
  cgroup : s.cgroups r.id = some g

section
variable {s : Files} {r : ContainerInfo} {g : Cgroup} {identifier : String}

/-- For a running container with this record and this cgroup, the limits are those of the
record. -/
theorem Files.Running.enforced_iff (h : s.Running r g) :
    s.Enforced ↔ Container.Enforced r.limits g := by
  constructor
  · rintro ⟨r', g', hr, hg, henforced⟩
    obtain rfl := Option.some.inj (h.record.symm.trans hr)
    obtain rfl := Option.some.inj (h.cgroup.symm.trans hg)
    exact henforced
  · exact fun henforced => ⟨r, g, h.record, h.cgroup, henforced⟩

/-- One adjust merges the limits into the record, and writes them to the control files. -/
theorem Files.Running.adjusted (h : s.Running r g) {limits : ContainerLimits}
    (hlimits : IntLimits limits) :
    ∃ t, Files.adjusted identifier s limits = some t ∧
      t.Running (merged r limits) (setResourceLimits 3 (merged r limits).limits g) := by
  have hpath : s.cgroupPath r = some r.id := by
    rw [Files.cgroupPath, h.cgroup]
    rfl
  rw [Files.adjusted, h.record, Option.bind_some]
  simp only [Files.adjustResourceLimits, h.running, not_true_eq_false, ne_eq, if_false, hpath]
  refine ⟨_, rfl, loadFile_recordBytes (representable_merged h.record hlimits), h.running, ?_⟩
  exact Files.limited_self h.cgroup 3 _

end

/-- The requests, each of which is followed: after it, the control files of the positive limits
have been written. -/
def AllFollowed (written : Control → Prop) (limits : ContainerLimits) :
    List ContainerLimits → Prop
  | [] => True
  | request :: requests =>
      Followed written (mergeLimits limits request) ∧
        AllFollowed (fun x => 0 < x.limit (mergeLimits limits request)) (mergeLimits limits request)
          requests

/-- After every adjust the limits in the record are the enforced ones. -/
def AlwaysEnforced (identifier : String) (s : Files) (requests : List ContainerLimits) : Prop :=
  ∀ n < requests.length, ∃ t,
    exec (Files.adjusted identifier) s (requests.take (n + 1)) = some t ∧ t.Enforced

/-- The induction is on the requests; the invariant is which control files have been written. -/
theorem alwaysEnforced_iff {identifier : String} {s : Files} {r : ContainerInfo} {g : Cgroup}
    {written : Control → Prop} (h : s.Running r g) (hknown : Known written g)
    {requests : List ContainerLimits} (hrequests : ∀ l ∈ requests, IntLimits l) :
    AlwaysEnforced identifier s requests ↔ AllFollowed written r.limits requests := by
  induction requests generalizing s r g written with
  | nil => exact iff_of_true nofun trivial
  | cons limits requests ih =>
      obtain ⟨t, (ht : Files.adjusted identifier s limits = some t), hrunning⟩ :=
        h.adjusted (hrequests limits List.mem_cons_self)
      have hrest : ∀ l ∈ requests, IntLimits l := fun l hl =>
        hrequests l (List.mem_cons_of_mem _ hl)
      have hfirst : t.Enforced ↔ Followed written (mergeLimits r.limits limits) :=
        hrunning.enforced_iff.trans (enforced_adjust_iff hknown)
      have hall : AlwaysEnforced identifier s (limits :: requests) ↔
          t.Enforced ∧ AlwaysEnforced identifier t requests := by
        rw [AlwaysEnforced, List.length_cons, Nat.forall_lt_succ_left]
        simp [AlwaysEnforced, exec, ht]
      rw [hall, AllFollowed, ← hfirst]
      refine and_congr_right fun henforced => ih hrunning ?_ hrest
      exact (hrunning.enforced_iff.mp henforced).known

/-- The control file of the container's cgroup is written by the launch, or has been before. -/
def WrittenAtLaunch (w : World) (r : ContainerInfo) (x : Control) : Prop :=
  0 < x.limit r.limits ∨ ∃ g, w.cgroups r.id = some g ∧ (x.contents g).isSome

/-- A launch leaves the files of its positive limits written. -/
theorem launched_known (w : World) (r : ContainerInfo) (p : PID) :
    ∃ g, (Files.launched w r p).cgroups r.id = some g ∧ Known (WrittenAtLaunch w r) g := by
  refine ⟨_, Function.update_self .., fun x => ?_⟩
  have hcontents : ∀ (g : Cgroup) procs, x.contents { g with procs := procs } = x.contents g := by
    intro g procs
    cases x <;> rfl
  rw [hcontents, contents_setResourceLimits_all, WrittenAtLaunch]
  split_ifs with hx
  · simp [hx]
  · cases w.cgroups r.id with
    | none => cases x <;> simp [hx, Control.contents, Cgroup.empty]
    | some g => simp [hx]

theorem launched_running {w : World} {r : ContainerInfo} {p : PID} {g : Cgroup}
    (hr : Representable r) (hrunning : r.status = .running)
    (hg : (Files.launched w r p).cgroups r.id = some g) :
    (Files.launched w r p).Running r g := by
  have hrecord : loadFile (Files.launched w r p).config = some r := by
    rw [Files.launched]
    exact loadFile_recordBytes hr
  exact ⟨hrecord, hrunning, hg⟩

/-- **The recorded limits are the enforced ones** after every adjust of a sequence if and only if
no adjust gives up a limit whose control file has been written, and no recorded CPU quota wraps. -/
theorem limits_enforced_iff {w : World} {r : ContainerInfo} {p : PID} {identifier : String}
    {requests : List ContainerLimits} (hr : Representable r) (hrunning : r.status = .running)
    (hrequests : ∀ l ∈ requests, IntLimits l) :
    AlwaysEnforced identifier (Files.launched w r p) requests ↔
      AllFollowed (WrittenAtLaunch w r) r.limits requests := by
  obtain ⟨g, hg, hknown⟩ := launched_known w r p
  exact alwaysEnforced_iff (launched_running hr hrunning hg) hknown hrequests

/-- Two CPUs, and then more memory and processes. -/
theorem limits_enforced_raised :
    AlwaysEnforced "web" (Files.launched emptyHost.world limitedRecord 100)
      [⟨-1, -1, 2⟩, ⟨2000000, 20, -1⟩] := by
  refine (limits_enforced_iff representable_limitedRecord rfl fun l hl => ?_).mpr
    ⟨⟨fun x _ => ?_, by decide⟩, ⟨fun x _ => ?_, by decide⟩, trivial⟩
  · simp only [List.mem_cons, List.not_mem_nil, or_false] at hl
    rcases hl with rfl | rfl <;> exact ⟨by decide, by decide, by decide⟩
  · cases x <;> decide
  · cases x <;> decide

/-- **No limit on the memory** is recorded, and the old one stays in the control file. -/
theorem memory_unlimited :
    ¬ AlwaysEnforced "web" (Files.launched emptyHost.world limitedRecord 100) [⟨0, -1, -1⟩] := by
  obtain ⟨g, hg, hknown⟩ := launched_known emptyHost.world limitedRecord 100
  have hints : ∀ l ∈ [(⟨0, -1, -1⟩ : ContainerLimits)], IntLimits l := by
    intro l hl
    rw [List.mem_singleton] at hl
    subst hl
    exact ⟨by decide, by decide, by decide⟩
  rw [alwaysEnforced_iff (launched_running representable_limitedRecord rfl hg) hknown hints]
  rintro ⟨hfollowed, -⟩
  have hmemory := hfollowed.positive .memory (.inl (by decide))
  exact absurd hmemory (by decide)

end Gocker.Container
