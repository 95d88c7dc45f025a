import Gocker.Lib.Machine
import Gocker.Network.AllocationFile

/-!
# The allocator, called from several processes

`AllocateContainerIP` and `ReleaseContainerIP` as they run: one CLI process for
each `gocker run` and `gocker stop`, and the daemon, on one allocation file.
`ipamMu` lives in a process, so a process has at most one call past its lock, and
calls of different processes interleave at their file operations.

Three levels:

* `Ledger` is the allocator as its callers think of it: an operation is one step
  on the map, and the log holds what the successful ones reported.
* `step` is the program: load, open the temporary file, write, sync, rename, each
  of which may fail, and a process may crash between any two.
* A call is `Undisturbed` if the files are, at its write and at its rename, as the
  call itself left and loaded them.  `refines_ledger` is the simulation: a run of
  undisturbed steps is a run of the ledger.

`ipam_valid` is the case of one process, where the mutex alone keeps every call
undisturbed.  `allocations_survive` is the case of many, where nothing does:
`lost_allocation` is a run of two processes that both report success and of which
one loses its entry.
-/

namespace Gocker.Network

open Machine NetIP

/-! ## Operations -/

/-- A call of the allocator. -/
inductive Op where
  | allocate (id : ContainerID) (requestedIP : String)
  | release (id : ContainerID)
deriving DecidableEq, Repr

/-- The container that it is for. -/
def Op.id : Op → ContainerID
  | .allocate id _ => id
  | .release id => id

/-- The same decision, with another result. -/
def Decision.map {α β : Type} (f : α → β) : Decision α → Decision β
  | .done a => .done (f a)
  | .save m a => .save m (f a)
  | .fail err => .fail err

/-- The result of a decision and the store after it. -/
def Decision.outcome {α : Type} (m : ContainerToIP) :
    Decision α → Except IpamError α × ContainerToIP
  | .done r => (.ok r, m)
  | .save m' r => (.ok r, m')
  | .fail err => (.error err, m)

theorem Decision.outcome_map {α β : Type} (m : ContainerToIP) (f : α → β) (d : Decision α) :
    (d.map f).outcome m = ((d.outcome m).1.map f, (d.outcome m).2) := by
  cases d <;> rfl

/-- What the operation does with the state it loaded.  Its result is the address
that the container holds from then on. -/
def Op.decide (m : ContainerToIP) : Op → Decision (Option String)
  | .allocate id requestedIP => (allocateContainerIP m id requestedIP).map some
  | .release id => (releaseContainerIP m id).map fun _ => none

/-- What is returned without saving is what the map says. -/
theorem Op.decide_done {op : Op} {m : ContainerToIP} {r : Option String}
    (h : op.decide m = .done r) : m.lookup op.id = r := by
  cases op with
  | allocate id requestedIP =>
      cases hd : allocateContainerIP m id requestedIP with
      | done ip =>
          simp only [Op.decide, hd, Decision.map, Decision.done.injEq] at h
          rw [← h]
          exact allocate_done hd
      | save m' ip => simp [Op.decide, hd, Decision.map] at h
      | fail err => simp [Op.decide, hd, Decision.map] at h
  | release id =>
      by_cases hid : id ∈ m
      · simp [Op.decide, releaseContainerIP, hid, Decision.map] at h
      · simp only [Op.decide, releaseContainerIP, hid, if_false, Decision.map,
          Decision.done.injEq] at h
        rw [← h]
        exact Finmap.lookup_eq_none.mpr hid

/-- A saved state differs from the loaded one in the operation's own entry. -/
theorem Op.decide_save {op : Op} {m m' : ContainerToIP} {r : Option String}
    (h : op.decide m = .save m' r) :
    (fun i => m'.lookup i) = Function.update (fun i => m.lookup i) op.id r ∧
      (Valid m → Valid m') := by
  cases op with
  | allocate id requestedIP =>
      cases hd : allocateContainerIP m id requestedIP with
      | done ip => simp [Op.decide, hd, Decision.map] at h
      | fail err => simp [Op.decide, hd, Decision.map] at h
      | save n ip =>
          simp only [Op.decide, hd, Decision.map, Decision.save.injEq] at h
          obtain ⟨rfl, rfl⟩ := h
          refine ⟨?_, fun hm => hm.allocate hd⟩
          obtain ⟨-, rfl, -⟩ := allocate_save hd
          exact lookup_insert_eq_update m id ip
  | release id =>
      cases hd : releaseContainerIP m id with
      | done u => simp [Op.decide, hd, Decision.map] at h
      | fail err => simp [Op.decide, hd, Decision.map] at h
      | save n u =>
          simp only [Op.decide, hd, Decision.map, Decision.save.injEq] at h
          obtain ⟨rfl, rfl⟩ := h
          refine ⟨?_, fun hm => hm.releaseIP hd⟩
          obtain ⟨-, rfl⟩ := release_save hd
          exact lookup_erase_eq_update m id

/-! ## The ledger -/

/-- What a successful operation reported: the container, and the address it holds
from then on. -/
structure Entry where
  id : ContainerID
  ip : Option String
deriving DecidableEq, Repr

/-- What the reports say about a container, the latest report coming first. -/
def standing (log : List Entry) (id : ContainerID) : Option (Option String) :=
  (log.find? fun e => e.id == id).map (·.ip)

theorem standing_cons_self (log : List Entry) (id : ContainerID) (ip : Option String) :
    standing (⟨id, ip⟩ :: log) id = some ip := by
  simp [standing]

theorem standing_cons_of_ne (log : List Entry) {i id : ContainerID} (h : id ≠ i)
    (ip : Option String) : standing (⟨id, ip⟩ :: log) i = standing log i := by
  simp [standing, h]

/-- The allocator as its callers think of it. -/
structure Ledger where
  state : ContainerToIP
  log : List Entry

/-- An operation of the ledger; one that is refused is none. -/
def Ledger.step (l : Ledger) (op : Op) : Option Ledger :=
  match op.decide l.state with
  | .done r => some { l with log := ⟨op.id, r⟩ :: l.log }
  | .save m r => some { state := m, log := ⟨op.id, r⟩ :: l.log }
  | .fail _ => none

/-- The state agrees with the reports and gives no address out twice. -/
structure Ledger.Sound (l : Ledger) : Prop where
  valid : Valid l.state
  reported : ∀ id ip, standing l.log id = some ip → l.state.lookup id = ip

theorem Ledger.Sound.step {l l' : Ledger} {op : Op} (h : l.Sound) (hs : l.step op = some l') :
    l'.Sound := by
  unfold Ledger.step at hs
  split at hs
  · next r hd =>
      obtain rfl := Option.some.inj hs
      refine ⟨h.valid, fun id ip hst => ?_⟩
      rcases eq_or_ne op.id id with rfl | hne
      · rw [standing_cons_self] at hst
        rw [Op.decide_done hd, Option.some.inj hst]
      · exact h.reported id ip (by rwa [standing_cons_of_ne _ hne] at hst)
  · next m r hd =>
      obtain rfl := Option.some.inj hs
      obtain ⟨hlookup, hvalid⟩ := Op.decide_save hd
      refine ⟨hvalid h.valid, fun id ip hst => ?_⟩
      have hid := congrFun hlookup id
      rcases eq_or_ne op.id id with rfl | hne
      · rw [standing_cons_self] at hst
        rw [hid, Function.update_self, Option.some.inj hst]
      · rw [standing_cons_of_ne _ hne] at hst
        rw [hid, Function.update_of_ne hne.symm]
        exact h.reported id ip hst
  · exact absurd hs nofun

theorem Ledger.Sound.reaches {l l' : Ledger} (h : l.Sound)
    (hl : Reaches Ledger.step Always l l') : l'.Sound :=
  hl.invariant h fun _ _ _ hs _ he => hs.step he

/-! ## The program -/

/-- A process. -/
abbrev ProcessID := ℕ

/-- What a call carries once it has something to save. -/
structure Save where
  loaded : ContainerToIP
  state : ContainerToIP
  result : Option String

/-- The next file operation of a call. -/
inductive Stage where
  | load
  | openTemp (sv : Save)
  | write (sv : Save) (file : Inode)
  | sync (sv : Save)
  | rename (sv : Save)

/-- A call that holds `ipamMu`. -/
structure Call where
  op : Op
  stage : Stage

/-- The files, the running call of each process, what the last call of each
process returned, and the reports of the successful calls. -/
structure Shared where
  files : Files
  call : ProcessID → Option Call
  returned : ProcessID → Option (Except IpamError (Option String))
  log : List Entry

/-- How an operation of the system went: it worked, `MkdirAll` failed before it, or
it failed itself (a failing write has written that many characters). -/
inductive Outcome where
  | ok
  | noDir
  | fails (written : ℕ)
deriving DecidableEq, Repr

/-- A process calls the allocator, its call goes on, or it crashes. -/
inductive Event where
  | begin (p : ProcessID) (op : Op)
  | step (p : ProcessID) (o : Outcome)
  | crash (p : ProcessID)

namespace Shared

/-- The call goes on to its next operation. -/
def goto (s : Shared) (p : ProcessID) (op : Op) (stage : Stage) (files : Files) : Shared :=
  { s with files := files, call := Function.update s.call p (some ⟨op, stage⟩) }

/-- The call returns an error and unlocks. -/
def failed (s : Shared) (p : ProcessID) (err : IpamError) (files : Files) : Shared :=
  { s with
      files := files
      call := Function.update s.call p none
      returned := Function.update s.returned p (some (.error err)) }

/-- The call returns its result and unlocks. -/
def succeeded (s : Shared) (p : ProcessID) (op : Op) (r : Option String) (files : Files) :
    Shared where
  files := files
  call := Function.update s.call p none
  returned := Function.update s.returned p (some (.ok r))
  log := ⟨op.id, r⟩ :: s.log

end Shared

/-- The next operation of a call: `loadIPAllocationState`, the decision, and the
operations of `saveIPAllocationState`. -/
def advance (s : Shared) (p : ProcessID) (op : Op) : Stage → Outcome → Option Shared
  | .load, .noDir => some (s.failed p .ensureDir s.files)
  | .load, .fails _ => some (s.failed p .readFile s.files)
  | .load, .ok =>
      match loadIPAllocationState s.files with
      | none => some (s.failed p .parseFile s.files)
      | some m =>
          match op.decide m with
          | .done r => some (s.succeeded p op r s.files)
          | .save m' r => some (s.goto p op (.openTemp ⟨m, m', r⟩) s.files)
          | .fail err => some (s.failed p err s.files)
  | .openTemp _, .noDir => some (s.failed p .ensureDir s.files)
  | .openTemp _, .fails _ => some (s.failed p .openTemp s.files)
  | .openTemp sv, .ok => some (s.goto p op (.write sv s.files.openTemp.2) s.files.openTemp.1)
  | .write sv i, .fails n =>
      some (s.failed p .writeTemp (s.files.write i ((encodeState sv.state).take n)))
  | .write sv i, .ok => some (s.goto p op (.sync sv) (s.files.write i (encodeState sv.state)))
  | .sync _, .fails _ => some (s.failed p .syncTemp s.files)
  | .sync sv, .ok => some (s.goto p op (.rename sv) s.files)
  | .rename _, .fails _ => some (s.failed p .replaceFile s.files)
  | .rename sv, .ok =>
      match s.files.rename with
      | some files => some (s.succeeded p op sv.result files)
      | none => some (s.failed p .replaceFile s.files)
  | _, .noDir => none

/-- One step of one process. -/
def step (s : Shared) : Event → Option Shared
  | .begin p op =>
      match s.call p with
      | none => some (s.goto p op .load s.files)
      | some _ => none
  | .step p o => (s.call p).bind fun c => advance s p c.op c.stage o
  | .crash p => some { s with call := Function.update s.call p none }

/-- The errors that come from what a call decides, and not from its files. -/
def IpamError.isDecision : IpamError → Bool
  | .parseCIDR | .noAvailable => true
  | _ => false

/-- An operation gives up for one of two reasons. -/
theorem Op.decide_fail {op : Op} {m : ContainerToIP} {err : IpamError}
    (h : op.decide m = .fail err) : err.isDecision = true := by
  cases op with
  | allocate id requestedIP =>
      simp only [Op.decide] at h
      cases hd : allocateContainerIP m id requestedIP with
      | done ip =>
          rw [hd] at h
          cases h
      | save m' ip =>
          rw [hd] at h
          cases h
      | fail err' =>
          rw [hd] at h
          cases h
          simp only [allocateContainerIP] at hd
          split at hd
          · cases hd
          · split at hd
            · cases hd
              rfl
            · split at hd
              · cases hd
              · split at hd <;> cases hd
                rfl
  | release id =>
      simp only [Op.decide, releaseContainerIP] at h
      split_ifs at h <;> cases h

/-- What an operation of a call does: the call returns an error of the files, before or after
a part of its text is written; it returns what it has decided on, an error or a result; or it
goes on. -/
inductive Advanced (s : Shared) (p : ProcessID) (op : Op) : Stage → Outcome → Shared → Prop
  | stopped {stage : Stage} {o : Outcome} {err : IpamError} (herr : err.isDecision = false) :
      Advanced s p op stage o (s.failed p err s.files)
  | torn {sv : Save} {i : Inode} {n : ℕ} :
      Advanced s p op (.write sv i) (.fails n)
        (s.failed p .writeTemp (s.files.write i ((encodeState sv.state).take n)))
  | refused {m : ContainerToIP} {err : IpamError}
      (load : loadIPAllocationState s.files = some m) (fail : op.decide m = .fail err) :
      Advanced s p op .load .ok (s.failed p err s.files)
  | decided {m : ContainerToIP} {r : Option String}
      (load : loadIPAllocationState s.files = some m) (done : op.decide m = .done r) :
      Advanced s p op .load .ok (s.succeeded p op r s.files)
  | saving {m m' : ContainerToIP} {r : Option String}
      (load : loadIPAllocationState s.files = some m) (save : op.decide m = .save m' r) :
      Advanced s p op .load .ok (s.goto p op (.openTemp ⟨m, m', r⟩) s.files)
  | opened {sv : Save} :
      Advanced s p op (.openTemp sv) .ok
        (s.goto p op (.write sv s.files.openTemp.2) s.files.openTemp.1)
  | wrote {sv : Save} {i : Inode} :
      Advanced s p op (.write sv i) .ok
        (s.goto p op (.sync sv) (s.files.write i (encodeState sv.state)))
  | synced {sv : Save} :
      Advanced s p op (.sync sv) .ok (s.goto p op (.rename sv) s.files)
  | renamed {sv : Save} {files : Files} (rename : s.files.rename = some files) :
      Advanced s p op (.rename sv) .ok (s.succeeded p op sv.result files)

theorem advance_advanced {s t : Shared} {p : ProcessID} {op : Op} {stage : Stage} {o : Outcome}
    (h : advance s p op stage o = some t) : Advanced s p op stage o t := by
  cases stage with
  | load =>
      cases o with
      | noDir | fails =>
          cases h
          exact .stopped rfl
      | ok =>
          simp only [advance] at h
          split at h
          · cases h
            exact .stopped rfl
          · next m load =>
              split at h <;> cases h
              · exact .decided load (by assumption)
              · exact .saving load (by assumption)
              · exact .refused load (by assumption)
  | openTemp sv =>
      cases o with
      | noDir | fails =>
          cases h
          exact .stopped rfl
      | ok =>
          cases h
          exact .opened
  | write sv i =>
      cases o with
      | noDir => cases h
      | fails n =>
          cases h
          exact .torn
      | ok =>
          cases h
          exact .wrote
  | sync sv =>
      cases o with
      | noDir => cases h
      | fails n =>
          cases h
          exact .stopped rfl
      | ok =>
          cases h
          exact .synced
  | rename sv =>
      cases o with
      | noDir => cases h
      | fails n =>
          cases h
          exact .stopped rfl
      | ok =>
          simp only [advance] at h
          split at h <;> cases h
          · exact .renamed (by assumption)
          · exact .stopped rfl

/-- A call touches nothing of the other processes. -/
theorem Advanced.others {s t : Shared} {p q : ProcessID} {op : Op} {stage : Stage} {o : Outcome}
    (h : Advanced s p op stage o t) (hq : q ≠ p) :
    t.call q = s.call q ∧ t.returned q = s.returned q := by
  cases h with
  | saving | opened | wrote | synced => exact ⟨Function.update_of_ne hq .., rfl⟩
  | stopped | torn | refused | decided | renamed =>
      exact ⟨Function.update_of_ne hq .., Function.update_of_ne hq ..⟩

/-! ## Undisturbed calls -/

/-- At its write a call does not have the live file open; at its rename the
temporary path holds what the call wrote, and the live file what it loaded. -/
def Stage.Undisturbed (fs : Files) (o : Outcome) : Stage → Prop
  | .write _ i => fs.allocations ≠ some i
  | .rename sv =>
      o = .ok → (∃ i ∈ fs.temp, fs.content i = encodeState sv.state) ∧
        loadIPAllocationState fs = some sv.loaded
  | _ => True

instance (fs : Files) (o : Outcome) (stage : Stage) : Decidable (stage.Undisturbed fs o) := by
  cases stage <;> unfold Stage.Undisturbed <;> infer_instance

/-- The step finds the files as the call left and loaded them. -/
def Undisturbed (s : Shared) : Event → Prop
  | .step p o => ∀ c ∈ s.call p, c.stage.Undisturbed s.files o
  | _ => True

instance (s : Shared) (e : Event) : Decidable (Undisturbed s e) := by
  cases e <;> unfold Undisturbed <;> infer_instance

/-- What the call saves is what its operation decided. -/
def Call.Decided : Call → Prop
  | ⟨_, .load⟩ => True
  | ⟨op, .openTemp sv⟩ | ⟨op, .write sv _⟩ | ⟨op, .sync sv⟩ | ⟨op, .rename sv⟩ =>
      op.decide sv.loaded = .save sv.state sv.result

/-- What an undisturbed file operation of a call amounts to, where the file loads to `m`: the
call goes on; it returns an error, and has left the state alone; or it returns what its
operation decides on `m`, and the file loads to the state decided on. -/
inductive Amounts (s : Shared) (p : ProcessID) (op : Op) (m : ContainerToIP) (t : Shared) : Prop
  | going {stage : Stage} (call : t.call p = some ⟨op, stage⟩) (decided : Call.Decided ⟨op, stage⟩)
      (load : loadIPAllocationState t.files = some m) (returned : t.returned = s.returned)
      (log : t.log = s.log)
  | failed {err : IpamError} (herr : err.isDecision = false) (call : t.call p = none)
      (load : loadIPAllocationState t.files = some m)
      (returned : t.returned p = some (.error err)) (log : t.log = s.log)
  | refused {err : IpamError} (fail : op.decide m = .fail err) (call : t.call p = none)
      (load : loadIPAllocationState t.files = some m)
      (returned : t.returned p = some (.error err)) (log : t.log = s.log)
  | finished {r : Option String} {m' : ContainerToIP}
      (outcome : (op.decide m).outcome m = (.ok r, m')) (call : t.call p = none)
      (load : loadIPAllocationState t.files = some m') (returned : t.returned p = some (.ok r))
      (log : t.log = ⟨op.id, r⟩ :: s.log)

section
variable {s t : Shared} {p : ProcessID} {op : Op} {m : ContainerToIP} {stage : Stage}
  {files : Files}

/-- A step within a call changes nothing that a load sees. -/
theorem Amounts.goto (hdecided : Call.Decided ⟨op, stage⟩)
    (hload : loadIPAllocationState files = some m) : Amounts s p op m (s.goto p op stage files) :=
  .going (Function.update_self ..) hdecided hload rfl rfl

/-- A failure of a file operation does not either. -/
theorem Amounts.fail {err : IpamError} (herr : err.isDecision = false)
    (hload : loadIPAllocationState files = some m) : Amounts s p op m (s.failed p err files) :=
  .failed herr (Function.update_self ..) hload (Function.update_self ..) rfl

theorem Amounts.succeed {r : Option String} {m' : ContainerToIP}
    (houtcome : (op.decide m).outcome m = (.ok r, m'))
    (hload : loadIPAllocationState files = some m') :
    Amounts s p op m (s.succeeded p op r files) :=
  .finished houtcome (Function.update_self ..) hload (Function.update_self ..) rfl

/-- **Undisturbed, a call does to the file what its operation decides**, at its last file
operation, and nothing before. -/
theorem Advanced.amounts {o : Outcome} (h : Advanced s p op stage o t)
    (hdistinct : s.files.Distinct) (hload : loadIPAllocationState s.files = some m)
    (hdecided : Call.Decided ⟨op, stage⟩) (hC : stage.Undisturbed s.files o) :
    Amounts s p op m t ∧ t.files.Distinct := by
  cases h with
  | stopped herr => exact ⟨.fail herr hload, hdistinct⟩
  | torn => exact ⟨.fail rfl ((Files.load_write hC _).trans hload), hdistinct.write _ _⟩
  | refused load fail =>
      obtain rfl := Option.some.inj (hload.symm.trans load)
      exact ⟨.refused fail (Function.update_self ..) hload (Function.update_self ..) rfl, hdistinct⟩
  | decided load done =>
      -- nothing to save: the operation takes place at the load
      obtain rfl := Option.some.inj (hload.symm.trans load)
      exact ⟨.succeed (by rw [done]; rfl) hload, hdistinct⟩
  | saving load save =>
      obtain rfl := Option.some.inj (hload.symm.trans load)
      exact ⟨.goto save hload, hdistinct⟩
  | opened =>
      exact ⟨.goto hdecided ((Files.load_openTemp hdistinct).trans hload), hdistinct.openTemp⟩
  | wrote => exact ⟨.goto hdecided ((Files.load_write hC _).trans hload), hdistinct.write _ _⟩
  | synced => exact ⟨.goto hdecided hload, hdistinct⟩
  | @renamed sv files hr =>
      -- and otherwise at the rename, where the live file is still what the call loaded
      obtain ⟨⟨i, htemp, htext⟩, hloaded⟩ := hC rfl
      obtain rfl := Option.some.inj (hload.symm.trans hloaded)
      refine ⟨.succeed ?_ (Files.load_rename hr htemp htext), hdistinct.rename hr⟩
      rw [show op.decide sv.loaded = .save sv.state sv.result from hdecided]
      rfl

end

/-- The files hold the ledger's state, the log is the ledger's. -/
structure Refines (s : Shared) (l : Ledger) : Prop where
  load : loadIPAllocationState s.files = some l.state
  log : s.log = l.log
  distinct : s.files.Distinct
  decided : ∀ p c, s.call p = some c → c.Decided

variable {s t : Shared} {l : Ledger} {p : ProcessID}

/-- The operation that the ledger takes when a call returns its result. -/
theorem Ledger.step_outcome {op : Op} {r : Option String} {m : ContainerToIP}
    (h : (op.decide l.state).outcome l.state = (.ok r, m)) :
    l.step op = some ⟨m, ⟨op.id, r⟩ :: l.log⟩ := by
  cases hd : op.decide l.state with
  | done r' =>
      rw [hd] at h
      cases h
      simp only [Ledger.step, hd]
  | save m' r' =>
      rw [hd] at h
      cases h
      simp only [Ledger.step, hd]
  | fail err =>
      rw [hd] at h
      cases h

/-- A call more that has decided, among calls that have. -/
theorem decided_update {call : ProcessID → Option Call}
    (h : ∀ q c, call q = some c → c.Decided) {new : Option Call}
    (hnew : ∀ c, new = some c → c.Decided) :
    ∀ q c, Function.update call p new q = some c → c.Decided := by
  intro q c hq
  rcases eq_or_ne q p with rfl | hne
  · rw [Function.update_self] at hq
    exact hnew c hq
  · rw [Function.update_of_ne hne] at hq
    exact h q c hq

/-- A step of the program is a step of the ledger or none. -/
theorem Refines.step {e : Event} (h : Refines s l) (hC : Undisturbed s e)
    (he : step s e = some t) : ∃ l', Reaches Ledger.step Always l l' ∧ Refines t l' := by
  cases e with
  | begin p op =>
      simp only [Network.step] at he
      split at he
      · obtain rfl := Option.some.inj he
        refine ⟨l, .refl l, h.load, h.log, h.distinct, decided_update h.decided fun c hc => ?_⟩
        obtain rfl := Option.some.inj hc
        trivial
      · exact absurd he nofun
  | crash p =>
      obtain rfl := Option.some.inj he
      exact ⟨l, .refl l, h.load, h.log, h.distinct, decided_update h.decided nofun⟩
  | step p o =>
      obtain ⟨⟨op, stage⟩, hcall, hadv⟩ := Option.bind_eq_some_iff.mp he
      have hadvanced := advance_advanced hadv
      obtain ⟨hamounts, hdistinct⟩ :=
        hadvanced.amounts h.distinct h.load (h.decided p _ hcall) (hC _ hcall)
      have others : ∀ q c, q ≠ p → t.call q = some c → c.Decided := fun q c hq hc =>
        h.decided q c ((hadvanced.others hq).1.symm.trans hc)
      -- a call that has returned decides nothing more
      have decided : t.call p = none → ∀ q c, t.call q = some c → c.Decided := by
        intro hnone q c hc
        rcases eq_or_ne q p with rfl | hne
        · cases hnone.symm.trans hc
        · exact others q c hne hc
      cases hamounts with
      | going call hdecided load _ log =>
          refine ⟨l, .refl l, load, log.trans h.log, hdistinct, fun q c hc => ?_⟩
          rcases eq_or_ne q p with rfl | hne
          · exact Option.some.inj (call.symm.trans hc) ▸ hdecided
          · exact others q c hne hc
      | failed _ call load _ log | refused _ call load _ log =>
          exact ⟨l, .refl l, load, log.trans h.log, hdistinct, decided call⟩
      | finished outcome call load _ log =>
          refine ⟨_, .tail (.refl l) trivial (Ledger.step_outcome outcome), load, ?_, hdistinct,
            decided call⟩
          rw [log, h.log]

/-- **Undisturbed calls are atomic.**  The ledger takes the operations in the order
in which the calls return. -/
theorem refines_ledger (hs : Refines s l) (h : Reaches step Undisturbed s t) :
    ∃ l', Reaches Ledger.step Always l l' ∧ Refines t l' :=
  h.simulation hs fun _ _ _ _ hr hC he => hr.step hC he

/-! ## One process -/

/-- Whose event it is. -/
def Event.process : Event → ProcessID
  | .begin p _ | .step p _ | .crash p => p

/-- Only the process `p` takes steps. -/
def OnlyProcess (p : ProcessID) (_ : Shared) (e : Event) : Prop := e.process = p

instance (p : ProcessID) (s : Shared) (e : Event) : Decidable (OnlyProcess p s e) :=
  inferInstanceAs (Decidable (_ = _))

/-- What the files hold for the only running call. -/
def Stage.Prepared (fs : Files) : Stage → Prop
  | .load => True
  | .openTemp sv => loadIPAllocationState fs = some sv.loaded
  | .write sv i =>
      loadIPAllocationState fs = some sv.loaded ∧ fs.temp = some i ∧ fs.content i = []
  | .sync sv | .rename sv =>
      loadIPAllocationState fs = some sv.loaded ∧
        ∃ i ∈ fs.temp, fs.content i = encodeState sv.state

/-- The files and the call of the only process. -/
structure Alone (p : ProcessID) (s : Shared) : Prop where
  distinct : s.files.Distinct
  prepared : ∀ c ∈ s.call p, c.stage.Prepared s.files

theorem Alone.undisturbed {e : Event} (h : Alone p s) (he : OnlyProcess p s e) :
    Undisturbed s e := by
  cases e with
  | begin q op => trivial
  | crash q => trivial
  | step q o =>
      obtain rfl : q = p := he
      rintro ⟨op, stage⟩ hcall
      have hprep := h.prepared _ hcall
      cases stage with
      | load => trivial
      | openTemp sv => trivial
      | write sv i => exact h.distinct.ne i hprep.2.1
      | sync sv => trivial
      | rename sv => exact fun _ => ⟨hprep.2, hprep.1⟩

/-- A process is still alone after a step within its call. -/
theorem Alone.goto {fs : Files} (h : fs.Distinct) {op : Op} {stage : Stage}
    (hstage : stage.Prepared fs) : Alone p (s.goto p op stage fs) where
  distinct := h
  prepared c hc := by
    have hc : Function.update s.call p (some ⟨op, stage⟩) p = some c := hc
    rw [Function.update_self] at hc
    obtain rfl := Option.some.inj hc
    exact hstage

theorem Alone.unlocked {t : Shared} (h : t.files.Distinct) (hcall : t.call p = none) :
    Alone p t where
  distinct := h
  prepared c hc := by
    rw [hcall] at hc
    exact absurd hc nofun

/-- A step of the only process leaves the files ready for its next one. -/
theorem Alone.step {e : Event} (h : Alone p s) (hp : OnlyProcess p s e)
    (he : step s e = some t) : Alone p t := by
  cases e with
  | begin q op =>
      obtain rfl : q = p := hp
      simp only [Network.step] at he
      split at he
      · obtain rfl := Option.some.inj he
        exact .goto h.distinct trivial
      · exact absurd he nofun
  | crash q =>
      obtain rfl : q = p := hp
      obtain rfl := Option.some.inj he
      exact .unlocked h.distinct (Function.update_self ..)
  | step q o =>
      obtain rfl : q = p := hp
      obtain ⟨⟨op, stage⟩, hcall, hadv⟩ := Option.bind_eq_some_iff.mp he
      have hprep := h.prepared _ hcall
      have failed : ∀ err files, files.Distinct → Alone q (s.failed q err files) :=
        fun _ _ hfiles => .unlocked hfiles (Function.update_self ..)
      have succeeded : ∀ op r files, files.Distinct → Alone q (s.succeeded q op r files) :=
        fun _ _ _ hfiles => .unlocked hfiles (Function.update_self ..)
      cases advance_advanced hadv with
      | stopped | refused => exact failed _ _ h.distinct
      | torn => exact failed _ _ (h.distinct.write _ _)
      | decided load done => exact succeeded _ _ _ h.distinct
      | saving load save => exact .goto h.distinct load
      | opened =>
          exact .goto h.distinct.openTemp ⟨(Files.load_openTemp h.distinct).trans hprep,
            s.files.temp_openTemp, s.files.content_openTemp⟩
      | wrote =>
          -- the temporary file was empty, so it holds exactly what is written
          obtain ⟨hload, htemp, hempty⟩ := hprep
          refine .goto (h.distinct.write _ _)
            ⟨(Files.load_write (h.distinct.ne _ htemp) _).trans hload, _, htemp, ?_⟩
          rw [Files.content_write, hempty, List.drop_nil, List.append_nil]
      | synced => exact .goto h.distinct hprep
      | renamed hr => exact succeeded _ _ _ (h.distinct.rename hr)

/-- How many file operations a call has left, at most, after its next one. -/
def Stage.left : Stage → ℕ
  | .load => 4
  | .openTemp _ => 3
  | .write _ _ => 2
  | .sync _ => 1
  | .rename _ => 0

/-- **Nothing stands in the way of a call that is alone**: where the file can be loaded and no
operation of the system fails, it goes on, or it returns what it has decided on. -/
theorem Alone.advance (h : Alone p s) {op : Op} {stage : Stage}
    (hcall : s.call p = some ⟨op, stage⟩) {m : ContainerToIP}
    (hload : loadIPAllocationState s.files = some m) :
    ∃ t, Network.step s (.step p .ok) = some t ∧
      ((∃ next, t.call p = some ⟨op, next⟩ ∧ next.left < stage.left) ∨
        t.call p = none ∧ ∃ r, t.returned p = some r ∧
          ∀ err, r = .error err → err.isDecision = true) := by
  have hstep : Network.step s (.step p .ok) = Network.advance s p op stage .ok := by
    simp only [Network.step, hcall, Option.bind_some]
  rw [hstep]
  have goes : ∀ next files, next.left < stage.left →
      (∃ next', (s.goto p op next files).call p = some ⟨op, next'⟩ ∧ next'.left < stage.left) :=
    fun next _ hlt => ⟨next, Function.update_self .., hlt⟩
  have succeeds : ∀ r files, (s.succeeded p op r files).call p = none ∧
      ∃ r', (s.succeeded p op r files).returned p = some r' ∧
        ∀ err, r' = .error err → err.isDecision = true :=
    fun r _ => ⟨Function.update_self .., .ok r, Function.update_self .., nofun⟩
  cases stage with
  | load =>
      simp only [Network.advance, hload]
      cases hd : op.decide m with
      | done r => exact ⟨_, rfl, .inr (succeeds r _)⟩
      | save m' r => exact ⟨_, rfl, .inl (goes _ _ (Nat.lt_succ_self 3))⟩
      | fail err =>
          refine ⟨_, rfl, .inr ⟨Function.update_self .., _, Function.update_self .., ?_⟩⟩
          rintro err' heq
          cases heq
          exact Op.decide_fail hd
  | openTemp sv => exact ⟨_, rfl, .inl (goes _ _ (Nat.lt_succ_self 2))⟩
  | write sv i => exact ⟨_, rfl, .inl (goes _ _ (Nat.lt_succ_self 1))⟩
  | sync sv => exact ⟨_, rfl, .inl (goes _ _ (Nat.lt_succ_self 0))⟩
  | rename sv =>
      obtain ⟨-, i, htemp, -⟩ := h.prepared _ hcall
      have hrename : s.files.rename = some { s.files with allocations := some i, temp := none } :=
        congrArg (Option.map _) htemp
      simp only [Network.advance, hrename]
      exact ⟨_, rfl, .inr (succeeds sv.result _)⟩

/-! ## What the file holds -/

/-- No call is running, and nothing has been reported. -/
def start (files : Files) : Shared where
  files := files
  call _ := none
  returned _ := none
  log := []

/-- At the beginning the file and the ledger agree. -/
theorem refines_start {files : Files} (h : files.Distinct) {m : ContainerToIP}
    (hload : loadIPAllocationState files = some m) : Refines (start files) ⟨m, []⟩ where
  load := hload
  log := rfl
  distinct := h
  decided := nofun

theorem sound_start {m : ContainerToIP} (h : Valid m) : Ledger.Sound ⟨m, []⟩ where
  valid := h
  reported := nofun

/-- **The allocation file of one process.**  Whatever the calls of one process
request, and whichever of their file operations fail, the file loads to an
injective map into the host addresses. -/
theorem ipam_valid (p : ProcessID) {files : Files} (hfiles : files.Distinct)
    (hempty : ∀ i ∈ files.allocations, files.content i = [])
    (h : Reaches step (OnlyProcess p) (start files) t) :
    ∃ m, loadIPAllocationState t.files = some m ∧
      (∀ i j ip, m.lookup i = some ip → m.lookup j = some ip → i = j) ∧
      ∀ i text, m.lookup i = some text → ∃ ip, HostAddress ip ∧ text = dotted ip := by
  have hload : loadIPAllocationState files = some ∅ := by
    cases ha : files.allocations with
    | none => simp [loadIPAllocationState, ha]
    | some i => simp [loadIPAllocationState, ha, hempty i ha, loadState]
  have alone : Alone p (start files) := .unlocked hfiles rfl
  have undisturbed : Reaches step Undisturbed (start files) t :=
    h.strengthen alone (fun _ _ _ ha hp he => ha.step hp he) (fun _ _ _ ha hp _ =>
      ha.undisturbed hp)
  obtain ⟨l, hl, hrefines⟩ := refines_ledger (refines_start hfiles hload) undisturbed
  have hsound := (sound_start Valid.empty).reaches hl
  exact ⟨l.state, hrefines.load, hsound.valid.injective, hsound.valid.range⟩

/-- A directory without either file. -/
def noFiles : Files := { allocations := none, temp := none, content := fun _ => [], next := 0 }

/-- Where there are no files, they are different. -/
theorem noFiles_distinct : noFiles.Distinct := ⟨nofun, nofun, nofun⟩

/-- One call, each of its file operations succeeding. -/
def callOf (p : ProcessID) (op : Op) : List Event :=
  .begin p op :: List.replicate 5 (.step p .ok)

/-- One process, which asks for an address of the network. -/
theorem ipam_valid_request :
    ∃ t : Shared, standing t.log "a" = some (some "10.20.0.7") ∧
      ∃ m, loadIPAllocationState t.files = some m ∧
        (∀ i j ip, m.lookup i = some ip → m.lookup j = some ip → i = j) ∧
        ∀ i text, m.lookup i = some text → ∃ ip, HostAddress ip ∧ text = dotted ip :=
  ⟨outcome step (OnlyProcess 0) (start noFiles) (callOf 0 (.allocate "a" "::ffff:10.20.0.7")),
    by decide +kernel, ipam_valid 0 noFiles_distinct nofun (reaches_outcome ..)⟩

/-- The file agrees with what was reported, and no address has two holders. -/
def Intact (s : Shared) : Prop :=
  ∃ m, loadIPAllocationState s.files = some m ∧
    (∀ i ip, standing s.log i = some (some ip) → m.lookup i = some ip) ∧
    (∀ i, standing s.log i = some none → m.lookup i = none) ∧
    ∀ i j ip, m.lookup i = some ip → m.lookup j = some ip → i = j

/-- **The allocation file of many processes**, as long as their calls do not
disturb each other. -/
theorem allocations_survive {files : Files} (hfiles : files.Distinct) {m : ContainerToIP}
    (hload : loadIPAllocationState files = some m) (hm : Valid m)
    (h : Reaches step Undisturbed (start files) t) : Intact t := by
  obtain ⟨l, hl, hrefines⟩ := refines_ledger (refines_start hfiles hload) h
  have hsound := (sound_start hm).reaches hl
  refine ⟨l.state, hrefines.load, ?_, ?_, hsound.valid.injective⟩
  · intro i ip hst
    rw [hrefines.log] at hst
    exact hsound.reported i (some ip) hst
  · intro i hst
    rw [hrefines.log] at hst
    exact hsound.reported i none hst

theorem allocations_survive_two :
    ∃ t : Shared, standing t.log "a" = some (some "10.20.0.2") ∧
      standing t.log "b" = some (some "10.20.0.3") ∧ Intact t := by
  have hload : loadIPAllocationState noFiles = some ∅ := rfl
  refine ⟨outcome step Undisturbed (start noFiles)
    (callOf 1 (.allocate "a" "") ++ callOf 2 (.allocate "b" "")), ?_, ?_, ?_⟩
  · decide +kernel
  · decide +kernel
  · exact allocations_survive noFiles_distinct hload Valid.empty (reaches_outcome ..)

/-- Both processes load before either of them saves. -/
def racing : List Event :=
  [.begin 1 (.allocate "a" ""), .begin 2 (.allocate "b" ""), .step 1 .ok, .step 2 .ok] ++
    List.replicate 4 (.step 1 .ok) ++ List.replicate 4 (.step 2 .ok)

/-- Both calls report success, with the same address, and one entry is gone. -/
theorem lost_allocation :
    ∃ t, Reaches step Always (start noFiles) t ∧
      t.returned 1 = some (.ok (some "10.20.0.2")) ∧
      t.returned 2 = some (.ok (some "10.20.0.2")) ∧ ¬ Intact t := by
  refine ⟨outcome step Always (start noFiles) racing, reaches_outcome ..,
    by decide +kernel, by decide +kernel, ?_⟩
  rintro ⟨m, hload, hheld, -, -⟩
  have hentry := congrArg (Option.map fun m => Finmap.lookup "a" m) hload
  rw [Option.map_some, hheld "a" "10.20.0.2" (by decide +kernel)] at hentry
  exact absurd hentry (by decide +kernel)

end Gocker.Network
