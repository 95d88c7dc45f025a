import Gocker.Network.Specification

/-!
# Failures in the middle of a call

One call of the allocator that may be cut off: any of its file operations may fail, and the
process may crash between two of them or with a text half written.  The files it starts from
are arbitrary, up to the live one being loadable, so a temporary file may be there that an
earlier call has left with any text.

The live file is only touched by the rename, and the rename happens only after the whole text
is in the temporary file.  `Progress` says this of a call under way; `call_atomic` is what a
later load sees.

### What a later load sees

Either what was there before, if the call has not come to its rename, or the whole of what it
has decided on.  There is no third case, since the text is complete before the rename and the
rename is one step; a text that is cut off stays in the temporary file, which the next call
truncates.
-/

namespace Gocker.Network

open Machine

/-- What happens to the call of a process: its next file operation takes place, in one of the
ways it can go; the process crashes between two operations; or it crashes in a write, of
which so many characters are in the file. -/
inductive Happening where
  | operation (o : Outcome)
  | crash
  | crashInWrite (written : ℕ)
deriving DecidableEq, Repr

/-- The call of `p`, until it has returned or crashed. -/
def happen (p : ProcessID) (s : Shared) : Happening → Option Shared
  | .operation o => step s (.step p o)
  | .crash => (s.call p).bind fun _ => step s (.crash p)
  | .crashInWrite n =>
      match s.call p with
      | some ⟨_, .write sv i⟩ =>
          step { s with files := s.files.write i ((encodeState sv.state).take n) } (.crash p)
      | _ => none

/-- A call that has its lock and has not done anything. -/
def called (p : ProcessID) (op : Op) (files : Files) : Shared :=
  (start files).goto p op .load files

section
variable {p : ProcessID} {op : Op} {m : ContainerToIP} {s t : Shared}

/-- How far a call is that found the store `m`: it runs, it has stopped without a result, or it
has returned one. -/
inductive Progress (p : ProcessID) (op : Op) (m : ContainerToIP) (s : Shared) : Prop
  | running {stage : Stage} (call : s.call p = some ⟨op, stage⟩)
      (decided : Call.Decided ⟨op, stage⟩) (load : loadIPAllocationState s.files = some m)
      (returned : s.returned p = none)
  | stopped (call : s.call p = none) (load : loadIPAllocationState s.files = some m)
      (returned : ∀ r, s.returned p ≠ some (.ok r))
  | finished {r : Option String} {m' : ContainerToIP} (call : s.call p = none)
      (outcome : (op.decide m).outcome m = (.ok r, m'))
      (load : loadIPAllocationState s.files = some m') (returned : s.returned p = some (.ok r))

theorem Progress.called {files : Files} (hload : loadIPAllocationState files = some m) :
    Progress p op m (called p op files) :=
  .running (Function.update_self ..) trivial hload rfl

/-- An operation of the call, on files that are as the call has left them. -/
theorem Progress.operation {o : Outcome} (h : Progress p op m s) (ha : Alone p s)
    (he : step s (.step p o) = some t) : Progress p op m t := by
  obtain ⟨⟨op', stage⟩, hcall, hadv⟩ := Option.bind_eq_some_iff.mp he
  have undisturbed : stage.Undisturbed s.files o := ha.undisturbed (e := .step p o) rfl _ hcall
  cases h with
  | stopped call | finished call =>
      rw [call] at hcall
      exact absurd hcall nofun
  | running call decided load returned =>
      rw [call] at hcall
      obtain ⟨rfl, rfl⟩ := Call.mk.inj (Option.some.inj hcall)
      cases ((advance_advanced hadv).amounts ha.distinct load decided undisturbed).1 with
      | going call decided load same => exact .running call decided load (same ▸ returned)
      | failed _ call load returned | refused _ call load returned =>
          exact .stopped call load fun r hr => by cases returned.symm.trans hr
      | finished outcome call load returned => exact .finished call outcome load returned

theorem Progress.crash (h : Progress p op m s) {c : Call} (hcall : s.call p = some c)
    {files : Files} (hload : loadIPAllocationState files = loadIPAllocationState s.files) :
    Progress p op m
      { s with files := files, call := Function.update s.call p none } := by
  cases h with
  | stopped call | finished call =>
      rw [call] at hcall
      exact absurd hcall nofun
  | running call decided load returned =>
      refine .stopped (Function.update_self ..) (hload.trans load) fun r hr => ?_
      rw [show s.returned p = some (.ok r) from hr] at returned
      exact absurd returned nofun

/-- Whatever happens next, the call is where it may be. -/
theorem Progress.happen {e : Happening} (h : Progress p op m s ∧ Alone p s)
    (he : happen p s e = some t) : Progress p op m t ∧ Alone p t := by
  obtain ⟨h, ha⟩ := h
  cases e with
  | operation o => exact ⟨h.operation ha he, ha.step (e := .step p o) rfl he⟩
  | crash =>
      obtain ⟨c, hcall, he⟩ := Option.bind_eq_some_iff.mp he
      obtain rfl := Option.some.inj he
      exact ⟨h.crash hcall rfl, .unlocked ha.distinct (Function.update_self ..)⟩
  | crashInWrite n =>
      simp only [Network.happen] at he
      split at he
      · next op' sv i hcall =>
          obtain rfl := Option.some.inj he
          have hne : s.files.allocations ≠ some i := ha.distinct.ne i (ha.prepared _ hcall).2.1
          exact ⟨h.crash hcall (Files.load_write hne _),
            .unlocked (ha.distinct.write _ _) (Function.update_self ..)⟩
      · exact absurd he nofun

/-- **A call changes the store at once or not at all.**  Wherever it is cut off, a later load
gives the store from before the call or the one it decided on; the former if the call
returns an error, the latter if it returns a result. -/
theorem call_atomic {files : Files} (hfiles : files.Distinct)
    (hload : loadIPAllocationState files = some m)
    (h : Reaches (happen p) Always (called p op files) t) :
    (loadIPAllocationState t.files = some m ∨
        loadIPAllocationState t.files = some ((op.decide m).outcome m).2) ∧
      (∀ err, t.returned p = some (.error err) → loadIPAllocationState t.files = some m) ∧
      ∀ r, t.returned p = some (.ok r) →
        loadIPAllocationState t.files = some ((op.decide m).outcome m).2 ∧
          ((op.decide m).outcome m).1 = .ok r := by
  have alone : Alone p (called p op files) := .goto hfiles trivial
  have progress : Progress p op m t ∧ Alone p t :=
    h.invariant ⟨.called hload, alone⟩ fun _ _ _ hs _ he => Progress.happen hs he
  cases progress.1 with
  | running _ _ load returned =>
      simp [load, returned]
  | stopped _ load returned =>
      exact ⟨.inl load, fun _ _ => load, fun r hr => absurd hr (returned r)⟩
  | finished _ outcome load returned =>
      simp [outcome, load, returned]

end

/-- An earlier call has left half a text in the temporary file. -/
def leftover : Files where
  allocations := none
  temp := some 0
  content := fun _ => "\x7b\n    \"containerToIP".toList
  next := 1

theorem leftover_distinct : leftover.Distinct where
  ne := by simp [leftover]
  fresh := nofun
  temp_fresh i hi := by
    obtain rfl := Option.some.inj hi
    exact Nat.zero_lt_one

/-- An allocation over a temporary file that an earlier one has left, cut off in the middle of
its text. -/
theorem call_atomic_leftover :
    ∃ t : Shared, t.files.temp = some 0 ∧ t.call 0 = none ∧
      (loadIPAllocationState t.files = some ∅ ∨ loadIPAllocationState t.files =
        some (((Op.allocate "a" "").decide ∅).outcome ∅).2) :=
  ⟨outcome (happen 0) Always (called 0 (.allocate "a" "") leftover)
      [.operation .ok, .operation .ok, .crashInWrite 7],
    by decide +kernel, by decide +kernel,
    (call_atomic leftover_distinct rfl (reaches_outcome ..)).1⟩

end Gocker.Network
