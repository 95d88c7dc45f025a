import Gocker.Config
import Gocker.Types
import Mathlib.Data.List.Infix
import Mathlib.Data.List.Nodup
import Mathlib.Data.Fintype.Defs
import Mathlib.Data.Finset.Insert

/-!
# The operations as lists of stages

The five functions that act on a container, as the sequences of steps that other
processes can see: `RunContainer` (`internal/runtime.go`), `CreateAndRun`, `Start`
and `StopContainer` (`internal/container/manager.go`), `AdjustResourceLimits`
(`internal/container/cgroup.go`), and what the launched process does, `InitContainer`
(`internal/container/init.go`).

The lists are in the order of the source.  The order is the point: `Start` sends
the request before it sets up the cgroup, `StopContainer` releases the address
right after the signal, and `CreateAndRun` never allocates one.

### Facts about positions

A call is known by what it has left of its program, and the invariants of the modules that
follow say what holds at which position.  What they need of the five lists is collected here.
Each fact is checked on every end of every program (`forall_rest`) and then used for the call at
hand, so that a change in one of the lists is a change in these facts, and the proofs that use
them either stand or show which order they depended on.

`UpAt` is the part of a program in which the record of the container should say `Running`: from
the write that says so to the write after the wait.
-/

namespace Gocker.Container

/-- The functions that act on a container.  `RunContainer`, `StopContainer` and
`AdjustResourceLimits` run in a CLI process, `CreateAndRun` and `Start` in the daemon. -/
inductive Fn where
  | runContainer
  | createAndRun
  | start
  | stopContainer
  | adjustResourceLimits
deriving DecidableEq, Repr

instance : Fintype Fn where
  elems := {.runContainer, .createAndRun, .start, .stopContainer, .adjustResourceLimits}
  complete fn := by cases fn <;> decide

/-- The places that call `WriteContainerInfo`: the first record of a container, the
two that set `Running`, the two after the wait (the one in `RunContainer` leaves
`FinishedAt` alone), and the ones in `StopContainer` and `AdjustResourceLimits`. -/
inductive Write where
  | created
  | running
  | restarted
  | exited
  | finished
  | stopped
  | limits
deriving DecidableEq, Repr

instance : Fintype Write where
  elems := {.created, .running, .restarted, .exited, .finished, .stopped, .limits}
  complete wr := by cases wr <;> decide

/-- A failure to write the record makes the caller return an error; elsewhere it is
only logged. -/
def Write.required : Write → Bool
  | .created | .stopped | .limits => true
  | .running | .restarted | .exited | .finished => false

/-- What a call does between two points at which others can see its work.  The stages of the five
functions are the same operations in different orders, and so they share one type. -/
inductive Stage where
  | allocateIP
  | write (w : Write)
  | launch
  | setupCgroup
  | setupVeth
  | encode
  | wait
  | cleanupCgroup
  | releaseIP
  | kill
  | setResourceLimits
deriving DecidableEq, Repr

/-- The stages of a function.  The deferred release of the address is the last one. -/
def Fn.program : Fn → List Stage
  | .runContainer =>
      [.allocateIP, .write .created, .launch, .setupCgroup, .setupVeth, .encode, .write .running,
        .wait, .write .exited, .cleanupCgroup, .releaseIP]
  | .createAndRun =>
      [.write .created, .launch, .setupCgroup, .setupVeth, .encode, .write .running, .wait,
        .write .finished, .cleanupCgroup]
  | .start =>
      [.launch, .setupVeth, .allocateIP, .encode, .write .restarted, .setupCgroup, .wait,
        .write .finished, .cleanupCgroup, .releaseIP]
  | .stopContainer => [.kill, .write .stopped, .releaseIP]
  | .adjustResourceLimits => [.setResourceLimits, .write .limits]

/-- The functions that launch a process and wait for it. -/
def Fn.launches : Fn → Bool
  | .runContainer | .createAndRun | .start => true
  | .stopContainer | .adjustResourceLimits => false

/-- What a call does once the wait is over. -/
def Stage.completes : Stage → Bool
  | .write .exited | .write .finished | .cleanupCgroup | .releaseIP => true
  | _ => false

/-- The write of a record that says `Running`. -/
def Stage.setsRunning : Stage → Bool
  | .write .running | .write .restarted => true
  | _ => false

/-- Two writes set `Running`: that of the first launchers and that of `Start`. -/
theorem Stage.write_of_setsRunning {st : Stage} (h : st.setsRunning = true) :
    st = .write .running ∨ st = .write .restarted := by
  cases st with
  | write wr => cases wr <;> first | exact .inl rfl | exact .inr rfl | exact absurd h nofun
  | _ => exact absurd h Bool.false_ne_true

/-- The stage writes the record of its container. -/
def Stage.isWrite : Stage → Bool
  | .write _ => true
  | _ => false

/-- The write after the wait. -/
def Stage.isFinal : Stage → Bool
  | .write .exited | .write .finished => true
  | _ => false

/-- What a call does first after its wait is to write the record. -/
theorem Stage.isWrite_of_isFinal {st : Stage} (h : st.isFinal = true) : st.isWrite = true := by
  cases st <;> first | rfl | exact absurd h Bool.false_ne_true

/-- A launching call is up between its write of `Running` and its write after the
wait. -/
def UpAt (fn : Fn) (todo : List Stage) : Prop :=
  fn.launches = true ∧ (∀ st ∈ todo, st.setsRunning = false) ∧ ∃ st ∈ todo, st.isFinal = true

instance (fn : Fn) (todo : List Stage) : Decidable (UpAt fn todo) :=
  inferInstanceAs (Decidable (_ ∧ _ ∧ _))

/-! ## The launched process -/

/-- The steps of `InitContainer`. -/
inductive InitStage where
  | decode
  | sethostname
  | setupRootfs
  | setupDNS
  | configureContainerNetwork
  | initCommand (commandLine : String)
  | lookPath
  | openOutputLog
  | startMonitor
  | exec
deriving DecidableEq, Repr

/-- What follows the decoding of a request. -/
def InitStage.afterDecode (req : RunRequest) : List InitStage :=
  [.sethostname, .setupRootfs, .setupDNS, .configureContainerNetwork] ++
    req.initCommands.map .initCommand ++ [.lookPath, .openOutputLog, .startMonitor, .exec]

/-- The steps that start another program. -/
def InitStage.isCommand : InitStage → Bool
  | .initCommand _ | .startMonitor | .exec => true
  | _ => false

/-! ## Positions in a program -/

/-- What holds of every rest of every program, checked on each of them. -/
theorem forall_rest {P : Fn → List Stage → Prop}
    (h : ∀ fn, ∀ todo ∈ fn.program.tails, P fn todo) {fn : Fn} {todo : List Stage}
    (htodo : todo <:+ fn.program) : P fn todo :=
  h fn todo ((List.mem_tails _ _).mpr htodo)

/-- The stages of a program are all different, so a stage says where in its program a call is. -/
theorem program_nodup (fn : Fn) : fn.program.Nodup := by
  decide +revert

variable {fn : Fn} {st : Stage} {rest : List Stage}

/-- No stage comes twice. -/
theorem not_mem_rest (h : st :: rest <:+ fn.program) : st ∉ rest :=
  (List.nodup_cons.mp (h.sublist.nodup (program_nodup fn))).1

/-- What is left after a stage is the end of a program, as what was left before. -/
theorem rest_suffix (h : st :: rest <:+ fn.program) : rest <:+ fn.program :=
  (List.suffix_cons st rest).trans h

/-- A launch is followed by a wait. -/
theorem wait_after_launch (h : .launch :: rest <:+ fn.program) : .wait ∈ rest := by
  have all : ∀ fn, ∀ todo ∈ Fn.program fn |>.tails,
      todo.head? = some .launch → .wait ∈ todo.tail := by
    decide
  exact forall_rest all h rfl

/-- An allocation is followed by a release.  The release is deferred in the source, and so it is
also what is left of a call that gives up. -/
theorem release_after_allocate (h : .allocateIP :: rest <:+ fn.program) : .releaseIP ∈ rest := by
  have all : ∀ fn, ∀ todo ∈ Fn.program fn |>.tails,
      todo.head? = some .allocateIP → .releaseIP ∈ todo.tail := by
    decide
  exact forall_rest all h rfl

/-- The release is the last stage. -/
theorem release_last {todo : List Stage} (h : todo <:+ fn.program) (hmem : .releaseIP ∈ todo) :
    [.releaseIP] <:+ fn.program := by
  have all : ∀ fn, ∀ todo ∈ Fn.program fn |>.tails,
      .releaseIP ∈ todo → [.releaseIP] <:+ fn.program := by
    decide
  exact forall_rest all h hmem

theorem nil_after_release (h : .releaseIP :: rest <:+ fn.program) : rest = [] := by
  have all : ∀ fn, ∀ todo ∈ Fn.program fn |>.tails,
      todo.head? = some .releaseIP → todo.tail = [] := by
    decide
  exact forall_rest all h rfl

/-- Only a function that launches a process allocates an address. -/
theorem launches_of_allocate (h : .allocateIP :: rest <:+ fn.program) : fn.launches = true := by
  have all : ∀ fn, ∀ todo ∈ Fn.program fn |>.tails,
      todo.head? = some .allocateIP → fn.launches = true := by
    decide
  exact forall_rest all h rfl

/-- Where an address is allocated at all, the request is sent while it is held. -/
theorem held_at_encode (h : .encode :: rest <:+ fn.program) (hfn : fn ≠ .createAndRun) :
    fn.launches = true ∧ .allocateIP ∉ rest ∧ .releaseIP ∈ rest := by
  have all : ∀ fn, ∀ todo ∈ Fn.program fn |>.tails,
      todo.head? = some .encode → fn ≠ .createAndRun →
        fn.launches = true ∧ .allocateIP ∉ todo.tail ∧ .releaseIP ∈ todo.tail := by
    decide
  exact forall_rest all h rfl hfn

/-- Only a function that launches a process waits for one. -/
theorem launches_of_wait {todo : List Stage} (h : todo <:+ fn.program) (hmem : .wait ∈ todo) :
    fn.launches = true := by
  have all : ∀ fn, ∀ todo ∈ Fn.program fn |>.tails, .wait ∈ todo → fn.launches = true := by
    decide
  exact forall_rest all h hmem

/-- Where a call completes, its wait is over. -/
theorem no_wait_of_completes {todo : List Stage} (h : todo <:+ fn.program)
    (hst : ∃ st ∈ todo.head?, st.completes = true) (hfn : fn.launches = true) : .wait ∉ todo := by
  have all : ∀ fn, ∀ todo ∈ Fn.program fn |>.tails,
      (∃ st ∈ todo.head?, st.completes = true) → fn.launches = true → .wait ∉ todo := by
    decide
  exact forall_rest all h hst hfn

theorem no_launch_at_wait (h : .wait :: rest <:+ fn.program) : .launch ∉ .wait :: rest := by
  have all : ∀ fn, ∀ todo ∈ Fn.program fn |>.tails,
      todo.head? = some .wait → .launch ∉ todo := by
    decide
  exact forall_rest all h rfl

/-- The limits are written by `AdjustResourceLimits` only. -/
theorem adjust_of_limits (h : .write .limits :: rest <:+ fn.program) :
    fn = .adjustResourceLimits := by
  have all : ∀ fn, ∀ todo ∈ Fn.program fn |>.tails,
      todo.head? = some (.write .limits) → fn = .adjustResourceLimits := by
    decide
  exact forall_rest all h rfl

/-- The first record is the first write. -/
theorem no_created_after_write {wr : Write} (h : .write wr :: rest <:+ fn.program) :
    .write .created ∉ rest := by
  have all : ∀ fn, ∀ todo ∈ Fn.program fn |>.tails, ∀ wr,
      todo.head? = some (.write wr) → .write .created ∉ todo.tail := by
    decide
  exact forall_rest all h wr rfl

theorem not_upAt_program (fn : Fn) : ¬ UpAt fn fn.program := by
  decide +revert

/-- A call is up from its write of `Running` on, with the wait ahead. -/
theorem upAt_of_setsRunning (h : st :: rest <:+ fn.program) (hst : st.setsRunning = true) :
    UpAt fn rest ∧ .wait ∈ rest ∧ .launch ∉ st :: rest := by
  have all : ∀ fn, ∀ todo ∈ Fn.program fn |>.tails, (∃ st ∈ todo.head?, st.setsRunning = true) →
      UpAt fn todo.tail ∧ .wait ∈ todo.tail ∧ .launch ∉ todo := by
    decide
  exact forall_rest all h ⟨st, rfl, hst⟩

/-- A call gets up with its write of `Running` and not otherwise. -/
theorem upAt_of_rest (h : UpAt fn rest) (hst : st.setsRunning = false) : UpAt fn (st :: rest) := by
  obtain ⟨hl, hset, final, hmem, hfinal⟩ := h
  refine ⟨hl, fun x hx => ?_, final, List.mem_cons_of_mem _ hmem, hfinal⟩
  rcases List.mem_cons.mp hx with rfl | hx
  · exact hst
  · exact hset x hx

/-- A call that is up stays so, until its write after the wait. -/
theorem upAt_of_not_final (h : UpAt fn (st :: rest)) (hst : ¬ st.isFinal = true) :
    UpAt fn rest := by
  obtain ⟨hl, hset, final, hmem, hfinal⟩ := h
  refine ⟨hl, fun x hx => hset x (List.mem_cons_of_mem _ hx), final, ?_, hfinal⟩
  rcases List.mem_cons.mp hmem with rfl | hmem
  · exact absurd hfinal hst
  · exact hmem

/-- The write after the wait is the last one of a call that is up. -/
theorem upAt_of_isFinal (h : st :: rest <:+ fn.program) (hst : st.isFinal = true) :
    UpAt fn (st :: rest) ∧ ¬ UpAt fn rest := by
  have all : ∀ fn, ∀ todo ∈ Fn.program fn |>.tails, (∃ st ∈ todo.head?, st.isFinal = true) →
      UpAt fn todo ∧ ¬ UpAt fn todo.tail := by
    decide
  exact forall_rest all h ⟨st, rfl, hst⟩

/-- The stages of a call that is up. -/
theorem head_of_upAt (h : st :: rest <:+ fn.program) (hup : UpAt fn (st :: rest)) :
    st = .setupCgroup ∨ st = .wait ∨ st.isFinal = true := by
  have all : ∀ fn, ∀ todo ∈ Fn.program fn |>.tails, UpAt fn todo →
      ∀ st ∈ todo.head?, st = .setupCgroup ∨ st = .wait ∨ st.isFinal = true := by
    decide
  exact forall_rest all h hup st rfl

/-- A call that has its wait ahead has the write after it ahead, too. -/
theorem final_of_wait {todo : List Stage} (h : todo <:+ fn.program) (hmem : .wait ∈ todo) :
    ∃ st ∈ todo, st.isFinal = true := by
  have all : ∀ fn, ∀ todo ∈ Fn.program fn |>.tails, .wait ∈ todo →
      ∃ st ∈ todo, st.isFinal = true := by
    decide
  exact forall_rest all h hmem

/-- Until its write after the wait, a restart either has its write of `Running` ahead
or is up. -/
theorem restarting_or_up {todo : List Stage} (h : todo <:+ Fn.start.program)
    (hfinal : ∃ st ∈ todo, st.isFinal = true) : .write .restarted ∈ todo ∨ UpAt .start todo := by
  have all : ∀ fn, ∀ todo ∈ Fn.program fn |>.tails, fn = .start →
      (∃ st ∈ todo, st.isFinal = true) → .write .restarted ∈ todo ∨ UpAt .start todo := by
    decide
  exact forall_rest all h rfl hfinal

/-- `Start` writes the record twice: with `Running`, and when its process has ended. -/
theorem write_of_start {wr : Write} (h : .write wr :: rest <:+ Fn.start.program) :
    wr = .restarted ∨ wr = .finished := by
  have all : ∀ fn, ∀ todo ∈ Fn.program fn |>.tails, fn = .start → ∀ wr,
      todo.head? = some (.write wr) → wr = .restarted ∨ wr = .finished := by
    decide
  exact forall_rest all h rfl wr rfl

/-- `StopContainer` signals before it writes. -/
theorem no_kill_after_write {wr : Write} (h : .write wr :: rest <:+ fn.program) :
    .kill ∉ rest := by
  have all : ∀ fn, ∀ todo ∈ Fn.program fn |>.tails, ∀ wr,
      todo.head? = some (.write wr) → .kill ∉ todo.tail := by
    decide
  exact forall_rest all h wr rfl

/-- A launched process has its cgroup still to come. -/
theorem setup_after_launch (h : .launch :: rest <:+ fn.program) : .setupCgroup ∈ rest := by
  have all : ∀ fn, ∀ todo ∈ Fn.program fn |>.tails,
      todo.head? = some .launch → .setupCgroup ∈ todo.tail := by
    decide
  exact forall_rest all h rfl

/-- Except in a restart, the request is sent after the cgroup is set up. -/
theorem setup_before_encode {todo : List Stage} (h : todo <:+ fn.program) (hfn : fn ≠ .start)
    (hencode : .encode ∉ todo) : .setupCgroup ∉ todo := by
  have all : ∀ fn, ∀ todo ∈ Fn.program fn |>.tails, fn ≠ .start →
      .encode ∉ todo → .setupCgroup ∉ todo := by
    decide
  exact forall_rest all h hfn hencode

/-- The limits of a cgroup are changed by `AdjustResourceLimits` only. -/
theorem adjust_of_setResourceLimits (h : .setResourceLimits :: rest <:+ fn.program) :
    fn = .adjustResourceLimits := by
  have all : ∀ fn, ∀ todo ∈ Fn.program fn |>.tails,
      todo.head? = some .setResourceLimits → fn = .adjustResourceLimits := by
    decide
  exact forall_rest all h rfl

end Gocker.Container
