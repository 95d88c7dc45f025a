import Gocker.Obsv.Config
import Mathlib.Algebra.BigOperators.Fin
import Mathlib.Data.UInt
import Mathlib.Logic.Function.Basic

/-!
# What the BPF modules share

The context in which a tracepoint fires, the per-CPU counters, and the two checks:
`in_target_subtree_current` (the filter) and `pass_sample` (the sampling).  A handler is a
`Checked` computation: it asks the checks and goes on with their results.  `Checked.run`
answers them and notes the answers.

### Why the checks are kept apart

The modules have copies of the two functions of their own, and the copies of `pass_sample`
differ (`Module.passSample`).  A handler is therefore written without them, as a question and what
follows each answer; the same handler can then be run under any configuration, and the answers
of two runs be compared.
-/

namespace Gocker.Obsv

/-- The task that is current when a tracepoint fires. -/
structure Task where
  pid : UInt32
  /-- the IDs of the cgroups from the root of the hierarchy down to its own -/
  cgroups : List UInt64
deriving DecidableEq, Repr

namespace Task

/-- `bpf_get_current_cgroup_id` -/
def cgroupID (t : Task) : UInt64 := t.cgroups.getLastD 0

/-- `bpf_get_current_ancestor_cgroup_id((int)lvl)`, zero if there is none at this level. -/
def ancestorCgroupID (t : Task) (lvl : UInt32) : UInt64 :=
  if lvl < 0x80000000 then t.cgroups.getD lvl.toNat 0 else 0

end Task

/-- Where a tracepoint fires; `room` says whether a full map still takes a new key. -/
structure Ctx (n : ℕ) where
  cpu : Fin n
  current : Task
  room : Bool := true
deriving DecidableEq

/-! ## Per-CPU counters -/

/-- `struct cg_key`, whose `pad` is always zero. -/
structure CgKey where
  cgid : UInt64
  type : UInt32
deriving DecidableEq, Repr

/-- A `BPF_MAP_TYPE_PERCPU_HASH` of counters. -/
abbrev PerCpuHash (n : ℕ) := CgKey → Option (Fin n → UInt64)

namespace PerCpuHash

variable {n : ℕ}

/-- A map without keys. -/
def empty : PerCpuHash n := fun _ => none

/-- Look the key up, insert a zero if it is not there, and add to the value of this CPU. -/
def add (m : PerCpuHash n) (ctx : Ctx n) (key : CgKey) (delta : UInt64) : PerCpuHash n :=
  let inserted :=
    if m key = none ∧ ctx.room then Function.update m key (some fun _ => 0) else m
  match inserted key with
  | none => inserted
  | some val =>
      Function.update inserted key
        (some (Function.update val ctx.cpu (val ctx.cpu + delta)))

/-- Nothing is added for no cgroup, and nothing if there is nothing to add. -/
def addNonzero (m : PerCpuHash n) (ctx : Ctx n) (cgid : UInt64) (type : UInt32)
    (delta : UInt64) : PerCpuHash n :=
  if cgid = 0 ∨ delta = 0 then m else m.add ctx ⟨cgid, type⟩ delta

/-- The value of a key, summed over the CPUs. -/
def total (m : PerCpuHash n) (key : CgKey) : UInt64 :=
  match m key with
  | none => 0
  | some val => ∑ i, val i

end PerCpuHash

/-! ## The checks -/

/-- `in_target_subtree_current`: without the filter every task passes, with it those whose
ancestor at the level is the target. -/
def inTargetSubtreeCurrent (c : Cfg) (current : Task) : Bool :=
  if c.enableFilter = 0 then true
  else
    let anc := current.ancestorCgroupID c.targetLevel
    anc ≠ 0 && anc = c.targetCgid

/-- `pass_sample` on the counter of the CPU.  The copies differ in when they count and in
whether a rate of one is special.  `sys` has no copy, and its handlers never ask. -/
def Module.passSample : Module → UInt32 → UInt64 → Bool × UInt64
  | .pf, rate, pc | .sched, rate, pc | .sys, rate, pc =>
      ((pc + 1) % rate.toUInt64 = 0, pc + 1)
  | .cpu, rate, pc => (rate ≤ 1 || (pc + 1) % rate.toUInt64 = 0, pc + 1)
  | .mem, rate, pc =>
      if rate ≤ 1 then (true, pc) else ((pc + 1) % rate.toUInt64 = 0, pc + 1)

/-- A handler that asks the checks. -/
inductive Checked (α : Type) where
  | done (a : α)
  | inTargetSubtree (next : Bool → Checked α)
  | passSample (next : Bool → Checked α)

/-- A check that was made, and its result. -/
inductive Decision (n : ℕ) where
  | filter (current : Task) (passed : Bool)
  | sample (cpu : Fin n) (passed : Bool)
deriving DecidableEq

/-- What a handler has done, how far the counters of `pass_sample` are, and what the checks have
said. -/
structure Ran (α : Type) (n : ℕ) where
  value : α
  counters : Fin n → UInt64
  decisions : List (Decision n)

namespace Checked

variable {α : Type} {n : ℕ}

/-- Run a handler with this configuration, as `load_cfg` gives it. -/
def run (m : Module) (c : Cfg) (ctx : Ctx n) : Checked α → (Fin n → UInt64) → Ran α n
  | .done a, counters => { value := a, counters := counters, decisions := [] }
  | .inTargetSubtree next, counters =>
      let passed := inTargetSubtreeCurrent c ctx.current
      let ran := (next passed).run m c ctx counters
      { ran with decisions := .filter ctx.current passed :: ran.decisions }
  | .passSample next, counters =>
      let sampled := m.passSample c.sampleRate (counters ctx.cpu)
      let ran := (next sampled.1).run m c ctx (Function.update counters ctx.cpu sampled.2)
      { ran with decisions := .sample ctx.cpu sampled.1 :: ran.decisions }

/-- Handle an event unless the check says no. -/
def ifInTarget (skip : α) (k : Checked α) : Checked α :=
  .inTargetSubtree fun passed => if passed then k else .done skip

/-- `if (!pass_sample()) return 0;` -/
def ifSampled (skip : α) (k : Checked α) : Checked α :=
  .passSample fun passed => if passed then k else .done skip

end Checked

end Gocker.Obsv
