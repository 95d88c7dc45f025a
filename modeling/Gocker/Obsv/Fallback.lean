import Gocker.Obsv.Modules

/-!
# Falling back to the constants

The comments on `load_cfg` say that the constants in `.rodata` hold until user space has
written `cfg_map`.  A module is run here on any sequence of events and of attempts to write
the map, and its decisions are compared with those of the same run under the constants.

`fallback_iff` is the result: the element of the array is there from the start, so that the
decisions are those of a configuration of zeros.

### An element of an array

`bpf_map_lookup_elem` on an array gives a pointer for every index in range, whether the element
has been written or not.  So `load_cfg` never falls back to the constants, and its zeros turn the
filter off and leave every event in.  The constants in the source turn the filter on, with no
cgroup as its target, and the collector may load the modules with others; the comments promise
those.
-/

namespace Gocker.Obsv

variable {n : ℕ} {α : Type} {m : Module}

/-- A module between two events. -/
structure Running (m : Module) (n : ℕ) where
  state : m.State n
  counters : Fin n → UInt64

/-- A module as it is loaded. -/
def Running.start : Running m n := { state := m.init, counters := fun _ => 0 }

/-- An attempt to write the configuration, or an event. -/
inductive Action (m : Module) (n : ℕ) where
  /-- `writeCfgAll`, as far as the map of this module is concerned -/
  | write (c : Cfg)
  | event (ctx : Ctx n) (e : m.Event)

/-- The decisions at each event, where `load` is what `load_cfg` makes of the map. -/
def decisions (load : CfgMap → Cfg) : CfgMap → Running m n → List (Action m n) →
    List (List (Decision n))
  | _, _, [] => []
  | map, s, .write c :: as => decisions load ((CfgMap.update c).getD map) s as
  | map, s, .event ctx e :: as =>
      let ran := (m.handle ctx e s.state).run m (load map) ctx s.counters
      ran.decisions :: decisions load map ⟨ran.value, ran.counters⟩ as

/-- What the module decides. -/
def decided (rodata : Cfg) (as : List (Action m n)) : List (List (Decision n)) :=
  decisions (loadCfg rodata) .new .start as

/-- What the constants decide. -/
def intended (rodata : Cfg) (as : List (Action m n)) : List (List (Decision n)) :=
  decisions (fun _ => rodata.effective) .new .start as

/-- The constants let the check pass: the task is in their subtree, or they do not filter;
they sample everything. -/
def Passes (rodata : Cfg) : Decision n → Prop
  | .filter current _ => inTargetSubtreeCurrent rodata.effective current = true
  | .sample _ _ => rodata.sampleRate ≤ 1

/-! ## One event -/

/-- Without a configuration every task passes the filter. -/
theorem filter_unwritten (t : Task) : inTargetSubtreeCurrent unwritten t = true := rfl

/-- At a rate of one every value of the counter passes. -/
theorem mod_one (pc : UInt64) : pc % (1 : UInt32).toUInt64 = 0 := by
  apply UInt64.toNat.inj
  rw [UInt64.toNat_mod]
  exact Nat.mod_one _

theorem sample_unwritten (pc : UInt64) : (m.passSample unwritten.sampleRate pc).1 = true := by
  cases m with
  | pf | sched | sys => exact decide_eq_true (mod_one _)
  | cpu | mem => rfl

/-- The first event that is sampled at a rate above one does not pass. -/
theorem sample_first {rate : UInt32} (h : 1 < rate) :
    (m.passSample rate 0).1 = false := by
  have hone : (0 + 1 : UInt64) % rate.toUInt64 ≠ 0 := by
    intro hzero
    have hmod := congrArg UInt64.toNat hzero
    rw [UInt64.toNat_mod, UInt32.toNat_toUInt64] at hmod
    have hlt : 1 < rate.toNat := UInt32.lt_iff_toNat_lt.mp h
    rw [show (0 + 1 : UInt64).toNat = 1 from rfl, Nat.mod_eq_of_lt hlt] at hmod
    cases hmod
  have hle : ¬ rate ≤ 1 := UInt32.not_le.mpr h
  cases m with
  | pf | sched | sys => simpa [Module.passSample] using hone
  | cpu | mem => simpa [Module.passSample, hle] using hone

/-- A constant rate of zero or one is that of zeros. -/
theorem effective_rate_of_le {rodata : Cfg} (h : rodata.sampleRate ≤ 1) :
    rodata.effective.sampleRate = unwritten.sampleRate := by
  have hcases : rodata.sampleRate = 0 ∨ rodata.sampleRate = 1 := by
    have hle := UInt32.le_iff_toNat_le.mp h
    rcases Nat.le_one_iff_eq_zero_or_eq_one.mp hle with h0 | h1
    · exact .inl (UInt32.toNat.inj h0)
    · exact .inr (UInt32.toNat.inj h1)
  rcases hcases with h0 | h1
  · simp [Cfg.effective, unwritten, h0]
  · simp [Cfg.effective, unwritten, h1]

theorem one_lt_effective_rate {rodata : Cfg} (h : ¬ rodata.sampleRate ≤ 1) :
    1 < rodata.effective.sampleRate := by
  have hlt := UInt32.not_le.mp h
  have hne : rodata.sampleRate ≠ 0 := by
    rintro hzero
    rw [hzero] at hlt
    exact absurd hlt (by decide)
  rwa [Cfg.effective, if_pos hne]

/-- How the counters of the two runs belong together: they are the same where the
constants sample everything, and are still untouched under the constants otherwise. -/
def Matched (rodata : Cfg) (counters counters' : Fin n → UInt64) : Prop :=
  (rodata.sampleRate ≤ 1 → counters = counters') ∧
    (¬ rodata.sampleRate ≤ 1 → counters' = fun _ => 0)

/-- A handler that decides the same has the same value, and leaves the counters matched. -/
theorem Checked.run_of_passes {rodata : Cfg} {ctx : Ctx n} {p : Checked α}
    {counters counters' : Fin n → UInt64} (hc : Matched rodata counters counters')
    (h : ∀ d ∈ (p.run m unwritten ctx counters).decisions, Passes rodata d) :
    (p.run m unwritten ctx counters).decisions =
        (p.run m rodata.effective ctx counters').decisions ∧
      (p.run m unwritten ctx counters).value = (p.run m rodata.effective ctx counters').value ∧
      Matched rodata (p.run m unwritten ctx counters).counters
        (p.run m rodata.effective ctx counters').counters := by
  induction p generalizing counters counters' with
  | done a => exact ⟨rfl, rfl, hc⟩
  | inTargetSubtree next ih =>
      have hhere : inTargetSubtreeCurrent rodata.effective ctx.current = true :=
        h _ List.mem_cons_self
      obtain ⟨hdec, hval, hcnt⟩ := ih true hc fun d hd => h d (List.mem_cons_of_mem _ hd)
      simp only [run, filter_unwritten, hhere]
      exact ⟨by rw [hdec], hval, hcnt⟩
  | passSample next ih =>
      have hrate : rodata.sampleRate ≤ 1 := h (.sample ctx.cpu _) List.mem_cons_self
      obtain rfl := hc.1 hrate
      have hc' : Matched rodata
          (Function.update counters ctx.cpu
            (m.passSample unwritten.sampleRate (counters ctx.cpu)).2)
          (Function.update counters ctx.cpu
            (m.passSample unwritten.sampleRate (counters ctx.cpu)).2) :=
        ⟨fun _ => rfl, fun hnot => absurd hrate hnot⟩
      have htail := fun d hd => h d (List.mem_cons_of_mem _ hd)
      rw [sample_unwritten] at htail
      obtain ⟨hdec, hval, hcnt⟩ := ih true hc' htail
      simp only [run, effective_rate_of_le hrate, sample_unwritten]
      exact ⟨by rw [hdec], hval, hcnt⟩

/-- A check that the constants do not let pass is decided otherwise. -/
theorem Checked.passes_of_run {rodata : Cfg} {ctx : Ctx n} {p : Checked α}
    {counters counters' : Fin n → UInt64} (hc : Matched rodata counters counters')
    (h : (p.run m unwritten ctx counters).decisions =
      (p.run m rodata.effective ctx counters').decisions) :
    ∀ d ∈ (p.run m unwritten ctx counters).decisions, Passes rodata d := by
  induction p generalizing counters counters' with
  | done a => exact List.forall_mem_nil _
  | inTargetSubtree next ih =>
      obtain ⟨hhead, htail⟩ := List.cons.inj h
      have hhere : inTargetSubtreeCurrent rodata.effective ctx.current = true :=
        (Decision.filter.inj hhead).2.symm
      rw [filter_unwritten, hhere] at htail
      refine List.forall_mem_cons.mpr ⟨hhere, ?_⟩
      rw [filter_unwritten]
      exact ih true hc htail
  | passSample next ih =>
      obtain ⟨hhead, htail⟩ := List.cons.inj h
      have hpassed := (Decision.sample.inj hhead).2
      rw [sample_unwritten] at hpassed
      have hrate : rodata.sampleRate ≤ 1 := by
        by_contra hnot
        -- nothing has been counted under the constants, so this is a first event
        rw [hc.2 hnot, sample_first (one_lt_effective_rate hnot)] at hpassed
        cases hpassed
      obtain rfl := hc.1 hrate
      rw [effective_rate_of_le hrate] at htail
      refine List.forall_mem_cons.mpr ⟨hrate, ih _ ⟨fun _ => rfl, fun hnot => absurd hrate hnot⟩ ?_⟩
      exact htail

/-! ## All events -/

/-- The decisions are those under the constants exactly if each of them is that everything
passes. -/
theorem decisions_iff {rodata : Cfg} (as : List (Action m n)) {state : m.State n}
    {counters counters' : Fin n → UInt64} (hc : Matched rodata counters counters') :
    decisions (loadCfg rodata) .new ⟨state, counters⟩ as =
        decisions (fun _ => rodata.effective) .new ⟨state, counters'⟩ as ↔
      ∀ ds ∈ decisions (loadCfg rodata) .new ⟨state, counters⟩ as, ∀ d ∈ ds, Passes rodata d := by
  induction as generalizing state counters counters' with
  | nil => exact ⟨fun _ => List.forall_mem_nil _, fun _ => rfl⟩
  | cons a as ih =>
      cases a with
      | write c =>
          simp only [decisions, update_eq_none, Option.getD_none]
          exact ih hc
      | event ctx e =>
          simp only [decisions, loadCfg_new, List.forall_mem_cons, List.cons.injEq]
          constructor
          · rintro ⟨hhead, htail⟩
            have hpass := Checked.passes_of_run hc hhead
            obtain ⟨-, hval, hcnt⟩ := Checked.run_of_passes hc hpass
            rw [← hval] at htail
            exact ⟨hpass, (ih hcnt).mp htail⟩
          · rintro ⟨hpass, htail⟩
            obtain ⟨hdec, hval, hcnt⟩ := Checked.run_of_passes hc hpass
            refine ⟨hdec, ?_⟩
            rw [← hval]
            exact (ih hcnt).mpr htail

/-- **The constants decide** if and only if they let every check pass that is made: each
filtered event is in their subtree (or they do not filter), and they sample everything (or
no event gets as far as the sampling). -/
theorem fallback_iff (rodata : Cfg) (as : List (Action m n)) :
    decided rodata as = intended rodata as ↔
      ∀ ds ∈ decided rodata as, ∀ d ∈ ds, Passes rodata d :=
  decisions_iff as ⟨fun _ => rfl, fun _ => rfl⟩

/-- A page fault of a task outside of the target, before anything has been written. -/
theorem filter_off :
    let rodata : Cfg := { sampleRate := 1, enableFilter := 1, targetLevel := 1, targetCgid := 42 }
    let fault : Action .pf 1 :=
      .event { cpu := 0, current := { pid := 7, cgroups := [1, 43] } } PfEvent.pageFaultUser
    decided rodata [fault] = [[.filter { pid := 7, cgroups := [1, 43] } true, .sample 0 true]] ∧
      decided rodata [fault] ≠ intended rodata [fault] := by
  decide +kernel

end Gocker.Obsv
