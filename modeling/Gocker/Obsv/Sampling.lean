import Gocker.Obsv.Fallback

/-!
# One event in `r`

`pass_sample` (`gocker-obsv/bpf`), called on any number of CPUs while the configuration
changes.  The copies of the function count before or after they test the rate, and the one in
`mem` does not count at a rate of one.

`sampling_exact` says what they have in common: while the rate of a CPU stays `r`, every
`r`-th value of its counter passes.  `answers_of_firings` says that the events of a module
ask `pass_sample` in no other way.

### Where the copies differ

`pf` and `sched` count each call and go by the remainder alone; `cpu` counts as well, but lets
everything pass at a rate of one; `mem` does not even count then.  After a change of the rate the
counters therefore stand at different values, and different events pass next; what stays the
same is that of `r` calls in a row one passes, from the next multiple on.  `sys` has no sampling,
and its copy in the model is never asked.
-/

namespace Gocker.Obsv

variable {n : ℕ} {m : Module} {rodata : Cfg}

/-- A call of `pass_sample`: its CPU, and `cfg_map` as it finds it. -/
structure SampleCall (n : ℕ) where
  cpu : Fin n
  map : CfgMap
deriving DecidableEq

namespace SampleCall

/-- What `load_cfg` makes of `sample_rate`. -/
def rate (rodata : Cfg) (call : SampleCall n) : UInt32 := (loadCfg rodata call.map).sampleRate

/-- Whether the call passes, and the counter of its CPU afterwards. -/
def sampled (m : Module) (rodata : Cfg) (counters : Fin n → UInt64) (call : SampleCall n) :
    Bool × UInt64 :=
  m.passSample (call.rate rodata) (counters call.cpu)

/-- The counters afterwards. -/
def next (m : Module) (rodata : Cfg) (counters : Fin n → UInt64) (call : SampleCall n) :
    Fin n → UInt64 :=
  Function.update counters call.cpu (call.sampled m rodata counters).2

/-- The modulo is never by zero. -/
theorem rate_ne_zero (call : SampleCall n) (rodata : Cfg) : call.rate rodata ≠ 0 := by
  have heffective : ∀ c : Cfg, c.effective.sampleRate ≠ 0 := by
    intro c
    rw [Cfg.effective]
    split_ifs with hrate
    · exact hrate
    · exact (by decide : (1 : UInt32) ≠ 0)
  unfold rate loadCfg
  cases call.map.lookupElem 0 with
  | none => exact heffective rodata
  | some value => exact heffective (Cfg.ofValues (Layout.read cfgFields value))

end SampleCall

/-- The counters after these calls. -/
def countersAfter (m : Module) (rodata : Cfg) (counters : Fin n → UInt64)
    (calls : List (SampleCall n)) : Fin n → UInt64 :=
  calls.foldl (SampleCall.next m rodata) counters

/-- What the calls return, each with its CPU. -/
def answers (m : Module) (rodata : Cfg) :
    (Fin n → UInt64) → List (SampleCall n) → List (Fin n × Bool)
  | _, [] => []
  | counters, call :: calls =>
      (call.cpu, (call.sampled m rodata counters).1) ::
        answers m rodata (call.next m rodata counters) calls

/-- The number of calls on a CPU. -/
def callsOn (cpu : Fin n) (calls : List (SampleCall n)) : ℕ := calls.countP (·.cpu = cpu)

/-- The number of calls on a CPU that pass. -/
def passesOn (m : Module) (rodata : Cfg) (counters : Fin n → UInt64) (cpu : Fin n)
    (calls : List (SampleCall n)) : ℕ :=
  (answers m rodata counters calls).count (cpu, true)

/-! ## One call -/

/-- **All copies of `pass_sample`.**  A call counts, and passes if the rate divides the
counter; or the rate is one, and it passes without counting. -/
theorem passSample_cases (m : Module) {rate : UInt32} (pc : UInt64) (hrate : rate ≠ 0)
    (hpc : pc.toNat + 1 < 2 ^ 64) :
    (((m.passSample rate pc).1 = true ↔ rate.toNat ∣ pc.toNat + 1) ∧
        (m.passSample rate pc).2.toNat = pc.toNat + 1) ∨
      rate = 1 ∧ m.passSample rate pc = (true, pc) := by
  have hcount : (pc + 1).toNat = pc.toNat + 1 := by
    rw [UInt64.toNat_add]
    exact Nat.mod_eq_of_lt hpc
  have hmod : (pc + 1) % rate.toUInt64 = 0 ↔ rate.toNat ∣ pc.toNat + 1 := by
    rw [Nat.dvd_iff_mod_eq_zero, ← hcount, ← UInt64.toNat_inj, UInt64.toNat_mod,
      UInt32.toNat_toUInt64]
    rfl
  have hle : rate ≤ 1 ↔ rate = 1 := by
    rw [UInt32.le_iff_toNat_le, ← UInt32.toNat_inj]
    have hpos : rate.toNat ≠ 0 := fun hzero => hrate (UInt32.toNat_inj.mp hzero)
    show rate.toNat ≤ 1 ↔ rate.toNat = 1
    omega
  cases m with
  | pf | sched | sys => exact .inl ⟨by rw [← hmod]; exact decide_eq_true_iff, hcount⟩
  | cpu =>
      refine .inl ⟨?_, hcount⟩
      rw [← hmod]
      show (decide (rate ≤ 1) || decide ((pc + 1) % rate.toUInt64 = 0)) = true ↔ _
      rw [Bool.or_eq_true, decide_eq_true_iff, decide_eq_true_iff, or_iff_right_iff_imp, hle]
      rintro rfl
      exact mod_one (pc + 1)
  | mem =>
      show (((if rate ≤ 1 then (true, pc) else _ : Bool × UInt64).1 = true ↔ _) ∧ _) ∨ _
      by_cases hone : rate = 1
      · exact .inr ⟨hone, if_pos (hle.mpr hone)⟩
      · simp only [Module.passSample, if_neg (mt hle.mp hone)]
        exact .inl ⟨by rw [← hmod]; exact decide_eq_true_iff, hcount⟩

/-! ## The events of a module -/

/-- An event of a module, and `cfg_map` at that time. -/
structure Firing (m : Module) (n : ℕ) where
  ctx : Ctx n
  event : m.Event
  map : CfgMap

/-- The decisions at these events. -/
def firedDecisions (rodata : Cfg) : Running m n → List (Firing m n) → List (Decision n)
  | _, [] => []
  | s, f :: fs =>
      let ran := (m.handle f.ctx f.event s.state).run m (loadCfg rodata f.map) f.ctx s.counters
      ran.decisions ++ firedDecisions rodata ⟨ran.value, ran.counters⟩ fs

/-- The result of a call of `pass_sample`. -/
def Decision.answer : Decision n → Option (Fin n × Bool)
  | .filter .. => none
  | .sample cpu passed => some (cpu, passed)

/-- The answers to more calls come behind those to the first ones. -/
theorem answers_append (counters : Fin n → UInt64) (before calls : List (SampleCall n)) :
    answers m rodata counters (before ++ calls) =
      answers m rodata counters before ++
        answers m rodata (countersAfter m rodata counters before) calls := by
  induction before generalizing counters with
  | nil => rfl
  | cons call before ih =>
      simp only [List.cons_append, answers, ih]
      rfl

/-- A handler calls `pass_sample` on its CPU, as often as it asks. -/
theorem Checked.run_answers {α : Type} (p : Checked α) (m : Module) (rodata : Cfg) (map : CfgMap)
    (ctx : Ctx n) (counters : Fin n → UInt64) :
    ∃ k, (p.run m (loadCfg rodata map) ctx counters).decisions.filterMap Decision.answer =
        answers m rodata counters (List.replicate k ⟨ctx.cpu, map⟩) ∧
      (p.run m (loadCfg rodata map) ctx counters).counters =
        countersAfter m rodata counters (List.replicate k ⟨ctx.cpu, map⟩) := by
  induction p generalizing counters with
  | done a => exact ⟨0, rfl, rfl⟩
  | inTargetSubtree next ih => exact ih _ counters
  | passSample next ih =>
      obtain ⟨k, hanswers, hcounters⟩ := ih
        ((⟨ctx.cpu, map⟩ : SampleCall n).sampled m rodata counters).1
        ((⟨ctx.cpu, map⟩ : SampleCall n).next m rodata counters)
      refine ⟨k + 1, ?_, hcounters⟩
      rw [List.replicate_succ, answers, ← hanswers]
      rfl

/-- **A module samples by calls of `pass_sample`**, each at one of its events. -/
theorem answers_of_firings (s : Running m n) (fs : List (Firing m n)) :
    ∃ calls : List (SampleCall n), (∀ call ∈ calls, ∃ f ∈ fs, call = ⟨f.ctx.cpu, f.map⟩) ∧
      (firedDecisions rodata s fs).filterMap Decision.answer =
        answers m rodata s.counters calls := by
  induction fs generalizing s with
  | nil => exact ⟨[], List.forall_mem_nil _, rfl⟩
  | cons f fs ih =>
      obtain ⟨k, hhere, hcounters⟩ :=
        (m.handle f.ctx f.event s.state).run_answers m rodata f.map f.ctx s.counters
      obtain ⟨calls, hcalls, hrest⟩ := ih
        ⟨((m.handle f.ctx f.event s.state).run m (loadCfg rodata f.map) f.ctx s.counters).value,
          ((m.handle f.ctx f.event s.state).run m (loadCfg rodata f.map) f.ctx s.counters).counters⟩
      refine ⟨List.replicate k ⟨f.ctx.cpu, f.map⟩ ++ calls, ?_, ?_⟩
      · intro call hcall
        rcases List.mem_append.mp hcall with hnow | hlater
        · exact ⟨f, List.mem_cons_self, List.eq_of_mem_replicate hnow⟩
        · obtain ⟨f', hf', rfl⟩ := hcalls call hlater
          exact ⟨f', List.mem_cons_of_mem _ hf', rfl⟩
      · rw [firedDecisions, List.filterMap_append, hhere, hrest, answers_append, hcounters]

/-! ## A stretch of calls -/

section
variable {counters : Fin n → UInt64} {cpu : Fin n} {calls : List (SampleCall n)}

theorem passesOn_cons (counters : Fin n → UInt64) (cpu : Fin n) (call : SampleCall n)
    (calls : List (SampleCall n)) :
    passesOn m rodata counters cpu (call :: calls) =
      passesOn m rodata (call.next m rodata counters) cpu calls +
        if call.cpu = cpu ∧ (call.sampled m rodata counters).1 = true then 1 else 0 := by
  unfold passesOn
  rw [answers, List.count_cons]
  simp only [beq_iff_eq, Prod.mk.injEq]

theorem callsOn_cons_self (call : SampleCall n) (calls : List (SampleCall n)) :
    callsOn call.cpu (call :: calls) = callsOn call.cpu calls + 1 :=
  List.countP_cons_of_pos (decide_eq_true rfl)

theorem callsOn_cons_of_ne {call : SampleCall n} (h : call.cpu ≠ cpu)
    (calls : List (SampleCall n)) :
    callsOn cpu (call :: calls) = callsOn cpu calls :=
  List.countP_cons_of_neg (by simpa using h)

/-- A call leaves the counters of the other CPUs alone. -/
theorem SampleCall.next_of_ne {call : SampleCall n} (m : Module) (rodata : Cfg)
    (counters : Fin n → UInt64) (h : call.cpu ≠ cpu) :
    call.next m rodata counters cpu = counters cpu :=
  Function.update_of_ne (Ne.symm h) ..

theorem SampleCall.next_self (call : SampleCall n) :
    call.next m rodata counters call.cpu = (call.sampled m rodata counters).2 :=
  Function.update_self ..

/-- **What a stretch of calls lets pass**, from any values of the counters. -/
theorem passesOn_eq (m : Module) {r : UInt32} (hr : r ≠ 0)
    (hrate : ∀ call ∈ calls, call.cpu = cpu → call.rate rodata = r)
    (hcount : (counters cpu).toNat + callsOn cpu calls < 2 ^ 64) :
    passesOn m rodata counters cpu calls =
      ((counters cpu).toNat + callsOn cpu calls) / r.toNat - (counters cpu).toNat / r.toNat := by
  induction calls generalizing counters with
  | nil => exact (Nat.sub_self _).symm
  | cons call calls ih =>
      have hrest : ∀ c ∈ calls, c.cpu = cpu → c.rate rodata = r :=
        fun c hc => hrate c (List.mem_cons_of_mem _ hc)
      rw [passesOn_cons]
      by_cases hcpu : call.cpu = cpu
      · subst hcpu
        rw [callsOn_cons_self] at hcount ⊢
        have hsampled : call.sampled m rodata counters = m.passSample r (counters call.cpu) := by
          rw [SampleCall.sampled, hrate call List.mem_cons_self rfl]
        rcases passSample_cases m (counters call.cpu) hr (by omega) with
          ⟨hpass, hnext⟩ | ⟨rfl, hall⟩
        · rw [← hsampled] at hpass hnext
          rw [← SampleCall.next_self] at hnext
          rw [ih hrest (by omega), hnext]
          -- the calls that pass are the multiples that the counter comes to
          have hsucc := Nat.succ_div (a := (counters call.cpu).toNat) (b := r.toNat)
          have hle : ((counters call.cpu).toNat + 1) / r.toNat ≤
              ((counters call.cpu).toNat + 1 + callsOn call.cpu calls) / r.toNat :=
            Nat.div_le_div_right (Nat.le_add_right ..)
          rw [Nat.add_comm (callsOn call.cpu calls) 1, ← Nat.add_assoc]
          simp only [hpass, true_and]
          omega
        · -- at a rate of one, a call that does not count passes too
          have hsame : call.next m rodata counters call.cpu = counters call.cpu := by
            rw [SampleCall.next_self, hsampled, hall]
          rw [ih hrest (by rw [hsame]; omega), hsame, hsampled, hall]
          show (_ / 1 - _ / 1) + _ = _ / 1 - _ / 1
          simp only [Nat.div_one, and_self, if_true]
          omega
      · rw [callsOn_cons_of_ne hcpu] at hcount ⊢
        rw [if_neg (fun h => hcpu h.1), Nat.add_zero]
        have hother := SampleCall.next_of_ne m rodata counters hcpu
        rw [ih hrest (by rwa [hother]), hother]

/-- A counter has counted no more than the calls. -/
theorem countersAfter_le (hcount : (counters cpu).toNat + callsOn cpu calls < 2 ^ 64) :
    (countersAfter m rodata counters calls cpu).toNat ≤
      (counters cpu).toNat + callsOn cpu calls := by
  induction calls generalizing counters with
  | nil => exact Nat.le_refl _
  | cons call calls ih =>
      rw [countersAfter, List.foldl_cons, ← countersAfter]
      by_cases hcpu : call.cpu = cpu
      · subst hcpu
        rw [callsOn_cons_self] at hcount ⊢
        have hnext : (call.next m rodata counters call.cpu).toNat ≤
            (counters call.cpu).toNat + 1 := by
          rw [SampleCall.next_self, SampleCall.sampled]
          rcases passSample_cases m (counters call.cpu) (call.rate_ne_zero rodata) (by omega) with
            ⟨-, hcounted⟩ | ⟨-, hall⟩
          · exact hcounted.le
          · rw [hall]
            exact Nat.le_succ _
        have hrest := @ih (call.next m rodata counters) (by omega)
        omega
      · have hother := SampleCall.next_of_ne m rodata counters hcpu
        rw [callsOn_cons_of_ne hcpu] at hcount ⊢
        rw [← hother]
        exact ih (by rwa [hother])

end

/-- **One call in `r` passes**, on every CPU and for every history of configurations: a stretch
of calls at the rate `r` lets as many pass as there are multiples of `r` that its counter
comes to.  Every call is allowed at a rate of one, and exactly one of any `r` consecutive
calls; no rate is zero. -/
theorem sampling_exact (m : Module) (rodata : Cfg) (before calls : List (SampleCall n))
    (cpu : Fin n) (r : UInt32) (hrate : ∀ call ∈ calls, call.cpu = cpu → call.rate rodata = r)
    (hcount : callsOn cpu (before ++ calls) < 2 ^ 64) :
    let counters := countersAfter m rodata (fun _ => 0) before
    let c := (counters cpu).toNat
    let passes := passesOn m rodata counters cpu calls
    passes = (c + callsOn cpu calls) / r.toNat - c / r.toNat ∧
      (r = 1 → passes = callsOn cpu calls) ∧
      (r ≠ 0 → callsOn cpu calls = r.toNat → passes = 1) ∧
      ∀ call ∈ before ++ calls, (call.rate rodata).toUInt64 ≠ 0 := by
  intro counters c passes
  have hsplit : callsOn cpu (before ++ calls) = callsOn cpu before + callsOn cpu calls :=
    List.countP_append
  have hzero : ((fun _ => 0 : Fin n → UInt64) cpu).toNat + callsOn cpu before < 2 ^ 64 := by
    show 0 + callsOn cpu before < 2 ^ 64
    omega
  have hbefore : c ≤ 0 + callsOn cpu before := countersAfter_le hzero
  have hfits : c + callsOn cpu calls < 2 ^ 64 := by omega
  have hexact : passes = (c + callsOn cpu calls) / r.toNat - c / r.toNat := by
    by_cases hr : r = 0
    · -- there is no such rate, so there is no call
      have hnone : ∀ call ∈ calls, call.cpu ≠ cpu := by
        intro call hcall hcpu
        exact call.rate_ne_zero rodata ((hrate call hcall hcpu).trans hr)
      have hzero : callsOn cpu calls = 0 := by
        apply List.countP_eq_zero.mpr
        intro call hcall
        simpa using hnone call hcall
      have hone : passes = (c + callsOn cpu calls) / (1 : UInt32).toNat - c / (1 : UInt32).toNat :=
        passesOn_eq m (by decide) (fun call hcall hcpu => absurd hcpu (hnone call hcall)) hfits
      rw [hzero] at hone ⊢
      rw [Nat.add_zero, Nat.sub_self] at hone ⊢
      exact hone
    · exact passesOn_eq m hr hrate hfits
  refine ⟨hexact, ?_, ?_, ?_⟩
  · rintro rfl
    rw [hexact]
    show (_ / 1 - _ / 1) = _
    rw [Nat.div_one, Nat.div_one, Nat.add_sub_cancel_left]
  · intro hr hall
    have hpos : 0 < r.toNat := Nat.pos_of_ne_zero fun hzero => hr (UInt32.toNat_inj.mp hzero)
    rw [hexact, hall, Nat.add_div_right _ hpos, Nat.succ_sub (Nat.le_refl _), Nat.sub_self]
  · intro call _ hzero
    apply call.rate_ne_zero rodata
    apply UInt32.toNat_inj.mp
    rw [← UInt32.toNat_toUInt64, hzero]
    rfl

/-- `cfg_map` with this `sample_rate`. -/
def rated (rate : ℕ) : CfgMap := ⟨Layout.memory cfgFields [rate, 1, 1, 42]⟩

/-- The counter of the first CPU is at two when its rate becomes three; the other CPU goes on
at its own rate. -/
theorem sampling_exact_three :
    let before : List (SampleCall 2) := [⟨0, rated 0⟩, ⟨1, rated 0⟩, ⟨0, rated 2⟩]
    let calls : List (SampleCall 2) := [⟨0, rated 3⟩, ⟨1, rated 1⟩, ⟨0, rated 3⟩, ⟨0, rated 3⟩]
    let counters := countersAfter .cpu .zero (fun _ => 0) before
    (counters 0).toNat = 2 ∧ callsOn 0 calls = 3 ∧
      passesOn .cpu .zero counters 0 calls = (2 + 3) / 3 - 2 / 3 := by
  intro before calls counters
  have hc : (counters 0).toNat = 2 := by decide +kernel
  have hcalls : callsOn 0 calls = 3 := by decide
  have hexact := (sampling_exact .cpu .zero before calls 0 3 (by decide +kernel) (by decide)).1
  refine ⟨hc, hcalls, ?_⟩
  rw [hcalls] at hexact
  exact hexact.trans (by rw [hc]; rfl)

end Gocker.Obsv
