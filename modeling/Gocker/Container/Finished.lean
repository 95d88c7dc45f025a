import Gocker.Lib.Machine
import Gocker.Container.Steps

/-!
# When a container finished

`FinishedAt` is set by hand wherever the status is: `StopContainer`, `CreateAndRun` and
`Start` set it with `Stopped`, and `Start` clears it with `Running`.  The write of
`RunContainer` after its wait sets the status alone.

`finished_dated` says that the two agree in every run in which that write does not happen,
and `dated_step_iff` that it breaks the agreement whenever it happens.

A record is *dated* if it has a time of finishing exactly when it says `Stopped`.  The clock is
part of the state, and the condition `Clocked` is that it never shows the zero time, which would
look like none.
-/

namespace Gocker.Container

open Machine

/-- The time of the end is there exactly if the status says so. -/
structure Dated (r : ContainerInfo) : Prop where
  stopped : r.status = .stopped → r.finishedAt ≠ zeroTime
  unfinished : r.status = .running ∨ r.status = .created → r.finishedAt = zeroTime

instance (r : ContainerInfo) : Decidable (Dated r) :=
  decidable_of_iff ((r.status = .stopped → r.finishedAt ≠ zeroTime) ∧
      (r.status = .running ∨ r.status = .created → r.finishedAt = zeroTime))
    ⟨fun h => ⟨h.1, h.2⟩, fun h => ⟨h.stopped, h.unfinished⟩⟩

/-- The clock does not show the zero time. -/
def Clocked (_ : Host) (e : Event) : Prop :=
  match e with
  | .tick now => now ≠ zeroTime
  | _ => True

/-- `RunContainer` does not write the record after its wait. -/
def ExitUnwritten (s : Host) (e : Event) : Prop :=
  ∀ ko ∈ e.stage, ∀ c ∈ s.calls ko.1, c.todo.head? = some (.write .exited) → ko.2 ≠ .ok

instance (s : Host) (e : Event) : Decidable (Clocked s e) :=
  match e with
  | .tick now => inferInstanceAs (Decidable (now ≠ zeroTime))
  | .runContainer .. | .createAndRun .. | .start .. | .stopContainer .. |
    .adjustResourceLimits .. | .step .. | .init .. | .exit .. => isTrue trivial

instance (s : Host) (e : Event) : Decidable (ExitUnwritten s e) := by
  unfold ExitUnwritten
  infer_instance

/-! ## Positions in a program -/

section
variable {fn : Fn} {wr : Write} {rest : List Stage}

/-- Only the first record is written before `RunContainer` and `CreateAndRun` write
`Running`. -/
theorem created_of_running_ahead (h : .write wr :: rest <:+ fn.program)
    (hmem : .write .running ∈ rest) : wr = .created := by
  have all : ∀ fn, ∀ todo ∈ Fn.program fn |>.tails, ∀ wr, todo.head? = some (.write wr) →
      .write .running ∈ todo.tail → wr = .created := by
    decide
  exact forall_rest all h wr rfl hmem

/-- Before the write after its wait, `RunContainer` writes the first record and `Running`. -/
theorem write_of_exited_ahead (h : .write wr :: rest <:+ fn.program)
    (hmem : .write .exited ∈ rest) : wr = .created ∨ wr = .running := by
  have all : ∀ fn, ∀ todo ∈ Fn.program fn |>.tails, ∀ wr, todo.head? = some (.write wr) →
      .write .exited ∈ todo.tail → wr = .created ∨ wr = .running := by
    decide
  exact forall_rest all h wr rfl hmem

/-- The write of `RunContainer` after its wait is its last one. -/
theorem no_write_after_exited (h : .write .exited :: rest <:+ fn.program) :
    ∀ st ∈ rest, st.isWrite = false := by
  have all : ∀ fn, ∀ todo ∈ Fn.program fn |>.tails, todo.head? = some (.write .exited) →
      ∀ st ∈ todo.tail, st.isWrite = false := by
    decide
  exact forall_rest all h rfl

end

/-! ## The copies of the record -/

/-- What is true of the copy of the record that a call keeps, as long as it may write it. -/
structure Call.CopyDated (c : Call) : Prop where
  dated : (∃ st ∈ c.todo, st.isWrite = true) → Dated c.info
  zero : .write .running ∈ c.todo ∨ .write .exited ∈ c.todo → c.info.finishedAt = zeroTime

/-- The record that a call writes, except after the wait of `RunContainer`. -/
theorem Call.record_dated {c : Call} {now : Time} {wr : Write} (h : Dated c.info)
    (hzero : wr = .running → c.info.finishedAt = zeroTime) (hnow : now ≠ zeroTime)
    (hwr : wr ≠ .exited) : Dated (c.record now wr) := by
  cases wr with
  | created => exact ⟨h.stopped, h.unfinished⟩
  | limits => exact h
  | running => exact ⟨nofun, fun _ => hzero rfl⟩
  | restarted => exact ⟨nofun, fun _ => rfl⟩
  | exited => exact absurd rfl hwr
  | finished | stopped => exact ⟨fun _ => hnow, by rintro (h | h) <;> cases h⟩

/-- The address, the limits and the time of creation do not matter. -/
theorem Dated.of_eq {r r' : ContainerInfo} (h : Dated r) (hstatus : r'.status = r.status)
    (hfinished : r'.finishedAt = r.finishedAt) : Dated r' := by
  constructor
  · rw [hstatus, hfinished]
    exact h.stopped
  · rw [hstatus, hfinished]
    exact h.unfinished

/-- What a copy owes depends on the status, the time and the writes that are still to come. -/
theorem Call.CopyDated.of_eq {c c' : Call} (h : c.CopyDated)
    (hstatus : c'.info.status = c.info.status)
    (hfinished : c'.info.finishedAt = c.info.finishedAt) (htodo : ∀ st ∈ c'.todo, st ∈ c.todo) :
    c'.CopyDated := by
  constructor
  · rintro ⟨st, hmem, hst⟩
    exact (h.dated ⟨st, htodo st hmem, hst⟩).of_eq hstatus hfinished
  · intro hmem
    rw [hfinished]
    exact h.zero (hmem.imp (htodo _) (htodo _))

/-- A call that has given up writes nothing more. -/
theorem Call.CopyDated.of_released {c : Call} (htodo : c.todo = [.releaseIP]) : c.CopyDated := by
  constructor
  · rintro ⟨st, hmem, hst⟩
    rw [htodo] at hmem
    rw [List.mem_singleton.mp hmem] at hst
    cases hst
  · rw [htodo]
    rintro (hmem | hmem) <;> cases List.mem_singleton.mp hmem

section
variable {w w' : World} {now : Time} {k : CallId} {c c' : Call} {st : Stage} {o : Outcome}
  {rest : List Stage}

/-- The copy of a call that goes on. -/
theorem Call.CopyDated.goOn (h : c.CopyDated) (hprog : st :: rest <:+ c.fn.program)
    (htodo : c.todo = st :: rest) (hnow : now ≠ zeroTime)
    (hp : Performed w now k c st o w' (.goOn c')) :
    Call.CopyDated { c' with todo := rest } := by
  have later : ∀ st ∈ rest, st ∈ c.todo := fun st hmem => htodo ▸ List.mem_cons_of_mem _ hmem
  have wrote : ∀ {wr}, st = .write wr →
      Call.CopyDated { c with info := c.record now wr, todo := rest } := by
    rintro wr rfl
    have hmem : .write wr ∈ c.todo := htodo ▸ List.mem_cons_self
    constructor
    · rintro ⟨st, hst, hwrite⟩
      refine Call.record_dated (h.dated ⟨_, hmem, rfl⟩) (fun hwr => ?_) hnow ?_
      · exact h.zero (.inl (hwr ▸ hmem))
      · rintro rfl
        rw [no_write_after_exited hprog st hst] at hwrite
        cases hwrite
    · rintro (hrunning | hexited)
      · obtain rfl := created_of_running_ahead hprog hrunning
        exact h.zero (.inl (later _ hrunning))
      · have hzero := h.zero (.inr (later _ hexited))
        rcases write_of_exited_ahead hprog hexited with rfl | rfl <;> exact hzero
  cases hp with
  | written | torn | unwritten => exact wrote rfl
  | allocated | launched | encoded | waited | released | peered | plain =>
      exact h.of_eq rfl rfl later

/-- The record that a call writes at its next stage. -/
theorem Call.CopyDated.written (h : c.CopyDated) {wr : Write}
    (htodo : c.todo = .write wr :: rest) (hnow : now ≠ zeroTime) (hwr : wr ≠ .exited) :
    Dated (c.record now wr) := by
  have hmem : .write wr ∈ c.todo := htodo ▸ List.mem_cons_self
  exact Call.record_dated (h.dated ⟨_, hmem, rfl⟩) (fun heq => h.zero (.inl (heq ▸ hmem))) hnow hwr

end

/-! ## All steps -/

/-- What every state keeps. -/
structure AllDated (s : Host) : Prop where
  clock : s.clock ≠ zeroTime
  record : ∀ d r, s.world.config d = some r → Dated r
  copy : ∀ k c, s.calls k = some c → c.CopyDated

section
variable {s t : Host}

theorem AllDated.of_dirs (h : AllDated s) (dirs : List ContainerID) :
    AllDated { s with dirs := dirs } :=
  ⟨h.clock, h.record, h.copy⟩

/-- A call begins with a record that is dated, and those that will not set the time begin with
none. -/
theorem AllDated.begin (h : AllDated s) {fn : Fn} {info : ContainerInfo}
    {req : Option RunRequest} (hinfo : Dated info)
    (hzero : .write .running ∈ fn.program ∨ .write .exited ∈ fn.program →
      info.finishedAt = zeroTime) : AllDated (s.begin fn info req) := by
  refine ⟨h.clock, h.record, fun k c hk => ?_⟩
  rcases WellFormed.begin_calls hk with ⟨-, rfl⟩ | ⟨-, hold⟩
  · exact ⟨fun _ => hinfo, hzero⟩
  · exact h.copy k c hold

/-- A record that was not there is one whose write went well. -/
theorem Performed.ok_of_record {w w' : World} {now : Time} {k : CallId} {c : Call} {wr : Write}
    {o : Outcome} {after : After} (h : Performed w now k c (.write wr) o w' after)
    {d : ContainerID} {r : ContainerInfo} (hd : w'.config d = some r)
    (hnew : w.config d ≠ some r) : o = .ok := by
  have cleared : Function.update w.config c.container none d ≠ some r := by
    intro hd
    obtain ⟨-, hold⟩ := of_erase_eq_some hd
    exact hnew hold
  cases h with
  | written => rfl
  | torn => exact absurd hd cleared
  | unwritten | plain => exact absurd hd hnew
  | gaveUp hst ho hconfig =>
      rcases hconfig with rfl | ⟨-, rfl⟩
      · exact absurd hd hnew
      · exact absurd hd cleared

/-- A stage keeps the records and the copies dated. -/
theorem AllDated.stage (hs : Consistent s) (h : AllDated s) {k : CallId} {c : Call} {st : Stage}
    {rest : List Stage} {o : Outcome} {w' : World} {after : After} (hk : s.calls k = some c)
    (htodo : c.todo = st :: rest) (hp : Performed s.world s.clock k c st o w' after)
    (hC : ExitUnwritten s (.step k o)) : AllDated (s.resume k c rest (w', after)) := by
  refine ⟨?_, ?_, ?_⟩
  · rw [Host.resume_clock]
    exact h.clock
  · intro d r hd
    rw [Host.resume_config] at hd
    by_cases hold : s.world.config d = some r
    · exact h.record d r hold
    · obtain ⟨wr, rfl, -, rfl, -⟩ := (hp.record_source hd).resolve_left hold
      refine (h.copy k c hk).written htodo h.clock ?_
      rintro rfl
      exact hC _ rfl c hk (by rw [htodo]; rfl) (hp.ok_of_record hd hold)
  · intro j e hj
    rcases Host.resume_calls hj with ⟨-, hold⟩ | ⟨rfl, ⟨c', rfl, -, rfl⟩ | ⟨rfl, -, rfl⟩⟩
    · exact h.copy j e hold
    · exact (h.copy j c hk).goOn (htodo ▸ (hs.call j c hk).program) htodo h.clock hp
    · exact .of_released rfl

theorem AllDated.step (hs : Consistent s) (h : AllDated s) {e : Event} (hclock : Clocked s e)
    (hC : ExitUnwritten s e) (he : s.step e = some t) : AllDated t := by
  cases Host.stepped he with
  | ran fresh => exact (h.of_dirs _).begin ⟨nofun, fun _ => rfl⟩ fun _ => rfl
  | createdAndRan fresh => exact (h.of_dirs _).begin ⟨nofun, fun _ => rfl⟩ fun _ => rfl
  | starting found =>
      exact h.begin (h.record _ _ (hs.startable found).1) (by simp [Fn.program])
  | stopping found => exact h.begin (h.record _ _ (hs.running found).1) (by simp [Fn.program])
  | adjusting found =>
      have hdated := h.record _ _ (hs.running found).1
      exact h.begin (hdated.of_eq rfl rfl) (by simp [Fn.program])
  | refused => exact h
  | staged call todo performed => exact h.stage hs call todo (perform_performed performed) hC
  | moved moved =>
      refine ⟨h.clock, fun d r hd => ?_, h.copy⟩
      exact h.record d r (moved.config ▸ hd)
  | ticked => exact ⟨hclock, h.record, h.copy⟩

/-- The write of `RunContainer` after its wait leaves a stopped container without the time of
its end. -/
theorem AllDated.exited_undated (h : AllDated s) {k : CallId} {c : Call} (hk : s.calls k = some c)
    (hhead : c.todo.head? = some (.write .exited)) (he : s.step (.step k .ok) = some t) :
    ∃ r, t.world.config c.container = some r ∧ ¬ Dated r := by
  obtain ⟨rest, htodo⟩ : ∃ rest, c.todo = .write .exited :: rest :=
    ⟨_, List.eq_cons_of_mem_head? hhead⟩
  simp only [Host.step, hk, Option.bind_some, htodo, perform, World.written, Option.map_some,
    Option.some.injEq] at he
  subst he
  refine ⟨c.record s.clock .exited, Function.update_self .., fun hdated => ?_⟩
  have hzero : c.info.finishedAt = zeroTime :=
    (h.copy k c hk).zero (.inr (htodo ▸ List.mem_cons_self))
  exact hdated.stopped rfl hzero

/-- **The one write that breaks it.** -/
theorem dated_step_iff (hs : Consistent s) (h : AllDated s) {e : Event} (hclock : Clocked s e)
    (he : s.step e = some t) :
    (∀ d r, t.world.config d = some r → Dated r) ↔ ExitUnwritten s e := by
  refine ⟨fun hdated => ?_, fun hC => (h.step hs hclock hC he).record⟩
  rintro ⟨k, o⟩ hstage c hk hhead rfl
  obtain rfl : e = .step k .ok := by
    cases e <;> cases hstage
    rfl
  obtain ⟨r, hr, hundated⟩ := h.exited_undated hk hhead he
  exact hundated (hdated _ r hr)

end

/-! ## Runs -/

/-- A host at rest, with containers that have finished or have not begun. -/
structure Settled (s : Host) : Prop where
  idle : Idle s
  clock : s.clock ≠ zeroTime
  record : ∀ d r, s.world.config d = some r → Dated r

/-- Where nothing is running, the records are all there is. -/
theorem Settled.allDated {s : Host} (h : Settled s) : AllDated s :=
  ⟨h.clock, h.record, fun _ _ hk => (h.idle.nocall hk).elim⟩

theorem emptyHost_settled : Settled emptyHost :=
  ⟨emptyHost_idle, by decide, nofun⟩

/-- **The time of the end follows the status**, in any run in which `RunContainer` does not
write the record after its wait. -/
theorem finished_dated {s t : Host} (hs : Settled s)
    (h : Reaches Host.step (fun s e => Clocked s e ∧ ExitUnwritten s e) s t) :
    ∀ d r, t.world.config d = some r → Dated r := by
  have inv : Consistent t ∧ AllDated t :=
    h.invariant (I := fun s => Consistent s ∧ AllDated s)
      ⟨hs.idle.wellFormed.consistent, hs.allDated⟩
      fun _ _ _ ⟨hs, hd⟩ ⟨hclock, hC⟩ he => ⟨hs.step he, hd.step hs hclock hC he⟩
  exact inv.2.record

/-- A container of `gocker compose` exits, is started again, and is stopped. -/
def composedRestartedStopped : List Event :=
  .createAndRun shellRequest "a" :: stages 0 1 ++ .step 0 (.child 100) :: stages 0 4 ++
    .exit 100 :: .tick "2025-01-02T00:00:00Z" :: stages 0 3 ++
    .start "a" [] :: .step 1 (.child 101) :: stages 1 5 ++
    .tick "2025-01-03T00:00:00Z" :: .stopContainer "a" [] :: stages 2 3

/-- A container is launched by the daemon, ends, is started again and ends again. -/
theorem finished_dated_composed :
    ∃ t : Host, (∃ r ∈ t.world.config "a", r.status = .stopped ∧
        r.finishedAt = "2025-01-03T00:00:00Z") ∧
      ∀ d r, t.world.config d = some r → Dated r :=
  ⟨outcome Host.step (fun s e => Clocked s e ∧ ExitUnwritten s e) emptyHost
      composedRestartedStopped,
    by decide +kernel, finished_dated emptyHost_settled (reaches_outcome ..)⟩

/-- A container of `gocker run` exits. -/
def ranExited : List Event := launching 0 "a" 100 ++ .exit 100 :: stages 0 4

/-- All writes go well, and the record has no time of the end. -/
theorem ran_undated :
    ∃ t : Host, Reaches Host.step (fun s e => Clocked s e ∧ RecordsWritten s e) emptyHost t ∧
      ∃ r, t.world.config "a" = some r ∧ r.status = .stopped ∧ r.finishedAt = zeroTime := by
  refine ⟨_, reaches_outcome _ _ _ ranExited, ?_⟩
  have h : ∃ r ∈ (outcome Host.step (fun s e => Clocked s e ∧ RecordsWritten s e) emptyHost
      ranExited).world.config "a", r.status = .stopped ∧ r.finishedAt = zeroTime := by
    decide +kernel
  exact h

end Gocker.Container
