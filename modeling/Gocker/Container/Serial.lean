import Gocker.Container.Site

/-!
# One operation on the allocator at a time

The condition that no call comes to the allocator while another is in it (`Site.Exclusive`), and
what it gives.

* No call is disturbed (`Site.guarded_of_exclusive`), because the files are as the one call in
  the allocator has left them (`Single`).
* The call in the allocator can be brought to its end (`Single.returns`): with every file
  operation succeeding it returns, and the induction is on the operations that it has left.
* Every run of the installation is then a run of the site (`Site.Quiet.lift`): an act that is a
  stage of the allocator is the lock, the file operations and the return, with nothing in
  between.

So what the installation can do after some state can be done at the site, once the call that is
in the allocator has returned.
-/

namespace Gocker.Container

open Machine Network

namespace Site

/-- A call comes to the allocator when no other is in it. -/
def Exclusive (s : Site) : Move → Prop
  | .enter _ => ∀ j < s.host.nextCall, s.shared.call j = none
  | _ => True

instance (call : Option Network.Call) : Decidable (call = none) :=
  decidable_of_iff (call.isNone = true) Option.isNone_iff_eq_none

instance (s : Site) : (mv : Move) → Decidable (s.Exclusive mv)
  | .enter _ => inferInstanceAs (Decidable (∀ j < s.host.nextCall, s.shared.call j = none))
  | .act _ | .file _ _ => .isTrue trivial

/-- One call at most is in the allocator, and the files are as it has left them. -/
structure Single (s : Site) : Prop where
  tied : s.Tied
  only : ∃ k, (∀ j, j ≠ k → s.shared.call j = none) ∧ Network.Alone k s.shared

/-- No call is in the allocator. -/
structure Quiet (s : Site) : Prop where
  tied : s.Tied
  calls : ∀ k, s.shared.call k = none

variable {s t : Site} {k : CallId}

/-- With no call in the allocator there is at most one. -/
theorem Quiet.single (h : s.Quiet) : s.Single where
  tied := h.tied
  only := ⟨0, fun j _ => h.calls j, .unlocked h.tied.distinct (h.calls 0)⟩

/-- The call in the allocator finds the files as it has left them. -/
theorem Single.alone (h : s.Single) {c : Network.Call} (hk : s.shared.call k = some c) :
    (∀ j, j ≠ k → s.shared.call j = none) ∧ Network.Alone k s.shared := by
  obtain ⟨i, hothers, halone⟩ := h.only
  rcases eq_or_ne k i with rfl | hne
  · exact ⟨hothers, halone⟩
  · cases (hothers k hne).symm.trans hk

theorem Single.undisturbed (h : s.Single) (mv : Move) : s.Undisturbed mv := by
  cases mv with
  | act | enter => trivial
  | file k o =>
      intro c hk
      exact (h.alone hk).2.undisturbed (e := .step k o) rfl c hk

/-- No call that is in the allocator is one of a later call's number. -/
theorem Tied.lt (h : s.Tied) {c : Network.Call} (hk : s.shared.call k = some c) :
    k < s.host.nextCall := by
  obtain ⟨d, hd, -⟩ := h.operation k c hk
  exact (h.consistent.call k d hd).lt

/-- A call that comes to the allocator finds it empty, and what it does there leaves the files
ready for its next operation. -/
theorem Single.step (h : s.Single) {m : Move} (hC : s.Exclusive m) (he : s.step m = some t) :
    t.Single := by
  refine ⟨(h.tied.step (h.undisturbed m) he).1, ?_⟩
  cases m with
  | act a =>
      simp only [Site.step] at he
      split_ifs at he with huses
      obtain ⟨i, -, rfl⟩ := Option.map_eq_some_iff.mp he
      obtain ⟨k, hothers, halone⟩ := h.only
      refine ⟨k, fun j hj => Option.eq_none_iff_forall_ne_some.mpr fun c hc => ?_, ?_,
        fun c hc => ?_⟩
      · cases (hothers j hj).symm.trans (mem_sharedAfter hc).1
      · rw [sharedAfter_files]
        exact halone.distinct
      · rw [sharedAfter_files]
        exact halone.prepared c (mem_sharedAfter hc).1
  | enter k =>
      obtain ⟨c, hk, he⟩ := Option.bind_eq_some_iff.mp he
      obtain ⟨op, hop, he⟩ := Option.bind_eq_some_iff.mp he
      split_ifs at he with hlocked
      obtain ⟨shared, hshared, rfl⟩ := Option.map_eq_some_iff.mp he
      simp only [Network.step] at hshared
      split at hshared
      · obtain rfl := Option.some.inj hshared
        refine ⟨k, fun j hj => (Function.update_of_ne hj ..).trans ?_,
          .goto h.tied.distinct trivial⟩
        refine Option.eq_none_iff_forall_ne_some.mpr fun c hc => ?_
        cases (hC j (h.tied.lt hc)).symm.trans hc
      · cases hshared
  | file k o =>
      obtain ⟨op, stage, shared, hcall, hadv, hstep, hcases⟩ := of_file he
      obtain ⟨hothers, halone⟩ := h.alone hcall
      have hshared : t.shared = shared := by
        rcases hcases with ⟨-, rfl⟩ | ⟨-, ⟨-, rfl⟩ | ⟨r, i, -, -, rfl⟩⟩ <;> rfl
      rw [hshared]
      refine ⟨k, fun j hj => (hadv.others hj).1.trans (hothers j hj), ?_⟩
      exact halone.step (e := .step k o) rfl hstep

/-- Where no two calls are in the allocator at once, none is disturbed. -/
theorem guarded_of_exclusive {C : Installation → Act → Prop} (hs : s.Single)
    (h : Reaches step (fun s mv => s.Exclusive mv ∧ ∀ a ∈ s.amounts mv, C s.view a) s t) :
    Reaches step (Guarded C) s t :=
  h.strengthen hs (fun _ _ _ hs hC he => hs.step hC.1 he)
    fun _ mv _ hs hC _ => ⟨hs.undisturbed mv, hC.2⟩

theorem Single.reaches (hs : s.Single) (h : Reaches Site.step Exclusive s t) : t.Single :=
  h.invariant hs fun _ _ _ hs hC he => hs.step hC he

/-! ## The end of an operation -/

theorem Tied.returned (h : s.Tied) {c : Network.Call} (hk : s.shared.call k = some c)
    (r : Except IpamError (Option String)) : ∃ i, s.installation.returned k r = some i := by
  obtain ⟨d, hd, hop⟩ := h.operation k c hk
  obtain ⟨st, rest, htodo⟩ := Call.exists_todo_of_operation hop
  simp only [Installation.returned, hd, Option.bind_some, htodo]
  exact ⟨_, rfl⟩

theorem Tied.exists_file (h : s.Tied) {c : Network.Call} (hk : s.shared.call k = some c)
    {o : Network.Outcome} {shared : Shared}
    (hstep : Network.step s.shared (.step k o) = some shared) :
    ∃ t, s.step (.file k o) = some t ∧ t.shared = shared := by
  simp only [Site.step, hstep, Option.bind_some]
  split
  · next r _ hr =>
      obtain ⟨i, hi⟩ := h.returned hk r
      exact ⟨_, by rw [hi]; rfl, rfl⟩
  · exact ⟨_, rfl, rfl⟩

/-- A file operation with which the call returns leaves nobody in the allocator. -/
theorem Single.return_of_step {c : Network.Call} (h : s.Single) (hk : s.shared.call k = some c)
    {o : Network.Outcome} {shared : Shared} {r : Except IpamError (Option String)}
    (hstep : Network.step s.shared (.step k o) = some shared) (hnone : shared.call k = none)
    (hr : shared.returned k = some r) :
    ∃ t, s.step (.file k o) = some t ∧ t.Quiet ∧
      s.view.step (.system (.host (.step k (stageOutcome r)))) = some t.view := by
  obtain ⟨t, ht, rfl⟩ := h.tied.exists_file hk hstep
  obtain ⟨htied, hseen⟩ := h.tied.step (h.undisturbed (.file k o)) ht
  rw [Seen, amounts_of_returned hstep hnone hr] at hseen
  refine ⟨t, ht, ⟨htied, fun j => ?_⟩, hseen⟩
  rcases eq_or_ne j k with rfl | hne
  · exact hnone
  · obtain ⟨op, stage, shared, hcall, hadv, hstep', -⟩ := of_file ht
    obtain rfl := Option.some.inj (hstep.symm.trans hstep')
    exact (hadv.others hne).1.trans ((h.alone hk).1 j hne)

/-- **The call in the allocator returns**, if its file operations succeed, and its stage has
taken place.  The induction is on the operations that it has left. -/
theorem Single.returns {c : Network.Call} (h : s.Single) (hk : s.shared.call k = some c) :
    ∃ t, Reaches Site.step Exclusive s t ∧ t.Quiet ∧
      s.view.step (.system (.host (.step k .ok))) = some t.view := by
  induction hn : c.stage.left using Nat.strong_induction_on generalizing s c with
  | _ n ih =>
      subst hn
      obtain ⟨shared, hstep, hgoes⟩ := (h.alone hk).2.advance hk h.tied.load
      rcases hgoes with ⟨next, hnext, hlt⟩ | ⟨hnone, r, hr, hdecision⟩
      · obtain ⟨t, ht, rfl⟩ := h.tied.exists_file hk hstep
        have hsingle : t.Single := h.step (m := .file k .ok) trivial ht
        obtain ⟨-, hseen⟩ := h.tied.step (h.undisturbed (.file k .ok)) ht
        rw [Seen, amounts_of_call hstep hnext] at hseen
        obtain ⟨u, hu, hquiet, hview⟩ := ih _ hlt hsingle hnext rfl
        exact ⟨u, .head (e := .file k .ok) trivial ht hu, hquiet, hseen ▸ hview⟩
      · have hok : stageOutcome r = .ok := by
          cases r with
          | ok ip => rfl
          | error err => exact if_pos (hdecision err rfl)
        obtain ⟨t, ht, hquiet, hview⟩ := h.return_of_step hk hstep hnone hr
        exact ⟨t, .head (e := .file k .ok) trivial ht (.refl t), hquiet, hok ▸ hview⟩

/-- The state after the run in which the call in the allocator, if there is one, returns. -/
theorem Single.quiet (h : s.Single) :
    ∃ t, Reaches Site.step Exclusive s t ∧ t.Quiet ∧
      (t.view = s.view ∨ ∃ k, s.view.step (.system (.host (.step k .ok))) = some t.view) := by
  obtain ⟨k, hothers, -⟩ := h.only
  cases hk : s.shared.call k with
  | some c =>
      obtain ⟨t, ht, hquiet, hview⟩ := h.returns hk
      exact ⟨t, ht, hquiet, .inr ⟨k, hview⟩⟩
  | none =>
      refine ⟨s, .refl s, ⟨h.tied, fun j => ?_⟩, .inl rfl⟩
      rcases eq_or_ne j k with rfl | hne
      · exact hk
      · exact hothers j hne

/-! ## Runs of the installation at the site -/

/-- A stage of the allocator can begin where nobody is in it. -/
theorem Quiet.enter (h : s.Quiet) {c : Call} {op : Network.Op} (hk : s.host.calls k = some c)
    (hop : c.operation = some op) :
    ∃ t, s.step (.enter k) = some t ∧ s.Exclusive (.enter k) ∧ t.Single ∧ t.view = s.view ∧
      t.shared.call k = some ⟨op, .load⟩ := by
  have hunlocked : ¬ s.Locked c := by
    rintro ⟨-, j, -, d, -, -, hlocked⟩
    rw [h.calls j] at hlocked
    cases hlocked
  have hstep : s.step (.enter k) =
      some ⟨s.installation, s.shared.goto k op .load s.shared.files⟩ := by
    simp only [Site.step, hk, Option.bind_some, hop, if_neg hunlocked, Network.step, h.calls k,
      Option.map_some]
  have hC : s.Exclusive (.enter k) := fun j _ => h.calls j
  exact ⟨_, hstep, hC, h.single.step hC hstep, rfl, Function.update_self ..⟩

/-- It makes no difference how the files of a stage have failed. -/
theorem step_fails {i : Installation} {c : Call} {op : Network.Op}
    (hk : i.system.host.calls k = some c) (hop : c.operation = some op) (n : ℕ) :
    i.step (.system (.host (.step k (.fails n)))) =
      i.step (.system (.host (.step k (.fails 0)))) := by
  obtain ⟨st, rest, htodo⟩ := Call.exists_todo_of_operation hop
  have hwrite : ¬ st.isWrite = true := by
    rcases Call.operation_eq_some hop htodo with ⟨rfl, -⟩ | ⟨rfl, -⟩ <;> nofun
  have stage := fun m => Installation.step_of_stage hk htodo
    (perform_operation_fails hop htodo m .readFile) nofun fun _ hw => absurd hw hwrite
  rw [stage n, stage 0]
  rfl

theorem outcome_of_step {i i' : Installation} {c : Call} {op : Network.Op} {o : Outcome}
    (hk : i.system.host.calls k = some c) (hop : c.operation = some op)
    (he : i.step (.system (.host (.step k o))) = some i') : o = .ok ∨ ∃ n, o = .fails n := by
  simp only [Installation.step] at he
  split_ifs at he
  obtain ⟨system, hsystem, -⟩ := Option.map_eq_some_iff.mp he
  obtain ⟨d, st, rest, w, after, hd, htodo, hp, -⟩ := Host.step_stage (System.step_host hsystem)
  obtain rfl := Option.some.inj (hk.symm.trans hd)
  cases o with
  | ok => exact .inl rfl
  | fails n => exact .inr ⟨n, rfl⟩
  | garbled | child =>
      rcases Call.operation_eq_some hop htodo with ⟨rfl, -⟩ | ⟨rfl, -⟩ <;> cases hp

/-- An act that is a stage of the allocator, and the operation that it is. -/
theorem stage_of_uses {i : Installation} {a : Act} (h : i.Uses a) :
    ∃ k o c op, a = .system (.host (.step k o)) ∧ i.system.host.calls k = some c ∧
      c.operation = some op := by
  unfold Installation.Uses at h
  split at h
  · next e =>
      cases e with
      | step k o =>
          obtain ⟨c, hk, st, hst, hallocates⟩ := h
          obtain ⟨rest, htodo⟩ := List.head?_eq_some_iff.mp hst
          cases st with
          | allocateIP =>
              exact ⟨k, o, c, .allocate c.container c.desiredIP, rfl, hk,
                by rw [Call.operation, htodo]⟩
          | releaseIP =>
              exact ⟨k, o, c, .release c.container, rfl, hk, by rw [Call.operation, htodo]⟩
          | write | launch | setupCgroup | setupVeth | encode | wait | cleanupCgroup | kill
          | setResourceLimits => cases hallocates
      | runContainer | createAndRun | start | stopContainer | adjustResourceLimits | init | exit
      | tick => cases h
  · cases h

/-- **A stage of the allocator, from its lock to its return**, is a run in which no other call
comes to the allocator; and any other act is one move. -/
theorem Quiet.exists_serial (h : s.Quiet) {a : Act} {i : Installation}
    (he : s.view.step a = some i) :
    ∃ t, Reaches Site.step Exclusive s t ∧ t.Quiet ∧ t.view = i := by
  by_cases huses : s.installation.Uses a
  · obtain ⟨k, o, c, op, rfl, hk, hop⟩ := stage_of_uses huses
    obtain ⟨t, hstep, hC, hsingle, hview, hcall⟩ := h.enter hk hop
    rcases outcome_of_step (i := s.view) hk hop he with rfl | ⟨n, rfl⟩
    · obtain ⟨u, hu, hquiet, hreturn⟩ := hsingle.returns hcall
      rw [hview, he] at hreturn
      exact ⟨u, .head hC hstep hu, hquiet, (Option.some.inj hreturn).symm⟩
    · -- the call fails before it has touched a file
      have hfail : Network.step t.shared (.step k .noDir) =
          some (t.shared.failed k .ensureDir t.shared.files) := by
        simp only [Network.step, hcall, Option.bind_some, Network.advance]
      obtain ⟨u, hu, hquiet, hreturn⟩ := hsingle.return_of_step hcall hfail
        (Function.update_self ..) (Function.update_self ..)
      have hfails : s.view.step (.system (.host (.step k (.fails 0)))) = some i :=
        (step_fails (i := s.view) hk hop n).symm.trans he
      have hsame : s.view.step (.system (.host (.step k (.fails 0)))) = some u.view := by
        rw [← hview]
        exact hreturn
      refine ⟨u, .head hC hstep (.head (e := .file k .noDir) trivial hu (.refl u)), hquiet, ?_⟩
      exact Option.some.inj (hsame.symm.trans hfails)
  · rw [view, Installation.step_withMap _ huses] at he
    obtain ⟨i', hi', rfl⟩ := Option.map_eq_some_iff.mp he
    have hstep : s.step (.act a) = some ⟨i', sharedAfter s.shared a⟩ := by
      simp only [Site.step, if_neg huses, hi', Option.map_some]
    have hsingle := h.single.step (m := .act a) trivial hstep
    refine ⟨_, .head (e := .act a) trivial hstep (.refl _), ⟨hsingle.tied, fun k => ?_⟩, ?_⟩
    · refine Option.eq_none_iff_forall_ne_some.mpr fun c hc => ?_
      cases (h.calls k).symm.trans (mem_sharedAfter hc).1
    · rw [view, map, sharedAfter_files]
      rfl

/-- **Every run of the installation is one of the site.** -/
theorem Quiet.lift (h : s.Quiet) {i : Installation}
    (hrun : Reaches Installation.step Always s.view i) :
    ∃ t, Reaches Site.step Exclusive s t ∧ t.Quiet ∧ t.view = i := by
  obtain ⟨t, ht, hquiet, hview⟩ :=
    hrun.simulation (R := fun (i : Installation) (s : Site) => s.Quiet ∧ s.view = i) ⟨h, rfl⟩
      fun _ _ _ s ⟨hs, hview⟩ _ he => hs.exists_serial (hview ▸ he)
  exact ⟨t, ht, hquiet, hview⟩

end Site

end Gocker.Container
