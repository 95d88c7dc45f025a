import Gocker.Image.Manifest
import Gocker.Lib.Machine

/-!
# Pulls at the same time

`updateManifest` as it runs for requests on several connections of the daemon, each served
by a goroutine of its own: it reads the manifest, and `os.WriteFile` opens the file,
truncating it, and writes the new text.  Nothing serialises the calls.

`pulls_kept` is the case in which a call opens the file for writing only while the file is
still what the call has read: then no tag is lost.  `image_lost` is a run of two pulls
that both report success, of which one leaves no entry.

### The time between reading and writing

A call holds the manifest as it was when it read it.  Another call that writes in between is
forgotten when this one writes, since the whole text is replaced.  `OpensUnchanged` excludes just
this; it is a condition on the order of the steps, which the code does nothing to ensure.
-/

namespace Gocker.Image

open Machine
open Upsert (upsert)

/-! ## The machine -/

/-- Where a call of `updateManifest` stands: before reading; with what it has read and the
text it is going to write; with the file open and truncated; returned. -/
inductive Phase where
  | reading
  | holding (seen : ManifestFile) (data : List Char)
  | opened (data : List Char)
  | returned (ok : Bool)
deriving DecidableEq

/-- A call of `updateManifest`, and how far it has come. -/
structure Update where
  repoTag : String
  imageID : String
  phase : Phase
deriving DecidableEq

/-- The manifest, and the calls that have begun. -/
structure Pulling where
  file : ManifestFile
  calls : ℕ → Option Update
  next : ℕ

/-- What a call does next. -/
inductive Activity where
  | begin (repoTag imageID : String)
  | read (k : ℕ)
  | open (k : ℕ)
  | write (k : ℕ)
  /-- an error before the file is touched -/
  | fail (k : ℕ)
  /-- an error of the write, after `n` bytes -/
  | writeFails (k n : ℕ)
deriving DecidableEq

/-- A text written from the start of an open file. -/
def overwrite (file : ManifestFile) (text : List Char) : ManifestFile :=
  match file with
  | .text old => .text (text ++ old.drop text.length)
  | _ => .text text

namespace Pulling

/-- The call `k`, changed. -/
def set (s : Pulling) (k : ℕ) (c : Update) : Pulling :=
  { s with calls := Function.update s.calls k (some c) }

/-- A step of a call; `none` if the call has not come to it. -/
def step (s : Pulling) : Activity → Option Pulling
  | .begin repoTag imageID =>
      some { s.set s.next { repoTag, imageID, phase := .reading } with next := s.next + 1 }
  | .read k =>
      match s.calls k with
      | some ⟨repoTag, imageID, .reading⟩ =>
          match updateManifest s.file repoTag imageID with
          | .ok data => some (s.set k { repoTag, imageID, phase := .holding s.file data })
          | .error _ => some (s.set k { repoTag, imageID, phase := .returned false })
      | _ => none
  | .open k =>
      match s.calls k with
      | some ⟨repoTag, imageID, .holding _ data⟩ =>
          some ({ s with file := .text [] }.set k { repoTag, imageID, phase := .opened data })
      | _ => none
  | .write k =>
      match s.calls k with
      | some ⟨repoTag, imageID, .opened data⟩ =>
          some ({ s with file := overwrite s.file data }.set k
            { repoTag, imageID, phase := .returned true })
      | _ => none
  | .fail k =>
      match s.calls k with
      | some ⟨repoTag, imageID, .reading⟩ | some ⟨repoTag, imageID, .holding _ _⟩ =>
          some (s.set k { repoTag, imageID, phase := .returned false })
      | _ => none
  | .writeFails k n =>
      match s.calls k with
      | some ⟨repoTag, imageID, .opened data⟩ =>
          some ({ s with file := overwrite s.file (data.take n) }.set k
            { repoTag, imageID, phase := .returned false })
      | _ => none

/-- No call yet. -/
def start (file : ManifestFile) : Pulling := { file := file, calls := fun _ => none, next := 0 }

/-- The entry has the ID of a pull of its tag. -/
def PulledAs (s : Pulling) (m : ImageManifest) : Prop :=
  ∃ j d, s.calls j = some d ∧ d.repoTag = m.repoTag ∧ d.imageID = m.imageID

/-- Once all calls have returned success, every pulled tag has an entry with the ID of one
of its pulls, and the tags of `before` are still there. -/
def Kept (before : List ImageManifest) (s : Pulling) : Prop :=
  (∀ k c, s.calls k = some c → c.phase = .returned true) →
    ∃ ms, readManifest s.file = .ok ms ∧
      (∀ k c, s.calls k = some c → ∃ m ∈ ms, m.repoTag = c.repoTag ∧ s.PulledAs m) ∧
      ∀ m₀ ∈ before, ∃ m ∈ ms, m.repoTag = m₀.repoTag

/-- The call finds the file as it has read it. -/
def Saw (file : ManifestFile) : Phase → Prop
  | .holding seen _ => file = seen
  | _ => True

instance (file : ManifestFile) (phase : Phase) : Decidable (Saw file phase) := by
  cases phase <;> unfold Saw <;> infer_instance

/-- A call opens the file for writing only while it is what the call has read. -/
def OpensUnchanged (s : Pulling) : Activity → Prop
  | .open k => ∀ c ∈ s.calls k, Saw s.file c.phase
  | _ => True

instance (s : Pulling) (a : Activity) : Decidable (OpensUnchanged s a) := by
  cases a <;> unfold OpensUnchanged <;> infer_instance

/-! ## The steps -/

/-- What a step does to the call it is about. -/
inductive Stepped (s : Pulling) : Activity → Pulling → Prop
  | begun (repoTag imageID : String) :
      Stepped s (.begin repoTag imageID)
        { s.set s.next { repoTag, imageID, phase := .reading } with next := s.next + 1 }
  | read {k : ℕ} {c : Update} {data : List Char} (h : s.calls k = some c)
      (hp : c.phase = .reading) (hd : updateManifest s.file c.repoTag c.imageID = .ok data) :
      Stepped s (.read k) (s.set k { c with phase := .holding s.file data })
  | failed {a : Activity} {k : ℕ} {c : Update} (h : s.calls k = some c) (file : ManifestFile) :
      Stepped s a ({ s with file := file }.set k { c with phase := .returned false })
  | opened {k : ℕ} {c : Update} {seen : ManifestFile} {data : List Char}
      (h : s.calls k = some c) (hp : c.phase = .holding seen data) :
      Stepped s (.open k) ({ s with file := .text [] }.set k { c with phase := .opened data })
  | wrote {k : ℕ} {c : Update} {data : List Char} (h : s.calls k = some c)
      (hp : c.phase = .opened data) :
      Stepped s (.write k)
        ({ s with file := overwrite s.file data }.set k { c with phase := .returned true })

theorem stepped {s t : Pulling} {a : Activity} (h : s.step a = some t) : Stepped s a t := by
  cases a with
  | begin repoTag imageID =>
      cases h
      exact .begun repoTag imageID
  | read k =>
      simp only [step] at h
      split at h
      · next repoTag imageID hk =>
          split at h
          · next data hd =>
              cases h
              exact .read hk rfl hd
          · cases h
            exact .failed hk s.file
      · cases h
  | «open» k =>
      simp only [step] at h
      split at h
      · next hk =>
          cases h
          exact .opened hk rfl
      · cases h
  | write k =>
      simp only [step] at h
      split at h
      · next hk =>
          cases h
          exact .wrote hk rfl
      · cases h
  | fail k =>
      simp only [step] at h
      split at h
      · next hk =>
          cases h
          exact .failed hk s.file
      · next hk =>
          cases h
          exact .failed hk s.file
      · cases h
  | writeFails k n =>
      simp only [step] at h
      split at h
      · next hk =>
          cases h
          exact .failed hk _
      · cases h

/-! ## The calls -/

variable {s t : Pulling} {before ms : List ImageManifest} {k : ℕ} {c c' : Update}

/-- The call that has been changed is the new one. -/
theorem calls_set_self (s : Pulling) (k : ℕ) (c : Update) : (s.set k c).calls k = some c :=
  Function.update_self ..

theorem calls_set_of_ne {j : ℕ} (h : j ≠ k) : (s.set k c).calls j = s.calls j :=
  Function.update_of_ne h _ _

/-- A call after the step is the changed one, or was there before. -/
theorem calls_set {j : ℕ} {d : Update} (h : (s.set k c).calls j = some d) :
    j = k ∧ d = c ∨ j ≠ k ∧ s.calls j = some d := by
  by_cases hjk : j = k
  · subst hjk
    rw [calls_set_self] at h
    exact .inl ⟨rfl, (Option.some.inj h).symm⟩
  · rw [calls_set_of_ne hjk] at h
    exact .inr ⟨hjk, h⟩

theorem call_unique {d : Update} (hc : s.calls k = some c) (hd : s.calls k = some d) : d = c :=
  Option.some.inj (hd.symm.trans hc)

/-- A call in its next phase is for the same tag and ID. -/
theorem same_call (hc : s.calls k = some c) (phase : Phase) :
    ∀ d, s.calls k = some d → d.repoTag = { c with phase := phase }.repoTag ∧
      d.imageID = { c with phase := phase }.imageID := by
  intro d hd
  rw [call_unique hc hd]
  exact ⟨rfl, rfl⟩

/-- A call keeps its tag and its ID. -/
theorem PulledAs.set {m : ImageManifest} (h : s.PulledAs m)
    (hsame : ∀ c, s.calls k = some c → c.repoTag = c'.repoTag ∧ c.imageID = c'.imageID) :
    (s.set k c').PulledAs m := by
  obtain ⟨j, d, hj, htag, hid⟩ := h
  by_cases hjk : j = k
  · subst hjk
    obtain ⟨htag', hid'⟩ := hsame d hj
    exact ⟨j, c', calls_set_self s j c', htag' ▸ htag, hid' ▸ hid⟩
  · exact ⟨j, d, (calls_set_of_ne hjk).trans hj, htag, hid⟩

/-! ## The invariant -/

/-- The numbers from the next one on have not been used. -/
def Fresh (s : Pulling) : Prop := ∀ k, s.next ≤ k → s.calls k = none

theorem Fresh.lt_next (h : Fresh s) (hc : s.calls k = some c) : k < s.next := by
  by_contra hle
  rw [h k (not_lt.mp hle)] at hc
  cases hc

/-- A change of a call that has begun leaves them unused. -/
theorem Fresh.step_of (h : Fresh s) (hcalls : t.calls = (s.set k c').calls)
    (hnext : s.next ≤ t.next) (hk : k < t.next) : Fresh t := by
  intro j hj
  rw [hcalls, calls_set_of_ne (Nat.ne_of_gt (hk.trans_le hj))]
  exact h j (hnext.trans hj)

theorem Fresh.step {a : Activity} (h : Fresh s) (he : s.step a = some t) : Fresh t := by
  cases stepped he with
  | begun repoTag imageID => exact h.step_of rfl (Nat.le_succ _) (Nat.lt_succ_self _)
  | read hc hp hdata => exact h.step_of rfl (le_refl _) (h.lt_next hc)
  | failed hc file => exact h.step_of rfl (le_refl _) (h.lt_next hc)
  | opened hc hp => exact h.step_of rfl (le_refl _) (h.lt_next hc)
  | wrote hc hp => exact h.step_of rfl (le_refl _) (h.lt_next hc)

/-- The call has changed the file, and has not failed. -/
def Changed : Phase → Prop
  | .opened _ | .returned true => True
  | _ => False

/-- Nothing is missing from these manifests. -/
structure Complete (before ms : List ImageManifest) (s : Pulling) : Prop where
  pulled : ∀ k c, s.calls k = some c → Changed c.phase →
    ∃ m ∈ ms, m.repoTag = c.repoTag ∧ s.PulledAs m
  earlier : ∀ m₀ ∈ before, ∃ m ∈ ms, m.repoTag = m₀.repoTag

/-- The file reads as these manifests; or one call has it open and is going to write
them. -/
inductive Contents (ms : List ImageManifest) (s : Pulling) : Prop
  | closed (hread : readManifest s.file = .ok ms)
      (hnone : ∀ k c data, s.calls k = some c → c.phase ≠ .opened data)
  | opened {k : ℕ} {c : Update} (h : s.calls k = some c)
      (hp : c.phase = .opened (encodeManifest ms)) (hfile : s.file = .text [])
      (honly : ∀ j d data, s.calls j = some d → d.phase = .opened data → j = k)

/-- Some call has reported an error. -/
def Failed (s : Pulling) : Prop := ∃ k c, s.calls k = some c ∧ c.phase = .returned false

/-- The invariant: as long as no call has failed, the manifest has all tags of the calls that
have written, except while one of them is between truncating the file and writing it. -/
structure Sound (before : List ImageManifest) (s : Pulling) : Prop where
  fresh : Fresh s
  /-- what a call is going to write comes from what it has read -/
  prepared : ∀ k c seen data, s.calls k = some c → c.phase = .holding seen data →
    updateManifest seen c.repoTag c.imageID = .ok data
  intact : s.Failed ∨ ∃ ms, Complete before ms s ∧ Contents ms s

theorem Sound.start {file : ManifestFile} (h : readManifest file = .ok before) :
    Sound before (start file) where
  fresh _ _ := rfl
  prepared _ _ _ _ hc := by cases hc
  intact := by
    refine .inr ⟨before, ⟨?_, fun m hm => ⟨m, hm, rfl⟩⟩, .closed h ?_⟩
    · intro k c hc
      cases hc
    · intro k c data hc
      cases hc

/-- A step that changes the call `k` keeps the entries of the others. -/
theorem Complete.step_of (h : Complete before ms s) (hcalls : t.calls = (s.set k c').calls)
    (hsame : ∀ c, s.calls k = some c → c.repoTag = c'.repoTag ∧ c.imageID = c'.imageID)
    (hc' : Changed c'.phase → ∃ m ∈ ms, m.repoTag = c'.repoTag ∧ t.PulledAs m) :
    Complete before ms t where
  pulled j d hj hchanged := by
    rw [hcalls] at hj
    rcases calls_set hj with ⟨rfl, rfl⟩ | ⟨_, hj⟩
    · exact hc' hchanged
    · obtain ⟨m, hm, htag, hpulled⟩ := h.pulled j d hj hchanged
      refine ⟨m, hm, htag, ?_⟩
      rw [PulledAs, hcalls]
      exact hpulled.set hsame
  earlier := h.earlier

/-- A step of a call that neither has the file open nor opens it. -/
theorem Contents.step_of (h : Contents ms s) (hfile : t.file = s.file)
    (hcalls : t.calls = (s.set k c').calls)
    (hc : ∀ c data, s.calls k = some c → c.phase ≠ .opened data)
    (hc' : ∀ data, c'.phase ≠ .opened data) : Contents ms t := by
  have hother : ∀ j d data, t.calls j = some d → d.phase = .opened data →
      s.calls j = some d := by
    intro j d data hj hdata
    rw [hcalls] at hj
    rcases calls_set hj with ⟨rfl, rfl⟩ | ⟨_, hj⟩
    · exact absurd hdata (hc' data)
    · exact hj
  cases h with
  | closed hread hnone =>
      refine .closed (hfile ▸ hread) fun j d data hj hdata => ?_
      exact hnone j d data (hother j d data hj hdata) hdata
  | @opened i e hi hp hempty honly =>
      have hik : i ≠ k := fun hik => hc e _ (hik ▸ hi) hp
      refine .opened (k := i) ?_ hp (hfile.trans hempty) fun j d data hj hdata => ?_
      · rw [hcalls, calls_set_of_ne hik]
        exact hi
      · exact honly j d data (hother j d data hj hdata) hdata

/-- An error that has been reported stays reported. -/
theorem Failed.set (h : s.Failed) (hc : ∀ c, s.calls k = some c → c.phase ≠ .returned false) :
    (s.set k c').Failed := by
  obtain ⟨j, d, hj, hd⟩ := h
  have hjk : j ≠ k := fun hjk => hc d (hjk ▸ hj) hd
  exact ⟨j, d, (calls_set_of_ne hjk).trans hj, hd⟩

/-- The text of an empty file is no manifest. -/
theorem updateManifest_truncated (repoTag imageID : String) :
    updateManifest (.text []) repoTag imageID = .error .parse := rfl

/-- What a call is going to write, in terms of what it has read. -/
theorem updateManifest_ok {file : ManifestFile} {repoTag imageID : String} {data : List Char}
    (h : updateManifest file repoTag imageID = .ok data) (hread : readManifest file = .ok ms) :
    data = encodeManifest
      (upsert ImageManifest.repoTag { imageID := imageID, repoTag := repoTag } ms) := by
  rw [updateManifest, hread] at h
  rw [← setTag_eq_upsert]
  exact (Except.ok.inj h).symm

/-! ## A step keeps the invariant -/

/-- After a step that changed the call `k`, and what remains to be shown of the file. -/
theorem Sound.step_of {t : Pulling} (h : Sound before s) (hcalls : t.calls = (s.set k c').calls)
    (hnext : s.next ≤ t.next) (hk : k < t.next)
    (hprepared : ∀ seen data, c'.phase = .holding seen data →
      updateManifest seen c'.repoTag c'.imageID = .ok data)
    (hintact : t.Failed ∨ ∃ ms, Complete before ms t ∧ Contents ms t) : Sound before t where
  fresh := h.fresh.step_of hcalls hnext hk
  prepared j d seen data hd hphase := by
    rw [hcalls] at hd
    rcases calls_set hd with ⟨rfl, rfl⟩ | ⟨_, hd⟩
    · exact hprepared seen data hphase
    · exact h.prepared j d seen data hd hphase
  intact := hintact

theorem Sound.begun (h : Sound before s) (repoTag imageID : String) :
    Sound before
      { s.set s.next { repoTag, imageID, phase := .reading } with next := s.next + 1 } := by
  have hnone : ∀ c, s.calls s.next ≠ some c := by
    simp [h.fresh s.next (le_refl _)]
  refine h.step_of rfl (Nat.le_succ _) (Nat.lt_succ_self _) (fun _ _ hphase => by cases hphase) ?_
  rcases h.intact with hfailed | ⟨ms, hcomplete, hcontents⟩
  · exact .inl (hfailed.set fun c hc => absurd hc (hnone c))
  · refine .inr ⟨ms, hcomplete.step_of rfl ?_ ?_, hcontents.step_of rfl rfl ?_ ?_⟩
    · exact fun c hc => absurd hc (hnone c)
    · exact False.elim
    · exact fun c _ hc => absurd hc (hnone c)
    · intro data hphase
      cases hphase

theorem Sound.read {data : List Char} (h : Sound before s) (hc : s.calls k = some c)
    (hp : c.phase = .reading) (hdata : updateManifest s.file c.repoTag c.imageID = .ok data) :
    Sound before (s.set k { c with phase := .holding s.file data }) := by
  refine h.step_of rfl (le_refl _) (h.fresh.lt_next hc) ?_ ?_
  · intro seen data' hd'
    cases hd'
    exact hdata
  · rcases h.intact with hfailed | ⟨ms, hcomplete, hcontents⟩
    · exact .inl (hfailed.set fun d hd => by simp [call_unique hc hd, hp])
    · refine .inr ⟨ms, hcomplete.step_of rfl (same_call hc _) ?_, hcontents.step_of rfl rfl ?_ ?_⟩
      · exact False.elim
      · exact fun d _ hd => by simp [call_unique hc hd, hp]
      · intro data' hd
        cases hd

theorem Sound.failed (h : Sound before s) (hc : s.calls k = some c) (file : ManifestFile) :
    Sound before ({ s with file := file }.set k { c with phase := .returned false }) :=
  h.step_of rfl (le_refl _) (h.fresh.lt_next hc) (fun _ _ hphase => by cases hphase)
    (.inl ⟨k, _, calls_set_self _ _ _, rfl⟩)

/-- Nobody else has the file open, since an empty file is no manifest; what is going to be
written has all entries of the file and that of this call. -/
theorem Sound.opened {data : List Char} (h : Sound before s) (hc : s.calls k = some c)
    (hp : c.phase = .holding s.file data) :
    Sound before ({ s with file := .text [] }.set k { c with phase := .opened data }) := by
  have hdata := h.prepared k c s.file data hc hp
  refine h.step_of rfl (le_refl _) (h.fresh.lt_next hc) (fun _ _ hphase => by cases hphase) ?_
  rcases h.intact with hfailed | ⟨ms, hcomplete, hcontents⟩
  · exact .inl (hfailed.set (s := s) fun d hd => by simp [call_unique hc hd, hp])
  · cases hcontents with
    | opened hi hopened hfile honly =>
        -- the call has read an empty file, and would have returned an error
        rw [hfile, updateManifest_truncated] at hdata
        cases hdata
    | closed hread hnone =>
        obtain rfl := updateManifest_ok hdata hread
        set entry : ImageManifest := { imageID := c.imageID, repoTag := c.repoTag } with hentry
        have hself : PulledAs ({ s with file := .text [] }.set k
            { c with phase := .opened (encodeManifest (upsert ImageManifest.repoTag entry ms)) })
            entry := ⟨k, _, calls_set_self _ _ _, rfl, rfl⟩
        refine .inr ⟨upsert ImageManifest.repoTag entry ms, ⟨?_, ?_⟩, ?_⟩
        · intro j d hj hchanged
          rcases calls_set hj with ⟨rfl, rfl⟩ | ⟨_, hj⟩
          · exact ⟨entry, Upsert.mem_upsert_self _ _, rfl, hself⟩
          · obtain ⟨m, hm, htag, hpulled⟩ := hcomplete.pulled j d hj hchanged
            -- the new entry may stand in the place of the one that was there
            by_cases hm' : m.repoTag = c.repoTag
            · exact ⟨entry, Upsert.mem_upsert_self _ _, hm'.symm.trans htag, hself⟩
            · exact ⟨m, Upsert.mem_upsert_of_ne hm hm', htag, hpulled.set (s := s) (same_call hc _)⟩
        · intro m₀ hm₀
          obtain ⟨m, hm, htag⟩ := hcomplete.earlier m₀ hm₀
          have hkey := Upsert.mem_keys_upsert (x := entry).mpr
            (.inr (List.mem_map_of_mem (f := ImageManifest.repoTag) hm))
          obtain ⟨m', hm', htag'⟩ := List.mem_map.mp hkey
          exact ⟨m', hm', htag'.trans htag⟩
        · refine .opened (calls_set_self _ _ _) rfl rfl fun j d data hj hphase => ?_
          rcases calls_set hj with ⟨rfl, _⟩ | ⟨_, hj⟩
          · rfl
          · exact absurd hphase (hnone j d data hj)

theorem overwrite_truncated (data : List Char) : overwrite (.text []) data = .text data := by
  simp [overwrite]

theorem Sound.wrote {data : List Char} (h : Sound before s) (hc : s.calls k = some c)
    (hp : c.phase = .opened data) :
    Sound before
      ({ s with file := overwrite s.file data }.set k { c with phase := .returned true }) := by
  refine h.step_of rfl (le_refl _) (h.fresh.lt_next hc) (fun _ _ hphase => by cases hphase) ?_
  rcases h.intact with hfailed | ⟨ms, hcomplete, hcontents⟩
  · exact .inl (hfailed.set (s := s) fun d hd => by simp [call_unique hc hd, hp])
  · cases hcontents with
    | closed hread hnone => exact absurd hp (hnone k c data hc)
    | opened hi hopened hfile honly =>
        obtain rfl := honly k c data hc hp
        obtain rfl := call_unique hc hi
        obtain rfl : data = encodeManifest ms := Phase.opened.inj (hp.symm.trans hopened)
        refine .inr ⟨ms, ?_, ?_⟩
        · refine hcomplete.step_of rfl (same_call hc _) fun _ => ?_
          obtain ⟨m, hm, htag, hpulled⟩ :=
            hcomplete.pulled _ _ hc (by rw [hp]; exact trivial)
          exact ⟨m, hm, htag, hpulled.set (same_call hc _)⟩
        · refine .closed ?_ fun j d data hj hphase => ?_
          · show readManifest (overwrite s.file _) = _
            rw [hfile, overwrite_truncated, readManifest, loadManifest_encodeManifest]
          · rcases calls_set hj with ⟨rfl, rfl⟩ | ⟨hne, hj⟩
            · cases hphase
            · exact hne (honly j d data hj hphase)

/-- Each step keeps the invariant, if a call opens the file only while it is what the call has
read. -/
theorem Sound.step {a : Activity} (h : Sound before s) (ha : OpensUnchanged s a)
    (he : s.step a = some t) : Sound before t := by
  cases stepped he with
  | begun repoTag imageID => exact h.begun repoTag imageID
  | read hc hp hdata => exact h.read hc hp hdata
  | failed hc file => exact h.failed hc file
  | opened hc hp =>
      have hsaw := ha _ hc
      rw [hp] at hsaw
      exact h.opened hc (hsaw ▸ hp)
  | wrote hc hp => exact h.wrote hc hp

/-! ## What is kept -/

/-- **No image is lost**, in a run in which a call opens the file for writing only while it
is what the call has read. -/
theorem pulls_kept {file : ManifestFile} (h0 : readManifest file = .ok before)
    (h : Reaches step OpensUnchanged (start file) s) : Kept before s := by
  have hsound : Sound before s := h.invariant (.start h0) fun _ _ _ hi hC he => hi.step hC he
  intro hall
  rcases hsound.intact with ⟨k, c, hc, hp⟩ | ⟨ms, hcomplete, hcontents⟩
  · rw [hall k c hc] at hp
    cases hp
  · cases hcontents with
    | opened hi hopened hfile honly =>
        rw [hall _ _ hi] at hopened
        cases hopened
    | closed hread hnone =>
        refine ⟨ms, hread, fun k c hc => hcomplete.pulled k c hc ?_, hcomplete.earlier⟩
        rw [hall k c hc]
        exact trivial

/-- One call, without an error. -/
def callOf (k : ℕ) (repoTag imageID : String) : List Activity :=
  [.begin repoTag imageID, .read k, .open k, .write k]

/-- Two pulls, one after the other. -/
theorem pulls_kept_two :
    ∃ s : Pulling, (readManifest s.file).toOption =
        some [{ imageID := "000000000001", repoTag := "a" },
          { imageID := "000000000002", repoTag := "b" }] ∧ Kept [] s :=
  ⟨outcome step OpensUnchanged (start .missing)
      (callOf 0 "a" "000000000001" ++ callOf 1 "b" "000000000002"),
    by decide +kernel, pulls_kept rfl (reaches_outcome ..)⟩

/-- Both calls read before either of them writes. -/
def racing : List Activity :=
  [.begin "a" "000000000001", .begin "b" "000000000002", .read 0, .read 1, .open 0, .write 0,
    .open 1, .write 1]

/-- **Both calls return success**, and the first image has no entry. -/
theorem image_lost :
    ∃ s, Reaches step Always (start .missing) s ∧
      (∀ k c, s.calls k = some c → c.phase = .returned true) ∧
      s.calls 0 = some { repoTag := "a", imageID := "000000000001", phase := .returned true } ∧
      ¬ Kept [] s := by
  have hrun := reaches_outcome step Always (start .missing) racing
  have hfresh : Fresh (outcome step Always (start .missing) racing) :=
    hrun.invariant (fun _ _ => rfl) fun _ _ _ hi _ he => hi.step he
  have hall : ∀ k c, (outcome step Always (start .missing) racing).calls k = some c →
      c.phase = .returned true := by
    intro k c hc
    have hk : k < 2 := hfresh.lt_next hc
    have hboth : ∀ k < 2, ∀ c ∈ (outcome step Always (start .missing) racing).calls k,
        c.phase = .returned true := by
      decide +kernel
    exact hboth k hk c hc
  have hfirst : (outcome step Always (start .missing) racing).calls 0 =
      some { repoTag := "a", imageID := "000000000001", phase := .returned true } := by
    decide +kernel
  refine ⟨_, hrun, hall, hfirst, fun hkept => ?_⟩
  obtain ⟨ms, hread, hpulled, -⟩ := hkept hall
  have hfile : readManifest (outcome step Always (start .missing) racing).file =
      .ok [{ imageID := "000000000002", repoTag := "b" }] :=
    ok_of_toOption (by decide +kernel)
  obtain rfl := Except.ok.inj (hread.symm.trans hfile)
  obtain ⟨m, hm, htag, -⟩ := hpulled 0 _ hfirst
  rw [List.mem_singleton.mp hm] at htag
  exact absurd htag (by decide)

end Pulling

end Gocker.Image
