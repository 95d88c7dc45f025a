import Gocker.Obsv.Admin
import Gocker.Obsv.Booking
import Gocker.Obsv.Fallback
import Gocker.Obsv.Scan

/-!
# From the events to the exported counters

The five modules, the handler of `/admin/config` and the loop of the collector
(`gocker-obsv/cmd/collector/main.go`) in one machine.  Events fire on any CPU, requests come in,
and a scan is a sequence of visits to keys between which all of this goes on.

The machine keeps what has been booked.  `exported_eq_booked` says that this is what arrives at
the counters of Prometheus, and `exported_eq_counts` that for page faults and memory events it is
what has happened, whatever the configuration.

### What has to be assumed

* A key stays in the whitelist at every visit (`Listed`); where it does not, the last value is
  dropped and the next visit exports all of it again.
* The sum stays below $2^{64}$: the counters of the kernel wrap around.
* `exported_eq_counts` rests on the refusal of a value of the wrong size by `Map.Update`
  (`CfgMap.update`), so that the modules go by a configuration of zeros, and on there being room
  in the maps.
-/

namespace Gocker.Obsv

open Machine
open Collecting (webKey)

variable {n : ℕ}

/-! ## The machine -/

namespace Module

/-- A key of the map in which a module keeps what it needs later; such a map may lose any of its
entries at any time. -/
def Entry : Module → Type
  | .sched => UInt32
  | .cpu => UInt32
  | .sys => StartKey
  | .pf => Empty
  | .mem => Empty

/-- An LRU map drops an entry of its own. -/
def lose : (m : Module) → m.Entry → m.State n → m.State n
  | .sched => fun pid (s : SchedState n) =>
      { s with pidCgid := Function.update s.pidCgid pid none }
  | .cpu => fun pid (s : CpuState n) => { s with pidCgid := Function.update s.pidCgid pid none }
  | .sys => fun k (s : SysState n) =>
      { s with sysEnterStart := Function.update s.sysEnterStart k none }
  | .pf => fun k _ => nomatch k
  | .mem => fun k _ => nomatch k

end Module

/-- The machine: the handler's state, the modules, the whitelist, what has been exported, and
the books. -/
structure Exporting (n : ℕ) where
  admin : Admin
  modules : (m : Module) → Running m n
  allowed : Allowed
  scanned : (m : Module) → CgMap m → Exported
  /-- the amounts that have been added to a map -/
  booked : (m : Module) → CgMap m → List Amount
  /-- the events of a module -/
  happened : (m : Module) → List (Ctx n × m.Event)

/-- The events. -/
inductive ExportEvent (n : ℕ) where
  | fire (m : Module) (ctx : Ctx n) (e : m.Event)
  | lose (m : Module) (k : m.Entry)
  | post (r : AdminRequest)
  | refresh (sight : Sight) (targetPath : List String)
  /-- a scan comes to a key -/
  | visit (m : Module) (t : CgMap m) (key : CgKey)

/-- What an event books in a map, unless this is full. -/
def CgMap.taken {m : Module} (t : CgMap m) (c : Cfg) (ctx : Ctx n) (e : m.Event)
    (s : Running m n) : Option Amount :=
  (t.books c ctx s.counters e s.state).filter fun a => (t.get s.state).takes ctx a.1

namespace Exporting

/-- An event fires in a module. -/
def fired (s : Exporting n) (m : Module) (ctx : Ctx n) (e : m.Event) (c : Cfg) : Exporting n :=
  let ran := (m.handle ctx e (s.modules m).state).run m c ctx (s.modules m).counters
  { s with
    modules := Function.update s.modules m ⟨ran.value, ran.counters⟩
    booked := Function.update s.booked m fun t =>
      s.booked m t ++ (t.taken c ctx e (s.modules m)).toList
    happened := Function.update s.happened m (s.happened m ++ [(ctx, e)]) }

/-- A scan has come to a key. -/
def visited (s : Exporting n) (m : Module) (t : CgMap m) (key : CgKey) (val : Fin n → UInt64) :
    Exporting n :=
  { s with
    scanned := Function.update s.scanned m (Function.update (s.scanned m) t
      (visit s.allowed (s.scanned m t) (key, List.ofFn val))) }

/-- Only the modules that are loaded have events, and only keys that are there are visited. -/
def step (rodata : Cfg) (s : Exporting n) : ExportEvent n → Option (Exporting n)
  | .fire m ctx e => (s.admin.maps m).map fun map => s.fired m ctx e (loadCfg rodata map)
  | .lose m k =>
      some { s with
        modules := Function.update s.modules m
          { s.modules m with state := m.lose k (s.modules m).state } }
  | .post r => some { s with admin := (adminConfig s.admin r).2 }
  | .refresh sight targetPath =>
      some { s with allowed := refreshAllowed sight targetPath s.admin.cfg0.targetCgid }
  | .visit m t key => ((t.get (s.modules m).state) key).map (s.visited m t key)

/-- The collector has written its configuration and read the first whitelist. -/
def start (loaded : Module → Bool) (cfg0 : Cfg) (allowed : Allowed) : Exporting n where
  admin := { cfg0 := cfg0, maps := writeCfgAll cfg0 (newMaps loaded) }
  modules _ := .start
  allowed := allowed
  scanned _ _ := .start
  booked _ _ := []
  happened _ := []

/-! ## The books -/

section
variable {m : Module} (t : CgMap m) (k : CgKey)

/-- The sum of the amounts under a key. -/
def sumOf (k : CgKey) (as : List Amount) : ℕ :=
  ((as.filter (·.1 = k)).map fun a => a.2.toNat).sum

/-- What has been booked under the key, in all. -/
def bookedSum (s : Exporting n) : ℕ := sumOf k (s.booked m t)

/-- The value in the map. -/
def counted (s : Exporting n) : UInt64 := (t.get (s.modules m).state).total k

/-- The key is in the whitelist whenever a scan comes to it. -/
def Listed (s : Exporting n) : ExportEvent n → Prop
  | .visit _ _ key => key = k → (s.allowed.path k.cgid).isSome = true
  | _ => True

instance (s : Exporting n) (e : ExportEvent n) : Decidable (Listed k s e) :=
  match e with
  | .visit .. => inferInstanceAs (Decidable (_ → _))
  | .fire .. | .lose .. | .post .. | .refresh .. => isTrue trivial

/-- The invariant: the map holds what has been booked, and the collector stands at a value that
the map has had. -/
structure Booked (s : Exporting n) : Prop where
  counted : (s.counted t k).toNat = s.bookedSum t k % 2 ^ 64
  exported : s.bookedSum t k < 2 ^ 64 → (s.scanned m t).exported k ≤ s.bookedSum t k ∧
    (((s.scanned m t).last k).getD 0).toNat = (s.scanned m t).exported k

end

variable {m : Module} {t : CgMap m} {k : CgKey} {s u : Exporting n} {rodata : Cfg}

theorem sumOf_append (k : CgKey) (as bs : List Amount) :
    sumOf k (as ++ bs) = sumOf k as + sumOf k bs := by
  simp [sumOf]

/-- What an event adds to the value of a key. -/
theorem toNat_total_book (h : PerCpuHash n) (ctx : Ctx n) (k : CgKey) (b : Option Amount) :
    ((h.book ctx b).total k).toNat =
      ((h.total k).toNat + sumOf k (b.filter fun a => h.takes ctx a.1).toList) % 2 ^ 64 := by
  have hsame : (h.total k).toNat = ((h.total k).toNat + 0) % 2 ^ 64 :=
    (Nat.mod_eq_of_lt (h.total k).toNat_lt).symm
  cases b with
  | none => exact hsame
  | some a =>
      cases htakes : h.takes ctx a.1 with
      | false =>
          rw [PerCpuHash.book, PerCpuHash.add_of_not_takes htakes,
            Option.filter_some_neg (by simp [htakes])]
          exact hsame
      | true =>
          rw [PerCpuHash.book, Option.filter_some_pos (by simp [htakes]), Option.toList_some]
          by_cases hkey : a.1 = k
          · rw [← hkey, PerCpuHash.total_add_of_takes htakes, UInt64.toNat_add]
            simp [sumOf]
          · rw [PerCpuHash.total_add_of_ne (Ne.symm hkey)]
            simp [sumOf, hkey, Nat.mod_eq_of_lt (UInt64.toNat_lt _)]

/-- The sum that the collector makes is that over the CPUs. -/
theorem sumVal_ofFn (val : Fin n → UInt64) : sumVal (List.ofFn val) = ∑ i, val i := by
  rw [sumVal, ← List.sum_eq_foldl, List.sum_ofFn]

/-! ### One step -/

/-- At the beginning nothing has been booked or exported. -/
theorem Booked.start (t : CgMap m) (k : CgKey) (loaded : Module → Bool) (cfg0 : Cfg)
    (allowed : Allowed) : Booked t k (start loaded cfg0 allowed : Exporting n) := by
  have hempty : (t.get (m.init : m.State n)).total k = 0 := by cases t <;> rfl
  refine ⟨congrArg UInt64.toNat hempty, fun _ => ⟨Nat.le_refl 0, rfl⟩⟩

theorem counted_fired (m' : Module) (ctx : Ctx n) (e : m'.Event) (c : Cfg) :
    ((s.fired m' ctx e c).counted t k).toNat =
        ((s.counted t k).toNat + ((s.fired m' ctx e c).bookedSum t k - s.bookedSum t k)) % 2 ^ 64 ∧
      s.bookedSum t k ≤ (s.fired m' ctx e c).bookedSum t k := by
  by_cases hm : m = m'
  · subst hm
    have hsum : (s.fired m ctx e c).bookedSum t k =
        s.bookedSum t k + sumOf k (t.taken c ctx e (s.modules m)).toList := by
      simp only [bookedSum, fired, Function.update_self, sumOf_append]
    refine ⟨?_, hsum ▸ Nat.le_add_right _ _⟩
    rw [hsum, Nat.add_sub_cancel_left]
    simp only [counted, fired, Function.update_self, handle_books, CgMap.taken]
    exact toNat_total_book _ ctx k _
  · have hsame : (s.fired m' ctx e c).bookedSum t k = s.bookedSum t k := by
      simp only [bookedSum, fired, Function.update_of_ne hm]
    refine ⟨?_, hsame.ge⟩
    rw [hsame, Nat.sub_self, Nat.add_zero, Nat.mod_eq_of_lt (UInt64.toNat_lt _)]
    simp only [counted, fired, Function.update_of_ne hm]

theorem Booked.fired (h : Booked t k s) (m' : Module) (ctx : Ctx n) (e : m'.Event) (c : Cfg) :
    Booked t k (s.fired m' ctx e c) := by
  obtain ⟨hcounted, hle⟩ := s.counted_fired (t := t) (k := k) m' ctx e c
  refine ⟨?_, fun hlt => ?_⟩
  · rw [hcounted, h.counted, Nat.mod_add_mod, Nat.add_sub_cancel' hle]
  · obtain ⟨hexported, hlast⟩ := h.exported (hle.trans_lt hlt)
    exact ⟨hexported.trans hle, hlast⟩

theorem counted_lose (m' : Module) (key : m'.Entry) (s : m'.State n) (t : CgMap m') :
    t.get (m'.lose key s) = t.get s := by
  cases t <;> first | rfl | exact nomatch key

/-- After a visit the counter stands at what has been booked. -/
theorem exported_visited (h : Booked t k s) (hlt : s.bookedSum t k < 2 ^ 64)
    (hlisted : (s.allowed.path k.cgid).isSome = true) {val : Fin n → UInt64}
    (hval : (t.get (s.modules m).state) k = some val) :
    ((s.visited m t k val).scanned m t).exported k = s.bookedSum t k ∧
      (((s.visited m t k val).scanned m t).last k).getD 0 = s.counted t k := by
  have htotal : sumVal (List.ofFn val) = s.counted t k := by
    rw [sumVal_ofFn, counted, PerCpuHash.total, hval]
  have hcounted : (s.counted t k).toNat = s.bookedSum t k := by
    rw [h.counted, Nat.mod_eq_of_lt hlt]
  obtain ⟨hexported, hlast⟩ := h.exported hlt
  simp only [visited, Function.update_self]
  rw [exported_visit hlisted, last_visit hlisted, htotal, hcounted, hlast,
    Nat.add_sub_cancel' hexported]
  exact ⟨rfl, rfl⟩

/-- A visit exports what has been counted since the last one. -/
theorem Booked.visited (h : Booked t k s) {m' : Module} {t' : CgMap m'} {key : CgKey}
    (hlisted : key = k → (s.allowed.path k.cgid).isSome = true) {val : Fin n → UInt64}
    (hval : (t'.get (s.modules m').state) key = some val) :
    Booked t k (s.visited m' t' key val) := by
  refine ⟨h.counted, fun hlt => ?_⟩
  have hsum : (s.visited m' t' key val).bookedSum t k = s.bookedSum t k := rfl
  rw [hsum] at hlt ⊢
  by_cases hm : m = m'
  · subst hm
    by_cases ht : t = t'
    · subst ht
      by_cases hkey : key = k
      · subst hkey
        obtain ⟨hexported, hlast⟩ := exported_visited h hlt (hlisted rfl) hval
        rw [hexported, hlast, h.counted, Nat.mod_eq_of_lt hlt]
        exact ⟨Nat.le_refl _, rfl⟩
      · simp only [Exporting.visited, Function.update_self]
        rw [(visit_of_ne (Ne.symm hkey)).1, (visit_of_ne (Ne.symm hkey)).2]
        exact h.exported hlt
    · simp only [Exporting.visited, Function.update_self, Function.update_of_ne ht]
      exact h.exported hlt
  · simp only [Exporting.visited, Function.update_of_ne hm]
    exact h.exported hlt

theorem Booked.step {e : ExportEvent n} (h : Booked t k s) (hC : Listed k s e)
    (he : s.step rodata e = some u) : Booked t k u := by
  cases e with
  | fire m' ctx e =>
      obtain ⟨map, -, rfl⟩ := Option.map_eq_some_iff.mp he
      exact h.fired m' ctx e _
  | lose m' key =>
      obtain rfl := Option.some.inj he
      refine ⟨?_, h.exported⟩
      by_cases hm : m = m'
      · subst hm
        simp only [Exporting.counted, Function.update_self, counted_lose]
        exact h.counted
      · simp only [Exporting.counted, Function.update_of_ne hm]
        exact h.counted
  | post r =>
      obtain rfl := Option.some.inj he
      exact ⟨h.counted, h.exported⟩
  | refresh sight targetPath =>
      obtain rfl := Option.some.inj he
      exact ⟨h.counted, h.exported⟩
  | visit m' t' key =>
      obtain ⟨val, hval, rfl⟩ := Option.map_eq_some_iff.mp he
      exact h.visited hC hval

/-- A run in which the key is listed at every visit keeps the books. -/
theorem booked_of_reaches {loaded : Module → Bool} {cfg0 : Cfg} {allowed : Allowed}
    (h : Reaches (step rodata) (Listed k) (start loaded cfg0 allowed) s) : Booked t k s :=
  h.invariant (.start t k loaded cfg0 allowed) fun _ _ _ hi hC he => hi.step hC he

/-- A visit leaves nothing out. -/
theorem exported_of_visit (h : Booked t k s) (hlt : s.bookedSum t k < 2 ^ 64)
    (hlisted : Listed k s (.visit m t k)) (he : s.step rodata (.visit m t k) = some u) :
    (u.scanned m t).exported k = s.bookedSum t k ∧ u.booked = s.booked ∧
      u.happened = s.happened := by
  obtain ⟨val, hval, rfl⟩ := Option.map_eq_some_iff.mp he
  exact ⟨(exported_visited h hlt (hlisted rfl) hval).1, rfl, rfl⟩

/-- **What is exported is what has been booked**, once the key has been visited, and never more:
the sum of the amounts that have been applied under the key.  The counters of Prometheus are
floating-point numbers, to which the collector adds the differences as such; meant is the sum of
these differences as whole numbers. -/
theorem exported_eq_booked {loaded : Module → Bool} {cfg0 : Cfg} {allowed : Allowed}
    (h : Reaches (step rodata) (Listed k) (start loaded cfg0 allowed) s)
    (hlt : s.bookedSum t k < 2 ^ 64) :
    (s.scanned m t).exported k ≤ s.bookedSum t k ∧
      ∀ u, Listed k s (.visit m t k) → s.step rodata (.visit m t k) = some u →
        (u.scanned m t).exported k = u.bookedSum t k ∧ u.bookedSum t k = s.bookedSum t k := by
  have hbooked : Booked t k s := booked_of_reaches h
  refine ⟨(hbooked.exported hlt).1, fun u hlisted he => ?_⟩
  obtain ⟨hexported, hsame, -⟩ := exported_of_visit hbooked hlt hlisted he
  have hsum : u.bookedSum t k = s.bookedSum t k := by rw [bookedSum, hsame, bookedSum]
  exact ⟨hexported.trans hsum.symm, hsum⟩

/-- Two processors, a container and its page faults, with a scan in between. -/
def faults (a b : Fin n) : List (ExportEvent n) :=
  let web : Task := { pid := 7, cgroups := [1, 2, 3] }
  [.refresh Hierarchy.flat.sight ["gocker"],
    .fire .pf { cpu := a, current := web } PfEvent.pageFaultUser,
    .visit .pf .cgPfCnt webKey, .fire .pf { cpu := b, current := web } PfEvent.pageFaultUser,
    .post { method := "POST", body := bodyOf [("sample_rate", .num 100)] },
    .fire .pf { cpu := b, current := web } PfEvent.pageFaultUser]

/-- The configuration of a collector that samples every tenth event of the subtree. -/
def tenth : Cfg := { sampleRate := 10, enableFilter := 1, targetLevel := 1, targetCgid := 2 }

theorem exported_eq_booked_faults :
    ∃ s : Exporting 3, s.bookedSum .cgPfCnt webKey = 3 ∧
      (s.scanned .pf .cgPfCnt).exported webKey ≤ s.bookedSum .cgPfCnt webKey ∧
      ∀ u, Listed webKey s (.visit .pf .cgPfCnt webKey) →
        s.step tenth (.visit .pf .cgPfCnt webKey) = some u →
        (u.scanned .pf .cgPfCnt).exported webKey = u.bookedSum .cgPfCnt webKey ∧
          u.bookedSum .cgPfCnt webKey = s.bookedSum .cgPfCnt webKey :=
  ⟨outcome (step tenth) (Listed webKey) (start (fun _ => true) tenth []) (faults 0 1),
    by decide +kernel, exported_eq_booked (reaches_outcome ..) (by decide +kernel)⟩

/-! ## Whatever the configuration -/

/-- No map is full. -/
def Roomy : ExportEvent n → Prop
  | .fire _ ctx _ => ctx.room = true
  | _ => True

/-- The two conditions on an event. -/
def Clear (k : CgKey) (s : Exporting n) (e : ExportEvent n) : Prop := Listed k s e ∧ Roomy e

instance (e : ExportEvent n) : Decidable (Roomy e) :=
  match e with
  | .fire .. => inferInstanceAs (Decidable (_ = _))
  | .lose .. | .post .. | .refresh .. | .visit .. => isTrue trivial

instance (k : CgKey) (s : Exporting n) (e : ExportEvent n) : Decidable (Clear k s e) :=
  inferInstanceAs (Decidable (_ ∧ _))

/-- The amounts of all events, whether or not they pass the checks. -/
def counts (t : CgMap m) (s : Exporting n) : List Amount :=
  (s.happened m).filterMap fun x => t.counts x.1 x.2

/-- The configuration in force is that of the zeros, and all has been booked. -/
structure Unchecked (loaded : Module → Bool) (t : CgMap m) (s : Exporting n) : Prop where
  maps : s.admin.maps = newMaps loaded
  booked : s.booked m t = s.counts t

/-- At the beginning no module has been told of a configuration. -/
theorem Unchecked.start (t : CgMap m) (loaded : Module → Bool) (cfg0 : Cfg) (allowed : Allowed) :
    Unchecked loaded t (start loaded cfg0 allowed : Exporting n) :=
  ⟨writeCfgAll_eq cfg0 _, rfl⟩

theorem taken_unwritten (hplain : t.plain = true) {ctx : Ctx n} (hroom : ctx.room = true)
    (e : m.Event) (s : Running m n) : t.taken unwritten ctx e s = t.counts ctx e := by
  have hsampled : m.sampled unwritten ctx s.counters = true := sample_unwritten _
  have htakes : ∀ key, (t.get s.state).takes ctx key = true := fun key => by
    rw [PerCpuHash.takes, hroom, Bool.or_true]
  rw [CgMap.taken, CgMap.books_of_plain hplain, filter_unwritten, hsampled]
  cases t.counts ctx e with
  | none => rfl
  | some a => exact Option.filter_some_pos (htakes a.1)

/-- A request to the handler leaves the maps of the modules. -/
theorem maps_adminConfig (a : Admin) (r : AdminRequest) : (adminConfig a r).2.maps = a.maps := by
  rw [adminConfig]
  split_ifs
  · rfl
  · cases decodeCfg r.body with
    | none => rfl
    | some input => exact writeCfgAll_eq _ _

/-- Each step keeps this, since no write is taken. -/
theorem Unchecked.step {loaded : Module → Bool} (hplain : t.plain = true) {e : ExportEvent n}
    (h : Unchecked loaded t s) (hroomy : Roomy e) (he : s.step rodata e = some u) :
    Unchecked loaded t u := by
  cases e with
  | fire m' ctx e =>
      obtain ⟨map, hmap, rfl⟩ := Option.map_eq_some_iff.mp he
      refine ⟨h.maps, ?_⟩
      have hnew : map = .new := by
        rw [h.maps, newMaps] at hmap
        split_ifs at hmap
        exact (Option.some.inj hmap).symm
      rw [hnew, loadCfg_new]
      by_cases hm : m = m'
      · subst hm
        simp only [fired, counts, Function.update_self, List.filterMap_append]
        rw [taken_unwritten hplain hroomy, h.booked, counts, List.filterMap_cons]
        cases t.counts ctx e <;> rfl
      · simp only [fired, counts, Function.update_of_ne hm]
        exact h.booked
  | lose m' key =>
      obtain rfl := Option.some.inj he
      exact ⟨h.maps, h.booked⟩
  | post r =>
      obtain rfl := Option.some.inj he
      exact ⟨(maps_adminConfig s.admin r).trans h.maps, h.booked⟩
  | refresh sight targetPath =>
      obtain rfl := Option.some.inj he
      exact ⟨h.maps, h.booked⟩
  | visit m' t' key =>
      obtain ⟨val, -, rfl⟩ := Option.map_eq_some_iff.mp he
      exact ⟨h.maps, h.booked⟩

/-- **What happens is exported**: for page faults and memory events the counter is, after a
visit, the sum over all events of the cgroup.  No sampling rate and no filter, whether set at the
start or by requests, makes a difference. -/
theorem exported_eq_counts {loaded : Module → Bool} {cfg0 : Cfg} {allowed : Allowed}
    (hplain : t.plain = true)
    (h : Reaches (step rodata) (Clear k) (start loaded cfg0 allowed) s)
    (hlt : sumOf k (s.counts t) < 2 ^ 64) :
    (s.scanned m t).exported k ≤ sumOf k (s.counts t) ∧
      ∀ u, Listed k s (.visit m t k) → s.step rodata (.visit m t k) = some u →
        (u.scanned m t).exported k = sumOf k (u.counts t) ∧ u.counts t = s.counts t := by
  have hbooked : s.booked m t = s.counts t :=
    (h.invariant (Unchecked.start t loaded cfg0 allowed) fun _ _ _ hi hC he =>
      hi.step hplain hC.2 he).booked
  have hsum : s.bookedSum t k = sumOf k (s.counts t) := congrArg (sumOf k) hbooked
  rw [← hsum] at hlt ⊢
  have hbooks : Booked t k s := booked_of_reaches (h.mono fun _ _ hC => hC.1)
  refine ⟨(hbooks.exported hlt).1, fun u hlisted he => ?_⟩
  obtain ⟨hexported, -, hsame⟩ := exported_of_visit hbooks hlt hlisted he
  have hcounts : u.counts t = s.counts t := by rw [counts, hsame, counts]
  exact ⟨by rw [hexported, hsum, hcounts], hcounts⟩

/-- Three page faults, with the filter asked for. -/
theorem exported_eq_counts_faults :
    ∃ s : Exporting 3, s.counts .cgPfCnt = [(webKey, 1), (webKey, 1), (webKey, 1)] ∧
      (s.scanned .pf .cgPfCnt).exported webKey ≤ sumOf webKey (s.counts .cgPfCnt) ∧
      ∀ u, Listed webKey s (.visit .pf .cgPfCnt webKey) →
        s.step tenth (.visit .pf .cgPfCnt webKey) = some u →
        (u.scanned .pf .cgPfCnt).exported webKey = sumOf webKey (u.counts .cgPfCnt) ∧
          u.counts .cgPfCnt = s.counts .cgPfCnt :=
  ⟨outcome (step tenth) (Clear webKey) (start (fun _ => true) tenth []) (faults 0 1),
    by decide +kernel, exported_eq_counts rfl (reaches_outcome ..) (by decide +kernel)⟩

end Exporting

end Gocker.Obsv
