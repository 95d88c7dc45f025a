import Gocker.Lib.Fields
import Gocker.Lib.Meter
import Gocker.Obsv.Scan

/-!
# Exporting what the kernel has counted itself

Beside its own maps the collector exports the page faults of `memory.stat` and the times of the
pressure files (`updateMemory` and `updatePSI`, `gocker-obsv/cmd/collector/main.go`).  It adds by
how much a total exceeds the last one read of the cgroup.  The last ones of all cgroups are in
four tables, from which `pruneState` takes out the cgroups that are not in the whitelist.

`exported_telescopes` says what is exported of a total that never falls: its rises while the
cgroup stays in the whitelist.  Each total of each cgroup is a meter of its own
(`meter_collect`).

### The texts

Both files are read back from what the kernel writes: lines of a name and a number, and lines of
a level and pairs.  A line that does not have this form, or whose number does not fit in 64 bits,
is passed over (`memoryStatLine`, `psiToken`), and a total of which no line tells is zero.
-/

namespace Gocker.Obsv

open Fields Meter

/-! ## The files -/

/-- Two totals that stand in one file. -/
structure Totals where
  first : UInt64
  second : UInt64
deriving DecidableEq, Repr

/-- `memCounters`, from the numbers of `memory.stat`: the major faults, and the others. -/
def memCounters (pgfault pgmaj : UInt64) : Totals where
  first := pgmaj
  second := if pgfault ≥ pgmaj then pgfault - pgmaj else 0

/-- `psiCounters` -/
def psiCounters (someTotal fullTotal : UInt64) : Totals where
  first := someTotal
  second := fullTotal

/-- A line of `memory.stat`, after `pgfault` and `pgmajfault` have been found to be `r`. -/
def memoryStatLine (r : UInt64 × UInt64) (line : Text) : UInt64 × UInt64 :=
  match fields line with
  | [name, value] =>
      match parseUint value with
      | none => r
      | some val =>
          if name = ofString "pgfault" then (val, r.2)
          else if name = ofString "pgmajfault" then (r.1, val)
          else r
  | _ => r

/-- The content of a file, or an error when it is opened or read. -/
abbrev Content := Except FileError Text

/-- The lines of a file; one may be too long. -/
def scanned (content : Content) : Except FileError (List Text) :=
  match content with
  | .error err => .error err
  | .ok text =>
      match lines text with
      | none => .error .other
      | some ls => .ok ls

/-- `readMemoryStat`: the totals of the two lines, zero where a line is missing. -/
def readMemoryStat (content : Content) : Except FileError (UInt64 × UInt64) :=
  (scanned content).map fun ls => ls.foldl memoryStatLine (0, 0)

/-- What stands before the total of a pressure line. -/
def total : Text := ofString "total="

/-- A field of a line of a pressure file. -/
def psiToken (level : Text) (r : UInt64 × UInt64) (token : Text) : UInt64 × UInt64 :=
  if total.isPrefixOf token then
    match parseUint (token.drop total.length) with
    | none => r
    | some val =>
        if level = ofString "some" then (val, r.2)
        else if level = ofString "full" then (r.1, val)
        else r
  else r

/-- A line of a pressure file: its level, and then its tokens. -/
def psiLine (r : UInt64 × UInt64) (line : Text) : UInt64 × UInt64 :=
  match fields line with
  | [] => r
  | level :: tokens => tokens.foldl (psiToken level) r

/-- `readPSI`: the totals of the two levels. -/
def readPSI (content : Content) : Except FileError (UInt64 × UInt64) :=
  (scanned content).map fun ls => ls.foldl psiLine (0, 0)

/-! ### What the kernel writes -/

/-- A line of `memory.stat`. -/
def statLine (stat : Text × UInt64) : Text := unwords Rune.space [stat.1, digits stat.2]

/-- The last number with this name. -/
def statValue (name : String) (stats : List (Text × UInt64)) : UInt64 :=
  ((stats.filter (·.1 = ofString name)).getLast?.map Prod.snd).getD 0

theorem statValue_concat (name : String) (stats : List (Text × UInt64)) (stat : Text × UInt64) :
    statValue name (stats ++ [stat]) =
      if stat.1 = ofString name then stat.2 else statValue name stats := by
  rw [statValue, List.filter_append]
  split_ifs with hname
  · rw [List.filter_cons_of_pos (by simpa using hname), List.filter_nil, List.getLast?_concat]
    rfl
  · rw [List.filter_cons_of_neg (by simpa using hname), List.filter_nil, List.append_nil, statValue]

theorem isField_stat {stat : Text × UInt64} (hname : IsField stat.1) :
    ∀ word ∈ [stat.1, digits stat.2], IsField word := by
  simp only [List.mem_cons, List.not_mem_nil, or_false]
  rintro word (rfl | rfl)
  · exact hname
  · exact isField_digits stat.2

theorem memoryStatLine_statLine {stat : Text × UInt64} (hname : IsField stat.1)
    (r : UInt64 × UInt64) :
    memoryStatLine r (statLine stat) =
      if stat.1 = ofString "pgfault" then (stat.2, r.2)
      else if stat.1 = ofString "pgmajfault" then (r.1, stat.2)
      else r := by
  rw [memoryStatLine, statLine, fields_unwords (isField_stat hname)]
  simp only [parseUint_digits]

/-- The numbers of `memory.stat` are read back. -/
theorem readMemoryStat_stats {stats : List (Text × UInt64)}
    (hname : ∀ stat ∈ stats, IsField stat.1)
    (hfit : ∀ stat ∈ stats, ((statLine stat).map Rune.size).sum < maxScanTokenSize) :
    readMemoryStat (.ok (unlines Rune.newline (stats.map statLine))) =
      .ok (statValue "pgfault" stats, statValue "pgmajfault" stats) := by
  have hlines : lines (unlines Rune.newline (stats.map statLine)) = some (stats.map statLine) := by
    refine lines_unlines fun l hl => ?_
    obtain ⟨stat, hstat, rfl⟩ := List.mem_map.mp hl
    obtain ⟨hnewline, hcr⟩ := line_of_fields (isField_stat (hname stat hstat))
    exact ⟨hnewline, hcr, hfit stat hstat⟩
  have hfold : (stats.map statLine).foldl memoryStatLine (0, 0) =
      (statValue "pgfault" stats, statValue "pgmajfault" stats) := by
    clear hlines hfit
    induction stats using List.reverseRecOn with
    | nil => rfl
    | append_singleton stats stat ih =>
        have hbefore := ih fun s hs => hname s (List.mem_append_left _ hs)
        have hstat := hname stat (List.mem_append_right _ (List.mem_singleton_self stat))
        rw [List.map_append, List.foldl_append, hbefore]
        simp only [List.map_singleton, List.foldl_cons, List.foldl_nil]
        rw [memoryStatLine_statLine hstat, statValue_concat, statValue_concat]
        by_cases hfault : stat.1 = ofString "pgfault"
        · have hmaj : stat.1 ≠ ofString "pgmajfault" := by rw [hfault]; decide
          rw [if_pos hfault, if_pos hfault, if_neg hmaj]
        · rw [if_neg hfault, if_neg hfault]
          split_ifs
          · rfl
          · rfl
  rw [readMemoryStat, scanned, hlines, ← hfold]
  rfl

/-- A line of a pressure file, where `averages` are the other fields. -/
def psiText (level : String) (averages : List Text) (value : UInt64) : Text :=
  unwords Rune.space (ofString level :: averages ++ [total ++ digits value])

/-- The fields of a line of a pressure file. -/
theorem isField_psi {level : String} {averages : List Text} (hlevel : IsField (ofString level))
    (haverages : ∀ token ∈ averages, IsField token) (value : UInt64) :
    ∀ word ∈ ofString level :: averages ++ [total ++ digits value], IsField word := by
  intro word hword
  rw [List.cons_append, List.mem_cons, List.mem_append, List.mem_singleton] at hword
  rcases hword with rfl | hword | rfl
  · exact hlevel
  · exact haverages word hword
  · exact IsField.append (by decide) (isField_digits value)

theorem psiToken_total (level : Text) (r : UInt64 × UInt64) (value : UInt64) :
    psiToken level r (total ++ digits value) =
      if level = ofString "some" then (value, r.2)
      else if level = ofString "full" then (r.1, value)
      else r := by
  have hprefix : total.isPrefixOf (total ++ digits value) = true :=
    List.isPrefixOf_iff_prefix.mpr (List.prefix_append total _)
  rw [psiToken, if_pos hprefix, List.drop_left, parseUint_digits]

/-- A line of a pressure file says its total, whatever the averages are. -/
theorem psiLine_psiText {level : String} {averages : List Text}
    (hlevel : IsField (ofString level))
    (haverages : ∀ token ∈ averages, IsField token ∧ total.isPrefixOf token = false)
    (r : UInt64 × UInt64) (value : UInt64) :
    psiLine r (psiText level averages value) =
      psiToken (ofString level) r (total ++ digits value) := by
  have hskip : averages.foldl (psiToken (ofString level)) r = r := by
    clear hlevel
    induction averages with
    | nil => rfl
    | cons token averages ih =>
        have htoken : psiToken (ofString level) r token = r :=
          if_neg (Bool.eq_false_iff.mp (haverages token List.mem_cons_self).2)
        rw [List.foldl_cons, htoken]
        exact ih fun t ht => haverages t (List.mem_cons_of_mem _ ht)
  rw [psiLine, psiText, fields_unwords (isField_psi hlevel (fun t ht => (haverages t ht).1) value)]
  simp only [List.cons_append, List.foldl_append, hskip, List.foldl_cons, List.foldl_nil]

/-- The totals of a pressure file are read back. -/
theorem readPSI_psiText {averages averages' : List Text}
    (haverages : ∀ token ∈ averages ++ averages', IsField token ∧ total.isPrefixOf token = false)
    (someTotal fullTotal : UInt64)
    (hfit : ∀ line ∈ [psiText "some" averages someTotal, psiText "full" averages' fullTotal],
      (line.map Rune.size).sum < maxScanTokenSize) :
    readPSI (.ok (unlines Rune.newline
      [psiText "some" averages someTotal, psiText "full" averages' fullTotal])) =
      .ok (someTotal, fullTotal) := by
  have hsome : ∀ token ∈ averages, IsField token ∧ total.isPrefixOf token = false :=
    fun t ht => haverages t (List.mem_append_left _ ht)
  have hfull : ∀ token ∈ averages', IsField token ∧ total.isPrefixOf token = false :=
    fun t ht => haverages t (List.mem_append_right _ ht)
  have hlines : lines (unlines Rune.newline
      [psiText "some" averages someTotal, psiText "full" averages' fullTotal]) =
      some [psiText "some" averages someTotal, psiText "full" averages' fullTotal] := by
    refine lines_unlines fun l hl => ?_
    have hline : Rune.newline ∉ l ∧ .char '\r' ∉ l := by
      simp only [List.mem_cons, List.not_mem_nil, or_false] at hl
      rcases hl with rfl | rfl
      · exact line_of_fields (isField_psi (by decide) (fun t ht => (hsome t ht).1) _)
      · exact line_of_fields (isField_psi (by decide) (fun t ht => (hfull t ht).1) _)
    exact ⟨hline.1, hline.2, hfit l hl⟩
  have hne : ofString "full" ≠ ofString "some" := by decide
  rw [readPSI, scanned, hlines]
  simp only [Except.map, List.foldl_cons, List.foldl_nil]
  rw [psiLine_psiText (by decide) hsome, psiLine_psiText (by decide) hfull, psiToken_total,
    psiToken_total, if_pos rfl, if_neg hne, if_pos rfl]

/-! ## A tick -/

/-- The tables of last values. -/
inductive Table where
  | memoryLast
  | psiLastCpu
  | psiLastIo
  | psiLastMem
deriving DecidableEq, Repr

/-- A label of an exported counter. -/
inductive Column where
  | first
  | second
deriving DecidableEq, Repr

/-- The total of a column. -/
def Totals.get (t : Totals) : Column → UInt64
  | .first => t.first
  | .second => t.second

/-- The counters that are exported of a cgroup. -/
structure Counter where
  table : Table
  column : Column
deriving DecidableEq, Repr

/-- The file that a table is about. -/
def Table.file : Table → String
  | .memoryLast => "memory.stat"
  | .psiLastCpu => "cpu.pressure"
  | .psiLastIo => "io.pressure"
  | .psiLastMem => "memory.pressure"

/-- The last totals, and what has been exported of each counter. -/
structure Readings where
  last : Table → UInt64 → Option Totals
  /-- the sums of what has been added -/
  exported : Counter → UInt64 → ℕ

/-- Nothing has been read. -/
def Readings.start : Readings where
  last _ _ := none
  exported _ _ := 0

/-- `pruneState`: the last totals of cgroups that are not listed are dropped. -/
def pruneState (set : Allowed) (s : Readings) : Readings where
  last table cgid := if (set.path cgid).isSome then s.last table cgid else none
  exported := s.exported

/-- Add a difference to a counter, if there is one. -/
def addDelta (c : Counter) (cgid total prev : UInt64) (exported : Counter → UInt64 → ℕ) :
    Counter → UInt64 → ℕ :=
  if total ≥ prev ∧ total - prev > 0 then
    Function.update exported c
      (Function.update (exported c) cgid (exported c cgid + (total - prev).toNat))
  else exported

/-- What happens to the totals that have been read for a table. -/
def record (table : Table) (cgid : UInt64) (now : Totals) (s : Readings) : Readings where
  exported :=
    match s.last table cgid with
    | none => s.exported
    | some prev =>
        addDelta ⟨table, .second⟩ cgid now.second prev.second
          (addDelta ⟨table, .first⟩ cgid now.first prev.first s.exported)
  last := Function.update s.last table (Function.update (s.last table) cgid (some now))

/-- What the collector finds at a tick.  `cfg0.TargetCgid` may change at any time, and the loops go
over the whitelist in any order. -/
structure Round (targetPath : List String) where
  sight : Sight
  /-- `cfg0.TargetCgid` when the whitelist is refreshed -/
  targetCgid : UInt64
  /-- `cfg0.TargetCgid` when the two loops come to a cgroup -/
  memoryTarget : UInt64 → UInt64
  psiTarget : UInt64 → UInt64
  file : List String → Content
  memoryPaths : Allowed
  psiPaths : Allowed
  memoryPaths_perm : memoryPaths.Perm (refreshAllowed sight targetPath targetCgid)
  psiPaths_perm : psiPaths.Perm (refreshAllowed sight targetPath targetCgid)

namespace Round

variable {targetPath : List String} (round : Round targetPath)

/-- The whitelist of the tick. -/
def allowed : Allowed := refreshAllowed round.sight targetPath round.targetCgid

/-- The body of the loop of `updateMemory`. -/
def visitMemory (s : Readings) (entry : UInt64 × List String) : Readings :=
  let (cgid, dir) := entry
  if cgid = round.memoryTarget cgid then s
  else
    match readMemoryStat (round.file (dir ++ [Table.memoryLast.file])) with
    | .error _ => s
    | .ok (pgfault, pgmaj) => record .memoryLast cgid (memCounters pgfault pgmaj) s

/-- The three parts of the body of the loop of `updatePSI`. -/
def visitPressure (cgid : UInt64) (dir : List String) (s : Readings) (table : Table) : Readings :=
  match readPSI (round.file (dir ++ [table.file])) with
  | .error _ => s
  | .ok (someTotal, fullTotal) => record table cgid (psiCounters someTotal fullTotal) s

/-- The pressure files of a cgroup.  The totals of the target itself are not exported. -/
def visitPSI (s : Readings) (entry : UInt64 × List String) : Readings :=
  let (cgid, dir) := entry
  if cgid = round.psiTarget cgid then s
  else [Table.psiLastCpu, .psiLastIo, .psiLastMem].foldl (round.visitPressure cgid dir) s

/-- `updateMemory` -/
def updateMemory (s : Readings) : Readings := round.memoryPaths.foldl round.visitMemory s

/-- `updatePSI` -/
def updatePSI (s : Readings) : Readings := round.psiPaths.foldl round.visitPSI s

/-- What a tick does to the tables. -/
def tick (s : Readings) : Readings :=
  round.updatePSI (round.updateMemory (pruneState round.allowed s))

end Round

/-- The tables after these ticks. -/
def collect {targetPath : List String} (rounds : List (Round targetPath)) : Readings :=
  rounds.foldl (fun s round => round.tick s) .start

/-! ## Each total is a meter -/

/-- What the collector keeps about one total of one cgroup. -/
def meter (s : Readings) (c : Counter) (cgid : UInt64) : Meter where
  last := (s.last c.table cgid).map fun t => (t.get c.column).toNat
  sum := s.exported c cgid

section
variable {s : Readings} {c : Counter} {k : UInt64}

/-- What is added is the rise. -/
theorem addDelta_eq (cgid total prev : UInt64) (exported : Counter → UInt64 → ℕ) :
    addDelta c cgid total prev exported =
      Function.update exported c (Function.update (exported c) cgid
        (exported c cgid + (total.toNat - prev.toNat))) := by
  rw [addDelta, ← applied_eq]
  split_ifs
  · rfl
  · rw [Function.update_eq_self, Function.update_eq_self]

/-- A counter goes up by how much the total exceeds the last one. -/
theorem addDelta_apply (c' : Counter) (cgid total prev : UInt64) (exported : Counter → UInt64 → ℕ) :
    addDelta c' cgid total prev exported c k =
      if c = c' ∧ k = cgid then exported c k + (total.toNat - prev.toNat) else exported c k := by
  rw [addDelta_eq]
  by_cases hc : c = c'
  · subst hc
    rw [Function.update_self, Function.update_apply]
    by_cases hk : k = cgid
    · rw [if_pos hk, if_pos ⟨rfl, hk⟩, hk]
    · rw [if_neg hk, if_neg fun h => hk h.2]
  · rw [Function.update_of_ne hc, if_neg fun h => hc h.1]

/-- A total that is recorded is read by its meters. -/
theorem meter_record (table : Table) (cgid : UInt64) (now : Totals) :
    meter (record table cgid now s) c k =
      if c.table = table ∧ k = cgid then
        (meter s c k).read (some (now.get c.column).toNat)
      else meter s c k := by
  obtain ⟨t, column⟩ := c
  by_cases htable : t = table
  · by_cases hk : k = cgid
    · subst htable hk
      rw [if_pos ⟨rfl, rfl⟩, meter, record, Meter.read]
      simp only [Function.update_self, Option.map_some]
      cases hlast : s.last t k with
      | none => simp [meter, hlast]
      | some prev => cases column <;> simp [meter, hlast, addDelta_apply, Totals.get]
    · rw [if_neg fun h => hk h.2, meter, record]
      subst htable
      simp only [Function.update_self, Function.update_of_ne hk]
      cases s.last t cgid with
      | none => rfl
      | some prev => simp [meter, addDelta_apply, hk]
  · rw [if_neg fun h => htable h.1, meter, record]
    simp only [Function.update_of_ne htable]
    cases s.last table cgid with
    | none => rfl
    | some prev => simp [meter, addDelta_apply, htable]

/-- Record totals if they could be read. -/
def recordRead (table : Table) (cgid : UInt64) (now : Option Totals) (s : Readings) : Readings :=
  now.elim s fun t => record table cgid t s

theorem meter_recordRead (table : Table) (cgid : UInt64) (now : Option Totals) :
    meter (recordRead table cgid now s) c k =
      if c.table = table ∧ k = cgid then
        (meter s c k).read (now.map fun t => (t.get c.column).toNat)
      else meter s c k := by
  cases now with
  | none => rw [Option.map_none, Meter.read, ite_self, recordRead, Option.elim_none]
  | some t => exact meter_record table cgid t

/-- A cgroup that is dropped is away from its meters. -/
theorem meter_pruneState (set : Allowed) :
    meter (pruneState set s) c k =
      if (set.path k).isSome then meter s c k else (meter s c k).drop := by
  by_cases hpath : (set.path k).isSome = true
  · rw [if_pos hpath, meter, pruneState]
    simp only [hpath, if_true]
    rfl
  · rw [if_neg hpath, meter, pruneState]
    simp only [hpath]
    rfl

theorem path_cons (entry : UInt64 × List String) (entries : Allowed) :
    Allowed.path (entry :: entries) k =
      if entry.1 = k then some entry.2 else Allowed.path entries k := by
  rw [Allowed.path, List.find?_cons]
  by_cases hentry : entry.1 = k
  · simp [hentry]
  · simp [hentry, Allowed.path]

/-- A loop over cgroups comes to each of them once. -/
theorem meter_foldl {visit : Readings → UInt64 × List String → Readings}
    {f : List String → Meter → Meter}
    (hvisit : ∀ s entry, meter (visit s entry) c k =
      if entry.1 = k then f entry.2 (meter s c k) else meter s c k)
    {entries : Allowed} (hnodup : (entries.map Prod.fst).Nodup) (s : Readings) :
    meter (entries.foldl visit s) c k =
      (entries.path k).elim (meter s c k) fun dir => f dir (meter s c k) := by
  induction entries generalizing s with
  | nil => rfl
  | cons entry entries ih =>
      obtain ⟨hnew, hrest⟩ := List.nodup_cons.mp hnodup
      rw [List.foldl_cons, ih hrest, hvisit]
      by_cases hentry : entry.1 = k
      · have hnone : Allowed.path entries k = none := by
          rw [← Option.not_isSome_iff_eq_none, Allowed.path_isSome, ← hentry]
          exact hnew
        rw [path_cons, if_pos hentry, if_pos hentry, hnone]
        rfl
      · rw [path_cons, if_neg hentry, if_neg hentry]

end

/-! ### A tick -/

theorem nodup_collectEntries (sight : Sight) (root : List String) (entries : List DirEntry)
    {c : Collected} (h : (c.allowed.map Prod.fst).Nodup) :
    ((entries.foldl (collectEntry sight root) c).allowed.map Prod.fst).Nodup := by
  induction entries generalizing c with
  | nil => exact h
  | cons entry entries ih =>
      rw [List.foldl_cons]
      refine ih ?_
      rw [collectEntry]
      split_ifs
      · split
        · exact Upsert.nodup_upsert h
        · exact h
        · exact h
      · exact h

/-- A cgroup is in the whitelist once. -/
theorem nodup_refreshAllowed (sight : Sight) (targetPath : List String) (targetCgid : UInt64) :
    ((refreshAllowed sight targetPath targetCgid).map Prod.fst).Nodup := by
  have hone : ∀ x : UInt64 × List String, ((Upsert.upsert Prod.fst x []).map Prod.fst).Nodup :=
    fun _ => Upsert.nodup_upsert List.nodup_nil
  have hset : (((collectAllowed sight targetPath).1.getD []).map Prod.fst).Nodup := by
    rw [collectAllowed]
    split
    · exact List.nodup_nil
    · split
      · exact hone _
      · exact nodup_collectEntries sight targetPath _ (hone _)
  rw [refreshAllowed]
  split_ifs
  · exact Upsert.nodup_upsert hset
  · exact hset

/-- The order of a loop does not matter. -/
theorem path_perm {allowed paths : Allowed} (hperm : paths.Perm allowed)
    (hnodup : (allowed.map Prod.fst).Nodup) (k : UInt64) : paths.path k = allowed.path k := by
  rw [Allowed.path, Allowed.path,
    Upsert.find?_perm hperm ((hperm.map Prod.fst).nodup_iff.mpr hnodup)]

namespace Round

variable {targetPath : List String} (round : Round targetPath)

/-- What is read for a table when a cgroup comes up. -/
def totals (table : Table) (cgid : UInt64) (dir : List String) : Option Totals :=
  match table with
  | .memoryLast =>
      if cgid = round.memoryTarget cgid then none
      else (readMemoryStat (round.file (dir ++ [table.file]))).toOption.map fun r =>
        memCounters r.1 r.2
  | _ =>
      if cgid = round.psiTarget cgid then none
      else (readPSI (round.file (dir ++ [table.file]))).toOption.map fun r =>
        psiCounters r.1 r.2

/-- What is read for a counter, if the cgroup is in the whitelist. -/
def reading (c : Counter) (cgid : UInt64) (dir : List String) : Option ℕ :=
  (round.totals c.table cgid dir).map fun t => (t.get c.column).toNat

/-- What a tick shows of a counter. -/
def shows (c : Counter) (cgid : UInt64) : Option (Option ℕ) :=
  (round.allowed.path cgid).map (round.reading c cgid)

variable {round} {s : Readings} {c : Counter} {k : UInt64}

theorem nodup_allowed : (round.allowed.map Prod.fst).Nodup := nodup_refreshAllowed ..

theorem visitMemory_eq (entry : UInt64 × List String) :
    round.visitMemory s entry =
      recordRead .memoryLast entry.1 (round.totals .memoryLast entry.1 entry.2) s := by
  rw [visitMemory, totals]
  split_ifs
  · rfl
  · cases readMemoryStat (round.file (entry.2 ++ [Table.memoryLast.file])) <;> rfl

theorem meter_visitMemory (s : Readings) (entry : UInt64 × List String) :
    meter (round.visitMemory s entry) c k =
      if entry.1 = k then
        (if c.table = .memoryLast then (meter s c k).read (round.reading c k entry.2)
          else meter s c k)
      else meter s c k := by
  rw [visitMemory_eq, meter_recordRead]
  by_cases hk : entry.1 = k
  · subst hk
    by_cases htable : c.table = .memoryLast
    · rw [if_pos ⟨htable, rfl⟩, if_pos rfl, if_pos htable, reading, htable]
    · rw [if_neg fun h => htable h.1, if_pos rfl, if_neg htable]
  · rw [if_neg fun h => hk h.2.symm, if_neg hk]

theorem totals_of_ne {table : Table} (htable : table ≠ .memoryLast) (cgid : UInt64)
    (dir : List String) :
    round.totals table cgid dir =
      if cgid = round.psiTarget cgid then none
      else (readPSI (round.file (dir ++ [table.file]))).toOption.map fun r =>
        psiCounters r.1 r.2 := by
  cases table with
  | memoryLast => exact absurd rfl htable
  | psiLastCpu => rfl
  | psiLastIo => rfl
  | psiLastMem => rfl

theorem visitPressure_eq {cgid : UInt64} {dir : List String} {table : Table}
    (hcgid : cgid ≠ round.psiTarget cgid) (htable : table ≠ .memoryLast) (s : Readings) :
    round.visitPressure cgid dir s table =
      recordRead table cgid (round.totals table cgid dir) s := by
  rw [totals_of_ne htable, if_neg hcgid, visitPressure]
  cases readPSI (round.file (dir ++ [table.file])) <;> rfl

/-- The target is passed over as if its files could not be read. -/
theorem visitPSI_eq (entry : UInt64 × List String) :
    round.visitPSI s entry =
      [Table.psiLastCpu, .psiLastIo, .psiLastMem].foldl
        (fun s table => recordRead table entry.1 (round.totals table entry.1 entry.2) s) s := by
  rw [visitPSI]
  by_cases htarget : entry.1 = round.psiTarget entry.1
  · have hnone : ∀ table ≠ .memoryLast, round.totals table entry.1 entry.2 = none :=
      fun table htable => (totals_of_ne htable ..).trans (if_pos htarget)
    rw [if_pos htarget]
    simp only [List.foldl_cons, List.foldl_nil]
    rw [hnone _ (by decide), hnone _ (by decide), hnone _ (by decide)]
    rfl
  · rw [if_neg htarget]
    simp only [List.foldl_cons, List.foldl_nil]
    rw [visitPressure_eq htarget (by decide), visitPressure_eq htarget (by decide),
      visitPressure_eq htarget (by decide)]

theorem meter_visitPSI (s : Readings) (entry : UInt64 × List String) :
    meter (round.visitPSI s entry) c k =
      if entry.1 = k then
        (if c.table = .memoryLast then meter s c k
          else (meter s c k).read (round.reading c k entry.2))
      else meter s c k := by
  rw [visitPSI_eq]
  simp only [List.foldl_cons, List.foldl_nil, meter_recordRead]
  by_cases hk : entry.1 = k
  · subst hk
    cases htable : c.table <;> simp [reading, htable]
  · simp only [Ne.symm hk, hk, and_false, if_false]

/-! ### The meters of the collector -/

/-- The loops go over the whitelist. -/
theorem path_of_perm {paths : Allowed} (hperm : paths.Perm round.allowed) (k : UInt64) :
    (paths.map Prod.fst).Nodup ∧ paths.path k = round.allowed.path k :=
  ⟨(hperm.map Prod.fst).nodup_iff.mpr nodup_allowed, path_perm hperm nodup_allowed k⟩

/-- A tick over the memory reads each listed cgroup once. -/
theorem meter_updateMemory (s : Readings) :
    meter (round.updateMemory s) c k =
      (round.allowed.path k).elim (meter s c k) fun dir =>
        if c.table = .memoryLast then (meter s c k).read (round.reading c k dir)
        else meter s c k := by
  obtain ⟨hnodup, hpath⟩ := path_of_perm round.memoryPaths_perm k
  rw [updateMemory, ← hpath]
  exact meter_foldl
    (f := fun dir m => if c.table = .memoryLast then m.read (round.reading c k dir) else m)
    meter_visitMemory hnodup s

theorem meter_updatePSI (s : Readings) :
    meter (round.updatePSI s) c k =
      (round.allowed.path k).elim (meter s c k) fun dir =>
        if c.table = .memoryLast then meter s c k
        else (meter s c k).read (round.reading c k dir) := by
  obtain ⟨hnodup, hpath⟩ := path_of_perm round.psiPaths_perm k
  rw [updatePSI, ← hpath]
  exact meter_foldl
    (f := fun dir m => if c.table = .memoryLast then m else m.read (round.reading c k dir))
    meter_visitPSI hnodup s

/-- **A tick of the collector is a tick of each meter.** -/
theorem meter_tick (s : Readings) :
    meter (round.tick s) c k = (meter s c k).tick (round.shows c k) := by
  rw [Round.tick, meter_updatePSI, meter_updateMemory, meter_pruneState, shows]
  cases round.allowed.path k with
  | none => rfl
  | some dir =>
      by_cases htable : c.table = .memoryLast
      · simp [htable, Meter.tick]
      · simp [htable, Meter.tick]

end Round

section
variable {targetPath : List String}

/-- **Each total of each cgroup is a meter of its own**, over the ticks. -/
theorem meter_collect (rounds : List (Round targetPath)) (c : Counter) (k : UInt64) :
    meter (collect rounds) c k = metered (fun round => round.shows c k) rounds Meter.start := by
  induction rounds using List.reverseRecOn with
  | nil => rfl
  | append_singleton rounds round ih =>
      rw [metered_concat, ← ih, collect, List.foldl_concat, Round.meter_tick, ← collect]

/-- The longest stretches of ticks during which a cgroup stays in the whitelist. -/
def whitelisted (k : UInt64) (rounds : List (Round targetPath)) : List (List (Round targetPath)) :=
  rounds.splitOnP fun round => (round.allowed.path k).isNone

/-- The values of a total that are read. -/
def successful (c : Counter) (k : UInt64) (rounds : List (Round targetPath)) : List ℕ :=
  rounds.filterMap fun round => (round.allowed.path k).bind (round.reading c k)

/-- What it reads are the totals that could be read. -/
theorem values_shows (c : Counter) (k : UInt64) (rounds : List (Round targetPath)) :
    values (fun round => round.shows c k) rounds = successful c k rounds := by
  refine List.filterMap_congr fun round _ => ?_
  cases hpath : round.allowed.path k <;> simp [Round.shows, hpath]

/-- Its stretches are those in which the cgroup was listed. -/
theorem stretches_shows (c : Counter) (k : UInt64) (rounds : List (Round targetPath)) :
    stretches (fun round => round.shows c k) rounds = whitelisted k rounds := by
  simp only [stretches, whitelisted, Round.shows, Option.isNone_map]

/-- **The totals telescope.**  What is exported of a total that never falls is the sum, over the
stretches of ticks during which the cgroup stays in the whitelist, of the last value read minus
the first.  It is not more than what the total has grown by, and what is exported after the
cgroup has been out of the whitelist is what a new collector would export. -/
theorem exported_telescopes {rounds : List (Round targetPath)} {c : Counter} {k : UInt64}
    (h : (successful c k rounds).Pairwise (· ≤ ·)) :
    (collect rounds).exported c k =
        ((whitelisted k rounds).map fun stretch => spread (successful c k stretch)).sum ∧
      (collect rounds).exported c k ≤ spread (successful c k rounds) ∧
      ∀ before round after, rounds = before ++ round :: after → round.allowed.path k = none →
        (collect rounds).exported c k =
            (collect before).exported c k + (collect after).exported c k ∧
          (collect after).exported c k ≤ spread (successful c k after) := by
  have hmeter : ∀ rounds : List (Round targetPath), (collect rounds).exported c k =
      (metered (fun round => round.shows c k) rounds Meter.start).sum := by
    intro rounds
    rw [← meter_collect]
    rfl
  have hle : ∀ rounds : List (Round targetPath), (successful c k rounds).Pairwise (· ≤ ·) →
      (collect rounds).exported c k ≤ spread (successful c k rounds) := by
    intro rounds hrounds
    rw [← values_shows] at hrounds ⊢
    rw [hmeter]
    exact sum_metered_le hrounds
  refine ⟨?_, hle rounds h, ?_⟩
  · rw [← values_shows] at h
    rw [hmeter, sum_metered h, stretches_shows]
    simp only [values_shows]
  · rintro before round after rfl hnone
    have hshows : round.shows c k = none := by rw [Round.shows, hnone]; rfl
    have hafter : (successful c k after).Pairwise (· ≤ ·) := by
      rw [successful, List.filterMap_append, List.filterMap_cons, hnone] at h
      exact (List.pairwise_append.mp h).2.1
    refine ⟨?_, hle after hafter⟩
    rw [hmeter, hmeter, hmeter]
    exact sum_metered_append hshows

end

/-- A tick at which every file reads the same. -/
def sampleRound (sight : Sight) (content : Content) : Round ["gocker"] where
  sight := sight
  targetCgid := 2
  memoryTarget _ := 2
  psiTarget _ := 2
  file _ := content
  memoryPaths := refreshAllowed sight ["gocker"] 2
  psiPaths := refreshAllowed sight ["gocker"] 2
  memoryPaths_perm := .refl _
  psiPaths_perm := .refl _

/-- A file cannot be read, and later the whitelist shrinks for one tick. -/
def sampleRounds : List (Round ["gocker"]) :=
  let stat (text : String) : Round ["gocker"] :=
    sampleRound Hierarchy.flat.sight (.ok (ofString text))
  [stat "pgfault 9\npgmajfault 4\n",
    sampleRound Hierarchy.flat.sight (.error .notExist),
    stat "pgfault 15\npgmajfault 5\n",
    sampleRound Collecting.unreadable (.error .notExist),
    stat "anon 7\npgfault 40\npgmajfault 10\n",
    stat "pgfault 50\npgmajfault 12\n"]

/-- Six ticks, in one of which the cgroup was not listed. -/
theorem exported_telescopes_six :
    (collect sampleRounds).exported ⟨.memoryLast, .second⟩ 3 = 13 ∧
      successful ⟨.memoryLast, .second⟩ 3 sampleRounds = [5, 10, 30, 38] ∧
      (collect sampleRounds).exported ⟨.memoryLast, .second⟩ 3 =
        ((whitelisted 3 sampleRounds).map fun stretch =>
          spread (successful ⟨.memoryLast, .second⟩ 3 stretch)).sum :=
  have hread : successful ⟨.memoryLast, .second⟩ 3 sampleRounds = [5, 10, 30, 38] := by
    decide +kernel
  ⟨by decide +kernel, hread, (exported_telescopes (by rw [hread]; decide)).1⟩

end Gocker.Obsv
