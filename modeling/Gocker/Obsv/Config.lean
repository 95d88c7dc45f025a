import Gocker.Lib.Layout

/-!
# The configuration of the BPF modules

`struct cfg` in the five modules (`gocker-obsv/bpf/*.bpf.c`) and in the collector
(`gocker-obsv/cmd/collector/main.go`): `writeCfgAll` writes it, `load_cfg` reads it.  The
two sides have the same fields, and meet in the bytes of the element of `cfg_map`.

`delivered_iff` says which configurations a module reads as they were written.

### Sizes

The structure has fields of 4, 4, 4 and 8 bytes: 20 if they follow one another, 24 in memory,
where the last one stands at a multiple of 8.  The library serialises a structure with gaps field
by field, which gives 20 bytes for the map's 24, and the update is refused.
-/

namespace Gocker.Obsv

open Layout (Bytes)

/-- `struct cfg` -/
structure Cfg where
  sampleRate : UInt32
  enableFilter : UInt32
  targetLevel : UInt32
  targetCgid : UInt64
deriving DecidableEq, Repr

/-- The sizes of the fields, the same in C and in Go. -/
def cfgFields : List ℕ := [4, 4, 4, 8]

/-- The members of a configuration, in their order. -/
def Cfg.values (c : Cfg) : List ℕ :=
  [c.sampleRate.toNat, c.enableFilter.toNat, c.targetLevel.toNat, c.targetCgid.toNat]

/-- What an element of an array map is before it is written. -/
def Cfg.zero : Cfg := ⟨0, 0, 0, 0⟩

/-- A configuration from its members. -/
def Cfg.ofValues : List ℕ → Cfg
  | [rate, en, lvl, cgid] => ⟨.ofNat rate, .ofNat en, .ofNat lvl, .ofNat cgid⟩
  | _ => .zero

/-- The five modules. -/
inductive Module where
  | pf
  | sched
  | sys
  | cpu
  | mem
deriving DecidableEq, Repr

/-! ## The map -/

/-- `cfg_map`, an array of one element. -/
structure CfgMap where
  value : Bytes
deriving DecidableEq, Repr

namespace CfgMap

/-- The elements of an array exist from its creation, and are zero. -/
def new : CfgMap := ⟨List.replicate (Layout.size cfgFields) 0⟩

/-- `bpf_map_lookup_elem`: an index below `max_entries` is always found. -/
def lookupElem (m : CfgMap) (k : UInt32) : Option Bytes := if k < 1 then some m.value else none

/-- `Map.Update` of the element; without a result it is an error, and the element stays as it was.
This is the library that the collector uses, which is not part of the repository: a value whose
marshalled size differs from that of the map's values is refused.  What is said of the modules'
configurations rests on it. -/
def update (c : Cfg) : Option CfgMap :=
  let bytes := Layout.marshal cfgFields c.values
  if bytes.length = Layout.size cfgFields then some ⟨bytes⟩ else none

end CfgMap

/-- The configuration as the decisions use it. -/
def Cfg.effective (c : Cfg) : Cfg :=
  { c with sampleRate := if c.sampleRate ≠ 0 then c.sampleRate else 1 }

/-- `load_cfg`, the same in the five modules. -/
def loadCfg (rodata : Cfg) (m : CfgMap) : Cfg :=
  match m.lookupElem 0 with
  | some c => (Cfg.ofValues (Layout.read cfgFields c)).effective
  | none => rodata.effective

/-- `writeCfgAll` on the maps of the modules, of which some may not be loaded; its errors
are dropped. -/
def writeCfgAll (c : Cfg) (maps : Module → Option CfgMap) : Module → Option CfgMap :=
  fun m => (maps m).map fun old => (CfgMap.update c).getD old

/-- The maps when the modules have been loaded. -/
def newMaps (loaded : Module → Bool) : Module → Option CfgMap :=
  fun m => if loaded m then some .new else none

/-- The maps after these calls of `writeCfgAll`. -/
def writtenMaps (loaded : Module → Bool) (cs : List Cfg) : Module → Option CfgMap :=
  cs.foldl (fun maps c => writeCfgAll c maps) (newMaps loaded)

/-! ## What is delivered -/

/-- **No configuration is written**: `struct cfg` has padding. -/
theorem update_eq_none (c : Cfg) : CfgMap.update c = none := by
  have hlength : (Layout.marshal cfgFields c.values).length ≠ Layout.size cfgFields :=
    Layout.length_marshal_ne rfl (by decide)
  rw [CfgMap.update, if_neg hlength]

/-- No write is taken: `struct cfg` has padding, and the serialiser packs it. -/
theorem writeCfgAll_eq (c : Cfg) (maps : Module → Option CfgMap) : writeCfgAll c maps = maps := by
  funext m
  rw [writeCfgAll, update_eq_none]
  exact Option.map_id'

/-- So the maps stay as they were when the modules were loaded. -/
theorem writtenMaps_eq (loaded : Module → Bool) (cs : List Cfg) :
    writtenMaps loaded cs = newMaps loaded := by
  rw [writtenMaps]
  induction cs with
  | nil => rfl
  | cons c cs ih => rw [List.foldl_cons, writeCfgAll_eq, ih]

/-- The configuration that a module finds in its map: everything passes. -/
def unwritten : Cfg := { sampleRate := 1, enableFilter := 0, targetLevel := 0, targetCgid := 0 }

theorem read_new : Layout.read cfgFields CfgMap.new.value = Cfg.zero.values := by
  simp [Layout.read, Layout.offsets, Layout.offsetsFrom, cfgFields, CfgMap.new,
    Layout.readAt_replicate_zero, Cfg.values, Cfg.zero]

/-- The fallback is not taken: the element that was never written is found. -/
theorem loadCfg_new (rodata : Cfg) : loadCfg rodata .new = unwritten := by
  rw [loadCfg, CfgMap.lookupElem, if_pos (by decide)]
  simp only [read_new]
  rfl

/-- **What is written is what is read**, for every module and after any earlier writes, if
and only if no module is loaded or the written configuration says what the zeros say. -/
theorem delivered_iff (rodata : Module → Cfg) (loaded : Module → Bool) (earlier : List Cfg)
    (c : Cfg) :
    (∀ m map, writtenMaps loaded (earlier ++ [c]) m = some map →
        loadCfg (rodata m) map = c.effective) ↔
      (∀ m, loaded m = false) ∨
        (c.sampleRate = 0 ∨ c.sampleRate = 1) ∧ c.enableFilter = 0 ∧ c.targetLevel = 0 ∧
          c.targetCgid = 0 := by
  have hcond : unwritten = c.effective ↔ (c.sampleRate = 0 ∨ c.sampleRate = 1) ∧
      c.enableFilter = 0 ∧ c.targetLevel = 0 ∧ c.targetCgid = 0 := by
    obtain ⟨rate, en, lvl, cgid⟩ := c
    simp only [unwritten, Cfg.effective, Cfg.mk.injEq]
    by_cases hrate : rate = 0
    · simp [hrate, eq_comm]
    · simp [hrate, eq_comm]
  rw [writtenMaps_eq, ← hcond]
  constructor
  · intro h
    by_cases hany : ∃ m, loaded m = true
    · obtain ⟨m, hm⟩ := hany
      right
      rw [← loadCfg_new (rodata m)]
      exact h m .new (by rw [newMaps, if_pos hm])
    · left
      intro m
      exact Bool.eq_false_iff.mpr fun hm => hany ⟨m, hm⟩
  · intro h m map hmap
    rw [newMaps] at hmap
    split_ifs at hmap with hm
    obtain rfl := Option.some.inj hmap
    rw [loadCfg_new]
    exact h.resolve_left fun hnone => Bool.false_ne_true ((hnone m).symm.trans hm)

/-- The configuration at the start of the collector, for the cgroup `/gocker` with inode 42. -/
theorem filter_not_delivered :
    let c : Cfg := { sampleRate := 1, enableFilter := 1, targetLevel := 1, targetCgid := 42 }
    ∃ map, writtenMaps (fun _ => true) [c] .pf = some map ∧
      (loadCfg c map).enableFilter = 0 ∧ loadCfg c map ≠ c.effective := by
  intro c
  refine ⟨.new, ?_, ?_, ?_⟩
  · rw [writtenMaps_eq]
    rfl
  · rw [loadCfg_new]
    rfl
  · rw [loadCfg_new]
    decide

end Gocker.Obsv
