import Gocker.Lib.JsonCut
import Gocker.Lib.JsonFields
import Gocker.Obsv.Config

/-!
# Updating the configuration

The handler of `/admin/config` (`gocker-obsv/cmd/collector/main.go`) and the body that `ctl`
sends (`gocker-obsv/cmd/ctl/main.go`).  A field that is absent from the body is read as zero,
and repaired afterwards; for `enable_filter`, zero is a value.

## The body

A body is any sequence of bytes.  `decodeCfg` reads it as `encoding/json` does:

* the first value is read, and what follows is not looked at;
* a byte that belongs to no character is read as U+FFFD, which is possible in strings only;
* arrays and objects may be nested ten thousand levels deep;
* members with other names are skipped, whatever they hold, fractions and exponents included;
* names are compared without case, and where a member comes twice, the second one counts;
* the four fields are read from integers without a sign (not even that of minus zero) in the
  range of their types, or left alone by `null`.

## Requests

`adminConfig` is the handler, and `turns` the states that a sequence of requests goes through.
`Respects` is what a request should do: it changes only the fields that its body names
(`Present`), and nothing if it is rejected.  `respects_iff` says which requests of a sequence
do, and `respects_ctl_iff` which of those that `ctl` sends.
-/

namespace Gocker.Obsv

/-- The fields of `cfg` by their JSON names. -/
def cfgJson : List (Json.Field Cfg) :=
  [("sample_rate", fun c => Json.setNat (2 ^ 32) (fun n => { c with sampleRate := .ofNat n }) c),
    ("enable_filter",
      fun c => Json.setNat (2 ^ 32) (fun n => { c with enableFilter := .ofNat n }) c),
    ("target_level",
      fun c => Json.setNat (2 ^ 32) (fun n => { c with targetLevel := .ofNat n }) c),
    ("target_cgid", fun c => Json.setNat (2 ^ 64) (fun n => { c with targetCgid := .ofNat n }) c)]

/-- `maxNestingDepth` of `encoding/json` -/
def maxNestingDepth : ℕ := 10000

/-- The first value of the body; what follows is not read. -/
def bodyValue (body : Json.Bytes) : Option Json.Value :=
  let text := Json.readUtf8 body
  ((Json.parse text.length .value text).map Prod.fst).filter fun v => v.depth ≤ maxNestingDepth

/-- `json.NewDecoder(r.Body).Decode` into the zero configuration; `none` is an error. -/
def decodeCfg (body : Json.Bytes) : Option Cfg :=
  (bodyValue body).bind (Json.setObject cfgJson .zero)

/-- A member that nobody reads may hold a fraction, and the long s is a letter s. -/
example : decodeCfg (Json.utf8 "\x7b\"note\":1.5,\"\u017fample_rate\":11\x7d".toList) =
    some ⟨11, 0, 0, 0⟩ := by decide +kernel

/-- Minus zero is no number without a sign. -/
example : decodeCfg (Json.utf8 "\x7b\"sample_rate\":-0\x7d".toList) = none := by decide +kernel

/-- The body has a member for the field. -/
def Present (field : String) (body : Json.Bytes) : Prop :=
  ∃ ms, bodyValue body = some (.obj ms) ∧ ∃ m ∈ ms.toList, Json.sameName field m.1 = true

/-- What the handler makes of the fields it has read. -/
def repaired (cfg0 input : Cfg) : Cfg where
  sampleRate := if input.sampleRate = 0 then cfg0.sampleRate else input.sampleRate
  targetLevel := if input.targetLevel = 0 then cfg0.targetLevel else input.targetLevel
  targetCgid := if input.targetCgid = 0 then cfg0.targetCgid else input.targetCgid
  enableFilter :=
    if input.enableFilter ≠ 0 ∧ input.enableFilter ≠ 1 then 1 else input.enableFilter

/-- A request to `/admin/config`. -/
structure AdminRequest where
  method : String
  body : Json.Bytes

/-- The status codes of the handler. -/
inductive AdminResponse where
  /-- 405 -/
  | methodNotAllowed
  /-- 400 -/
  | badRequest
  /-- 200 -/
  | ok
deriving DecidableEq

/-- The configuration of the collector, and the maps of the modules. -/
structure Admin where
  cfg0 : Cfg
  maps : Module → Option CfgMap

/-- The handler of `/admin/config`. -/
def adminConfig (s : Admin) (r : AdminRequest) : AdminResponse × Admin :=
  if r.method ≠ "POST" then (.methodNotAllowed, s)
  else
    match decodeCfg r.body with
    | none => (.badRequest, s)
    | some input =>
        let cfg0 := repaired s.cfg0 input
        (.ok, { cfg0 := cfg0, maps := writeCfgAll cfg0 s.maps })

/-- The requests of a sequence, each with the state in which it is handled. -/
def turns (s : Admin) : List AdminRequest → List (Admin × AdminRequest)
  | [] => []
  | r :: rs => (s, r) :: turns (adminConfig s r).2 rs

/-- Only the fields that are present have changed. -/
structure Framed (body : Json.Bytes) (c c' : Cfg) : Prop where
  sampleRate : ¬ Present "sample_rate" body → c'.sampleRate = c.sampleRate
  enableFilter : ¬ Present "enable_filter" body → c'.enableFilter = c.enableFilter
  targetLevel : ¬ Present "target_level" body → c'.targetLevel = c.targetLevel
  targetCgid : ¬ Present "target_cgid" body → c'.targetCgid = c.targetCgid

/-- The request changes only what it names, and nothing if it is rejected. -/
structure Respects (s : Admin) (r : AdminRequest) : Prop where
  framed : Framed r.body s.cfg0 (adminConfig s r).2.cfg0
  rejected : (adminConfig s r).1 ≠ .ok → (adminConfig s r).2.cfg0 = s.cfg0

/-! ## One request -/

/-- A field that is absent is zero. -/
theorem absent_eq_zero {β : Type} {field : String} {observe : Cfg → β}
    (hother : ∀ f ∈ cfgJson, f.1 = field ∨
      ∀ r v r', f.2 r v = some r' → observe r' = observe r)
    {body : Json.Bytes} (habsent : ¬ Present field body) {input : Cfg}
    (h : decodeCfg body = some input) : observe input = observe .zero := by
  obtain ⟨v, hv, hset⟩ := Option.bind_eq_some_iff.mp h
  match v with
  | .obj ms =>
      refine Json.setFields_frame hother (fun m hm => ?_) hset
      rw [Bool.eq_false_iff]
      exact fun hsame => habsent ⟨ms, hv, m, hm, hsame⟩
  | .null => rw [← Option.some.inj hset]
  | .bool _ => cases hset
  | .num _ => cases hset
  | .dec _ => cases hset
  | .str _ => cases hset
  | .arr _ => cases hset

/-- The setters of the other fields leave a field alone. -/
theorem cfgJson_keeps {β : Type} {field : String} {observe : Cfg → β}
    (hrate : field = "sample_rate" ∨
      ∀ (c : Cfg) n, observe { c with sampleRate := n } = observe c)
    (henable : field = "enable_filter" ∨
      ∀ (c : Cfg) n, observe { c with enableFilter := n } = observe c)
    (hlevel : field = "target_level" ∨
      ∀ (c : Cfg) n, observe { c with targetLevel := n } = observe c)
    (hcgid : field = "target_cgid" ∨
      ∀ (c : Cfg) n, observe { c with targetCgid := n } = observe c) :
    ∀ f ∈ cfgJson, f.1 = field ∨ ∀ r v r', f.2 r v = some r' → observe r' = observe r := by
  have hkeeps : ∀ (name : String) (bound : ℕ) (set : Cfg → ℕ → Cfg),
      (field = name ∨ ∀ c n, observe (set c n) = observe c) →
      name = field ∨ ∀ r v r', Json.setNat bound (set r) r v = some r' → observe r' = observe r :=
    fun name bound set h => h.imp Eq.symm fun hset r v r' => Json.setNat_keeps (hset r)
  simp only [cfgJson, List.forall_mem_cons]
  exact ⟨hkeeps _ _ _ (hrate.imp_right fun h c n => h c _),
    hkeeps _ _ _ (henable.imp_right fun h c n => h c _),
    hkeeps _ _ _ (hlevel.imp_right fun h c n => h c _),
    hkeeps _ _ _ (hcgid.imp_right fun h c n => h c _), List.forall_mem_nil _⟩

section
variable {body : Json.Bytes} {input : Cfg}

/-- A field that is absent is read as zero: the rate, and in the same way the other three. -/
theorem sampleRate_of_absent (h : decodeCfg body = some input)
    (habsent : ¬ Present "sample_rate" body) : input.sampleRate = 0 :=
  absent_eq_zero (cfgJson_keeps (.inl rfl) (.inr fun _ _ => rfl) (.inr fun _ _ => rfl)
    (.inr fun _ _ => rfl)) habsent h

theorem enableFilter_of_absent (h : decodeCfg body = some input)
    (habsent : ¬ Present "enable_filter" body) : input.enableFilter = 0 :=
  absent_eq_zero (cfgJson_keeps (.inr fun _ _ => rfl) (.inl rfl) (.inr fun _ _ => rfl)
    (.inr fun _ _ => rfl)) habsent h

theorem targetLevel_of_absent (h : decodeCfg body = some input)
    (habsent : ¬ Present "target_level" body) : input.targetLevel = 0 :=
  absent_eq_zero (cfgJson_keeps (.inr fun _ _ => rfl) (.inr fun _ _ => rfl) (.inl rfl)
    (.inr fun _ _ => rfl)) habsent h

theorem targetCgid_of_absent (h : decodeCfg body = some input)
    (habsent : ¬ Present "target_cgid" body) : input.targetCgid = 0 :=
  absent_eq_zero (cfgJson_keeps (.inr fun _ _ => rfl) (.inr fun _ _ => rfl)
    (.inr fun _ _ => rfl) (.inl rfl)) habsent h

/-- Three fields are repaired, and an absent `enable_filter` switches the filter off. -/
theorem framed_repaired_iff (h : decodeCfg body = some input) (c : Cfg) :
    Framed body c (repaired c input) ↔ Present "enable_filter" body ∨ c.enableFilter = 0 := by
  constructor
  · intro hframed
    by_cases hpresent : Present "enable_filter" body
    · exact .inl hpresent
    · right
      have hkept := hframed.enableFilter hpresent
      simp [repaired, enableFilter_of_absent h hpresent] at hkept
      exact hkept.symm
  · intro hcond
    refine ⟨fun habsent => ?_, fun habsent => ?_, fun habsent => ?_, fun habsent => ?_⟩
    · rw [repaired, sampleRate_of_absent h habsent, if_pos rfl]
    · rw [hcond.resolve_left habsent]
      simp [repaired, enableFilter_of_absent h habsent]
    · rw [repaired, targetLevel_of_absent h habsent, if_pos rfl]
    · rw [repaired, targetCgid_of_absent h habsent, if_pos rfl]

end

/-- A request that is rejected, by its method or its body. -/
def AdminRequest.Rejected (r : AdminRequest) : Prop := r.method ≠ "POST" ∨ decodeCfg r.body = none

theorem adminConfig_rejected {s : Admin} {r : AdminRequest} (h : r.Rejected) :
    (adminConfig s r).1 ≠ .ok ∧ (adminConfig s r).2 = s := by
  rw [adminConfig]
  split_ifs with hmethod
  · exact ⟨by simp, rfl⟩
  · rw [h.resolve_left hmethod]
    exact ⟨by simp, rfl⟩

/-- A request that is accepted sets what its body says, repaired. -/
theorem adminConfig_ok {s : Admin} {r : AdminRequest} (h : ¬ r.Rejected) :
    ∃ input, decodeCfg r.body = some input ∧ (adminConfig s r).1 = .ok ∧
      (adminConfig s r).2.cfg0 = repaired s.cfg0 input := by
  obtain ⟨hmethod, hbody⟩ := not_or.mp h
  obtain ⟨input, hinput⟩ := Option.ne_none_iff_exists'.mp hbody
  refine ⟨input, hinput, ?_⟩
  rw [adminConfig, if_neg hmethod, hinput]
  exact ⟨rfl, rfl⟩

/-- A configuration that stays as it is has changed in no field. -/
theorem framed_refl (body : Json.Bytes) (c : Cfg) : Framed body c c :=
  ⟨fun _ => rfl, fun _ => rfl, fun _ => rfl, fun _ => rfl⟩

/-- When a request does what it should: it is rejected, names the filter, or comes while the
filter is off. -/
theorem respects_turn_iff (s : Admin) (r : AdminRequest) :
    Respects s r ↔ r.Rejected ∨ Present "enable_filter" r.body ∨ s.cfg0.enableFilter = 0 := by
  by_cases hrejected : r.Rejected
  · obtain ⟨-, hsame⟩ := adminConfig_rejected (s := s) hrejected
    refine ⟨fun _ => .inl hrejected, fun _ => ⟨?_, fun _ => ?_⟩⟩
    · rw [hsame]
      exact framed_refl r.body s.cfg0
    · rw [hsame]
  · obtain ⟨input, hinput, hok, hcfg⟩ := adminConfig_ok (s := s) hrejected
    have hframed := framed_repaired_iff hinput s.cfg0
    constructor
    · intro h
      exact .inr (hframed.mp (hcfg ▸ h.framed))
    · intro hcond
      refine ⟨?_, fun hne => absurd hok hne⟩
      rw [hcfg]
      exact hframed.mpr (hcond.resolve_left hrejected)

/-! ## All requests -/

/-- **The requests of a sequence change only what they name** if and only if each is rejected,
names `enable_filter`, or comes when the filter is off. -/
theorem respects_iff (s : Admin) (rs : List AdminRequest) :
    (∀ turn ∈ turns s rs, Respects turn.1 turn.2) ↔
      ∀ turn ∈ turns s rs, turn.2.Rejected ∨ Present "enable_filter" turn.2.body ∨
        turn.1.cfg0.enableFilter = 0 :=
  forall₂_congr fun turn _ => respects_turn_iff turn.1 turn.2

/-- The body of a request with these members. -/
def bodyOf (ms : List (String × Json.Value)) : Json.Bytes :=
  Json.encode .compact (.obj (Json.ofList ms))

/-- Members whose values are neither arrays nor objects are read as they were written. -/
theorem bodyValue_bodyOf {ms : List (String × Json.Value)} (hflat : ∀ m ∈ ms, m.2.depth = 0) :
    bodyValue (bodyOf ms) = some (.obj (Json.ofList ms)) := by
  have hheight := Json.height_le_length .compact (.obj (Json.ofList ms)) 0
  have hread := Json.parse_render .compact (.obj (Json.ofList ms))
    (Json.render .compact 0 (.obj (Json.ofList ms))).length 0 []
    (Nat.le_trans (Nat.le_add_right ..) hheight) Json.stops_nil
  rw [List.append_nil] at hread
  simp only [bodyValue, bodyOf, Json.encode, Json.readUtf8_utf8, hread, Option.map_some]
  rw [Option.filter_some, if_pos]
  rw [Json.Node.depth, Json.depth_ofList hflat]
  decide

/-- The fields that a written body names are those of its members. -/
theorem present_bodyOf_iff {field : String} {ms : List (String × Json.Value)}
    (hflat : ∀ m ∈ ms, m.2.depth = 0) :
    Present field (bodyOf ms) ↔ ∃ m ∈ ms, Json.sameName field m.1 = true := by
  rw [Present, bodyValue_bodyOf hflat]
  constructor
  · rintro ⟨ms', hms', hfound⟩
    obtain rfl := Json.Node.obj.inj (Option.some.inj hms')
    rwa [Json.toList_ofList] at hfound
  · intro hfound
    exact ⟨Json.ofList ms, rfl, by rwa [Json.toList_ofList]⟩

/-- The hot update of the README switches the filter off. -/
theorem filter_switched_off :
    let s : Admin := { cfg0 := ⟨1, 1, 1, 42⟩, maps := newMaps fun _ => true }
    let r : AdminRequest := { method := "POST", body := bodyOf [("sample_rate", .num 10)] }
    (adminConfig s r).1 = .ok ∧ (adminConfig s r).2.cfg0 = ⟨10, 0, 1, 42⟩ ∧
      ¬ Present "enable_filter" r.body ∧ ¬ ∀ turn ∈ turns s [r], Respects turn.1 turn.2 := by
  intro s r
  have hread : decodeCfg r.body = some ⟨10, 0, 0, 0⟩ := by
    rw [decodeCfg, bodyValue_bodyOf (by decide)]
    decide +kernel
  have hhandled : adminConfig s r =
      (.ok, { cfg0 := ⟨10, 0, 1, 42⟩, maps := writeCfgAll ⟨10, 0, 1, 42⟩ s.maps }) := by
    rw [adminConfig, if_neg (by decide), hread]
    rfl
  have habsent : ¬ Present "enable_filter" r.body := by
    rw [present_bodyOf_iff (by decide)]
    decide
  refine ⟨by rw [hhandled], by rw [hhandled], habsent, fun hall => ?_⟩
  have hkept := (hall (s, r) List.mem_cons_self).framed.enableFilter habsent
  rw [hhandled] at hkept
  exact absurd hkept (by decide)

/-! ## The requests of `ctl` -/

/-- The flags of `ctl`. -/
structure CtlFlags where
  sample : UInt64
  filter : Bool
  level : UInt64
  cgid : UInt64

/-- `req` in `ctl` -/
def CtlFlags.req (f : CtlFlags) : Cfg where
  sampleRate := f.sample.toUInt32
  enableFilter := if f.filter then 1 else 0
  targetLevel := f.level.toUInt32
  targetCgid := f.cgid

/-- A member with `omitempty`. -/
def omitEmpty (name : String) (n : ℕ) : List (String × Json.Value) :=
  if n = 0 then [] else [(name, .num n)]

/-- `json.Marshal` of the configuration in `ctl`. -/
def ctlMembers (c : Cfg) : List (String × Json.Value) :=
  omitEmpty "sample_rate" c.sampleRate.toNat ++ omitEmpty "enable_filter" c.enableFilter.toNat ++
    omitEmpty "target_level" c.targetLevel.toNat ++ omitEmpty "target_cgid" c.targetCgid.toNat

/-- A member that `omitempty` leaves in is a number. -/
theorem omitEmpty_flat (name : String) (n : ℕ) : ∀ m ∈ omitEmpty name n, m.2.depth = 0 := by
  rw [omitEmpty]
  split_ifs
  · exact List.forall_mem_nil _
  · exact List.forall_mem_singleton.mpr rfl

theorem ctlMembers_flat (c : Cfg) : ∀ m ∈ ctlMembers c, m.2.depth = 0 := by
  have hflat := omitEmpty_flat
  intro m hm
  simp only [ctlMembers, List.mem_append] at hm
  rcases hm with ((hm | hm) | hm) | hm <;> exact hflat _ _ m hm

/-- The request that `ctl` sends. -/
def ctlRequest (f : CtlFlags) : AdminRequest where
  method := "POST"
  body := bodyOf (ctlMembers f.req)

/-- No two fields of the configuration have the same name up to case. -/
theorem cfgJson_distinct : Json.Distinct cfgJson := by
  unfold Json.Distinct cfgJson
  decide

/-- A member that is left out as zero is as good as one that says zero. -/
theorem setFields_omitEmpty {c c' : Cfg} {name : String} {n : ℕ}
    (hset : Json.setField cfgJson c (name, .num n) = some c') (hzero : n = 0 → c' = c)
    (ms : List (String × Json.Value)) :
    Json.setFields cfgJson c (omitEmpty name n ++ ms) = Json.setFields cfgJson c' ms := by
  rw [omitEmpty]
  split_ifs with hn
  · rw [hzero hn, List.nil_append]
  · rw [List.singleton_append, Json.setFields, List.foldlM_cons, hset]
    rfl

/-- A number in the range of its field is read as it is. -/
theorem setNat_toNat {α : Type} {bound n : ℕ} (hn : n < bound) (set : ℕ → α) (old : α) :
    Json.setNat bound set old (.num n) = some (set n) := by
  rw [Json.setNat, if_pos ⟨Int.natCast_nonneg n, by exact_mod_cast hn⟩]
  rfl

/-- A member with the name of the `i`-th field sets this field. -/
theorem setField_cfg (i : ℕ) (hi : i < cfgJson.length) {c c' : Cfg} {n : ℕ}
    (hset : cfgJson[i].2 c (.num n) = some c') :
    Json.setField cfgJson c (cfgJson[i].1, .num n) = some c' :=
  (Json.setField_getElem cfgJson_distinct i hi c (.num n)).trans hset

/-- The collector reads what `ctl` has been told. -/
theorem decodeCfg_ctl (c : Cfg) : decodeCfg (bodyOf (ctlMembers c)) = some c := by
  obtain ⟨rate, en, lvl, cgid⟩ := c
  rw [decodeCfg, bodyValue_bodyOf (ctlMembers_flat _), Option.bind_some, Json.setObject_ofList,
    ctlMembers, List.append_assoc, List.append_assoc]
  have hrate : Json.setField cfgJson .zero ("sample_rate", .num rate.toNat) =
      some ⟨rate, 0, 0, 0⟩ :=
    setField_cfg 0 (by decide) (by simp [cfgJson, setNat_toNat rate.toNat_lt, Cfg.zero])
  have hen : Json.setField cfgJson ⟨rate, 0, 0, 0⟩ ("enable_filter", .num en.toNat) =
      some ⟨rate, en, 0, 0⟩ :=
    setField_cfg 1 (by decide) (by simp [cfgJson, setNat_toNat en.toNat_lt])
  have hlvl : Json.setField cfgJson ⟨rate, en, 0, 0⟩ ("target_level", .num lvl.toNat) =
      some ⟨rate, en, lvl, 0⟩ :=
    setField_cfg 2 (by decide) (by simp [cfgJson, setNat_toNat lvl.toNat_lt])
  have hcgid : Json.setField cfgJson ⟨rate, en, lvl, 0⟩ ("target_cgid", .num cgid.toNat) =
      some ⟨rate, en, lvl, cgid⟩ :=
    setField_cfg 3 (by decide) (by simp [cfgJson, setNat_toNat cgid.toNat_lt])
  have hzero : ∀ {x : UInt32}, x.toNat = 0 → x = 0 := fun h => UInt32.toNat_inj.mp h
  rw [setFields_omitEmpty hrate fun h => by rw [hzero h]; rfl,
    setFields_omitEmpty hen fun h => by rw [hzero h],
    setFields_omitEmpty hlvl fun h => by rw [hzero h], ← List.append_nil (omitEmpty _ _),
    setFields_omitEmpty hcgid fun h => by rw [UInt64.toNat_inj.mp (h.trans UInt64.toNat_zero.symm)]]
  rfl

/-- A member is there exactly if its number is not zero. -/
theorem exists_omitEmpty {field name : String} {n : ℕ} :
    (∃ m ∈ omitEmpty name n, Json.sameName field m.1 = true) ↔
      n ≠ 0 ∧ Json.sameName field name = true := by
  rw [omitEmpty]
  split_ifs with hn
  · simp [hn]
  · simp [hn]

/-- `ctl` names the filter exactly if it turns it on. -/
theorem present_ctl_iff (c : Cfg) :
    Present "enable_filter" (bodyOf (ctlMembers c)) ↔ c.enableFilter ≠ 0 := by
  rw [present_bodyOf_iff (ctlMembers_flat c)]
  simp only [ctlMembers, List.mem_append, or_and_right, exists_or]
  rw [exists_omitEmpty, exists_omitEmpty, exists_omitEmpty, exists_omitEmpty]
  have hrate : Json.sameName "enable_filter" "sample_rate" = false := by decide
  have hlevel : Json.sameName "enable_filter" "target_level" = false := by decide
  have hcgid : Json.sameName "enable_filter" "target_cgid" = false := by decide
  have hself : Json.sameName "enable_filter" "enable_filter" = true := by decide
  rw [hrate, hlevel, hcgid, hself]
  simp [← UInt32.toNat_inj]

/-- A request of `ctl` changes only what it names, unless it switches the filter off by
leaving it out. -/
theorem respects_ctl_iff (s : Admin) (f : CtlFlags) :
    Respects s (ctlRequest f) ↔ f.filter = true ∨ s.cfg0.enableFilter = 0 := by
  have haccepted : ¬ (ctlRequest f).Rejected := by
    rintro (hmethod | hbody)
    · exact hmethod rfl
    · rw [ctlRequest, decodeCfg_ctl] at hbody
      cases hbody
  have hpresent : Present "enable_filter" (ctlRequest f).body ↔ f.filter = true := by
    rw [ctlRequest, present_ctl_iff, CtlFlags.req]
    cases f.filter <;> simp
  rw [respects_turn_iff, or_iff_right haccepted, hpresent]

end Gocker.Obsv
