import Gocker.Config
import Gocker.Network.Netlink
import Mathlib.Data.List.Count
import Mathlib.Data.List.Nodup
import Mathlib.Logic.Relation

/-!
# The bridge (`internal/network/bridge.go`)

`SetupBridge` makes the bridge with its address, brings it up and adds the `iptables` rules.
Where a bridge is found, it only looks whether that has an address.  A rule that cannot be
added is a warning.

`established_iff` says for every run without an error, from any state of the network, when
the network is established afterwards, and that further runs then change nothing.

### What is not checked

* A bridge that is found may be down, and stays so; only its address is looked at.
* A rule that `iptables` refuses is a warning, and the function goes on without an error.

So a return without an error says less than that the network is established, and
`established_iff` gives the difference.
-/

namespace Gocker.Network

open Fallible

/-- The rules of `setupIPTablesRules`. -/
def bridgeRules : List IPTablesRule :=
  [ -- MASQUERADE
    { table := "nat", chain := "POSTROUTING", action := "MASQUERADE",
      args := ["-s", Config.networkCIDR, "!", "-o", Config.bridgeName] },
    -- FORWARD
    { table := "", chain := "FORWARD", action := "ACCEPT", args := ["-i", Config.bridgeName] },
    { table := "", chain := "FORWARD", action := "ACCEPT", args := ["-o", Config.bridgeName] } ]

theorem nodup_bridgeRules : (bridgeRules.map IPTablesRule.kept).Nodup := by decide

namespace Netlink

variable {σ α : Type} (N : Netlink σ α)

/-! ## The source -/

/-- `fmt.Printf` -/
def printf (text : String) : EStateM String σ Unit := fun s => .ok () (N.print text s)

/-- `createBridge` -/
def createBridge : EStateM String σ Unit := do
  N.printf ("建立Bridge '" ++ Config.bridgeName ++ "'\n")
  N.linkAdd (.bridge Config.bridgeName)

/-- `setBridgeIP` -/
def setBridgeIP : EStateM String σ Unit := do
  let bridge ← N.linkByName Config.bridgeName
  let addr ← lift (N.parseAddr Config.bridgeIP)
  N.addrAdd bridge addr

/-- `enableBridge` -/
def enableBridge : EStateM String σ Unit := do
  let bridge ← N.linkByName Config.bridgeName
  N.linkSetUp bridge

/-- `ensureBridgeIP`: an address is added only where there is none. -/
def ensureBridgeIP (bridge : Link) : EStateM String σ Unit := do
  let addrs ← N.addrList bridge
  if addrs.isEmpty then
    let addr ← lift (N.parseAddr Config.bridgeIP)
    N.addrAdd bridge addr

/-- `exists`: the check ends without an error. -/
def ruleExists (r : IPTablesRule) : EStateM String σ Bool := do
  match ← attempt (N.run (r.command "-C")) with
  | .ok _ => return true
  | .error _ => return false

/-- `Apply` -/
def applyRule (r : IPTablesRule) : EStateM String σ Unit := do
  if ← N.ruleExists r then return ()
  else
    let args := r.command "-A"
    wrap ("執行 " ++ " ".intercalate args ++ " 失敗") (N.run args)
    N.printf ("已新增 iptables 規則: " ++ " ".intercalate args.tail ++ "\n")

/-- The body of the loop of `setupIPTablesRules`. -/
def setupRule (r : IPTablesRule) : EStateM String σ Unit := do
  match ← attempt (N.applyRule r) with
  | .ok _ => return ()
  | .error err => N.printf ("警告: 設定 iptables 規則失敗: " ++ err ++ "\n")

/-- The loop over the rules. -/
def setupRules : List IPTablesRule → EStateM String σ Unit
  | [] => return ()
  | r :: rules => do
      N.setupRule r
      setupRules rules

/-- `setupIPTablesRules` -/
def setupIPTablesRules : EStateM String σ Unit := N.setupRules bridgeRules

/-- `SetupBridge`: a bridge that is found keeps its state and its rules. -/
def setupBridge : EStateM String σ Unit := do
  match ← attempt (N.linkByName Config.bridgeName) with
  | .ok bridge => N.ensureBridgeIP bridge
  | .error _ =>
      wrap "建立Bridge失敗" N.createBridge
      wrap "設定Bridge IP 失敗" N.setBridgeIP
      wrap "啟動Bridge失敗" N.enableBridge
      wrap "設定 iptables 規則失敗" N.setupIPTablesRules

/-! ## The rules -/

/-- Whether a rule is added: its check fails and adding it works. -/
def adds (r : IPTablesRule) (s : σ) : Bool :=
  match N.run (r.command "-C") s with
  | .ok _ _ => false
  | .error _ t =>
      match N.run (r.command "-A") t with
      | .ok _ _ => true
      | .error _ _ => false

/-- A rule is added at most, and nothing else is changed. -/
theorem setupRule_spec (r : IPTablesRule) (s : σ) :
    ∃ t, N.setupRule r s = .ok () t ∧
      N.view t = { N.view s with
        rules := (N.view s).rules ++ if N.adds r s then [r.kept] else [] } := by
  unfold setupRule applyRule ruleExists adds
  cases hcheck : N.run (r.command "-C") s with
  | ok _ t =>
      refine ⟨t, by simp [bind_apply, attempt, hcheck, pure, EStateM.pure], ?_⟩
      simp [(N.check_ok hcheck).1]
  | error e t =>
      have same := N.check_error hcheck
      cases happend : N.run (r.command "-A") t with
      | ok _ u =>
          refine ⟨_, by simp [bind_apply, attempt, hcheck, pure, EStateM.pure, happend,
            wrap_apply, printf]; rfl, ?_⟩
          simp [N.view_print, N.append_ok happend, same, happend]
      | error e' u =>
          refine ⟨_, by simp [bind_apply, attempt, hcheck, pure, EStateM.pure, happend,
            wrap_apply, printf]; rfl, ?_⟩
          simp [N.view_print, N.append_error happend, same, happend]

/-- The rules that are added one after the other. -/
def added : List IPTablesRule → σ → List IPTablesRule
  | [], _ => []
  | r :: rules, s =>
      (if N.adds r s then [r.kept] else []) ++ added rules (final (N.setupRule r s))

theorem setupRules_spec (rules : List IPTablesRule) (s : σ) :
    ∃ t, N.setupRules rules s = .ok () t ∧
      N.view t = { N.view s with rules := (N.view s).rules ++ N.added rules s } := by
  induction rules generalizing s with
  | nil => exact ⟨s, rfl, by simp [added]⟩
  | cons r rules ih =>
      obtain ⟨t, ht, hview⟩ := N.setupRule_spec r s
      obtain ⟨u, hu, hview'⟩ := ih t
      refine ⟨u, by rw [setupRules, bind_apply, ht]; exact hu, ?_⟩
      simp [hview', hview, added, ht, final]

/-- What is added are rules of the list, in its order. -/
theorem added_sublist (rules : List IPTablesRule) (s : σ) :
    List.Sublist (N.added rules s) (rules.map IPTablesRule.kept) := by
  induction rules generalizing s with
  | nil => exact .slnil
  | cons r rules ih =>
      unfold added
      split_ifs
      · exact (ih _).cons_cons _
      · exact (ih _).cons _

theorem count_added {r : IPTablesRule} (s : σ) :
    (N.added bridgeRules s).count r.kept = if r.kept ∈ N.added bridgeRules s then 1 else 0 := by
  have nodup := (N.added_sublist bridgeRules s).nodup nodup_bridgeRules
  split_ifs with h
  · exact List.count_eq_one_of_mem nodup h
  · exact List.count_eq_zero.mpr h

/-! ## The bridge -/

/-- The bridge is there, is up and has its address. -/
def Serves (v : View α) : Prop :=
  ∃ attrs, v.links Config.bridgeName = some attrs ∧ attrs.up = true ∧
    ∃ addr, N.parseAddr Config.bridgeIP = .ok addr ∧ addr ∈ v.addrs Config.bridgeName

/-- The steps that make a bridge, from `s` to `t`. -/
def Raised (s t : σ) : Prop :=
  ∃ s₁ s₂, N.createBridge s = .ok () s₁ ∧ N.setBridgeIP s₁ = .ok () s₂ ∧
    N.enableBridge s₂ = .ok () t

/-- A bridge that is made was not there before, has no address and is down. -/
theorem createBridge_ok {s t : σ} (h : N.createBridge s = .ok () t) :
    (N.view s).links Config.bridgeName = none ∧
      N.view t = (N.view s).setLink Config.bridgeName (some ⟨false, none⟩) := by
  unfold createBridge printf at h
  obtain ⟨_, u, hprint, hadd⟩ := bind_eq_ok.mp h
  cases hprint
  have made := N.linkAdd_bridge hadd
  rwa [N.view_print] at made

/-- A bridge that has been made serves, and was not there before. -/
theorem Raised.serves {N : Netlink σ α} {s t : σ} (h : N.Raised s t) :
    (N.view s).links Config.bridgeName = none ∧ N.Serves (N.view t) ∧
      (N.view t).rules = (N.view s).rules := by
  obtain ⟨s₁, s₂, hcreate, hip, hup⟩ := h
  obtain ⟨free, hcreate⟩ := N.createBridge_ok hcreate
  simp only [setBridgeIP, bind_eq_ok, lift_eq_ok] at hip
  obtain ⟨bridge, u, hfind, addr, _, ⟨hparse, rfl⟩, hadd⟩ := hip
  obtain ⟨hfind, bridge_name, -⟩ := N.linkByName_ok hfind
  have hadd := N.addrAdd_ok hadd
  simp only [enableBridge, bind_eq_ok] at hup
  obtain ⟨bridge', u', hfind', hup⟩ := hup
  obtain ⟨hfind', bridge_name', -⟩ := N.linkByName_ok hfind'
  have hup := N.linkSetUp_ok hup
  rw [hfind, hcreate, bridge_name] at hadd
  rw [hfind', hadd, bridge_name'] at hup
  refine ⟨free, ⟨⟨true, none⟩, ?_, rfl, addr, hparse, ?_⟩, ?_⟩
  · rw [hup]
    simp
  · rw [hup]
    simp
  · rw [hup]
    simp

/-- A run that finds a bridge adds the address if there is none, and nothing else. -/
theorem ensureBridgeIP_ok {bridge : Link} {s t : σ} (h : N.ensureBridgeIP bridge s = .ok () t) :
    (N.view s).addrs bridge.name ≠ [] ∧ N.view t = N.view s ∨
      (N.view s).addrs bridge.name = [] ∧ ∃ addr, N.parseAddr Config.bridgeIP = .ok addr ∧
        N.view t = { N.view s with
          addrs := Function.update (N.view s).addrs bridge.name [addr] } := by
  obtain ⟨addrs, u, hlist, rest⟩ := bind_eq_ok.mp h
  obtain ⟨same, rfl⟩ := N.addrList_ok hlist
  split_ifs at rest with hempty
  · have hempty := List.isEmpty_iff.mp hempty
    simp only [bind_eq_ok, lift_eq_ok] at rest
    obtain ⟨addr, _, ⟨hparse, rfl⟩, hadd⟩ := rest
    have hadd := N.addrAdd_ok hadd
    rw [same, hempty] at hadd
    exact .inr ⟨hempty, addr, hparse, hadd⟩
  · cases rest
    exact .inl ⟨fun hnil => hempty (List.isEmpty_iff.mpr hnil), same⟩

/-- The two ways to an end without an error. -/
theorem setupBridge_ok {s t : σ} (h : N.setupBridge s = .ok () t) :
    (∃ bridge s₁, N.linkByName Config.bridgeName s = .ok bridge s₁ ∧
      N.ensureBridgeIP bridge s₁ = .ok () t) ∨
    ∃ e s₁ u, N.linkByName Config.bridgeName s = .error e s₁ ∧ N.Raised s₁ u ∧
      N.setupIPTablesRules u = .ok () t := by
  unfold setupBridge at h
  rw [bind_apply, attempt] at h
  cases hfind : N.linkByName Config.bridgeName s with
  | ok bridge s₁ =>
      rw [hfind] at h
      exact .inl ⟨bridge, s₁, rfl, h⟩
  | error e s₁ =>
      rw [hfind] at h
      simp only [bind_eq_ok, wrap_eq_ok] at h
      obtain ⟨_, s₂, hcreate, _, s₃, hip, _, u, hup, hrules⟩ := h
      exact .inr ⟨e, s₁, u, rfl, ⟨s₂, s₃, hcreate, hip, hup⟩, hrules⟩

/-! ## The network -/

/-- The network is established: the bridge serves and every rule is there, once where it was
there at most once in `s`. -/
def Established (s t : σ) : Prop :=
  N.Serves (N.view t) ∧ ∀ r ∈ bridgeRules, r.kept ∈ (N.view t).rules ∧
    ((N.view s).rules.count r.kept ≤ 1 → (N.view t).rules.count r.kept = 1)

/-- What a run has to find.  A bridge that is found is up, has the address or no address, and
the rules are there.  Where none is found, each rule is added and was not there once already,
or is not added and was there. -/
def Settled (s : σ) : Prop :=
  match N.linkByName Config.bridgeName s with
  | .ok bridge _ =>
      bridge.attrs.up = true ∧
        ((N.view s).addrs Config.bridgeName = [] ∨
          ∃ addr, N.parseAddr Config.bridgeIP = .ok addr ∧
            addr ∈ (N.view s).addrs Config.bridgeName) ∧
        ∀ r ∈ bridgeRules, r.kept ∈ (N.view s).rules
  | .error _ s₁ =>
      ∀ u, N.Raised s₁ u → ∀ r ∈ bridgeRules,
        if r.kept ∈ N.added bridgeRules u then (N.view s).rules.count r.kept ≠ 1
        else r.kept ∈ (N.view s).rules

/-- A rule that is there is there once, if at most once. -/
theorem count_eq_one {r : IPTablesRule} {rules : List IPTablesRule} (h : r ∈ rules)
    (hle : rules.count r ≤ 1) : rules.count r = 1 :=
  Nat.le_antisymm hle (List.count_pos_iff.mpr h)

/-- Where a bridge is found. -/
theorem established_of_found {s s₁ t : σ} {bridge : Link}
    (hfind : N.linkByName Config.bridgeName s = .ok bridge s₁)
    (h : N.ensureBridgeIP bridge s₁ = .ok () t) : N.Established s t ↔ N.Settled s := by
  obtain ⟨same, bridge_name, bridge_there⟩ := N.linkByName_ok hfind
  have address := N.ensureBridgeIP_ok h
  rw [same, bridge_name] at address
  have links : (N.view t).links = (N.view s).links := by
    obtain ⟨-, ht⟩ | ⟨-, _, -, ht⟩ := address <;> rw [ht]
  have rules : (N.view t).rules = (N.view s).rules := by
    obtain ⟨-, ht⟩ | ⟨-, _, -, ht⟩ := address <;> rw [ht]
  have served : (∃ addr, N.parseAddr Config.bridgeIP = .ok addr ∧
      addr ∈ (N.view t).addrs Config.bridgeName) ↔
      (N.view s).addrs Config.bridgeName = [] ∨ ∃ addr,
        N.parseAddr Config.bridgeIP = .ok addr ∧ addr ∈ (N.view s).addrs Config.bridgeName := by
    obtain ⟨some_addr, ht⟩ | ⟨no_addr, addr, hparse, ht⟩ := address
    · simp [ht, some_addr]
    · simp [ht, no_addr, hparse]
  unfold Established Serves Settled
  rw [hfind, links, rules]
  simp only [bridge_there, Option.some.injEq, exists_eq_left', served, and_assoc]
  refine and_congr_right fun _ => and_congr_right fun _ => forall₂_congr fun r _ => ?_
  exact ⟨And.left, fun h => ⟨h, count_eq_one h⟩⟩

theorem Raised.unique {N : Netlink σ α} {s t t' : σ} (h : N.Raised s t) (h' : N.Raised s t') :
    t' = t := by
  obtain ⟨s₁, s₂, hcreate, hip, hup⟩ := h
  obtain ⟨s₁', s₂', hcreate', hip', hup'⟩ := h'
  cases hcreate.symm.trans hcreate'
  cases hip.symm.trans hip'
  cases hup.symm.trans hup'
  rfl

/-- Where no bridge is found and one is made. -/
theorem established_of_raised {s s₁ u t : σ} {e : String}
    (hfind : N.linkByName Config.bridgeName s = .error e s₁) (hraised : N.Raised s₁ u)
    (h : N.setupIPTablesRules u = .ok () t) : N.Established s t ↔ N.Settled s := by
  obtain ⟨-, ⟨attrs, there, up, addr, hparse, has⟩, rules⟩ := hraised.serves
  rw [N.linkByName_error hfind] at rules
  obtain ⟨_, ht, hview⟩ := N.setupRules_spec bridgeRules u
  cases h.symm.trans ht
  rw [rules] at hview
  have serves : N.Serves (N.view t) := by
    rw [hview]
    exact ⟨attrs, there, up, addr, hparse, has⟩
  have rule : ∀ r : IPTablesRule, (r.kept ∈ (N.view t).rules ∧
      ((N.view s).rules.count r.kept ≤ 1 → (N.view t).rules.count r.kept = 1)) ↔
      if r.kept ∈ N.added bridgeRules u then (N.view s).rules.count r.kept ≠ 1
      else r.kept ∈ (N.view s).rules := by
    intro r
    simp only [hview, List.mem_append, List.count_append, N.count_added]
    split_ifs with hadded
    · simp only [hadded, or_true, true_and]
      omega
    · simp only [hadded, or_false, Nat.add_zero]
      exact ⟨And.left, fun h => ⟨h, count_eq_one h⟩⟩
  unfold Established Settled
  rw [hfind]
  constructor
  · rintro ⟨-, hrules⟩ u' hraised' r hr
    rw [hraised.unique hraised']
    exact (rule r).mp (hrules r hr)
  · exact fun settled => ⟨serves, fun r hr => (rule r).mpr (settled u hraised r hr)⟩

/-! ## Running it again -/

/-- One more run without an error. -/
def Again (s t : σ) : Prop := N.setupBridge s = .ok () t

/-- Where the bridge serves, a run that does not fail changes nothing. -/
theorem again_of_serves {s t : σ} (hs : N.Serves (N.view s)) (h : N.Again s t) :
    N.view t = N.view s := by
  obtain ⟨attrs, there, -, addr, -, has⟩ := hs
  obtain ⟨bridge, s₁, hfind, hensure⟩ | ⟨e, s₁, u, hfind, hraised, -⟩ := N.setupBridge_ok h
  · obtain ⟨same, bridge_name, -⟩ := N.linkByName_ok hfind
    have address := N.ensureBridgeIP_ok hensure
    rw [same, bridge_name] at address
    obtain ⟨-, ht⟩ | ⟨no_addr, -⟩ := address
    · exact ht
    · rw [no_addr] at has
      cases has
  · have free := hraised.serves.1
    rw [N.linkByName_error hfind, there] at free
    cases free

/-- However often it is run again, nothing changes. -/
theorem again_many {s t : σ} (hs : N.Serves (N.view s))
    (h : Relation.ReflTransGen N.Again s t) : N.view t = N.view s := by
  induction h with
  | refl => rfl
  | tail _ again ih =>
      rw [← ih] at hs
      exact (N.again_of_serves hs again).trans ih

/-- **What `SetupBridge` establishes.**  For a run without an error, from any state of the
network: it has established the network exactly if it found what it needs, and then any
further runs leave the network as it is. -/
theorem established_iff {s t : σ} (h : N.setupBridge s = .ok () t) :
    (N.Established s t ↔ N.Settled s) ∧
      (N.Established s t → ∀ u, Relation.ReflTransGen N.Again t u → N.view u = N.view t) := by
  refine ⟨?_, fun established u again => N.again_many established.1 again⟩
  obtain ⟨bridge, s₁, hfind, hensure⟩ | ⟨e, s₁, u, hfind, hraised, hrules⟩ := N.setupBridge_ok h
  · exact N.established_of_found hfind hensure
  · exact N.established_of_raised hfind hraised hrules

/-- A host without links and rules. -/
def bareHost : Kernel :=
  ⟨{ links := fun _ => none, addrs := fun _ => [], rules := [], namespaces := fun _ => [] }, []⟩

/-- On a bare host the bridge and the rules are made. -/
theorem established_bareHost :
    Kernel.netlink.Established bareHost (final (Kernel.netlink.setupBridge bareHost)) := by
  refine (established_iff Kernel.netlink rfl).1.mpr ?_
  show ∀ u, Kernel.netlink.Raised bareHost u → _
  intro u raised
  obtain rfl := Raised.unique ⟨_, _, rfl, rfl, rfl⟩ raised
  decide

/-- A bridge with its address that was never brought up, as a run leaves it that is killed
after `setBridgeIP`. -/
def halfHost : Kernel :=
  final ((do Kernel.netlink.createBridge; Kernel.netlink.setBridgeIP) bareHost)

/-- The next run returns without an error; the bridge is still down and no rule is there. -/
theorem half_made :
    Kernel.netlink.setupBridge halfHost = .ok () halfHost ∧
      ¬ Kernel.netlink.Established halfHost halfHost := by
  refine ⟨rfl, ?_⟩
  rintro ⟨⟨attrs, there, up, -⟩, -⟩
  have down : some ⟨false, none⟩ = some attrs := there
  cases down
  cases up

end Netlink

end Gocker.Network
