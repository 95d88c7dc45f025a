import Gocker.Lib.Fallible
import Gocker.Types
import Mathlib.Logic.Function.Basic
import Mathlib.Tactic.SplitIfs

/-!
# The host's network, as `netlink` and `iptables` show it

The code reaches the kernel through the package `netlink` and the command `iptables`, which
are not part of the repository.  `Netlink σ α` is what the code relies on: the operations as
programs over the state `σ` of the world, a view of that state, and for each operation what
its success means for the view.  Whether an operation succeeds is open, except that a link is
not found or added where the view excludes it.  An operation that fails changes nothing in
the view.

Links are identified by their names, which are unique in a namespace and never change here;
`α` is the type of parsed addresses.

`Kernel` is a concrete world: it serves what the view allows, and refuses the operations it
is told to refuse.
-/

namespace Gocker.Network

open Fallible

/-- `IPTablesRule` -/
structure IPTablesRule where
  table : String
  chain : String
  action : String
  args : List String
  deriving DecidableEq, Repr

namespace IPTablesRule

/-- The command line with a rule and one of the flags `-A` and `-C`. -/
def command (r : IPTablesRule) (flag : String) : List String :=
  ["iptables"] ++ (if r.table ≠ "" then ["-t", r.table] else []) ++ [flag, r.chain] ++ r.args ++
    ["-j", r.action]

/-- The rule as the kernel keeps it: without `-t` it is one of the table `filter`. -/
def kept (r : IPTablesRule) : IPTablesRule :=
  { r with table := if r.table ≠ "" then r.table else "filter" }

end IPTablesRule

/-- What the code changes about a link: whether it is up, and the name of the bridge it is
attached to. -/
structure Attrs where
  up : Bool
  master : Option String
  deriving DecidableEq, Repr

/-- A link as `LinkByName` returns it. -/
structure Link where
  name : String
  attrs : Attrs
  deriving DecidableEq, Repr

/-- The argument of `LinkAdd`. -/
inductive NewLink where
  | veth (name : String) (mtu : ℕ) (peerName : String)
  | bridge (name : String)
  deriving DecidableEq, Repr

/-- The part of the world the operations are about. -/
structure View (α : Type) where
  /-- the links of the host's namespace -/
  links : String → Option Attrs
  /-- their IPv4 addresses -/
  addrs : String → List α
  rules : List IPTablesRule
  /-- the links in the namespace of a process -/
  namespaces : PID → List String

namespace View

variable {α : Type}

/-- The names of the host's links. -/
def names (v : View α) : Set String := {n | v.links n ≠ none}

@[simp] theorem mem_names {v : View α} {n : String} : n ∈ v.names ↔ v.links n ≠ none := Iff.rfl

/-- A link is changed, made or taken away. -/
def setLink (v : View α) (name : String) (l : Option Attrs) : View α :=
  { v with links := Function.update v.links name l }

@[simp] theorem setLink_addrs (v : View α) (name : String) (l : Option Attrs) :
    (v.setLink name l).addrs = v.addrs := rfl

@[simp] theorem setLink_rules (v : View α) (name : String) (l : Option Attrs) :
    (v.setLink name l).rules = v.rules := rfl

@[simp] theorem setLink_links (v : View α) (name : String) (l : Option Attrs) :
    (v.setLink name l).links = Function.update v.links name l := rfl

end View

/-- The operations the code uses and what it relies on. -/
structure Netlink (σ α : Type) where
  view : σ → View α
  parseAddr : String → Except String α
  linkByName : String → EStateM String σ Link
  linkAdd : NewLink → EStateM String σ Unit
  linkSetMaster : Link → Link → EStateM String σ Unit
  linkSetUp : Link → EStateM String σ Unit
  linkSetNsPid : Link → PID → EStateM String σ Unit
  addrList : Link → EStateM String σ (List α)
  addrAdd : Link → α → EStateM String σ Unit
  /-- `exec.Command(args[0], args[1:]...).Run()` -/
  run : List String → EStateM String σ Unit
  /-- `fmt.Printf` -/
  print : String → σ → σ
  linkByName_error : ∀ {n s e t}, linkByName n s = .error e t → view t = view s
  linkByName_ok : ∀ {n s l t}, linkByName n s = .ok l t →
    view t = view s ∧ l.name = n ∧ (view s).links n = some l.attrs
  linkAdd_error : ∀ {k s e t}, linkAdd k s = .error e t → view t = view s
  linkAdd_veth : ∀ {n mtu p s t}, linkAdd (.veth n mtu p) s = .ok () t →
    (view s).links n = none ∧ (view s).links p = none ∧
      view t = ((view s).setLink n (some ⟨false, none⟩)).setLink p (some ⟨false, none⟩)
  linkAdd_bridge : ∀ {n s t}, linkAdd (.bridge n) s = .ok () t →
    (view s).links n = none ∧ view t = (view s).setLink n (some ⟨false, none⟩)
  linkSetMaster_error : ∀ {l b s e t}, linkSetMaster l b s = .error e t → view t = view s
  linkSetMaster_ok : ∀ {l b s t}, linkSetMaster l b s = .ok () t →
    view t = (view s).setLink l.name
      (((view s).links l.name).map fun k => { k with master := some b.name })
  linkSetUp_error : ∀ {l s e t}, linkSetUp l s = .error e t → view t = view s
  linkSetUp_ok : ∀ {l s t}, linkSetUp l s = .ok () t →
    view t = (view s).setLink l.name (((view s).links l.name).map fun k => { k with up := true })
  linkSetNsPid_error : ∀ {l pid s e t}, linkSetNsPid l pid s = .error e t → view t = view s
  linkSetNsPid_ok : ∀ {l pid s t}, linkSetNsPid l pid s = .ok () t →
    l.name ∈ (view t).namespaces pid ∧ ∀ n ≠ l.name, (view t).links n = (view s).links n
  addrList_error : ∀ {l s e t}, addrList l s = .error e t → view t = view s
  addrList_ok : ∀ {l s as t}, addrList l s = .ok as t →
    view t = view s ∧ as = (view s).addrs l.name
  addrAdd_error : ∀ {l a s e t}, addrAdd l a s = .error e t → view t = view s
  addrAdd_ok : ∀ {l a s t}, addrAdd l a s = .ok () t →
    view t = { view s with
      addrs := Function.update (view s).addrs l.name ((view s).addrs l.name ++ [a]) }
  check_error : ∀ {r s e t}, run (IPTablesRule.command r "-C") s = .error e t → view t = view s
  check_ok : ∀ {r s t}, run (IPTablesRule.command r "-C") s = .ok () t →
    view t = view s ∧ r.kept ∈ (view s).rules
  append_error : ∀ {r s e t}, run (IPTablesRule.command r "-A") s = .error e t → view t = view s
  append_ok : ∀ {r s t}, run (IPTablesRule.command r "-A") s = .ok () t →
    view t = { view s with rules := (view s).rules ++ [r.kept] }
  view_print : ∀ text s, view (print text s) = view s

/-! ## A world that serves requests -/

/-- A world: the view itself, and for each of the next operations the error with which it is
refused, if any. -/
structure Kernel where
  net : View String
  refused : List (Option String)

namespace Kernel

/-- An operation, unless it is refused. -/
def serve {α : Type} (f : View String → Except String (α × View String)) :
    EStateM String Kernel α := fun k =>
  match k.refused with
  | some e :: rest => .error e ⟨k.net, rest⟩
  | refused =>
      match f k.net with
      | .ok (a, v) => .ok a ⟨v, refused.tail⟩
      | .error e => .error e ⟨k.net, refused.tail⟩

theorem serve_error {α : Type} {f : View String → Except String (α × View String)}
    {k t : Kernel} {e : String} (h : serve f k = .error e t) : t.net = k.net := by
  unfold serve at h
  split at h
  · cases h
    rfl
  · split at h
    · cases h
    · cases h
      rfl

theorem serve_ok {α : Type} {f : View String → Except String (α × View String)}
    {k t : Kernel} {a : α} (h : serve f k = .ok a t) : ∃ v, f k.net = .ok (a, v) ∧ t.net = v := by
  unfold serve at h
  split at h
  · cases h
  · split at h
    · next hf =>
        cases h
        exact ⟨_, hf, rfl⟩
    · cases h

/-- An operation that the view always allows. -/
theorem serve_always {α : Type} {f : View String → α × View String} {k t : Kernel} {a : α}
    (h : serve (fun v => .ok (f v)) k = .ok a t) : a = (f k.net).1 ∧ t.net = (f k.net).2 := by
  obtain ⟨v, hv, hnet⟩ := serve_ok h
  obtain ⟨ha, hv⟩ := Prod.mk.inj (Except.ok.inj hv)
  exact ⟨ha.symm, hnet.trans hv.symm⟩

/-- A link by its name. -/
def findLink (n : String) (v : View String) : Except String (Link × View String) :=
  match v.links n with
  | some attrs => .ok (⟨n, attrs⟩, v)
  | none => .error "Link not found"

/-- A link more, or a pair of them. -/
def addLink (new : NewLink) (v : View String) : Except String (Unit × View String) :=
  match new with
  | .veth n _ p =>
      if v.links n = none ∧ v.links p = none then
        .ok ((), (v.setLink n (some ⟨false, none⟩)).setLink p (some ⟨false, none⟩))
      else .error "file exists"
  | .bridge n =>
      if v.links n = none then .ok ((), v.setLink n (some ⟨false, none⟩))
      else .error "file exists"

/-- Move a link to the namespace of a process. -/
def moveLink (name : String) (pid : PID) (v : View String) : View String :=
  { v.setLink name none with
    namespaces := Function.update v.namespaces pid (name :: v.namespaces pid) }

/-- The rule at the end of a command line. -/
def ruleOf (table chain : String) (spec : List String) : Option IPTablesRule :=
  match spec.reverse with
  | action :: "-j" :: args => some ⟨table, chain, action, args.reverse⟩
  | _ => none

/-- `iptables -C` looks for a rule, `-A` appends one. -/
def iptables (flag : String) (r : Option IPTablesRule) (v : View String) :
    Except String (Unit × View String) :=
  match flag, r with
  | "-C", some r => if r ∈ v.rules then .ok ((), v) else .error "exit status 1"
  | "-A", some r => .ok ((), { v with rules := v.rules ++ [r] })
  | _, _ => .error "exit status 2"

/-- A command, of which only `iptables` is known. -/
def runCommand (args : List String) (v : View String) : Except String (Unit × View String) :=
  match args with
  | "iptables" :: "-t" :: table :: flag :: chain :: spec =>
      iptables flag (ruleOf table chain spec) v
  | "iptables" :: flag :: chain :: spec => iptables flag (ruleOf "filter" chain spec) v
  | _ => .error "executable file not found in $PATH"

theorem ruleOf_spec (table chain action : String) (args : List String) :
    ruleOf table chain (args ++ ["-j", action]) = some ⟨table, chain, action, args⟩ := by
  simp [ruleOf]

/-- The command of a rule is served by `iptables`. -/
theorem runCommand_command (r : IPTablesRule) {flag : String} (h : flag ≠ "-t")
    (v : View String) : runCommand (r.command flag) v = iptables flag (some r.kept) v := by
  by_cases ht : r.table = ""
  · have line : r.command flag =
        "iptables" :: flag :: r.chain :: (r.args ++ ["-j", r.action]) := by
      simp [IPTablesRule.command, ht]
    rw [line, runCommand.eq_def]
    split
    · next heq => simp_all
    · next heq =>
        simp only [List.cons.injEq, true_and] at heq
        obtain ⟨rfl, rfl, rfl⟩ := heq
        rw [ruleOf_spec]
        simp [IPTablesRule.kept, ht]
    · next h1 h2 => exact absurd rfl (h2 _ _ _)
  · have line : r.command flag =
        "iptables" :: "-t" :: r.table :: flag :: r.chain :: (r.args ++ ["-j", r.action]) := by
      simp [IPTablesRule.command, ht]
    rw [line]
    show iptables flag (ruleOf r.table r.chain _) v = _
    rw [ruleOf_spec]
    simp [IPTablesRule.kept, ht]

/-- The operations of such a world. -/
def netlink : Netlink Kernel String where
  view := net
  parseAddr := .ok
  linkByName n := serve (findLink n)
  linkAdd new := serve (addLink new)
  linkSetMaster l b := serve fun v =>
    .ok ((), v.setLink l.name ((v.links l.name).map fun k => { k with master := some b.name }))
  linkSetUp l := serve fun v =>
    .ok ((), v.setLink l.name ((v.links l.name).map fun k => { k with up := true }))
  linkSetNsPid l pid := serve fun v => .ok ((), moveLink l.name pid v)
  addrList l := serve fun v => .ok (v.addrs l.name, v)
  addrAdd l a := serve fun v =>
    .ok ((), { v with addrs := Function.update v.addrs l.name (v.addrs l.name ++ [a]) })
  run args := serve (runCommand args)
  print _ k := k
  linkByName_error := serve_error
  linkByName_ok h := by
    obtain ⟨v, hv, hnet⟩ := serve_ok h
    unfold findLink at hv
    split at hv
    · next found =>
        cases hv
        exact ⟨hnet, rfl, found⟩
    · cases hv
  linkAdd_error := serve_error
  linkAdd_veth h := by
    obtain ⟨v, hv, hnet⟩ := serve_ok h
    simp only [addLink] at hv
    split_ifs at hv with free
    cases hv
    exact ⟨free.1, free.2, hnet⟩
  linkAdd_bridge h := by
    obtain ⟨v, hv, hnet⟩ := serve_ok h
    simp only [addLink] at hv
    split_ifs at hv with free
    cases hv
    exact ⟨free, hnet⟩
  linkSetMaster_error := serve_error
  linkSetMaster_ok h := (serve_always h).2
  linkSetUp_error := serve_error
  linkSetUp_ok h := (serve_always h).2
  linkSetNsPid_error := serve_error
  linkSetNsPid_ok h := by
    rw [show net _ = _ from (serve_always h).2]
    exact ⟨by simp [moveLink], fun n hn => by simp [moveLink, hn]⟩
  addrList_error := serve_error
  addrList_ok h := (serve_always h).symm
  addrAdd_error := serve_error
  addrAdd_ok h := (serve_always h).2
  check_error := serve_error
  check_ok h := by
    obtain ⟨v, hv, hnet⟩ := serve_ok h
    rw [runCommand_command _ (by decide)] at hv
    simp only [iptables] at hv
    split_ifs at hv with found
    cases hv
    exact ⟨hnet, found⟩
  append_error := serve_error
  append_ok h := by
    obtain ⟨v, hv, hnet⟩ := serve_ok h
    rw [runCommand_command _ (by decide)] at hv
    cases hv
    exact hnet
  view_print _ _ := rfl

end Kernel

end Gocker.Network
