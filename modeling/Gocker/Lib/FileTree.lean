import Mathlib.Data.List.Basic
import Mathlib.Data.List.Induction
import Mathlib.Logic.Function.Basic
import Mathlib.Tactic.SplitIfs

/-!
# A file system with symbolic links

A `Tree` has a node at each *location*, the list of the names on the way from the root
through directories alone.  A path is the list of its parts between the slashes, and leads to
a location through links, `.` and `..` (`walk`).

* `Tree.create` and `Tree.write` are the two changes of a tree, and keep what makes it one.
* `mkdir`, `symlink` and `openFile` are the system calls, and `mkdirAll` is built on them.
  They are calls on a `Disk`, which notes the locations that have been created or written.
* `Grows` is what all calls do to a tree: directories and links stay.

### Walks

`walk` is the kernel's walk along a path, with a bound on the number of links, after which it
fails with `ELOOP`.  `Walks` is the relation behind it, with a constructor for each case, and
`walk_iff` says that they agree.  Proofs use the relation: a walk in a tree is one in every tree
that it grows into, and this is an induction on the derivation.

### Failures

A call may be refused at any location, which `can` says; so a statement about the calls is one
about every pattern of failures of the disk.
-/

namespace FileTree

/-- What is at a location. -/
inductive Node where
  | dir
  | file (data : List UInt8)
  | link (target : String)
deriving DecidableEq, Repr

/-- Whether it is a file. -/
def Node.isFile : Node → Bool
  | .file _ => true
  | _ => false

/-- A location: the names from the root on, through directories. -/
abbrev Loc := List String

/-- The parts of a path between its slashes. -/
def parts (path : String) : List String := (path.toList.splitOn '/').map String.ofList

/-- A part that is a name. -/
def IsName (part : String) : Prop := part ≠ "" ∧ part ≠ "." ∧ part ≠ ".."

instance (part : String) : Decidable (IsName part) :=
  inferInstanceAs (Decidable (_ ∧ _ ∧ _))

/-- The errors of the calls. -/
inductive Errno where
  | notExist
  | notDir
  | isDir
  | exist
  | loop
  /-- any other failure, of the disk or of a limit -/
  | other
deriving DecidableEq, Repr

/-- What is in a directory, and a directory at the root. -/
structure Tree where
  node : Loc → Option Node
  root : node [] = some .dir
  parent : ∀ loc name, node (loc ++ [name]) ≠ none → node loc = some .dir

namespace Tree

/-- The tree of the root alone. -/
def empty : Tree where
  node loc := if loc = [] then some .dir else none
  root := rfl
  parent loc name h := absurd (if_neg (by simp)) h

variable {t : Tree} {loc : Loc}

theorem parent_dropLast (t : Tree) (h : t.node loc ≠ none) : t.node loc.dropLast = some .dir := by
  induction loc using List.reverseRecOn with
  | nil => exact t.root
  | append_singleton loc name _ =>
      rw [List.dropLast_concat]
      exact t.parent loc name h

/-- Where there is nothing, there is nothing below. -/
theorem node_below (t : Tree) (h : t.node loc = none) (name : String) :
    t.node (loc ++ [name]) = none := by
  by_contra hsome
  rw [t.parent loc name hsome] at h
  cases h

/-- A new node in a directory. -/
def create (t : Tree) (loc : Loc) (n : Node) : Tree :=
  if h : t.node loc.dropLast = some .dir ∧ t.node loc = none then
    { node := Function.update t.node loc (some n)
      root := by
        have hne : ([] : Loc) ≠ loc := by
          rintro rfl
          rw [t.root] at h
          cases h.2
        rw [Function.update_of_ne hne, t.root]
      parent := by
        intro loc' name hnode
        have hne : loc' ≠ loc := by
          rintro rfl
          have hself : loc' ++ [name] ≠ loc' := by simp
          rw [Function.update_of_ne hself] at hnode
          rw [t.parent loc' name hnode] at h
          cases h.2
        rw [Function.update_of_ne hne]
        by_cases heq : loc' ++ [name] = loc
        · rw [← heq, List.dropLast_concat] at h
          exact h.1
        · rw [Function.update_of_ne heq] at hnode
          exact t.parent loc' name hnode }
  else t

/-- New data in a file. -/
def write (t : Tree) (loc : Loc) (data : List UInt8) : Tree :=
  if h : (t.node loc).any Node.isFile then
    { node := Function.update t.node loc (some (.file data))
      root := by
        have hne : ([] : Loc) ≠ loc := by
          rintro rfl
          rw [t.root] at h
          cases h
        rw [Function.update_of_ne hne, t.root]
      parent := by
        intro loc' name hnode
        have hbefore : t.node (loc' ++ [name]) ≠ none := by
          by_cases heq : loc' ++ [name] = loc
          · rw [heq]
            intro hnone
            rw [hnone] at h
            cases h
          · rwa [Function.update_of_ne heq] at hnode
        have hdir := t.parent loc' name hbefore
        have hne : loc' ≠ loc := by
          rintro rfl
          rw [hdir] at h
          cases h
        rw [Function.update_of_ne hne, hdir] }
  else t

/-- A node that is created is at its location, and the others are as before. -/
theorem node_create (hdir : t.node loc.dropLast = some .dir) (hnone : t.node loc = none)
    (n : Node) : (t.create loc n).node = Function.update t.node loc (some n) := by
  rw [create, dif_pos ⟨hdir, hnone⟩]

/-- Nothing that was there has changed. -/
theorem create_keeps (t : Tree) {loc loc' : Loc} (n : Node) {m : Node}
    (hm : t.node loc' = some m) : (t.create loc n).node loc' = some m := by
  by_cases h : t.node loc.dropLast = some .dir ∧ t.node loc = none
  · have hne : loc' ≠ loc := by
      rintro rfl
      rw [h.2] at hm
      cases hm
    rw [node_create h.1 h.2, Function.update_of_ne hne, hm]
  · rwa [create, dif_neg h]

theorem node_write {old : List UInt8} (h : t.node loc = some (.file old)) (data : List UInt8) :
    (t.write loc data).node = Function.update t.node loc (some (.file data)) := by
  rw [write, dif_pos (by rw [h]; rfl)]

end Tree

/-! ## Walking along a path -/

/-- Where a link leads. -/
def linkStart (target : String) (cur : Loc) : Loc :=
  if target.toList.head? = some '/' then [] else cur

/-- Walk from a directory, until a link has to be followed. -/
def walkWith (t : Tree) (follow : Bool) (onLink : Loc → List String → Except Errno Loc) :
    Loc → List String → Except Errno Loc
  | cur, [] => .ok cur
  | cur, part :: rest =>
      if part = "" ∨ part = "." then walkWith t follow onLink cur rest
      else if part = ".." then walkWith t follow onLink cur.dropLast rest
      else
        match t.node (cur ++ [part]) with
        | none => if rest = [] then .ok (cur ++ [part]) else .error .notExist
        | some .dir => walkWith t follow onLink (cur ++ [part]) rest
        | some (.file _) => if rest = [] then .ok (cur ++ [part]) else .error .notDir
        | some (.link target) =>
            if rest = [] ∧ follow = false then .ok (cur ++ [part])
            else onLink (linkStart target cur) (parts target ++ rest)

/-- The location that a path leads to, where there may be nothing.  A link in the last place
is followed only if this is asked for, and no more than `links` are followed in all. -/
def walk (t : Tree) (follow : Bool) : ℕ → Loc → List String → Except Errno Loc
  | 0 => walkWith t follow fun _ _ => .error .loop
  | links + 1 => walkWith t follow (walk t follow links)

/-- As many links are followed. -/
def maxLinks : ℕ := 40

/-- The location of a path from the root, links followed. -/
def resolve (t : Tree) (path : List String) : Except Errno Loc := walk t true maxLinks [] path

/-- The location of the last name itself, even if it is a link. -/
def place (t : Tree) (path : List String) : Except Errno Loc := walk t false maxLinks [] path

/-- The node at a location that a walk has come to. -/
def nodeAt (t : Tree) (loc : Loc) : Except Errno Node :=
  match t.node loc with
  | none => .error .notExist
  | some n => .ok n

/-- `stat`: the node that the path leads to, through a link at its end as well. -/
def stat (t : Tree) (path : List String) : Except Errno Node := resolve t path >>= nodeAt t

/-- `lstat`: a link at the end is what it leads to. -/
def lstat (t : Tree) (path : List String) : Except Errno Node := place t path >>= nodeAt t

/-- A walk that succeeds, step by step. -/
inductive Walks (t : Tree) (follow : Bool) : ℕ → Loc → List String → Loc → Prop where
  | done {links cur} : Walks t follow links cur [] cur
  | stay {links cur part rest loc} (hpart : part = "" ∨ part = ".")
      (hrest : Walks t follow links cur rest loc) : Walks t follow links cur (part :: rest) loc
  | up {links cur rest loc} (hrest : Walks t follow links cur.dropLast rest loc) :
      Walks t follow links cur (".." :: rest) loc
  | absent {links cur part} (hname : IsName part) (hnode : t.node (cur ++ [part]) = none) :
      Walks t follow links cur [part] (cur ++ [part])
  | file {links cur part data} (hname : IsName part)
      (hnode : t.node (cur ++ [part]) = some (.file data)) :
      Walks t follow links cur [part] (cur ++ [part])
  | lastLink {links cur part target} (hname : IsName part)
      (hnode : t.node (cur ++ [part]) = some (.link target)) (hfollow : follow = false) :
      Walks t follow links cur [part] (cur ++ [part])
  | dir {links cur part rest loc} (hname : IsName part)
      (hnode : t.node (cur ++ [part]) = some .dir)
      (hrest : Walks t follow links (cur ++ [part]) rest loc) :
      Walks t follow links cur (part :: rest) loc
  | link {links cur part rest loc target} (hname : IsName part)
      (hnode : t.node (cur ++ [part]) = some (.link target))
      (hgo : ¬ (rest = [] ∧ follow = false))
      (hrest : Walks t follow links (linkStart target cur) (parts target ++ rest) loc) :
      Walks t follow (links + 1) cur (part :: rest) loc

section
variable {t : Tree} {follow : Bool} {onLink : Loc → List String → Except Errno Loc} {links : ℕ}
  {cur loc : Loc} {part : String} {path rest : List String}

/-- An empty part, and `.`, stay where the walk is. -/
theorem walkWith_stay (h : part = "" ∨ part = ".") :
    walkWith t follow onLink cur (part :: rest) = walkWith t follow onLink cur rest := by
  rw [walkWith, if_pos h]

/-- `..` goes to the directory above; above the root is the root. -/
theorem walkWith_up :
    walkWith t follow onLink cur (".." :: rest) = walkWith t follow onLink cur.dropLast rest := by
  rw [walkWith, if_neg (by decide), if_pos rfl]

/-- A name is looked up, and a link at it is followed. -/
theorem walkWith_name (h : IsName part) :
    walkWith t follow onLink cur (part :: rest) =
      match t.node (cur ++ [part]) with
      | none => if rest = [] then .ok (cur ++ [part]) else .error .notExist
      | some .dir => walkWith t follow onLink (cur ++ [part]) rest
      | some (.file _) => if rest = [] then .ok (cur ++ [part]) else .error .notDir
      | some (.link target) =>
          if rest = [] ∧ follow = false then .ok (cur ++ [part])
          else onLink (linkStart target cur) (parts target ++ rest) := by
  obtain ⟨hempty, hdot, hup⟩ := h
  rw [walkWith, if_neg (not_or.mpr ⟨hempty, hdot⟩), if_neg hup]

theorem part_cases (part : String) : (part = "" ∨ part = ".") ∨ part = ".." ∨ IsName part := by
  unfold IsName
  tauto

/-- How a walk goes on behind a link. -/
def walkOn (t : Tree) (follow : Bool) : ℕ → Loc → List String → Except Errno Loc
  | 0 => fun _ _ => .error .loop
  | links + 1 => walk t follow links

/-- A walk is one step at a time, with a bound on the links that it still may follow. -/
theorem walk_eq_walkWith (t : Tree) (follow : Bool) (links : ℕ) :
    walk t follow links = walkWith t follow (walkOn t follow links) := by
  cases links with
  | zero => rfl
  | succ links => rfl

theorem Walks.walk_eq (h : Walks t follow links cur path loc) :
    walk t follow links cur path = .ok loc := by
  induction h with
  | done => rw [walk_eq_walkWith, walkWith]
  | stay hpart hrest ih =>
      rw [walk_eq_walkWith] at ih ⊢
      rw [walkWith_stay hpart, ih]
  | up hrest ih =>
      rw [walk_eq_walkWith] at ih ⊢
      rw [walkWith_up, ih]
  | absent hname hnode =>
      rw [walk_eq_walkWith, walkWith_name hname]
      simp [hnode]
  | file hname hnode =>
      rw [walk_eq_walkWith, walkWith_name hname]
      simp [hnode]
  | lastLink hname hnode hfollow =>
      rw [walk_eq_walkWith, walkWith_name hname]
      simp [hnode, hfollow]
  | dir hname hnode hrest ih =>
      rw [walk_eq_walkWith] at ih ⊢
      rw [walkWith_name hname]
      simp only [hnode, ih]
  | link hname hnode hgo hrest ih =>
      rw [walk_eq_walkWith, walkWith_name hname]
      simp only [hnode, if_neg hgo, walkOn, ih]

/-- The function walks where the relation says, if it does after a link. -/
theorem walks_of_walkWith
    (honLink : ∀ cur path, onLink cur path = .ok loc →
      ∃ k, links = k + 1 ∧ Walks t follow k cur path loc)
    (h : walkWith t follow onLink cur path = .ok loc) : Walks t follow links cur path loc := by
  induction path generalizing cur with
  | nil =>
      obtain rfl : cur = loc := Except.ok.inj h
      exact .done
  | cons part rest ih =>
      rcases part_cases part with hstay | rfl | hname
      · rw [walkWith_stay hstay] at h
        exact .stay hstay (ih h)
      · rw [walkWith_up] at h
        exact .up (ih h)
      · rw [walkWith_name hname] at h
        cases hnode : t.node (cur ++ [part]) with
        | none =>
            simp only [hnode] at h
            split_ifs at h with hrest
            obtain rfl : cur ++ [part] = loc := Except.ok.inj h
            subst hrest
            exact .absent hname hnode
        | some n =>
            cases n with
            | dir =>
                simp only [hnode] at h
                exact .dir hname hnode (ih h)
            | file data =>
                simp only [hnode] at h
                split_ifs at h with hrest
                obtain rfl : cur ++ [part] = loc := Except.ok.inj h
                subst hrest
                exact .file hname hnode
            | link target =>
                simp only [hnode] at h
                split_ifs at h with hlast
                · obtain ⟨rfl, hfollow⟩ := hlast
                  obtain rfl : cur ++ [part] = loc := Except.ok.inj h
                  exact .lastLink hname hnode hfollow
                · obtain ⟨k, rfl, hwalks⟩ := honLink _ _ h
                  exact .link hname hnode hlast hwalks

/-- **The function and the relation agree.** -/
theorem walk_iff : walk t follow links cur path = .ok loc ↔ Walks t follow links cur path loc := by
  refine ⟨fun h => ?_, Walks.walk_eq⟩
  induction links generalizing cur path with
  | zero => exact walks_of_walkWith (fun _ _ h => by cases h) h
  | succ links ih => exact walks_of_walkWith (fun _ _ h => ⟨links, rfl, ih h⟩) h

end

/-! ### How a tree grows -/

/-- Directories and links stay, and files remain files. -/
structure Grows (t t' : Tree) : Prop where
  dir : ∀ loc, t.node loc = some .dir → t'.node loc = some .dir
  link : ∀ loc target, t.node loc = some (.link target) → t'.node loc = some (.link target)
  file : ∀ loc data, t.node loc = some (.file data) → ∃ data', t'.node loc = some (.file data')

namespace Grows

variable {t t' t'' : Tree}

theorem refl (t : Tree) : Grows t t := ⟨fun _ h => h, fun _ _ h => h, fun _ data h => ⟨data, h⟩⟩

theorem trans (h : Grows t t') (h' : Grows t' t'') : Grows t t'' where
  dir loc hloc := h'.dir loc (h.dir loc hloc)
  link loc target hloc := h'.link loc target (h.link loc target hloc)
  file loc data hloc := by
    obtain ⟨data', hdata'⟩ := h.file loc data hloc
    exact h'.file loc data' hdata'

theorem of_keeps (h : ∀ loc n, t.node loc = some n → t'.node loc = some n) : Grows t t' :=
  ⟨fun loc => h loc .dir, fun loc target => h loc (.link target),
    fun loc data hdata => ⟨data, h loc _ hdata⟩⟩

theorem create (t : Tree) (loc : Loc) (n : Node) : Grows t (t.create loc n) :=
  of_keeps fun _ _ => t.create_keeps n

theorem write {loc : Loc} {old : List UInt8} (h : t.node loc = some (.file old))
    (data : List UInt8) : Grows t (t.write loc data) := by
  have hother : ∀ loc', loc' ≠ loc → (t.write loc data).node loc' = t.node loc' := by
    intro loc' hne
    rw [Tree.node_write h, Function.update_of_ne hne]
  refine ⟨fun loc' hloc' => ?_, fun loc' target hloc' => ?_, fun loc' data' hloc' => ?_⟩
  · rwa [hother loc' (by rintro rfl; rw [h] at hloc'; cases hloc')]
  · rwa [hother loc' (by rintro rfl; rw [h] at hloc'; cases hloc')]
  · by_cases heq : loc' = loc
    · rw [heq, Tree.node_write h, Function.update_self]
      exact ⟨data, rfl⟩
    · exact ⟨data', by rwa [hother loc' heq]⟩

/-- A walk leads to the same place, if no link is put there that it would follow. -/
theorem walks {follow : Bool} {links : ℕ} {cur loc : Loc} {path : List String}
    (hgrows : Grows t t') (hend : follow = true → ∀ target, t'.node loc ≠ some (.link target))
    (h : Walks t follow links cur path loc) : Walks t' follow links cur path loc := by
  induction h with
  | done => exact .done
  | stay hpart _ ih => exact .stay hpart (ih hend)
  | up _ ih => exact .up (ih hend)
  | @absent links cur part hname hnode =>
      cases hnode' : t'.node (cur ++ [part]) with
      | none => exact .absent hname hnode'
      | some n =>
          cases n with
          | dir => exact .dir hname hnode' .done
          | file data => exact .file hname hnode'
          | link target =>
              refine .lastLink hname hnode' ?_
              by_contra htrue
              exact hend (by simpa using htrue) target hnode'
  | file hname hnode =>
      obtain ⟨data', hdata'⟩ := hgrows.file _ _ hnode
      exact .file hname hdata'
  | lastLink hname hnode hfollow => exact .lastLink hname (hgrows.link _ _ hnode) hfollow
  | dir hname hnode _ ih => exact .dir hname (hgrows.dir _ hnode) (ih hend)
  | link hname hnode hgo _ ih => exact .link hname (hgrows.link _ _ hnode) hgo (ih hend)

/-- A path leads to where it led, as a tree grows. -/
theorem place (hgrows : Grows t t') {path : List String} {loc : Loc} (h : place t path = .ok loc) :
    FileTree.place t' path = .ok loc :=
  walk_iff.mpr (hgrows.walks (fun hfollow => by cases hfollow) (walk_iff.mp h))

/-- Through a link at its end it does too, if what it ends at is no link. -/
theorem resolve (hgrows : Grows t t') {path : List String} {loc : Loc}
    (hend : ∀ target, t'.node loc ≠ some (.link target)) (h : resolve t path = .ok loc) :
    FileTree.resolve t' path = .ok loc :=
  walk_iff.mpr (hgrows.walks (fun _ => hend) (walk_iff.mp h))

end Grows

/-! ### Where a walk ends -/

namespace Walks

variable {t : Tree} {follow : Bool} {links : ℕ} {cur loc : Loc} {path : List String}
  {name : String}

theorem cur_dir_linkStart {target : String} (hcur : t.node cur = some .dir) :
    t.node (linkStart target cur) = some .dir := by
  rw [linkStart]
  split_ifs
  · exact t.root
  · exact hcur

/-- A walk ends in a directory, or at a place there. -/
theorem parent (h : Walks t follow links cur path loc) (hcur : t.node cur = some .dir) :
    t.node loc.dropLast = some .dir := by
  have hpresent : ∀ {loc : Loc} {n : Node}, t.node loc = some n → t.node loc.dropLast = some .dir :=
    fun hn => t.parent_dropLast (by rw [hn]; simp)
  induction h with
  | done => exact hpresent hcur
  | stay _ _ ih => exact ih hcur
  | up _ ih => exact ih (hpresent hcur)
  | absent _ _ => rwa [List.dropLast_concat]
  | file _ hnode => exact hpresent hnode
  | lastLink _ hnode _ => exact hpresent hnode
  | dir _ hnode _ ih => exact ih hnode
  | link _ _ _ _ ih => exact ih (cur_dir_linkStart hcur)

/-- It does not end at a link that would have been followed. -/
theorem not_link (h : Walks t true links cur path loc) (hcur : t.node cur = some .dir)
    (target : String) : t.node loc ≠ some (.link target) := by
  have hdir : ∀ {loc : Loc}, t.node loc = some .dir → t.node loc ≠ some (.link target) := by
    intro loc hloc
    rw [hloc]
    simp
  induction h with
  | done => exact hdir hcur
  | stay _ _ ih => exact ih hcur
  | up _ ih => exact ih (t.parent_dropLast (by rw [hcur]; simp))
  | absent _ hnode =>
      rw [hnode]
      simp
  | file _ hnode =>
      rw [hnode]
      simp
  | lastLink _ _ hfollow => cases hfollow
  | dir _ hnode _ ih => exact ih hnode
  | link _ _ _ _ ih => exact ih (cur_dir_linkStart hcur)

/-- Where there is no link at the end, it makes no difference whether it would be followed. -/
theorem followed (h : Walks t false links cur path loc)
    (hend : ∀ target, t.node loc ≠ some (.link target)) : Walks t true links cur path loc := by
  induction h with
  | done => exact .done
  | stay hpart _ ih => exact .stay hpart (ih hend)
  | up _ ih => exact .up (ih hend)
  | absent hname hnode => exact .absent hname hnode
  | file hname hnode => exact .file hname hnode
  | lastLink _ hnode _ => exact absurd hnode (hend _)
  | dir hname hnode _ ih => exact .dir hname hnode (ih hend)
  | link hname hnode _ _ ih => exact .link hname hnode (by simp) (ih hend)

/-- The first part of a path with a name at its end. -/
theorem part_cons {part : String} {rest : List String} (h : path ++ [name] = part :: rest) :
    (path = [] ∧ part = name ∧ rest = []) ∨
      ∃ above, path = part :: above ∧ rest = above ++ [name] := by
  cases path with
  | nil =>
      obtain ⟨rfl, rfl⟩ := List.cons.inj h
      exact .inl ⟨rfl, rfl, rfl⟩
  | cons p above =>
      obtain ⟨rfl, rfl⟩ := List.cons.inj h
      exact .inr ⟨above, rfl, rfl⟩

/-- A walk to a name goes through a directory, which is where the path without the name
leads. -/
theorem of_concat (h : Walks t follow links cur (path ++ [name]) loc) (hname : IsName name)
    (hcur : t.node cur = some .dir) :
    ∃ above, Walks t true links cur path above ∧ t.node above = some .dir ∧
      (follow = false → loc = above ++ [name]) := by
  generalize hpath : path ++ [name] = whole at h
  induction h generalizing path with
  | done => exact absurd hpath (by simp)
  | stay hpart hrest ih =>
      rcases part_cons hpath with ⟨-, rfl, -⟩ | ⟨above, rfl, hrest⟩
      · exact absurd hpart (not_or.mpr ⟨hname.1, hname.2.1⟩)
      · obtain ⟨dir, hwalks, hdir, hloc⟩ := ih hcur hrest.symm
        exact ⟨dir, .stay hpart hwalks, hdir, hloc⟩
  | up hrest ih =>
      rcases part_cons hpath with ⟨-, hup, -⟩ | ⟨above, rfl, hrest⟩
      · exact absurd hup.symm hname.2.2
      · obtain ⟨dir, hwalks, hdir, hloc⟩ :=
          ih (t.parent_dropLast (by rw [hcur]; simp)) hrest.symm
        exact ⟨dir, .up hwalks, hdir, hloc⟩
  | @absent links cur part _ _ =>
      rcases part_cons hpath with ⟨rfl, rfl, -⟩ | ⟨above, -, hrest⟩
      · exact ⟨cur, .done, hcur, fun _ => rfl⟩
      · exact absurd hrest (by simp)
  | @file links cur part data _ _ =>
      rcases part_cons hpath with ⟨rfl, rfl, -⟩ | ⟨above, -, hrest⟩
      · exact ⟨cur, .done, hcur, fun _ => rfl⟩
      · exact absurd hrest (by simp)
  | @lastLink links cur part target _ _ _ =>
      rcases part_cons hpath with ⟨rfl, rfl, -⟩ | ⟨above, -, hrest⟩
      · exact ⟨cur, .done, hcur, fun _ => rfl⟩
      · exact absurd hrest (by simp)
  | @dir links cur part rest loc hpart hnode hrest ih =>
      rcases part_cons hpath with ⟨rfl, rfl, rfl⟩ | ⟨above, rfl, hrest⟩
      · cases hrest
        exact ⟨cur, .done, hcur, fun _ => rfl⟩
      · obtain ⟨dir, hwalks, hdir, hloc⟩ := ih hnode hrest.symm
        exact ⟨dir, .dir hpart hnode hwalks, hdir, hloc⟩
  | @link links cur part rest loc target hpart hnode hgo hrest ih =>
      rcases part_cons hpath with ⟨rfl, rfl, rfl⟩ | ⟨above, rfl, rfl⟩
      · -- a link in the last place that is followed
        exact ⟨cur, .done, hcur, fun hfollow => absurd ⟨rfl, hfollow⟩ hgo⟩
      · have hgone : (parts target ++ above) ++ [name] = parts target ++ (above ++ [name]) :=
          List.append_assoc ..
        obtain ⟨dir, hwalks, hdir, hloc⟩ := ih (cur_dir_linkStart hcur) hgone
        exact ⟨dir, .link hpart hnode (by simp) hwalks, hdir, hloc⟩

/-- A name below a directory that a path leads to. -/
theorem concat {above : Loc} (h : Walks t true links cur path above)
    (habove : t.node above = some .dir) (hname : IsName name) :
    Walks t false links cur (path ++ [name]) (above ++ [name]) := by
  induction h with
  | @done links cur =>
      cases hnode : t.node (cur ++ [name]) with
      | none => exact .absent hname hnode
      | some n =>
          cases n with
          | dir => exact .dir hname hnode .done
          | file data => exact .file hname hnode
          | link target => exact .lastLink hname hnode rfl
  | stay hpart _ ih => exact .stay hpart (ih habove)
  | up _ ih => exact .up (ih habove)
  | absent _ hnode =>
      rw [habove] at hnode
      cases hnode
  | file _ hnode =>
      rw [habove] at hnode
      cases hnode
  | lastLink _ _ hfollow => cases hfollow
  | dir hpart hnode _ ih => exact .dir hpart hnode (ih habove)
  | link hpart hnode _ _ ih =>
      have hrest := ih habove
      rw [List.append_assoc] at hrest
      exact .link hpart hnode (by simp) hrest

end Walks

section
variable {t : Tree} {path : List String} {name : String} {loc : Loc} {n : Node}

/-- Where there is no link at the end, following it makes no difference. -/
theorem resolve_of_place (h : place t path = .ok loc)
    (hend : ∀ target, t.node loc ≠ some (.link target)) : resolve t path = .ok loc :=
  walk_iff.mpr ((walk_iff.mp h).followed hend)

/-- A path that is resolved does not end at a link. -/
theorem resolve_not_link (h : resolve t path = .ok loc) (target : String) :
    t.node loc ≠ some (.link target) :=
  (walk_iff.mp h).not_link t.root target

theorem place_parent (h : place t path = .ok loc) : t.node loc.dropLast = some .dir :=
  (walk_iff.mp h).parent t.root

theorem resolve_parent (h : resolve t path = .ok loc) : t.node loc.dropLast = some .dir :=
  (walk_iff.mp h).parent t.root

/-- The place of a name is in the directory that the path before it leads to. -/
theorem place_concat_iff (hname : IsName name) :
    place t (path ++ [name]) = .ok loc ↔
      ∃ above, resolve t path = .ok above ∧ t.node above = some .dir ∧ loc = above ++ [name] := by
  constructor
  · intro h
    obtain ⟨above, hwalks, hdir, hloc⟩ := (walk_iff.mp h).of_concat hname t.root
    exact ⟨above, walk_iff.mpr hwalks, hdir, hloc rfl⟩
  · rintro ⟨above, hwalks, hdir, rfl⟩
    exact walk_iff.mpr ((walk_iff.mp hwalks).concat hdir hname)

/-- A node that is found is at the end of a walk. -/
theorem nodeAt_eq_ok {found : Except Errno Loc} :
    (found >>= nodeAt t) = .ok n ↔ ∃ loc, found = .ok loc ∧ t.node loc = some n := by
  cases found with
  | error err => exact ⟨fun h => (by cases h), fun ⟨loc, h, _⟩ => (by cases h)⟩
  | ok loc =>
      show nodeAt t loc = .ok n ↔ _
      cases hnode : t.node loc with
      | none => simp [nodeAt, hnode]
      | some m => simp [nodeAt, hnode]

theorem stat_eq_ok : stat t path = .ok n ↔ ∃ loc, resolve t path = .ok loc ∧ t.node loc = some n :=
  nodeAt_eq_ok

theorem lstat_eq_ok : lstat t path = .ok n ↔ ∃ loc, place t path = .ok loc ∧ t.node loc = some n :=
  nodeAt_eq_ok

theorem lstat_iff_of_place {m : Node} (hplace : place t path = .ok loc) (hm : t.node loc = some m) :
    lstat t path = .ok n ↔ m = n := by
  rw [lstat_eq_ok.mpr ⟨loc, hplace, hm⟩, Except.ok.injEq]

/-- What is no file stays as it is. -/
theorem Grows.lstat {t' : Tree} (hgrows : Grows t t') (h : FileTree.lstat t path = .ok n)
    (hn : n.isFile = false) : FileTree.lstat t' path = .ok n := by
  obtain ⟨loc, hplace, hnode⟩ := lstat_eq_ok.mp h
  refine lstat_eq_ok.mpr ⟨loc, hgrows.place hplace, ?_⟩
  cases n with
  | dir => exact hgrows.dir loc hnode
  | link target => exact hgrows.link loc target hnode
  | file data => cases hn

theorem lstat_eq_error (h : place t path = .ok loc) (hnone : t.node loc = none) :
    lstat t path = .error .notExist := by
  show (place t path >>= nodeAt t) = _
  rw [h]
  show nodeAt t loc = _
  rw [nodeAt, hnone]

/-- A path that leads somewhere has a place. -/
theorem place_of_resolve (hpath : ∀ part ∈ path, IsName part) (h : resolve t path = .ok loc) :
    ∃ loc', place t path = .ok loc' := by
  induction path using List.reverseRecOn with
  | nil => exact ⟨[], walk_iff.mpr .done⟩
  | append_singleton path name _ =>
      have hname := hpath name (List.mem_append_right _ (List.mem_singleton_self name))
      obtain ⟨above, hwalks, hdir, -⟩ := (walk_iff.mp h).of_concat hname t.root
      exact ⟨above ++ [name], (place_concat_iff hname).mpr ⟨above, walk_iff.mpr hwalks, hdir, rfl⟩⟩

/-- What is above a path that can be looked at is a directory. -/
theorem stat_above (hname : IsName name) (h : stat t (path ++ [name]) = .ok n) :
    stat t path = .ok .dir := by
  obtain ⟨loc, hloc, -⟩ := stat_eq_ok.mp h
  obtain ⟨above, hwalks, hdir, -⟩ := (walk_iff.mp hloc).of_concat hname t.root
  exact stat_eq_ok.mpr ⟨above, walk_iff.mpr hwalks, hdir⟩

/-- Where there is nothing at the place of a path, nothing can be looked at. -/
theorem stat_ne_ok_of_place (h : place t path = .ok loc) (hnone : t.node loc = none) :
    stat t path ≠ .ok n := by
  intro hstat
  obtain ⟨loc', hloc', hnode⟩ := stat_eq_ok.mp hstat
  have hsame : resolve t path = .ok loc := resolve_of_place h (by rw [hnone]; simp)
  obtain rfl := Except.ok.inj (hsame.symm.trans hloc')
  rw [hnone] at hnode
  cases hnode

end

/-! ## Calls -/

/-- A tree, and the locations that have been created or written. -/
structure Disk where
  tree : Tree
  touched : List Loc

namespace Disk

/-- A node is created, which is noted. -/
def create (d : Disk) (loc : Loc) (n : Node) : Disk :=
  { tree := d.tree.create loc n, touched := loc :: d.touched }

/-- Create a node at a place where there is none; `can` says where the disk lets it. -/
def createAt (d : Disk) (can : Loc → Bool) (path : List String) (n : Node) : Except Errno Disk :=
  match place d.tree path with
  | .error err => .error err
  | .ok loc =>
      if d.tree.node loc ≠ none then .error .exist
      else if can loc then .ok (d.create loc n)
      else .error .other

/-- `mkdir` -/
def mkdir (d : Disk) (can : Loc → Bool) (path : List String) : Except Errno Disk :=
  d.createAt can path .dir

/-- `symlink`; the kernel refuses an empty target. -/
def symlink (d : Disk) (can : Loc → Bool) (target : String) (path : List String) :
    Except Errno Disk :=
  if target = "" then .error .notExist else d.createAt can path (.link target)

/-- Open a file to write, and create it if there is none. -/
def openFile (d : Disk) (can : Loc → Bool) (path : List String) : Except Errno (Loc × Disk) :=
  match resolve d.tree path with
  | .error err => .error err
  | .ok loc =>
      if can loc then
        match d.tree.node loc with
        | none => .ok (loc, d.create loc (.file []))
        | some (.file _) => .ok (loc, d)
        | some .dir => .error .isDir
        | some (.link _) => .error .loop
      else .error .other

/-- Write at the beginning of a file that is open; what is behind stays. -/
def writeFile (d : Disk) (loc : Loc) (data : List UInt8) : Disk :=
  match d.tree.node loc with
  | some (.file old) =>
      if data = [] then d
      else
        { tree := d.tree.write loc (data ++ old.drop data.length)
          touched := loc :: d.touched }
  | _ => d

/-- Make a directory and its parents; the path is given from its end.  The second component
says whether there is no error. -/
def mkdirAll (d : Disk) (can : Loc → Bool) : List String → Disk × Bool
  | [] => (d, true)
  | name :: above =>
      match stat d.tree (name :: above).reverse with
      | .ok n => (d, n = .dir)
      | .error _ =>
          match d.mkdirAll can above with
          | (made, false) => (made, false)
          | (made, true) =>
              match made.mkdir can (name :: above).reverse with
              | .ok made' => (made', true)
              | .error _ => (made, lstat made.tree (name :: above).reverse = .ok .dir)

/-! ### What the calls do -/

variable {d d' : Disk} {can : Loc → Bool} {path : List String} {n : Node} {loc : Loc}

/-- A node is created where the path leads, if nothing is there. -/
theorem createAt_eq_ok :
    d.createAt can path n = .ok d' ↔
      ∃ loc, place d.tree path = .ok loc ∧ d.tree.node loc = none ∧ can loc = true ∧
        d' = d.create loc n := by
  rw [createAt]
  cases hplace : place d.tree path with
  | error err => simp
  | ok loc =>
      simp only [Except.ok.injEq, exists_eq_left']
      split_ifs with hnode hcan
      · simp [hnode]
      · have hnone : d.tree.node loc = none := not_not.mp hnode
        simp [hnone, hcan, eq_comm]
      · simp [hcan]

theorem node_created (hplace : place d.tree path = .ok loc) (hnone : d.tree.node loc = none)
    (n : Node) : (d.create loc n).tree.node = Function.update d.tree.node loc (some n) :=
  Tree.node_create (place_parent hplace) hnone n

theorem createAt_grows (h : d.createAt can path n = .ok d') : Grows d.tree d'.tree := by
  obtain ⟨loc, -, -, -, rfl⟩ := createAt_eq_ok.mp h
  exact .create d.tree loc n

/-- What has just been created is found there. -/
theorem lstat_created (h : d.createAt can path n = .ok d') : lstat d'.tree path = .ok n := by
  have hgrows := createAt_grows h
  obtain ⟨loc, hplace, hnone, -, rfl⟩ := createAt_eq_ok.mp h
  refine lstat_eq_ok.mpr ⟨loc, hgrows.place hplace, ?_⟩
  rw [node_created hplace hnone, Function.update_self]

/-- A file is opened where the path leads: one that is there, or a new one. -/
theorem openFile_eq_ok :
    d.openFile can path = .ok (loc, d') ↔
      resolve d.tree path = .ok loc ∧ can loc = true ∧
        (d.tree.node loc = none ∧ d' = d.create loc (.file []) ∨
          (∃ old, d.tree.node loc = some (.file old)) ∧ d' = d) := by
  rw [openFile]
  generalize loc = loc'
  cases hresolve : resolve d.tree path with
  | error err => simp
  | ok loc =>
      simp only [Except.ok.injEq]
      by_cases hcan : can loc = true
      · rw [if_pos hcan]
        cases hnode : d.tree.node loc with
        | none =>
            simp only [Except.ok.injEq, Prod.mk.injEq]
            constructor
            · rintro ⟨rfl, rfl⟩
              exact ⟨rfl, hcan, .inl ⟨hnode, rfl⟩⟩
            · rintro ⟨rfl, -, ⟨-, rfl⟩ | ⟨⟨old, hold⟩, -⟩⟩
              · exact ⟨rfl, rfl⟩
              · rw [hnode] at hold
                cases hold
        | some n =>
            cases n with
            | file data =>
                simp only [Except.ok.injEq, Prod.mk.injEq]
                constructor
                · rintro ⟨rfl, rfl⟩
                  exact ⟨rfl, hcan, .inr ⟨⟨data, hnode⟩, rfl⟩⟩
                · rintro ⟨rfl, -, ⟨hnone, -⟩ | ⟨-, rfl⟩⟩
                  · rw [hnode] at hnone
                    cases hnone
                  · exact ⟨rfl, rfl⟩
            | dir =>
                refine ⟨fun h => (by cases h), ?_⟩
                rintro ⟨rfl, -, ⟨hnone, -⟩ | ⟨⟨old, hold⟩, -⟩⟩
                · rw [hnode] at hnone
                  cases hnone
                · rw [hnode] at hold
                  cases hold
            | link target => exact absurd hnode (resolve_not_link hresolve target)
      · rw [if_neg hcan]
        refine ⟨fun h => (by cases h), ?_⟩
        rintro ⟨rfl, hcan', -⟩
        exact absurd hcan' hcan

/-- Opening a file changes no node that is there. -/
theorem openFile_keeps (h : d.openFile can path = .ok (loc, d')) {loc' : Loc} {m : Node}
    (hm : d.tree.node loc' = some m) : d'.tree.node loc' = some m := by
  obtain ⟨-, -, ⟨-, rfl⟩ | ⟨-, rfl⟩⟩ := openFile_eq_ok.mp h
  · exact d.tree.create_keeps _ hm
  · exact hm

theorem openFile_grows (h : d.openFile can path = .ok (loc, d')) : Grows d.tree d'.tree :=
  .of_keeps fun _ _ => openFile_keeps h

/-- What is open is a file: a new one, or the one that was there. -/
theorem node_openFile (h : d.openFile can path = .ok (loc, d')) :
    ∃ old, d'.tree.node loc = some (.file old) ∧
      (d.tree.node loc = none ∧ old = [] ∨ d.tree.node loc = some (.file old)) := by
  obtain ⟨hresolve, -, ⟨hnone, rfl⟩ | ⟨⟨old, hold⟩, rfl⟩⟩ := openFile_eq_ok.mp h
  · refine ⟨[], ?_, .inl ⟨hnone, rfl⟩⟩
    rw [create, Tree.node_create (resolve_parent hresolve) hnone, Function.update_self]
  · exact ⟨old, hold, .inr hold⟩

/-- What is open is at the place of the path itself, unless there is a link. -/
theorem openFile_place (hpath : ∀ part ∈ path, IsName part)
    (h : d.openFile can path = .ok (loc, d')) :
    ∃ loc', place d.tree path = .ok loc' ∧
      ((∀ target, d.tree.node loc' ≠ some (.link target)) → loc' = loc) := by
  obtain ⟨hresolve, -, -⟩ := openFile_eq_ok.mp h
  obtain ⟨loc', hplace⟩ := place_of_resolve hpath hresolve
  refine ⟨loc', hplace, fun hend => ?_⟩
  exact Except.ok.inj ((resolve_of_place hplace hend).symm.trans hresolve)

/-- Writing makes a tree grow: the file remains one. -/
theorem writeFile_grows (d : Disk) (loc : Loc) (data : List UInt8) :
    Grows d.tree (d.writeFile loc data).tree := by
  rw [writeFile]
  split
  · next old hold =>
      split_ifs
      · exact .refl _
      · exact .write hold _
  · exact .refl _

/-- The cases of `mkdirAll`: there is something at the path; the directories above cannot be
made; the last one is made, or not. -/
theorem mkdirAll_cases (d : Disk) (can : Loc → Bool) (name : String) (above : List String) :
    (∃ n, stat d.tree (name :: above).reverse = .ok n ∧
        d.mkdirAll can (name :: above) = (d, decide (n = .dir))) ∨
      (∀ n, stat d.tree (name :: above).reverse ≠ .ok n) ∧
        ((d.mkdirAll can above).2 = false ∧
            d.mkdirAll can (name :: above) = ((d.mkdirAll can above).1, false) ∨
          (d.mkdirAll can above).2 = true ∧
            ((∃ made, (d.mkdirAll can above).1.mkdir can (name :: above).reverse = .ok made ∧
                d.mkdirAll can (name :: above) = (made, true)) ∨
              (∀ made, (d.mkdirAll can above).1.mkdir can (name :: above).reverse ≠ .ok made) ∧
                d.mkdirAll can (name :: above) = ((d.mkdirAll can above).1,
                  decide (lstat (d.mkdirAll can above).1.tree (name :: above).reverse =
                    .ok .dir)))) := by
  rw [mkdirAll]
  cases hstat : stat d.tree (name :: above).reverse with
  | ok n => exact .inl ⟨n, rfl, rfl⟩
  | error err =>
      refine .inr ⟨fun n h => (by cases h), ?_⟩
      rcases hmade : d.mkdirAll can above with ⟨made, ok⟩
      cases ok with
      | false => exact .inl ⟨rfl, rfl⟩
      | true =>
          refine .inr ⟨rfl, ?_⟩
          cases hmkdir : made.mkdir can (name :: above).reverse with
          | ok made' => exact .inl ⟨made', rfl, by simp only [hmkdir]⟩
          | error err => exact .inr ⟨fun made' h => (by cases h), by simp only [hmkdir]⟩

theorem mkdirAll_of_stat {names : List String} (h : stat d.tree names.reverse = .ok n) :
    d.mkdirAll can names = (d, decide (n = .dir)) := by
  cases names with
  | nil =>
      obtain ⟨loc, hloc, hnode⟩ := stat_eq_ok.mp h
      obtain rfl : [] = loc := Except.ok.inj hloc
      obtain rfl := Option.some.inj (d.tree.root.symm.trans hnode)
      rfl
  | cons name above =>
      rcases mkdirAll_cases d can name above with ⟨n', hn', heq⟩ | ⟨hnot, -⟩
      · obtain rfl := Except.ok.inj (h.symm.trans hn')
        exact heq
      · exact absurd h (hnot n)

theorem createAt_keeps (h : d.createAt can path n = .ok d') {m : Node}
    (hm : d.tree.node loc = some m) : d'.tree.node loc = some m := by
  obtain ⟨loc', -, -, -, rfl⟩ := createAt_eq_ok.mp h
  exact d.tree.create_keeps n hm

theorem mkdirAll_keeps (d : Disk) (can : Loc → Bool) (path : List String) {m : Node}
    (hm : d.tree.node loc = some m) : (d.mkdirAll can path).1.tree.node loc = some m := by
  induction path with
  | nil => exact hm
  | cons name above ih =>
      rcases mkdirAll_cases d can name above with
        ⟨n, -, heq⟩ | ⟨-, ⟨-, heq⟩ | ⟨-, ⟨made, hmkdir, heq⟩ | ⟨-, heq⟩⟩⟩
      · rwa [heq]
      · rwa [heq]
      · rw [heq]
        exact createAt_keeps hmkdir ih
      · rwa [heq]

theorem mkdirAll_grows (d : Disk) (can : Loc → Bool) (path : List String) :
    Grows d.tree (d.mkdirAll can path).1.tree :=
  .of_keeps fun _ _ => mkdirAll_keeps d can path

/-- A directory that has been made is found there. -/
theorem lstat_mkdirAll {names : List String} (hstat : ∀ n, stat d.tree names.reverse ≠ .ok n)
    (hok : (d.mkdirAll can names).2 = true) :
    lstat (d.mkdirAll can names).1.tree names.reverse = .ok .dir := by
  cases names with
  | nil => exact absurd (stat_eq_ok.mpr ⟨[], walk_iff.mpr .done, d.tree.root⟩) (hstat .dir)
  | cons name above =>
      rcases mkdirAll_cases d can name above with
        ⟨n, hn, -⟩ | ⟨-, ⟨-, heq⟩ | ⟨-, ⟨made, hmkdir, heq⟩ | ⟨-, heq⟩⟩⟩
      · exact absurd hn (hstat n)
      · rw [heq] at hok
        cases hok
      · rw [heq]
        exact lstat_created hmkdir
      · rw [heq] at hok ⊢
        exact of_decide_eq_true hok

/-- What is written is at the beginning of the file. -/
theorem node_writeFile {old : List UInt8} (h : d.tree.node loc = some (.file old))
    (data : List UInt8) :
    (d.writeFile loc data).tree.node loc = some (.file (data ++ old.drop data.length)) := by
  rw [writeFile, h]
  simp only
  split_ifs with hdata
  · simpa [hdata] using h
  · rw [Tree.node_write h, Function.update_self]

theorem writeFile_keeps {loc' : Loc} (hne : loc' ≠ loc) (data : List UInt8) :
    (d.writeFile loc data).tree.node loc' = d.tree.node loc' := by
  rw [writeFile]
  split
  · next old hold =>
      split_ifs
      · rfl
      · rw [Tree.node_write hold, Function.update_of_ne hne]
  · rfl

/-! ### Where the calls write -/

/-- The places that have been created or written are all good. -/
def Within (P : Loc → Prop) (d : Disk) : Prop := ∀ loc ∈ d.touched, P loc

variable {P : Loc → Prop}

theorem within_create : Within P (d.create loc n) ↔ P loc ∧ Within P d := List.forall_mem_cons

/-- What is written is touched, if anything is written. -/
theorem within_writeFile {old : List UInt8} (h : d.tree.node loc = some (.file old))
    (data : List UInt8) :
    Within P (d.writeFile loc data) ↔ (data ≠ [] → P loc) ∧ Within P d := by
  rw [writeFile, h]
  simp only
  split_ifs with hdata
  · simp [hdata]
  · rw [Within, List.forall_mem_cons, imp_iff_right hdata]
    rfl

/-- The missing directories on a path, given from its end, which `mkdirAll` could create. -/
def Missing (t : Tree) (can : Loc → Bool) (path : List String) (loc : Loc) : Prop :=
  ∃ above, above <:+ path ∧ place t above.reverse = .ok loc ∧ t.node loc = none ∧ can loc = true

variable {t : Tree} {name : String} {above names : List String}

/-- `mkdirAll` creates what is missing: the directory, or one above. -/
theorem missing_cons :
    Missing t can (name :: above) loc ↔
      (place t (name :: above).reverse = .ok loc ∧ t.node loc = none ∧ can loc = true) ∨
        Missing t can above loc := by
  simp only [Missing, List.suffix_cons_iff, or_and_right, exists_or, exists_eq_left]

/-- Nothing is missing on the way to a path that can be looked at. -/
theorem not_missing_of_stat (hnames : ∀ name ∈ names, IsName name)
    (hstat : stat t names.reverse = .ok n) : ¬ Missing t can names loc := by
  induction names generalizing n with
  | nil =>
      rintro ⟨above, hsuffix, hplace, hnone, -⟩
      obtain rfl := List.suffix_nil.mp hsuffix
      obtain rfl : [] = loc := Except.ok.inj hplace
      rw [t.root] at hnone
      cases hnone
  | cons name above ih =>
      rw [missing_cons]
      rintro (⟨hplace, hnone, -⟩ | hmissing)
      · exact stat_ne_ok_of_place hplace hnone hstat
      · rw [List.reverse_cons] at hstat
        exact ih (fun m hm => hnames m (List.mem_cons_of_mem _ hm))
          (stat_above (hnames name List.mem_cons_self) hstat) hmissing

/-- A place is in a directory that can be looked at. -/
theorem stat_of_place (hname : IsName name) (hplace : place t (name :: above).reverse = .ok loc) :
    stat t above.reverse = .ok .dir := by
  rw [List.reverse_cons] at hplace
  obtain ⟨dir, hdir, hnode, -⟩ := (place_concat_iff hname).mp hplace
  exact stat_eq_ok.mpr ⟨dir, hdir, hnode⟩

/-- What `mkdirAll` has made without an error, and was no directory before, was not there. -/
theorem stat_of_made (hok : (d.mkdirAll can names).2 = true)
    (hnot : stat d.tree names.reverse ≠ .ok .dir) (n : Node) :
    stat d.tree names.reverse ≠ .ok n := by
  intro hn
  rw [mkdirAll_of_stat hn] at hok
  obtain rfl : n = .dir := of_decide_eq_true hok
  exact hnot hn

/-- What is created above comes before the directory. -/
theorem mkdirAll_above_grows (can : Loc → Bool)
    (hstat : ∀ n, stat d.tree (name :: above).reverse ≠ .ok n) :
    Grows (d.mkdirAll can above).1.tree (d.mkdirAll can (name :: above)).1.tree := by
  rcases mkdirAll_cases d can name above with
    ⟨n, hn, -⟩ | ⟨-, ⟨-, heq⟩ | ⟨-, ⟨made, hmkdir, heq⟩ | ⟨-, heq⟩⟩⟩
  · exact absurd hn (hstat n)
  · rw [heq]
    exact .refl _
  · rw [heq]
    exact createAt_grows hmkdir
  · rw [heq]
    exact .refl _

/-- A directory that `mkdirAll` had to make is good, if the missing ones are: it is missing
itself, or is in one that had to be made. -/
theorem made_good (hP : ∀ loc name, P loc → P (loc ++ [name]))
    (hnames : ∀ name ∈ names, IsName name) (hstat : ∀ n, stat d.tree names.reverse ≠ .ok n)
    (hok : (d.mkdirAll can names).2 = true)
    (hgood : ∀ loc, Missing d.tree can names loc → P loc) :
    ∃ loc, resolve (d.mkdirAll can names).1.tree names.reverse = .ok loc ∧
      (d.mkdirAll can names).1.tree.node loc = some .dir ∧ P loc := by
  induction names with
  | nil => exact absurd (stat_eq_ok.mpr ⟨[], walk_iff.mpr .done, d.tree.root⟩) (hstat .dir)
  | cons name above ih =>
      have hname := hnames name List.mem_cons_self
      have hdone := lstat_mkdirAll hstat hok
      obtain ⟨loc, hplace, hnode⟩ := lstat_eq_ok.mp hdone
      refine ⟨loc, resolve_of_place hplace (by rw [hnode]; simp), hnode, ?_⟩
      have hmade : (d.mkdirAll can above).2 = true := by
        rcases mkdirAll_cases d can name above with ⟨n, hn, -⟩ | ⟨-, ⟨-, heq⟩ | ⟨hmade, -⟩⟩
        · exact absurd hn (hstat n)
        · rw [heq] at hok
          cases hok
        · exact hmade
      by_cases habove : stat d.tree above.reverse = .ok .dir
      · -- only the last directory has been missing
        refine hgood loc (missing_cons.mpr (.inl ?_))
        rcases mkdirAll_cases d can name above with
          ⟨n, hn, -⟩ | ⟨-, ⟨hnot, -⟩ | ⟨-, ⟨made, hmkdir, heq⟩ | ⟨-, heq⟩⟩⟩
        · exact absurd hn (hstat n)
        · rw [hmade] at hnot
          cases hnot
        · rw [heq] at hplace
          have hgrows := createAt_grows hmkdir
          rw [mkdirAll_of_stat habove] at hmkdir hgrows
          obtain ⟨loc', hplace', hnone, hcan, -⟩ := createAt_eq_ok.mp hmkdir
          obtain rfl := Except.ok.inj (hplace.symm.trans (hgrows.place hplace'))
          exact ⟨hplace', hnone, hcan⟩
        · rw [heq, mkdirAll_of_stat habove] at hplace hnode
          have hresolve := resolve_of_place hplace (by rw [hnode]; simp)
          exact absurd (stat_eq_ok.mpr ⟨loc, hresolve, hnode⟩) (hstat .dir)
      · obtain ⟨dir, hdir, hdirnode, hgood'⟩ :=
          ih (fun m hm => hnames m (List.mem_cons_of_mem _ hm)) (stat_of_made hmade habove) hmade
            fun loc hm => hgood loc (missing_cons.mpr (.inr hm))
        have hgrows := mkdirAll_above_grows can hstat
        have hdir' := hgrows.resolve (by rw [hgrows.dir dir hdirnode]; simp) hdir
        rw [List.reverse_cons] at hplace
        obtain ⟨dir', hresolve, -, rfl⟩ := (place_concat_iff hname).mp hplace
        obtain rfl := Except.ok.inj (hresolve.symm.trans hdir')
        exact hP dir' name hgood'

/-- Only directories are made. -/
theorem mkdirAll_new {m : Node} (hm : (d.mkdirAll can names).1.tree.node loc = some m)
    (hdir : m ≠ .dir) : d.tree.node loc = some m := by
  induction names with
  | nil => exact hm
  | cons name above ih =>
      rcases mkdirAll_cases d can name above with
        ⟨n, -, heq⟩ | ⟨-, ⟨-, heq⟩ | ⟨-, ⟨made, hmkdir, heq⟩ | ⟨-, heq⟩⟩⟩
      · rwa [heq] at hm
      · rw [heq] at hm
        exact ih hm
      · rw [heq] at hm
        obtain ⟨loc', hplace, hnone, -, rfl⟩ := createAt_eq_ok.mp hmkdir
        rw [node_created hplace hnone] at hm
        by_cases hloc : loc = loc'
        · rw [hloc, Function.update_self] at hm
          exact absurd (Option.some.inj hm).symm hdir
        · rw [Function.update_of_ne hloc] at hm
          exact ih hm
      · rw [heq] at hm
        exact ih hm

/-- There is no link in a directory that had to be made. -/
theorem not_link_of_made (hnames : ∀ m ∈ name :: above, IsName m)
    (hthere : stat d.tree above.reverse ≠ .ok .dir) (hmade : (d.mkdirAll can above).2 = true)
    (hplace : place (d.mkdirAll can above).1.tree (name :: above).reverse = .ok loc)
    (target : String) : (d.mkdirAll can above).1.tree.node loc ≠ some (.link target) := by
  intro hlink
  have hbefore : d.tree.node loc = some (.link target) := mkdirAll_new hlink (by simp)
  rw [List.reverse_cons] at hplace
  obtain ⟨dir, hdir, -, rfl⟩ := (place_concat_iff (hnames name List.mem_cons_self)).mp hplace
  have hdirnode : d.tree.node dir = some .dir := d.tree.parent dir name (by rw [hbefore]; simp)
  -- but the directory was not there
  obtain ⟨dir', hdir', -, hnone⟩ :=
    made_good (fun _ name hnone => d.tree.node_below hnone name)
      (fun m hm => hnames m (List.mem_cons_of_mem _ hm)) (stat_of_made hmade hthere) hmade
      fun loc ⟨_, _, _, hnone, _⟩ => hnone
  obtain rfl := Except.ok.inj (hdir.symm.trans hdir')
  rw [hnone] at hdirnode
  cases hdirnode

/-- `mkdirAll` returns no error if there is a directory afterwards. -/
theorem mkdirAll_ok (hnames : ∀ name ∈ names, IsName name)
    (hdone : stat (d.mkdirAll can names).1.tree names.reverse = .ok .dir) :
    (d.mkdirAll can names).2 = true := by
  induction names with
  | nil => rfl
  | cons name above ih =>
      have hname := hnames name List.mem_cons_self
      have habove : ∀ m ∈ above, IsName m := fun m hm => hnames m (List.mem_cons_of_mem _ hm)
      rcases mkdirAll_cases d can name above with
        ⟨n, hn, heq⟩ | ⟨hstat, ⟨hfail, heq⟩ | ⟨hmade, ⟨made, hmkdir, heq⟩ | ⟨-, heq⟩⟩⟩
      · rw [heq] at hdone ⊢
        exact decide_eq_true (Except.ok.inj (hn.symm.trans hdone))
      · rw [heq, List.reverse_cons] at hdone
        rw [ih habove (stat_above hname hdone)] at hfail
        cases hfail
      · rw [heq]
      · rw [heq] at hdone ⊢
        have hthere : stat d.tree above.reverse ≠ .ok .dir := by
          intro hthere
          rw [mkdirAll_of_stat hthere] at hdone
          exact hstat .dir hdone
        obtain ⟨loc, hresolve, hnode⟩ := stat_eq_ok.mp hdone
        obtain ⟨loc', hplace⟩ := place_of_resolve
          (fun m hm => hnames m (List.mem_reverse.mp hm)) hresolve
        have hend := not_link_of_made hnames hthere hmade hplace
        obtain rfl := Except.ok.inj ((resolve_of_place hplace hend).symm.trans hresolve)
        exact decide_eq_true (lstat_eq_ok.mpr ⟨loc', hplace, hnode⟩)

/-- **`mkdirAll` writes where directories are missing.** -/
theorem within_mkdirAll (hP : ∀ loc name, P loc → P (loc ++ [name]))
    (hnames : ∀ name ∈ names, IsName name) :
    Within P (d.mkdirAll can names).1 ↔
      Within P d ∧ ∀ loc, Missing d.tree can names loc → P loc := by
  induction names with
  | nil =>
      have hroot : stat d.tree ([] : List String).reverse = .ok .dir :=
        stat_eq_ok.mpr ⟨[], walk_iff.mpr .done, d.tree.root⟩
      exact ⟨fun h => ⟨h, fun loc hm => absurd hm (not_missing_of_stat hnames hroot)⟩, And.left⟩
  | cons name above ih =>
      have hname := hnames name List.mem_cons_self
      have habove : ∀ m ∈ above, IsName m := fun m hm => hnames m (List.mem_cons_of_mem _ hm)
      have hih := ih habove
      -- where the directory above is not there, the place of the last name is not missing
      have hrest : stat d.tree above.reverse ≠ .ok .dir →
          (Within P (d.mkdirAll can above).1 ↔
            Within P d ∧ ∀ loc, Missing d.tree can (name :: above) loc → P loc) := by
        intro hnot
        simp only [missing_cons]
        rw [hih]
        refine and_congr_right fun _ => forall_congr' fun loc => imp_congr_left ?_
        exact (or_iff_right fun hown => hnot (stat_of_place hname hown.1)).symm
      rcases mkdirAll_cases d can name above with
        ⟨n, hn, heq⟩ | ⟨-, ⟨hmade, heq⟩ | ⟨hmade, ⟨made, hmkdir, heq⟩ | ⟨hfail, heq⟩⟩⟩
      · rw [heq]
        exact ⟨fun h => ⟨h, fun loc hm => absurd hm (not_missing_of_stat hnames hn)⟩, And.left⟩
      · rw [heq]
        refine hrest fun hdir => ?_
        rw [mkdirAll_of_stat hdir] at hmade
        cases hmade
      · rw [heq]
        by_cases hdir : stat d.tree above.reverse = .ok .dir
        · rw [mkdirAll_of_stat hdir] at hmkdir
          obtain ⟨loc, hplace, hnone, hcan, rfl⟩ := createAt_eq_ok.mp hmkdir
          rw [within_create, and_comm]
          refine and_congr_right fun _ => ⟨fun hgood loc' hm => ?_, fun h => ?_⟩
          · rcases missing_cons.mp hm with ⟨hplace', -⟩ | hm
            · obtain rfl := Except.ok.inj (hplace.symm.trans hplace')
              exact hgood
            · exact absurd hm (not_missing_of_stat habove hdir)
          · exact h loc (missing_cons.mpr (.inl ⟨hplace, hnone, hcan⟩))
        · rw [← hrest hdir]
          obtain ⟨loc, hplace, -, -, rfl⟩ := createAt_eq_ok.mp hmkdir
          rw [within_create]
          refine and_iff_right_of_imp fun hgood => ?_
          obtain ⟨loc', hloc', -, hgood'⟩ :=
            made_good hP habove (stat_of_made hmade hdir) hmade (hih.mp hgood).2
          rw [List.reverse_cons] at hplace
          obtain ⟨dir, hresolve, -, rfl⟩ := (place_concat_iff hname).mp hplace
          obtain rfl := Except.ok.inj (hresolve.symm.trans hloc')
          exact hP dir name hgood'
      · rw [heq]
        by_cases hdir : stat d.tree above.reverse = .ok .dir
        · rw [mkdirAll_of_stat hdir] at hfail ⊢
          refine ⟨fun h => ⟨h, fun loc hm => ?_⟩, And.left⟩
          rcases missing_cons.mp hm with ⟨hplace, hnone, hcan⟩ | hm
          · exact absurd (createAt_eq_ok.mpr ⟨loc, hplace, hnone, hcan, rfl⟩) (hfail _)
          · exact absurd hm (not_missing_of_stat habove hdir)
        · exact hrest hdir

end Disk

end FileTree
