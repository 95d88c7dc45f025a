import Mathlib.Data.List.Nodup
import Mathlib.Data.List.Basic

/-!
# A walk over a list that grows

A table is gone over key by key: from each key one asks for the next.  In the meantime keys are
added anywhere in the list, but none is removed and none is moved: the list before is a sublist of
the list afterwards.

* `nextKey` is the next key; for a key that is not there it is the first one.
* `At first seen keys k` says that the walk stands at `k` and has seen `seen` before, among them
  everything of `first` that lies in front of `k`.  A step of the walk keeps this
  (`At.next`), and so does the growth of the list (`At.grow`).
* `Over` is the end: what was there at the start has been seen.
-/

universe u

namespace GrowingList

open scoped List

variable {α : Type u} {first seen keys keys' pre post : List α} {k k' : α}

/-- A key of the list, and what lies on either side of it, in a longer list. -/
theorem split_of_sublist (h : pre ++ k :: post <+ keys) :
    ∃ pre' post', keys = pre' ++ k :: post' ∧ pre <+ pre' ∧ post <+ post' := by
  obtain ⟨left, right, rfl, hleft, hright⟩ := List.append_sublist_iff.mp h
  obtain ⟨middle, rest, rfl, hmem, hrest⟩ := List.cons_sublist_iff.mp hright
  obtain ⟨before, after, rfl⟩ := List.append_of_mem hmem
  refine ⟨left ++ before, after ++ rest, by simp, ?_, ?_⟩
  · exact hleft.trans (List.sublist_append_left left before)
  · exact hrest.trans (List.sublist_append_right after rest)

/-- The walk stands at `k`. -/
def At (first seen keys : List α) (k : α) : Prop :=
  ∃ pre post, keys = pre ++ k :: post ∧ seen <+ pre ∧ ∀ x ∈ first, x ∈ pre → x ∈ seen

/-- The walk is over. -/
def Over (first seen keys : List α) : Prop := seen <+ keys ∧ first ⊆ seen

/-! ## The list grows -/

/-- Where the list grows, the walk stands where it stood. -/
theorem At.grow (h : At first seen keys k) (hgrow : keys <+ keys') (hnodup : keys'.Nodup)
    (hfirst : first ⊆ keys) : At first seen keys' k := by
  obtain ⟨pre, post, rfl, hseen, hall⟩ := h
  obtain ⟨pre', post', rfl, hpre, hpost⟩ := split_of_sublist hgrow
  refine ⟨pre', post', rfl, hseen.trans hpre, fun x hx hx' => hall x hx ?_⟩
  -- a key of the old list that now lies in front of `k` did so before
  have hne : x ∉ k :: post' := List.disjoint_of_nodup_append hnodup hx'
  rcases List.mem_append.mp (hfirst hx) with hold | hold
  · exact hold
  · exact absurd (hpost.cons_cons k |>.subset hold) hne

/-- A walk that is over has seen what was there at the start, whatever comes later. -/
theorem Over.grow (h : Over first seen keys) (hgrow : keys <+ keys') : Over first seen keys' :=
  ⟨h.1.trans hgrow, h.2⟩

/-- The walk has seen fewer keys than there are, each of them once. -/
theorem At.seen_lt (h : At first seen keys k) (hnodup : keys.Nodup) :
    k ∈ keys ∧ (seen ++ [k]).Nodup ∧ seen.length < keys.length := by
  obtain ⟨pre, post, rfl, hseen, -⟩ := h
  have hsub : seen ++ [k] <+ pre ++ k :: post :=
    hseen.append (List.sublist_append_left [k] post)
  have hlength := hsub.length_le
  rw [List.length_append, List.length_singleton] at hlength
  exact ⟨by simp, hsub.nodup hnodup, hlength⟩

/-! ## A step of the walk -/

/-- The key has been seen, and everything in front of it that there was at the start. -/
theorem seen_concat (hseen : seen <+ pre) (hall : ∀ x ∈ first, x ∈ pre → x ∈ seen) :
    seen ++ [k] <+ pre ++ [k] ∧ ∀ x ∈ first, x ∈ pre ++ [k] → x ∈ seen ++ [k] := by
  refine ⟨hseen.append_right [k], fun x hx hx' => ?_⟩
  rcases List.mem_append.mp hx' with hpre | hk
  · exact List.mem_append_left _ (hall x hx hpre)
  · exact List.mem_append_right _ hk

variable [DecidableEq α]

/-- The key after a key; the first one for none, and for a key that is not there. -/
def nextKey (keys : List α) : Option α → Option α
  | none => keys.head?
  | some k => if k ∈ keys then (keys.drop (keys.idxOf k + 1)).head? else keys.head?

theorem nextKey_append (h : k ∉ pre) : nextKey (pre ++ k :: post) (some k) = post.head? := by
  have hidx : (pre ++ k :: post).idxOf k = pre.length := by
    rw [List.idxOf_append_of_notMem h, List.idxOf_cons_self, Nat.add_zero]
  have hdrop : (pre ++ k :: post).drop (pre.length + 1) = post := by
    rw [← List.drop_drop, List.drop_left, List.drop_one, List.tail_cons]
  rw [nextKey, if_pos (by simp), hidx, hdrop]

/-- A walk that begins has seen nothing, and nothing lies before its first key. -/
theorem at_head (h : nextKey keys none = some k) : At first [] keys k := by
  obtain ⟨post, rfl⟩ : ∃ post, keys = k :: post := List.head?_eq_some_iff.mp h
  exact ⟨[], post, rfl, List.Sublist.slnil, fun x _ hx => hx⟩

theorem over_of_empty (h : nextKey keys none = none) (hfirst : first ⊆ keys) :
    Over first [] keys := by
  obtain rfl : keys = [] := List.head?_eq_none_iff.mp h
  exact ⟨List.Sublist.slnil, hfirst⟩

theorem At.next (h : At first seen keys k) (hnodup : keys.Nodup)
    (hnext : nextKey keys (some k) = some k') : At first (seen ++ [k]) keys k' := by
  obtain ⟨pre, post, rfl, hseen, hall⟩ := h
  have hnot : k ∉ pre := fun hk =>
    List.disjoint_of_nodup_append hnodup hk List.mem_cons_self
  rw [nextKey_append hnot] at hnext
  obtain ⟨post', rfl⟩ : ∃ post', post = k' :: post' := List.head?_eq_some_iff.mp hnext
  exact ⟨pre ++ [k], post', by simp, seen_concat hseen hall⟩

theorem At.last (h : At first seen keys k) (hnodup : keys.Nodup) (hfirst : first ⊆ keys)
    (hnext : nextKey keys (some k) = none) : Over first (seen ++ [k]) keys := by
  obtain ⟨pre, post, rfl, hseen, hall⟩ := h
  have hnot : k ∉ pre := fun hk =>
    List.disjoint_of_nodup_append hnodup hk List.mem_cons_self
  rw [nextKey_append hnot] at hnext
  obtain rfl : post = [] := List.head?_eq_none_iff.mp hnext
  obtain ⟨hconcat, hlast⟩ := seen_concat (k := k) hseen hall
  exact ⟨hconcat, fun x hx => hlast x hx (hfirst hx)⟩

end GrowingList
