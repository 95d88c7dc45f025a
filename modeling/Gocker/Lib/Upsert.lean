import Mathlib.Data.List.Basic
import Mathlib.Data.List.Induction
import Mathlib.Data.List.Nodup

/-!
# A table kept in a list

A table is a list with a key for each element.  `upsert` puts an element in the place of
the first one with its key, or at the end; a lookup takes the first element with the key.

`replay` is the table after a sequence of updates of an empty one.  It has no key twice
(`nodup_replay`), a lookup finds the last update of its key (`find?_replay`), and the
keys stand in the order of their first updates (`ordered_replay`).

### Use

A file that holds a list of entries and is rewritten with one entry replaced is such a table;
what it says after any number of updates is then a matter of the last one for each key, and
needs no induction of its own.
-/

universe u v

namespace Upsert

variable {α : Type u} {κ : Type v} [DecidableEq κ] {key : α → κ}

/-- Put `x` in the place of the first element with its key, or at the end. -/
def upsert (key : α → κ) (x : α) : List α → List α
  | [] => [x]
  | y :: ys => if key y = key x then x :: ys else y :: upsert key x ys

/-- A lookup after an update: the element, under its key. -/
theorem find?_upsert (x : α) (xs : List α) (k : κ) :
    (upsert key x xs).find? (key · = k) =
      if key x = k then some x else xs.find? (key · = k) := by
  induction xs with
  | nil => by_cases hk : key x = k <;> simp [upsert, hk]
  | cons y ys ih =>
      rw [upsert]
      split_ifs with hy hk hk
      · simp [hk]
      · simp [hk, hy]
      · rw [List.find?_cons_of_neg (by simpa [← hk] using hy), ih, if_pos hk]
      · rw [List.find?_cons, List.find?_cons, ih, if_neg hk]

/-- A key that is there stays where it is; a new one comes last. -/
theorem keys_upsert (x : α) (xs : List α) :
    (upsert key x xs).map key =
      if key x ∈ xs.map key then xs.map key else xs.map key ++ [key x] := by
  induction xs with
  | nil => simp [upsert]
  | cons y ys ih =>
      rw [upsert]
      by_cases hy : key y = key x
      · simp [hy]
      · have hne : ¬ key x = key y := fun h => hy h.symm
        rw [if_neg hy, List.map_cons, ih, List.map_cons]
        by_cases hmem : key x ∈ ys.map key
        · rw [if_pos hmem, if_pos (List.mem_cons_of_mem _ hmem)]
        · have hnot : key x ∉ key y :: ys.map key := by
            simp only [List.mem_cons, hmem, hne, or_false, not_false_iff]
          rw [if_neg hmem, if_neg hnot, List.cons_append]

theorem mem_upsert_self (x : α) (xs : List α) : x ∈ upsert key x xs := by
  induction xs with
  | nil => exact List.mem_singleton_self x
  | cons y ys ih =>
      rw [upsert]
      split_ifs
      · exact List.mem_cons_self
      · exact List.mem_cons_of_mem y ih

theorem mem_of_mem_upsert {x y : α} {xs : List α} (h : y ∈ upsert key x xs) : y = x ∨ y ∈ xs := by
  induction xs with
  | nil => exact .inl (List.mem_singleton.mp h)
  | cons z zs ih =>
      rw [upsert] at h
      split_ifs at h with hkey
      · exact (List.mem_cons.mp h).imp_right (List.mem_cons_of_mem z)
      · rcases List.mem_cons.mp h with rfl | h
        · exact .inr List.mem_cons_self
        · exact (ih h).imp_right (List.mem_cons_of_mem z)

theorem mem_upsert_of_ne {x y : α} {xs : List α} (hy : y ∈ xs) (hne : key y ≠ key x) :
    y ∈ upsert key x xs := by
  induction xs with
  | nil => cases hy
  | cons z zs ih =>
      rw [upsert]
      split_ifs with hz
      · rcases List.mem_cons.mp hy with rfl | hy
        · exact absurd hz hne
        · exact List.mem_cons_of_mem x hy
      · rcases List.mem_cons.mp hy with rfl | hy
        · exact List.mem_cons_self
        · exact List.mem_cons_of_mem z (ih hy)

/-- The keys are those before, and that of the element. -/
theorem mem_keys_upsert {x : α} {xs : List α} {k : κ} :
    k ∈ (upsert key x xs).map key ↔ k = key x ∨ k ∈ xs.map key := by
  rw [keys_upsert]
  split_ifs with hmem
  · constructor
    · exact .inr
    · rintro (rfl | h)
      · exact hmem
      · exact h
  · rw [List.mem_append, List.mem_singleton, or_comm]

theorem nodup_upsert {x : α} {xs : List α} (h : (xs.map key).Nodup) :
    ((upsert key x xs).map key).Nodup := by
  rw [keys_upsert]
  split_ifs with hmem
  · exact h
  · exact List.nodup_append.mpr ⟨h, List.nodup_singleton _, fun a ha b hb hab =>
      hmem (List.mem_singleton.mp hb ▸ hab ▸ ha)⟩

/-- In a table that has no key twice, a lookup finds what is there, wherever it stands. -/
theorem find?_eq_some_iff {x : α} {xs : List α} {k : κ} (h : (xs.map key).Nodup) :
    xs.find? (key · = k) = some x ↔ x ∈ xs ∧ key x = k := by
  constructor
  · intro hx
    have hkey := List.find?_some hx
    exact ⟨List.mem_of_find?_eq_some hx, of_decide_eq_true hkey⟩
  · rintro ⟨hmem, rfl⟩
    obtain ⟨y, hy⟩ : ∃ y, xs.find? (key · = key x) = some y := by
      rw [← Option.isSome_iff_exists, List.find?_isSome]
      exact ⟨x, hmem, decide_eq_true rfl⟩
    have hkey := List.find?_some hy
    rw [hy, List.inj_on_of_nodup_map h (List.mem_of_find?_eq_some hy) hmem (of_decide_eq_true hkey)]

/-- Without repetitions a lookup does not depend on the order. -/
theorem find?_perm {xs ys : List α} {k : κ} (hperm : xs.Perm ys) (h : (xs.map key).Nodup) :
    xs.find? (key · = k) = ys.find? (key · = k) := by
  have hys : (ys.map key).Nodup := (hperm.map key).nodup_iff.mp h
  refine Option.ext fun x => ?_
  rw [find?_eq_some_iff h, find?_eq_some_iff hys, hperm.mem_iff]

/-! ## A sequence of updates -/

/-- The table after these updates. -/
def replay (key : α → κ) (xs : List α) : List α := xs.foldl (fun t x => upsert key x t) []

@[simp] theorem replay_nil : replay key [] = [] := rfl

theorem replay_concat (xs : List α) (x : α) :
    replay key (xs ++ [x]) = upsert key x (replay key xs) := by
  rw [replay, List.foldl_concat, replay]

theorem mem_keys_replay {xs : List α} {k : κ} : k ∈ (replay key xs).map key ↔ k ∈ xs.map key := by
  induction xs using List.reverseRecOn with
  | nil => simp
  | append_singleton xs x ih =>
      rw [replay_concat, mem_keys_upsert, ih, List.map_append, List.mem_append, List.map_singleton,
        List.mem_singleton, or_comm]

/-- No key is in the table twice. -/
theorem nodup_replay (xs : List α) : ((replay key xs).map key).Nodup := by
  induction xs using List.reverseRecOn with
  | nil => exact List.nodup_nil
  | append_singleton xs x ih =>
      rw [replay_concat]
      exact nodup_upsert ih

/-- **A lookup finds the last update** of its key. -/
theorem find?_replay (xs : List α) (k : κ) :
    (replay key xs).find? (key · = k) = xs.reverse.find? (key · = k) := by
  induction xs using List.reverseRecOn with
  | nil => rfl
  | append_singleton xs x ih =>
      rw [replay_concat, find?_upsert, ih, List.reverse_concat, List.find?_cons]
      by_cases hk : key x = k
      · simp [hk]
      · simp [hk]

/-- **The keys stand in the order of their first updates.** -/
theorem ordered_replay (xs : List α) :
    ((replay key xs).map key).Pairwise fun a b => (xs.map key).idxOf a < (xs.map key).idxOf b := by
  induction xs using List.reverseRecOn with
  | nil => exact List.Pairwise.nil
  | append_singleton xs x ih =>
      -- a later update does not move the first one
      have hsame : ∀ a ∈ (replay key xs).map key,
          ((xs ++ [x]).map key).idxOf a = (xs.map key).idxOf a := by
        intro a ha
        rw [List.map_append, List.idxOf_append_of_mem (mem_keys_replay.mp ha)]
      have hbefore := ih.imp_of_mem fun ha hb hlt =>
        (hsame _ ha).symm ▸ (hsame _ hb).symm ▸ hlt
      rw [replay_concat, keys_upsert]
      split_ifs with hmem
      · exact hbefore
      · refine List.pairwise_append.mpr ⟨hbefore, List.pairwise_singleton _ _, ?_⟩
        intro a ha b hb
        obtain rfl := List.mem_singleton.mp hb
        rw [hsame a ha, List.map_append, List.idxOf_append_of_notMem (mt mem_keys_replay.mpr hmem)]
        exact Nat.lt_add_right _ (List.idxOf_lt_length_of_mem (mem_keys_replay.mp ha))

end Upsert
