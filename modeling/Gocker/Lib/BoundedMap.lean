import Mathlib.Data.Finset.Card
import Mathlib.Data.List.AList
import Mathlib.Data.List.Induction

/-!
# Maps of bounded size

A map that takes at most `capacity` keys: the insertion of a new one into a full map has no
effect.

While all keys come from a set that is not larger than the map, it never shows that it is
bounded (`hasRoom_of_subset`).  `accumulated` is a map of accumulators, which begin when they
are first used; each is the fold of its own updates (`getD_lookup_accumulated`).  `count` is
the number of values of a kind: an insertion adds at most one, a deletion takes one away.

### Use

Programs that keep statistics in a table of fixed size drop what does not fit and go on.  What
they have counted is exact if the table was large enough for all keys that occur, and
`hasRoom_of_subset` reduces this to the number of these keys; a bound on the table never has to
be followed through a run.
-/

universe u v

/-- A table with at most `capacity` keys. -/
structure BoundedMap (κ : Type u) (ν : Type v) (capacity : ℕ) where
  table : AList fun _ : κ => ν
  length_le : table.keys.length ≤ capacity

namespace BoundedMap

variable {κ : Type u} {ν : Type v} {capacity : ℕ} [DecidableEq κ]

/-- The map without keys. -/
def empty : BoundedMap κ ν capacity := ⟨∅, Nat.zero_le _⟩

/-- The value of a key. -/
def lookup (m : BoundedMap κ ν capacity) (k : κ) : Option ν := m.table.lookup k

/-- The key is in the map, or the map is not full. -/
def HasRoom (m : BoundedMap κ ν capacity) (k : κ) : Prop :=
  k ∈ m.table.keys ∨ m.table.keys.length < capacity

instance (m : BoundedMap κ ν capacity) (k : κ) : Decidable (m.HasRoom k) :=
  inferInstanceAs (Decidable (_ ∨ _))

/-- Where there is room, an insertion does not exceed the bound. -/
theorem length_insert_le {m : BoundedMap κ ν capacity} {k : κ} (h : m.HasRoom k) (v : ν) :
    (m.table.insert k v).keys.length ≤ capacity := by
  rw [AList.keys_insert, List.length_cons]
  by_cases hmem : k ∈ m.table.keys
  · rw [List.length_erase_add_one hmem]
    exact m.length_le
  · rw [List.erase_of_not_mem hmem]
    exact h.resolve_left hmem

theorem length_erase_le (m : BoundedMap κ ν capacity) (k : κ) :
    (m.table.erase k).keys.length ≤ capacity := by
  rw [AList.keys_erase]
  exact (List.length_erase_le ..).trans m.length_le

/-- An insertion; into a full map only if the key is there already. -/
protected def insert (m : BoundedMap κ ν capacity) (k : κ) (v : ν) : BoundedMap κ ν capacity :=
  if h : m.HasRoom k then ⟨m.table.insert k v, length_insert_le h v⟩ else m

/-- A deletion. -/
def delete (m : BoundedMap κ ν capacity) (k : κ) : BoundedMap κ ν capacity :=
  ⟨m.table.erase k, m.length_erase_le k⟩

/-- Insert a key unless it is there. -/
def insertNew (m : BoundedMap κ ν capacity) (k : κ) (v : ν) : BoundedMap κ ν capacity :=
  if k ∈ m.table.keys then m else m.insert k v

/-- Change the value of a key, if it is there. -/
def modify (m : BoundedMap κ ν capacity) (k : κ) (f : ν → ν) : BoundedMap κ ν capacity :=
  match m.lookup k with
  | none => m
  | some v => m.insert k (f v)

/-! ## Lookups -/

variable {m : BoundedMap κ ν capacity} {k k' : κ} {v : ν} {keys : Finset κ}

@[simp] theorem lookup_empty : (empty : BoundedMap κ ν capacity).lookup k = none :=
  AList.lookup_empty k

theorem isSome_lookup : (m.lookup k).isSome ↔ k ∈ m.table.keys := AList.lookup_isSome

/-- An insertion for which there is room sets the value of its key, and no other. -/
theorem lookup_insert (h : m.HasRoom k) :
    (m.insert k v).lookup k' = if k' = k then some v else m.lookup k' := by
  rw [BoundedMap.insert, dif_pos h, lookup]
  split_ifs with hk
  · rw [hk]
    exact AList.lookup_insert m.table
  · exact AList.lookup_insert_ne hk

/-- Whether there is room or not, an insertion sets no other key. -/
theorem lookup_insert_of_ne (hk : k' ≠ k) : (m.insert k v).lookup k' = m.lookup k' := by
  by_cases hroom : m.HasRoom k
  · rw [lookup_insert hroom, if_neg hk]
  · rw [BoundedMap.insert, dif_neg hroom]

/-- What is found after an insertion has been inserted, or was there. -/
theorem lookup_of_insert {v' : ν} (h : (m.insert k v).lookup k' = some v') :
    k' = k ∧ v' = v ∨ m.lookup k' = some v' := by
  by_cases hroom : m.HasRoom k
  · rw [lookup_insert hroom] at h
    split_ifs at h with hk
    · exact .inl ⟨hk, (Option.some.inj h).symm⟩
    · exact .inr h
  · rw [BoundedMap.insert, dif_neg hroom] at h
    exact .inr h

theorem lookup_delete : (m.delete k).lookup k' = if k' = k then none else m.lookup k' := by
  rw [delete, lookup]
  split_ifs with hk
  · rw [hk]
    exact AList.lookup_erase k m.table
  · exact AList.lookup_erase_ne hk

/-- A map with keys from a set that fits has room for the keys of the set. -/
theorem hasRoom_of_subset (hm : ∀ k, (m.lookup k).isSome → k ∈ keys)
    (hcard : keys.card ≤ capacity) (hk : k ∈ keys) : m.HasRoom k := by
  refine or_iff_not_imp_left.mpr fun hnot => ?_
  have hnew : k ∉ m.table.keys.toFinset := fun hmem => hnot (List.mem_toFinset.mp hmem)
  have hsub : insert k m.table.keys.toFinset ⊆ keys := by
    apply Finset.insert_subset hk
    intro k' hk'
    exact hm k' (isSome_lookup.mpr (List.mem_toFinset.mp hk'))
  calc
    m.table.keys.length = m.table.keys.toFinset.card :=
      (List.toFinset_card_of_nodup m.table.keys_nodup).symm
    _ < (insert k m.table.keys.toFinset).card := Finset.card_lt_card (Finset.ssubset_insert hnew)
    _ ≤ keys.card := Finset.card_le_card hsub
    _ ≤ capacity := hcard

/-! ## Accumulators -/

/-- Update the accumulator of a key, which begins with `init`. -/
def accumulate (init : ν) (m : BoundedMap κ ν capacity) (k : κ) (f : ν → ν) :
    BoundedMap κ ν capacity :=
  (m.insertNew k init).modify k f

/-- The map after these updates. -/
def accumulated (capacity : ℕ) (init : ν) (ops : List (κ × (ν → ν))) : BoundedMap κ ν capacity :=
  ops.foldl (fun m op => m.accumulate init op.1 op.2) empty

/-- An update of an accumulator, which begins with `init`. -/
theorem lookup_accumulate {init : ν} {f : ν → ν} (h : m.HasRoom k) :
    (m.accumulate init k f).lookup k' =
      if k' = k then some (f ((m.lookup k).getD init)) else m.lookup k' := by
  rw [accumulate, insertNew]
  split_ifs with hmem hk hk
  · obtain ⟨v, hv⟩ := Option.isSome_iff_exists.mp (isSome_lookup.mpr hmem)
    rw [modify, hv, lookup_insert h, if_pos hk]
    rfl
  · obtain ⟨v, hv⟩ := Option.isSome_iff_exists.mp (isSome_lookup.mpr hmem)
    rw [modify, hv, lookup_insert h, if_neg hk]
  all_goals
    have hnone : m.lookup k = none := by
      rw [← Option.not_isSome_iff_eq_none, isSome_lookup]
      exact hmem
    have hinit : (m.insert k init).lookup k = some init := by rw [lookup_insert h, if_pos rfl]
    have hroom : (m.insert k init).HasRoom k :=
      .inl (isSome_lookup.mp (Option.isSome_of_eq_some hinit))
    rw [modify, hinit, lookup_insert hroom]
  · rw [if_pos hk, hnone]
    rfl
  · rw [if_neg hk, lookup_insert h, if_neg hk]

/-- A key for which there is no room is not taken. -/
theorem accumulate_of_full {init : ν} {f : ν → ν} (h : ¬ m.HasRoom k) :
    m.accumulate init k f = m := by
  have hnot : k ∉ m.table.keys := fun hk => h (.inl hk)
  have hnone : m.lookup k = none := by
    rw [← Option.not_isSome_iff_eq_none, isSome_lookup]
    exact hnot
  rw [accumulate, insertNew, if_neg hnot, BoundedMap.insert, dif_neg h, modify, hnone]

/-- One more update is applied to what the others have given. -/
theorem accumulated_concat {init : ν} (ops : List (κ × (ν → ν))) (op : κ × (ν → ν)) :
    accumulated capacity init (ops ++ [op]) =
      (accumulated capacity init ops).accumulate init op.1 op.2 := by
  rw [accumulated, List.foldl_concat, accumulated]

/-- A map of accumulators has keys from the updates only. -/
theorem mem_of_isSome_accumulated {init : ν} {ops : List (κ × (ν → ν))}
    (hops : ∀ op ∈ ops, op.1 ∈ keys) (hcard : keys.card ≤ capacity) :
    ∀ k, ((accumulated capacity init ops).lookup k).isSome → k ∈ keys := by
  induction ops using List.reverseRecOn with
  | nil =>
      intro k hk
      cases hk
  | append_singleton ops op ih =>
      intro k hk
      have hbefore := ih fun o ho => hops o (List.mem_append_left _ ho)
      have hop : op.1 ∈ keys := hops op (List.mem_append_right _ (List.mem_singleton_self op))
      rw [accumulated_concat, lookup_accumulate (hasRoom_of_subset hbefore hcard hop)] at hk
      split_ifs at hk with heq
      · rwa [heq]
      · exact hbefore k hk

/-- **Each accumulator is the fold of its own updates**, if all keys fit in the map. -/
theorem getD_lookup_accumulated {init : ν} {ops : List (κ × (ν → ν))}
    (hops : ∀ op ∈ ops, op.1 ∈ keys) (hcard : keys.card ≤ capacity) (k : κ) :
    ((accumulated capacity init ops).lookup k).getD init =
      (ops.filter (·.1 = k)).foldl (fun v op => op.2 v) init := by
  induction ops using List.reverseRecOn with
  | nil => rfl
  | append_singleton ops op ih =>
      have hbefore : ∀ o ∈ ops, o.1 ∈ keys := fun o ho => hops o (List.mem_append_left _ ho)
      have hop : op.1 ∈ keys := hops op (List.mem_append_right _ (List.mem_singleton_self op))
      have hroom : (accumulated capacity init ops).HasRoom op.1 :=
        hasRoom_of_subset (mem_of_isSome_accumulated hbefore hcard) hcard hop
      rw [accumulated_concat, lookup_accumulate hroom, List.filter_append, List.foldl_append,
        ← ih hbefore]
      by_cases heq : op.1 = k
      · simp [heq]
      · simp [heq, Ne.symm heq]

/-! ## Counting -/

variable {p : ν → Bool}

/-- The number of keys with a value that meets `p`. -/
def count (p : ν → Bool) (m : BoundedMap κ ν capacity) : ℕ :=
  m.table.entries.countP fun e => p e.2

/-- An insertion adds one value of a kind at most: the one it inserts. -/
theorem count_insert_le : (m.insert k v).count p ≤ m.count p + if p v then 1 else 0 := by
  by_cases hroom : m.HasRoom k
  · rw [BoundedMap.insert, dif_pos hroom, count, AList.entries_insert, List.countP_cons]
    exact Nat.add_le_add_right (List.kerase_sublist k _).countP_le _
  · rw [BoundedMap.insert, dif_neg hroom]
    exact Nat.le_add_right ..

/-- What is taken out of a map is no longer counted. -/
theorem count_delete (h : m.lookup k = some v) :
    (m.delete k).count p + (if p v then 1 else 0) = m.count p := by
  obtain ⟨v', l, r, -, hentries, herase⟩ :=
    List.exists_of_kerase (isSome_lookup.mp (Option.isSome_of_eq_some h))
  have hmem : (⟨k, v'⟩ : Sigma fun _ : κ => ν) ∈ m.table.entries := by
    rw [hentries]
    exact List.mem_append_right _ List.mem_cons_self
  have hv : v' = v := Option.some.inj ((List.mem_dlookup m.table.nodupKeys hmem).symm.trans h)
  have hdelete : (m.delete k).table.entries = l ++ r := herase
  rw [count, count, hdelete, hentries, List.countP_append, List.countP_append, List.countP_cons,
    hv, Nat.add_assoc]

/-- Entries of a map with different keys are no more than it has of their kind. -/
theorem countP_le_count {entries : List (κ × ν)} (hkeys : (entries.map Prod.fst).Nodup)
    (hfound : ∀ e ∈ entries, m.lookup e.1 = some e.2) :
    entries.countP (fun e => p e.2) ≤ m.count p := by
  induction entries generalizing m with
  | nil => exact Nat.zero_le _
  | cons e entries ih =>
      rw [List.map_cons, List.nodup_cons] at hkeys
      have hrest : ∀ e' ∈ entries, (m.delete e.1).lookup e'.1 = some e'.2 := by
        intro e' he'
        have hne : e'.1 ≠ e.1 := fun h => hkeys.1 (h ▸ List.mem_map_of_mem he')
        rw [lookup_delete, if_neg hne]
        exact hfound e' (List.mem_cons_of_mem _ he')
      rw [List.countP_cons, ← count_delete (hfound e List.mem_cons_self)]
      exact Nat.add_le_add_right (ih hkeys.2 hrest) _

end BoundedMap
