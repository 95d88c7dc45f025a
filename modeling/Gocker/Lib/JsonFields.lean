import Gocker.Lib.Json

/-!
# Reading an object into a structure

How `json.Unmarshal` fills a structure from the members of an object: names are
compared without case, unknown names are skipped, `null` leaves a field alone,
and a later member wins.

A structure type is described by the list of its fields, each with its name and
what a value for it does (`Field`).  `setField_getElem` is the rule its readers
use: where the names are told apart, a member with a field's name sets this field.
`setFields_zip` reads an object that has a member for every field.

### Names

`encoding/json` first looks for a field with exactly the name, and then for one that differs in
case only, with the folding of Unicode (`sameName`).  Where no two fields of a type differ in
case only (`Distinct`), the order of the two does not matter.
-/

namespace Json

variable {α : Type}

/-- The range of an `int`. -/
def isInt (n : Int) : Bool := -(2 ^ 63) ≤ n && n < 2 ^ 63

/-- A string for a field of this type. -/
def setText (set : String → α) (old : α) : Value → Option α
  | .str s => some (set s)
  | .null => some old
  | _ => none

/-- An `int` is read from an integer; minus zero is zero. -/
def setInt (set : Int → α) (old : α) : Value → Option α
  | .num n => if isInt n then some (set n) else none
  | .dec x => if x.text = ['-', '0'] then some (set 0) else none
  | .null => some old
  | _ => none

theorem setText_eq_some {set : String → α} {old r : α} {v : Value}
    (h : setText set old v = some r) : (∃ s, r = set s) ∨ r = old := by
  unfold setText at h
  split at h
  · exact .inl ⟨_, (Option.some.inj h).symm⟩
  · exact .inr (Option.some.inj h).symm
  · cases h

/-- What an integer field may become: it has the type's range. -/
theorem setInt_eq_some {set : Int → α} {old r : α} {v : Value} (h : setInt set old v = some r) :
    (∃ n, isInt n = true ∧ r = set n) ∨ r = old := by
  unfold setInt at h
  split at h
  · split_ifs at h with hn
    exact .inl ⟨_, hn, (Option.some.inj h).symm⟩
  · split_ifs at h
    exact .inl ⟨0, rfl, (Option.some.inj h).symm⟩
  · exact .inr (Option.some.inj h).symm
  · cases h

/-- A number without a sign, below the bound of its type: a fraction, an exponent and minus zero
are refused. -/
def setNat (bound : ℕ) (set : ℕ → α) (old : α) : Value → Option α
  | .num n => if 0 ≤ n ∧ n < bound then some (set n.toNat) else none
  | .null => some old
  | _ => none

/-- A setter that changes something else keeps what is observed. -/
theorem setNat_keeps {β : Type} {observe : α → β} {bound : ℕ} {set : ℕ → α} {old r : α}
    {v : Value} (hset : ∀ n, observe (set n) = observe old)
    (h : setNat bound set old v = some r) : observe r = observe old := by
  match v with
  | .num n =>
      simp only [setNat] at h
      split_ifs at h
      rw [← Option.some.inj h, hset]
  | .null => rw [← Option.some.inj h]
  | .dec _ => cases h
  | .bool _ => cases h
  | .str _ => cases h
  | .arr _ => cases h
  | .obj _ => cases h

/-- A Boolean for a field of this type. -/
def setBool (set : Bool → α) (old : α) : Value → Option α
  | .bool b => some (set b)
  | .null => some old
  | _ => none

/-- The elements of an array of strings; `null` is the empty string. -/
def texts : {k : Kind} → Node k → Option (List String)
  | _, .nil => some []
  | _, .cons (.str s) xs => (texts xs).map (s :: ·)
  | _, .cons .null xs => (texts xs).map ("" :: ·)
  | _, _ => none

/-- The array with the given strings as elements. -/
def ofTexts : List String → Node .elements
  | [] => .nil
  | s :: ss => .cons (.str s) (ofTexts ss)

/-- An array of strings is read as it was written. -/
@[simp] theorem texts_ofTexts (ss : List String) : texts (ofTexts ss) = some ss := by
  induction ss with
  | nil => rfl
  | cons s ss ih => simp [ofTexts, texts, ih]

/-- An array of strings; `null` is an empty one. -/
def setTexts (set : List String → α) : Value → Option α
  | .arr xs => (texts xs).map set
  | .null => some (set [])
  | _ => none

/-- A field with its name, and what a value for it does. -/
abbrev Field (α : Type) := String × (α → Value → Option α)

/-- A member sets the field with its name. -/
def setField (fields : List (Field α)) (r : α) (m : String × Value) : Option α :=
  match fields.find? (sameName ·.1 m.1) with
  | some (_, set) => set r m.2
  | none => some r

/-- The members one after the other, until one does not fit. -/
def setFields (fields : List (Field α)) (r : α) (ms : List (String × Value)) : Option α :=
  ms.foldlM (setField fields) r

/-- Read an object; `null` changes nothing. -/
def setObject (fields : List (Field α)) (r : α) : Value → Option α
  | .obj ms => setFields fields r ms.toList
  | .null => some r
  | _ => none

variable {fields : List (Field α)}

/-- First the one part of the members, then the other. -/
theorem setFields_append (r : α) (ms ms' : List (String × Value)) :
    setFields fields r (ms ++ ms') = (setFields fields r ms).bind (setFields fields · ms') :=
  List.foldlM_append ..

@[simp] theorem setObject_ofList (r : α) (ms : List (String × Value)) :
    setObject fields r (.obj (ofList ms)) = setFields fields r ms := by
  rw [setObject, toList_ofList]

/-- The names of the fields are told apart. -/
def Distinct (fields : List (Field α)) : Prop :=
  (fields.map Prod.fst).Pairwise fun a b => sameName a b = false

/-- A member with the name of a field sets this field. -/
theorem setField_getElem (h : Distinct fields) (i : ℕ) (hi : i < fields.length) (r : α)
    (v : Value) : setField fields r (fields[i].1, v) = fields[i].2 r v := by
  have found : fields.find? (sameName ·.1 fields[i].1) = some fields[i] := by
    rw [List.find?_eq_some_iff_getElem]
    refine ⟨by simp [sameName], i, hi, rfl, fun j hj => ?_⟩
    have hlen : i < (fields.map Prod.fst).length := by rwa [List.length_map]
    have hne := List.pairwise_iff_getElem.mp h j i (hj.trans hlen) hlen hj
    rw [List.getElem_map, List.getElem_map] at hne
    simp [hne]
  rw [setField, found]

/-- A member for each of these fields, with the given values. -/
def membersOf (fields : List (Field α)) (vs : List Value) : List (String × Value) :=
  List.zipWith (fun field v => (field.1, v)) fields vs

/-- The members of an object in the order of the fields set one field after the other. -/
theorem setFields_zip (h : Distinct fields) {part : List (Field α)} (hpart : part ⊆ fields)
    (vs : List Value) (r : α) :
    setFields fields r (membersOf part vs) =
      (part.zip vs).foldlM (fun r fv => fv.1.2 r fv.2) r := by
  induction part generalizing vs r with
  | nil => rfl
  | cons field part ih =>
      cases vs with
      | nil => rfl
      | cons v vs =>
          obtain ⟨i, hi, rfl⟩ := List.getElem_of_mem (hpart List.mem_cons_self)
          rw [membersOf, List.zipWith_cons_cons, setFields, List.foldlM_cons,
            setField_getElem h i hi, List.zip_cons_cons, List.foldlM_cons]
          refine bind_congr fun r' => ?_
          exact ih (fun field hfield => hpart (List.mem_cons_of_mem _ hfield)) vs r'

/-- What every field keeps holds in the end. -/
theorem setFields_invariant {I : α → Prop}
    (hfields : ∀ field ∈ fields, ∀ r v r', I r → field.2 r v = some r' → I r')
    {ms : List (String × Value)} {r r' : α} (hr : I r) (h : setFields fields r ms = some r') :
    I r' := by
  induction ms generalizing r with
  | nil =>
      obtain rfl : r = r' := Option.some.inj h
      exact hr
  | cons m ms ih =>
      obtain ⟨r₁, hfirst, hrest⟩ := Option.bind_eq_some_iff.mp h
      refine ih ?_ hrest
      rw [setField] at hfirst
      split at hfirst
      · next name set hfind =>
          exact hfields _ (List.mem_of_find?_eq_some hfind) r m.2 r₁ hr hfirst
      · obtain rfl : r = r₁ := Option.some.inj hfirst
        exact hr

/-- What only a member with this name changes is kept where there is none. -/
theorem setFields_frame {β : Type} {name : String} {observe : α → β}
    (hother : ∀ field ∈ fields, field.1 = name ∨
      ∀ r v r', field.2 r v = some r' → observe r' = observe r)
    {ms : List (String × Value)} (habsent : ∀ m ∈ ms, sameName name m.1 = false) {r r' : α}
    (h : setFields fields r ms = some r') : observe r' = observe r := by
  induction ms generalizing r with
  | nil =>
      obtain rfl : r = r' := Option.some.inj h
      rfl
  | cons m ms ih =>
      obtain ⟨r₁, hfirst, hrest⟩ := Option.bind_eq_some_iff.mp h
      rw [ih (fun m hm => habsent m (List.mem_cons_of_mem _ hm)) hrest]
      rw [setField] at hfirst
      cases hfind : fields.find? (sameName ·.1 m.1) with
      | none =>
          rw [hfind] at hfirst
          obtain rfl : r = r₁ := Option.some.inj hfirst
          rfl
      | some field =>
          rw [hfind] at hfirst
          rcases hother field (List.mem_of_find?_eq_some hfind) with hname | hkeeps
          · have hsame := List.find?_some hfind
            rw [hname, habsent m List.mem_cons_self] at hsame
            cases hsame
          · exact hkeeps _ _ _ hfirst

end Json
