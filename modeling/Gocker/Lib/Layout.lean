import Mathlib.Algebra.BigOperators.Group.List.Basic
import Mathlib.Algebra.GroupWithZero.Nat

/-!
# Structures of scalars as bytes

A structure type is the list of the sizes of its fields.  In memory each field stands at a
multiple of its size, and the whole is as long as a multiple of the largest one
(`offsets`, `size`); where that leaves gaps the structure has padding.  Packed, the fields
follow one another.  Numbers are little-endian.

`marshal` is the serialiser of a library that copies the memory of a structure without
padding and packs the others.  `overwrite` stores the fields of a structure in memory that
has been used before, and `unpack` reads packed fields.  Where there are no gaps between the
fields, what `overwrite` has stored is what `unpack` reads (`overwrite_of_noGaps`,
`unpackFields_packed`).

### Use

A writer in C and a reader in Go agree on a structure exactly if the gaps of the one are blank
fields of the other.  Where they do not, `unpack` of what was stored still gives something, and
the theorems say what: the bytes at the places where the reader looks, gaps included.
-/

namespace Layout

/-- The bytes of a memory. -/
abbrev Bytes := List UInt8

/-- The `w` bytes of a number. -/
def toBytes : ℕ → ℕ → Bytes
  | 0, _ => []
  | w + 1, n => UInt8.ofNat n :: toBytes w (n / 256)

/-- The number that some bytes stand for, the first being the least. -/
def ofBytes : Bytes → ℕ
  | [] => 0
  | b :: bs => b.toNat + 256 * ofBytes bs

@[simp] theorem length_toBytes (w n : ℕ) : (toBytes w n).length = w := by
  induction w generalizing n with
  | zero => rfl
  | succ w ih => rw [toBytes, List.length_cons, ih]

@[simp] theorem ofBytes_replicate_zero (w : ℕ) : ofBytes (List.replicate w 0) = 0 := by
  induction w with
  | zero => rfl
  | succ w ih => rw [List.replicate_succ, ofBytes, ih]; rfl

/-- Bytes are those of the number they stand for. -/
theorem toBytes_ofBytes (bs : Bytes) : toBytes bs.length (ofBytes bs) = bs := by
  induction bs with
  | nil => rfl
  | cons b bs ih =>
      have hlow : UInt8.ofNat (b.toNat + 256 * ofBytes bs) = b := by
        apply UInt8.toNat.inj
        rw [UInt8.toNat_ofNat', Nat.add_mul_mod_self_left, Nat.mod_eq_of_lt b.toNat_lt]
      have hhigh : (b.toNat + 256 * ofBytes bs) / 256 = ofBytes bs := by
        have := b.toNat_lt
        omega
      rw [List.length_cons, ofBytes, toBytes, hlow, hhigh, ih]

/-- A number that fits is what its bytes stand for. -/
theorem ofBytes_toBytes {w n : ℕ} (h : n < 256 ^ w) : ofBytes (toBytes w n) = n := by
  induction w generalizing n with
  | zero => exact (Nat.lt_one_iff.mp h).symm
  | succ w ih =>
      have hdiv : n / 256 < 256 ^ w := by
        rw [Nat.pow_succ] at h
        exact Nat.div_lt_of_lt_mul (by rwa [Nat.mul_comm])
      rw [toBytes, ofBytes, ih hdiv, UInt8.toNat_ofNat']
      exact Nat.mod_add_div n 256

theorem ofBytes_lt (bs : Bytes) : ofBytes bs < 256 ^ bs.length := by
  induction bs with
  | nil => exact Nat.one_pos
  | cons b bs ih =>
      have hb := b.toNat_lt
      rw [ofBytes, List.length_cons, Nat.pow_succ]
      omega

/-! ## Layout -/

/-- The first multiple of `a` from `n` on. -/
def alignUp (n a : ℕ) : ℕ := n + (a - n % a) % a

/-- Where the fields stand, the first one not before `pos`. -/
def offsetsFrom : ℕ → List ℕ → List ℕ
  | _, [] => []
  | pos, w :: ws => alignUp pos w :: offsetsFrom (alignUp pos w + w) ws

/-- Where the last field ends. -/
def endFrom : ℕ → List ℕ → ℕ
  | pos, [] => pos
  | pos, w :: ws => endFrom (alignUp pos w + w) ws

/-- Where the fields are in memory. -/
def offsets (ws : List ℕ) : List ℕ := offsetsFrom 0 ws

/-- The size of the structure in memory. -/
def size (ws : List ℕ) : ℕ := alignUp (endFrom 0 ws) (ws.foldr max 1)

/-- The size without gaps. -/
def packedSize (ws : List ℕ) : ℕ := ws.sum

/-! ## Reading and writing -/

/-- The fields one after the other. -/
def packed : List ℕ → List ℕ → Bytes
  | w :: ws, v :: vs => toBytes w v ++ packed ws vs
  | _, _ => []

/-- The fields in memory, with zeros in the gaps. -/
def memoryFrom : ℕ → List ℕ → List ℕ → Bytes
  | pos, w :: ws, v :: vs =>
      List.replicate (alignUp pos w - pos) 0 ++ toBytes w v ++
        memoryFrom (alignUp pos w + w) ws vs
  | _, _, _ => []

/-- A structure in memory that was zero before. -/
def memory (ws vs : List ℕ) : Bytes :=
  let fields := memoryFrom 0 ws vs
  fields ++ List.replicate (size ws - fields.length) 0

/-- The number at an offset. -/
def readAt (mem : Bytes) (offset w : ℕ) : ℕ := ofBytes ((mem.drop offset).take w)

/-- The values of the fields in memory. -/
def read (ws : List ℕ) (mem : Bytes) : List ℕ := List.zipWith (readAt mem) (offsets ws) ws

/-- The serialiser: the memory as it is where nothing is lost by it, else the fields one after
the other. -/
def marshal (ws vs : List ℕ) : Bytes :=
  if packedSize ws = size ws then memory ws vs else packed ws vs

/-- The memory from `pos` on after the fields have been stored in it, where `old` is what it
was: the gaps keep it. -/
def overwrite : ℕ → List ℕ → List ℕ → Bytes → Bytes
  | pos, w :: ws, v :: vs, old =>
      old.take (alignUp pos w - pos) ++ toBytes w v ++
        overwrite (alignUp pos w + w) ws vs (old.drop (alignUp pos w - pos + w))
  | _, _, _, old => old

/-- The values of fields that follow one another. -/
def unpackFields : List ℕ → Bytes → List ℕ
  | [], _ => []
  | w :: ws, bs => ofBytes (bs.take w) :: unpackFields ws (bs.drop w)

/-- What is too short is an error, and what is left over is not. -/
def unpack (ws : List ℕ) (bs : Bytes) : Option (List ℕ) :=
  if bs.length < packedSize ws then none else some (unpackFields ws bs)

theorem unpackFields_append {w : ℕ} {a : Bytes} (h : a.length = w) (ws : List ℕ) (bs : Bytes) :
    unpackFields (w :: ws) (a ++ bs) = ofBytes a :: unpackFields ws bs := by
  rw [unpackFields, List.take_left' h, List.drop_left' h]

theorem ofBytes_singleton (b : UInt8) : ofBytes [b] = b.toNat := by
  rw [ofBytes, ofBytes, Nat.mul_zero, Nat.add_zero]

/-- Single bytes are read as they are. -/
theorem unpackFields_replicate_one (a bs : Bytes) :
    unpackFields (List.replicate a.length 1) (a ++ bs) = a.map UInt8.toNat := by
  induction a with
  | nil => rfl
  | cons b a ih =>
      have hone : b :: a ++ bs = [b] ++ (a ++ bs) := rfl
      rw [List.length_cons, List.replicate_succ, hone,
        unpackFields_append (show [b].length = 1 from rfl), ih, ofBytes_singleton, List.map_cons]

/-- Single bytes are stored without gaps. -/
theorem overwrite_replicate_one (pos : ℕ) (a old : Bytes) :
    overwrite pos (List.replicate a.length 1) (a.map UInt8.toNat) old =
      a ++ old.drop a.length := by
  induction a generalizing pos old with
  | nil => rfl
  | cons b a ih =>
      have hpos : alignUp pos 1 - pos = 0 := by simp [alignUp, Nat.mod_one]
      have hbyte : toBytes 1 b.toNat = [b] := by simp [toBytes]
      rw [List.length_cons, List.replicate_succ, List.map_cons, overwrite, hpos, ih, hbyte,
        List.drop_drop, Nat.add_comm a.length]
      rfl

/-- The fields of `ws` from `pos` on follow one another as they are. -/
def NoGaps : ℕ → List ℕ → Prop
  | _, [] => True
  | pos, w :: ws => alignUp pos w = pos ∧ NoGaps (pos + w) ws

instance decidableNoGaps : ∀ (pos : ℕ) (ws : List ℕ), Decidable (NoGaps pos ws)
  | _, [] => isTrue trivial
  | pos, w :: ws =>
      haveI := decidableNoGaps (pos + w) ws
      inferInstanceAs (Decidable (_ ∧ _))

/-- Without gaps, what is stored are the packed fields. -/
theorem overwrite_of_noGaps {pos : ℕ} {ws vs : List ℕ} (hgaps : NoGaps pos ws)
    (hlength : ws.length = vs.length) (old : Bytes) :
    overwrite pos ws vs old = packed ws vs ++ old.drop (packedSize ws) := by
  induction ws generalizing pos vs old with
  | nil => rfl
  | cons w ws ih =>
      obtain ⟨hpos, hrest⟩ := hgaps
      cases vs with
      | nil => cases hlength
      | cons v vs =>
          have hsize : packedSize (w :: ws) = w + packedSize ws := List.sum_cons
          rw [overwrite, hpos, ih hrest (Nat.succ.inj hlength), packed, hsize, Nat.sub_self,
            Nat.zero_add, List.drop_drop, List.take_zero, List.nil_append, List.append_assoc]

/-- The fields that have been packed are read back, whatever follows them. -/
theorem unpackFields_packed {ws vs : List ℕ} (h : List.Forall₂ (fun w v => v < 256 ^ w) ws vs)
    (rest : List ℕ) (bs : Bytes) :
    unpackFields (ws ++ rest) (packed ws vs ++ bs) = vs ++ unpackFields rest bs := by
  induction h with
  | nil => rfl
  | @cons w v ws vs hfits _ ih =>
      rw [packed, List.append_assoc, List.cons_append,
        unpackFields_append (length_toBytes w v), ofBytes_toBytes hfits, ih, List.cons_append]

/-- Packed fields are as long as their sizes together. -/
theorem length_packed {ws vs : List ℕ} (h : ws.length = vs.length) :
    (packed ws vs).length = packedSize ws := by
  induction ws generalizing vs with
  | nil => rfl
  | cons w ws ih =>
      cases vs with
      | nil => cases h
      | cons v vs =>
          rw [packed, List.length_append, length_toBytes, ih (Nat.succ.inj h), packedSize,
            packedSize, List.sum_cons]

/-- A structure with padding is serialised to fewer bytes than it takes in memory. -/
theorem length_marshal_ne {ws vs : List ℕ} (h : ws.length = vs.length)
    (hpad : packedSize ws ≠ size ws) : (marshal ws vs).length ≠ size ws := by
  rw [marshal, if_neg hpad, length_packed h]
  exact hpad

theorem readAt_replicate_zero (n offset w : ℕ) : readAt (List.replicate n 0) offset w = 0 := by
  rw [readAt, List.drop_replicate, List.take_replicate, ofBytes_replicate_zero]

end Layout
