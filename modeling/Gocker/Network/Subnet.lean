import Gocker.Network.Specification

/-!
# The addresses of a subnet

The loop of `AllocateContainerIP` (`internal/network/ipam.go`) over the candidates of a subnet:
`nextIP` carries from byte to byte, and the loop ends where `Contains` says no.  Here the
subnet is any IPv4 network, and not only the configured one.

As numbers, `nextIP` adds one (`number_nextIP`), a network is a block of numbers
(`contains_iff_number`), and `broadcastIP` is the last one of it (`number_broadcastIP`).
`scan_enumerates` puts them together.

### Around the end

`nextIP` has no bound: after 255.255.255.255 comes 0.0.0.0.  For a network that ends there the
loop still stops, since the address around the end is not in the network.  Only the prefix of
length 0 has no address outside.
-/

namespace Gocker.Network

open NetIP

/-! ## Addresses as numbers -/

theorem number_foldl (bs : IP) (init : ℕ) :
    bs.foldl (fun n b => 256 * n + b.toNat) init = init * 256 ^ bs.length + number bs := by
  induction bs generalizing init with
  | nil => simp [number]
  | cons b bs ih =>
      have hhead : number (b :: bs) = bs.foldl (fun n b => 256 * n + b.toNat) (256 * 0 + b.toNat) :=
        rfl
      rw [List.foldl_cons, ih, hhead, ih, List.length_cons, Nat.pow_succ]
      ring

theorem number_cons (b : UInt8) (bs : IP) :
    number (b :: bs) = b.toNat * 256 ^ bs.length + number bs := by
  show bs.foldl _ (256 * 0 + b.toNat) = _
  rw [number_foldl, Nat.mul_zero, Nat.zero_add]

theorem number_lt (ip : IP) : number ip < 256 ^ ip.length := by
  induction ip with
  | nil => exact Nat.one_pos
  | cons b bs ih =>
      have hb := b.toNat_lt
      rw [number_cons, List.length_cons, Nat.pow_succ]
      nlinarith

/-- Addresses of one length are told apart by their numbers. -/
theorem number_inj {a b : IP} (hlength : a.length = b.length) (h : number a = number b) :
    a = b := by
  induction a generalizing b with
  | nil => exact (List.length_eq_zero_iff.mp hlength.symm).symm
  | cons x xs ih =>
      cases b with
      | nil => cases hlength
      | cons y ys =>
          have hrest : xs.length = ys.length := Nat.succ.inj hlength
          have hx := number_lt xs
          have hy := number_lt ys
          rw [number_cons, number_cons, hrest] at h
          rw [hrest] at hx
          have hpos : 0 < 256 ^ ys.length := Nat.pow_pos (by decide)
          have hhead : x.toNat = y.toNat := by
            have hdiv := congrArg (· / 256 ^ ys.length) h
            simpa [Nat.add_div_of_dvd_right, Nat.div_eq_of_lt hx, Nat.div_eq_of_lt hy, hpos,
              Nat.mul_add_div, Nat.mul_comm] using hdiv
          rw [hhead] at h
          rw [UInt8.toNat_inj.mp hhead, ih hrest (Nat.add_left_cancel h)]

/-! ## The carry -/

/-- The carry goes from the last byte to the first. -/
theorem increment_cons (b : UInt8) (bs : IP) :
    increment (b :: bs) =
      if (increment bs).2 then ((b + 1) :: (increment bs).1, b + 1 == 0)
      else (b :: (increment bs).1, false) := rfl

theorem length_increment (ip : IP) : (increment ip).1.length = ip.length := by
  induction ip with
  | nil => rfl
  | cons b bs ih =>
      rw [increment_cons]
      split_ifs
      · rw [List.length_cons, List.length_cons, ih]
      · rw [List.length_cons, List.length_cons, ih]

/-- The bytes and the carry together are one more. -/
theorem number_increment (ip : IP) :
    number (increment ip).1 + (if (increment ip).2 then 256 ^ ip.length else 0) =
      number ip + 1 := by
  induction ip with
  | nil => rfl
  | cons b bs ih =>
      rw [increment_cons, number_cons b bs]
      cases hcarry : (increment bs).2 with
      | false =>
          rw [hcarry] at ih
          simp only [Bool.false_eq_true, if_false, Nat.add_zero, number_cons,
            length_increment] at ih ⊢
          rw [ih, Nat.add_assoc]
      | true =>
          rw [hcarry] at ih
          simp only [if_true, number_cons, length_increment, beq_iff_eq] at ih ⊢
          -- the byte takes the carry, and hands it on if it wraps
          by_cases hwrap : b + 1 = 0
          · have hb : b.toNat = 255 := by
              have h := congrArg UInt8.toNat hwrap
              rw [UInt8.toNat_add] at h
              have hlt := b.toNat_lt
              have hone : (1 : UInt8).toNat = 1 := rfl
              have hzero : (0 : UInt8).toNat = 0 := rfl
              omega
            rw [if_pos hwrap, hwrap, hb, List.length_cons, Nat.pow_succ]
            show 0 * _ + _ + _ = _
            omega
          · have hb : (b + 1).toNat = b.toNat + 1 := by
              rw [UInt8.toNat_add]
              have hlt := b.toNat_lt
              have hone : (1 : UInt8).toNat = 1 := rfl
              have hne : b.toNat + 1 ≠ 256 := by
                intro h
                apply hwrap
                apply UInt8.toNat_inj.mp
                rw [UInt8.toNat_add, hone, h]
                rfl
              omega
            rw [if_neg hwrap, hb, Nat.add_mul, Nat.one_mul]
            omega

/-- **`nextIP` adds one**, and the last address of all is followed by the first. -/
theorem number_nextIP (ip : IP) : number (nextIP ip) = (number ip + 1) % 256 ^ ip.length := by
  have hsum := number_increment ip
  have hlt : number (increment ip).1 < 256 ^ ip.length := by
    have h := number_lt (increment ip).1
    rwa [length_increment] at h
  rw [nextIP, ← hsum]
  split_ifs
  · rw [Nat.add_mod_right, Nat.mod_eq_of_lt hlt]
  · rw [Nat.add_zero, Nat.mod_eq_of_lt hlt]

theorem length_nextIP (ip : IP) : (nextIP ip).length = ip.length := length_increment ip

theorem length_iterate_nextIP (i : ℕ) (ip : IP) : (nextIP^[i] ip).length = ip.length := by
  induction i generalizing ip with
  | zero => rfl
  | succ i ih => rw [Function.iterate_succ_apply, ih, length_nextIP]

/-- After `i` steps the number is larger by `i`, around the end. -/
theorem number_iterate_nextIP (i : ℕ) (ip : IP) :
    number (nextIP^[i] ip) = (number ip + i) % 256 ^ ip.length := by
  induction i with
  | zero => exact (Nat.mod_eq_of_lt (number_lt ip)).symm
  | succ i ih =>
      rw [Function.iterate_succ_apply', number_nextIP, length_iterate_nextIP, ih, Nat.mod_add_mod,
        Nat.add_assoc]

/-! ## Masks -/

/-- The last byte of a mask that is not full, on both of its uses. -/
theorem mask_byte (b : UInt8) {ones : ℕ} (h : ones < 8) :
    (b &&& ~~~((0xff : UInt8) >>> UInt8.ofNat ones)).toNat =
        b.toNat / 2 ^ (8 - ones) * 2 ^ (8 - ones) ∧
      (b ||| ~~~(~~~((0xff : UInt8) >>> UInt8.ofNat ones))).toNat =
        b.toNat / 2 ^ (8 - ones) * 2 ^ (8 - ones) + (2 ^ (8 - ones) - 1) := by
  have hall : ∀ (b : Fin 256) (ones : Fin 8),
      (UInt8.ofFin b &&& ~~~((0xff : UInt8) >>> UInt8.ofNat ones)).toNat =
          b / 2 ^ (8 - ones.val) * 2 ^ (8 - ones.val) ∧
        (UInt8.ofFin b ||| ~~~(~~~((0xff : UInt8) >>> UInt8.ofNat ones))).toNat =
          b / 2 ^ (8 - ones.val) * 2 ^ (8 - ones.val) + (2 ^ (8 - ones.val) - 1) := by
    decide +kernel
  exact hall b.toFin ⟨ones, h⟩

theorem cidrMask_zero (len : ℕ) : cidrMask 0 len = List.replicate len 0 := by
  induction len with
  | zero => rfl
  | succ len ih => rw [cidrMask, if_neg (by decide), ih]; rfl

/-- Rounding down a number below a byte. -/
theorem round_low {k len : ℕ} (hk : k ≤ 8 * len) (b n : ℕ) :
    (b * 256 ^ len + n) / 2 ^ k * 2 ^ k = b * 256 ^ len + n / 2 ^ k * 2 ^ k := by
  have hdvd : 2 ^ k ∣ b * 256 ^ len := by
    have h256 : (256 : ℕ) ^ len = 2 ^ (8 * len) := by rw [Nat.pow_mul]
    rw [h256]
    exact Dvd.dvd.mul_left (Nat.pow_dvd_pow 2 hk) b
  rw [Nat.add_div_of_dvd_right hdvd, Nat.add_mul, Nat.div_mul_cancel hdvd]

/-- Rounding down at a bit of the first byte clears the other bytes. -/
theorem round_high {j len : ℕ} {n : ℕ} (hn : n < 256 ^ len) (b : ℕ) :
    (b * 256 ^ len + n) / 2 ^ (8 * len + j) * 2 ^ (8 * len + j) =
      b / 2 ^ j * 2 ^ j * 256 ^ len := by
  have h256 : (256 : ℕ) ^ len = 2 ^ (8 * len) := by rw [Nat.pow_mul]
  have hdiv : (b * 256 ^ len + n) / 256 ^ len = b := by
    rw [Nat.mul_comm, Nat.mul_add_div (Nat.pow_pos (by decide)), Nat.div_eq_of_lt hn, Nat.add_zero]
  rw [Nat.pow_add, ← h256, ← Nat.div_div_eq_div_mul, hdiv]
  ring

theorem number_replicate_zero (len : ℕ) : number (List.replicate len 0) = 0 := by
  induction len with
  | zero => rfl
  | succ len ih =>
      rw [List.replicate_succ, number_cons, ih]
      simp

theorem number_replicate_last (len : ℕ) : number (List.replicate len 255) = 256 ^ len - 1 := by
  induction len with
  | zero => rfl
  | succ len ih =>
      have hpos : 0 < 256 ^ len := Nat.pow_pos (by decide)
      have hlast : (255 : UInt8).toNat = 255 := rfl
      rw [List.replicate_succ, number_cons, ih, List.length_replicate, hlast, Nat.pow_succ]
      omega

theorem length_cidrMask (ones len : ℕ) : (cidrMask ones len).length = len := by
  induction len generalizing ones with
  | zero => rfl
  | succ len ih =>
      rw [cidrMask]
      split_ifs
      · rw [List.length_cons, ih]
      · rw [List.length_cons, ih]

/-- A function with the same second argument throughout. -/
theorem zipWith_replicate {α β γ : Type} (f : α → β → γ) (l : List α) (b : β) :
    List.zipWith f l (List.replicate l.length b) = l.map fun a => f a b := by
  induction l with
  | nil => rfl
  | cons a l ih =>
      rw [List.length_cons, List.replicate_succ, List.zipWith_cons_cons, ih, List.map_cons]

/-- The masked address is the first one of its block. -/
theorem number_masked (ip : IP) {ones : ℕ} (h : ones ≤ 8 * ip.length) :
    number (List.zipWith (· &&& ·) ip (cidrMask ones ip.length)) =
      number ip / 2 ^ (8 * ip.length - ones) * 2 ^ (8 * ip.length - ones) := by
  induction ip generalizing ones with
  | nil => simp [number, cidrMask]
  | cons b bs ih =>
      rw [List.length_cons] at h ⊢
      rw [cidrMask]
      split_ifs with hfull
      · have hlen : 8 * (bs.length + 1) - ones = 8 * bs.length - (ones - 8) := by omega
        rw [List.zipWith_cons_cons, number_cons, number_cons, ih (by omega), hlen,
          round_low (by omega), List.length_zipWith, length_cidrMask, Nat.min_self]
        have hbyte : b &&& 0xff = b := UInt8.and_neg_one
        rw [hbyte]
      · have hlen : 8 * (bs.length + 1) - ones = 8 * bs.length + (8 - ones) := by omega
        rw [cidrMask_zero, List.zipWith_cons_cons, number_cons, number_cons, hlen,
          round_high (number_lt bs), (mask_byte b (Nat.not_le.mp hfull)).1]
        have hzero : List.zipWith (· &&& ·) bs (List.replicate bs.length 0) =
            List.replicate bs.length 0 := by
          simp [zipWith_replicate]
        rw [hzero, number_replicate_zero, List.length_replicate, Nat.add_zero]

/-- With the bits of the host set it is the last one. -/
theorem number_lastOf (ip : IP) {ones : ℕ} (h : ones ≤ 8 * ip.length) :
    number (List.zipWith (fun b m => b ||| ~~~m) ip (cidrMask ones ip.length)) =
      number ip / 2 ^ (8 * ip.length - ones) * 2 ^ (8 * ip.length - ones) +
        (2 ^ (8 * ip.length - ones) - 1) := by
  induction ip generalizing ones with
  | nil => simp [number, cidrMask]
  | cons b bs ih =>
      rw [List.length_cons] at h ⊢
      rw [cidrMask]
      split_ifs with hfull
      · have hlen : 8 * (bs.length + 1) - ones = 8 * bs.length - (ones - 8) := by omega
        have hbyte : b ||| ~~~0xff = b := UInt8.or_zero
        rw [List.zipWith_cons_cons, number_cons, number_cons, ih (by omega), hlen,
          round_low (by omega), List.length_zipWith, length_cidrMask, Nat.min_self, hbyte,
          Nat.add_assoc]
      · have hlen : 8 * (bs.length + 1) - ones = 8 * bs.length + (8 - ones) := by omega
        have hones : List.zipWith (fun b m => b ||| ~~~m) bs (List.replicate bs.length 0) =
            List.replicate bs.length 255 := by
          have hall : (fun b : UInt8 => b ||| ~~~0) = fun _ => 255 := by
            funext b
            exact UInt8.or_neg_one
          rw [zipWith_replicate, hall, List.map_const']
        have h256 : (256 : ℕ) ^ bs.length = 2 ^ (8 * bs.length) := by rw [Nat.pow_mul]
        have hpos : 0 < 2 ^ (8 * bs.length) := Nat.two_pow_pos _
        have hpos' : 0 < 2 ^ (8 - ones) := Nat.two_pow_pos _
        rw [cidrMask_zero, List.zipWith_cons_cons, number_cons, number_cons, hlen,
          round_high (number_lt bs), (mask_byte b (Nat.not_le.mp hfull)).2, hones,
          number_replicate_last, List.length_replicate, h256, Nat.pow_add, Nat.add_mul,
          Nat.sub_mul, Nat.one_mul]
        have hle : 2 ^ (8 * bs.length) ≤ 2 ^ (8 - ones) * 2 ^ (8 * bs.length) :=
          Nat.le_mul_of_pos_left _ hpos'
        rw [Nat.mul_comm (2 ^ (8 * bs.length)) (2 ^ (8 - ones))]
        omega
/-! ## A network -/

/-- The network of an address and the length of a prefix. -/
def networkOf (addr : Vector UInt8 4) (ones : ℕ) : IPNet where
  ip := List.zipWith (· &&& ·) addr.toList (cidrMask ones 4)
  mask := cidrMask ones 4

section
variable {addr : Vector UInt8 4} {ones : ℕ}

/-- A mask of the length of the address is applied to it byte by byte, although the address is
in its long form. -/
theorem maskWith_as16 {ip : IP} {mask : List UInt8} (h : mask.length = ip.length) :
    maskWith (as16 ip) mask = some (List.zipWith (· &&& ·) ip mask) := by
  have hprefix : v4InV6Prefix.length = 12 := rfl
  by_cases h4 : ip.length = 4
  · have hlong : (as16 ip).length = 16 := by
      rw [as16, if_pos h4, List.length_append, hprefix, h4]
    have htake : (as16 ip).take 12 = v4InV6Prefix := by
      rw [as16, if_pos h4, List.take_left' hprefix]
    have hdrop : (as16 ip).drop 12 = ip := by
      rw [as16, if_pos h4, List.drop_left' hprefix]
    simp [maskWith, h, h4, hlong, htake, hdrop]
  · simp [maskWith, as16, h, h4]

/-- The IPv4 networks that `net.ParseCIDR` returns are these. -/
theorem networkOf_of_parseCIDR {text : String} {self : IP} {net : IPNet}
    (h : parseCIDR text = some (self, net)) (hnet : net.ip.length = 4) :
    ∃ addr ones, ones ≤ 32 ∧ net = networkOf addr ones := by
  unfold parseCIDR at h
  simp only at h
  split at h
  · obtain ⟨ip, -, hip⟩ := Option.bind_eq_some_iff.mp h
    split_ifs at hip with hrefused
    obtain ⟨masked, hmasked, hresult⟩ := Option.map_eq_some_iff.mp hip
    obtain ⟨-, rfl⟩ := Prod.mk.inj hresult
    rw [not_or, not_or, Nat.not_lt] at hrefused
    rw [maskWith_as16 (length_cidrMask _ _)] at hmasked
    obtain rfl := Option.some.inj hmasked
    have h4 : ip.length = 4 := by
      rwa [List.length_zipWith, length_cidrMask, Nat.min_self] at hnet
    rw [h4] at hrefused ⊢
    exact ⟨⟨ip.toArray, h4⟩, _, hrefused.2.2, rfl⟩
  · cases h

theorem networkOf_isV4 (addr : Vector UInt8 4) (ones : ℕ) : (networkOf addr ones).IsV4 := by
  have hmask : (cidrMask ones 4).length = 4 := length_cidrMask ones 4
  refine ⟨?_, hmask⟩
  show (List.zipWith _ addr.toList (cidrMask ones 4)).length = 4
  rw [List.length_zipWith, hmask, addr.length_toList, Nat.min_self]

/-- The part of a number that a network fixes. -/
theorem number_masked_ip (hones : ones ≤ 32) {ip : IP} (h : ip.length = 4) :
    number (List.zipWith (· &&& ·) ip (cidrMask ones 4)) =
      number ip / 2 ^ (32 - ones) * 2 ^ (32 - ones) := by
  have hmasked := number_masked ip (show ones ≤ 8 * ip.length by rw [h]; exact hones)
  rwa [h] at hmasked

/-- **A network is a block of numbers.** -/
theorem contains_iff_number (hones : ones ≤ 32) {ip : IP} (h : ip.length = 4) :
    (networkOf addr ones).contains ip = true ↔
      number ip / 2 ^ (32 - ones) = number addr.toList / 2 ^ (32 - ones) := by
  have hv4 := networkOf_isV4 addr ones
  have hpos : 0 < 2 ^ (32 - ones) := Nat.two_pow_pos _
  have hnumber := number_masked_ip hones addr.length_toList
  have hself := number_masked_ip hones hv4.1
  have hother := number_masked_ip hones h
  have hip : number (networkOf addr ones).ip =
      number addr.toList / 2 ^ (32 - ones) * 2 ^ (32 - ones) := hnumber
  rw [hip, Nat.mul_div_cancel _ hpos] at hself
  rw [hv4.contains_iff h]
  constructor
  · intro heq
    have hsame := congrArg number heq
    rw [show (networkOf addr ones).mask = cidrMask ones 4 from rfl, hself, hother] at hsame
    exact (Nat.eq_of_mul_eq_mul_right hpos hsame).symm
  · intro heq
    apply number_inj
    · rw [List.length_zipWith, List.length_zipWith, hv4.1, h]
    · rw [show (networkOf addr ones).mask = cidrMask ones 4 from rfl, hself, hother, heq]

theorem number_networkOf (addr : Vector UInt8 4) (hones : ones ≤ 32) :
    number (networkOf addr ones).ip =
      number addr.toList / 2 ^ (32 - ones) * 2 ^ (32 - ones) :=
  number_masked_ip hones addr.length_toList

/-- **The broadcast address is the last number of the block.** -/
theorem number_broadcastIP (addr : Vector UInt8 4) (hones : ones ≤ 32) :
    number (broadcastIP (networkOf addr ones)) =
      number (networkOf addr ones).ip + (2 ^ (32 - ones) - 1) := by
  have hv4 := networkOf_isV4 addr ones
  have hlast := number_lastOf (networkOf addr ones).ip
    (show ones ≤ 8 * (networkOf addr ones).ip.length by rw [hv4.1]; exact hones)
  rw [hv4.1] at hlast
  have hblock : number (networkOf addr ones).ip / 2 ^ (32 - ones) * 2 ^ (32 - ones) =
      number (networkOf addr ones).ip := by
    rw [number_networkOf addr hones, Nat.mul_div_cancel _ (Nat.two_pow_pos _)]
  rwa [hblock] at hlast

theorem length_broadcastIP : (broadcastIP (networkOf addr ones)).length = 4 := by
  have hv4 := networkOf_isV4 addr ones
  rw [broadcastIP, List.length_zipWith, hv4.1, hv4.2, Nat.min_self]

/-- An address is in the network if its number is in the block. -/
theorem contains_iff_range (hones : ones ≤ 32) {ip : IP} (h : ip.length = 4) :
    (networkOf addr ones).contains ip = true ↔
      number (networkOf addr ones).ip ≤ number ip ∧
        number ip ≤ number (broadcastIP (networkOf addr ones)) := by
  have hpos : 0 < 2 ^ (32 - ones) := Nat.two_pow_pos _
  rw [contains_iff_number hones h, number_broadcastIP addr hones, number_networkOf addr hones,
    Nat.div_eq_iff hpos]
  omega

end

/-! ## The loop -/

/-- The candidates of the loop of `AllocateContainerIP` that finds none of them free, cut off
after `fuel` of them. -/
def candidatesFrom (net : IPNet) : ℕ → IP → List IP
  | 0, _ => []
  | fuel + 1, candidate =>
      if net.contains candidate then candidate :: candidatesFrom net fuel (nextIP candidate)
      else []

/-- The scan gives the first candidate that it does not pass over. -/
theorem scanFrom_eq_find {net : IPNet} {reserved : List String} {m : ContainerToIP}
    (fuel : ℕ) (candidate : IP) :
    scanFrom net reserved m fuel candidate =
      ((candidatesFrom net fuel candidate).find? fun ip =>
        ¬ equal ip (broadcastIP net) ∧ ipString ip ∉ reserved ∧ ¬ Used m (ipString ip)).map
          ipString := by
  induction fuel generalizing candidate with
  | zero => rfl
  | succ fuel ih =>
      rw [scanFrom, candidatesFrom]
      by_cases hin : net.contains candidate = true
      · rw [if_pos hin, if_pos hin, ih, List.find?_cons]
        by_cases hbroadcast : equal candidate (broadcastIP net) = true
        · simp [hbroadcast]
        · by_cases hreserved : ipString candidate ∈ reserved
          · simp [hreserved]
          · by_cases hused : Used m (ipString candidate)
            · simp [hused]
            · simp [hbroadcast, hreserved, hused]
      · rw [if_neg hin, if_neg hin]
        rfl

/-- The loop ends where the subnet does. -/
theorem candidatesFrom_eq {net : IPNet} {n fuel : ℕ} {candidate : IP}
    (hin : ∀ i < n, net.contains (nextIP^[i] candidate) = true)
    (hout : net.contains (nextIP^[n] candidate) = false) (hfuel : n < fuel) :
    candidatesFrom net fuel candidate = (List.range n).map fun i => nextIP^[i] candidate := by
  induction n generalizing fuel candidate with
  | zero =>
      cases fuel with
      | zero => exact absurd hfuel (Nat.lt_irrefl 0)
      | succ fuel =>
          have hend : ¬ net.contains candidate = true := by
            rw [show net.contains candidate = false from hout]
            exact Bool.false_ne_true
          rw [candidatesFrom, if_neg hend]
          rfl
  | succ n ih =>
      cases fuel with
      | zero => exact absurd hfuel (Nat.not_lt_zero _)
      | succ fuel =>
          have hhere : net.contains candidate = true := hin 0 (Nat.succ_pos n)
          have hrest := ih (fun i hi => hin (i + 1) (Nat.succ_lt_succ hi)) hout
            (Nat.lt_of_succ_lt_succ hfuel)
          rw [candidatesFrom, if_pos hhere, hrest, List.range_succ_eq_map, List.map_cons,
            List.map_map]
          rfl

/-- All addresses of a network other than its own, each once and in ascending order. -/
structure Enumerates (net : IPNet) (visited : List IP) : Prop where
  mem_iff : ∀ ip, ip ∈ visited ↔ ip.length = 4 ∧ net.contains ip = true ∧ ip ≠ net.ip
  ascending : visited.Pairwise fun a b => number a < number b

section
variable {addr : Vector UInt8 4} {ones : ℕ}

/-- A block of numbers lies within the IPv4 addresses. -/
theorem block_le (addr : Vector UInt8 4) (hones : ones ≤ 32) :
    number (networkOf addr ones).ip + 2 ^ (32 - ones) ≤ 2 ^ 32 := by
  have hsplit : 2 ^ 32 = 2 ^ ones * 2 ^ (32 - ones) := by
    rw [← Nat.pow_add, Nat.add_sub_cancel' hones]
  have haddr : number addr.toList < 2 ^ 32 := by
    have h := number_lt addr.toList
    rwa [addr.length_toList] at h
  have hquot : number addr.toList / 2 ^ (32 - ones) + 1 ≤ 2 ^ ones := by
    rw [Nat.succ_le_iff, Nat.div_lt_iff_lt_mul (Nat.two_pow_pos _), ← hsplit]
    exact haddr
  calc
    number (networkOf addr ones).ip + 2 ^ (32 - ones) =
        (number addr.toList / 2 ^ (32 - ones) + 1) * 2 ^ (32 - ones) := by
      rw [number_networkOf addr hones, Nat.add_mul, Nat.one_mul]
    _ ≤ 2 ^ ones * 2 ^ (32 - ones) := Nat.mul_le_mul_right _ hquot
    _ = 2 ^ 32 := hsplit.symm

/-- The number of a candidate. -/
theorem number_candidate (i : ℕ) :
    number (nextIP^[i] (nextIP (networkOf addr ones).ip)) =
      (number (networkOf addr ones).ip + (i + 1)) % 2 ^ 32 := by
  have h := number_iterate_nextIP (i + 1) (networkOf addr ones).ip
  rwa [(networkOf_isV4 addr ones).1] at h

theorem length_candidate (i : ℕ) :
    (nextIP^[i] (nextIP (networkOf addr ones).ip)).length = 4 := by
  rw [length_iterate_nextIP, length_nextIP, (networkOf_isV4 addr ones).1]

/-- Before the end of the block, there is no carry out of the address. -/
theorem number_candidate_of_lt (addr : Vector UInt8 4) (hones : ones ≤ 32) {i : ℕ}
    (hi : i < 2 ^ (32 - ones) - 1) :
    number (nextIP^[i] (nextIP (networkOf addr ones).ip)) =
      number (networkOf addr ones).ip + (i + 1) := by
  have hblock := block_le addr hones
  rw [number_candidate, Nat.mod_eq_of_lt (by omega)]

/-- The candidate after the last address is outside, also where it wraps to zero. -/
theorem candidate_outside (hpos : 1 ≤ ones) (hones : ones ≤ 32) :
    (networkOf addr ones).contains
      (nextIP^[2 ^ (32 - ones) - 1] (nextIP (networkOf addr ones).ip)) = false := by
  have hblock := block_le addr hones
  have hsize : 0 < 2 ^ (32 - ones) := Nat.two_pow_pos _
  have hhalf : 2 ^ (32 - ones) ≤ 2 ^ 31 := Nat.pow_le_pow_right (by decide) (by omega)
  rw [Bool.eq_false_iff, Ne, contains_iff_range hones (length_candidate _), number_candidate,
    number_broadcastIP addr hones, Nat.sub_add_cancel hsize]
  rintro ⟨hlow, hhigh⟩
  rcases Nat.lt_or_eq_of_le hblock with hlt | heq
  · rw [Nat.mod_eq_of_lt hlt] at hhigh
    omega
  · rw [heq, Nat.mod_self] at hlow
    omega

/-- The candidates up to the last one in the subnet. -/
def candidates (addr : Vector UInt8 4) (ones : ℕ) : List IP :=
  (List.range (2 ^ (32 - ones) - 1)).map fun i => nextIP^[i] (nextIP (networkOf addr ones).ip)

theorem length_candidates : (candidates addr ones).length = 2 ^ (32 - ones) - 1 := by
  rw [candidates, List.length_map, List.length_range]

theorem candidate_inside (hones : ones ≤ 32) {i : ℕ} (hi : i < 2 ^ (32 - ones) - 1) :
    (networkOf addr ones).contains (nextIP^[i] (nextIP (networkOf addr ones).ip)) = true := by
  rw [contains_iff_range hones (length_candidate i), number_candidate_of_lt addr hones hi,
    number_broadcastIP addr hones]
  omega

/-- The loop goes through them, from the second address of the block to the last. -/
theorem enumerates_candidates (hones : ones ≤ 32) :
    Enumerates (networkOf addr ones) (candidates addr ones) := by
  have hv4 := networkOf_isV4 addr ones
  refine ⟨fun ip => ?_, ?_⟩
  · rw [candidates, List.mem_map]
    constructor
    · rintro ⟨i, hi, rfl⟩
      have hlt := List.mem_range.mp hi
      refine ⟨length_candidate i, candidate_inside hones hlt, fun heq => ?_⟩
      have hnumber := number_candidate_of_lt addr hones hlt
      rw [heq] at hnumber
      omega
    · rintro ⟨hlength, hin, hne⟩
      rw [contains_iff_range hones hlength, number_broadcastIP addr hones] at hin
      have hne' : number ip ≠ number (networkOf addr ones).ip :=
        fun h => hne (number_inj (hlength.trans hv4.1.symm) h)
      -- the place of an address is told by its number
      have hi : number ip - number (networkOf addr ones).ip - 1 < 2 ^ (32 - ones) - 1 := by omega
      refine ⟨_, List.mem_range.mpr hi, ?_⟩
      apply number_inj ((length_candidate _).trans hlength.symm)
      rw [number_candidate_of_lt addr hones hi]
      omega
  · rw [candidates, List.pairwise_map]
    refine List.pairwise_lt_range.imp_of_mem fun {i j} hi hj hlt => ?_
    rw [number_candidate_of_lt addr hones (List.mem_range.mp hi),
      number_candidate_of_lt addr hones (List.mem_range.mp hj)]
    omega

/-- The last one is the broadcast address, which is reserved. -/
theorem getLast_candidates (hones : ones ≤ 32)
    (hne : broadcastIP (networkOf addr ones) ≠ (networkOf addr ones).ip) :
    (candidates addr ones).getLast? = some (broadcastIP (networkOf addr ones)) := by
  have hv4 := networkOf_isV4 addr ones
  have hbroadcast := number_broadcastIP addr hones
  obtain ⟨n, hn⟩ : ∃ n, 2 ^ (32 - ones) - 1 = n + 1 := by
    apply Nat.exists_eq_succ_of_ne_zero
    intro hzero
    rw [hzero, Nat.add_zero] at hbroadcast
    exact hne (number_inj (length_broadcastIP.trans hv4.1.symm) hbroadcast)
  rw [candidates, hn, List.range_succ, List.map_append, List.map_singleton,
    List.getLast?_concat]
  congr 1
  apply number_inj ((length_candidate n).trans length_broadcastIP.symm)
  rw [number_candidate_of_lt addr hones (by omega), hbroadcast, hn]

/-- **The scan enumerates the subnet**, for every prefix length from 1 to 32: the loop ends
within the bound of `scan`, visits every address other than the network's once and in
ascending order, and last the broadcast address, which is the largest one. -/
theorem scan_enumerates (addr : Vector UInt8 4) (ones : ℕ) (hpos : 1 ≤ ones) (hones : ones ≤ 32) :
    (∃ visited : List IP,
        visited.length < 256 ^ (networkOf addr ones).ip.length ∧
        (∀ fuel, visited.length < fuel →
          candidatesFrom (networkOf addr ones) fuel (nextIP (networkOf addr ones).ip) = visited) ∧
        Enumerates (networkOf addr ones) visited ∧
        (broadcastIP (networkOf addr ones) ≠ (networkOf addr ones).ip →
          visited.getLast? = some (broadcastIP (networkOf addr ones)))) ∧
      (networkOf addr ones).contains (broadcastIP (networkOf addr ones)) = true ∧
      ∀ ip, ip.length = 4 → (networkOf addr ones).contains ip = true →
        number ip ≤ number (broadcastIP (networkOf addr ones)) := by
  have hv4 := networkOf_isV4 addr ones
  refine ⟨⟨candidates addr ones, ?_, ?_, enumerates_candidates hones,
    getLast_candidates hones⟩, ?_, ?_⟩
  · have hblock := block_le addr hones
    have hsize : 0 < 2 ^ (32 - ones) := Nat.two_pow_pos _
    rw [hv4.1, length_candidates]
    omega
  · intro fuel hfuel
    rw [length_candidates] at hfuel
    exact candidatesFrom_eq (fun i hi => candidate_inside hones hi)
      (candidate_outside hpos hones) hfuel
  · rw [contains_iff_range hones length_broadcastIP, number_broadcastIP addr hones]
    exact ⟨Nat.le_add_right .., Nat.le_refl _⟩
  · intro ip hlength hin
    exact ((contains_iff_range hones hlength).mp hin).2

/-- The last four addresses of all: after the broadcast address the next one is `0.0.0.0`. -/
theorem scan_enumerates_last :
    let net := networkOf #v[255, 255, 255, 255] 30
    net.ip = [255, 255, 255, 252] ∧ nextIP (broadcastIP net) = [0, 0, 0, 0] ∧
      candidatesFrom net 256 (nextIP net.ip) =
        [[255, 255, 255, 253], [255, 255, 255, 254], [255, 255, 255, 255]] ∧
      ∃ visited : List IP, Enumerates net visited ∧
        visited.getLast? = some [255, 255, 255, 255] := by
  intro net
  obtain ⟨⟨visited, -, -, henum, hlast⟩, -⟩ :=
    scan_enumerates #v[255, 255, 255, 255] 30 (by decide) (by decide)
  exact ⟨by decide, by decide, by decide, visited, henum, hlast (by decide)⟩

end

end Gocker.Network
