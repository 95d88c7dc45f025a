import Mathlib.Data.List.Basic

/-!
# Internet addresses

The part of Go's `net` package that address allocators use: addresses as byte
sequences, networks, the text forms, and the readers of both text forms.

An `IP` is a list of bytes.  Four bytes and sixteen bytes are addresses; an IPv4
address has a form of either length, and `to4` gives the short one.  `equal` and
`IPNet.contains` do not tell the two forms apart, and neither does `ipString`,
which is why the canonical text of an address is a function of `to4`
(`ipString_eq_dotted`).

Reading follows `net/netip`: decimal fields without leading zeros, IPv6 with one
`::` and an embedded IPv4 tail, no zone.  The dotted form is read back
(`parseAddr_dotted`, `parseCIDR_dotted`).
-/

namespace NetIP

/-- An address: four bytes or sixteen. -/
abbrev IP := List UInt8

/-- The prefix of an IPv4 address among those of sixteen bytes. -/
def v4InV6Prefix : List UInt8 := [0, 0, 0, 0, 0, 0, 0, 0, 0, 0, 0xff, 0xff]

/-- `IP.To4`: the four-byte form of an IPv4 address of either length. -/
def to4 (ip : IP) : Option IP :=
  if ip.length = 4 then some ip
  else if ip.length = 16 ∧ ip.take 12 = v4InV6Prefix then some (ip.drop 12)
  else none

/-- `IP.Equal`: an IPv4 address and the same address in IPv6 form are equal. -/
def equal (ip x : IP) : Bool :=
  if ip.length = x.length then ip == x
  else if ip.length = 4 ∧ x.length = 16 then x.take 12 == v4InV6Prefix && ip == x.drop 12
  else if ip.length = 16 ∧ x.length = 4 then ip.take 12 == v4InV6Prefix && ip.drop 12 == x
  else false

theorem to4_of_length {ip : IP} (h : ip.length = 4) : to4 ip = some ip := if_pos h

theorem to4_eq_some {ip a : IP} (h : to4 ip = some a) :
    a.length = 4 ∧ (ip = a ∨ ip = v4InV6Prefix ++ a) := by
  unfold to4 at h
  split_ifs at h with h4 h16
  · obtain rfl := Option.some.inj h
    exact ⟨h4, .inl rfl⟩
  · obtain rfl := Option.some.inj h
    refine ⟨by simp [h16.1], .inr ?_⟩
    rw [← h16.2, List.take_append_drop]

theorem length_of_to4 {ip a : IP} (h : to4 ip = some a) : a.length = 4 := (to4_eq_some h).1

/-- On IPv4 addresses `equal` is equality of the short forms. -/
theorem equal_iff {x y a b : IP} (hx : to4 x = some a) (hy : to4 y = some b) :
    equal x y = true ↔ a = b := by
  obtain ⟨ha, hxa⟩ := to4_eq_some hx
  obtain ⟨hb, hyb⟩ := to4_eq_some hy
  have hp : v4InV6Prefix.length = 12 := rfl
  rcases hxa with rfl | rfl <;> rcases hyb with rfl | rfl
  · simp [equal, ha, hb]
  · simp [equal, ha, hb, hp]
  · simp [equal, ha, hb, hp]
  · simp [equal, ha, hb, hp]

/-! ## Networks -/

/-- A network: an address, and a mask. -/
structure IPNet where
  ip : IP
  mask : List UInt8
deriving DecidableEq, Repr

/-- `networkNumberAndMask`; a network that fits neither family has none. -/
def IPNet.networkNumberAndMask (n : IPNet) : IP × List UInt8 :=
  let ip := (to4 n.ip).getD n.ip
  if ip.length = 4 ∧ n.mask.length = 4 then (ip, n.mask)
  else if ip.length = 4 ∧ n.mask.length = 16 then (ip, n.mask.drop 12)
  else if ip.length = 16 ∧ n.mask.length = 16 then (ip, n.mask)
  else ([], [])

/-- `IPNet.Contains`. -/
def IPNet.contains (n : IPNet) (ip : IP) : Bool :=
  let (nn, m) := n.networkNumberAndMask
  let ip := (to4 ip).getD ip
  ip.length == nn.length && List.zipWith (· &&& ·) nn m == List.zipWith (· &&& ·) ip m

/-- A network of an IPv4 number and mask. -/
def IPNet.IsV4 (n : IPNet) : Prop := n.ip.length = 4 ∧ n.mask.length = 4

instance (n : IPNet) : Decidable n.IsV4 := inferInstanceAs (Decidable (_ ∧ _))

theorem IPNet.IsV4.networkNumberAndMask {n : IPNet} (h : n.IsV4) :
    n.networkNumberAndMask = (n.ip, n.mask) := by
  simp [IPNet.networkNumberAndMask, to4_of_length h.1, h.1, h.2]

/-- Membership of a four-byte address: it agrees with the network number under
the mask. -/
theorem IPNet.IsV4.contains_iff {n : IPNet} (hn : n.IsV4) {ip : IP} (h : ip.length = 4) :
    n.contains ip = true ↔
      List.zipWith (· &&& ·) n.ip n.mask = List.zipWith (· &&& ·) ip n.mask := by
  simp [IPNet.contains, hn.networkNumberAndMask, to4_of_length h, h, hn.1]

/-- An IPv4 network contains IPv4 addresses only. -/
theorem IPNet.IsV4.exists_to4 {n : IPNet} (hn : n.IsV4) {ip : IP} (h : n.contains ip = true) :
    ∃ a, to4 ip = some a := by
  cases ha : to4 ip with
  | some a => exact ⟨a, rfl⟩
  | none =>
      have hlen : ip.length = 4 := by
        simp only [IPNet.contains, hn.networkNumberAndMask, ha, Option.getD_none,
          Bool.and_eq_true, beq_iff_eq] at h
        exact h.1.trans hn.1
      rw [to4_of_length hlen] at ha
      exact absurd ha nofun

/-- An address is in a network whenever its short form is. -/
theorem IPNet.contains_to4 (n : IPNet) {ip a : IP} (h : to4 ip = some a) :
    n.contains ip = n.contains a := by
  simp only [IPNet.contains, h, to4_of_length (length_of_to4 h), Option.getD_some]

/-- `IP.Mask`. -/
def maskWith (ip : IP) (mask : List UInt8) : Option IP :=
  let mask :=
    if mask.length = 16 ∧ ip.length = 4 ∧ mask.take 12 = List.replicate 12 0xff then mask.drop 12
    else mask
  let ip :=
    if mask.length = 4 ∧ ip.length = 16 ∧ ip.take 12 = v4InV6Prefix then ip.drop 12 else ip
  if ip.length = mask.length then some (List.zipWith (· &&& ·) ip mask) else none

/-- `CIDRMask ones (8 * len)`: the bytes of a mask with `ones` leading ones. -/
def cidrMask : ℕ → ℕ → List UInt8
  | _, 0 => []
  | ones, len + 1 =>
      if 8 ≤ ones then 0xff :: cidrMask (ones - 8) len
      else (~~~((0xff : UInt8) >>> UInt8.ofNat ones)) :: cidrMask 0 len

/-! ## Writing -/

/-- Decimal fields separated by dots. -/
def dotted (ip : IP) : String :=
  ".".intercalate (ip.map fun b => Nat.repr b.toNat)

theorem toList_dotted (ip : IP) :
    (dotted ip).toList = ['.'].intercalate (ip.map fun b => Nat.toDigits 10 b.toNat) := by
  simp only [dotted, String.toList_intercalate, List.map_map]
  congr 1
  exact List.map_congr_left fun b _ => Nat.toList_repr

theorem dotted_ne_empty {ip : IP} (h : ip.length = 4) : dotted ip ≠ "" := by
  intro hempty
  have htext := toList_dotted ip
  rw [hempty] at htext
  match ip, h with
  | [a, b, c, d], _ => simp at htext

/-- The dotted form determines the address. -/
theorem dotted_injective {a b : IP} (ha : a ≠ []) (hb : b ≠ []) (h : dotted a = dotted b) :
    a = b := by
  have split : ∀ ip : IP, ip ≠ [] →
      (dotted ip).toList.splitOn '.' = ip.map fun b => Nat.toDigits 10 b.toNat := by
    intro ip hip
    rw [toList_dotted]
    refine List.splitOn_intercalate '.' ?_ (by simpa using hip)
    simp only [List.mem_map, forall_exists_index, and_imp, forall_apply_eq_imp_iff₂]
    intro b _ hdot
    exact absurd (Nat.isDigit_of_mem_toDigits (by decide) (by decide) hdot) (by decide)
  have digits_injective : Function.Injective fun b : UInt8 => Nat.toDigits 10 b.toNat := by
    intro x y hxy
    have := congrArg (fun ds => Nat.ofDigitChars 10 ds 0) hxy
    exact UInt8.toNat_inj.mp (by simpa [Nat.ofDigitChars_ten_toDigits] using this)
  apply List.map_injective_iff.mpr digits_injective
  rw [← split a ha, ← split b hb, h]

/-- The sixteen-bit groups of an IPv6 address. -/
def groups : IP → List ℕ
  | hi :: lo :: rest => (hi.toNat * 256 + lo.toNat) :: groups rest
  | _ => []

/-- The length of the run of zero groups at the start. -/
def zeroRun (gs : List ℕ) : ℕ := (gs.takeWhile (· == 0)).length

/-- Start and length of the first longest run of at least two zero groups. -/
def longestRun : ℕ → List ℕ → Option (ℕ × ℕ)
  | _, [] => none
  | pos, g :: gs =>
      let here := zeroRun (g :: gs)
      match longestRun (pos + 1) gs with
      | some (start, len) => if len ≤ here then some (pos, here) else some (start, len)
      | none => if 2 ≤ here then some (pos, here) else none

/-- A group of an IPv6 address. -/
def hexGroup (g : ℕ) : String := String.ofList (Nat.toDigits 16 g)

/-- An IPv6 address: hexadecimal groups, the first longest run of zeros left out. -/
def colonHex (ip : IP) : String :=
  let gs := groups ip
  let text (gs : List ℕ) := ":".intercalate (gs.map hexGroup)
  match longestRun 0 gs with
  | some (start, len) => text (gs.take start) ++ "::" ++ text (gs.drop (start + len))
  | none => text gs

/-- `IP.String`. -/
def ipString (ip : IP) : String :=
  if ip = [] then "<nil>"
  else if ip.length ≠ 4 ∧ ip.length ≠ 16 then
    "?" ++ String.ofList
      (ip.flatMap fun b => [Nat.digitChar (b.toNat / 16), Nat.digitChar (b.toNat % 16)])
  else match to4 ip with
    | some ip4 => dotted ip4
    | none => colonHex ip

/-- The canonical text of an IPv4 address is its dotted short form. -/
theorem ipString_eq_dotted {ip a : IP} (h : to4 ip = some a) : ipString ip = dotted a := by
  have hlen : ip.length = 4 ∨ ip.length = 16 := by
    rcases to4_eq_some h with ⟨ha, rfl | rfl⟩
    · exact .inl ha
    · exact .inr (by rw [List.length_append, ha]; rfl)
  have hne : ip ≠ [] := by
    rintro rfl
    simp at hlen
  rw [ipString, if_neg hne, if_neg (by omega), h]

/-! ## Reading -/

/-- `parseIPv4Fields`: four decimal fields below 256 without leading zeros.
`cur` holds the digits of the current field, `none` before its first digit. -/
def parseIPv4Fields : List Char → Option ℕ → List UInt8 → Option (List UInt8)
  | [], some val, fields => if fields.length = 3 then some (fields ++ [UInt8.ofNat val]) else none
  | [], none, _ => none
  | c :: s, cur, fields =>
      if c.isDigit then
        let val := cur.getD 0 * 10 + (c.toNat - '0'.toNat)
        if cur = some 0 ∨ 255 < val then none else parseIPv4Fields s (some val) fields
      else if c = '.' then
        match cur with
        | some val =>
            if fields.length = 3 then none
            else parseIPv4Fields s none (fields ++ [UInt8.ofNat val])
        | none => none
      else none

/-- The value of a hexadecimal digit. -/
def hexVal (c : Char) : Option ℕ :=
  if c.isDigit then some (c.toNat - '0'.toNat)
  else if 'a' ≤ c ∧ c ≤ 'f' then some (c.toNat - 'a'.toNat + 10)
  else if 'A' ≤ c ∧ c ≤ 'F' then some (c.toNat - 'A'.toNat + 10)
  else none

/-- The loop of `parseIPv6`: the bytes read so far, the position of the `::`, and
the rest of the text.  A group takes two bytes, so sixteen rounds are enough. -/
def parseIPv6Groups : ℕ → List UInt8 → Option ℕ → List Char → Option (List UInt8 × Option ℕ)
  | 0, _, _, _ => none
  | fuel + 1, ip, ellipsis, s =>
      if 16 ≤ ip.length then none
      else
        let ds := s.takeWhile fun c => (hexVal c).isSome
        let acc := ds.foldl (fun acc c => acc * 16 + (hexVal c).getD 0) 0
        if ds = [] ∨ 4 < ds.length then none
        else match s.drop ds.length with
          | '.' :: _ =>
              if (ellipsis = none ∧ ip.length ≠ 12) ∨ 16 < ip.length + 4 then none
              else (parseIPv4Fields s none []).map fun fields => (ip ++ fields, ellipsis)
          | rest =>
              let ip := ip ++ [UInt8.ofNat (acc / 256), UInt8.ofNat acc]
              match rest with
              | [] => some (ip, ellipsis)
              | ':' :: ':' :: rest =>
                  if ellipsis.isSome then none
                  else if rest = [] then some (ip, some ip.length)
                  else parseIPv6Groups fuel ip (some ip.length) rest
              | ':' :: c :: rest => parseIPv6Groups fuel ip ellipsis (c :: rest)
              | _ => none

/-- `parseIPv6` without a zone: the bytes left out at the `::` are zero, and
there is at least one group of them. -/
def parseIPv6 (s : List Char) : Option IP :=
  let read := match s with
    | ':' :: ':' :: [] => some ([], some 0)
    | ':' :: ':' :: s => parseIPv6Groups 16 [] (some 0) s
    | s => parseIPv6Groups 16 [] none s
  read.bind fun (ip, ellipsis) =>
    match ellipsis with
    | none => if ip.length = 16 then some ip else none
    | some at_ =>
        if ip.length < 16 then
          some (ip.take at_ ++ List.replicate (16 - ip.length) 0 ++ ip.drop at_)
        else none

/-- The first of `.`, `:` and `%` decides the family, as in `netip.ParseAddr`; an
address with a zone is refused. -/
def parseAddr (s : List Char) : Option IP :=
  match s.find? fun c => c == '.' || c == ':' || c == '%' with
  | some '.' => parseIPv4Fields s none []
  | some ':' => if '%' ∈ s then none else parseIPv6 s
  | _ => none

/-- `Addr.As16`. -/
def as16 (ip : IP) : IP := if ip.length = 4 then v4InV6Prefix ++ ip else ip

/-- `net.ParseIP`: the sixteen-byte form. -/
def parseIP (s : String) : Option IP := (parseAddr s.toList).map as16

/-- `net.ParseCIDR`: the address in sixteen-byte form, and its network. -/
def parseCIDR (s : String) : Option (IP × IPNet) :=
  let addr := s.toList.takeWhile (· != '/')
  match s.toList.drop addr.length with
  | '/' :: bits => do
      let ip ← parseAddr addr
      let ones := Nat.ofDigitChars 10 bits 0
      if bits = [] ∨ bits.any (fun c => !c.isDigit) ∨ 8 * ip.length < ones then none
      else
        let mask := cidrMask ones ip.length
        let ip := as16 ip
        (maskWith ip mask).map fun net => (ip, { ip := net, mask := mask })
  | _ => none

/-! ## Reading what was written -/

/-- The digits of a field. -/
theorem parseIPv4Fields_digits {n : ℕ} (hn : n ≤ 255) (rest : List Char) (fields : List UInt8) :
    parseIPv4Fields (Nat.toDigits 10 n ++ rest) none fields =
      parseIPv4Fields rest (some n) fields := by
  induction n using Nat.strongRecOn generalizing rest with
  | ind n ih =>
      have hdigit : ∀ d < 10, (Nat.digitChar d).isDigit = true ∧
          (Nat.digitChar d).toNat - '0'.toNat = d := by decide
      rcases Nat.lt_or_ge n 10 with hlt | hge
      · obtain ⟨hd, hval⟩ := hdigit n hlt
        rw [Nat.toDigits_of_lt_base hlt, List.singleton_append, parseIPv4Fields, if_pos hd, hval]
        simp [Nat.not_lt.mpr hn]
      · obtain ⟨hd, hval⟩ := hdigit (n % 10) (Nat.mod_lt n (by decide))
        have hzero : n / 10 ≠ 0 := by omega
        have hsum : n / 10 * 10 + n % 10 = n := by omega
        rw [Nat.toDigits_of_base_le (by decide) hge, List.append_assoc,
          ih (n / 10) (by omega) (by omega), List.singleton_append, parseIPv4Fields, if_pos hd,
          hval]
        simp [hzero, hsum, Nat.not_lt.mpr hn]

theorem parseIPv4Fields_dotted (a b c d : UInt8) :
    parseIPv4Fields (dotted [a, b, c, d]).toList none [] = some [a, b, c, d] := by
  have hbyte : ∀ b : UInt8, b.toNat ≤ 255 := fun b => Nat.le_of_lt_succ b.toNat_lt
  have hdot : ∀ (val : ℕ) (rest : List Char) (fields : List UInt8), fields.length ≠ 3 →
      parseIPv4Fields ('.' :: rest) (some val) fields =
        parseIPv4Fields rest none (fields ++ [UInt8.ofNat val]) := by
    intro val rest fields hfields
    rw [parseIPv4Fields, if_neg (by decide), if_pos rfl]
    simp [hfields]
  rw [toList_dotted]
  simp only [List.map_cons, List.map_nil, List.intercalate_cons_cons, List.intercalate_singleton,
    List.append_assoc, List.singleton_append]
  rw [parseIPv4Fields_digits (hbyte a), hdot _ _ _ (by simp), parseIPv4Fields_digits (hbyte b),
    hdot _ _ _ (by simp), parseIPv4Fields_digits (hbyte c), hdot _ _ _ (by simp),
    ← List.append_nil (Nat.toDigits 10 d.toNat), parseIPv4Fields_digits (hbyte d)]
  simp [parseIPv4Fields]

theorem exists_bytes {ip : IP} (h : ip.length = 4) : ∃ a b c d, ip = [a, b, c, d] := by
  match ip, h with
  | [a, b, c, d], _ => exact ⟨a, b, c, d, rfl⟩

/-- In the dotted form there are digits and dots. -/
theorem mem_dotted {ip : IP} {c : Char} (h : c ∈ (dotted ip).toList) :
    c.isDigit = true ∨ c = '.' := by
  rw [toList_dotted] at h
  induction ip with
  | nil => simp at h
  | cons b ip ih =>
      have hdigits : ∀ {n : ℕ}, c ∈ Nat.toDigits 10 n → c.isDigit = true := fun hmem =>
        Nat.isDigit_of_mem_toDigits (by decide) (by decide) hmem
      cases ip with
      | nil => exact .inl (hdigits (by simpa using h))
      | cons b' ip =>
          rw [List.map_cons, List.map_cons, List.intercalate_cons_cons, List.mem_append,
            List.mem_append] at h
          rcases h with (h | h) | h
          · exact .inl (hdigits h)
          · exact .inr (List.mem_singleton.mp h)
          · exact ih h

/-- **The round trip.** -/
theorem parseAddr_dotted {ip : IP} (h : ip.length = 4) :
    parseAddr (dotted ip).toList = some ip := by
  obtain ⟨a, b, c, d, rfl⟩ := exists_bytes h
  have hfind : (dotted [a, b, c, d]).toList.find? (fun c => c == '.' || c == ':' || c == '%') =
      some '.' := by
    cases hsome : (dotted [a, b, c, d]).toList.find? fun c => c == '.' || c == ':' || c == '%' with
    | none =>
        rw [List.find?_eq_none] at hsome
        refine absurd rfl (hsome '.' ?_)
        rw [toList_dotted]
        simp
    | some x =>
        have hx := List.find?_some hsome
        rcases mem_dotted (List.mem_of_find?_eq_some hsome) with hdigit | rfl
        · simp only [Bool.or_eq_true, beq_iff_eq] at hx
          rcases hx with (rfl | rfl) | rfl <;> simp at hdigit
        · rfl
  rw [parseAddr, hfind]
  exact parseIPv4Fields_dotted a b c d

/-- `fmt.Sprintf("%s/%d", ip, ones)` -/
def cidrText (ip : String) (ones : ℕ) : String := ip ++ "/" ++ Nat.repr ones

/-- A network is read from the text of one of its addresses. -/
theorem parseCIDR_dotted {ip : IP} (h : ip.length = 4) {ones : ℕ} (hones : ones ≤ 32) :
    parseCIDR (cidrText (dotted ip) ones) = (maskWith (as16 ip) (cidrMask ones 4)).map fun net =>
      (as16 ip, { ip := net, mask := cidrMask ones 4 }) := by
  have htext : (cidrText (dotted ip) ones).toList =
      (dotted ip).toList ++ '/' :: Nat.toDigits 10 ones := by
    simp [cidrText, Nat.toList_repr]
  have hslash : ∀ c ∈ (dotted ip).toList, (c != '/') = true := by
    intro c hc
    rcases mem_dotted hc with hdigit | rfl
    · have hne : c ≠ '/' := by
        rintro rfl
        simp at hdigit
      simpa using hne
    · decide
  have htake : (cidrText (dotted ip) ones).toList.takeWhile (· != '/') = (dotted ip).toList := by
    rw [htext, List.takeWhile_append_of_pos hslash, List.takeWhile_cons_of_neg (by simp),
      List.append_nil]
  have hbits : ¬ (Nat.toDigits 10 ones = [] ∨
      (Nat.toDigits 10 ones).any (fun c => !c.isDigit) = true ∨ 8 * 4 < ones) := by
    rintro (hnil | hany | hlong)
    · exact Nat.toDigits_ne_nil hnil
    · obtain ⟨c, hc, hdigit⟩ := List.any_eq_true.mp hany
      rw [Nat.isDigit_of_mem_toDigits (by decide) (by decide) hc] at hdigit
      cases hdigit
    · omega
  rw [parseCIDR]
  simp only [htake]
  rw [htext, List.drop_left]
  simp only [parseAddr_dotted h, Nat.ofDigitChars_ten_toDigits, Option.bind_eq_bind,
    Option.bind_some, h]
  exact if_neg hbits

end NetIP
