import Gocker.Lib.Json

/-!
# Values in a byte stream

A stream decoder (`json.Decoder`) reads from a connection in pieces of any size
into a private buffer, and takes one value after another out of this buffer.
What it has read beyond the value stays in the buffer.

* `Scan` is where a scanner stands in a value: it counts the open brackets and
  knows whether it is inside a string.  Well-formed values end where it says; what
  it lets through besides is no JSON and fails to decode.
* `split` takes the first value off a buffer, `readValue` reads until there is one.
* `complete_encode` says that the bytes of an object are a value of which no
  proper part is one, and `readValue_complete` where the decoder then stops:
  `beyond n` are the reads that are left when `n` bytes are wanted.
* `EndsRead` says that a read ends with given bytes, and `beyond_eq_iff` when it
  does so exactly one byte after a value.

### Use

A protocol that puts raw bytes behind a JSON value on one connection loses those that the
decoder has buffered.  `beyond_eq_iff` says exactly when none are: when the read that brings the
end of the value ends with it, up to the newline that an encoder adds.
-/

namespace Json

/-- The bytes of a stream. -/
abbrev Bytes := List UInt8

/-! ## The bytes of a text -/

/-- UTF-8. -/
def utf8 (text : List Char) : Bytes := text.flatMap String.utf8EncodeChar

/-- The text with these bytes. -/
def ofUtf8 (bs : Bytes) : Option (List Char) := bs.toByteArray.utf8Decode?.map Array.toList

@[simp] theorem ofUtf8_utf8 (text : List Char) : ofUtf8 (utf8 text) = some text := by
  have h : text.utf8Encode.utf8Decode? = some text.toArray := List.utf8Decode?_utf8Encode
  rw [List.utf8Encode] at h
  rw [ofUtf8, utf8, h]
  rfl

@[simp] theorem utf8_nil : utf8 [] = [] := rfl

/-- The bytes of two texts are those of the one and of the other. -/
theorem utf8_append (s t : List Char) : utf8 (s ++ t) = utf8 s ++ utf8 t :=
  List.flatMap_append

/-- The bytes of a character come before those of the rest. -/
theorem utf8_cons (c : Char) (s : List Char) : utf8 (c :: s) = String.utf8EncodeChar c ++ utf8 s :=
  List.flatMap_cons

/-- A character below 128 is one byte, and the bytes of the others are all at least 128. -/
theorem utf8EncodeChar_cases (c : Char) :
    (c.toNat < 128 ∧ String.utf8EncodeChar c = [UInt8.ofNat c.toNat]) ∨
      (128 ≤ c.toNat ∧ ∀ b ∈ String.utf8EncodeChar c, 128 ≤ b.toNat) := by
  have hc : c.val.toNat = c.toNat := rfl
  fun_cases String.utf8EncodeChar c with
  | case1 v h => exact .inl ⟨by omega, rfl⟩
  | case2 v h =>
      refine .inr ⟨by omega, fun b hb => ?_⟩
      simp only [List.mem_cons, List.not_mem_nil, or_false] at hb
      rcases hb with rfl | rfl <;> rw [UInt8.toNat_ofNat'] <;> omega
  | case3 v h =>
      refine .inr ⟨by omega, fun b hb => ?_⟩
      simp only [List.mem_cons, List.not_mem_nil, or_false] at hb
      rcases hb with rfl | rfl | rfl <;> rw [UInt8.toNat_ofNat'] <;> omega
  | case4 v h =>
      refine .inr ⟨by omega, fun b hb => ?_⟩
      simp only [List.mem_cons, List.not_mem_nil, or_false] at hb
      rcases hb with rfl | rfl | rfl | rfl <;> rw [UInt8.toNat_ofNat'] <;> omega

/-! ## Scanning -/

/-- Where a scanner stands: before the value, behind an opening bracket (with
`depth` further ones open), in a string (with `depth` brackets open), behind a
backslash in it, or with `left` letters of a word to go. -/
inductive Scan where
  | outside
  | inside (depth : ℕ)
  | string (depth : ℕ)
  | escape (depth : ℕ)
  | word (left : ℕ)
deriving DecidableEq

/-- What the scanner says after a byte. -/
inductive Progress where
  | more (s : Scan)
  | done
  | bad
deriving DecidableEq

/-- After a closing bracket or quotation mark. -/
def after : ℕ → Progress
  | 0 => .done
  | d + 1 => .more (.inside d)

/-- The byte of a character of ASCII. -/
def byte (c : Char) : UInt8 := UInt8.ofNat c.toNat

/-- White space. -/
def isSpaceByte (b : UInt8) : Bool :=
  b == byte ' ' || b == byte '\n' || b == byte '\r' || b == byte '\t'

/-- A bracket that opens. -/
def opens (b : UInt8) : Bool := b == byte '{' || b == byte '['

/-- A bracket that closes. -/
def closes (b : UInt8) : Bool := b == byte '}' || b == byte ']'

/-- The scanner takes a byte. -/
def Scan.next : Scan → UInt8 → Progress
  | .outside, b =>
      if isSpaceByte b then .more .outside
      else if opens b then .more (.inside 0)
      else if b = byte '"' then .more (.string 0)
      else if b = byte 'n' ∨ b = byte 't' then .more (.word 3)
      else if b = byte 'f' then .more (.word 4)
      else .bad
  | .inside d, b =>
      if opens b then .more (.inside (d + 1))
      else if closes b then after d
      else if b = byte '"' then .more (.string (d + 1))
      else .more (.inside d)
  | .string d, b =>
      if b = byte '"' then after d
      else if b = byte '\\' then .more (.escape d)
      else .more (.string d)
  | .escape d, _ => .more (.string d)
  | .word n, _ => if n ≤ 1 then .done else .more (.word (n - 1))

/-- One byte more; nothing may follow a value that is complete. -/
def Progress.feed : Progress → UInt8 → Progress
  | .more s, b => s.next b
  | _, _ => .bad

/-- The scanner takes some bytes. -/
def feed (p : Progress) (bs : Bytes) : Progress := bs.foldl Progress.feed p

@[simp] theorem feed_nil (p : Progress) : feed p [] = p := rfl

@[simp] theorem feed_cons (p : Progress) (b : UInt8) (bs : Bytes) :
    feed p (b :: bs) = feed (p.feed b) bs := rfl

theorem feed_append (p : Progress) (bs bs' : Bytes) :
    feed p (bs ++ bs') = feed (feed p bs) bs' :=
  List.foldl_append

theorem feed_bad (bs : Bytes) : feed .bad bs = .bad := by
  induction bs with
  | nil => rfl
  | cons b bs ih => exact ih

/-- The bytes are a value, and no proper part from their start on is one. -/
def Complete (v : Bytes) : Prop := feed (.more .outside) v = .done

instance (v : Bytes) : Decidable (Complete v) := inferInstanceAs (Decidable (_ = _))

/-- White space may stand in front of a value. -/
theorem Complete.of_space {ws : List Char} {v : Bytes} (h : Complete v)
    (hws : ∀ c ∈ ws, isSpace c) : Complete (utf8 ws ++ v) := by
  have stay : ∀ c, isSpace c →
      feed (.more .outside) (String.utf8EncodeChar c) = .more .outside := by
    intro c hc
    simp only [isSpace, Bool.or_eq_true, beq_iff_eq] at hc
    rcases hc with ((rfl | rfl) | rfl) | rfl <;> decide
  induction ws with
  | nil => exact h
  | cons c ws ih =>
      rw [Complete, utf8_cons, List.append_assoc, feed_append, stay c (hws c List.mem_cons_self)]
      exact ih fun c hc => hws c (List.mem_cons_of_mem _ hc)

/-! ## Taking a value off a buffer -/

/-- What the front of a buffer is. -/
inductive Split where
  | more
  | done (value rest : Bytes)
  | bad
deriving DecidableEq

/-- Put a byte in front of the value found after it. -/
def Split.push (b : UInt8) : Split → Split
  | .done v rest => .done (b :: v) rest
  | x => x

/-- The first value of a buffer is taken off. -/
def split (s : Scan) : Bytes → Split
  | [] => .more
  | b :: bs =>
      match s.next b with
      | .more t => (split t bs).push b
      | .done => .done [b] bs
      | .bad => .bad

/-- A value at the front is taken off as a whole. -/
theorem split_of_done {s : Scan} {v : Bytes} (h : feed (.more s) v = .done) (rest : Bytes) :
    split s (v ++ rest) = .done v rest := by
  induction v generalizing s with
  | nil => cases h
  | cons b v ih =>
      have h : feed (s.next b) v = .done := h
      rw [List.cons_append, split]
      cases hb : s.next b with
      | more t =>
          rw [hb] at h
          simp only [ih h, Split.push]
      | done =>
          rw [hb] at h
          cases v with
          | nil => rfl
          | cons c v => exact absurd ((feed_bad v).symm.trans h) (by decide)
      | bad =>
          rw [hb, feed_bad] at h
          cases h

/-- There is no value in a proper part of one. -/
theorem split_of_part {s : Scan} {p q : Bytes} (h : feed (.more s) (p ++ q) = .done)
    (hq : q ≠ []) : split s p = .more := by
  induction p generalizing s with
  | nil => rfl
  | cons b p ih =>
      have h : feed (s.next b) (p ++ q) = .done := h
      rw [split]
      cases hb : s.next b with
      | more t =>
          rw [hb] at h
          simp only [ih h, Split.push]
      | done =>
          rw [hb] at h
          cases hpq : p ++ q with
          | nil => exact absurd (List.append_eq_nil_iff.mp hpq).2 hq
          | cons c r =>
              rw [hpq] at h
              exact absurd ((feed_bad r).symm.trans h) (by decide)
      | bad =>
          rw [hb, feed_bad] at h
          cases h

/-- A value has a byte at least, and the rest follows it. -/
theorem split_eq_done {s : Scan} {bs v rest : Bytes} (h : split s bs = .done v rest) :
    v ≠ [] ∧ bs = v ++ rest := by
  induction bs generalizing s v with
  | nil => cases h
  | cons b bs ih =>
      rw [split] at h
      cases hb : s.next b with
      | more t =>
          simp only [hb] at h
          cases ht : split t bs with
          | done v' rest' =>
              rw [ht] at h
              obtain ⟨rfl, rfl⟩ := Split.done.inj h
              exact ⟨List.cons_ne_nil b v', congrArg (b :: ·) (ih ht).2⟩
          | more | bad =>
              rw [ht] at h
              cases h
      | done =>
          simp only [hb] at h
          obtain ⟨rfl, rfl⟩ := Split.done.inj h
          exact ⟨List.cons_ne_nil b [], rfl⟩
      | bad =>
          simp only [hb] at h
          cases h

/-! ## The bytes of a written value -/

/-- Inside a value such a character changes nothing. -/
def isNeutral (c : Char) : Bool :=
  decide (c.toNat < 128) && !opens (byte c) && !closes (byte c) && byte c != byte '"'

theorem utf8EncodeChar_ascii {c : Char} (h : c.toNat < 128) :
    String.utf8EncodeChar c = [byte c] := by
  rcases utf8EncodeChar_cases c with ⟨-, heq⟩ | ⟨hle, -⟩
  · exact heq
  · exact absurd h (Nat.not_lt.mpr hle)

/-- Characters that mean nothing to the scanner leave it where it is. -/
theorem feed_neutral {s : List Char} (h : ∀ c ∈ s, isNeutral c) (d : ℕ) :
    feed (.more (.inside d)) (utf8 s) = .more (.inside d) := by
  induction s with
  | nil => rfl
  | cons c s ih =>
      have hc := h c List.mem_cons_self
      simp only [isNeutral, Bool.and_eq_true, decide_eq_true_eq, Bool.not_eq_true',
        bne_iff_ne] at hc
      obtain ⟨⟨⟨hascii, hopens⟩, hcloses⟩, hquote⟩ := hc
      rw [utf8_cons, utf8EncodeChar_ascii hascii, List.singleton_append, feed_cons]
      simp only [Progress.feed, Scan.next, hopens, hcloses, hquote, Bool.false_eq_true, if_false]
      exact ih fun c hc => h c (List.mem_cons_of_mem _ hc)

theorem isNeutral_of_isSpace {c : Char} (h : isSpace c) : isNeutral c := by
  simp only [isSpace, Bool.or_eq_true, beq_iff_eq] at h
  rcases h with ((rfl | rfl) | rfl) | rfl <;> decide

theorem isNeutral_of_isDigit {c : Char} (h : c.isDigit) : isNeutral c := by
  have hrange : 48 ≤ c.toNat ∧ c.toNat ≤ 57 := by
    simp only [Char.isDigit, Bool.and_eq_true, decide_eq_true_eq] at h
    exact ⟨UInt32.le_iff_toNat_le.mp h.1, UInt32.le_iff_toNat_le.mp h.2⟩
  have digits : ∀ n : Fin 10, isNeutral (Char.ofNat (48 + n)) := by decide
  have hc := digits ⟨c.toNat - 48, by omega⟩
  rwa [show 48 + (c.toNat - 48) = c.toNat by omega, Char.ofNat_toNat] at hc

theorem isNeutral_of_isNumberChar {c : Char} (h : isNumberChar c) : isNeutral c := by
  rw [isNumberChar, Bool.or_eq_true, decide_eq_true_eq] at h
  rcases h with hdigit | hmem
  · exact isNeutral_of_isDigit hdigit
  · have all : ['.', 'e', 'E', '+', '-'].all isNeutral = true := by decide
    exact List.all_eq_true.mp all c hmem

/-- Inside a string everything but a quotation mark and a backslash is text. -/
theorem feed_text {bs : Bytes} (h : ∀ b ∈ bs, b ≠ byte '"' ∧ b ≠ byte '\\') (d : ℕ) :
    feed (.more (.string d)) bs = .more (.string d) := by
  induction bs with
  | nil => rfl
  | cons b bs ih =>
      obtain ⟨hquote, hbackslash⟩ := h b List.mem_cons_self
      rw [feed_cons]
      simp only [Progress.feed, Scan.next, hquote, hbackslash, if_false]
      exact ih fun b hb => h b (List.mem_cons_of_mem _ hb)

/-- A character of a string that is neither a quotation mark nor a backslash leaves the scanner
in the string. -/
theorem feed_plain {c : Char} (hquote : c ≠ '"') (hbackslash : c ≠ '\\') (d : ℕ) :
    feed (.more (.string d)) (String.utf8EncodeChar c) = .more (.string d) := by
  refine feed_text (fun b hb => ?_) d
  rcases utf8EncodeChar_cases c with ⟨hascii, heq⟩ | ⟨-, hhigh⟩
  · rw [heq, List.mem_singleton] at hb
    have ne : ∀ c' : Char, c'.toNat < 128 → c ≠ c' → b ≠ byte c' := by
      intro c' hascii' hne hbyte
      have htoNat := congrArg UInt8.toNat (hb.symm.trans hbyte)
      rw [byte, UInt8.toNat_ofNat', UInt8.toNat_ofNat'] at htoNat
      have heq : c.toNat = c'.toNat := by omega
      exact hne (by rw [← Char.ofNat_toNat c, heq, Char.ofNat_toNat])
    exact ⟨ne '"' (by decide) hquote, ne '\\' (by decide) hbackslash⟩
  · have hb := hhigh b hb
    constructor
    · rintro rfl
      exact absurd hb (by decide)
    · rintro rfl
      exact absurd hb (by decide)

theorem feed_escapeChar (c : Char) (d : ℕ) :
    feed (.more (.string d)) (utf8 (escapeChar c)) = .more (.string d) := by
  unfold escapeChar
  split_ifs with h1 h2
  · rfl
  · rfl
  · rfl
  · rfl
  · rfl
  · rfl
  · rfl
  · -- the digits of the unit are text
    have digits : ∀ n : Fin 16, Nat.digitChar n ≠ '"' ∧ Nat.digitChar n ≠ '\\' := by decide
    have text : ∀ n : ℕ, feed (.more (.string d)) (String.utf8EncodeChar (Nat.digitChar (n % 16)))
        = .more (.string d) := fun n =>
      feed_plain (digits ⟨n % 16, by omega⟩).1 (digits ⟨n % 16, by omega⟩).2 d
    have hstart : feed (.more (.string d)) (utf8 ['\\', 'u']) = .more (.string d) := rfl
    rw [show ∀ x, '\\' :: 'u' :: x = ['\\', 'u'] ++ x from fun _ => rfl, utf8_append, feed_append,
      hstart]
    simp only [hex4, utf8_cons, feed_append, text]
    rfl
  · rw [utf8_cons, feed_append, feed_plain h1 h2]
    rfl

theorem feed_escape (s : List Char) (d : ℕ) :
    feed (.more (.string d)) (utf8 (escape s)) = .more (.string d) := by
  induction s with
  | nil => rfl
  | cons c s ih =>
      rw [escape, List.flatMap_cons, ← escape, utf8_append, feed_append, feed_escapeChar, ih]

/-- A string literal inside a value. -/
theorem feed_literal (s : List Char) (d : ℕ) :
    feed (.more (.inside d)) (utf8 ('"' :: (escape s ++ ['"']))) = .more (.inside d) := by
  have hopen : feed (.more (.inside d)) (utf8 ['"']) = .more (.string (d + 1)) := rfl
  rw [← List.singleton_append, utf8_append, feed_append, hopen, utf8_append, feed_append,
    feed_escape]
  rfl

theorem feed_renderKey (L : Layout) (key : String) (d : ℕ) :
    feed (.more (.inside d)) (utf8 (renderKey L key)) = .more (.inside d) := by
  have hkey : renderKey L key = '"' :: (escape key.toList ++ ['"']) ++ (':' :: L.space) := by
    simp [renderKey]
  rw [hkey, utf8_append, feed_append, feed_literal]
  refine feed_neutral (fun c hc => ?_) d
  rcases List.mem_cons.mp hc with rfl | hc
  · decide
  · exact isNeutral_of_isSpace (L.space_isSpace c hc)

theorem feed_newline (L : Layout) (n d : ℕ) :
    feed (.more (.inside d)) (utf8 (L.newline n)) = .more (.inside d) :=
  feed_neutral (fun c hc => isNeutral_of_isSpace (L.newline_isSpace n c hc)) d

/-- What a node's text leads to: a value to where it began, a tail out of the
brackets that it closes. -/
def leadsTo : Kind → ℕ → Progress
  | .value, d => .more (.inside d)
  | _, d => after d

/-- The text behind the bracket that opens an object. -/
theorem feed_object (L : Layout) {d e : ℕ} {ms : Node .members}
    (h : feed (.more (.inside e)) (utf8 (render L d ms)) = after e) :
    ∃ body, render L d (.obj ms) = '{' :: body ∧
      feed (.more (.inside e)) (utf8 body) = after e := by
  cases ms with
  | objNil => exact ⟨['}'], by rw [render], rfl⟩
  | objCons key v ms => exact ⟨_, by rw [render], by rw [render] at h; exact h⟩

/-- The induction is on the node; a comma is read over, so the elements behind an
opening bracket are read like those behind a comma. -/
theorem feed_render (L : Layout) {k : Kind} (n : Node k) :
    ∀ d e, feed (.more (.inside e)) (utf8 (render L d n)) = leadsTo k e := by
  have comma : ∀ (e : ℕ) (s : List Char), feed (.more (.inside e)) (utf8 (',' :: s)) =
      feed (.more (.inside e)) (utf8 s) := fun e s => rfl
  induction n with
  | null => exact fun d e => by rw [render]; rfl
  | bool b => intro d e; cases b <;> (rw [render]; rfl)
  | num n =>
      intro d e
      rw [render]
      exact feed_neutral (fun c hc => isNeutral_of_isNumberChar
        ((isLiteral_renderInt n).chars c hc)) e
  | dec x =>
      intro d e
      rw [render]
      exact feed_neutral (fun c hc => isNeutral_of_isNumberChar (x.isLiteral.chars c hc)) e
  | str s =>
      intro d e
      rw [render]
      exact feed_literal s.toList e
  | arr xs ih =>
      intro d e
      cases xs with
      | nil => rw [render]; rfl
      | cons x xs =>
          have hxs := ih d (e + 1)
          rw [render, comma] at hxs
          rw [render]
          exact hxs
  | obj ms ih =>
      intro d e
      obtain ⟨body, hbody, hfeed⟩ := feed_object L (ih d (e + 1))
      rw [hbody]
      exact hfeed
  | nil | objNil =>
      intro d e
      rw [render, utf8_append, feed_append, feed_newline]
      rfl
  | cons x xs ihx ihxs =>
      intro d e
      rw [render, comma, utf8_append, utf8_append, feed_append, feed_append, feed_newline,
        ihx (d + 1) e]
      exact ihxs d e
  | objCons key v ms ihv ihms =>
      intro d e
      rw [render, comma, utf8_append, utf8_append, utf8_append, feed_append, feed_append,
        feed_append, feed_newline, feed_renderKey, ihv (d + 1) e]
      exact ihms d e

/-- The bytes an encoder writes for a value, without what it puts behind it. -/
def encode (L : Layout) (v : Value) : Bytes := utf8 (render L 0 v)

/-- **The bytes of an object are a value.** -/
theorem complete_encode (L : Layout) (ms : Node .members) : Complete (encode L (.obj ms)) := by
  obtain ⟨body, hbody, hfeed⟩ := feed_object L (feed_render L ms 0 0)
  rw [Complete, encode, hbody]
  exact hfeed

/-! ## Reading values from a connection -/

/-- `Decoder.Decode` up to the value: what the buffer holds of it, then read by read.
The results are the value, the buffer behind it and the reads still to come; there is
none at the end of the stream and where the bytes start no value. -/
def readValue (buf : Bytes) : List Bytes → Option (Bytes × Bytes × List Bytes)
  | [] =>
      match split .outside buf with
      | .done v rest => some (v, rest, [])
      | _ => none
  | r :: reads =>
      match split .outside buf with
      | .done v rest => some (v, rest, r :: reads)
      | .more => readValue (buf ++ r) reads
      | .bad => none

/-- Every value takes bytes off the stream. -/
theorem readValue_lt {buf : Bytes} {reads : List Bytes} {v buf' : Bytes} {reads' : List Bytes}
    (h : readValue buf reads = some (v, buf', reads')) :
    buf'.length + reads'.flatten.length < buf.length + reads.flatten.length := by
  have shorter : ∀ {bs v rest : Bytes}, split .outside bs = .done v rest →
      rest.length < bs.length := by
    intro bs v rest hsplit
    obtain ⟨hne, rfl⟩ := split_eq_done hsplit
    have hpos := List.length_pos_iff.mpr hne
    rw [List.length_append]
    omega
  induction reads generalizing buf with
  | nil =>
      rw [readValue] at h
      cases hsplit : split .outside buf with
      | done v rest =>
          simp only [hsplit] at h
          cases h
          exact Nat.add_lt_add_right (shorter hsplit) _
      | more | bad =>
          simp only [hsplit] at h
          cases h
  | cons r reads ih =>
      rw [readValue] at h
      cases hsplit : split .outside buf with
      | done v rest =>
          simp only [hsplit] at h
          cases h
          exact Nat.add_lt_add_right (shorter hsplit) _
      | more =>
          simp only [hsplit] at h
          have hlt := ih h
          rw [List.length_append] at hlt
          rw [List.flatten_cons, List.length_append]
          omega
      | bad =>
          simp only [hsplit] at h
          cases h

/-- The stream ends within a value. -/
theorem readValue_part {buf rest : Bytes} {reads : List Bytes}
    (h : Complete (buf ++ reads.flatten ++ rest)) (hrest : rest ≠ []) :
    readValue buf reads = none := by
  induction reads generalizing buf with
  | nil =>
      rw [List.flatten_nil, List.append_nil] at h
      rw [readValue, split_of_part h hrest]
  | cons r reads ih =>
      rw [List.flatten_cons, ← List.append_assoc] at h
      have hpart : split .outside buf = .more := by
        rw [List.append_assoc, List.append_assoc] at h
        exact split_of_part h fun hnil => hrest (List.append_eq_nil_iff.mp
          (List.append_eq_nil_iff.mp hnil).2).2
      rw [readValue, hpart]
      exact ih h

/-- The reads left when reading stops with `n` bytes or more. -/
def beyond : ℕ → List Bytes → List Bytes
  | 0, reads => reads
  | _ + 1, [] => []
  | n + 1, r :: reads => beyond (n + 1 - r.length) reads

@[simp] theorem beyond_nil (n : ℕ) : beyond n [] = [] := by
  cases n <;> rfl

theorem beyond_cons {n : ℕ} (h : 0 < n) (r : Bytes) (reads : List Bytes) :
    beyond n (r :: reads) = beyond (n - r.length) reads := by
  cases n with
  | zero => exact absurd h (Nat.lt_irrefl 0)
  | succ n => rfl

theorem beyond_suffix (n : ℕ) (reads : List Bytes) :
    (beyond n reads).flatten <:+ reads.flatten := by
  induction reads generalizing n with
  | nil => rw [beyond_nil]
  | cons r reads ih =>
      cases n with
      | zero => exact List.suffix_rfl
      | succ n => exact (ih _).trans (List.suffix_append r reads.flatten)

/-- **Where the decoder stops.**  It returns the first value, with as few reads as
bring its last byte.  The last part says that values are read one after the other as if
they were one: the reads beyond a further `n` bytes are the same either way. -/
theorem readValue_complete {v : Bytes} (h : Complete v) {buf : Bytes} {reads : List Bytes}
    {rest : Bytes} (hbytes : buf ++ reads.flatten = v ++ rest) :
    ∃ buf', readValue buf reads = some (v, buf', beyond (v.length - buf.length) reads) ∧
      buf' ++ (beyond (v.length - buf.length) reads).flatten = rest ∧
      ∀ n, beyond (v.length + n - buf.length) reads =
        beyond (n - buf'.length) (beyond (v.length - buf.length) reads) := by
  induction reads generalizing buf with
  | nil =>
      obtain rfl : buf = v ++ rest := by simpa using hbytes
      refine ⟨rest, ?_, ?_, ?_⟩
      · simp [readValue, split_of_done h]
      · simp
      · intro n
        rw [beyond_nil, beyond_nil, beyond_nil]
  | cons r reads ih =>
      rcases Nat.lt_or_ge buf.length v.length with hlt | hle
      · -- the value is not in the buffer yet
        obtain ⟨q, rfl⟩ : buf <+: v :=
          List.prefix_of_prefix_length_le ⟨_, hbytes⟩ ⟨rest, rfl⟩ hlt.le
        have hq : q ≠ [] := by
          rintro rfl
          simp at hlt
        have hpart : split .outside buf = .more := split_of_part h hq
        have hbytes' : (buf ++ r) ++ reads.flatten = (buf ++ q) ++ rest := by
          rw [List.append_assoc, ← List.flatten_cons, hbytes]
        have hbeyond : ∀ n, beyond ((buf ++ q).length + n - buf.length) (r :: reads) =
            beyond ((buf ++ q).length + n - (buf ++ r).length) reads := by
          intro n
          rw [beyond_cons (by simp only [List.length_append] at hlt ⊢; omega)]
          congr 1
          simp only [List.length_append]
          omega
        have hstop := hbeyond 0
        rw [Nat.add_zero] at hstop
        obtain ⟨buf', hread, hrest, hnext⟩ := ih hbytes'
        refine ⟨buf', ?_, ?_, ?_⟩
        · rw [readValue, hpart, hstop]
          exact hread
        · rw [hstop]
          exact hrest
        · intro n
          rw [hbeyond, hstop]
          exact hnext n
      · -- it is, and no read is needed
        obtain ⟨buf', rfl⟩ : v <+: buf :=
          List.prefix_of_prefix_length_le ⟨rest, rfl⟩ ⟨_, hbytes⟩ hle
        have hzero : v.length - (v ++ buf').length = 0 := by simp
        refine ⟨buf', ?_, ?_, ?_⟩
        · rw [readValue, split_of_done h, hzero, beyond]
        · rw [hzero, beyond]
          exact List.append_cancel_left (by rw [← List.append_assoc, hbytes])
        · intro n
          rw [hzero, beyond, List.length_append, Nat.add_sub_add_left]

/-- The first value of a stream, whatever the pieces are. -/
theorem readValue_flatten {v rest : Bytes} (h : Complete v) {reads : List Bytes}
    (hbytes : reads.flatten = v ++ rest) :
    ∃ buf' reads', readValue [] reads = some (v, buf', reads') := by
  obtain ⟨buf', hread, -, -⟩ :=
    readValue_complete h (show [] ++ reads.flatten = v ++ rest from hbytes)
  exact ⟨buf', _, hread⟩

/-! ## Where reads end -/

/-- Some read ends exactly behind these bytes of the stream. -/
def EndsRead (reads : List Bytes) (sent : Bytes) : Prop :=
  ∃ n, (reads.take n).flatten = sent

/-- A read ends behind the first `n` bytes. -/
def EndsAt (reads : List Bytes) (n : ℕ) : Prop := ∃ m, (reads.take m).flatten.length = n

/-- A read ends with what was sent exactly if it ends after so many bytes. -/
theorem endsRead_iff {reads : List Bytes} {sent rest : Bytes}
    (h : reads.flatten = sent ++ rest) : EndsRead reads sent ↔ EndsAt reads sent.length := by
  constructor
  · rintro ⟨m, hm⟩
    exact ⟨m, congrArg List.length hm⟩
  · rintro ⟨m, hm⟩
    refine ⟨m, ?_⟩
    have hprefix : (reads.take m).flatten <+: reads.flatten := by
      obtain ⟨t, ht⟩ := List.take_prefix m reads
      exact ⟨t.flatten, by rw [← List.flatten_append, ht]⟩
    exact (List.prefix_of_prefix_length_le hprefix ⟨rest, h.symm⟩ hm.le).eq_of_length hm

theorem endsAt_cons {r : Bytes} {reads : List Bytes} {n : ℕ} (h : 0 < n) :
    EndsAt (r :: reads) n ↔ r.length ≤ n ∧ EndsAt reads (n - r.length) := by
  constructor
  · rintro ⟨m, hm⟩
    cases m with
    | zero => exact absurd hm.symm h.ne'
    | succ m =>
        rw [List.take_succ_cons, List.flatten_cons, List.length_append] at hm
        exact ⟨by omega, m, by omega⟩
  · rintro ⟨hle, m, hm⟩
    refine ⟨m + 1, ?_⟩
    rw [List.take_succ_cons, List.flatten_cons, List.length_append]
    omega

theorem endsAt_zero (reads : List Bytes) : EndsAt reads 0 := ⟨0, rfl⟩

/-- Reading for `n` bytes stops exactly one byte behind them if and only if a read ends
there and none ends right behind the `n` bytes. -/
theorem beyond_length_iff {reads : List Bytes} {n : ℕ} (h : 0 < n)
    (hn : n < reads.flatten.length) :
    (beyond n reads).flatten.length + (n + 1) = reads.flatten.length ↔
      EndsAt reads (n + 1) ∧ ¬ EndsAt reads n := by
  induction reads generalizing n with
  | nil => exact absurd hn (Nat.not_lt_zero n)
  | cons r reads ih =>
      rw [List.flatten_cons, List.length_append] at hn ⊢
      rw [beyond_cons h, endsAt_cons h, endsAt_cons (Nat.succ_pos n)]
      -- the first read ends before the `n` bytes do, with them, or behind them
      rcases Nat.lt_trichotomy r.length n with hlt | heq | hgt
      · have ih := ih (n := n - r.length) (by omega) (by omega)
        rw [show n + 1 - r.length = n - r.length + 1 by omega]
        constructor
        · intro hbeyond
          obtain ⟨hends, hnot⟩ := ih.mp (by omega)
          exact ⟨⟨by omega, hends⟩, fun hn => hnot hn.2⟩
        · rintro ⟨⟨-, hends⟩, hnot⟩
          have hlen := ih.mpr ⟨hends, fun hn => hnot ⟨hlt.le, hn⟩⟩
          omega
      · rw [heq, Nat.sub_self, beyond]
        constructor
        · intro hbeyond
          omega
        · rintro ⟨-, hnot⟩
          exact absurd ⟨le_rfl, endsAt_zero reads⟩ hnot
      · rw [Nat.sub_eq_zero_of_le hgt.le, beyond]
        constructor
        · intro hbeyond
          have hlen : r.length = n + 1 := by omega
          rw [hlen, Nat.sub_self]
          exact ⟨⟨le_rfl, endsAt_zero reads⟩, fun hn => absurd hn.1 (by omega)⟩
        · rintro ⟨⟨hle, -⟩, -⟩
          omega

/-- **When the reads left are what follows.**  Behind the bytes `v` there is one more
byte, which reading for `v` takes along if and only if a read ends behind it and none
ends between the two. -/
theorem beyond_eq_iff {reads : List Bytes} {v input : Bytes} {b : UInt8} (hv : v ≠ [])
    (h : reads.flatten = v ++ b :: input) :
    (beyond v.length reads).flatten = input ↔
      EndsRead reads (v ++ [b]) ∧ ¬ EndsRead reads v := by
  have hsplit : reads.flatten = (v ++ [b]) ++ input := by rw [h]; simp
  have hlen : reads.flatten.length = v.length + 1 + input.length := by
    rw [h, List.length_append, List.length_cons]
    omega
  have hlt : v.length < reads.flatten.length := by omega
  have hiff := beyond_length_iff (List.length_pos_iff.mpr hv) hlt
  rw [endsRead_iff hsplit, endsRead_iff h, List.length_append, List.length_singleton, ← hiff]
  constructor
  · rintro rfl
    omega
  · intro hlength
    have hsuffix : (beyond v.length reads).flatten <:+ reads.flatten := beyond_suffix ..
    exact (List.suffix_of_suffix_length_le hsuffix ⟨_, hsplit.symm⟩ (by omega)).eq_of_length
      (by omega)

/-- Reading for `n` bytes stops right behind them if and only if a read ends there. -/
theorem beyond_length_eq_iff {reads : List Bytes} {n : ℕ} (hn : n ≤ reads.flatten.length) :
    (beyond n reads).flatten.length + n = reads.flatten.length ↔ EndsAt reads n := by
  induction reads generalizing n with
  | nil =>
      obtain rfl : n = 0 := Nat.le_zero.mp hn
      exact iff_of_true rfl (endsAt_zero [])
  | cons r reads ih =>
      rcases Nat.eq_zero_or_pos n with rfl | hpos
      · exact iff_of_true rfl (endsAt_zero _)
      · rw [List.flatten_cons, List.length_append] at hn ⊢
        rw [beyond_cons hpos, endsAt_cons hpos]
        rcases Nat.lt_or_ge n r.length with hlt | hle
        · -- the read goes on behind the `n` bytes
          rw [Nat.sub_eq_zero_of_le hlt.le, beyond]
          exact iff_of_false (by omega) fun h => absurd h.1 (Nat.not_le.mpr hlt)
        · have ih := ih (n := n - r.length) (by omega)
          rw [← ih]
          omega

/-- **When the reads left are all that follows**, with nothing taken along. -/
theorem beyond_eq_rest_iff {reads : List Bytes} {v rest : Bytes} (h : reads.flatten = v ++ rest) :
    (beyond v.length reads).flatten = rest ↔ EndsRead reads v := by
  have hlen : reads.flatten.length = v.length + rest.length := by rw [h, List.length_append]
  rw [endsRead_iff h, ← beyond_length_eq_iff (by omega)]
  constructor
  · rintro rfl
    omega
  · intro hlength
    have hsuffix : (beyond v.length reads).flatten <:+ reads.flatten := beyond_suffix ..
    exact (List.suffix_of_suffix_length_le hsuffix ⟨_, h.symm⟩ (by omega)).eq_of_length (by omega)

/-- What is left does not overlap with what was wanted. -/
theorem beyond_length_le {reads : List Bytes} {n : ℕ} (hn : n ≤ reads.flatten.length) :
    (beyond n reads).flatten.length + n ≤ reads.flatten.length := by
  induction reads generalizing n with
  | nil =>
      obtain rfl : n = 0 := Nat.le_zero.mp hn
      exact le_rfl
  | cons r reads ih =>
      rcases Nat.eq_zero_or_pos n with rfl | hpos
      · exact le_rfl
      · rw [List.flatten_cons, List.length_append] at hn ⊢
        rw [beyond_cons hpos]
        have ih := ih (n := n - r.length) (by omega)
        omega

/-- What the reads left bring is the end of what follows. -/
theorem beyond_suffix_rest {reads : List Bytes} {v rest : Bytes} (h : reads.flatten = v ++ rest) :
    (beyond v.length reads).flatten <:+ rest := by
  have hlen : reads.flatten.length = v.length + rest.length := by rw [h, List.length_append]
  have hle : (beyond v.length reads).flatten.length + v.length ≤ reads.flatten.length :=
    beyond_length_le (by omega)
  exact List.suffix_of_suffix_length_le (beyond_suffix ..) ⟨_, h.symm⟩ (by omega)

/-! ## Reading that is cut off -/

/-- A list that is its own continuation after one element has only this element. -/
theorem eq_replicate_of_take_cons {b : UInt8} {input : Bytes}
    (h : (b :: input).take input.length = input) : input = List.replicate input.length b := by
  induction input with
  | nil => rfl
  | cons c input ih =>
      rw [List.length_cons, List.take_succ_cons] at h
      obtain ⟨rfl, htail⟩ := List.cons.inj h
      rw [List.length_cons, List.replicate_succ, ← ih htail]

/-- **When reading that is cut off brings the input.**  What is there to read is the end of a byte
and the input behind it, and `brought` the beginning of that.  It is the input if there is no more
to read than the input, and all of it is brought; or if the byte stands in front, the input
consists of such bytes only, and as many as it has are brought. -/
theorem brought_eq_iff {left brought input : Bytes} {b : UInt8} (hleft : left <:+ b :: input)
    (hbrought : brought <+: left) :
    brought = input ↔ left = input ∧ input.length ≤ brought.length ∨
      left = b :: input ∧ input = List.replicate input.length b ∧
        brought.length = input.length := by
  constructor
  · rintro rfl
    rcases List.suffix_cons_iff.mp hleft with rfl | hshort
    · refine .inr ⟨rfl, eq_replicate_of_take_cons ?_, rfl⟩
      exact (List.prefix_iff_eq_take.mp hbrought).symm
    · have hlength := hbrought.length_le.antisymm hshort.length_le
      exact .inl ⟨hshort.eq_of_length hlength.symm, le_rfl⟩
  · rintro (⟨rfl, hlength⟩ | ⟨rfl, hall, hlength⟩)
    · exact hbrought.eq_of_length (hbrought.length_le.antisymm hlength)
    · have hcons : b :: input = List.replicate (input.length + 1) b := by
        rw [List.replicate_succ, ← hall]
      rw [hcons, List.prefix_replicate_iff, hlength] at hbrought
      exact hbrought.2.trans hall.symm

end Json
