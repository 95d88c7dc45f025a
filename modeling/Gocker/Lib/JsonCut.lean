import Gocker.Lib.JsonStream

/-!
# Values that are cut off

What a reader makes of a file that holds only the first bytes of a value.

* `readUtf8` is the text of any bytes, with the replacement character for each byte that is
  part of no character, as Go's `encoding/json` reads strings.
* `Scanned` connects the reader with the scanner of a stream: whatever `parse` takes off a
  text, the scanner reads to the same end (`parse_scanned`).
* `decode_cut` is the consequence: the bytes of an object do not decode without the last one.
* `decode_array_append` is another one, for texts that are written over longer ones: with
  anything but white space behind it an array does not decode.

### Use

A file that is replaced by writing over it holds a beginning of the new text when the writer is
interrupted, or the new text with the end of a longer old one behind it when two writers
overlap.  In the first case the file does not decode, as long as the last bytes of the object are
missing; in the second it decodes only if what is behind is white space.  So a reader gets a
value that was written, or an error.
-/

namespace Json

/-! ## The text of any bytes -/

/-- U+FFFD -/
def replacement : Char := Char.ofNat 0xFFFD

/-- The first argument counts the bytes that belong to the character read last. -/
def readUtf8From : ℕ → Bytes → List Char
  | _, [] => []
  | n + 1, _ :: bs => readUtf8From n bs
  | 0, b :: bs =>
      match (b :: bs).toByteArray.utf8DecodeChar? 0 with
      | some c => c :: readUtf8From (c.utf8Size - 1) bs
      | none => replacement :: readUtf8From 0 bs

/-- The text of some bytes. -/
def readUtf8 (bs : Bytes) : List Char := readUtf8From 0 bs

/-- Bytes that have been read already are passed over. -/
theorem readUtf8From_append (s bs : Bytes) : readUtf8From s.length (s ++ bs) = readUtf8 bs := by
  induction s with
  | nil => rfl
  | cons b s ih => exact ih

theorem readUtf8_char (c : Char) (bs : Bytes) :
    readUtf8 (String.utf8EncodeChar c ++ bs) = c :: readUtf8 bs := by
  obtain ⟨b, tail, hb⟩ : ∃ b tail, String.utf8EncodeChar c = b :: tail := by
    refine List.exists_cons_of_ne_nil (List.length_pos_iff.mp ?_)
    rw [String.length_utf8EncodeChar]
    exact c.utf8Size_pos
  have hdecode : (b :: (tail ++ bs)).toByteArray.utf8DecodeChar? 0 = some c := by
    rw [← List.cons_append, ← hb, List.toByteArray_append]
    exact ByteArray.utf8DecodeChar?_utf8EncodeChar_append
  have hsize : c.utf8Size - 1 = tail.length := by
    rw [← String.length_utf8EncodeChar, hb]
    rfl
  rw [hb, List.cons_append, readUtf8, readUtf8From]
  simp only [hdecode, hsize, readUtf8From_append]

theorem readUtf8_append (s : List Char) (bs : Bytes) :
    readUtf8 (utf8 s ++ bs) = s ++ readUtf8 bs := by
  induction s with
  | nil => rfl
  | cons c s ih => rw [utf8_cons, List.append_assoc, readUtf8_char, ih, List.cons_append]

@[simp] theorem readUtf8_utf8 (s : List Char) : readUtf8 (utf8 s) = s := by
  have h := readUtf8_append s []
  rwa [List.append_nil, show readUtf8 [] = [] from rfl, List.append_nil] at h

/-- A character whose first byte is at least 128 is not ASCII. -/
theorem toNat_of_utf8DecodeChar? {b : UInt8} {bs : Bytes} {c : Char} (hb : 128 ≤ b.toNat)
    (h : (b :: bs).toByteArray.utf8DecodeChar? 0 = some c) : 128 ≤ c.toNat := by
  by_contra hlt
  rcases utf8EncodeChar_cases c with ⟨hascii, heq⟩ | ⟨hle, -⟩
  · have hsize : c.utf8Size = 1 := by rw [← String.length_utf8EncodeChar, heq]; rfl
    have hbytes := String.toByteArray_utf8EncodeChar_of_utf8DecodeChar?_eq_some h
    rw [heq, hsize] at hbytes
    have hdata := congrArg (fun x => x.data.toList) hbytes
    simp only [List.data_toByteArray, ByteArray.data_extract, List.extract_toArray,
      List.extract_eq_take_drop, tsub_zero, List.drop_zero, List.take_succ_cons, List.take_zero,
      List.cons.injEq, and_true] at hdata
    rw [← hdata, UInt8.toNat_ofNat'] at hb
    omega
  · exact hlt hle

/-- Bytes beyond ASCII give characters beyond ASCII. -/
theorem readUtf8From_high {bs : Bytes} (h : ∀ b ∈ bs, 128 ≤ b.toNat) (n : ℕ) :
    ∀ c ∈ readUtf8From n bs, 128 ≤ c.toNat := by
  induction bs generalizing n with
  | nil => cases n <;> exact nofun
  | cons b bs ih =>
      have ih := ih fun b hb => h b (List.mem_cons_of_mem _ hb)
      cases n with
      | succ n => exact ih n
      | zero =>
          rw [readUtf8From]
          cases hdecode : (b :: bs).toByteArray.utf8DecodeChar? 0 with
          | some c =>
              intro x hx
              rcases List.mem_cons.mp hx with rfl | hx
              · exact toNat_of_utf8DecodeChar? (h b List.mem_cons_self) hdecode
              · exact ih _ x hx
          | none =>
              intro x hx
              rcases List.mem_cons.mp hx with rfl | hx
              · decide
              · exact ih _ x hx

/-- A part of the bytes of a text: the bytes of a part of the text, and some of the bytes of a
character that is not ASCII. -/
theorem take_utf8 (n : ℕ) (t : List Char) (hn : n < (utf8 t).length) :
    ∃ p c q cut, t = p ++ c :: q ∧ (utf8 t).take n = utf8 p ++ cut ∧
      ∀ b ∈ cut, 128 ≤ b.toNat ∧ 128 ≤ c.toNat := by
  induction t generalizing n with
  | nil => exact absurd hn (Nat.not_lt_zero n)
  | cons c t ih =>
      rw [utf8_cons, List.length_append] at hn
      rw [utf8_cons, List.take_append]
      rcases Nat.lt_or_ge n (String.utf8EncodeChar c).length with hlt | hle
      · refine ⟨[], c, t, (String.utf8EncodeChar c).take n, rfl, ?_, fun b hb => ?_⟩
        · rw [Nat.sub_eq_zero_of_le hlt.le, List.take_zero, List.append_nil]
          rfl
        · rcases utf8EncodeChar_cases c with ⟨-, heq⟩ | ⟨hc, hhigh⟩
          · rw [heq, List.length_singleton, Nat.lt_one_iff] at hlt
            rw [hlt] at hb
            cases hb
          · exact ⟨hhigh b (List.mem_of_mem_take hb), hc⟩
      · obtain ⟨p, c', q, cut, rfl, htake, hcut⟩ :=
          ih (n - (String.utf8EncodeChar c).length) (by omega)
        refine ⟨c :: p, c', q, cut, rfl, ?_, hcut⟩
        rw [htake, List.take_of_length_le hle, utf8_cons, List.append_assoc]

/-! ## What the reader takes, the scanner reads -/

/-- What a reader leaves does not depend on what is made of its value. -/
theorem eq_some_of_map {α β : Type} {p : Option (α × List Char)}
    {f : α × List Char → β × List Char} {b : β} {r : List Char} (h : p.map f = some (b, r))
    (hf : ∀ q, (f q).2 = q.2 := by exact fun _ => rfl) : ∃ a, p = some (a, r) := by
  obtain ⟨⟨a, r'⟩, hp, heq⟩ := Option.map_eq_some_iff.mp h
  have hr := hf (a, r')
  rw [heq] at hr
  exact ⟨a, hp.trans (congrArg (fun r => some (a, r)) hr.symm)⟩

/-- A text is read up to `r`: the scanner, inside a value, gets there too. -/
def Scanned (k : Kind) (s r : List Char) : Prop :=
  ∃ u, s = u ++ r ∧ ∀ d, feed (.more (.inside d)) (utf8 u) = leadsTo k d

/-- The scanner reads two parts of a text one after the other. -/
theorem feed_utf8_append (p : Progress) (s t : List Char) :
    feed p (utf8 (s ++ t)) = feed (feed p (utf8 s)) (utf8 t) := by
  rw [utf8_append, feed_append]

/-- Characters that mean nothing to the scanner leave it where it is. -/
theorem takeWhile_neutral {p : Char → Bool} (h : ∀ c, p c = true → isNeutral c = true)
    (s : List Char) (d : ℕ) :
    feed (.more (.inside d)) (utf8 (s.takeWhile p)) = .more (.inside d) :=
  feed_neutral (fun c hc => h c (List.mem_takeWhile_imp hc)) d

/-- White space in front makes no difference. -/
theorem Scanned.of_skipSpace {k : Kind} {s r : List Char} (h : Scanned k (skipSpace s) r) :
    Scanned k s r := by
  obtain ⟨u, hu, hfeed⟩ := h
  refine ⟨s.takeWhile isSpace ++ u, ?_, fun d => ?_⟩
  · rw [List.append_assoc, ← hu, skipSpace, List.takeWhile_append_dropWhile]
  · rw [feed_utf8_append, takeWhile_neutral (fun _ => isNeutral_of_isSpace), hfeed]

/-- A character that the scanner reads over. -/
theorem Scanned.cons {k : Kind} {c : Char} {s r : List Char} (hc : isNeutral c = true)
    (h : Scanned k s r) : Scanned k (c :: s) r := by
  obtain ⟨u, rfl, hfeed⟩ := h
  refine ⟨c :: u, rfl, fun d => ?_⟩
  rw [← List.singleton_append, feed_utf8_append, feed_neutral (by simpa using hc), hfeed]

/-- What follows a value. -/
theorem Scanned.trans {k : Kind} {s s' r : List Char} (h : Scanned .value s s')
    (h' : Scanned k s' r) : Scanned k s r := by
  obtain ⟨u, rfl, hfeed⟩ := h
  obtain ⟨u', rfl, hfeed'⟩ := h'
  refine ⟨u ++ u', by rw [List.append_assoc], fun d => ?_⟩
  rw [feed_utf8_append, hfeed]
  exact hfeed' d

/-- A value that is one word. -/
theorem Scanned.word {u : List Char} (hu : u.all isNeutral = true) (r : List Char) :
    Scanned .value (u ++ r) r :=
  ⟨u, rfl, feed_neutral (List.all_eq_true.mp hu)⟩

/-- The comma that stands before a first element or member. -/
theorem Scanned.of_comma {k : Kind} {s r : List Char} (h : Scanned k (',' :: s) r)
    (hk : k ≠ .value) : Scanned k s r := by
  obtain ⟨u, hu, hfeed⟩ := h
  cases u with
  | nil => cases k <;> first | exact absurd rfl hk | exact absurd (hfeed 0) (by decide)
  | cons c u =>
      obtain ⟨rfl, rfl⟩ := List.cons.inj hu
      exact ⟨u, rfl, hfeed⟩

theorem Scanned.arr {s r : List Char} (h : Scanned .elements s r) :
    Scanned .value ('[' :: s) r := by
  obtain ⟨u, rfl, hfeed⟩ := h
  refine ⟨'[' :: u, rfl, fun d => ?_⟩
  rw [← List.singleton_append, feed_utf8_append]
  exact hfeed (d + 1)

theorem Scanned.obj {s r : List Char} (h : Scanned .members s r) :
    Scanned .value ('{' :: s) r := by
  obtain ⟨u, rfl, hfeed⟩ := h
  refine ⟨'{' :: u, rfl, fun d => ?_⟩
  rw [← List.singleton_append, feed_utf8_append]
  exact hfeed (d + 1)

/-- The bracket that closes an array. -/
theorem Scanned.close_arr (r : List Char) : Scanned .elements (']' :: r) r :=
  ⟨[']'], rfl, fun _ => rfl⟩

/-- The brace that closes an object. -/
theorem Scanned.close_obj (r : List Char) : Scanned .members ('}' :: r) r :=
  ⟨['}'], rfl, fun _ => rfl⟩

/-! ### Strings -/

theorem unhex4_plain {a b c d : Char} {n : ℕ} (h : unhex4 a b c d = some n) :
    ∀ x ∈ [a, b, c, d], x ≠ '"' ∧ x ≠ '\\' := by
  have plain : ∀ {x m}, hexVal x = some m → x ≠ '"' ∧ x ≠ '\\' := by
    intro x m hx
    constructor <;>
      · rintro rfl
        cases hx
  simp only [unhex4, Option.bind_eq_bind, Option.bind_eq_some_iff] at h
  obtain ⟨_, ha, _, hb, _, hc, _, hd, -⟩ := h
  intro x hx
  simp only [List.mem_cons, List.not_mem_nil, or_false] at hx
  rcases hx with rfl | rfl | rfl | rfl
  · exact plain ha
  · exact plain hb
  · exact plain hc
  · exact plain hd

/-- The text of a string up to its end. -/
theorem pieces_scanned {s r : List Char} {ps : List Piece} (h : pieces s = some (ps, r)) :
    ∃ u, s = u ++ r ∧ ∀ d, feed (.more (.string d)) (utf8 u) = after d := by
  -- one step: what the scanner reads over in a string
  have step : ∀ {a t : List Char} {ps : List Piece} {p : Piece},
      push p (pieces t) = some (ps, r) →
      (∀ ps, pieces t = some (ps, r) →
        ∃ u, t = u ++ r ∧ ∀ d, feed (.more (.string d)) (utf8 u) = after d) →
      (∀ d, feed (.more (.string d)) (utf8 a) = .more (.string d)) →
      ∃ u, a ++ t = u ++ r ∧ ∀ d, feed (.more (.string d)) (utf8 u) = after d := by
    intro a t ps p hpush ih ha
    obtain ⟨q, hq, heq⟩ := Option.map_eq_some_iff.mp hpush
    obtain ⟨-, rfl⟩ := Prod.mk.inj heq
    obtain ⟨u, rfl, hfeed⟩ := ih q.1 hq
    refine ⟨a ++ u, by rw [List.append_assoc], fun d => ?_⟩
    rw [feed_utf8_append, ha, hfeed]
  fun_induction pieces s generalizing ps with
  | case1 => cases h
  | case2 t =>
      cases h
      exact ⟨['"'], rfl, fun d => rfl⟩
  | case3 t ih => exact step (a := ['\\', '"']) h (fun _ => ih) fun d => rfl
  | case4 t ih => exact step (a := ['\\', '\\']) h (fun _ => ih) fun d => rfl
  | case5 t ih => exact step (a := ['\\', '/']) h (fun _ => ih) fun d => rfl
  | case6 t ih => exact step (a := ['\\', 'n']) h (fun _ => ih) fun d => rfl
  | case7 t ih => exact step (a := ['\\', 'r']) h (fun _ => ih) fun d => rfl
  | case8 t ih => exact step (a := ['\\', 't']) h (fun _ => ih) fun d => rfl
  | case9 t ih => exact step (a := ['\\', 'b']) h (fun _ => ih) fun d => rfl
  | case10 t ih => exact step (a := ['\\', 'f']) h (fun _ => ih) fun d => rfl
  | case11 a b c d t ih =>
      obtain ⟨n, hn, h⟩ := Option.bind_eq_some_iff.mp h
      have plain := unhex4_plain hn
      refine step (a := ['\\', 'u', a, b, c, d]) h (fun _ => ih) fun e => ?_
      have digit : ∀ x ∈ [a, b, c, d], feed (.more (.string e)) (String.utf8EncodeChar x) =
          .more (.string e) := fun x hx => feed_plain (plain x hx).1 (plain x hx).2 e
      have hstart : feed (.more (.string e)) (utf8 ['\\', 'u']) = .more (.string e) := rfl
      rw [show ['\\', 'u', a, b, c, d] = ['\\', 'u'] ++ [a, b, c, d] from rfl,
        feed_utf8_append, hstart]
      simp only [utf8_cons, utf8_nil, List.append_nil, feed_append, digit, List.mem_cons, true_or,
        or_true]
  | case12 => cases h
  | case13 => cases h
  | case14 c t hquote _ _ _ _ _ _ _ _ _ hbackslash hc ih =>
      refine step (a := [c]) h (fun _ => ih) fun d => ?_
      rw [utf8_cons, utf8_nil, List.append_nil]
      exact feed_plain hquote hbackslash d

/-- A string literal. -/
theorem scanned_string {s r : List Char} {x : String} (h : stringTail s = some (x, r)) :
    Scanned .value ('"' :: s) r := by
  obtain ⟨ps, hpieces⟩ := eq_some_of_map h
  obtain ⟨u, rfl, hfeed⟩ := pieces_scanned hpieces
  refine ⟨'"' :: u, rfl, fun d => ?_⟩
  rw [← List.singleton_append, feed_utf8_append]
  exact hfeed (d + 1)

/-- A number is read over. -/
theorem number_scanned {s r : List Char} {v : Value} (h : number s = some (v, r)) :
    Scanned .value s r := by
  unfold number at h
  split at h
  · next t r' hread =>
      obtain ⟨-, rfl⟩ := Prod.mk.inj (Option.some.inj h)
      refine ⟨t, Part.lawful_number.takes hread, fun d => ?_⟩
      exact feed_neutral
        (fun c hc => isNeutral_of_isNumberChar (Part.lawful_number.chars hread c hc)) d
  · cases h

theorem parseKey_scanned {s r : List Char} {key : String} (h : parseKey s = some (key, r)) :
    Scanned .value s r := by
  refine Scanned.of_skipSpace ?_
  unfold parseKey at h
  split at h
  · next t ht =>
      obtain ⟨⟨x, t'⟩, hstring, h⟩ := Option.bind_eq_some_iff.mp h
      split at h
      · next t'' ht' =>
          obtain ⟨-, rfl⟩ := Prod.mk.inj (Option.some.inj h)
          rw [ht]
          refine (scanned_string hstring).trans (Scanned.of_skipSpace ?_)
          have ht' : skipSpace t' = ':' :: t'' := ht'
          rw [ht']
          exact .word (u := [':']) rfl t''
      · cases h
  · cases h

section
variable {f : ℕ} {s r : List Char}
  (ih : ∀ {k : Kind} {s r : List Char} {n : Node k}, parse f k s = some (n, r) → Scanned k s r)
include ih

/-- The elements or members behind an opening bracket. -/
theorem tail_scanned {k : Kind} {g : Node k → Value} {v : Value} (hk : k ≠ .value)
    (h : (parse f k (',' :: s)).map (fun xs => (g xs.1, xs.2)) = some (v, r)) : Scanned k s r := by
  obtain ⟨xs, hxs⟩ := eq_some_of_map h
  exact (ih hxs).of_comma hk

theorem value_scanned {v : Value} (h : parse (f + 1) .value s = some (v, r)) :
    Scanned .value s r := by
  refine Scanned.of_skipSpace ?_
  simp only [parse] at h
  split at h
  · next t ht =>
      obtain ⟨-, rfl⟩ := Prod.mk.inj (Option.some.inj h)
      rw [ht]
      exact .word (u := ['n', 'u', 'l', 'l']) rfl t
  · next t ht =>
      obtain ⟨-, rfl⟩ := Prod.mk.inj (Option.some.inj h)
      rw [ht]
      exact .word (u := ['t', 'r', 'u', 'e']) rfl t
  · next t ht =>
      obtain ⟨-, rfl⟩ := Prod.mk.inj (Option.some.inj h)
      rw [ht]
      exact .word (u := ['f', 'a', 'l', 's', 'e']) rfl t
  · next t ht =>
      obtain ⟨x, hstring⟩ := eq_some_of_map h
      rw [ht]
      exact scanned_string hstring
  · next t ht =>
      rw [ht]
      split at h
      · next t' ht' =>
          obtain ⟨-, rfl⟩ := Prod.mk.inj (Option.some.inj h)
          refine Scanned.arr (Scanned.of_skipSpace ?_)
          rw [ht']
          exact .close_arr _
      · exact Scanned.arr (tail_scanned ih (fun heq => by cases heq) h)
  · next t ht =>
      rw [ht]
      split at h
      · next t' ht' =>
          obtain ⟨-, rfl⟩ := Prod.mk.inj (Option.some.inj h)
          refine Scanned.obj (Scanned.of_skipSpace ?_)
          rw [ht']
          exact .close_obj _
      · exact Scanned.obj (tail_scanned ih (fun heq => by cases heq) h)
  · exact number_scanned h

/-- A comma, an element and what follows, or the bracket that closes the array. -/
theorem elements_scanned {xs : Node .elements} (h : parse (f + 1) .elements s = some (xs, r)) :
    Scanned .elements s r := by
  refine Scanned.of_skipSpace ?_
  simp only [parse] at h
  split at h
  · next t ht =>
      obtain ⟨⟨x, t'⟩, hx, h⟩ := Option.bind_eq_some_iff.mp h
      obtain ⟨xs, hxs⟩ := eq_some_of_map h
      rw [ht]
      exact ((ih hx).cons (by decide)).trans (ih hxs)
  · next t ht =>
      obtain ⟨-, rfl⟩ := Prod.mk.inj (Option.some.inj h)
      rw [ht]
      exact .close_arr _
  · cases h

/-- A comma, a member and what follows, or the brace that closes the object. -/
theorem members_scanned {ms : Node .members} (h : parse (f + 1) .members s = some (ms, r)) :
    Scanned .members s r := by
  refine Scanned.of_skipSpace ?_
  simp only [parse] at h
  split at h
  · next t ht =>
      obtain ⟨⟨key, t'⟩, hkey, h⟩ := Option.bind_eq_some_iff.mp h
      obtain ⟨⟨v, t''⟩, hv, h⟩ := Option.bind_eq_some_iff.mp h
      obtain ⟨ms, hms⟩ := eq_some_of_map h
      rw [ht]
      exact ((parseKey_scanned hkey).cons (by decide)).trans ((ih hv).trans (ih hms))
  · next t ht =>
      obtain ⟨-, rfl⟩ := Prod.mk.inj (Option.some.inj h)
      rw [ht]
      exact .close_obj _
  · cases h

end

/-- **The scanner follows the reader.**  The induction is on the reader's bound. -/
theorem parse_scanned {f : ℕ} {k : Kind} {s r : List Char} {n : Node k}
    (h : parse f k s = some (n, r)) : Scanned k s r := by
  induction f generalizing k s r with
  | zero => cases h
  | succ f ih =>
      cases k with
      | value => exact value_scanned ih h
      | elements => exact elements_scanned ih h
      | members => exact members_scanned ih h

/-! ## A value that is cut off -/

/-- The scanner is in the middle of an array or an object. -/
def Scan.isOpen : Scan → Bool
  | .inside _ | .string _ | .escape _ => true
  | .outside | .word _ => false

/-- Once the scanner is in a value, it stays there until the value ends. -/
theorem Scan.open_next {s t : Scan} {b : UInt8} (hs : s.isOpen = true) (h : s.next b = .more t) :
    t.isOpen = true := by
  cases s with
  | outside | word => cases hs
  | inside d =>
      simp only [Scan.next] at h
      split_ifs at h
      · cases h; rfl
      · cases d <;> cases h; rfl
      · cases h; rfl
      · cases h; rfl
  | string d =>
      simp only [Scan.next] at h
      split_ifs at h
      · cases d <;> cases h; rfl
      · cases h; rfl
      · cases h; rfl
  | escape d => cases h; rfl

/-- Bytes that are not ASCII neither open nor close anything. -/
theorem Scan.high_next {s : Scan} {b : UInt8} (hs : s.isOpen = true) (hb : 128 ≤ b.toNat) :
    ∃ t, s.next b = .more t := by
  have ne : ∀ c : Char, c.toNat < 128 → b ≠ byte c := by
    rintro c hc rfl
    rw [byte, UInt8.toNat_ofNat'] at hb
    omega
  have hquote := ne '"' (by decide)
  have hbackslash := ne '\\' (by decide)
  have hopens : opens b = false := by simp [opens, ne]
  have hcloses : closes b = false := by simp [closes, ne]
  cases s with
  | outside | word => cases hs
  | inside d => exact ⟨.inside d, by simp [Scan.next, hopens, hcloses, hquote]⟩
  | string d => exact ⟨.string d, by simp [Scan.next, hquote, hbackslash]⟩
  | escape d => exact ⟨_, rfl⟩

/-- Inside a value, the scanner stays there on bytes that are not ASCII. -/
theorem feed_high {s : Scan} {bs : Bytes} (hs : s.isOpen = true) (h : ∀ b ∈ bs, 128 ≤ b.toNat) :
    ∃ t, feed (.more s) bs = .more t := by
  induction bs generalizing s with
  | nil => exact ⟨s, rfl⟩
  | cons b bs ih =>
      obtain ⟨t, ht⟩ := Scan.high_next hs (h b List.mem_cons_self)
      have hfeed := ih (Scan.open_next hs ht) fun b hb => h b (List.mem_cons_of_mem _ hb)
      rw [feed_cons, Progress.feed, ht]
      exact hfeed

/-- In a part of what is inside a bracket, the scanner is inside it. -/
theorem feed_part {s : Scan} {p q : Bytes} (hs : s.isOpen = true)
    (h : feed (.more s) (p ++ q) = .done) (hq : q ≠ []) :
    ∃ t, feed (.more s) p = .more t ∧ t.isOpen = true := by
  induction p generalizing s with
  | nil => exact ⟨s, rfl, hs⟩
  | cons b p ih =>
      have h : feed (s.next b) (p ++ q) = .done := h
      cases hb : s.next b with
      | more t =>
          rw [hb] at h
          obtain ⟨t', hfeed, hopen⟩ := ih (Scan.open_next hs hb) h
          refine ⟨t', ?_, hopen⟩
          rw [feed_cons, Progress.feed, hb]
          exact hfeed
      | done =>
          rw [hb] at h
          obtain ⟨c, r, hpq⟩ := List.exists_cons_of_ne_nil (List.append_ne_nil_of_right_ne_nil p hq)
          rw [hpq] at h
          exact absurd ((feed_bad r).symm.trans h) (by decide)
      | bad =>
          rw [hb, feed_bad] at h
          cases h

/-- Characters beyond ASCII have bytes beyond ASCII. -/
theorem utf8_high {s : List Char} (h : ∀ c ∈ s, 128 ≤ c.toNat) : ∀ b ∈ utf8 s, 128 ≤ b.toNat := by
  intro b hb
  obtain ⟨c, hc, hb⟩ := List.mem_flatMap.mp hb
  rcases utf8EncodeChar_cases c with ⟨hlt, -⟩ | ⟨-, hhigh⟩
  · exact absurd (h c hc) (Nat.not_le.mpr hlt)
  · exact hhigh b hb

/-- Behind its opening bracket an object is read to the bracket that closes it. -/
theorem parse_object_scanned {f : ℕ} {s r : List Char} {v : Value}
    (h : parse f .value ('{' :: s) = some (v, r)) : Scanned .members s r := by
  cases f with
  | zero => cases h
  | succ f =>
      rw [parse_brace] at h
      split at h
      · next t ht =>
          obtain ⟨-, rfl⟩ := Prod.mk.inj (Option.some.inj h)
          refine Scanned.of_skipSpace ?_
          rw [ht]
          exact .close_obj _
      · obtain ⟨ms, hms⟩ := eq_some_of_map h
        exact (parse_scanned hms).of_comma fun heq => by cases heq

/-- A text that opens a bracket and does not close it does not decode. -/
theorem decode_open {s : List Char} {t : Scan}
    (h : feed (.more (.inside 0)) (utf8 s) = .more t) : decode ('{' :: s) = none := by
  unfold decode
  split
  · next v r hparse =>
      obtain ⟨u, rfl, hdone⟩ := parse_object_scanned hparse
      rw [feed_utf8_append, hdone 0] at h
      -- nothing follows what the scanner takes for complete
      cases hr : utf8 r with
      | nil =>
          rw [hr] at h
          cases h
      | cons b bs =>
          rw [hr] at h
          cases (feed_bad bs).symm.trans h
  · rfl

/-- **The bytes of an object do not decode without the last one.** -/
theorem decode_cut (L : Layout) (ms : Node .members) {n : ℕ}
    (hn : n < (encode L (.obj ms)).length) :
    decode (readUtf8 ((encode L (.obj ms)).take n)) = none := by
  obtain ⟨body, hbody, hfeed⟩ := feed_object L (feed_render L ms 0 0)
  rw [encode, hbody] at hn ⊢
  obtain ⟨p, c, q, cut, ht, htake, hcut⟩ := take_utf8 n _ hn
  rw [htake, readUtf8_append]
  cases p with
  | nil =>
      -- not even the bracket
      obtain ⟨rfl, -⟩ := List.cons.inj ht
      cases cut with
      | nil => rfl
      | cons b cut => exact absurd (hcut b List.mem_cons_self).2 (by decide)
  | cons c' p =>
      obtain ⟨rfl, heq⟩ := List.cons.inj ht
      have hrest : utf8 (c :: q) ≠ [] := by
        rw [utf8_cons]
        exact List.append_ne_nil_of_left_ne_nil String.utf8EncodeChar_ne_nil _
      rw [heq, List.append_eq, utf8_append] at hfeed
      obtain ⟨t, hpart, hopen⟩ := feed_part rfl hfeed hrest
      obtain ⟨t', hmore⟩ := feed_high hopen
        (utf8_high (readUtf8From_high (fun b hb => (hcut b hb).1) 0))
      refine decode_open (t := t') ?_
      rw [List.append_eq, feed_utf8_append, hpart]
      exact hmore

/-! ## A value with something behind it -/

/-- Behind its opening bracket an array is read to the bracket that closes it. -/
theorem parse_array_scanned {f : ℕ} {s r : List Char} {v : Value}
    (h : parse f .value ('[' :: s) = some (v, r)) : Scanned .elements s r := by
  cases f with
  | zero => cases h
  | succ f =>
      rw [parse_bracket] at h
      split at h
      · next t ht =>
          obtain ⟨-, rfl⟩ := Prod.mk.inj (Option.some.inj h)
          refine Scanned.of_skipSpace ?_
          rw [ht]
          exact .close_arr _
      · obtain ⟨xs, hxs⟩ := eq_some_of_map h
        exact (parse_scanned hxs).of_comma fun heq => by cases heq

/-- The text behind the bracket that opens an array. -/
theorem feed_array (L : Layout) (xs : Node .elements) :
    ∃ body, render L 0 (.arr xs) = '[' :: body ∧
      feed (.more (.inside 0)) (utf8 body) = .done := by
  have hfeed := feed_render L xs 0 0
  cases xs with
  | nil => exact ⟨[']'], by rw [render], rfl⟩
  | cons x xs => exact ⟨_, by rw [render], by rw [render] at hfeed; exact hfeed⟩

/-- Nothing follows what the scanner takes for complete. -/
theorem nil_of_feed_done {s : List Char} {p : Progress} (h : feed .done (utf8 s) = p)
    (hp : p ≠ .bad) : s = [] := by
  cases s with
  | nil => rfl
  | cons c s =>
      obtain ⟨b, bs, hc⟩ := List.exists_cons_of_ne_nil (String.utf8EncodeChar_ne_nil (c := c))
      rw [utf8_cons, hc, List.cons_append, feed_cons] at h
      exact absurd (h.symm.trans (feed_bad _)) hp

/-- The scanner stops at one place only. -/
theorem append_inj_of_done {s : Scan} {u u' r r' : List Char}
    (h : feed (.more s) (utf8 u) = .done) (h' : feed (.more s) (utf8 u') = .done)
    (heq : u ++ r = u' ++ r') : r = r' := by
  rcases List.append_eq_append_iff.mp heq with ⟨w, rfl, rfl⟩ | ⟨w, rfl, rfl⟩
  · rw [feed_utf8_append, h] at h'
    rw [nil_of_feed_done h' (by decide), List.nil_append]
  · rw [feed_utf8_append, h'] at h
    rw [nil_of_feed_done h (by decide), List.nil_append]

/-- **An array with anything behind it** decodes as the array, or not at all. -/
theorem decode_array_append (L : Layout) (xs : Node .elements) (tail : List Char) :
    decode (render L 0 (.arr xs) ++ tail) =
      if skipSpace tail = [] then some (.arr xs) else none := by
  split_ifs with htail
  · exact decode_render L (.arr xs) (List.dropWhile_eq_nil_iff.mp htail)
  · obtain ⟨body, hbody, hfeed⟩ := feed_array L xs
    rw [hbody, List.cons_append, decode]
    split
    · next v r hparse =>
        obtain ⟨u, hu, hdone⟩ := parse_array_scanned hparse
        rw [if_neg]
        rwa [← append_inj_of_done hfeed (hdone 0) hu]
    · rfl

/-- **An array does not decode without its end.** -/
theorem decode_array_take (L : Layout) (xs : Node .elements) {n : ℕ}
    (hn : n < (render L 0 (.arr xs)).length) : decode ((render L 0 (.arr xs)).take n) = none := by
  obtain ⟨body, hbody, hfeed⟩ := feed_array L xs
  rw [hbody] at hn ⊢
  cases n with
  | zero => rfl
  | succ n =>
      have hrest : utf8 (body.drop n) ≠ [] := by
        obtain ⟨c, q, hq⟩ := List.exists_cons_of_ne_nil (show body.drop n ≠ [] by
          rw [ne_eq, List.drop_eq_nil_iff, not_le]
          exact Nat.lt_of_succ_lt_succ hn)
        rw [hq, utf8_cons]
        exact List.append_ne_nil_of_left_ne_nil String.utf8EncodeChar_ne_nil _
      rw [← List.take_append_drop n body, utf8_append] at hfeed
      obtain ⟨t, hpart, -⟩ := feed_part rfl hfeed hrest
      rw [List.take_succ_cons, decode]
      split
      · next v r hparse =>
          obtain ⟨u, hu, hdone⟩ := parse_array_scanned hparse
          rw [hu, feed_utf8_append, hdone 0] at hpart
          obtain rfl := nil_of_feed_done hpart fun hbad => by cases hbad
          cases hpart
      · rfl

end Json
