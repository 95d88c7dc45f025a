import Gocker.Lib.JsonNumber

/-!
# JSON text

Values, the writer and the reader of the JSON text format, with the round trip
between them.  Text is a list of characters.

## Values

`Node k` is one inductive family for values, array tails and object tails, so that
every function below recurses on it directly.  A number is an integer (`num`), or the
text of one that not every integer type can hold (`dec`: a fraction, an exponent, minus
zero; see `Gocker.Lib.JsonNumber`).

## Writing

`render` writes a value under a `Layout`: the white space put before a member
and after a colon.  `Layout.compact` and `Layout.indent` are the two layouts
in use.  Strings are escaped as Go's `encoding/json` does: quotation mark and
backslash, control characters, and (for HTML) `<`, `>`, `&`, U+2028, U+2029.

## Reading

`parse` reads a value off the front of a text, and `decode` a complete text: one value
and nothing but white space after it.  The names of fields are compared as Go does,
without regard to case (`sameName`).

## The round trip

`ReadsBack` says that the text of a node is read as this node, whatever the layout and
whatever follows.  There is one lemma for each kind of node, and `parse_render` is the
induction that puts them together.  `decode_render` is the round trip for a complete
text: a rendered value followed by white space reads back as itself.
-/

namespace Json

/-- What a `Node` stands for: a value, the elements of an array after the first,
or the members of an object after the first. -/
inductive Kind where
  | value
  | elements
  | members

/-- The syntax trees of JSON, and their parts behind a first element or member. -/
inductive Node : Kind → Type where
  | null : Node .value
  | bool (b : Bool) : Node .value
  | num (n : Int) : Node .value
  | dec (x : Decimal) : Node .value
  | str (s : String) : Node .value
  | arr (xs : Node .elements) : Node .value
  | obj (ms : Node .members) : Node .value
  | nil : Node .elements
  | cons (x : Node .value) (xs : Node .elements) : Node .elements
  | objNil : Node .members
  | objCons (key : String) (v : Node .value) (ms : Node .members) : Node .members

/-- A value of JSON. -/
abbrev Value := Node .value

/-- The members of an object as a list (a node of another kind has none). -/
def Node.toList : {k : Kind} → Node k → List (String × Value)
  | _, .objCons key v ms => (key, v) :: ms.toList
  | _, _ => []

/-- The object members with the given keys and values, in order. -/
def ofList : List (String × Value) → Node .members
  | [] => .objNil
  | (key, v) :: ms => .objCons key v (ofList ms)

/-- The members of an object are those it was made of. -/
@[simp] theorem toList_ofList (ms : List (String × Value)) : (ofList ms).toList = ms := by
  induction ms with
  | nil => simp [ofList, Node.toList]
  | cons m ms ih => simp [ofList, Node.toList, ih]

/-- How deeply arrays and objects are nested in a node. -/
def Node.depth : {k : Kind} → Node k → ℕ
  | _, .arr xs => 1 + xs.depth
  | _, .obj ms => 1 + ms.depth
  | _, .cons x xs => max x.depth xs.depth
  | _, .objCons _ v ms => max v.depth ms.depth
  | _, _ => 0

/-- An object of values that are neither arrays nor objects. -/
theorem depth_ofList {ms : List (String × Value)} (h : ∀ m ∈ ms, m.2.depth = 0) :
    (ofList ms).depth = 0 := by
  induction ms with
  | nil => simp [ofList, Node.depth]
  | cons m ms ih =>
      obtain ⟨hm, hms⟩ := List.forall_mem_cons.mp h
      simp [ofList, Node.depth, hm, ih hms]

/-- One character for all that differ by case only (`foldRune` of `encoding/json`): a letter of
ASCII stands for itself, its small letter and, for two of them, a character outside of ASCII, the
long s and the sign for kelvin.  The other characters stand for themselves here.  For the names
of fields, which are ASCII, this makes no difference: no other character folds to one of ASCII. -/
def foldRune (c : Char) : Char :=
  if c = '\u017F' then 'S' else if c = '\u212A' then 'K' else c.toUpper

/-- A member is for a field if their names are the same up to case. -/
def sameName (field key : String) : Bool :=
  field.toList.map foldRune == key.toList.map foldRune

/-! ## White space -/

/-- The white space of JSON. -/
def isSpace (c : Char) : Bool := c == ' ' || c == '\n' || c == '\r' || c == '\t'

/-- What follows it. -/
def skipSpace (s : List Char) : List Char := s.dropWhile isSpace

theorem skipSpace_append {ws : List Char} (h : ∀ c ∈ ws, isSpace c) (s : List Char) :
    skipSpace (ws ++ s) = skipSpace s := by
  induction ws with
  | nil => rfl
  | cons c ws ih =>
      have hc : isSpace c = true := h c List.mem_cons_self
      have hws := ih fun c hc => h c (List.mem_cons_of_mem _ hc)
      simpa [skipSpace, List.dropWhile_cons, hc] using hws

theorem skipSpace_cons {c : Char} (h : isSpace c = false) (s : List Char) :
    skipSpace (c :: s) = c :: s := by
  simp [skipSpace, h]

theorem skipSpace_eq_nil {ws : List Char} (h : ∀ c ∈ ws, isSpace c) : skipSpace ws = [] := by
  simpa [skipSpace] using skipSpace_append h []

/-! ## Strings -/

/-- A character of a string literal, or a 16-bit unit given as `\uXXXX`. -/
inductive Piece where
  | char (c : Char)
  | unit (n : ℕ)

/-- The value of a hexadecimal digit. -/
def hexVal (c : Char) : Option ℕ :=
  if c.isDigit then some (c.toNat - '0'.toNat)
  else if 'a' ≤ c ∧ c ≤ 'f' then some (c.toNat - 'a'.toNat + 10)
  else if 'A' ≤ c ∧ c ≤ 'F' then some (c.toNat - 'A'.toNat + 10)
  else none

/-- Four hexadecimal digits. -/
def hex4 (n : ℕ) : List Char :=
  [Nat.digitChar (n / 4096 % 16), Nat.digitChar (n / 256 % 16), Nat.digitChar (n / 16 % 16),
    Nat.digitChar (n % 16)]

/-- The number that they stand for. -/
def unhex4 (a b c d : Char) : Option ℕ := do
  let a ← hexVal a
  let b ← hexVal b
  let c ← hexVal c
  let d ← hexVal d
  some (a * 4096 + b * 256 + c * 16 + d)

/-- A digit has the value that it was written for. -/
theorem hexVal_digitChar {n : ℕ} (h : n < 16) : hexVal (Nat.digitChar n) = some n := by
  have all : ∀ m : Fin 16, hexVal (Nat.digitChar m) = some m.val := by decide
  exact all ⟨n, h⟩

theorem unhex4_hex4 {n : ℕ} (h : n < 65536) :
    unhex4 (Nat.digitChar (n / 4096 % 16)) (Nat.digitChar (n / 256 % 16))
      (Nat.digitChar (n / 16 % 16)) (Nat.digitChar (n % 16)) = some n := by
  have pos : 0 < 16 := by decide
  simp only [unhex4, hexVal_digitChar (Nat.mod_lt _ pos), Option.bind_eq_bind, Option.bind_some,
    Option.some.injEq]
  omega

/-- The characters that are written as `\uXXXX`. -/
def needsUnit (c : Char) : Bool :=
  c.toNat < 0x20 || c == '<' || c == '>' || c == '&' || c.toNat == 0x2028 || c.toNat == 0x2029

/-- Such a character lies below the surrogates. -/
theorem toNat_of_needsUnit {c : Char} (h : needsUnit c = true) : c.toNat < 0xD800 := by
  simp only [needsUnit, Bool.or_eq_true, decide_eq_true_eq, beq_iff_eq] at h
  rcases h with ((((h | rfl) | rfl) | rfl) | h) | h
  · omega
  · decide
  · decide
  · decide
  · omega
  · omega

/-- A character in a string. -/
def escapeChar (c : Char) : List Char :=
  if c = '"' then ['\\', '"']
  else if c = '\\' then ['\\', '\\']
  else if c = '\n' then ['\\', 'n']
  else if c = '\r' then ['\\', 'r']
  else if c = '\t' then ['\\', 't']
  else if c = '\x08' then ['\\', 'b']
  else if c = '\x0c' then ['\\', 'f']
  else if needsUnit c then '\\' :: 'u' :: hex4 c.toNat
  else [c]

/-- The characters of a string. -/
def escape (s : List Char) : List Char := s.flatMap escapeChar

/-- Put a piece in front of what was read after it. -/
def push (p : Piece) (r : Option (List Piece × List Char)) : Option (List Piece × List Char) :=
  r.map fun q => (p :: q.1, q.2)

/-- Read the inside of a string literal up to the closing quotation mark. -/
def pieces : List Char → Option (List Piece × List Char)
  | [] => none
  | '"' :: r => some ([], r)
  | '\\' :: '"' :: r => push (.char '"') (pieces r)
  | '\\' :: '\\' :: r => push (.char '\\') (pieces r)
  | '\\' :: '/' :: r => push (.char '/') (pieces r)
  | '\\' :: 'n' :: r => push (.char '\n') (pieces r)
  | '\\' :: 'r' :: r => push (.char '\r') (pieces r)
  | '\\' :: 't' :: r => push (.char '\t') (pieces r)
  | '\\' :: 'b' :: r => push (.char '\x08') (pieces r)
  | '\\' :: 'f' :: r => push (.char '\x0c') (pieces r)
  | '\\' :: 'u' :: a :: b :: c :: d :: r =>
      (unhex4 a b c d).bind fun n => push (.unit n) (pieces r)
  | '\\' :: _ => none
  | c :: r => if c.toNat < 0x20 then none else push (.char c) (pieces r)

/-- The text of a sequence of pieces: a high and a low surrogate make one
character, a surrogate without its partner becomes U+FFFD. -/
def assemble : List Piece → List Char
  | [] => []
  | .char c :: ps => c :: assemble ps
  | .unit hi :: .unit lo :: ps =>
      if 0xD800 ≤ hi ∧ hi < 0xDC00 ∧ 0xDC00 ≤ lo ∧ lo < 0xE000 then
        Char.ofNat (0x10000 + (hi - 0xD800) * 0x400 + (lo - 0xDC00)) :: assemble ps
      else if 0xD800 ≤ hi ∧ hi < 0xE000 then Char.ofNat 0xFFFD :: assemble (.unit lo :: ps)
      else Char.ofNat hi :: assemble (.unit lo :: ps)
  | .unit n :: ps =>
      (if 0xD800 ≤ n ∧ n < 0xE000 then Char.ofNat 0xFFFD else Char.ofNat n) :: assemble ps

/-- Read a string literal whose opening quotation mark has been read. -/
def stringTail (s : List Char) : Option (String × List Char) :=
  (pieces s).map fun p => (String.ofList (assemble p.1), p.2)

/-- The piece an escaped character is read as. -/
def pieceOf (c : Char) : Piece :=
  if c ∈ ['"', '\\', '\n', '\r', '\t', '\x08', '\x0c'] then .char c
  else if needsUnit c then .unit c.toNat
  else .char c

/-- A character that ends nothing and begins no escape stands for itself. -/
theorem pieces_cons {c : Char} (hquote : c ≠ '"') (hslash : c ≠ '\\') (hc : ¬ c.toNat < 0x20)
    (r : List Char) : pieces (c :: r) = push (.char c) (pieces r) := by
  rw [pieces]
  · exact if_neg hc
  · exact hquote
  -- the branches of the escapes
  all_goals
    intros
    exact hslash (by assumption)

theorem pieces_escapeChar (c : Char) (r : List Char) :
    pieces (escapeChar c ++ r) = push (pieceOf c) (pieces r) := by
  unfold escapeChar
  split_ifs with h1 h2 h3 h4 h5 h6 h7 h8
  · subst h1; rfl
  · subst h2; rfl
  · subst h3; rfl
  · subst h4; rfl
  · subst h5; rfl
  · subst h6; rfl
  · subst h7; rfl
  · have hc : c.toNat < 65536 := by
      have := toNat_of_needsUnit h8
      omega
    have hp : pieceOf c = .unit c.toNat := by
      rw [pieceOf, if_neg (by simp only [List.mem_cons, List.not_mem_nil]; tauto), if_pos h8]
    rw [hp]
    simp only [hex4, List.cons_append, List.nil_append, pieces, unhex4_hex4 hc, Option.bind_some]
  · have hp : pieceOf c = .char c := by
      rw [pieceOf, if_neg h8, ite_self]
    have hc : ¬ c.toNat < 0x20 := by
      intro h
      simp [needsUnit, h] at h8
    rw [hp]
    exact pieces_cons h1 h2 hc r

/-- An escaped string is read up to its closing quotation mark. -/
theorem pieces_escape (s r : List Char) :
    pieces (escape s ++ '"' :: r) = some (s.map pieceOf, r) := by
  induction s with
  | nil => rfl
  | cons c s ih =>
      rw [escape, List.flatMap_cons, ← escape, List.append_assoc, pieces_escapeChar, ih]
      rfl

/-- A unit that is no half of a pair is a character. -/
theorem assemble_unit {n : ℕ} (h : n < 0xD800 ∨ 0xE000 ≤ n) (ps : List Piece) :
    assemble (.unit n :: ps) = Char.ofNat n :: assemble ps := by
  cases ps with
  | nil =>
      simp only [assemble]
      rw [if_neg (by omega)]
  | cons p ps =>
      cases p with
      | char c =>
          simp only [assemble]
          rw [if_neg (by omega)]
      | unit m =>
          simp only [assemble]
          rw [if_neg (by omega), if_neg (by omega)]

/-- The pieces of a string are put together to it. -/
theorem assemble_map_pieceOf (s : List Char) : assemble (s.map pieceOf) = s := by
  induction s with
  | nil => rfl
  | cons c s ih =>
      rw [List.map_cons, pieceOf]
      split_ifs with h1 h2
      · rw [assemble, ih]
      · rw [assemble_unit (.inl (toNat_of_needsUnit h2)), ih, Char.ofNat_toNat]
      · rw [assemble, ih]

/-- A string literal reads back as the string it was written for. -/
theorem stringTail_escape (s : String) (r : List Char) :
    stringTail (escape s.toList ++ '"' :: r) = some (s, r) := by
  rw [stringTail, pieces_escape, Option.map_some, assemble_map_pieceOf, String.ofList_toList]

/-! ## Numbers -/

/-- The value of a literal. -/
def numberOf (t : List Char) (h : IsLiteral t) : Value :=
  match hint : intOf t with
  | some n => .num n
  | none => .dec ⟨t, h, hint⟩

/-- Read a number off the front of a text. -/
def number (s : List Char) : Option (Value × List Char) :=
  match h : Part.number s with
  | some (t, r) => some (numberOf t ⟨s, r, h⟩, r)
  | none => none

theorem isNumberChar_of_isSpace {c : Char} (h : isSpace c = true) : isNumberChar c = false := by
  simp only [isSpace, Bool.or_eq_true, beq_iff_eq] at h
  rcases h with ((rfl | rfl) | rfl) | rfl <;> decide

theorem stops_append {ws r : List Char} (h : ∀ c ∈ ws, isSpace c) (hr : Stops r) :
    Stops (ws ++ r) := by
  cases ws with
  | nil => exact hr
  | cons c ws => exact stops_cons (isNumberChar_of_isSpace (h c List.mem_cons_self)) _

theorem not_isSpace_of_head {c : Char} (h : c = '-' ∨ c.isDigit = true) : isSpace c = false := by
  rcases h with rfl | h
  · rfl
  · by_contra hs
    rw [Bool.not_eq_false] at hs
    rw [not_isDigit_of_isNumberChar (isNumberChar_of_isSpace hs)] at h
    cases h

/-- A literal is read as its value. -/
theorem number_literal {t r : List Char} (h : IsLiteral t) (hr : Stops r) :
    number (t ++ r) = some (numberOf t h, r) := by
  have hread := h.number hr
  unfold number
  split
  · next t' r' heq =>
      obtain ⟨rfl, rfl⟩ := Prod.mk.inj (Option.some.inj (hread.symm.trans heq))
      rfl
  · next heq => cases hread.symm.trans heq

theorem numberOf_renderInt (n : Int) : numberOf (renderInt n) (isLiteral_renderInt n) = .num n := by
  unfold numberOf
  split
  · next m heq =>
      obtain rfl := Option.some.inj ((intOf_renderInt n).symm.trans heq)
      rfl
  · next heq => cases (intOf_renderInt n).symm.trans heq

theorem numberOf_decimal (x : Decimal) : numberOf x.text x.isLiteral = .dec x := by
  unfold numberOf
  split
  · next m heq => cases x.notInt.symm.trans heq
  · rfl

/-- A written number is its decimal text. -/
theorem toList_toString (n : Int) : (toString n).toList = renderInt n := by
  rw [Int.toString_eq_repr, Int.repr_eq_if, renderInt]
  split_ifs with hnonneg hneg
  · omega
  · rw [Nat.toList_repr, show n.toNat = n.natAbs by omega]
  · rw [String.toList_append, Nat.toList_repr, show (-n).toNat = n.natAbs by omega]
    rfl
  · omega

/-- Two numbers with one decimal text are the same. -/
theorem toString_inj {m n : Int} : toString m = toString n ↔ m = n := by
  refine ⟨fun h => ?_, fun h => h ▸ rfl⟩
  have written := congrArg String.toList h
  rw [toList_toString, toList_toString] at written
  have read := intOf_renderInt m
  rw [written, intOf_renderInt n] at read
  exact (Option.some.inj read).symm

/-! ## Writing -/

/-- The white space of a rendering: `newline d` stands before a member at depth
`d` and before the bracket that closes depth `d`, `space` after a colon. -/
structure Layout where
  newline : ℕ → List Char
  space : List Char
  newline_isSpace : ∀ d, ∀ c ∈ newline d, isSpace c
  space_isSpace : ∀ c ∈ space, isSpace c

/-- No white space (`Encoder` without `SetIndent`). -/
def Layout.compact : Layout where
  newline _ := []
  space := []
  newline_isSpace := by simp
  space_isSpace := by simp

/-- One member a line, `n` blanks a level (`SetIndent("", ...)`). -/
def Layout.indent (n : ℕ) : Layout where
  newline d := '\n' :: List.replicate (n * d) ' '
  space := [' ']
  newline_isSpace d c hc := by
    rcases List.mem_cons.mp hc with rfl | hc
    · rfl
    · rw [List.eq_of_mem_replicate hc]
      rfl
  space_isSpace c hc := by
    rw [List.mem_singleton.mp hc]
    rfl

/-- A key with its quotation marks and the colon after it. -/
def renderKey (L : Layout) (key : String) : List Char :=
  '"' :: (escape key.toList ++ '"' :: ':' :: L.space)

/-- The text of a node at depth `d`.  An array tail or an object tail starts
after the element or member before it and ends with the closing bracket. -/
def render (L : Layout) : {k : Kind} → ℕ → Node k → List Char
  | _, _, .null => ['n', 'u', 'l', 'l']
  | _, _, .bool true => ['t', 'r', 'u', 'e']
  | _, _, .bool false => ['f', 'a', 'l', 's', 'e']
  | _, _, .num n => renderInt n
  | _, _, .dec x => x.text
  | _, _, .str s => '"' :: (escape s.toList ++ ['"'])
  | _, _, .arr .nil => ['[', ']']
  | _, d, .arr (.cons x xs) =>
      '[' :: (L.newline (d + 1) ++ render L (d + 1) x ++ render L d xs)
  | _, _, .obj .objNil => ['{', '}']
  | _, d, .obj (.objCons key v ms) =>
      '{' :: (L.newline (d + 1) ++ renderKey L key ++ render L (d + 1) v ++ render L d ms)
  | _, d, .nil => L.newline d ++ [']']
  | _, d, .cons x xs => ',' :: (L.newline (d + 1) ++ render L (d + 1) x ++ render L d xs)
  | _, d, .objNil => L.newline d ++ ['}']
  | _, d, .objCons key v ms =>
      ',' :: (L.newline (d + 1) ++ renderKey L key ++ render L (d + 1) v ++ render L d ms)

/-! ## Reading -/

/-- Read a key and its colon. -/
def parseKey (s : List Char) : Option (String × List Char) :=
  match skipSpace s with
  | '"' :: r => (stringTail r).bind fun p =>
      match skipSpace p.2 with
      | ':' :: r => some (p.1, r)
      | _ => none
  | _ => none

/-- Read a node; the first argument bounds the nesting.  A first element or
member is read like the others, as if a comma stood before it. -/
def parse : ℕ → (k : Kind) → List Char → Option (Node k × List Char)
  | 0, _, _ => none
  | f + 1, .value, s =>
      match skipSpace s with
      | 'n' :: 'u' :: 'l' :: 'l' :: r => some (.null, r)
      | 't' :: 'r' :: 'u' :: 'e' :: r => some (.bool true, r)
      | 'f' :: 'a' :: 'l' :: 's' :: 'e' :: r => some (.bool false, r)
      | '"' :: r => (stringTail r).map fun p => (.str p.1, p.2)
      | '[' :: r =>
          match skipSpace r with
          | ']' :: r => some (.arr .nil, r)
          | _ => (parse f .elements (',' :: r)).map fun xs => (.arr xs.1, xs.2)
      | '{' :: r =>
          match skipSpace r with
          | '}' :: r => some (.obj .objNil, r)
          | _ => (parse f .members (',' :: r)).map fun ms => (.obj ms.1, ms.2)
      | r => number r
  | f + 1, .elements, s =>
      match skipSpace s with
      | ',' :: r => (parse f .value r).bind fun x =>
          (parse f .elements x.2).map fun xs => (.cons x.1 xs.1, xs.2)
      | ']' :: r => some (.nil, r)
      | _ => none
  | f + 1, .members, s =>
      match skipSpace s with
      | ',' :: r => (parseKey r).bind fun key =>
          (parse f .value key.2).bind fun v =>
            (parse f .members v.2).map fun ms => (.objCons key.1 v.1 ms.1, ms.2)
      | '}' :: r => some (.objNil, r)
      | _ => none

/-! What the reader does at each first character. -/

section
variable (f : ℕ) (r : List Char)

/-- The rules by which `parse` reads, one for each way a value begins. -/
@[simp] theorem parse_null :
    parse (f + 1) .value ('n' :: 'u' :: 'l' :: 'l' :: r) = some (.null, r) := rfl

@[simp] theorem parse_true :
    parse (f + 1) .value ('t' :: 'r' :: 'u' :: 'e' :: r) = some (.bool true, r) := rfl

@[simp] theorem parse_false :
    parse (f + 1) .value ('f' :: 'a' :: 'l' :: 's' :: 'e' :: r) = some (.bool false, r) := rfl

theorem parse_quote :
    parse (f + 1) .value ('"' :: r) = (stringTail r).map fun p => (.str p.1, p.2) := rfl

theorem parse_bracket :
    parse (f + 1) .value ('[' :: r) =
      match skipSpace r with
      | ']' :: r => some (.arr .nil, r)
      | _ => (parse f .elements (',' :: r)).map fun xs => (.arr xs.1, xs.2) := rfl

theorem parse_brace :
    parse (f + 1) .value ('{' :: r) =
      match skipSpace r with
      | '}' :: r => some (.obj .objNil, r)
      | _ => (parse f .members (',' :: r)).map fun ms => (.obj ms.1, ms.2) := rfl

/-- A comma, an element and the rest of an array. -/
theorem parse_elements_comma :
    parse (f + 1) .elements (',' :: r) =
      (parse f .value r).bind fun x =>
        (parse f .elements x.2).map fun xs => (.cons x.1 xs.1, xs.2) := rfl

theorem parse_members_comma :
    parse (f + 1) .members (',' :: r) =
      (parseKey r).bind fun key =>
        (parse f .value key.2).bind fun v =>
          (parse f .members v.2).map fun ms => (.objCons key.1 v.1 ms.1, ms.2) := rfl

@[simp] theorem parse_elements_close :
    parse (f + 1) .elements (']' :: r) = some (.nil, r) := rfl

@[simp] theorem parse_members_close :
    parse (f + 1) .members ('}' :: r) = some (.objNil, r) := rfl

end

/-- `json.Unmarshal` up to the value: one value, and white space after it. -/
def decode (text : List Char) : Option Value :=
  match parse text.length .value text with
  | some (v, r) => if skipSpace r = [] then some v else none
  | none => none

/-! ## The round trip -/

attribute [local simp] render parse

/-- White space in front is skipped, whatever is read. -/
theorem parse_skipSpace {ws : List Char} (h : ∀ c ∈ ws, isSpace c) (f : ℕ) (k : Kind)
    (s : List Char) : parse f k (ws ++ s) = parse f k s := by
  cases f with
  | zero => rfl
  | succ f => cases k <;> simp only [parse, skipSpace_append h]

theorem parseKey_renderKey (L : Layout) (key : String) {ws : List Char}
    (h : ∀ c ∈ ws, isSpace c) (r : List Char) :
    parseKey (ws ++ (renderKey L key ++ r)) = some (key, L.space ++ r) := by
  rw [parseKey, skipSpace_append h, renderKey, List.cons_append, skipSpace_cons (by decide)]
  simp only [List.append_assoc, List.cons_append, stringTail_escape, Option.bind_some,
    skipSpace_cons (show isSpace ':' = false by decide)]

/-- How deeply the reader nests on a node's text. -/
def Node.height : {k : Kind} → Node k → ℕ
  | _, .null | _, .bool _ | _, .num _ | _, .dec _ | _, .str _ | _, .nil | _, .objNil => 1
  | _, .arr xs => 1 + xs.height
  | _, .obj ms => 1 + ms.height
  | _, .cons x xs => 1 + max x.height xs.height
  | _, .objCons _ v ms => 1 + max v.height ms.height

attribute [local simp] Node.height

theorem Node.height_pos {k : Kind} (n : Node k) : 0 < n.height := by
  cases n <;> simp

theorem exists_bound {k : Kind} {n : Node k} {f : ℕ} (h : n.height ≤ f) : ∃ g, f = g + 1 :=
  Nat.exists_eq_add_one.mpr (n.height_pos.trans_le h)

/-- A value starts with a character that is neither white space nor `]`. -/
theorem render_value_head (L : Layout) (d : ℕ) (v : Value) :
    ∃ c t, render L d v = c :: t ∧ isSpace c = false ∧ c ≠ ']' := by
  have literal : ∀ {c : Char}, c = '-' ∨ c.isDigit = true → isSpace c = false ∧ c ≠ ']' := by
    refine fun hc => ⟨not_isSpace_of_head hc, ?_⟩
    rintro rfl
    exact absurd hc (by decide)
  cases v with
  | null => exact ⟨'n', _, by rw [render], by decide, by decide⟩
  | bool b =>
      cases b with
      | false => exact ⟨'f', _, by rw [render], by decide, by decide⟩
      | true => exact ⟨'t', _, by rw [render], by decide, by decide⟩
  | num n =>
      obtain ⟨c, t, heq, hc⟩ := (isLiteral_renderInt n).head
      exact ⟨c, t, by rw [render, heq], literal hc⟩
  | dec x =>
      obtain ⟨c, t, heq, hc⟩ := x.isLiteral.head
      exact ⟨c, t, by rw [render, heq], literal hc⟩
  | str s => exact ⟨'"', _, by rw [render], by decide, by decide⟩
  | arr xs =>
      cases xs with
      | nil => exact ⟨'[', _, by rw [render], by decide, by decide⟩
      | cons x xs => exact ⟨'[', _, by rw [render], by decide, by decide⟩
  | obj ms =>
      cases ms with
      | objNil => exact ⟨'{', _, by rw [render], by decide, by decide⟩
      | objCons key v ms => exact ⟨'{', _, by rw [render], by decide, by decide⟩

/-- The tail of an array or an object does not continue a number. -/
theorem stops_render {k : Kind} (L : Layout) (d : ℕ) (n : Node k) (hk : k ≠ .value)
    (r : List Char) : Stops (render L d n ++ r) := by
  cases n with
  | null | bool | num | dec | str | arr | obj => exact absurd rfl hk
  | nil =>
      rw [render, List.append_assoc]
      exact stops_append (L.newline_isSpace d) (stops_cons (by decide) _)
  | objNil =>
      rw [render, List.append_assoc]
      exact stops_append (L.newline_isSpace d) (stops_cons (by decide) _)
  | cons x xs =>
      rw [render, List.cons_append]
      exact stops_cons (by decide) _
  | objCons key v ms =>
      rw [render, List.cons_append]
      exact stops_cons (by decide) _

/-- The text of a node is read as this node, if the reader's bound is not below its height and
what follows does not go on with a number. -/
def ReadsBack (L : Layout) {k : Kind} (n : Node k) : Prop :=
  ∀ (f d : ℕ) (r : List Char), n.height ≤ f → Stops r →
    parse f k (render L d n ++ r) = some (n, r)

section
variable (L : Layout)

/-- The reader's number branch is the one taken on a literal. -/
theorem parse_literal (f : ℕ) {t r : List Char} (h : IsLiteral t) (hr : Stops r) :
    parse (f + 1) .value (t ++ r) = some (numberOf t h, r) := by
  obtain ⟨c, t', heq, hc⟩ := h.head
  have hskip : skipSpace (t ++ r) = t ++ r := by
    rw [heq, List.cons_append, skipSpace_cons (not_isSpace_of_head hc)]
  have hhead : ∀ c' u, t ++ r = c' :: u → c' = '-' ∨ c'.isDigit = true := by
    intro c' u heq'
    rw [heq, List.cons_append] at heq'
    obtain ⟨rfl, -⟩ := List.cons.inj heq'
    exact hc
  rw [parse, hskip]
  -- the branches before it are of other first characters
  split <;> first
    | exact absurd (hhead _ _ (by assumption)) (by decide)
    | exact number_literal h hr

variable {L}

theorem ReadsBack.cons {x : Value} {xs : Node .elements} (hx : ReadsBack L x)
    (hxs : ReadsBack L xs) : ReadsBack L (.cons x xs) := by
  intro f d r hf hr
  obtain ⟨f, rfl⟩ := exists_bound hf
  simp only [Node.height] at hf
  have hx := hx f (d + 1) (render L d xs ++ r) (by omega) (stops_render L d xs nofun r)
  rw [render, List.cons_append, parse_elements_comma]
  simp only [List.append_assoc, parse_skipSpace (L.newline_isSpace (d + 1)), hx,
    Option.bind_some, hxs f d r (by omega) hr, Option.map_some]

theorem ReadsBack.objCons {v : Value} {ms : Node .members} (hv : ReadsBack L v)
    (hms : ReadsBack L ms) (key : String) : ReadsBack L (.objCons key v ms) := by
  intro f d r hf hr
  obtain ⟨f, rfl⟩ := exists_bound hf
  simp only [Node.height] at hf
  have hv := hv f (d + 1) (render L d ms ++ r) (by omega) (stops_render L d ms nofun r)
  rw [render, List.cons_append, parse_members_comma]
  simp only [List.append_assoc, parseKey_renderKey L key (L.newline_isSpace (d + 1)),
    Option.bind_some, parse_skipSpace L.space_isSpace, hv, hms f d r (by omega) hr,
    Option.map_some]

/-- An array that is not empty is read as its elements, a comma in front of the first one. -/
theorem ReadsBack.arr {xs : Node .elements} (h : ReadsBack L xs) : ReadsBack L (.arr xs) := by
  intro f d r hf hr
  obtain ⟨f, rfl⟩ := exists_bound hf
  have hxs := h f d r (by simp only [Node.height] at hf; omega) hr
  cases xs with
  | nil =>
      rw [render]
      rfl
  | cons x xs =>
      obtain ⟨c, t, hc, hspace, hne⟩ := render_value_head L (d + 1) x
      rw [render, List.cons_append] at hxs
      rw [render, List.cons_append, parse_bracket]
      have hskip : skipSpace (L.newline (d + 1) ++ render L (d + 1) x ++ render L d xs ++ r)
          = c :: (t ++ render L d xs ++ r) := by
        simp only [List.append_assoc]
        rw [skipSpace_append (L.newline_isSpace (d + 1)), hc, List.cons_append,
          skipSpace_cons hspace]
      simp only [hskip]
      -- the array is not empty, as what follows the bracket is not `]`
      split
      · exact absurd (List.cons.inj (by assumption)).1 hne
      · rw [hxs, Option.map_some]

/-- An object that is not empty is read as its members, a comma in front of the first one. -/
theorem ReadsBack.obj {ms : Node .members} (h : ReadsBack L ms) : ReadsBack L (.obj ms) := by
  intro f d r hf hr
  obtain ⟨f, rfl⟩ := exists_bound hf
  have hms := h f d r (by simp only [Node.height] at hf; omega) hr
  cases ms with
  | objNil =>
      rw [render]
      rfl
  | objCons key v ms =>
      rw [render, List.cons_append] at hms
      rw [render, List.cons_append, parse_brace]
      obtain ⟨t, ht⟩ : ∃ t, renderKey L key = '"' :: t := ⟨_, rfl⟩
      have hskip : skipSpace (L.newline (d + 1) ++ renderKey L key ++ render L (d + 1) v
          ++ render L d ms ++ r) = '"' :: (t ++ render L (d + 1) v ++ render L d ms ++ r) := by
        simp only [List.append_assoc]
        rw [skipSpace_append (L.newline_isSpace (d + 1)), ht, List.cons_append,
          skipSpace_cons (by decide)]
      simp only [hskip]
      rw [hms]
      rfl

end

/-- **Reading what was written.**  The induction is on the node; the reader's
bound is its height. -/
theorem parse_render (L : Layout) {k : Kind} (n : Node k) : ReadsBack L n := by
  induction n with
  | null =>
      intro f d r hf _
      obtain ⟨f, rfl⟩ := exists_bound hf
      rw [render]
      exact parse_null f r
  | bool b =>
      intro f d r hf _
      obtain ⟨f, rfl⟩ := exists_bound hf
      cases b with
      | false =>
          rw [render]
          exact parse_false f r
      | true =>
          rw [render]
          exact parse_true f r
  | num n =>
      intro f d r hf hr
      obtain ⟨f, rfl⟩ := exists_bound hf
      rw [render, parse_literal f (isLiteral_renderInt n) hr, numberOf_renderInt]
  | dec x =>
      intro f d r hf hr
      obtain ⟨f, rfl⟩ := exists_bound hf
      rw [render, parse_literal f x.isLiteral hr, numberOf_decimal]
  | str s =>
      intro f d r hf _
      obtain ⟨f, rfl⟩ := exists_bound hf
      rw [render, List.cons_append, parse_quote, List.append_assoc]
      simp only [List.cons_append, List.nil_append, stringTail_escape, Option.map_some]
  | nil =>
      intro f d r hf _
      obtain ⟨f, rfl⟩ := exists_bound hf
      rw [render, List.append_assoc, parse_skipSpace (L.newline_isSpace d)]
      exact parse_elements_close f r
  | objNil =>
      intro f d r hf _
      obtain ⟨f, rfl⟩ := exists_bound hf
      rw [render, List.append_assoc, parse_skipSpace (L.newline_isSpace d)]
      exact parse_members_close f r
  | cons x xs ihx ihxs => exact ihx.cons ihxs
  | objCons key v ms ihv ihms => exact ihv.objCons ihms key
  | arr xs ih => exact ih.arr
  | obj ms ih => exact ih.obj

/-- One more than its height fits into the text of a tail with a member. -/
def Node.slack : {k : Kind} → Node k → ℕ
  | _, .cons _ _ | _, .objCons _ _ _ => 1
  | _, _ => 0

attribute [local simp] Node.slack

/-- The text of a node is long enough to bound the reading of it. -/
theorem height_le_length (L : Layout) {k : Kind} (n : Node k) :
    ∀ d, n.height + n.slack ≤ (render L d n).length := by
  induction n with
  | null => intro d; simp
  | bool b => intro d; cases b <;> simp
  | num n =>
      intro d
      obtain ⟨c, t, heq, -⟩ := (isLiteral_renderInt n).head
      simp [heq]
  | dec x =>
      intro d
      obtain ⟨c, t, heq, -⟩ := x.isLiteral.head
      simp [heq]
  | str s => intro d; simp
  | nil => intro d; simp
  | objNil => intro d; simp
  | cons x xs ihx ihxs =>
      intro d
      have hx := ihx (d + 1)
      have hxs := ihxs d
      have := x.height_pos
      have := xs.height_pos
      simp only [Node.height, Node.slack, render, List.length_cons, List.length_append]
      omega
  | objCons key v ms ihv ihms =>
      intro d
      have hv := ihv (d + 1)
      have hms := ihms d
      have := v.height_pos
      have := ms.height_pos
      simp only [Node.height, Node.slack, render, List.length_cons, List.length_append]
      omega
  | arr xs ih =>
      intro d
      have hxs := ih d
      cases xs with
      | nil => simp
      | cons x xs =>
          simp only [Node.height, Node.slack, render, List.length_cons, List.length_append]
            at hxs ⊢
          omega
  | obj ms ih =>
      intro d
      have hms := ih d
      cases ms with
      | objNil => simp
      | objCons key v ms =>
          simp only [Node.height, Node.slack, render, List.length_cons, List.length_append]
            at hms ⊢
          omega

/-- **The round trip.**  A value written under any layout, between white space, reads
back as itself. -/
theorem decode_space_render (L : Layout) (v : Value) {ws ws' : List Char}
    (h : ∀ c ∈ ws, isSpace c) (h' : ∀ c ∈ ws', isSpace c) :
    decode (ws ++ (render L 0 v ++ ws')) = some v := by
  have hlen := height_le_length L v 0
  have hstop : Stops ws' := by simpa using stops_append h' stops_nil
  have hread := parse_render L v (ws ++ (render L 0 v ++ ws')).length 0 ws'
    (by simp only [List.length_append]; omega) hstop
  simp only [decode, parse_skipSpace h, hread, skipSpace_eq_nil h', if_true]

/-- **The round trip**, for a complete text. -/
theorem decode_render (L : Layout) (v : Value) {ws : List Char} (h : ∀ c ∈ ws, isSpace c) :
    decode (render L 0 v ++ ws) = some v :=
  decode_space_render L v (List.forall_mem_nil _) h

end Json
