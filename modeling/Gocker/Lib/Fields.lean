import Mathlib.Data.List.Basic
import Mathlib.Data.UInt

/-!
# Lines and fields

A text as Go reads it: a sequence of characters, and of bytes that belong to none.  `lines` are
those of `bufio.Scanner`, `fields` those of `strings.Fields`, and `parseUint` reads a decimal
number of 64 bits.

Each is read back from a text that has been put together from its parts (`splitOn_unlines`,
`lines_unlines`, `fields_unwords`, `parseUint_digits`).

### Long lines

`bufio.Scanner` gives up at a line that does not fit its buffer, so `lines` has no result then;
a reader that ignores the scanner's error sees the lines before.
-/

universe u

namespace Fields

/-! ## Between separators -/

section
variable {α : Type u} {sep : α → Bool} {word rest : List α} {a : α}

/-- What stands between separators, without the empty parts. -/
def words (sep : α → Bool) (text : List α) : List (List α) :=
  (text.splitOnP sep).filter fun word => !word.isEmpty

/-- The words with `a` between each two. -/
def unwords (a : α) (ws : List (List α)) : List α := [a].intercalate ws

/-- The lines with `a` behind each. -/
def unlines (a : α) (ls : List (List α)) : List α := ls.flatMap fun l => l ++ [a]

theorem words_singleton (hword : ∀ x ∈ word, sep x = false) (hne : word ≠ []) :
    words sep word = [word] := by
  rw [words, List.splitOnP_eq_singleton hword, List.filter_cons_of_pos (by simpa using hne),
    List.filter_nil]

theorem words_append_cons (hword : ∀ x ∈ word, sep x = false) (hne : word ≠ []) (ha : sep a) :
    words sep (word ++ a :: rest) = word :: words sep rest := by
  rw [words, List.splitOnP_append_cons_of_forall_mem hword a ha,
    List.filter_cons_of_pos (by simpa using hne), words]

/-- Words that are put together are the words of the text. -/
theorem words_unwords {ws : List (List α)}
    (hws : ∀ word ∈ ws, word ≠ [] ∧ ∀ x ∈ word, sep x = false) (ha : sep a) :
    words sep (unwords a ws) = ws := by
  induction ws with
  | nil => rfl
  | cons word ws ih =>
      obtain ⟨hne, hword⟩ := hws word List.mem_cons_self
      cases ws with
      | nil => rw [unwords, List.intercalate_singleton, words_singleton hword hne]
      | cons next ws =>
          have hrest := ih fun w hw => hws w (List.mem_cons_of_mem _ hw)
          rw [unwords, List.intercalate_cons_cons, List.append_assoc, List.singleton_append,
            words_append_cons hword hne ha, ← unwords, hrest]

/-- What is in no word and is not the separator is not in the text. -/
theorem notMem_unwords {b : α} {ws : List (List α)} (hne : b ≠ a) (hws : ∀ word ∈ ws, b ∉ word) :
    b ∉ unwords a ws := by
  induction ws with
  | nil => exact List.not_mem_nil
  | cons word ws ih =>
      have hword := hws word List.mem_cons_self
      have hrest := ih fun w hw => hws w (List.mem_cons_of_mem _ hw)
      cases ws with
      | nil => rwa [unwords, List.intercalate_singleton]
      | cons next ws =>
          rw [unwords, List.intercalate_cons_cons, ← unwords]
          simp only [List.mem_append, List.mem_singleton, not_or]
          exact ⟨⟨hword, hne⟩, hrest⟩

/-- A last line with nothing behind it. -/
theorem splitOn_unlines_append [BEq α] [LawfulBEq α] {ls : List (List α)} {last : List α}
    (hls : ∀ l ∈ ls, a ∉ l) (hlast : a ∉ last) :
    (unlines a ls ++ last).splitOn a = ls ++ [last] := by
  induction ls with
  | nil => exact List.splitOn_eq_singleton hlast
  | cons l ls ih =>
      have hrest := ih fun l' hl' => hls l' (List.mem_cons_of_mem _ hl')
      rw [unlines, List.flatMap_cons, List.append_assoc, List.append_assoc,
        List.singleton_append, List.splitOn_append_cons_self_of_not_mem (hls l List.mem_cons_self),
        ← unlines, hrest, List.cons_append]

/-- Lines that are put together are what stands between the line ends, and nothing after the
last. -/
theorem splitOn_unlines [BEq α] [LawfulBEq α] {ls : List (List α)} (hls : ∀ l ∈ ls, a ∉ l) :
    (unlines a ls).splitOn a = ls ++ [[]] := by
  rw [← List.append_nil (unlines a ls)]
  exact splitOn_unlines_append hls List.not_mem_nil

end

/-! ## Texts -/

/-- A character, or a byte that is not part of one. -/
inductive Rune where
  | char (c : Char)
  | byte (b : UInt8)
deriving DecidableEq, Repr

/-- A text: characters, and bytes that are part of none. -/
abbrev Text := List Rune

/-- The text of some characters. -/
def ofChars (cs : List Char) : Text := cs.map .char

/-- The text of a string. -/
def ofString (s : String) : Text := ofChars s.toList

namespace Rune

/-- The end of a line. -/
def newline : Rune := .char '\n'

/-- The separator of fields. -/
def space : Rune := .char ' '

/-- The number of bytes. -/
def size : Rune → ℕ
  | .char c => c.utf8Size
  | .byte _ => 1

/-- `unicode.IsSpace` -/
def isSpace : Rune → Bool
  | .char c =>
      let n := c.toNat
      9 ≤ n && n ≤ 13 || n = 0x20 || n = 0x85 || n = 0xA0 || n = 0x1680 ||
        0x2000 ≤ n && n ≤ 0x200A || n = 0x2028 || n = 0x2029 || n = 0x202F || n = 0x205F ||
        n = 0x3000
  | .byte _ => false

/-- The digit that a rune is, if it is one. -/
def digit? : Rune → Option Char
  | .char c => if c.isDigit then some c else none
  | .byte _ => none

end Rune

/-- `strings.Fields` -/
def fields (text : Text) : List Text := words Rune.isSpace text

/-- `bufio.MaxScanTokenSize` -/
def maxScanTokenSize : ℕ := 64 * 1024

/-- A line without the carriage return at its end. -/
def dropCR (line : Text) : Text :=
  if line.getLast? = some (.char '\r') then line.dropLast else line

/-- The lines that a scanner returns, unless one does not fit in its buffer.  What stands behind
the last end of line is a line if it is not empty. -/
def lines (text : Text) : Option (List Text) :=
  let parts := text.splitOn Rune.newline
  let parts := if parts.getLast? = some [] then parts.dropLast else parts
  if parts.all fun line => (line.map Rune.size).sum < maxScanTokenSize then
    some (parts.map dropCR)
  else none

/-- `strconv.ParseUint(text, 10, 64)` -/
def parseUint (text : Text) : Option UInt64 :=
  match text.mapM Rune.digit? with
  | some (c :: cs) =>
      let n := Nat.ofDigitChars 10 (c :: cs) 0
      if n < 2 ^ 64 then some (.ofNat n) else none
  | _ => none

/-- A number in decimal. -/
def digits (n : UInt64) : Text := ofChars (Nat.toDigits 10 n.toNat)

/-- A text that can stand in a line as one of its fields. -/
def IsField (text : Text) : Prop := text ≠ [] ∧ ∀ r ∈ text, r.isSpace = false

instance (text : Text) : Decidable (IsField text) := inferInstanceAs (Decidable (_ ∧ _))

/-- Two fields without a separator between them are one. -/
theorem IsField.append {text text' : Text} (h : IsField text) (h' : IsField text') :
    IsField (text ++ text') := by
  refine ⟨List.append_ne_nil_of_left_ne_nil h.1 _, fun r hr => ?_⟩
  rcases List.mem_append.mp hr with hr | hr
  · exact h.2 r hr
  · exact h'.2 r hr

/-- Fields that are put together are the fields of the text. -/
theorem fields_unwords {ws : List Text} (hws : ∀ word ∈ ws, IsField word) :
    fields (unwords Rune.space ws) = ws :=
  words_unwords hws (by decide)

/-- No space but those between the fields. -/
theorem notMem_unwords_fields {ws : List Text} (hws : ∀ word ∈ ws, IsField word) {r : Rune}
    (hspace : r.isSpace) (hne : r ≠ Rune.space) : r ∉ unwords Rune.space ws := by
  refine notMem_unwords hne fun word hword hmem => ?_
  have hnot := (hws word hword).2 r hmem
  rw [hspace] at hnot
  cases hnot

/-- A line of fields, with which a scanner does nothing. -/
theorem line_of_fields {ws : List Text} (hws : ∀ word ∈ ws, IsField word) :
    Rune.newline ∉ unwords Rune.space ws ∧ .char '\r' ∉ unwords Rune.space ws :=
  ⟨notMem_unwords_fields hws rfl (by decide), notMem_unwords_fields hws rfl (by decide)⟩

/-- A line without a carriage return is left as it is. -/
theorem dropCR_of_notMem {line : Text} (h : .char '\r' ∉ line) : dropCR line = line :=
  if_neg fun hlast => h (List.mem_of_getLast? hlast)

/-- Lines that are put together are the lines of the text, if they are not too long for the
scanner. -/
theorem lines_unlines {ls : List Text}
    (hls : ∀ l ∈ ls, Rune.newline ∉ l ∧ .char '\r' ∉ l ∧ (l.map Rune.size).sum < maxScanTokenSize) :
    lines (unlines Rune.newline ls) = some ls := by
  have hparts := splitOn_unlines fun l hl => (hls l hl).1
  have hfit : ls.all (fun l => (l.map Rune.size).sum < maxScanTokenSize) = true := by
    rw [List.all_eq_true]
    intro l hl
    exact decide_eq_true (hls l hl).2.2
  have hcr : ls.map dropCR = ls := by
    refine (List.map_congr_left fun l hl => ?_).trans (List.map_id ls)
    exact dropCR_of_notMem (hls l hl).2.1
  simp only [lines, hparts, List.getLast?_concat, if_true, List.dropLast_concat, hfit, hcr]

theorem mapM_digit?_ofChars {cs : List Char} (hcs : ∀ c ∈ cs, c.isDigit) :
    (ofChars cs).mapM Rune.digit? = some cs := by
  induction cs with
  | nil => rfl
  | cons c cs ih =>
      have hrest := ih fun c' hc' => hcs c' (List.mem_cons_of_mem _ hc')
      have hfirst : Rune.digit? (.char c) = some c := if_pos (hcs c List.mem_cons_self)
      rw [ofChars, List.map_cons, List.mapM_cons, hfirst, ← ofChars, hrest]
      rfl

theorem parseUint_digits (n : UInt64) : parseUint (digits n) = some n := by
  have hall : ∀ c ∈ Nat.toDigits 10 n.toNat, c.isDigit :=
    fun c hc => Nat.isDigit_of_mem_toDigits (by decide) (by decide) hc
  rw [parseUint, digits, mapM_digit?_ofChars hall]
  cases hdigits : Nat.toDigits 10 n.toNat with
  | nil => exact absurd hdigits Nat.toDigits_ne_nil
  | cons c cs =>
      simp only
      rw [← hdigits, Nat.ofDigitChars_ten_toDigits, if_pos n.toNat_lt, UInt64.ofNat_toNat]

theorem isField_digits (n : UInt64) : IsField (digits n) := by
  refine ⟨fun h => Nat.toDigits_ne_nil (List.map_eq_nil_iff.mp h), fun r hr => ?_⟩
  obtain ⟨c, hc, rfl⟩ := List.mem_map.mp hr
  have hdigit := Nat.isDigit_of_mem_toDigits (by decide) (by decide) hc
  simp only [Char.isDigit, Bool.and_eq_true, decide_eq_true_eq, ge_iff_le,
    UInt32.le_iff_toNat_le] at hdigit
  have hlow : 48 ≤ c.toNat := hdigit.1
  have hhigh : c.toNat ≤ 57 := hdigit.2
  simp only [Rune.isSpace, Bool.or_eq_false_iff, Bool.and_eq_false_iff, decide_eq_false_iff_not]
  omega

end Fields
