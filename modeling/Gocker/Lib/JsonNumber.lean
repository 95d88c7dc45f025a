import Mathlib.Tactic
import Mathlib.Data.List.TakeWhile

/-!
# The numbers of JSON

A number in a JSON text is a sign, an integer without superfluous leading zeros, a fraction and
an exponent, of which only the integer has to be there.  What it stands for depends on the
reader: Go's `encoding/json` keeps the text of a number, and only when it is stored in a field it
is read as a number of the field's type.  So the text is what has to be told apart here.

## Readers

`Part` is a reader of a part of a text: it takes characters off the front, and says what it has
taken and what it leaves.  Parts are put one behind the other (`Part.seq`), or behind a
character that may be missing (`Part.behind`); `Part.number` is the grammar, put together of
these.

`Part.Lawful` says what every part of a number has in common.  It takes what it says
(`takes`), all of it characters of numbers (`chars`), and what it has taken once it takes again,
whatever comes behind it, as long as the number does not go on there (`again`).  The
combinators keep these laws, so that they hold of `Part.number` (`lawful_number`).

## Literals

* `IsLiteral` is the text of a number.
* `intOf` is the integer that such a text stands for, if it is one that Go's `strconv` reads in
  every integer type.  A fraction, an exponent and minus zero are not; these texts are kept as
  they are (`Decimal`).
* `renderInt` writes an integer, and `isLiteral_renderInt` and `intOf_renderInt` are the round
  trip.
-/

namespace Json

/-! ## Readers -/

/-- A reader of the front of a text: what it takes and what it leaves, if it finds what it looks
for. -/
abbrev Part := List Char → Option (List Char × List Char)

namespace Part

/-- One part, and behind it another one. -/
def seq (p q : Part) : Part := fun s =>
  (p s).bind fun a => (q a.2).map fun b => (a.1 ++ b.1, b.2)

/-- A part behind one of these characters.  Where the text does not begin with one of them,
nothing is taken. -/
def behind (cs : List Char) (p : Part) : Part
  | [] => some ([], [])
  | c :: r => if c ∈ cs then (p r).map fun b => (c :: b.1, b.2) else some ([], c :: r)

/-- Nothing is looked for. -/
def nothing : Part := fun s => some ([], s)

/-- Digits, at least one of them. -/
def digits : Part
  | [] => none
  | c :: r =>
      if c.isDigit then some (c :: r.takeWhile Char.isDigit, r.dropWhile Char.isDigit) else none

/-- A zero, or digits that begin with another one. -/
def integer : Part
  | '0' :: r => some (['0'], r)
  | s => digits s

/-- A point and digits, or nothing. -/
def fraction : Part := behind ['.'] digits

/-- The letter of an exponent, a sign that may be missing, and digits; or nothing. -/
def exponent : Part := behind ['e', 'E'] (seq (behind ['+', '-'] nothing) digits)

/-- The grammar of a number. -/
def number : Part := seq (behind ['-'] nothing) (seq integer (seq fraction exponent))

end Part

/-! ## What the parts of a number have in common -/

/-- What the text of a number is made of. -/
def isNumberChar (c : Char) : Bool := c.isDigit || c ∈ ['.', 'e', 'E', '+', '-']

/-- A text that does not go on with a number. -/
def Stops (r : List Char) : Prop := ∀ c ∈ r.head?, isNumberChar c = false

theorem stops_nil : Stops [] := fun c hc => by cases hc

/-- A number ends before a character that is no part of numbers. -/
theorem stops_cons {c : Char} (h : isNumberChar c = false) (r : List Char) : Stops (c :: r) := by
  intro c' hc'
  rwa [← Option.some.inj hc']

/-- A character at which a number stops is no digit. -/
theorem not_isDigit_of_isNumberChar {c : Char} (h : isNumberChar c = false) :
    c.isDigit = false := by
  rw [isNumberChar, Bool.or_eq_false_iff] at h
  exact h.1

namespace Part

/-- The laws of a part: it takes characters of a number off the front of the text, and it takes
them again whatever is put behind them, if this begins as before or stops the number. -/
structure Lawful (p : Part) : Prop where
  takes : ∀ {s t u}, p s = some (t, u) → s = t ++ u
  chars : ∀ {s t u}, p s = some (t, u) → ∀ c ∈ t, isNumberChar c = true
  again : ∀ {s t u}, p s = some (t, u) → ∀ r, r.head? = u.head? ∨ Stops r →
    p (t ++ r) = some (t, r)

variable {p q : Part} {cs : List Char}

theorem lawful_nothing : Lawful nothing where
  takes h := by
    obtain ⟨rfl, rfl⟩ := Prod.mk.inj (Option.some.inj h)
    rfl
  chars h c hc := by
    obtain ⟨rfl, rfl⟩ := Prod.mk.inj (Option.some.inj h)
    cases hc
  again h r _ := by
    obtain ⟨rfl, rfl⟩ := Prod.mk.inj (Option.some.inj h)
    rfl

theorem seq_eq_some {s t u : List Char} :
    seq p q s = some (t, u) ↔ ∃ t₁ s₁ t₂, p s = some (t₁, s₁) ∧ q s₁ = some (t₂, u) ∧
      t = t₁ ++ t₂ := by
  rw [seq, Option.bind_eq_some_iff]
  constructor
  · rintro ⟨⟨t₁, s₁⟩, hp, h⟩
    obtain ⟨⟨t₂, u'⟩, hq, heq⟩ := Option.map_eq_some_iff.mp h
    obtain ⟨rfl, rfl⟩ := Prod.mk.inj heq
    exact ⟨t₁, s₁, t₂, hp, hq, rfl⟩
  · rintro ⟨t₁, s₁, t₂, hp, hq, rfl⟩
    exact ⟨(t₁, s₁), hp, Option.map_eq_some_iff.mpr ⟨(t₂, u), hq, rfl⟩⟩

/-- The second part begins where the first one stops, in the longer text as before. -/
theorem Lawful.seq (hp : Lawful p) (hq : Lawful q) : Lawful (seq p q) where
  takes h := by
    obtain ⟨t₁, s₁, t₂, h₁, h₂, rfl⟩ := seq_eq_some.mp h
    rw [hp.takes h₁, hq.takes h₂, List.append_assoc]
  chars h c hc := by
    obtain ⟨t₁, s₁, t₂, h₁, h₂, rfl⟩ := seq_eq_some.mp h
    exact (List.mem_append.mp hc).elim (hp.chars h₁ c) (hq.chars h₂ c)
  again h r hr := by
    obtain ⟨t₁, s₁, t₂, h₁, h₂, rfl⟩ := seq_eq_some.mp h
    refine seq_eq_some.mpr ⟨t₁, t₂ ++ r, t₂, ?_, hq.again h₂ r hr, rfl⟩
    rw [List.append_assoc]
    refine hp.again h₁ (t₂ ++ r) ?_
    cases t₂ with
    | nil =>
        rw [hq.takes h₂]
        exact hr
    | cons c t₂ =>
        rw [hq.takes h₂]
        exact .inl rfl

/-- A part behind a character that may be missing keeps the laws. -/
theorem Lawful.behind (hp : Lawful p) (hcs : ∀ c ∈ cs, isNumberChar c = true) :
    Lawful (behind cs p) where
  takes {s t u} h := by
    cases s with
    | nil =>
        obtain ⟨rfl, rfl⟩ := Prod.mk.inj (Option.some.inj h)
        rfl
    | cons c s =>
        rw [Part.behind] at h
        split_ifs at h with hc
        · obtain ⟨⟨t', u'⟩, ht, heq⟩ := Option.map_eq_some_iff.mp h
          obtain ⟨rfl, rfl⟩ := Prod.mk.inj heq
          rw [hp.takes ht, List.cons_append]
        · obtain ⟨rfl, rfl⟩ := Prod.mk.inj (Option.some.inj h)
          rfl
  chars {s t u} h := by
    cases s with
    | nil =>
        obtain ⟨rfl, rfl⟩ := Prod.mk.inj (Option.some.inj h)
        exact List.forall_mem_nil _
    | cons c s =>
        rw [Part.behind] at h
        split_ifs at h with hc
        · obtain ⟨⟨t', u'⟩, ht, heq⟩ := Option.map_eq_some_iff.mp h
          obtain ⟨rfl, rfl⟩ := Prod.mk.inj heq
          exact List.forall_mem_cons.mpr ⟨hcs c hc, hp.chars ht⟩
        · obtain ⟨rfl, rfl⟩ := Prod.mk.inj (Option.some.inj h)
          exact List.forall_mem_nil _
  again {s t u} h r hr := by
    -- the other text does not begin with one of the characters either
    have hnone : t = [] → (∀ c ∈ u.head?, c ∉ cs) → Part.behind cs p (t ++ r) = some (t, r) := by
      rintro rfl hu
      cases r with
      | nil => rfl
      | cons c r =>
          have hc : c ∉ cs := by
            rcases hr with hhead | hstop
            · exact hu c (hhead ▸ rfl)
            · intro hmem
              exact absurd ((hcs c hmem).symm.trans (hstop c rfl)) (by decide)
          rw [List.nil_append, Part.behind, if_neg hc]
    cases s with
    | nil =>
        obtain ⟨rfl, rfl⟩ := Prod.mk.inj (Option.some.inj h)
        exact hnone rfl fun c hc => by cases hc
    | cons c s =>
        rw [Part.behind] at h
        split_ifs at h with hc
        · obtain ⟨⟨t', u'⟩, ht, heq⟩ := Option.map_eq_some_iff.mp h
          obtain ⟨rfl, rfl⟩ := Prod.mk.inj heq
          rw [List.cons_append, Part.behind, if_pos hc, hp.again ht r hr]
          rfl
        · obtain ⟨rfl, rfl⟩ := Prod.mk.inj (Option.some.inj h)
          refine hnone rfl fun c' hc' => ?_
          rwa [← Option.some.inj hc']

/-- The digits in front of a text that goes on without a digit. -/
theorem takeWhile_digits {ds r : List Char} (hds : ∀ c ∈ ds, Char.isDigit c = true)
    (hr : ∀ c ∈ r.head?, Char.isDigit c = false) :
    (ds ++ r).takeWhile Char.isDigit = ds ∧ (ds ++ r).dropWhile Char.isDigit = r := by
  rw [List.takeWhile_append_of_pos hds, List.dropWhile_append_of_pos hds]
  cases r with
  | nil => simp
  | cons c r => simp [hr c rfl]

/-- Digits are taken as far as there are any, and one at least. -/
theorem digits_eq_some {s t u : List Char} :
    digits s = some (t, u) ↔ s = t ++ u ∧ t ≠ [] ∧ (∀ c ∈ t, Char.isDigit c = true) ∧
      ∀ c ∈ u.head?, Char.isDigit c = false := by
  constructor
  · intro h
    cases s with
    | nil => cases h
    | cons c s =>
        rw [digits] at h
        split_ifs at h with hc
        obtain ⟨rfl, rfl⟩ := Prod.mk.inj (Option.some.inj h)
        refine ⟨by rw [List.cons_append, List.takeWhile_append_dropWhile], List.cons_ne_nil _ _,
          List.forall_mem_cons.mpr ⟨hc, fun c hc => List.mem_takeWhile_imp hc⟩, fun c hc => ?_⟩
        have hstop := List.head?_dropWhile_not Char.isDigit s
        rwa [Option.mem_def.mp hc] at hstop
  · rintro ⟨rfl, hne, ht, hu⟩
    obtain ⟨c, t, rfl⟩ := List.exists_cons_of_ne_nil hne
    obtain ⟨hc, ht⟩ := List.forall_mem_cons.mp ht
    obtain ⟨htake, hdrop⟩ := takeWhile_digits ht hu
    rw [List.cons_append, digits, if_pos hc, htake, hdrop]

theorem isNumberChar_of_isDigit {c : Char} (h : c.isDigit = true) : isNumberChar c = true := by
  rw [isNumberChar, h, Bool.true_or]

theorem lawful_digits : Lawful digits where
  takes h := (digits_eq_some.mp h).1
  chars h c hc := isNumberChar_of_isDigit ((digits_eq_some.mp h).2.2.1 c hc)
  again h r hr := by
    obtain ⟨-, hne, ht, hu⟩ := digits_eq_some.mp h
    refine digits_eq_some.mpr ⟨rfl, hne, ht, fun c hc => ?_⟩
    rcases hr with hhead | hstop
    · exact hu c (hhead ▸ hc)
    · exact not_isDigit_of_isNumberChar (hstop c hc)

/-- Digits that do not begin with a zero. -/
theorem integer_of_ne {c : Char} (h : c ≠ '0') (s : List Char) :
    integer (c :: s) = digits (c :: s) := by
  unfold integer
  split
  · next heq => exact absurd (List.cons.inj heq).1 h
  · rfl

theorem lawful_integer : Lawful integer := by
  -- a zero, or what holds of digits
  have cases : ∀ {s t u}, integer s = some (t, u) →
      t = ['0'] ∧ s = '0' :: u ∨
        digits s = some (t, u) ∧ ∀ r, integer (t ++ r) = digits (t ++ r) := by
    intro s t u h
    cases s with
    | nil => cases h
    | cons c s =>
        by_cases hc : c = '0'
        · subst hc
          obtain ⟨rfl, rfl⟩ := Prod.mk.inj (Option.some.inj h)
          exact .inl ⟨rfl, rfl⟩
        · rw [integer_of_ne hc] at h
          refine .inr ⟨h, fun r => ?_⟩
          obtain ⟨heq, hne, -⟩ := digits_eq_some.mp h
          obtain ⟨c', t, rfl⟩ := List.exists_cons_of_ne_nil hne
          obtain ⟨rfl, -⟩ := List.cons.inj heq
          exact integer_of_ne hc (t ++ r)
  refine ⟨fun h => ?_, fun h => ?_, fun h r hr => ?_⟩
  · rcases cases h with ⟨rfl, rfl⟩ | ⟨hdigits, -⟩
    · rfl
    · exact lawful_digits.takes hdigits
  · rcases cases h with ⟨rfl, rfl⟩ | ⟨hdigits, -⟩
    · exact List.all_eq_true.mp rfl
    · exact lawful_digits.chars hdigits
  · rcases cases h with ⟨rfl, rfl⟩ | ⟨hdigits, hsame⟩
    · rfl
    · rw [hsame]
      exact lawful_digits.again hdigits r hr

/-- **The laws hold of a number.** -/
theorem lawful_number : Lawful number := by
  have behind : ∀ {p : Part} {cs : List Char}, Lawful p → cs.all isNumberChar = true →
      Lawful (Part.behind cs p) := fun h hcs => h.behind (List.all_eq_true.mp hcs)
  have fraction : Lawful fraction := behind lawful_digits rfl
  have exponent : Lawful exponent := behind ((behind lawful_nothing rfl).seq lawful_digits) rfl
  exact (behind lawful_nothing rfl).seq (lawful_integer.seq (fraction.seq exponent))

end Part

/-! ## Literals -/

/-- The text of a number. -/
def IsLiteral (t : List Char) : Prop := ∃ s u, Part.number s = some (t, u)

/-- A literal is read as a whole, whatever stops it. -/
theorem IsLiteral.number {t r : List Char} (h : IsLiteral t) (hr : Stops r) :
    Part.number (t ++ r) = some (t, r) := by
  obtain ⟨s, u, hread⟩ := h
  exact Part.lawful_number.again hread r (.inr hr)

theorem IsLiteral.chars {t : List Char} (h : IsLiteral t) : ∀ c ∈ t, isNumberChar c = true := by
  obtain ⟨s, u, hread⟩ := h
  exact Part.lawful_number.chars hread

/-- An integer part begins with a digit. -/
theorem Part.integer_head {s t u : List Char} (h : Part.integer s = some (t, u)) :
    ∃ c r, t = c :: r ∧ c.isDigit = true := by
  unfold Part.integer at h
  split at h
  · obtain ⟨rfl, -⟩ := Prod.mk.inj (Option.some.inj h)
    exact ⟨'0', [], rfl, rfl⟩
  · obtain ⟨-, hne, hall, -⟩ := Part.digits_eq_some.mp h
    obtain ⟨c, t, rfl⟩ := List.exists_cons_of_ne_nil hne
    exact ⟨c, t, rfl, hall c List.mem_cons_self⟩

/-- A literal begins with a minus sign or a digit. -/
theorem IsLiteral.head {t : List Char} (h : IsLiteral t) :
    ∃ c r, t = c :: r ∧ (c = '-' ∨ c.isDigit = true) := by
  obtain ⟨s, u, hread⟩ := h
  obtain ⟨sign, s₁, rest, hsign, hrest, rfl⟩ := Part.seq_eq_some.mp hread
  obtain ⟨int, s₂, tail, hint, -, rfl⟩ := Part.seq_eq_some.mp hrest
  obtain ⟨c, int, rfl, hc⟩ := Part.integer_head hint
  cases s with
  | nil =>
      obtain ⟨rfl, -⟩ := Prod.mk.inj (Option.some.inj hsign)
      exact ⟨c, _, rfl, .inr hc⟩
  | cons c' s =>
      rw [Part.behind] at hsign
      split_ifs at hsign with hminus
      · obtain ⟨rfl, -⟩ := Prod.mk.inj (Option.some.inj hsign)
        exact ⟨c', _, rfl, .inl (List.mem_singleton.mp hminus)⟩
      · obtain ⟨rfl, -⟩ := Prod.mk.inj (Option.some.inj hsign)
        exact ⟨c, _, rfl, .inr hc⟩

/-- The integer of a literal, if every integer type of Go reads it as one: there are only digits,
and it is not minus zero, which is none for a type without signs. -/
def intOf : List Char → Option Int
  | '-' :: ds =>
      if ds.all Char.isDigit ∧ ds ≠ ['0'] then some (-(Nat.ofDigitChars 10 ds 0 : Int)) else none
  | ds => if ds.all Char.isDigit then some (Nat.ofDigitChars 10 ds 0 : Int) else none

/-- A number that is not read as an integer everywhere, by its text. -/
structure Decimal where
  text : List Char
  isLiteral : IsLiteral text
  notInt : intOf text = none

/-! ## Integers -/

/-- The text of an integer. -/
def renderInt (n : Int) : List Char :=
  if n < 0 then '-' :: Nat.toDigits 10 n.natAbs else Nat.toDigits 10 n.natAbs

theorem isDigit_of_mem_toDigits {n : ℕ} : ∀ c ∈ Nat.toDigits 10 n, c.isDigit = true :=
  fun _ hc => Nat.isDigit_of_mem_toDigits (by decide) (by decide) hc

/-- The digits of a number that is not zero do not begin with one. -/
theorem toDigits_head {n : ℕ} (h : 0 < n) : ∃ c t, Nat.toDigits 10 n = c :: t ∧ c ≠ '0' := by
  induction n using Nat.strongRecOn with
  | ind n ih =>
      rcases Nat.lt_or_ge n 10 with hlt | hge
      · refine ⟨n.digitChar, [], Nat.toDigits_of_lt_base hlt, ?_⟩
        have all : ∀ m : Fin 10, 0 < m.val → Nat.digitChar m ≠ '0' := by decide
        exact all ⟨n, hlt⟩ h
      · obtain ⟨c, t, heq, hc⟩ := ih (n / 10) (by omega) (by omega)
        refine ⟨c, t ++ [Nat.digitChar (n % 10)], ?_, hc⟩
        rw [Nat.toDigits_of_base_le (by decide) hge, heq, List.cons_append]

/-- They are an integer without superfluous zeros. -/
theorem integer_toDigits (n : ℕ) :
    Part.integer (Nat.toDigits 10 n) = some (Nat.toDigits 10 n, []) := by
  rcases Nat.eq_zero_or_pos n with rfl | hpos
  · rfl
  · obtain ⟨c, t, heq, hc⟩ := toDigits_head hpos
    have hall := isDigit_of_mem_toDigits (n := n)
    rw [heq] at hall ⊢
    rw [Part.integer_of_ne hc]
    exact Part.digits_eq_some.mpr
      ⟨(List.append_nil _).symm, List.cons_ne_nil c t, hall, fun c hc => by cases hc⟩

/-- An integer part alone is a literal, and behind a minus sign as well. -/
theorem isLiteral_of_integer {sign ds : List Char} (hds : Part.integer ds = some (ds, []))
    (hsign : sign = [] ∨ sign = ['-']) : IsLiteral (sign ++ ds) := by
  have hrest : Part.seq Part.integer (Part.seq Part.fraction Part.exponent) ds = some (ds, []) :=
    Part.seq_eq_some.mpr ⟨ds, [], [], hds, rfl, (List.append_nil ds).symm⟩
  refine ⟨sign ++ ds, [], Part.seq_eq_some.mpr ⟨sign, ds, ds, ?_, hrest, rfl⟩⟩
  rcases hsign with rfl | rfl
  · obtain ⟨c, r, rfl, hc⟩ := Part.integer_head hds
    rw [List.nil_append, Part.behind, if_neg]
    rintro hmem
    rw [List.mem_singleton.mp hmem] at hc
    exact absurd hc (by decide)
  · rfl

theorem isLiteral_renderInt (n : Int) : IsLiteral (renderInt n) := by
  unfold renderInt
  split_ifs
  · exact isLiteral_of_integer (integer_toDigits n.natAbs) (.inr rfl)
  · exact isLiteral_of_integer (integer_toDigits n.natAbs) (.inl rfl)

/-- **The round trip** of an integer. -/
theorem intOf_renderInt (n : Int) : intOf (renderInt n) = some n := by
  have hall : (Nat.toDigits 10 n.natAbs).all Char.isDigit = true :=
    List.all_eq_true.mpr isDigit_of_mem_toDigits
  unfold renderInt
  split_ifs with hneg
  · obtain ⟨c, t, heq, hc⟩ := toDigits_head (n := n.natAbs) (by omega)
    have hne : Nat.toDigits 10 n.natAbs ≠ ['0'] := by
      rw [heq]
      exact fun h => hc (List.cons.inj h).1
    rw [intOf, if_pos ⟨hall, hne⟩, Nat.ofDigitChars_ten_toDigits]
    exact congrArg some (by omega)
  · have hminus : ∀ ds, Nat.toDigits 10 n.natAbs = '-' :: ds → False := by
      intro ds heq
      rw [heq] at hall
      cases hall
    rw [intOf, if_pos hall, Nat.ofDigitChars_ten_toDigits]
    · exact congrArg some (by omega)
    · exact hminus

end Json
