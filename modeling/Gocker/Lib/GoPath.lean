import Mathlib.Data.List.Basic
import Mathlib.Tactic.SplitIfs

/-!
# Paths

`filepath.Clean`, `filepath.Join` and `filepath.Dir` on Unix: a path is worked through element by
element, `.` and empty elements are dropped, and `..` takes the element before it away.

`path true es` is the absolute path with given elements.  If these are names, the functions act
on the text as on the list (`dir_path`, `join_path`).

### Use

Code that works on a tree of directories joins names and takes directories off again, and it is
correct on the texts if it is on the lists of names.  The functions are defined on any text, so
that what happens with `..` or an empty name can be computed; the theorems are about names.
-/

namespace GoPath

/-- An element of a path. -/
abbrev Elem := List Char

/-- `.` -/
def dot : Elem := ['.']

/-- `..` -/
def dotDot : Elem := ['.', '.']

/-- The next element; the elements before it stand in `out`, the last one first. -/
def push (rooted : Bool) (out : List Elem) (elem : Elem) : List Elem :=
  if elem = [] ∨ elem = dot then out
  else if elem = dotDot then
    match out with
    | [] => if rooted then [] else [dotDot]
    | top :: rest => if top = dotDot then dotDot :: top :: rest else rest
  else elem :: out

/-- Whether a path begins at the root. -/
def rooted (text : List Char) : Bool := text.head? = some '/'

/-- The elements of a cleaned path. -/
def elems (text : List Char) : List Elem :=
  ((text.splitOn '/').foldl (push (rooted text)) []).reverse

/-- The text of a path. -/
def path (rooted : Bool) (es : List Elem) : List Char :=
  if rooted then '/' :: ['/'].intercalate es
  else if es = [] then dot
  else ['/'].intercalate es

/-- `filepath.Clean` -/
def clean (text : List Char) : List Char := path (rooted text) (elems text)

/-- `filepath.Join` -/
def join (parts : List (List Char)) : List Char :=
  match parts.dropWhile List.isEmpty with
  | [] => []
  | parts => clean (['/'].intercalate parts)

/-- `filepath.Dir` -/
def dir (text : List Char) : List Char :=
  clean (text.reverse.dropWhile (· ≠ '/')).reverse

/-! ## Names -/

/-- An element that is a name. -/
structure Plain (elem : Elem) : Prop where
  nonempty : elem ≠ []
  noSlash : '/' ∉ elem
  notDot : elem ≠ dot
  notDotDot : elem ≠ dotDot

instance (elem : Elem) : Decidable (Plain elem) :=
  decidable_of_iff (elem ≠ [] ∧ '/' ∉ elem ∧ elem ≠ dot ∧ elem ≠ dotDot)
    ⟨fun ⟨h₁, h₂, h₃, h₄⟩ => ⟨h₁, h₂, h₃, h₄⟩, fun ⟨h₁, h₂, h₃, h₄⟩ => ⟨h₁, h₂, h₃, h₄⟩⟩

variable {es fs : List Elem} {e : Elem} {r : Bool} {out : List Elem}

theorem push_plain (he : Plain e) : push r out e = e :: out := by
  unfold push
  rw [if_neg (by simp [he.nonempty, he.notDot]), if_neg he.notDotDot]

theorem push_nil : push r out [] = out := if_pos (.inl rfl)

theorem foldl_push (hes : ∀ e ∈ es, Plain e) : es.foldl (push r) out = es.reverse ++ out := by
  induction es generalizing out with
  | nil => rfl
  | cons e es ih =>
      rw [List.foldl_cons, push_plain (hes e List.mem_cons_self),
        ih fun e' he' => hes e' (List.mem_cons_of_mem _ he'), List.reverse_cons, List.append_assoc,
        List.singleton_append]

/-- Names put together and split again. -/
theorem foldl_push_intercalate (hes : ∀ e ∈ es, Plain e) :
    ((['/'].intercalate es).splitOn '/').foldl (push r) out = es.reverse ++ out := by
  by_cases hne : es = []
  · subst hne
    exact push_nil (r := r)
  · rw [List.splitOn_intercalate '/' (fun e he => (hes e he).noSlash) hne, foldl_push hes]

theorem path_rooted (es : List Elem) : path true es = '/' :: ['/'].intercalate es := rfl

theorem elems_rooted (text : List Char) :
    elems ('/' :: text) = ((text.splitOn '/').foldl (push true) []).reverse := by
  have hsplit : ('/' :: text).splitOn '/' = [] :: text.splitOn '/' :=
    List.splitOn_append_cons_self [] text
  rw [elems, hsplit, List.foldl_cons, push_nil]
  rfl

theorem clean_rooted {text : List Char} (h : elems ('/' :: text) = es) :
    clean ('/' :: text) = path true es := by
  rw [clean, h]
  rfl

/-- What is joined to a path goes behind it. -/
theorem join_path (hes : ∀ e ∈ es, Plain e) (hfs : ∀ e ∈ fs, Plain e) :
    join [path true es, ['/'].intercalate fs] = path true (es ++ fs) := by
  have hjoin : join [path true es, ['/'].intercalate fs] =
      clean ('/' :: (['/'].intercalate es ++ '/' :: ['/'].intercalate fs)) := by
    simp [join, path]
  rw [hjoin]
  refine clean_rooted ?_
  rw [elems_rooted, List.splitOn_append_cons_self, List.foldl_append, foldl_push_intercalate hes,
    foldl_push_intercalate hfs, List.append_nil, List.reverse_append, List.reverse_reverse,
    List.reverse_reverse]

/-- A slash at its beginning is nothing. -/
theorem join_path_rooted (hes : ∀ e ∈ es, Plain e) (hfs : ∀ e ∈ fs, Plain e) :
    join [path true es, path true fs] = path true (es ++ fs) := by
  have hjoin : join [path true es, path true fs] =
      clean ('/' :: (['/'].intercalate es ++ '/' :: '/' :: ['/'].intercalate fs)) := by
    simp [join, path]
  have hsplit : ('/' :: ['/'].intercalate fs).splitOn '/' =
      [] :: (['/'].intercalate fs).splitOn '/' := List.splitOn_append_cons_self [] _
  rw [hjoin]
  refine clean_rooted ?_
  rw [elems_rooted, List.splitOn_append_cons_self, List.foldl_append, foldl_push_intercalate hes,
    hsplit, List.foldl_cons, push_nil, foldl_push_intercalate hfs, List.append_nil,
    List.reverse_append, List.reverse_reverse, List.reverse_reverse]

theorem intercalate_concat (hne : es ≠ []) (a : Char) (e : Elem) :
    [a].intercalate (es ++ [e]) = [a].intercalate es ++ a :: e := by
  induction es with
  | nil => exact absurd rfl hne
  | cons x es ih =>
      cases es with
      | nil => simp
      | cons y es =>
          rw [List.cons_append, List.cons_append, List.intercalate_cons_cons, ← List.cons_append,
            ih (List.cons_ne_nil y es), List.intercalate_cons_cons, List.append_assoc,
            List.append_assoc, List.append_assoc]

theorem path_concat (hne : es ≠ []) (e : Elem) :
    path true (es ++ [e]) = path true es ++ '/' :: e := by
  rw [path_rooted, intercalate_concat hne]
  rfl

/-- The last element can be read off a text. -/
theorem append_cons_inj_right {front front' : List Char} {f : Elem} (he : '/' ∉ e) (hf : '/' ∉ f)
    (h : front ++ '/' :: e = front' ++ '/' :: f) : e = f := by
  have hsplit := congrArg (List.splitOn '/') h
  rw [List.splitOn_append_cons_self, List.splitOn_append_cons_self, List.splitOn_eq_singleton he,
    List.splitOn_eq_singleton hf] at hsplit
  have hlast := congrArg List.getLast? hsplit
  rw [List.getLast?_concat, List.getLast?_concat] at hlast
  exact Option.some.inj hlast

/-- The elements of a path are what stands between its slashes. -/
theorem splitOn_path (hes : ∀ e ∈ es, Plain e) (hne : es ≠ []) :
    (path true es).splitOn '/' = [] :: es := by
  rw [path_rooted, show '/' :: ['/'].intercalate es = [] ++ '/' :: ['/'].intercalate es from rfl,
    List.splitOn_append_cons_self,
    List.splitOn_intercalate '/' (fun e he => (hes e he).noSlash) hne]
  rfl

/-- The directory of a path is all but its last element. -/
theorem dir_path (hes : ∀ e ∈ es, Plain e) (he : Plain e) :
    dir (path true (es ++ [e])) = path true es := by
  have hlast : ∃ front, path true (es ++ [e]) = front ++ '/' :: e ∧
      elems (front ++ ['/']) = es ∧ (front ++ ['/']).head? = some '/' := by
    by_cases hne : es = []
    · subst hne
      exact ⟨[], by simp [path], rfl, rfl⟩
    · refine ⟨path true es, path_concat hne e, ?_, rfl⟩
      · rw [path_rooted, List.cons_append, elems_rooted, List.splitOn_append_cons_self,
          List.splitOn_nil, List.foldl_append, foldl_push_intercalate hes, List.foldl_cons,
          push_nil, List.foldl_nil, List.append_nil, List.reverse_reverse]
  obtain ⟨front, hpath, helems, hhead⟩ := hlast
  have hdrop : (path true (es ++ [e])).reverse.dropWhile (· ≠ '/') = '/' :: front.reverse := by
    have hall : ∀ c ∈ e.reverse, decide (c ≠ '/') = true := fun c hc =>
      decide_eq_true fun h => he.noSlash (h ▸ List.mem_reverse.mp hc)
    rw [hpath, List.reverse_append, List.reverse_cons, List.append_assoc,
      List.dropWhile_append_of_pos hall, List.singleton_append,
      List.dropWhile_cons_of_neg (by simp)]
  obtain ⟨text, htext⟩ : ∃ text, front ++ ['/'] = '/' :: text := by
    cases hfront : front ++ ['/'] with
    | nil => simp at hfront
    | cons c text =>
        rw [hfront, List.head?_cons] at hhead
        exact ⟨text, by rw [Option.some.inj hhead]⟩
  rw [dir, hdrop, List.reverse_cons, List.reverse_reverse, htext]
  exact clean_rooted (htext ▸ helems)

end GoPath
