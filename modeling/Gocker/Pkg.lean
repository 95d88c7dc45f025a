/-!
# Image references

`Parse` of `pkg/common.go`, and the `name:tag` text that the launchers put into a
record.

A reference is split at every colon.  One piece is a name with the tag `latest`, two are a name
and its tag, and with more than two both are empty.  So a reference with a port and a tag is no
image, and one with a port alone has the port for its tag; `Image/Reference.lean` says for which
references the result is what a registry would say.
-/

namespace Gocker

/-- `pkg.Parse`: at most one colon, and `latest` without one. -/
def parse (input : String) : String × String :=
  match input.toList.splitOn ':' with
  | [name] => (String.ofList name, "latest")
  | [name, tag] => (String.ofList name, String.ofList tag)
  | _ => ("", "")

/-- `fmt.Sprintf("%s:%s", name, tag)` -/
def imageText (name tag : String) : String := name ++ ":" ++ tag

/-- The text of an image as characters: the name, a colon and the tag, with nothing escaped. -/
theorem toList_imageText (name tag : String) :
    (imageText name tag).toList = name.toList ++ ':' :: tag.toList := by
  simp [imageText]

/-- **The round trip.**  The text of a parsed reference is parsed to the same name and
tag, whatever was parsed in the first place. -/
theorem parse_imageText (input : String) :
    parse (imageText (parse input).1 (parse input).2) = parse input := by
  have whole : [':'].intercalate (input.toList.splitOn ':') = input.toList :=
    List.intercalate_splitOn ':'
  rcases hsplit : input.toList.splitOn ':' with _ | ⟨name, _ | ⟨tag, _ | ⟨_, _⟩⟩⟩
  · exact absurd hsplit (List.splitOn_ne_nil ':' _)
  · -- without a colon the tag is the default one
    have hparse : parse input = (String.ofList name, "latest") := by rw [parse, hsplit]
    rw [hsplit] at whole
    obtain rfl : name = input.toList := by simpa using whole
    have hlatest : "latest".toList.splitOn ':' = ["latest".toList] := by decide +kernel
    rw [hparse, parse, toList_imageText, String.toList_ofList, List.splitOn_append_cons_self,
      hsplit, hlatest]
    exact congrArg (Prod.mk _) String.ofList_toList
  · have hparse : parse input = (String.ofList name, String.ofList tag) := by rw [parse, hsplit]
    rw [hsplit] at whole
    have htext : name ++ ':' :: tag = input.toList := by simpa using whole
    rw [hparse, parse, toList_imageText, String.toList_ofList, String.toList_ofList, htext, hsplit]
  · have hparse : parse input = ("", "") := by rw [parse, hsplit]
    rw [hparse]
    rfl

/-- Splitting at an element gives one piece more than there are occurrences.  `Parse` looks at
the number of pieces, and so at the number of colons. -/
theorem length_splitOn {α : Type} [BEq α] [LawfulBEq α] (a : α) (xs : List α) :
    (xs.splitOn a).length = xs.count a + 1 := by
  induction xs with
  | nil => rfl
  | cons x xs ih =>
      rw [List.splitOn_cons_eq_if_modifyHead, List.count_cons]
      by_cases hx : (x == a) = true
      · rw [if_pos hx, if_pos hx, List.length_cons, ih]
      · rw [if_neg hx, if_neg hx, List.length_modifyHead, ih, Nat.add_zero]

/-- A reference with exactly one colon is put together as it was. -/
theorem imageText_parse {input : String} (h : input.toList.count ':' = 1) :
    imageText (parse input).1 (parse input).2 = input := by
  have whole : [':'].intercalate (input.toList.splitOn ':') = input.toList :=
    List.intercalate_splitOn ':'
  have hlength := length_splitOn ':' input.toList
  rw [h] at hlength
  rcases hsplit : input.toList.splitOn ':' with _ | ⟨name, _ | ⟨tag, _ | ⟨_, _⟩⟩⟩ <;>
    rw [hsplit] at hlength
  · cases hlength
  · cases hlength
  · have hparse : parse input = (String.ofList name, String.ofList tag) := by rw [parse, hsplit]
    rw [hsplit] at whole
    apply String.toList_injective
    rw [hparse, toList_imageText, String.toList_ofList, String.toList_ofList]
    simpa using whole
  · simp at hlength

end Gocker
