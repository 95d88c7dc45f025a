import Gocker.Pkg

/-!
# Names with a registry

An image reference is `[host[:port]/]path[:tag]`, and two places take it apart at its
colons: `Parse` (`pkg/common.go`) for `gocker run` and `Start`, and the loop of `imagesCmd`
(`cmd/images.go`) for the listing.  Both cut at every colon, so both are right exactly when
the one in front of the tag is the only one (`splitAtTag_iff`).

### Colons

`strings.Split(s, ":")` gives the parts between all colons.  `Parse` knows one part, which is a
name with the tag `latest`, and two, a name and its tag; for three it gives nothing at all.  So
`localhost:5000/alpine` is the name `localhost` with the tag `5000/alpine`, and
`localhost:5000/alpine:3` is no image.  The listing takes the first two parts, whatever follows
them.
-/

namespace Gocker.Image

/-- The `repo` and the `tag` that `imagesCmd` prints for a stored `RepoTag`. -/
def listingRow (imgName : String) : String × String :=
  match imgName.toList.splitOn ':' with
  | [] => ("", "latest")
  | [repo] => (String.ofList repo, "latest")
  | repo :: tag :: _ => (String.ofList repo, String.ofList tag)

/-! ## References -/

/-- A registry: its host, with a port or without one. -/
structure Registry where
  host : String
  port : Option String
  host_plain : ':' ∉ host.toList ∧ '/' ∉ host.toList
  port_plain : ∀ p ∈ port, ':' ∉ p.toList ∧ '/' ∉ p.toList

/-- An image reference in its parts. -/
structure Reference where
  registry : Option Registry
  path : String
  tag : Option String
  path_plain : ':' ∉ path.toList
  tag_plain : ∀ t ∈ tag, ':' ∉ t.toList ∧ '/' ∉ t.toList

/-- The text of a registry. -/
def Registry.text (g : Registry) : String :=
  match g.port with
  | none => g.host
  | some port => g.host ++ ":" ++ port

namespace Reference

variable (r : Reference)

/-- Everything in front of the tag. -/
def name : String :=
  match r.registry with
  | none => r.path
  | some g => g.text ++ "/" ++ r.path

/-- The text of a reference. -/
def text : String :=
  match r.tag with
  | none => r.name
  | some tag => r.name ++ ":" ++ tag

/-- The port that the reference names, if any. -/
def port : Option String := r.registry.bind Registry.port

/-- The reference is taken apart at its tag, by both functions. -/
def SplitAtTag : Prop :=
  parse r.text = (r.name, r.tag.getD "latest") ∧
    listingRow r.text = (r.name, r.tag.getD "latest")

variable {r}

/-- Without a port there is no colon before the tag. -/
theorem not_mem_name (h : r.port = none) : ':' ∉ r.name.toList := by
  have hpath := r.path_plain
  unfold name
  cases hregistry : r.registry with
  | none => exact hpath
  | some g =>
      have hport : g.port = none := by rwa [port, hregistry] at h
      simp [Registry.text, hport, g.host_plain.1, hpath]

/-- Without a port, the text has at most the colon of the tag. -/
theorem splitOn_text (h : r.port = none) :
    r.text.toList.splitOn ':' = r.name.toList :: (r.tag.map String.toList).toList := by
  have hname := not_mem_name h
  unfold text
  cases htag : r.tag with
  | none => exact List.splitOn_eq_singleton hname
  | some tag =>
      have htext : (r.name ++ ":" ++ tag).toList = r.name.toList ++ ':' :: tag.toList := by
        simp
      rw [htext, List.splitOn_append_cons_self_of_not_mem hname,
        List.splitOn_eq_singleton (r.tag_plain tag htag).1]
      rfl

/-- Without a port the listing shows the name and the tag, or `latest`. -/
theorem listingRow_text (h : r.port = none) :
    listingRow r.text = (r.name, r.tag.getD "latest") := by
  rw [listingRow, splitOn_text h]
  cases r.tag <;> simp

/-- With a port, the first piece is the host, and there are two or three of them. -/
theorem parse_ne (h : r.port ≠ none) : (parse r.text).1 ≠ r.name := by
  obtain ⟨p, hp⟩ := Option.ne_none_iff_exists'.mp h
  obtain ⟨g, hregistry, hport⟩ := Option.bind_eq_some_iff.mp hp
  have hname : r.name.toList = g.host.toList ++ ':' :: (p.toList ++ '/' :: r.path.toList) := by
    simp [name, hregistry, Registry.text, hport]
  have hcolon : ':' ∈ r.name.toList := by simp [hname]
  have hsplit : ∃ rest, r.text.toList.splitOn ':' = g.host.toList :: rest := by
    unfold text
    cases r.tag with
    | none =>
        rw [hname, List.splitOn_append_cons_self_of_not_mem g.host_plain.1]
        exact ⟨_, rfl⟩
    | some tag =>
        have htext : (r.name ++ ":" ++ tag).toList =
            g.host.toList ++ ':' :: (p.toList ++ '/' :: r.path.toList ++ ':' :: tag.toList) := by
          simp [hname]
        rw [htext, List.splitOn_append_cons_self_of_not_mem g.host_plain.1]
        exact ⟨_, rfl⟩
  obtain ⟨rest, hsplit⟩ := hsplit
  have hno : ':' ∉ (parse r.text).1.toList := by
    rw [parse, hsplit]
    rcases rest with _ | ⟨tag, _ | ⟨x, xs⟩⟩
    · simpa using g.host_plain.1
    · simpa using g.host_plain.1
    · simp
  intro heq
  rw [heq] at hno
  exact hno hcolon

/-- **A reference is taken apart at its tag** if and only if it has no port, by `Parse` and by the
listing alike. -/
theorem splitAtTag_iff (r : Reference) : r.SplitAtTag ↔ r.port = none := by
  constructor
  · rintro ⟨hparse, -⟩
    apply Classical.byContradiction
    intro hport
    exact parse_ne hport (congrArg Prod.fst hparse)
  · intro hport
    have hsplit := splitOn_text hport
    rw [SplitAtTag, parse, listingRow, hsplit]
    cases r.tag <;> simp

/-- An image of a registry on this machine. -/
def localAlpine : Reference where
  registry := some ⟨"localhost", some "5000", by decide, by decide⟩
  path := "alpine"
  tag := some "3.19"
  path_plain := by decide
  tag_plain := by decide

/-- `localhost:5000/alpine:3.19` is no reference at all for one function, and the image
`localhost` with a tag `5000/alpine` for the other. -/
theorem local_split :
    parse localAlpine.text = ("", "") ∧
      listingRow localAlpine.text = ("localhost", "5000/alpine") ∧
        ¬ localAlpine.SplitAtTag := by
  have hparse : parse localAlpine.text = ("", "") := by decide +kernel
  have hrow : listingRow localAlpine.text = ("localhost", "5000/alpine") := by decide +kernel
  have hname : "" ≠ localAlpine.name := by decide +kernel
  refine ⟨hparse, hrow, ?_⟩
  rintro ⟨hsplit, -⟩
  rw [hparse] at hsplit
  exact hname (congrArg Prod.fst hsplit)

end Reference

end Gocker.Image
