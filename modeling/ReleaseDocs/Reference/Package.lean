import ReleaseDocs.Reference.Piece
import ReleaseDocs.Text.CharClass

namespace ReleaseDocs

/-- The name of the example and the white space after it. -/
structure PackageReference where
  name : Bytes
  blank : Bytes
deriving DecidableEq, Repr

namespace PackageReference

/-- The name at the start of the text, if white space or the end of the text follows it. -/
def named? (text name : Bytes) : Option (PackageReference × Bytes) :=
  match after? name text with
  | some rest =>
      let (blank, after) := spanChars isBlank rest
      if !blank.isEmpty || rest.isEmpty then some (⟨name, blank⟩, after) else none
  | none => none

/-- A reference to one of the examples in the directory; the first name of the list that fits
counts. -/
def read? (directory : Bytes) (names : List Bytes) (text : Bytes) :
    Option (PackageReference × Bytes) :=
  match after? directory text with
  | some rest => names.findSome? (named? rest)
  | none => none

theorem append_of_named? {text name rest : Bytes} {reference : PackageReference}
    (h : named? text name = some (reference, rest)) :
    reference.name ++ reference.blank ++ rest = text := by
  unfold named? at h
  split at h
  · rename_i text' hafter
    have hspan := spanChars_append isBlank text'
    split at h
    rename_i run after heq
    split at h
    · obtain ⟨rfl, rfl⟩ := Prod.mk.inj (Option.some.inj h)
      rw [heq] at hspan
      rw [after?_eq_some_iff.1 hafter, ← hspan]
      simp
    · simp at h
  · simp at h

theorem blank_ne_nil_of_named? {text rest : Bytes} {reference : PackageReference}
    (h : named? text [] = some (reference, rest)) (hne : text ≠ []) : reference.blank ≠ [] := by
  simp only [named?, after?] at h
  split at h
  · rename_i hblank
    obtain ⟨rfl, rfl⟩ := Prod.mk.inj (Option.some.inj h)
    simpa [hne] using hblank
  · simp at h

theorem name_of_named? {text name rest : Bytes} {reference : PackageReference}
    (h : named? text name = some (reference, rest)) : reference.name = name := by
  unfold named? at h
  split at h
  · split at h
    split at h
    · obtain ⟨rfl, rfl⟩ := Prod.mk.inj (Option.some.inj h)
      rfl
    · simp at h
  · simp at h

def kind (directory : Bytes) (names : List Bytes) : ReferenceKind PackageReference where
  read? := read? directory names
  source := fun reference => directory ++ reference.name ++ reference.blank
  source_append := by
    intro text rest reference h
    simp only [read?] at h
    split at h
    · rename_i text' hafter
      obtain ⟨name, _, hname⟩ := List.exists_of_findSome?_eq_some h
      rw [after?_eq_some_iff.1 hafter, ← append_of_named? hname]
      simp
    · simp at h
  source_ne_nil := by
    intro text rest reference h hne hnil
    simp only [List.append_eq_nil_iff] at hnil
    obtain ⟨⟨rfl, hname⟩, hblank⟩ := hnil
    obtain ⟨name, _, hnamed⟩ := List.exists_of_findSome?_eq_some h
    obtain rfl := (name_of_named? hnamed).symm.trans hname
    exact blank_ne_nil_of_named? hnamed hne hblank

/-- The document with the pin after every reference, before the white space. -/
def refresh (directory : Bytes) (names : List Bytes) (pin text : Bytes) : Bytes :=
  (kind directory names).substitute
    (fun reference => directory ++ reference.name ++ pin ++ reference.blank) text

end PackageReference

end ReleaseDocs
