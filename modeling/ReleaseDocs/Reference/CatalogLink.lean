import ReleaseDocs.Reference.Piece
import ReleaseDocs.Reference.VersionToken

namespace ReleaseDocs

/-- A link is known by its version token; the part before it is the same for all. -/
structure CatalogLink where
  token : Bytes
deriving DecidableEq, Repr

namespace CatalogLink

def read? (page text : Bytes) : Option (CatalogLink × Bytes) :=
  match after? page text with
  | some rest => (VersionToken.read? rest).map fun (token, rest) => (⟨token⟩, rest)
  | none => none

def kind (page : Bytes) : ReferenceKind CatalogLink where
  read? := read? page
  source := fun link => page ++ link.token
  source_append := by
    intro text rest link h
    simp only [read?] at h
    split at h
    · rename_i text' hafter
      obtain ⟨⟨token, rest'⟩, htoken, heq⟩ := Option.map_eq_some_iff.1 h
      obtain ⟨rfl, rfl⟩ := Prod.mk.inj heq
      rw [after?_eq_some_iff.1 hafter, ← VersionToken.append_of_read? htoken]
      simp
    · simp at h
  source_ne_nil := by
    intro text rest link h _
    simp only [read?] at h
    split at h
    · obtain ⟨⟨token, rest'⟩, htoken, heq⟩ := Option.map_eq_some_iff.1 h
      obtain ⟨rfl, rfl⟩ := Prod.mk.inj heq
      simp [VersionToken.ne_nil_of_read? htoken]
    · simp at h

def refresh (page version text : Bytes) : Bytes :=
  (kind page).substitute (fun _ => page ++ version) text

end CatalogLink

end ReleaseDocs
