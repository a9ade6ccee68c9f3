import ReleaseDocs.Reference.Piece
import ReleaseDocs.Reference.VersionToken

namespace ReleaseDocs

/-- A function name, a separator and a version token; only the last two vary. -/
structure TagReference where
  separator : UInt8
  token : Bytes
deriving DecidableEq, Repr

namespace TagReference

def isSeparator (byte : UInt8) : Bool :=
  byte == 0x3A || byte == 0x2F

def read? (function text : Bytes) : Option (TagReference × Bytes) :=
  match after? function text with
  | some (separator :: rest) =>
      if isSeparator separator then
        (VersionToken.read? rest).map fun (token, rest) => (⟨separator, token⟩, rest)
      else none
  | _ => none

def kind (function : Bytes) : ReferenceKind TagReference where
  read? := read? function
  source := fun reference => function ++ reference.separator :: reference.token
  source_append := by
    intro text rest reference h
    simp only [read?] at h
    split at h
    · rename_i separator text' hafter
      split at h
      · obtain ⟨⟨token, rest'⟩, htoken, heq⟩ := Option.map_eq_some_iff.1 h
        obtain ⟨rfl, rfl⟩ := Prod.mk.inj heq
        rw [after?_eq_some_iff.1 hafter, ← VersionToken.append_of_read? htoken]
        simp
      · simp at h
    · simp at h
  source_ne_nil := by simp

def refresh (function version text : Bytes) : Bytes :=
  (kind function).substitute (fun reference => function ++ reference.separator :: version) text

end TagReference

end ReleaseDocs
