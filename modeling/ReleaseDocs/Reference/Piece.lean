import ReleaseDocs.Text.Utf8

/-!
A document cut into the references found by one scan from left to right and the bytes between
them.

`flatMap_source_pieces`: no byte is lost by the cut. `substitute` writes every reference anew and
copies the other bytes.
-/

namespace ReleaseDocs

/-- A reference, or a byte that belongs to none. -/
inductive Piece (α : Type) where
  | plain (byte : UInt8)
  | found (reference : α)
deriving DecidableEq, Repr

/-- A kind of reference: how it is read off the front of a document, and how it was written there.
Reading takes from the document exactly what the reference was written as, and that is not
nothing unless the document has ended. -/
structure ReferenceKind (α : Type) where
  read? : Bytes → Option (α × Bytes)
  source : α → Bytes
  source_append : ∀ {text rest : Bytes} {reference : α},
    read? text = some (reference, rest) → source reference ++ rest = text
  source_ne_nil : ∀ {text rest : Bytes} {reference : α},
    read? text = some (reference, rest) → text ≠ [] → source reference ≠ []

namespace ReferenceKind

variable {α : Type}

theorem length_lt_of_read? (kind : ReferenceKind α) {text rest : Bytes} {reference : α}
    (h : kind.read? text = some (reference, rest)) (hne : text ≠ []) :
    rest.length < text.length := by
  have hlength := congrArg List.length (kind.source_append h)
  have hpos := List.length_pos_iff.2 (kind.source_ne_nil h hne)
  simp only [List.length_append] at hlength
  omega

/-- The cut of a document. At each place the reference that starts there is taken whole. -/
def pieces (kind : ReferenceKind α) : Bytes → List (Piece α)
  | [] => []
  | byte :: text =>
      match _h : kind.read? (byte :: text) with
      | some (reference, rest) => .found reference :: kind.pieces rest
      | none => .plain byte :: kind.pieces text
termination_by text => text.length
decreasing_by
  · exact kind.length_lt_of_read? ‹_› (List.cons_ne_nil _ _)
  · simp

def pieceSource (kind : ReferenceKind α) : Piece α → Bytes
  | .plain byte => [byte]
  | .found reference => kind.source reference

/-- The document with every reference written by `write` and all other bytes as they were. -/
def substitute (kind : ReferenceKind α) (write : α → Bytes) (text : Bytes) : Bytes :=
  (kind.pieces text).flatMap fun
    | .plain byte => [byte]
    | .found reference => write reference

@[simp] theorem pieces_nil (kind : ReferenceKind α) : kind.pieces [] = [] := by
  rw [pieces]

theorem pieces_cons_of_read?_eq_none {kind : ReferenceKind α} {byte : UInt8} {text : Bytes}
    (h : kind.read? (byte :: text) = none) :
    kind.pieces (byte :: text) = .plain byte :: kind.pieces text := by
  rw [pieces]
  split <;> simp_all

theorem pieces_of_read?_eq_some {kind : ReferenceKind α} {text rest : Bytes} {reference : α}
    (h : kind.read? text = some (reference, rest)) (hne : text ≠ []) :
    kind.pieces text = .found reference :: kind.pieces rest := by
  cases text with
  | nil => exact absurd rfl hne
  | cons byte text =>
      rw [pieces]
      split <;> simp_all

theorem flatMap_source_pieces (kind : ReferenceKind α) (text : Bytes) :
    (kind.pieces text).flatMap kind.pieceSource = text := by
  induction text using pieces.induct kind with
  | case1 => simp
  | case2 byte text reference rest h ih =>
      rw [pieces_of_read?_eq_some h (List.cons_ne_nil _ _), List.flatMap_cons, ih]
      exact kind.source_append h
  | case3 byte text h ih =>
      rw [pieces_cons_of_read?_eq_none h, List.flatMap_cons, ih]
      rfl

end ReferenceKind

end ReleaseDocs
