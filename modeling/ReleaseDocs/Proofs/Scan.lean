import ReleaseDocs.Proofs.Encoding
import ReleaseDocs.Reference.Piece

namespace ReleaseDocs.ReferenceKind

variable {α : Type} {kind : ReferenceKind α}

/-- No reference starts in `skipped` when `rest` follows it. -/
def Skips (kind : ReferenceKind α) (skipped rest : Bytes) : Prop :=
  ∀ front, front ≠ [] → front <:+ skipped → kind.read? (front ++ rest) = none

/-- The scan of the text finds the reference, with `before` in front of it and `after` behind. -/
def Finds (kind : ReferenceKind α) (text before : Bytes) (reference : α) (after : Bytes) : Prop :=
  ∃ earlier later, kind.pieces text = earlier ++ .found reference :: later ∧
    before = earlier.flatMap kind.pieceSource ∧ after = later.flatMap kind.pieceSource

theorem skips_nil (kind : ReferenceKind α) (rest : Bytes) : kind.Skips [] rest := by
  intro front hne hfront
  exact absurd (List.suffix_nil.mp hfront) hne

theorem skips_cons_iff {byte : UInt8} {skipped rest : Bytes} :
    kind.Skips (byte :: skipped) rest ↔
      kind.read? (byte :: (skipped ++ rest)) = none ∧ kind.Skips skipped rest := by
  constructor
  · intro h
    refine ⟨h (byte :: skipped) (by simp) List.suffix_rfl, fun front hne hfront => ?_⟩
    exact h front hne (hfront.trans (List.suffix_cons _ _))
  · rintro ⟨hread, h⟩ front hne hfront
    rcases List.suffix_cons_iff.mp hfront with rfl | hfront
    · exact hread
    · exact h front hne hfront

theorem skips_append_iff {skipped more rest : Bytes} :
    kind.Skips (skipped ++ more) rest ↔
      kind.Skips skipped (more ++ rest) ∧ kind.Skips more rest := by
  induction skipped with
  | nil => simp [skips_nil]
  | cons byte skipped ih => simp [skips_cons_iff, ih, and_assoc]

theorem skips_encode {cs : List Char} {c : Char} (hc : c ∉ cs)
    (hread : ∀ text, kind.read? text ≠ none → ∃ rest, text = String.utf8EncodeChar c ++ rest)
    (rest : Bytes) : kind.Skips (encode cs) rest := by
  intro front hne hfront
  cases hfound : kind.read? (front ++ rest) with
  | none => rfl
  | some found =>
    obtain ⟨rest', htext⟩ := hread (front ++ rest) (by simp [hfound])
    exact absurd htext (ne_encode_append_of_suffix hc hne hfront rest rest')

theorem skips_utf8EncodeChar {c d : Char} (hne : c ≠ d)
    (hread : ∀ text, kind.read? text ≠ none → ∃ rest, text = String.utf8EncodeChar c ++ rest)
    (rest : Bytes) : kind.Skips (String.utf8EncodeChar d) rest := by
  have hskips : kind.Skips (encode [d]) rest := skips_encode (by simpa using hne) hread rest
  simpa [encode_cons] using hskips

theorem pieces_append_of_skips {skipped rest : Bytes} (h : kind.Skips skipped rest) :
    kind.pieces (skipped ++ rest) = skipped.map Piece.plain ++ kind.pieces rest := by
  induction skipped with
  | nil => rfl
  | cons byte skipped ih =>
      obtain ⟨hread, hskips⟩ := skips_cons_iff.mp h
      rw [List.cons_append, pieces_cons_of_read?_eq_none hread, ih hskips]
      rfl

theorem substitute_append_of_skips {write : α → Bytes} {skipped rest : Bytes}
    (h : kind.Skips skipped rest) :
    kind.substitute write (skipped ++ rest) = skipped ++ kind.substitute write rest := by
  simp only [substitute, pieces_append_of_skips h, List.flatMap_append, List.flatMap_map]
  simp

theorem substitute_of_skips {write : α → Bytes} {text : Bytes} (h : kind.Skips text []) :
    kind.substitute write text = text := by
  have hall : kind.substitute write (text ++ []) = _ := substitute_append_of_skips h
  simpa [substitute] using hall

theorem substitute_nil (kind : ReferenceKind α) (write : α → Bytes) :
    kind.substitute write [] = [] :=
  substitute_of_skips (skips_nil _ _)

theorem substitute_cons_of_read?_eq_none {write : α → Bytes} {byte : UInt8} {text : Bytes}
    (h : kind.read? (byte :: text) = none) :
    kind.substitute write (byte :: text) = byte :: kind.substitute write text := by
  simp [substitute, pieces_cons_of_read?_eq_none h]

theorem substitute_of_read?_eq_some {write : α → Bytes} {text rest : Bytes} {reference : α}
    (h : kind.read? text = some (reference, rest)) (hne : text ≠ []) :
    kind.substitute write text = write reference ++ kind.substitute write rest := by
  simp [substitute, pieces_of_read?_eq_some h hne]

theorem flatMap_pieceSource_plain (kind : ReferenceKind α) (bytes : Bytes) :
    (bytes.map Piece.plain).flatMap kind.pieceSource = bytes := by
  simp [List.flatMap_map, pieceSource]

/-- Bytes that no reference reaches over, and in which none starts: what is read in front of them
is read as if the text ended there. -/
structure Cuts (kind : ReferenceKind α) (stop rest : Bytes) : Prop where
  skips : kind.Skips stop rest
  reads : ∀ {front back : Bytes} {reference : α}, kind.read? front = some (reference, back) →
    kind.read? (front ++ (stop ++ rest)) = some (reference, back ++ (stop ++ rest))
  stays : ∀ {front : Bytes}, kind.read? front = none → kind.read? (front ++ (stop ++ rest)) = none

namespace Cuts

variable {stop rest : Bytes} (h : kind.Cuts stop rest)
include h

theorem skips_append {skipped : Bytes} (hskips : kind.Skips skipped []) :
    kind.Skips (skipped ++ stop) rest := by
  refine skips_append_iff.mpr ⟨fun front hne hfront => h.stays ?_, h.skips⟩
  simpa using hskips front hne hfront

/-- The parts of the text are scanned each for itself. -/
theorem pieces_append (front : Bytes) : kind.pieces (front ++ (stop ++ rest)) =
    kind.pieces front ++ (stop.map Piece.plain ++ kind.pieces rest) := by
  induction front using pieces.induct kind with
  | case1 => simpa using pieces_append_of_skips h.skips
  | case2 byte text reference back hread ih =>
    rw [pieces_of_read?_eq_some (h.reads hread) (by simp), ih,
      pieces_of_read?_eq_some hread (by simp)]
    rfl
  | case3 byte text hread ih =>
    have hstays : kind.read? (byte :: (text ++ (stop ++ rest))) = none := h.stays hread
    rw [List.cons_append, pieces_cons_of_read?_eq_none hstays, ih,
      pieces_cons_of_read?_eq_none hread]
    rfl

theorem substitute_append (write : α → Bytes) (front : Bytes) :
    kind.substitute write (front ++ (stop ++ rest)) =
      kind.substitute write front ++ (stop ++ kind.substitute write rest) := by
  simp only [substitute, h.pieces_append, List.flatMap_append, List.flatMap_map]
  simp

theorem finds_front {front before after : Bytes} {reference : α}
    (hfinds : kind.Finds front before reference after) :
    kind.Finds (front ++ (stop ++ rest)) before reference (after ++ (stop ++ rest)) := by
  obtain ⟨earlier, later, hpieces, rfl, rfl⟩ := hfinds
  refine ⟨earlier, later ++ (stop.map Piece.plain ++ kind.pieces rest), ?_, rfl, ?_⟩
  · rw [h.pieces_append, hpieces]
    simp
  · rw [List.flatMap_append, List.flatMap_append, flatMap_pieceSource_plain,
      flatMap_source_pieces]

theorem finds_back {before after : Bytes} {reference : α} (front : Bytes)
    (hfinds : kind.Finds rest before reference after) :
    kind.Finds (front ++ (stop ++ rest)) (front ++ (stop ++ before)) reference after := by
  obtain ⟨earlier, later, hpieces, rfl, rfl⟩ := hfinds
  refine ⟨kind.pieces front ++ (stop.map Piece.plain ++ earlier), later, ?_, ?_, rfl⟩
  · rw [h.pieces_append, hpieces]
    simp
  · rw [List.flatMap_append, List.flatMap_append, flatMap_pieceSource_plain,
      flatMap_source_pieces]

end Cuts

theorem exists_first (kind : ReferenceKind α) (text : Bytes) :
    kind.Skips text [] ∨ ∃ skipped tail reference rest, text = skipped ++ tail ∧
      kind.Skips skipped tail ∧ tail ≠ [] ∧ kind.read? tail = some (reference, rest) := by
  induction text with
  | nil => exact Or.inl (skips_nil kind [])
  | cons byte text ih =>
      cases hread : kind.read? (byte :: text) with
      | some found =>
        exact Or.inr ⟨[], byte :: text, found.1, found.2, rfl, skips_nil kind _, by simp, hread⟩
      | none =>
        rcases ih with hskips | ⟨skipped, tail, reference, rest, rfl, hskips, hne, hfound⟩
        · exact Or.inl (skips_cons_iff.mpr ⟨by simpa using hread, hskips⟩)
        · exact Or.inr ⟨byte :: skipped, tail, reference, rest, rfl,
            skips_cons_iff.mpr ⟨hread, hskips⟩, hne, hfound⟩

/-- Induction along a scan: the text that is skipped as a whole, and the text with a first
reference and what follows that one. -/
theorem scan_induction (kind : ReferenceKind α) {motive : Bytes → Prop}
    (skip : ∀ text, kind.Skips text [] → motive text)
    (find : ∀ skipped tail reference rest, kind.Skips skipped tail → tail ≠ [] →
      kind.read? tail = some (reference, rest) → motive rest → motive (skipped ++ tail))
    (text : Bytes) : motive text := by
  rcases kind.exists_first text with
    hskips | ⟨skipped, tail, reference, rest, htext, hskips, hne, hfound⟩
  · exact skip text hskips
  · have hlength := kind.length_lt_of_read? hfound hne
    rw [htext]
    exact find skipped tail reference rest hskips hne hfound
      (scan_induction kind skip find rest)
termination_by text.length
decreasing_by
  rw [htext, List.length_append]
  omega

theorem Finds.eq_append {text before after : Bytes} {reference : α}
    (h : kind.Finds text before reference after) :
    text = before ++ kind.source reference ++ after := by
  obtain ⟨earlier, later, hpieces, rfl, rfl⟩ := h
  rw [← kind.flatMap_source_pieces text, hpieces]
  simp [pieceSource]

theorem not_finds_of_skips {text before after : Bytes} {reference : α}
    (h : kind.Skips text []) : ¬ kind.Finds text before reference after := by
  rintro ⟨earlier, later, hpieces, -, -⟩
  have hall := pieces_append_of_skips h
  rw [List.append_nil, hpieces, pieces_nil, List.append_nil] at hall
  have hmem : Piece.found reference ∈ text.map Piece.plain := by
    rw [← hall]
    simp
  simp at hmem

theorem finds_append_iff_of_skips {skipped rest before after : Bytes} {reference : α}
    (h : kind.Skips skipped rest) :
    kind.Finds (skipped ++ rest) before reference after ↔
      ∃ inner, before = skipped ++ inner ∧ kind.Finds rest inner reference after := by
  unfold Finds
  rw [pieces_append_of_skips h]
  constructor
  · rintro ⟨earlier, later, hpieces, rfl, rfl⟩
    rcases List.append_eq_append_iff.mp hpieces with ⟨inner, rfl, hinner⟩ | ⟨inner, hskipped, hrest⟩
    · refine ⟨inner.flatMap kind.pieceSource, ?_, inner, later, hinner, rfl, rfl⟩
      rw [List.flatMap_append, flatMap_pieceSource_plain]
    · cases inner with
      | nil =>
        refine ⟨[], ?_, [], later, by simpa using hrest.symm, rfl, rfl⟩
        rw [← List.append_nil earlier, ← hskipped, flatMap_pieceSource_plain, List.append_nil]
      | cons piece inner =>
        have hmem : piece ∈ skipped.map Piece.plain := by simp [hskipped]
        obtain ⟨byte, -, rfl⟩ := List.mem_map.mp hmem
        simp at hrest
  · rintro ⟨inner, rfl, earlier, later, hpieces, rfl, rfl⟩
    refine ⟨skipped.map Piece.plain ++ earlier, later, by simp [hpieces], ?_, rfl⟩
    rw [List.flatMap_append, flatMap_pieceSource_plain]

/-- A law of the references found that does not look at `skipped` may start behind it. -/
theorem forall_finds_append_of_skips {skipped rest : Bytes} {P : Bytes → α → Bytes → Prop}
    (h : kind.Skips skipped rest)
    (hP : ∀ inner reference after, P (skipped ++ inner) reference after ↔ P inner reference after) :
    (∀ before reference after,
        kind.Finds (skipped ++ rest) before reference after → P before reference after) ↔
      ∀ before reference after, kind.Finds rest before reference after →
        P before reference after := by
  simp only [finds_append_iff_of_skips h]
  constructor
  · intro hall before reference after hfinds
    exact (hP _ _ _).mp (hall _ _ _ ⟨before, rfl, hfinds⟩)
  · rintro hall - reference after ⟨inner, rfl, hfinds⟩
    exact (hP _ _ _).mpr (hall _ _ _ hfinds)

theorem finds_iff_of_read?_eq_some {text rest before after : Bytes} {reference other : α}
    (h : kind.read? text = some (reference, rest)) (hne : text ≠ []) :
    kind.Finds text before other after ↔
      before = [] ∧ other = reference ∧ after = rest ∨
        ∃ inner, before = kind.source reference ++ inner ∧ kind.Finds rest inner other after := by
  unfold Finds
  rw [pieces_of_read?_eq_some h hne]
  constructor
  · rintro ⟨earlier, later, hpieces, rfl, rfl⟩
    cases earlier with
    | nil =>
      obtain ⟨hfirst, rfl⟩ := List.cons.inj hpieces
      refine Or.inl ⟨rfl, (Piece.found.inj hfirst).symm, ?_⟩
      exact kind.flatMap_source_pieces rest
    | cons piece earlier =>
      obtain ⟨rfl, hrest⟩ := List.cons.inj hpieces
      exact Or.inr ⟨earlier.flatMap kind.pieceSource, rfl, earlier, later, hrest, rfl, rfl⟩
  · rintro (⟨rfl, rfl, rfl⟩ | ⟨inner, rfl, earlier, later, hpieces, rfl, rfl⟩)
    · exact ⟨[], kind.pieces after, rfl, rfl, (kind.flatMap_source_pieces after).symm⟩
    · exact ⟨.found reference :: earlier, later, by simp [hpieces], rfl, rfl⟩

theorem finds_append_iff {skipped tail rest before after : Bytes} {reference other : α}
    (hskips : kind.Skips skipped tail) (hread : kind.read? tail = some (reference, rest))
    (hne : tail ≠ []) :
    kind.Finds (skipped ++ tail) before other after ↔
      before = skipped ∧ other = reference ∧ after = rest ∨
        ∃ inner, before = skipped ++ (kind.source reference ++ inner) ∧
          kind.Finds rest inner other after := by
  rw [finds_append_iff_of_skips hskips]
  simp only [finds_iff_of_read?_eq_some hread hne]
  constructor
  · rintro ⟨-, rfl, ⟨rfl, rfl, rfl⟩ | ⟨inner, rfl, hfinds⟩⟩
    · exact Or.inl ⟨by simp, rfl, rfl⟩
    · exact Or.inr ⟨inner, rfl, hfinds⟩
  · rintro (⟨rfl, rfl, rfl⟩ | ⟨inner, rfl, hfinds⟩)
    · exact ⟨[], by simp, Or.inl ⟨rfl, rfl, rfl⟩⟩
    · exact ⟨_, rfl, Or.inr ⟨inner, rfl, hfinds⟩⟩

theorem Finds.read?_eq_some {text before after : Bytes} {reference : α}
    (h : kind.Finds text before reference after) :
    kind.read? (kind.source reference ++ after) = some (reference, after) := by
  induction text using kind.scan_induction generalizing before with
  | skip text hskips => exact absurd h (not_finds_of_skips hskips)
  | find skipped tail found rest hskips hne hread ih =>
    rcases (finds_append_iff hskips hread hne).mp h with ⟨-, rfl, rfl⟩ | ⟨inner, -, hfinds⟩
    · rwa [kind.source_append hread]
    · exact ih hfinds

theorem forall_finds_append_iff {skipped tail rest : Bytes} {reference : α}
    {P : Bytes → α → Bytes → Prop} (hskips : kind.Skips skipped tail)
    (hread : kind.read? tail = some (reference, rest)) (hne : tail ≠ [])
    (hP : ∀ inner other after,
      P (skipped ++ (kind.source reference ++ inner)) other after ↔ P inner other after) :
    (∀ before other after,
        kind.Finds (skipped ++ tail) before other after → P before other after) ↔
      P skipped reference rest ∧ ∀ before other after, kind.Finds rest before other after →
        P before other after := by
  simp only [finds_append_iff hskips hread hne]
  constructor
  · intro hall
    refine ⟨hall _ _ _ (Or.inl ⟨rfl, rfl, rfl⟩), fun before other after hfinds => ?_⟩
    exact (hP _ _ _).mp (hall _ _ _ (Or.inr ⟨before, rfl, hfinds⟩))
  · rintro ⟨hfirst, hrest⟩ before other after (⟨rfl, rfl, rfl⟩ | ⟨inner, rfl, hfinds⟩)
    · exact hfirst
    · exact (hP _ _ _).mpr (hrest inner other after hfinds)

theorem skips_iff_forall_not_finds {text : Bytes} :
    kind.Skips text [] ↔ ∀ before reference after, ¬ kind.Finds text before reference after := by
  constructor
  · intro h before reference after
    exact not_finds_of_skips h
  · intro h
    rcases kind.exists_first text with
      hskips | ⟨skipped, tail, reference, rest, rfl, hskips, hne, hread⟩
    · exact hskips
    · exact absurd ((finds_append_iff hskips hread hne).mpr (Or.inl ⟨rfl, rfl, rfl⟩)) (h _ _ _)

end ReleaseDocs.ReferenceKind
