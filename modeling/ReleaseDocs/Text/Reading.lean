namespace ReleaseDocs

/-- Takes steps from a state until one gives a result. A step that does not make the state smaller
ends the repetition without one. -/
def iterate {σ α : Type} (size : σ → Nat) (step : σ → Option (σ ⊕ α)) (s : σ) : Option α :=
  match step s with
  | none => none
  | some (.inr result) => some result
  | some (.inl next) => if size next < size s then iterate size step next else none
termination_by size s

variable {α : Type} [DecidableEq α]

/-- The rest of `text` after `literal`, if `text` starts with it. -/
def after? : (literal text : List α) → Option (List α)
  | [], text => some text
  | _ :: _, [] => none
  | a :: literal, b :: text => if a = b then after? literal text else none

theorem after?_eq_some_iff {literal text rest : List α} :
    after? literal text = some rest ↔ text = literal ++ rest := by
  induction literal generalizing text with
  | nil => simp [after?]
  | cons a literal ih =>
      cases text with
      | nil => simp [after?]
      | cons b text =>
          by_cases h : a = b
          · simp [after?, h, ih]
          · simp [after?, h, Ne.symm h]

@[simp] theorem after?_append (literal rest : List α) :
    after? literal (literal ++ rest) = some rest :=
  after?_eq_some_iff.2 rfl

/-- Whether `literal` occurs in `text`, at any place. -/
def occursIn (literal : List α) : List α → Bool
  | [] => literal.isEmpty
  | a :: text => (after? literal (a :: text)).isSome || occursIn literal text

theorem occursIn_iff {literal text : List α} :
    occursIn literal text = true ↔ ∃ before rest, text = before ++ literal ++ rest := by
  induction text with
  | nil => simp [occursIn]
  | cons a text ih =>
      simp only [occursIn, Bool.or_eq_true, Option.isSome_iff_exists, after?_eq_some_iff, ih]
      constructor
      · rintro (⟨rest, h⟩ | ⟨before, rest, rfl⟩)
        · exact ⟨[], rest, by simpa using h⟩
        · exact ⟨a :: before, rest, by simp⟩
      · rintro ⟨before, rest, h⟩
        cases before with
        | nil => exact Or.inl ⟨rest, by simpa using h⟩
        | cons b before =>
            simp only [List.cons_append, List.cons.injEq] at h
            exact Or.inr ⟨before, rest, h.2⟩

end ReleaseDocs
