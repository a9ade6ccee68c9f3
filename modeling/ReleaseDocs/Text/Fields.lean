namespace ReleaseDocs

variable {α : Type} [DecidableEq α]

/-- The pieces between the separators; a text without one is a single piece. -/
def fields (separator : α) : List α → List (List α)
  | [] => [[]]
  | a :: text =>
      if a = separator then [] :: fields separator text
      else
        match fields separator text with
        | [] => [[a]]
        | field :: rest => (a :: field) :: rest

def joinFields (separator : α) : List (List α) → List α
  | [] => []
  | [field] => field
  | field :: rest => field ++ separator :: joinFields separator rest

theorem fields_ne_nil (separator : α) (text : List α) : fields separator text ≠ [] := by
  induction text with
  | nil => simp [fields]
  | cons a text ih =>
      unfold fields
      split
      · simp
      · split <;> simp

omit [DecidableEq α] in
theorem joinFields_cons_of_ne_nil (separator : α) (field : List α) {rest : List (List α)}
    (h : rest ≠ []) :
    joinFields separator (field :: rest) = field ++ separator :: joinFields separator rest := by
  cases rest with
  | nil => simp at h
  | cons next rest => rfl

theorem joinFields_fields (separator : α) (text : List α) :
    joinFields separator (fields separator text) = text := by
  induction text with
  | nil => rfl
  | cons a text ih =>
      unfold fields
      split
      · rename_i h
        rw [joinFields_cons_of_ne_nil _ _ (fields_ne_nil separator text), ih, h]
        rfl
      · split
        · rename_i h
          exact absurd h (fields_ne_nil separator text)
        · rename_i field rest h
          rw [h] at ih
          cases rest with
          | nil => simpa [joinFields] using ih
          | cons next rest => simpa [joinFields] using ih

theorem fields_of_not_mem {separator : α} {text : List α} (h : separator ∉ text) :
    fields separator text = [text] := by
  induction text with
  | nil => rfl
  | cons a text ih =>
      rw [List.mem_cons, not_or] at h
      simp [fields, Ne.symm h.1, ih h.2]

theorem fields_append_separator (separator : α) (front back : List α) :
    fields separator (front ++ separator :: back) =
      fields separator front ++ fields separator back := by
  induction front with
  | nil => simp [fields]
  | cons a front ih =>
      simp only [List.cons_append, fields, ih]
      split
      · rfl
      · rcases hfront : fields separator front with _ | ⟨field, rest⟩
        · exact absurd hfront (fields_ne_nil separator front)
        · rfl

theorem fields_append_cons {separator : α} {field : List α} (h : separator ∉ field)
    (text : List α) :
    fields separator (field ++ separator :: text) = field :: fields separator text := by
  rw [fields_append_separator, fields_of_not_mem h]
  rfl

theorem not_mem_of_mem_fields {separator : α} {text field : List α}
    (h : field ∈ fields separator text) : separator ∉ field := by
  induction text generalizing field with
  | nil =>
      simp only [fields, List.mem_singleton] at h
      simp [h]
  | cons a text ih =>
      unfold fields at h
      split at h
      · rcases List.mem_cons.1 h with rfl | h
        · simp
        · exact ih h
      · rename_i ha
        split at h
        · simp only [List.mem_singleton] at h
          simp [h, Ne.symm ha]
        · rename_i first rest hrest
          rcases List.mem_cons.1 h with rfl | h
          · have := ih (hrest ▸ List.mem_cons_self)
            simp [this, Ne.symm ha]
          · exact ih (hrest ▸ List.mem_cons_of_mem _ h)

/-- A line that a line feed ends, without the carriage return before the line feed. -/
def withoutReturn (line : List Char) : List Char :=
  if line.getLast? = some '\r' then line.dropLast else line

/-- The lines of a text. A line feed, with or without a carriage return before it, ends a line; an
empty rest after the last one is no line. -/
def lineChars (text : List Char) : List (List Char) :=
  match (fields '\n' text).reverse with
  | [] => []
  | last :: ended =>
      (ended.reverse.map withoutReturn) ++ (if last.isEmpty then [] else [last])

def lines (text : String) : List String :=
  (lineChars text.toList).map String.ofList

end ReleaseDocs
