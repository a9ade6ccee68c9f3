import ReleaseDocs.Proofs.Hexadecimal
import ReleaseDocs.Text.Quoted

namespace ReleaseDocs

/-- The character that a letter behind a backslash stands for. -/
def escaped (c : Char) : Char :=
  if c = '0' then '\x00'
  else if c = 't' then '\t'
  else if c = 'r' then '\r'
  else if c = 'n' then '\n'
  else c

/-- The first character inside quotes and what follows it; at the closing quote there is none. -/
def unquoteChar? : List Char → Option (Char × List Char)
  | [] => none
  | '"' :: _ => none
  | '\\' :: 'u' :: '\x7b' :: rest =>
      (numberOf? 16 (rest.takeWhile (· != '\x7d'))).map fun n =>
        (Char.ofNat n, (rest.dropWhile (· != '\x7d')).tail)
  | '\\' :: c :: rest => some (escaped c, rest)
  | c :: rest => some (c, rest)

theorem unquoteChar?_codePoint (c : Char) (rest : List Char) :
    unquoteChar? ('\\' :: 'u' :: '\x7b' :: (Nat.toDigits 16 c.toNat ++ '\x7d' :: rest)) =
      some (c, rest) := by
  have hdigits : ∀ d ∈ Nat.toDigits 16 c.toNat, (d != '\x7d') = true := by
    intro d hd
    have hclose : '\x7d' ∉ "0123456789abcdef".toList := by decide
    rw [bne_iff_ne]
    rintro rfl
    exact hclose (mem_hexDigits_of_mem_toDigits hd)
  simp only [unquoteChar?, List.takeWhile_append_of_pos hdigits,
    List.dropWhile_append_of_pos hdigits]
  simp [numberOf?_toDigits]

theorem unquoteChar?_plain {c : Char} (hquote : c ≠ '"') (hbackslash : c ≠ '\\')
    (rest : List Char) : unquoteChar? (c :: rest) = some (c, rest) := by
  unfold unquoteChar?
  split <;> simp_all

theorem unquoteChar?_quotedChar_append (c : Char) (rest : List Char) :
    unquoteChar? (quotedChar c ++ rest) = some (c, rest) := by
  by_cases hspecial : c ∈ ['\x00', '\t', '\r', '\n', '\\', '"']
  · simp only [List.mem_cons, List.not_mem_nil, or_false] at hspecial
    rcases hspecial with rfl | rfl | rfl | rfl | rfl | rfl <;> rfl
  · simp only [List.mem_cons, List.not_mem_nil, or_false, not_or] at hspecial
    obtain ⟨hnull, htab, hreturn, hnewline, hbackslash, hquote⟩ := hspecial
    rw [quotedChar, if_neg hnull, if_neg htab, if_neg hreturn, if_neg hnewline,
      if_neg (not_or.mpr ⟨hbackslash, hquote⟩)]
    split
    · exact unquoteChar?_plain hquote hbackslash rest
    · simpa using unquoteChar?_codePoint c rest

theorem quotedChars_injective {text other : List Char}
    (h : text.flatMap quotedChar ++ ['"'] = other.flatMap quotedChar ++ ['"']) : text = other := by
  induction text generalizing other with
  | nil =>
    cases other with
    | nil => rfl
    | cons d other =>
      have hread := unquoteChar?_quotedChar_append d (other.flatMap quotedChar ++ ['"'])
      rw [← List.append_assoc, ← List.flatMap_cons, ← h] at hread
      cases hread
  | cons c text ih =>
    have hread := unquoteChar?_quotedChar_append c (text.flatMap quotedChar ++ ['"'])
    rw [← List.append_assoc, ← List.flatMap_cons, h] at hread
    cases other with
    | nil => cases hread
    | cons d other =>
      rw [List.flatMap_cons, List.append_assoc, unquoteChar?_quotedChar_append] at hread
      obtain ⟨rfl, hrest⟩ := Prod.mk.inj (Option.some.inj hread)
      rw [ih hrest.symm]

theorem quoted_injective {text other : String} (h : quoted text = quoted other) :
    text = other := by
  rw [quoted, quoted, String.ofList_inj, List.cons.injEq] at h
  exact String.toList_inj.mp (quotedChars_injective h.2)

end ReleaseDocs
