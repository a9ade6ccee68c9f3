import ReleaseDocs.Proofs.TagScan
import ReleaseDocs.Reference.Package

namespace ReleaseDocs

theorem CodeRanges.contains_eq_false_of_apart {table other : CodeRanges} {code : Nat}
    (hapart : ∀ range ∈ table, ∀ range' ∈ other, range.2 < range'.1 ∨ range'.2 < range.1)
    (h : CodeRanges.contains table code = true) : CodeRanges.contains other code = false := by
  obtain ⟨range, hrange, hfirst, hlast⟩ := CodeRanges.mem_of_contains h
  rw [← Bool.not_eq_true]
  intro hother
  obtain ⟨range', hrange', hfirst', hlast'⟩ := CodeRanges.mem_of_contains hother
  rcases hapart range hrange range' hrange' with hlt | hlt <;> omega

theorem isBlank_eq_false_of_isNameChar {c : Char} (h : isNameChar c = true) :
    isBlank c = false := by
  rcases Bool.or_eq_true_iff.mp h with hhyphen | hword
  · obtain rfl := beq_iff_eq.mp hhyphen
    decide
  · exact CodeRanges.contains_eq_false_of_apart (by decide +kernel) hword

theorem isBlank_eq_false_of_isDecimalDigit {c : Char} (h : isDecimalDigit c = true) :
    isBlank c = false :=
  CodeRanges.contains_eq_false_of_apart (by decide +kernel) h

namespace PackageReference

/-- The text is over or goes on with white space. -/
def Ends (text : Bytes) : Prop :=
  text = [] ∨ StartsWith isBlank text

instance (text : Bytes) : Decidable (Ends text) :=
  inferInstanceAs (Decidable (text = [] ∨ StartsWith isBlank text))

theorem ends_append_iff {c : Char} (hc : isBlank c = false) {front rest : Bytes} :
    Ends (front ++ (String.utf8EncodeChar c ++ rest)) ↔ StartsWith isBlank front := by
  simp [Ends, startsWith_append_iff hc]

theorem not_ends_append {c : Char} (hc : isBlank c = false) (rest : Bytes) :
    ¬ Ends (String.utf8EncodeChar c ++ rest) := by
  rw [← List.nil_append (String.utf8EncodeChar c ++ rest), ends_append_iff hc]
  exact not_startsWith_nil isBlank

theorem not_ends_of_pin {f : List Char} (hname : isName f = true) {inner after rest : Bytes}
    (hslash : 0x2F ∉ inner) (h : 0x40 :: (encode f ++ 0x2F :: rest) = inner ++ after) :
    ¬ Ends after := by
  cases inner with
  | nil =>
    obtain rfl : _ = after := h
    exact not_ends_append (c := '@') (by decide) _
  | cons byte inner =>
    have hpin := (List.cons.inj h).2
    rcases List.append_eq_append_iff.mp hpin with ⟨back, rfl, hback⟩ | ⟨back, hfunction, rfl⟩
    · cases back with
      | nil =>
        obtain rfl : _ = after := hback
        exact not_ends_append (c := '/') (by decide) _
      | cons slash back =>
        obtain ⟨rfl, -⟩ := List.cons.inj hback
        simp at hslash
    · -- white space would stand in the name of the function
      intro hends
      obtain ⟨c, more, hc, rfl⟩ := (ends_append_iff (c := '/') (by decide)).mp hends
      have hmem := (isName_iff.mp hname).2 c (mem_of_encode_eq hfunction)
      simp [isBlank_eq_false_of_isNameChar hmem] at hc

theorem named?_append (name rest : Bytes) :
    Ends rest ∧ (∃ cs after, rest = encode cs ++ after ∧ (∀ c ∈ cs, isBlank c = true) ∧
        (cs = [] → after = []) ∧
        named? (name ++ rest) name = some (⟨name, encode cs⟩, after)) ∨
      ¬ Ends rest ∧ named? (name ++ rest) name = none := by
  obtain ⟨cs, after, rfl, hcs, hafter, hspan⟩ := exists_spanChars isBlank rest
  unfold named?
  rw [after?_append]
  cases cs with
  | nil =>
    simp only [encode_nil, List.nil_append] at hspan ⊢
    by_cases hnil : after = []
    · subst hnil
      refine Or.inl ⟨Or.inl rfl, [], [], rfl, hcs, fun _ => rfl, ?_⟩
      simp [hspan]
    · refine Or.inr ⟨fun hends => hends.elim hnil hafter, ?_⟩
      simp [hspan, hnil]
  | cons c cs =>
    refine Or.inl ⟨Or.inr ?_, c :: cs, after, rfl, hcs, by simp, ?_⟩
    · rw [encode_cons, List.append_assoc, startsWith_utf8EncodeChar_append]
      exact hcs c (by simp)
    · simp [hspan]

theorem named?_ne_none_iff {text name : Bytes} :
    named? text name ≠ none ↔ ∃ rest, text = name ++ rest ∧ Ends rest := by
  constructor
  · intro h
    cases hafter : after? name text with
    | none => simp [named?, hafter] at h
    | some rest =>
      obtain rfl := after?_eq_some_iff.mp hafter
      rcases named?_append name rest with ⟨hends, -⟩ | ⟨-, hnone⟩
      · exact ⟨rest, rfl, hends⟩
      · exact absurd hnone h
  · rintro ⟨rest, rfl, hends⟩
    rcases named?_append name rest with ⟨-, cs, after, -, -, -, hsome⟩ | ⟨hnot, -⟩
    · simp [hsome]
    · exact absurd hends hnot

variable {directory : Bytes} {names : List Bytes}

theorem read?_ne_none_iff {text : Bytes} :
    read? directory names text ≠ none ↔
      ∃ name ∈ names, ∃ rest, text = directory ++ (name ++ rest) ∧ Ends rest := by
  unfold read?
  split
  · rename_i after hafter
    obtain rfl := after?_eq_some_iff.mp hafter
    simp only [ne_eq, List.findSome?_eq_none_iff, not_forall, List.append_cancel_left_eq]
    refine exists_congr fun name => ?_
    rw [exists_prop, ← ne_eq, named?_ne_none_iff]
  · rename_i hnone
    simp only [ne_eq, not_true_eq_false, false_iff]
    rintro ⟨name, -, rest, rfl, -⟩
    simp at hnone

theorem exists_of_read?_eq_some {text rest : Bytes} {reference : PackageReference}
    (h : read? directory names text = some (reference, rest)) :
    ∃ cs, reference.blank = encode cs ∧ (∀ c ∈ cs, isBlank c = true) ∧ (cs = [] → rest = []) ∧
      reference.name ∈ names ∧
      text = directory ++ (reference.name ++ (encode cs ++ rest)) := by
  unfold read? at h
  split at h
  · rename_i text' hafter
    obtain rfl := after?_eq_some_iff.mp hafter
    obtain ⟨name, hmem, hnamed⟩ := List.exists_of_findSome?_eq_some h
    have hne : named? text' name ≠ none := by simp [hnamed]
    obtain ⟨after, rfl, -⟩ := named?_ne_none_iff.mp hne
    rcases named?_append name after with ⟨-, cs, more, rfl, hcs, hmore, hsome⟩ | ⟨-, hnone⟩
    · rw [hsome] at hnamed
      simp only [Option.some.injEq, Prod.mk.injEq] at hnamed
      obtain ⟨rfl, rfl⟩ := hnamed
      exact ⟨cs, rfl, hcs, hmore, hmem, rfl⟩
    · simp [hnone] at hnamed
  · cases h

/-- The address of a directory, with what a scan behind a pin relies on: it starts with a scheme,
ends with a slash, and does not overlap with itself. -/
structure IsDirectory (directory : Bytes) : Prop where
  scheme : ∃ scheme rest,
    directory = encode ('h' :: scheme) ++ (0x3A :: 0x2F :: rest) ∧ '/' ∉ scheme
  slash : ∃ path, directory = path ++ [0x2F]
  unbordered : ∀ front, front ≠ [] → front <:+ directory → front <+: directory → front = directory

/-- White space follows no name of the list at the start of the name. -/
def Apart (names : List Bytes) (name : Bytes) : Prop :=
  ∀ other ∈ names, ∀ rest, name = other ++ rest → ¬ StartsWith isBlank rest

section Pin

variable (hdirectory : IsDirectory directory) (hnames : ∀ name ∈ names, 0x2F ∉ name)
include hdirectory

theorem ne_of_directory_suffix {front rest rest' : Bytes} (hne : front ≠ [])
    (hfront : front <:+ directory) (hproper : front ≠ directory) :
    front ++ rest ≠ directory ++ rest' := by
  intro heq
  obtain ⟨before, hbefore⟩ := hfront
  refine hproper (hdirectory.unbordered front hne ⟨before, hbefore⟩ ?_)
  rcases List.append_eq_append_iff.mp heq with ⟨inner, hinner, -⟩ | ⟨inner, hinner, -⟩
  · exact ⟨inner, hinner.symm⟩
  · have hlength := congrArg List.length hbefore
    rw [hinner] at hlength
    simp only [List.length_append] at hlength
    have hnil : inner = [] := List.length_eq_zero_iff.mp (by omega)
    exact absurd (by simpa [hnil] using hinner) hproper

theorem skips_directory_iff {rest : Bytes} :
    (kind directory names).Skips directory rest ↔
      read? directory names (directory ++ rest) = none := by
  constructor
  · intro hskips
    obtain ⟨path, hpath⟩ := hdirectory.slash
    exact hskips directory (by simp [hpath]) List.suffix_rfl
  · intro hnone front hne hfront
    by_cases hproper : front = directory
    · rw [hproper]
      exact hnone
    · by_contra hread
      obtain ⟨name, -, after, heq, -⟩ := read?_ne_none_iff.mp hread
      exact ne_of_directory_suffix hdirectory hne hfront hproper heq

theorem skips_inside {f : List Char} (hname : isName f = true) {name : Bytes} (hslash : 0x2F ∉ name)
    (rest : Bytes) :
    (kind directory names).Skips (name ++ 0x40 :: encode f) (0x2F :: rest) := by
  obtain ⟨scheme, more, hscheme, hscheme'⟩ := hdirectory.scheme
  intro front hne hfront
  by_contra hread
  obtain ⟨other, -, after, heq, -⟩ := read?_ne_none_iff.mp hread
  have hf : 0x2F ∉ encode f := not_mem_encode rfl (ReleaseTag.slash_not_mem_of_isName hname)
  have hcode : 0x2F ∉ encode ('h' :: scheme) :=
    not_mem_encode (c := '/') rfl (by simpa using hscheme')
  have hsplit : front ++ 0x2F :: rest =
      (encode ('h' :: scheme) ++ [0x3A]) ++ 0x2F :: (more ++ (other ++ after)) := by
    simp [heq, hscheme]
  obtain ⟨rfl, -⟩ := append_cons_inj_of_not_mem
    (fun hmem => by simpa [hslash, hf] using hfront.subset hmem) (by simpa using hcode) hsplit
  -- the name of the function would end in the scheme's colon
  obtain ⟨before, hbefore⟩ := hfront
  have hlast := congrArg List.getLast? hbefore
  obtain ⟨hne, -⟩ := isName_iff.mp hname
  have hcolon : (encode f).getLast? = some 0x3A := by
    cases hcode : encode f with
    | nil => exact absurd (encode_eq_nil_iff.mp hcode) hne
    | cons byte bytes => simpa [hcode] using hlast.symm
  have hmem := List.mem_of_getLast? hcolon
  exact absurd hmem (not_mem_encode (c := ':') rfl (not_mem_of_isName hname (by decide)))

include hnames

theorem skips_front {skipped name rest : Bytes}
    (h : (kind directory names).Skips skipped (directory ++ (name ++ rest))) (rest' : Bytes) :
    (kind directory names).Skips skipped (directory ++ (name ++ 0x40 :: rest')) := by
  intro front hne hfront
  by_contra hread
  obtain ⟨other, hother, after, heq, hends⟩ := read?_ne_none_iff.mp hread
  have hsplit : (front ++ (directory ++ name)) ++ 0x40 :: rest' =
      (directory ++ other) ++ after := by simpa using heq
  rcases List.append_eq_append_iff.mp hsplit with ⟨inner, hinner, -⟩ | ⟨inner, hinner, rfl⟩
  · -- the other name would hold the slash at the end of the address
    have hreach : (front ++ directory) ++ (name ++ inner) = directory ++ other := by
      simpa using hinner.symm
    obtain ⟨path, hpath⟩ := hdirectory.slash
    rcases List.append_eq_append_iff.mp hreach with ⟨reach, hlong, -⟩ | ⟨reach, hlong, hname⟩
    · have hlength := congrArg List.length hlong
      have hpos := List.length_pos_iff.mpr hne
      simp only [List.length_append] at hlength
      omega
    · have hreachNe : reach ≠ [] := by
        rintro rfl
        exact hne (by simpa using hlong)
      have hlast := congrArg List.getLast? hlong
      rw [List.getLast?_append_of_ne_nil _ hreachNe, hpath, ← List.append_assoc,
        List.getLast?_concat] at hlast
      have hmem := List.mem_of_getLast? hlast.symm
      exact hnames other hother (by simp [hname, hmem])
  · have hstarts : StartsWith isBlank inner := (ends_append_iff (c := '@') (by decide)).mp hends
    refine absurd (h front hne hfront)
      (read?_ne_none_iff.mpr ⟨other, hother, inner ++ rest, ?_, ?_⟩)
    · rw [← List.append_assoc, ← List.append_assoc, List.append_assoc front, hinner]
      simp
    · exact Or.inr (hstarts.append rest)

omit hdirectory in
/-- A pinned reference is not read again exactly if its name does not start with a name of the list
and white space. -/
theorem read?_pinned_eq_none_iff {f : List Char} (hname : isName f = true) (name rest : Bytes) :
    read? directory names (directory ++ (name ++ 0x40 :: (encode f ++ 0x2F :: rest))) = none ↔
      Apart names name := by
  constructor
  · intro hnone other hother more hmore hstarts
    refine absurd hnone
      (read?_ne_none_iff.mpr ⟨other, hother, _, by rw [hmore, List.append_assoc], ?_⟩)
    exact Or.inr (hstarts.append _)
  · intro hapart
    by_contra hread
    obtain ⟨other, hother, after, heq, hends⟩ := read?_ne_none_iff.mp hread
    rcases List.append_eq_append_iff.mp (List.append_cancel_left heq) with
      ⟨inner, rfl, hrest⟩ | ⟨inner, hinner, rfl⟩
    · have hslash : 0x2F ∉ inner := fun hmem => hnames _ hother (by simp [hmem])
      exact not_ends_of_pin hname hslash hrest hends
    · exact hapart other hother inner hinner ((ends_append_iff (c := '@') (by decide)).mp hends)

variable {f version : List Char} (hname : isName f = true) (hversion : 'h' ∉ version)
include hname hversion

theorem skips_pinned_iff {name rest : Bytes} (hslash : 0x2F ∉ name) {blank : List Char}
    (hblank : ∀ c ∈ blank, isBlank c = true) :
    (kind directory names).Skips
        (directory ++ (name ++ 0x40 :: (encode f ++ 0x2F :: (encode version ++ encode blank))))
        rest ↔
      Apart names name := by
  have hstart (text : Bytes) (hread : (kind directory names).read? text ≠ none) :
      ∃ more, text = String.utf8EncodeChar 'h' ++ more := by
    obtain ⟨other, -, after, rfl, -⟩ := read?_ne_none_iff.mp hread
    obtain ⟨scheme, more, hscheme, -⟩ := hdirectory.scheme
    exact ⟨_, by rw [hscheme, encode_cons, List.append_assoc, List.append_assoc]⟩
  have hnot : 'h' ∉ '/' :: (version ++ blank) := by
    have hblank' : 'h' ∉ blank := fun hmem => absurd (hblank _ hmem) (by decide)
    simp [hversion, hblank']
  have hcode : encode ('/' :: (version ++ blank)) = 0x2F :: (encode version ++ encode blank) := by
    rw [encode_cons, encode_append]
    rfl
  have hback : (kind directory names).Skips (0x2F :: (encode version ++ encode blank)) rest :=
    hcode ▸ ReferenceKind.skips_encode hnot hstart rest
  have hsplit (tail : Bytes) : directory ++ (name ++ 0x40 :: (encode f ++ 0x2F :: tail)) =
      directory ++ ((name ++ 0x40 :: encode f) ++ 0x2F :: tail) := by simp
  rw [hsplit, ReferenceKind.skips_append_iff, ReferenceKind.skips_append_iff,
    and_iff_left ⟨skips_inside hdirectory hname hslash _, hback⟩, skips_directory_iff hdirectory,
    ← read?_pinned_eq_none_iff hnames hname name (encode version ++ encode blank ++ rest), hsplit]
  simp

/-- No reference is left behind the pins exactly if no name that they pinned starts with another one
and white space. -/
theorem skips_refresh_iff (text : Bytes) :
    (kind directory names).Skips
        (refresh directory names (0x40 :: (encode f ++ 0x2F :: encode version)) text) [] ↔
      ∀ before reference after, (kind directory names).Finds text before reference after →
        Apart names reference.name := by
  unfold refresh
  induction text using (kind directory names).scan_induction with
  | skip text hskips =>
    rw [ReferenceKind.substitute_of_skips hskips]
    refine iff_of_true hskips fun before reference after hfinds => ?_
    exact absurd hfinds (ReferenceKind.not_finds_of_skips hskips)
  | find skipped tail reference rest hskips hne hread ih =>
    obtain ⟨blank, hblank, hall, -, hmem, rfl⟩ := exists_of_read?_eq_some hread
    rw [ReferenceKind.substitute_append_of_skips hskips,
      ReferenceKind.substitute_of_read?_eq_some hread hne,
      ReferenceKind.forall_finds_append_iff hskips hread hne fun _ _ _ => Iff.rfl, ← ih, hblank]
    have hwhole (after : Bytes) : directory ++ reference.name ++
        (0x40 :: (encode f ++ 0x2F :: encode version)) ++ encode blank ++ after =
      directory ++ (reference.name ++ 0x40 :: (encode f ++ 0x2F ::
        (encode version ++ encode blank))) ++ after := by simp
    rw [hwhole, ReferenceKind.skips_append_iff, ReferenceKind.skips_append_iff,
      skips_pinned_iff hdirectory hnames hname hversion (hnames _ hmem) hall, and_iff_right]
    simpa using skips_front hdirectory hnames hskips _

end Pin

end PackageReference

end ReleaseDocs
