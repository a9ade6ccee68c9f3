import ReleaseDocs.Branch
import ReleaseDocs.Proofs.MinorSpelling
import ReleaseDocs.Proofs.TagSegments

namespace ReleaseDocs

structure BranchSpelling where
  lead : List Char
  function : List Char
  minor : MinorSpelling
  lead_isLead : IsLead '/' lead
  newline_not_mem : '\n' ∉ lead
  function_isName : isName function = true

theorem exists_fields_eq_append_pair {lead function token : List Char} (hlead : IsLead '/' lead)
    (hfunction : '/' ∉ function) (htoken : '/' ∉ token) :
    ∃ segments, lead = segments.flatMap (· ++ ['/']) ∧
      fields '/' (lead ++ (function ++ '/' :: token)) = segments ++ [function, token] := by
  obtain ⟨segments, hsegments, hfields⟩ :=
    exists_fields_lead_append hlead (function ++ '/' :: token)
  refine ⟨segments, hsegments, hfields.trans ?_⟩
  rw [fields_append_cons hfunction, fields_of_not_mem htoken]

namespace BranchSpelling

def chars (spelling : BranchSpelling) : List Char :=
  spelling.lead ++ (spelling.function ++ '/' :: spelling.minor.chars)

theorem chars_injective {spelling other : BranchSpelling} (h : spelling.chars = other.chars) :
    spelling = other := by
  obtain ⟨segments, -, hfields⟩ := exists_fields_eq_append_pair spelling.lead_isLead
    (ReleaseTag.slash_not_mem_of_isName spelling.function_isName)
    spelling.minor.slash_not_mem_chars
  obtain ⟨segments', -, hfields'⟩ := exists_fields_eq_append_pair other.lead_isLead
    (ReleaseTag.slash_not_mem_of_isName other.function_isName) other.minor.slash_not_mem_chars
  rw [← chars] at hfields hfields'
  rw [h, hfields'] at hfields
  have hlast := (List.append_inj' hfields rfl).2
  simp only [List.cons.injEq, and_true] at hlast
  obtain ⟨hfunction, hminor⟩ := hlast
  have hlead : spelling.lead = other.lead := by
    rw [chars, chars, ← hfunction, ← hminor] at h
    exact List.append_cancel_right h
  obtain hminor := MinorSpelling.chars_injective hminor
  cases spelling
  cases other
  simp_all

end BranchSpelling

namespace ReleaseBranch

theorem captures?_eq_some_iff {name function token : List Char} :
    captures? name = some (function, token) ↔
      isName function = true ∧ isVersionText 2 token = true ∧
        ∃ lead, IsLead '/' lead ∧ '\n' ∉ lead ∧ lead ++ (function ++ '/' :: token) = name := by
  constructor
  · intro h
    unfold captures? at h
    split at h
    · rename_i token' function' segments hfields
      split at h
      · rename_i hparts
        obtain ⟨rfl, rfl⟩ := Prod.mk.inj (Option.some.inj h)
        simp only [Bool.and_eq_true, List.all_eq_true, Bool.not_eq_true',
          List.contains_eq_mem, decide_eq_false_iff_not] at hparts
        obtain ⟨⟨htoken, hname⟩, hlines⟩ := hparts
        have hfields' : fields '/' name = segments.reverse ++ [function', token'] := by
          simpa using congrArg List.reverse hfields
        refine ⟨hname, htoken, segments.reverse.flatMap (· ++ ['/']), isLead_flatMap '/' _,
          by simpa using hlines, ?_⟩
        rw [← joinFields_fields '/' name, hfields', joinFields_append _ _ (List.cons_ne_nil _ _)]
        rfl
      · cases h
    · cases h
  · rintro ⟨hname, htoken, lead, hlead, hline, rfl⟩
    obtain ⟨segments, rfl, hfields⟩ := exists_fields_eq_append_pair hlead
      (ReleaseTag.slash_not_mem_of_isName hname) (slash_not_mem_of_isVersionText htoken)
    have hlines : ∀ segment ∈ segments, '\n' ∉ segment := by simpa using hline
    simpa [captures?, hfields, hname, htoken] using hlines

/-- Of the tokens that the pattern of branches matches, those are read that are written in ASCII
digits, and of the tokens that are read, those match that have no plus sign. -/
theorem isVersionText_and_parse_iff {token : List Char} {v : MinorVersion} :
    isVersionText 2 token = true ∧ MinorVersion.parse (String.ofList token) = .ok v ↔
      ∃ spelling : MinorSpelling, spelling.chars = token ∧ spelling.Denotes v := by
  rw [MinorVersion.parse_eq_ok_iff, String.toList_ofList]
  constructor
  · rintro ⟨htoken, spelling, rfl, hdenotes⟩
    have hplus : '+' ∉ spelling.signedChars := fun hmem =>
      absurd (eq_of_mem_isVersionText htoken hmem) (by decide)
    exact ⟨spelling.toMinorSpelling, SignedMinorSpelling.chars_eq_signedChars hplus, hdenotes⟩
  · rintro ⟨spelling, rfl, hdenotes⟩
    refine ⟨isVersionText_iff.mpr ⟨_, rfl, by rw [spelling.fields_point]; rfl, ?_⟩,
      .unsigned spelling, rfl, hdenotes⟩
    have hword {number : List Char} (h : Decimal.IsWord number) :
        number ≠ [] ∧ ∀ c ∈ number, isDecimalDigit c = true :=
      ⟨h.ne_nil, fun c hc => isDecimalDigit_of_isDigit (h.isDigit c hc)⟩
    rw [spelling.fields_point]
    simpa using ⟨hword spelling.major_isWord, hword spelling.minor_isWord⟩

theorem parse_eq_ok_iff_captures {name : String} {branch : ReleaseBranch} :
    parse name = .ok branch ↔ ∃ function token, captures? name.toList = some (function, token) ∧
      MinorVersion.parse (String.ofList token) = .ok branch.minor ∧ branch.name = name ∧
        branch.function.toList = function := by
  constructor
  · intro h
    unfold parse at h
    split at h
    · cases h
    · rename_i function token hcaptures
      split at h
      · cases h
      · rename_i minor hminor
        cases h
        exact ⟨function, token, hcaptures, hminor, rfl, String.toList_ofList⟩
  · rintro ⟨function, token, hcaptures, hminor, rfl, rfl⟩
    simp [parse, hcaptures, hminor]

theorem parse_eq_ok_iff {name : String} {branch : ReleaseBranch} :
    parse name = .ok branch ↔
      ∃ spelling : BranchSpelling, spelling.chars = name.toList ∧ branch.name = name ∧
        branch.function.toList = spelling.function ∧ spelling.minor.Denotes branch.minor := by
  rw [parse_eq_ok_iff_captures]
  constructor
  · rintro ⟨function, token, hcaptures, hparse, hname, hfunction⟩
    obtain ⟨hisName, htoken, lead, hlead, hline, hchars⟩ := captures?_eq_some_iff.mp hcaptures
    obtain ⟨minor, rfl, hdenotes⟩ := isVersionText_and_parse_iff.mp ⟨htoken, hparse⟩
    exact ⟨⟨lead, function, minor, hlead, hline, hisName⟩, hchars, hname, hfunction, hdenotes⟩
  · rintro ⟨spelling, hchars, hname, hfunction, hdenotes⟩
    obtain ⟨htoken, hparse⟩ := isVersionText_and_parse_iff.mpr ⟨spelling.minor, rfl, hdenotes⟩
    refine ⟨spelling.function, spelling.minor.chars, ?_, hparse, hname, hfunction⟩
    exact captures?_eq_some_iff.mpr ⟨spelling.function_isName, htoken, spelling.lead,
      spelling.lead_isLead, spelling.newline_not_mem, hchars⟩

theorem eq_of_parse_error {name : String} {e : DocsError} (h : parse name = .error e) :
    e = .invalidBranchFormat name := by
  unfold parse at h
  split at h
  · cases h
    rfl
  · split at h
    · cases h
      rfl
    · cases h

theorem name_of_parse {name : String} {branch : ReleaseBranch} (h : parse name = .ok branch) :
    branch.name = name := by
  obtain ⟨-, -, hname, -⟩ := parse_eq_ok_iff.mp h
  exact hname

theorem isName_of_parse {name : String} {branch : ReleaseBranch} (h : parse name = .ok branch) :
    isName branch.function.toList = true := by
  obtain ⟨spelling, -, -, hfunction, -⟩ := parse_eq_ok_iff.mp h
  rw [hfunction]
  exact spelling.function_isName

/-- What parsing a name gives, said by the spellings of the name. -/
structure Recognizes (name : String) (answer : Except DocsError ReleaseBranch) : Prop where
  accepts_iff : (∃ branch, answer = .ok branch) ↔
    ∃ spelling : BranchSpelling, spelling.chars = name.toList
  unique : ∀ spelling other : BranchSpelling,
    spelling.chars = name.toList → other.chars = name.toList → spelling = other
  keeps : ∀ branch, answer = .ok branch →
    ∀ spelling : BranchSpelling, spelling.chars = name.toList →
      branch.name = name ∧ branch.function.toList = spelling.function ∧
        spelling.minor.Denotes branch.minor
  rejects : (∀ spelling : BranchSpelling, spelling.chars ≠ name.toList) →
    answer = .error (.invalidBranchFormat name)

theorem recognizes_parse (name : String) : Recognizes name (parse name) where
  accepts_iff := by
    constructor
    · rintro ⟨branch, hbranch⟩
      obtain ⟨spelling, hchars, -⟩ := parse_eq_ok_iff.mp hbranch
      exact ⟨spelling, hchars⟩
    · rintro ⟨spelling, hchars⟩
      obtain ⟨v, hdenotes⟩ := spelling.minor.exists_denotes
      refine ⟨⟨name, String.ofList spelling.function, v⟩, parse_eq_ok_iff.mpr ?_⟩
      exact ⟨spelling, hchars, rfl, String.toList_ofList, hdenotes⟩
  unique spelling other hchars hother := BranchSpelling.chars_injective (hchars.trans hother.symm)
  keeps branch hbranch spelling hchars := by
    obtain ⟨other, hother, hname, hfunction, hdenotes⟩ := parse_eq_ok_iff.mp hbranch
    obtain rfl := BranchSpelling.chars_injective (hother.trans hchars.symm)
    exact ⟨hname, hfunction, hdenotes⟩
  rejects hnone := by
    cases hparse : parse name with
    | ok branch =>
      obtain ⟨spelling, hchars, -⟩ := parse_eq_ok_iff.mp hparse
      exact absurd hchars (hnone spelling)
    | error e => rw [eq_of_parse_error hparse]

end ReleaseBranch

end ReleaseDocs
