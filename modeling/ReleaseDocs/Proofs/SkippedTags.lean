import ReleaseDocs.Proofs.CallOrder
import ReleaseDocs.Proofs.Consistency
import ReleaseDocs.Proofs.TagFindings

/-!
What a run tells the operator about the tags that its selection drops.

A selection has a warning for every tag of the release that is no candidate. The warnings are part
of a successful answer, so the run passes them on only if the branch resolves: with no candidate
left, or without a directory of the function, they are lost.
-/

namespace ReleaseDocs

theorem PatchVersion.minorVersion_of_chars_eq {p : PatchVersion} {v : MinorVersion}
    {rest : List Char} (h : p.chars = v.chars ++ '.' :: rest) : p.minorVersion = v := by
  obtain ⟨major, minor⟩ := v
  simp only [chars, MinorVersion.chars, List.cons_append, List.append_assoc, List.cons.injEq,
    true_and] at h
  have hfields := congrArg (fields '.') h
  simp only [fields_append_cons (Decimal.not_point_mem_digits _), List.cons.injEq] at hfields
  obtain ⟨hmajor, hminor, -⟩ := hfields
  rw [minorVersion, Decimal.digits_injective hmajor, Decimal.digits_injective hminor]

namespace ReleaseBranch

variable {branch : ReleaseBranch} {languages : List String} {tag : String}

/-- The last two segments of the tag are the function of the branch and a token that starts with the
minor version and a point. -/
def Concerns (branch : ReleaseBranch) (tag : String) : Prop :=
  ∃ rest, [branch.function.toList, branch.minor.chars ++ '.' :: rest] <:+
    fields '/' (trim tag).toList

/-- The tag ends in a language that counts, the function of the branch and one of its patches. -/
def IsCandidate (branch : ReleaseBranch) (languages : List String) (tag : String) : Prop :=
  ∃ language ∈ ReleaseTag.recognized languages, ∃ patch,
    fields '/' language.toList ++
        [branch.function.toList, (branch.minor.patchVersion patch).chars] <:+
      fields '/' (trim tag).toList

/-- The tag concerns the release, but it takes no part in the selection. -/
def Drops (branch : ReleaseBranch) (languages : List String) (tag : String) : Prop :=
  branch.Concerns tag ∧ ¬ branch.IsCandidate languages tag

open scoped Classical in
/-- Each of the dropped tags is told of once for each time it is listed, in the order of the
list. -/
def Accounts (branch : ReleaseBranch) (languages tags : List String) (told : List Warning) : Prop :=
  (told.filterMap Warning.tag?).filter (fun tag => branch.Drops languages tag) =
    (tags.map trim).filter fun tag => branch.Drops languages tag

theorem drops_trim : branch.Drops languages (trim tag) ↔ branch.Drops languages tag := by
  simp only [Drops, Concerns, IsCandidate, trim_trim]

theorem IsCandidate.concerns (h : branch.IsCandidate languages tag) : branch.Concerns tag := by
  obtain ⟨language, -, patch, hsuffix⟩ := h
  refine ⟨Decimal.digits patch, ?_⟩
  rw [← MinorVersion.chars_patchVersion]
  exact (List.suffix_append _ _).trans hsuffix

theorem occursIn_of_concerns (hname : isName branch.function.toList = true)
    (h : branch.Concerns tag) : occursIn branch.fragment.toList (trim tag).toList = true := by
  obtain ⟨rest, before, hsegments⟩ := h
  exact (occursIn_fragment_iff (ReleaseTag.slash_not_mem_of_isName hname)).mpr
    ⟨before, [], '.' :: rest, [], hsegments.symm⟩

end ReleaseBranch

namespace TagFinding

open ReleaseBranch

variable {languages : List String} {branch : ReleaseBranch} {tag : String}

theorem ofTag_of_concerns (hname : isName branch.function.toList = true)
    (h : branch.Concerns tag) :
    branch.IsCandidate languages tag ∧
        (∃ release version, ofTag languages branch tag = .candidate release version) ∨
      ¬ branch.IsCandidate languages tag ∧
        ∃ warning, ofTag languages branch tag = .skipped warning := by
  rw [ofTag_of_occursIn (occursIn_of_concerns hname h)]
  obtain ⟨rest, hlast⟩ := h
  cases hparse : ReleaseTag.parse? languages tag with
  | none =>
    refine Or.inr ⟨?_, _, rfl⟩
    rintro ⟨language, hmem, patch, hsuffix⟩
    have hpatch := (List.suffix_append _ _).trans hsuffix
    exact (ReleaseTag.parse?_eq_none_iff hpatch hname (PatchVersion.isVersionToken_chars _)).mp
      hparse ⟨language, hmem, _, _, hsuffix⟩
  | some release =>
    obtain ⟨hfunction, hversion⟩ := ReleaseTag.eq_of_parse? hlast hparse
    rw [String.ofList_toList] at hfunction
    simp only
    cases hpatch : release.patch? with
    | none =>
      refine Or.inr ⟨?_, _, rfl⟩
      rintro ⟨language, hmem, patch, hsuffix⟩
      obtain ⟨-, heq⟩ := ReleaseTag.eq_of_suffix hlast hsuffix
      rw [ReleaseTag.patch?, hversion, heq, ← PatchVersion.text, PatchVersion.parse?_text] at hpatch
      cases hpatch
    | some version =>
      have htoken : version.chars = branch.minor.chars ++ '.' :: rest := by
        have htext := PatchVersion.parse?_eq_some_iff.mp hpatch
        rw [hversion, PatchVersion.text, String.ofList_inj] at htext
        exact htext.symm
      have hcontains : branch.minor.contains version = true :=
        MinorVersion.contains_eq_true_iff.mpr (PatchVersion.minorVersion_of_chars_eq htoken)
      refine Or.inl ⟨?_, release, version, if_pos ⟨hfunction, hcontains⟩⟩
      obtain ⟨parts, hparts, -⟩ := Option.map_eq_some_iff.mp hparse
      obtain ⟨hare, hsuffix⟩ := (ReleaseTag.finds_parts? languages _).sound parts hparts
      obtain ⟨hfirst, hsecond⟩ := ReleaseTag.eq_of_suffix hlast hsuffix
      refine ⟨parts.1, hare.language, version.patch, ?_⟩
      rw [← MinorVersion.contains_iff.mp hcontains, htoken, hfirst, hsecond]
      exact hsuffix

end TagFinding

namespace LatestPatch

open ReleaseBranch TagFinding

variable {languages : List String} {branch : ReleaseBranch} {tags : List String}

theorem accounts_nil_iff :
    branch.Accounts languages tags [] ↔
      ∀ tag ∈ tags, branch.Concerns tag → branch.IsCandidate languages tag := by
  have hdrops (tag : String) : (branch.Concerns tag → branch.IsCandidate languages tag) ↔
      ¬ branch.Drops languages (trim tag) := by
    rw [drops_trim, Drops, not_and_not_right]
  simp only [hdrops, Accounts, List.filterMap_nil, List.filter_nil, List.nil_eq,
    List.filter_eq_nil_iff, List.forall_mem_map, decide_eq_true_eq]

/-- The warnings of a selection account for all tags, one tag after the other. -/
theorem accounts_filterMap_warning? (hname : isName branch.function.toList = true) :
    branch.Accounts languages tags
      (tags.filterMap fun tag => (ofTag languages branch tag).warning?) := by
  classical
  induction tags with
  | nil => rfl
  | cons tag tags ih =>
    unfold Accounts at ih ⊢
    cases hfound : (ofTag languages branch tag).warning? with
    | some warning =>
      have htag := tag?_of_ofTag_eq_skipped (warning?_eq_some_iff.mp hfound)
      simp only [List.filterMap_cons, hfound, htag, List.map_cons, List.filter_cons, ih]
    | none =>
      have hnot : ¬ branch.Drops languages (trim tag) := by
        rw [drops_trim]
        rintro ⟨hconcerns, hno⟩
        rcases ofTag_of_concerns hname hconcerns with ⟨hyes, -⟩ | ⟨-, warning, hskipped⟩
        · exact hno hyes
        · rw [warning?_eq_some_iff.mpr hskipped] at hfound
          cases hfound
      simp only [List.filterMap_cons, hfound, List.map_cons, List.filter_cons, hnot, decide_false,
        ih]
      rfl

theorem not_isCandidate_of_mem_warnings (hname : isName branch.function.toList = true)
    {latest : LatestPatch} (h : select languages branch tags = .ok latest) {warning : Warning}
    (hmem : warning ∈ latest.warnings) {tag : String} (htag : warning.tag? = some (trim tag)) :
    ¬ branch.IsCandidate languages tag := by
  obtain ⟨other, -, hskipped⟩ := (mem_warnings_iff h).mp hmem
  have htrim : trim other = trim tag := by
    simpa [htag, eq_comm] using tag?_of_ofTag_eq_skipped hskipped
  have hiff : branch.IsCandidate languages tag ↔ branch.IsCandidate languages other := by
    simp only [IsCandidate, htrim]
  rw [hiff]
  intro hcandidate
  rcases ofTag_of_concerns hname hcandidate.concerns with ⟨-, release, version, hfound⟩ | ⟨hno, -⟩
  · rw [hskipped] at hfound
    cases hfound
  · exact hno hcandidate

end LatestPatch

def Event.noticeOn? (channel : Channel) : Event → Option Notice
  | said notice => if notice.channel = channel then some notice else none
  | called _ => none

namespace Session

def noticesOn (session : Session) (channel : Channel) : List Notice :=
  session.events.filterMap (Event.noticeOn? channel)

theorem printed_eq_join_noticesOn (s : Session) (channel : Channel) :
    s.printed channel = String.join ((s.noticesOn channel).map Notice.text) := by
  rw [printed, noticesOn]
  induction s.events with
  | nil => rfl
  | cons event events ih =>
    rw [List.map_cons, String.join_cons, ih]
    cases event with
    | called call => exact String.empty_append
    | said notice =>
      by_cases hchannel : notice.channel = channel
      · simp [Event.textOn, Event.noticeOn?, hchannel, String.join_cons]
      · simp [Event.textOn, Event.noticeOn?, hchannel]

variable (s : Session)

@[simp] theorem noticesOn_withTree (tree : FileTree) (channel : Channel) :
    (s.withTree tree).noticesOn channel = s.noticesOn channel := rfl

theorem noticesOn_saying (notices : List Notice) (channel : Channel) :
    (s.saying notices).noticesOn channel =
      s.noticesOn channel ++ notices.filter fun notice => notice.channel = channel := by
  simp only [noticesOn, saying, List.filterMap_append, List.filterMap_map,
    ← List.filterMap_eq_filter]
  congr 1
  refine List.filterMap_congr fun notice _ => ?_
  simp [Event.noticeOn?, Option.guard]

theorem noticeOn?_error_announcement (call : Call) :
    Event.noticeOn? .error (.said call.announcement) = none := by
  cases call <;> rfl

@[simp] theorem noticesOn_error_attempt (call : Call) :
    (s.attempt call).noticesOn .error = s.noticesOn .error :=
  s.filterMap_events_attempt (fun _ => rfl) noticeOn?_error_announcement call

@[simp] theorem noticesOn_error_performAll (calls : List Call) :
    (s.performAll calls).noticesOn .error = s.noticesOn .error :=
  s.filterMap_events_performAll (fun _ => rfl) noticeOn?_error_announcement calls

end Session

namespace Workflow

open Run

variable {config : Config} {name : String} {branch : ReleaseBranch} {s after : Session}
  {answer : Except DocsError WorkflowResult} {found : Resolution}

theorem noticesOn_error_resolved (config : Config) (branch : ReleaseBranch) (s : Session)
    (found : Resolution) :
    (resolved config branch s found).noticesOn .error =
      s.noticesOn .error ++ found.warnings.map Notice.warning := by
  simp [resolved, Session.noticesOn_saying, List.filter_map, Function.comp_def, Notice.channel]

theorem noticesOn_error_refreshed (config : Config) (branch : ReleaseBranch) (s : Session)
    (found : Resolution) (report : UpdateReport) (tree : FileTree) :
    (refreshed config branch s found report tree).noticesOn .error =
      s.noticesOn .error ++ found.warnings.map Notice.warning := by
  simp [refreshed, Session.noticesOn_saying, noticesOn_error_resolved, List.filter_map,
    Function.comp_def, Notice.channel]

/-- A run from one session to another that has asked for the tags and was given them. -/
def GetsTags (s after : Session) : Prop :=
  ¬ s.repository.Fails .tag ∧
    ∃ trace, after.repository.calls = s.repository.calls ++ trace ∧ .tag ∈ trace

theorem tag_not_mem_checkOutCalls (config : Config) (name : String) :
    .tag ∉ checkOutCalls config name := by
  simp [checkOutCalls]

theorem getsTags_of_calls
    (hcalls : ∀ call ∈ preparation config branch.name, ¬ s.repository.Fails call)
    (hafter : s.repository.calls ++ preparation config branch.name <+: after.repository.calls) :
    GetsTags s after := by
  obtain ⟨more, hmore⟩ := hafter
  rw [List.append_assoc] at hmore
  exact ⟨hcalls .tag (by simp [preparation]), _, hmore.symm, by simp [preparation]⟩

theorem prefix_calls_performAll_refreshed (config : Config) (branch : ReleaseBranch) (s : Session)
    (found : Resolution) (report : UpdateReport) (tree : FileTree) (calls : List Call) :
    s.repository.calls ++ preparation config branch.name <+:
      ((refreshed config branch s found report tree).performAll calls).repository.calls := by
  rw [repository_performAll_refreshed, Session.calls_performAll, ← List.append_assoc]
  exact List.prefix_append _ _

theorem not_getsTags_of_interrupts {earlier : List Call} {call : Call}
    (h : s.repository.Interrupts (preparation config branch.name) earlier call) :
    ¬ GetsTags s ((s.performAll earlier).attempt call) := by
  obtain ⟨later, hsplit⟩ := h.split
  rintro ⟨htag, trace, htrace, hmem⟩
  obtain rfl : earlier ++ [call] = trace := by
    simpa [Repository.logged] using htrace
  rcases List.mem_append.mp hmem with hmem | hmem
  · have hfront : earlier ++ [call] <+: checkOutCalls config branch.name ++ [.tag] :=
      ⟨later, by rw [← preparation, hsplit]; simp⟩
    rcases List.prefix_concat_iff.mp hfront with heq | hfront
    · obtain ⟨rfl, -⟩ := List.append_inj' heq rfl
      exact tag_not_mem_checkOutCalls config branch.name hmem
    · exact tag_not_mem_checkOutCalls config branch.name
        (hfront.mem (List.mem_append_left _ hmem))
  · obtain rfl := List.mem_singleton.mp hmem
    exact htag h.fails

theorem getsTags_iff_of_ending (h : Ending config branch s answer after) :
    GetsTags s after ↔ s.repository.nextClean = true ∧
      ∀ call ∈ preparation config branch.name, ¬ s.repository.Fails call := by
  cases h with
  | @unprepared earlier call interrupts clean =>
    obtain ⟨later, hsplit⟩ := interrupts.split
    refine iff_of_false (not_getsTags_of_interrupts interrupts) fun h => ?_
    exact h.2 call (by simp [hsplit]) interrupts.fails
  | dirty status dirty =>
    refine iff_of_false ?_ (by simp [dirty])
    rintro ⟨-, trace, htrace, hmem⟩
    obtain rfl : [.status] = trace :=
      List.append_cancel_left ((s.calls_performAll [.status]).symm.trans htrace)
    simp at hmem
  | unresolved calls clean fault =>
    refine iff_of_true (getsTags_of_calls calls ?_) ⟨clean, calls⟩
    exact (s.calls_performAll _).symm ▸ List.prefix_rfl
  | @unreadable found e tree calls clean resolves fault =>
    refine iff_of_true (getsTags_of_calls calls ?_) ⟨clean, calls⟩
    exact (s.calls_performAll _).symm ▸ List.prefix_rfl
  | @unchanged found report tree refreshes same =>
    refine iff_of_true (getsTags_of_calls refreshes.calls ?_) ⟨refreshes.clean, refreshes.calls⟩
    exact prefix_calls_performAll_refreshed config branch s found report tree []
  | @stillClean found report tree refreshes changes clean =>
    refine iff_of_true (getsTags_of_calls refreshes.calls ?_) ⟨refreshes.clean, refreshes.calls⟩
    exact prefix_calls_performAll_refreshed config branch s found report tree [.status]
  | @unpublished found report tree earlier call refreshes changes dirty interrupts =>
    refine iff_of_true (getsTags_of_calls refreshes.calls ?_) ⟨refreshes.clean, refreshes.calls⟩
    exact (prefix_calls_performAll_refreshed config branch s found report tree _).trans
      (List.prefix_append _ [call])
  | @published found report tree refreshes changes dirty calls =>
    refine iff_of_true (getsTags_of_calls refreshes.calls ?_) ⟨refreshes.clean, refreshes.calls⟩
    exact prefix_calls_performAll_refreshed config branch s found report tree _

theorem noticesOn_error_of_ending (h : Ending config branch s answer after) :
    (after.noticesOn .error = s.noticesOn .error ∧
      (GetsTags s after → ∃ e, resolution config branch s = .error e)) ∨
    ∃ found, resolution config branch s = .ok found ∧
      after.noticesOn .error = s.noticesOn .error ++ found.warnings.map Notice.warning := by
  have hgets := getsTags_iff_of_ending h
  cases h with
  | unprepared interrupts clean =>
    obtain ⟨later, hsplit⟩ := interrupts.split
    refine Or.inl ⟨by simp, fun hget => absurd interrupts.fails ?_⟩
    exact (hgets.mp hget).2 _ (by simp [hsplit])
  | dirty status dirty =>
    refine Or.inl ⟨s.noticesOn_error_performAll [.status], fun hget => ?_⟩
    rw [(hgets.mp hget).1] at dirty
    cases dirty
  | unresolved calls clean fault =>
    exact Or.inl ⟨s.noticesOn_error_performAll _, fun _ => ⟨_, fault⟩⟩
  | unreadable calls clean resolves fault =>
    exact Or.inr ⟨_, resolves, noticesOn_error_resolved config branch s _⟩
  | unchanged refreshes same =>
    exact Or.inr ⟨_, refreshes.resolves, noticesOn_error_refreshed config branch s _ _ _⟩
  | @stillClean _ _ tree refreshes changes clean =>
    refine Or.inr ⟨_, refreshes.resolves, ?_⟩
    exact (Session.noticesOn_error_performAll _ [.status]).trans
      (noticesOn_error_refreshed config branch s _ _ tree)
  | unpublished refreshes changes dirty interrupts =>
    refine Or.inr ⟨_, refreshes.resolves, ?_⟩
    rw [Session.noticesOn_error_attempt, Session.noticesOn_error_performAll,
      noticesOn_error_refreshed]
  | published refreshes changes dirty calls =>
    refine Or.inr ⟨_, refreshes.resolves, ?_⟩
    simp [Session.noticesOn_saying, noticesOn_error_refreshed, List.filter_map,
      Function.comp_def, Notice.channel]

/-- What a run has told about the tags that its selection drops. -/
structure TellsDropped (config : Config) (name : String) (s after : Session)
    (told : List Warning) : Prop where
  notices : after.noticesOn .error = s.noticesOn .error ++ told.map Notice.warning
  printed : after.printed .error =
    s.printed .error ++ String.join (told.map fun warning => (Notice.warning warning).text)
  needed : ∀ branch, ReleaseBranch.parse name = .ok branch → ∀ warning ∈ told, ∀ tag,
    warning.tag? = some (trim tag) → ¬ branch.IsCandidate config.catalog.languages tag
  complete : ∀ branch, ReleaseBranch.parse name = .ok branch → GetsTags s after →
    (branch.Accounts config.catalog.languages s.repository.tags told ↔
      (∃ found, resolutionOf config name s = .ok found) ∨
        ∀ tag ∈ s.repository.tags,
          branch.Concerns tag → branch.IsCandidate config.catalog.languages tag)
  silent : (∀ found, resolutionOf config name s ≠ .ok found) → told = []

theorem printed_error_of_noticesOn {told : List Warning}
    (h : after.noticesOn .error = s.noticesOn .error ++ told.map Notice.warning) :
    after.printed .error =
      s.printed .error ++ String.join (told.map fun warning => (Notice.warning warning).text) := by
  simp only [Session.printed_eq_join_noticesOn, h, List.map_append, String.join_append,
    List.map_map, Function.comp_def]

theorem tellsDropped_nil (hnotices : after.noticesOn .error = s.noticesOn .error)
    (hunresolved : GetsTags s after → ∃ e, resolutionOf config name s = .error e) :
    TellsDropped config name s after [] := by
  have hnotices' : after.noticesOn .error =
      s.noticesOn .error ++ [].map Notice.warning := by rw [hnotices]; simp
  refine ⟨hnotices', printed_error_of_noticesOn hnotices', nofun, fun branch _ hgets => ?_,
    fun _ => rfl⟩
  obtain ⟨e, he⟩ := hunresolved hgets
  simp [he, LatestPatch.accounts_nil_iff]

theorem tellsDropped_warnings (hparse : ReleaseBranch.parse name = .ok branch)
    (hfound : resolutionOf config name s = .ok found)
    (hnotices : after.noticesOn .error =
      s.noticesOn .error ++ found.warnings.map Notice.warning) :
    TellsDropped config name s after found.warnings := by
  have hname := ReleaseBranch.isName_of_parse hparse
  have hresolution := hfound
  rw [resolutionOf_of_parse config s hparse] at hresolution
  obtain ⟨latest, location, hselect, -, rfl⟩ := Resolution.ofTags_eq_ok_iff.mp hresolution
  have hbranch : ∀ other, ReleaseBranch.parse name = .ok other → branch = other := fun other h =>
    Except.ok.inj (hparse.symm.trans h)
  refine ⟨hnotices, printed_error_of_noticesOn hnotices, ?_, ?_, fun hnone => ?_⟩
  · rintro other hother warning hwarning tag htag
    obtain rfl := hbranch other hother
    exact LatestPatch.not_isCandidate_of_mem_warnings hname hselect hwarning htag
  · rintro other hother -
    obtain rfl := hbranch other hother
    refine iff_of_true ?_ (Or.inl ⟨_, hfound⟩)
    rw [LatestPatch.warnings_of_select hselect]
    exact LatestPatch.accounts_filterMap_warning? hname
  · exact absurd hfound (hnone _)

/-- A run that gets the tags tells of every tag that its selection drops, once for each time it is
listed, exactly if its branch resolves or there is no such tag. -/
theorem exists_tellsDropped_run (config : Config) (name : String) (s : Session) :
    ∃ told, TellsDropped config name s ((run config name).run.run s).2 told := by
  cases hparse : ReleaseBranch.parse name with
  | error e =>
    have hunresolved : resolutionOf config name s = .error e := by
      rw [resolutionOf, hparse]
      rfl
    rw [run, hparse, run_bind_of_error (run_ofExcept (.error e) s)]
    exact ⟨[], tellsDropped_nil rfl fun _ => ⟨e, hunresolved⟩⟩
  | ok branch =>
    have hresolution := resolutionOf_of_parse config s hparse
    rw [run_of_parse config s hparse]
    rcases noticesOn_error_of_ending (ending_runBranch config branch s) with
      ⟨hnotices, hunresolved⟩ | ⟨found, hfound, hnotices⟩
    · exact ⟨[], tellsDropped_nil hnotices (hresolution ▸ hunresolved)⟩
    · exact ⟨_, tellsDropped_warnings hparse (hresolution.trans hfound) hnotices⟩

/-- The only tag of the release has a version with a needless zero. -/
def misspeltSession : Session where
  tree := .empty []
  repository := { root := ⟨"/"⟩, tags := ["go/fn/v1.0.01"] }

theorem drops_misspelt :
    ReleaseBranch.Drops ⟨"fn/v1.0", "fn", ⟨1, 0⟩⟩ ["go", "ts"] "go/fn/v1.0.01" := by
  have hlast : ["fn".toList, "v1.0.01".toList] <:+ fields '/' (trim "go/fn/v1.0.01").toList := by
    decide +kernel
  refine ⟨⟨['0', '1'], hlast⟩, ?_⟩
  rintro ⟨language, -, patch, hsuffix⟩
  obtain ⟨-, hversion⟩ := ReleaseTag.eq_of_suffix hlast hsuffix
  have hread := PatchVersion.read?_chars ((MinorVersion.mk 1 0).patchVersion patch)
  rw [← hversion] at hread
  have hnone : PatchVersion.read? "v1.0.01".toList = none := by decide +kernel
  rw [hnone] at hread
  cases hread

/-- The run gets a tag of the release that it drops, and prints nothing about it. -/
theorem printed_run_misspelt :
    ∃ branch, ReleaseBranch.parse "fn/v1.0" = .ok branch ∧
      GetsTags misspeltSession ((run {} "fn/v1.0").run.run misspeltSession).2 ∧
      (∃ tag ∈ misspeltSession.repository.tags, branch.Drops ["go", "ts"] tag) ∧
      ((run {} "fn/v1.0").run.run misspeltSession).2.printed .error = "" := by
  have hparse : ReleaseBranch.parse "fn/v1.0" = .ok ⟨"fn/v1.0", "fn", ⟨1, 0⟩⟩ := by
    decide +kernel
  have hselect : LatestPatch.select ["go", "ts"] ⟨"fn/v1.0", "fn", ⟨1, 0⟩⟩ ["go/fn/v1.0.01"] =
      .error (.noMatchingRelease "fn" "v1.0") := by decide +kernel
  have hresolution : resolutionOf {} "fn/v1.0" misspeltSession =
      .error (.noMatchingRelease "fn" "v1.0") := by
    rw [resolutionOf_of_parse {} misspeltSession hparse, resolution, Resolution.ofTags]
    exact congrArg (· >>= _) hselect
  obtain ⟨told, htells⟩ := exists_tellsDropped_run {} "fn/v1.0" misspeltSession
  refine ⟨_, hparse, ?_, ⟨_, List.mem_cons_self, drops_misspelt⟩, ?_⟩
  · rw [run_of_parse {} misspeltSession hparse,
      getsTags_iff_of_ending (ending_runBranch {} _ misspeltSession)]
    exact ⟨rfl, by decide⟩
  · rw [htells.printed, htells.silent (by simp [hresolution])]
    rfl

end Workflow

end ReleaseDocs
