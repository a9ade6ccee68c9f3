import ReleaseDocs.Proofs.Consistency
import ReleaseDocs.Proofs.FileFrame
import ReleaseDocs.Proofs.UpdatePass

namespace ReleaseDocs

def EndsLine (text : String) : Prop :=
  text = "" ∨ ∃ front, text = front ++ "\n"

namespace EndsLine

theorem newline (text : String) : EndsLine (text ++ "\n") :=
  Or.inr ⟨text, rfl⟩

theorem append {text more : String} (h : EndsLine text) (hmore : EndsLine more) :
    EndsLine (text ++ more) := by
  rcases hmore with rfl | ⟨front, rfl⟩
  · rwa [String.append_empty]
  · rw [← String.append_assoc]
    exact newline _

theorem join {texts : List String} (h : ∀ text ∈ texts, EndsLine text) :
    EndsLine (String.join texts) := by
  induction texts with
  | nil => exact Or.inl rfl
  | cons text texts ih =>
    obtain ⟨htext, htexts⟩ := List.forall_mem_cons.mp h
    rw [String.join_cons]
    exact htext.append (ih htexts)

end EndsLine

namespace Notice

def docUpdate? : Notice → Option DocUpdate
  | docUpdate update => some update
  | _ => none

theorem endsLine_text (notice : Notice) : EndsLine notice.text := by
  delta text
  cases notice with
  | release r =>
    have htitle : EndsLine "\nResolved release:\n" := Or.inr ⟨"\nResolved release:", by decide⟩
    refine htitle.append (.join fun text htext => ?_)
    obtain ⟨line, -, rfl⟩ := List.mem_map.mp htext
    exact .newline _
  | docUpdate update =>
    dsimp only
    split <;> exact .newline _
  | _ => exact .newline _

end Notice

namespace Event

def docUpdate? : Event → Option DocUpdate
  | said notice => notice.docUpdate?
  | called _ => none

theorem eq_said_of_docUpdate? {event : Event} {update : DocUpdate}
    (h : event.docUpdate? = some update) : event = .said (.docUpdate update) := by
  cases event with
  | called call => cases h
  | said notice =>
    cases notice <;> cases h
    rfl

theorem endsLine_textOn (channel : Channel) (event : Event) : EndsLine (event.textOn channel) := by
  cases event with
  | called call => exact Or.inl rfl
  | said notice =>
    simp only [textOn]
    split
    · exact notice.endsLine_text
    · exact Or.inl rfl

end Event

namespace Session

def docUpdates (session : Session) : List DocUpdate :=
  session.events.filterMap Event.docUpdate?

def Shows (session : Session) (channel : Channel) (line : String) : Prop :=
  ∃ front back, session.printed channel = front ++ (line ++ "\n") ++ back ∧ EndsLine front

theorem shows_of_said_mem {session : Session} {notice : Notice} {line : String}
    (h : .said notice ∈ session.events) (htext : notice.text = line ++ "\n") :
    session.Shows notice.channel line := by
  obtain ⟨earlier, later, hevents⟩ := List.append_of_mem h
  refine ⟨String.join (earlier.map (Event.textOn notice.channel)),
    String.join (later.map (Event.textOn notice.channel)), ?_, .join fun text htext => ?_⟩
  · have hsaid : Event.textOn notice.channel (.said notice) = line ++ "\n" :=
      (if_pos rfl).trans htext
    rw [printed, hevents, List.map_append, List.map_cons, String.join_append, String.join_cons,
      hsaid]
    exact (String.append_assoc ..).symm
  · obtain ⟨event, -, rfl⟩ := List.mem_map.mp htext
    exact event.endsLine_textOn _

theorem shows_of_mem_docUpdates {session : Session} {update : DocUpdate}
    (h : update ∈ session.docUpdates) (hchanged : update.changed = true) :
    session.Shows .output ("✓ Updated " ++ update.path.text) := by
  obtain ⟨event, hevent, hupdate⟩ := List.mem_filterMap.mp h
  obtain rfl := Event.eq_said_of_docUpdate? hupdate
  exact shows_of_said_mem hevent (if_pos hchanged)

variable (s : Session)

@[simp] theorem docUpdates_saying (notices : List Notice) :
    (s.saying notices).docUpdates = s.docUpdates ++ notices.filterMap Notice.docUpdate? := by
  simp only [docUpdates, saying, List.filterMap_append, List.filterMap_map]
  rfl

@[simp] theorem docUpdates_withTree (tree : FileTree) :
    (s.withTree tree).docUpdates = s.docUpdates := rfl

@[simp] theorem docUpdates_attempt (call : Call) : (s.attempt call).docUpdates = s.docUpdates :=
  s.filterMap_events_attempt (fun _ => rfl) (fun call => by cases call <;> rfl) call

@[simp] theorem docUpdates_performAll (calls : List Call) :
    (s.performAll calls).docUpdates = s.docUpdates :=
  s.filterMap_events_performAll (fun _ => rfl) (fun call => by cases call <;> rfl) calls

end Session

namespace Workflow

open Run RefreshRules

variable {config : Config} {name : String} {branch : ReleaseBranch} {s after : Session}
  {answer : Except DocsError WorkflowResult} {found : Resolution} {report : UpdateReport}

theorem docUpdates_resolved (config : Config) (branch : ReleaseBranch) (s : Session)
    (found : Resolution) : (resolved config branch s found).docUpdates = s.docUpdates := by
  simp [resolved, List.filterMap_map, Function.comp_def, Notice.docUpdate?]

theorem docUpdates_refreshed (config : Config) (branch : ReleaseBranch) (s : Session)
    (found : Resolution) (report : UpdateReport) (tree : FileTree) :
    (refreshed config branch s found report tree).docUpdates = s.docUpdates ++ report.updates := by
  simp [refreshed, docUpdates_resolved, List.filterMap_map, Function.comp_def, Notice.docUpdate?]

/-- A run comes to the documents and changes one of them, but cannot update a later one. -/
def StopsHalfway (config : Config) (name : String) (s : Session) : Prop :=
  ¬ StopsBeforeDocs config name s ∧ ∃ found, resolutionOf config name s = .ok found ∧
    (ofRelease found.release config.catalog).StopsHalfway s.tree found.release.docFiles

/-- What a run has told about documents, and what it has changed. -/
structure TellsChanges (config : Config) (name : String) (s after : Session)
    (told : List DocUpdate) : Prop where
  notices : after.docUpdates = s.docUpdates ++ told
  shown : ∀ update ∈ told, update.changed = true →
    after.Shows .output ("✓ Updated " ++ update.path.text)
  changed : ∀ update ∈ told, update.changed = true →
    ∃ location ∈ s.tree.changes after.tree, s.tree.locate update.path = .ok location
  complete : (∀ location ∈ s.tree.changes after.tree, ∃ update ∈ told, update.changed = true ∧
    s.tree.locate update.path = .ok location) ↔ ¬ StopsHalfway config name s
  silent : StopsHalfway config name s → told = []

theorem docUpdates_of_ending (h : Ending config branch s answer after) :
    (after.tree = s.tree ∧ after.docUpdates = s.docUpdates ∧
      ((∃ e, resolution config branch s = .error e) ∨ s.repository.nextClean = false ∨
        ∃ call ∈ preparation config branch.name, s.repository.Fails call)) ∨
    ∃ found, resolution config branch s = .ok found ∧ s.repository.nextClean = true ∧
      (∀ call ∈ preparation config branch.name, ¬ s.repository.Fails call) ∧
      ((∃ e, found.release.updateDocs config.catalog s.tree = (.error e, after.tree) ∧
          after.docUpdates = s.docUpdates) ∨
        ∃ report, found.release.updateDocs config.catalog s.tree = (.ok report, after.tree) ∧
          after.docUpdates = s.docUpdates ++ report.updates) := by
  cases h with
  | unprepared interrupts clean =>
    obtain ⟨later, hsplit⟩ := interrupts.split
    refine Or.inl ⟨s.tree_performAll _, by simp, Or.inr (Or.inr ⟨_, ?_, interrupts.fails⟩)⟩
    simp [hsplit]
  | dirty status dirty =>
    exact Or.inl ⟨rfl, s.docUpdates_performAll [.status], Or.inr (Or.inl dirty)⟩
  | unresolved calls clean fault =>
    exact Or.inl ⟨s.tree_performAll _, s.docUpdates_performAll _, Or.inl ⟨_, fault⟩⟩
  | unreadable calls clean resolves fault =>
    exact Or.inr ⟨_, resolves, clean, calls,
      Or.inl ⟨_, fault, docUpdates_resolved config branch s _⟩⟩
  | unchanged refreshes same =>
    obtain ⟨calls, clean, resolves, updates⟩ := refreshes
    exact Or.inr ⟨_, resolves, clean, calls,
      Or.inr ⟨_, updates, docUpdates_refreshed config branch s _ _ _⟩⟩
  | @stillClean _ _ tree refreshes changes clean =>
    obtain ⟨calls, clean, resolves, updates⟩ := refreshes
    refine Or.inr ⟨_, resolves, clean, calls, Or.inr ⟨_, updates, ?_⟩⟩
    exact (Session.docUpdates_performAll _ [.status]).trans
      (docUpdates_refreshed config branch s _ _ tree)
  | @unpublished _ report _ _ _ refreshes changes dirty interrupts =>
    obtain ⟨calls, clean, resolves, updates⟩ := refreshes
    refine Or.inr ⟨_, resolves, clean, calls, Or.inr ⟨report, ?_, ?_⟩⟩
    · rw [updates, Session.tree_attempt, Session.tree_performAll]
      rfl
    · rw [Session.docUpdates_attempt, Session.docUpdates_performAll, docUpdates_refreshed]
  | @published _ report _ refreshes changes dirty published =>
    obtain ⟨calls, clean, resolves, updates⟩ := refreshes
    refine Or.inr ⟨_, resolves, clean, calls, Or.inr ⟨report, ?_, ?_⟩⟩
    · rw [updates, Session.tree_saying, Session.tree_performAll]
      rfl
    · simp [docUpdates_refreshed, List.filterMap_map, Function.comp_def, Notice.docUpdate?]

theorem tellsChanges_of_tree_eq (hstops : StopsBeforeDocs config name s)
    (htree : after.tree = s.tree) (hupdates : after.docUpdates = s.docUpdates) :
    TellsChanges config name s after [] where
  notices := by rw [hupdates, List.append_nil]
  shown := nofun
  changed := nofun
  complete := by
    refine iff_of_true (fun location hlocation => ?_) fun hhalfway => hhalfway.1 hstops
    exact absurd (by rw [htree]) hlocation
  silent _ := rfl

theorem stopsHalfway_iff_of_resolutionOf (hruns : ¬ StopsBeforeDocs config name s)
    (hresolves : resolutionOf config name s = .ok found) :
    StopsHalfway config name s ↔
      (ofRelease found.release config.catalog).StopsHalfway s.tree found.release.docFiles := by
  simp [StopsHalfway, hruns, hresolves]

section Resolves

variable (hruns : ¬ StopsBeforeDocs config name s)
  (hresolves : resolutionOf config name s = .ok found)
  (hapart : s.tree.Apart found.release.docFiles)
include hruns hresolves hapart

theorem tellsChanges_of_updateDocs_eq_error {e : DocsError}
    (hdocs : found.release.updateDocs config.catalog s.tree = (.error e, after.tree))
    (hupdates : after.docUpdates = s.docUpdates) : TellsChanges config name s after [] where
  notices := by rw [hupdates, List.append_nil]
  shown := nofun
  changed := nofun
  complete := by
    rw [stopsHalfway_iff_of_resolutionOf hruns hresolves, RefreshRules.stopsHalfway_iff hapart,
      Release.updateDocs_eq_error hdocs]
    simp [Set.not_nonempty_iff_eq_empty, Set.eq_empty_iff_forall_notMem]
  silent _ := rfl

theorem tellsChanges_of_updateDocs_eq_ok
    (hdocs : found.release.updateDocs config.catalog s.tree = (.ok report, after.tree))
    (hupdates : after.docUpdates = s.docUpdates ++ report.updates) :
    TellsChanges config name s after report.updates := by
  replace hdocs := Release.updateDocs_eq_ok hdocs
  have hreadable := readable_of_updateDocs hapart hdocs
  have hchanges (location : Location) : location ∈ s.tree.changes after.tree ↔ _ :=
    (passFrame_of_updateDocs hapart hdocs).mem_changes_iff hreadable
  have hreport := updates_of_updateDocs hapart hdocs
  have hwhole : ¬ StopsHalfway config name s := by
    rw [stopsHalfway_iff_of_resolutionOf hruns hresolves, RefreshRules.stopsHalfway_iff hapart,
      hdocs]
    simp
  refine ⟨hupdates, fun update hupdate => ?_, fun update hupdate hchanged => ?_,
    iff_of_true (fun location hlocation => ?_) hwhole, fun hhalfway => absurd hhalfway hwhole⟩
  · exact Session.shows_of_mem_docUpdates (hupdates ▸ List.mem_append_right _ hupdate)
  · rw [hreport] at hupdate
    obtain ⟨path, hpath, rfl⟩ := List.mem_map.mp hupdate
    obtain ⟨content, hread⟩ := hreadable path hpath
    obtain ⟨location, hlocate, -⟩ := FileTree.readBytes_eq_ok_iff.mp hread
    exact ⟨location, (hchanges location).mpr ⟨path, hpath, hlocate, hchanged⟩, hlocate⟩
  · obtain ⟨path, hpath, hlocate, houtdated⟩ := (hchanges location).mp hlocation
    refine ⟨⟨path, _⟩, ?_, houtdated, hlocate⟩
    rw [hreport]
    exact List.mem_map_of_mem hpath

end Resolves

/-- A run tells of every document that it changes, and of no other one that it is updated, unless it
stops halfway: then it tells nothing of what it has changed. -/
theorem exists_tellsChanges_run (config : Config) (name : String) (s : Session)
    (hapart : ∀ found, resolutionOf config name s = .ok found →
      s.tree.Apart found.release.docFiles) :
    ∃ told, TellsChanges config name s ((run config name).run.run s).2 told := by
  cases hparse : ReleaseBranch.parse name with
  | error e =>
    have hstops : StopsBeforeDocs config name s := Or.inl ⟨e, by rw [resolutionOf, hparse]; rfl⟩
    rw [run, hparse, run_bind_of_error (run_ofExcept (.error e) s)]
    exact ⟨[], tellsChanges_of_tree_eq hstops rfl rfl⟩
  | ok branch =>
    have hresolution := resolutionOf_of_parse config s hparse
    rw [run_of_parse config s hparse]
    obtain rfl := ReleaseBranch.name_of_parse hparse
    rcases docUpdates_of_ending (ending_runBranch config branch s) with
      ⟨htree, hupdates, hstops⟩ | ⟨found, hfound, hclean, hcalls, hdocs⟩
    · rw [← hresolution] at hstops
      exact ⟨[], tellsChanges_of_tree_eq hstops htree hupdates⟩
    · have hresolves := hresolution.trans hfound
      have hruns := not_stopsBeforeDocs hresolves hclean hcalls
      rcases hdocs with ⟨e, hdocs, hupdates⟩ | ⟨report, hdocs, hupdates⟩
      · exact ⟨_, tellsChanges_of_updateDocs_eq_error hruns hresolves (hapart found hresolves)
          hdocs hupdates⟩
      · exact ⟨_, tellsChanges_of_updateDocs_eq_ok hruns hresolves (hapart found hresolves)
          hdocs hupdates⟩

def undocumentedSession : Session where
  tree := Release.undocumentedCatalog
  repository := { root := ⟨"/"⟩, tags := ["go/fn/v1.0.3"], cleanStates := [true, false] }

theorem discover_undocumentedCatalog :
    FunctionLocation.discover Release.undocumentedCatalog ⟨"/"⟩ "go" "fn" =
      .ok ⟨.core, ⟨"/functions/go/fn"⟩, [⟨"fn-simple", ⟨"/examples/fn-simple"⟩⟩]⟩ := by
  have hlocate : FunctionLocation.locate Release.undocumentedCatalog ⟨"/"⟩ "go" "fn" =
      .ok (.core, ⟨"/functions/go/fn"⟩) := by decide +kernel
  have hpath : (Path.mk "/functions/go/fn").join Metadata.fileName =
      ⟨"/functions/go/fn/metadata.yaml"⟩ := by decide +kernel
  have htext : Release.undocumentedCatalog.readText ⟨"/functions/go/fn/metadata.yaml"⟩ =
      .ok "examplePackageURLs:\n- a/fn-simple\n" := by decide +kernel
  have hload : Metadata.load Release.undocumentedCatalog ⟨"/functions/go/fn"⟩ =
      .ok ⟨["a/fn-simple"]⟩ := by
    simp only [Metadata.load, hpath, htext]
    exact Resolution.parse_fnSimple _
  have hfind : FunctionLocation.findExamples Release.undocumentedCatalog
      (Area.core.examplesRoot ⟨"/"⟩) (Metadata.exampleNames ⟨["a/fn-simple"]⟩) =
        .ok [⟨"fn-simple", ⟨"/examples/fn-simple"⟩⟩] := by decide +kernel
  exact FunctionLocation.discover_eq_ok_iff.mpr ⟨_, hlocate, hload, hfind⟩

theorem resolutionOf_undocumentedSession : resolutionOf {} "fn/v1.0" undocumentedSession =
    .ok ⟨Release.undocumentedRelease, []⟩ := by
  have hparse : ReleaseBranch.parse "fn/v1.0" = .ok ⟨"fn/v1.0", "fn", ⟨1, 0⟩⟩ := by
    decide +kernel
  have hselect : LatestPatch.select ["go", "ts"] ⟨"fn/v1.0", "fn", ⟨1, 0⟩⟩ ["go/fn/v1.0.3"] =
      .ok ⟨⟨"go/fn/v1.0.3", "go", "fn", "v1.0.3"⟩, ⟨1, 0, 3⟩, []⟩ := by decide +kernel
  rw [resolutionOf_of_parse {} undocumentedSession hparse]
  exact Resolution.ofTags_eq_ok_iff.mpr ⟨_, _, hselect, discover_undocumentedCatalog, rfl⟩

theorem docUpdates_run_undocumented :
    ((run {} "fn/v1.0").run.run undocumentedSession).2.docUpdates = [] ∧
      (undocumentedSession.tree.changes
        ((run {} "fn/v1.0").run.run undocumentedSession).2.tree).Nonempty := by
  have hupdatable : (ofRelease Release.undocumentedRelease {}).Updatable undocumentedSession.tree
      ⟨"/functions/go/fn/README.md"⟩ := by
    refine ⟨utf8Bytes "fn:v1.0.2", ?_, fun _ => ⟨_, FileTree.writeBytes_eq_ok_iff.mpr
      ⟨["functions", "go", "fn", "README.md"], utf8Bytes "fn:v1.0.2", ?_, ?_, ?_, rfl⟩⟩⟩ <;>
      decide +kernel
  have hhalfway : StopsHalfway {} "fn/v1.0" undocumentedSession := by
    refine ⟨not_stopsBeforeDocs resolutionOf_undocumentedSession rfl (by decide), _,
      resolutionOf_undocumentedSession, [⟨"/functions/go/fn/README.md"⟩],
      ⟨"/examples/fn-simple/README.md"⟩, [], .missing, Release.docFiles_undocumentedRelease,
      List.forall_mem_singleton.mpr hupdatable, .unreadable (by decide +kernel), _,
      List.mem_cons_self, by decide +kernel⟩
  obtain ⟨told, htells⟩ := exists_tellsChanges_run {} "fn/v1.0" undocumentedSession
    fun found hfound => by
      obtain rfl := Except.ok.inj (resolutionOf_undocumentedSession.symm.trans hfound)
      exact Release.apart_undocumentedRelease
  refine ⟨by rw [htells.notices, htells.silent hhalfway]; rfl, ?_⟩
  by_contra hnone
  exact htells.complete.mp (fun location hlocation => absurd ⟨location, hlocation⟩ hnone) hhalfway

end Workflow

end ReleaseDocs
