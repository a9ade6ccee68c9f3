import ReleaseDocs.Proofs.QuotedText
import ReleaseDocs.Proofs.UpdateNotices

/-!
Every call of the repository is announced, in order.

What can be seen of a run are the lines it prints and the calls it makes. Leaving out the lines that
announce nothing, each call stands right behind its own line, and there is nothing else. The law is
kept by the steps of a run and by putting them one after the other, so it does not matter where a
run ends.
-/

namespace ReleaseDocs

namespace Call

def line : Call → String
  | fetch remote => "git fetch " ++ (remote ++ " --tags")
  | checkout revision => "git checkout " ++ revision
  | tag => "git tag"
  | status => "→ Checking working tree is clean"
  | add => "git add -u"
  | commit message => "git commit -m " ++ quoted message
  | head => "git show"

theorem channel_announcement (call : Call) : call.announcement.channel = .output := by
  cases call <;> rfl

theorem text_announcement (call : Call) : call.announcement.text = call.line ++ "\n" := by
  cases call with
  | fetch remote => exact congrArg (· ++ "\n") (String.append_assoc ..)
  | _ => rfl

/-- The first characters of a text, enough to tell the announcements apart. -/
def opening (text : String) : List Char :=
  text.toList.take 6

theorem opening_append {front : String} (h : 6 ≤ front.toList.length) (back : String) :
    opening (front ++ back) = opening front := by
  rw [opening, opening, String.toList_append, List.take_append_of_le_length h]

def openingOf : Operation → List Char
  | .fetch => "git fe".toList
  | .checkout => "git ch".toList
  | .tag => "git ta".toList
  | .status => "→ Chec".toList
  | .add => "git ad".toList
  | .commit => "git co".toList
  | .head => "git sh".toList

theorem opening_line (call : Call) : opening call.line = openingOf call.operation := by
  cases call with
  | fetch remote => exact opening_append (by decide) _
  | checkout revision => exact opening_append (by decide) _
  | commit message => exact opening_append (by decide) _
  | _ => decide

theorem opening_line_append (call : Call) (back : String) :
    opening (call.line ++ back) = openingOf call.operation := by
  have hlength := congrArg List.length (opening_line call)
  have hsix : (openingOf call.operation).length = 6 := by cases call.operation <;> rfl
  rw [hsix, opening, List.length_take] at hlength
  rw [opening_append (by omega), opening_line]

theorem line_injective {call other : Call} (h : call.line = other.line) : call = other := by
  have hoperation : call.operation = other.operation := by
    have hopening := congrArg opening h
    rw [opening_line, opening_line] at hopening
    revert hopening
    generalize call.operation = a
    generalize other.operation = b
    cases a <;> cases b <;> decide
  cases call <;> cases other <;> cases hoperation
  case fetch.fetch =>
    rw [line, line, String.append_right_inj, String.append_left_inj] at h
    rw [h]
  case checkout.checkout =>
    rw [line, line, String.append_right_inj] at h
    rw [h]
  case commit.commit =>
    rw [line, line, String.append_right_inj] at h
    rw [quoted_injective h]
  all_goals rfl

end Call

/-- What can be seen of a run. -/
inductive Sight where
  | line (text : String)
  | call (call : Call)

open scoped Classical in
/-- A call, or the announcement of one on the output. -/
noncomputable def Event.sight? : Event → Option Sight
  | said notice =>
      if notice.channel = .output ∧ ∃ call : Call, notice.text = call.line ++ "\n" then
        some (.line notice.text)
      else none
  | called call => some (.call call)

namespace Event

theorem sight?_announcement (call : Call) :
    sight? (.said call.announcement) = some (.line (call.line ++ "\n")) := by
  have htext := call.text_announcement
  rw [sight?, if_pos ⟨call.channel_announcement, call, htext⟩, htext]

theorem exists_said_of_sight? {event : Event} {text : String}
    (h : event.sight? = some (.line text)) :
    ∃ notice : Notice, event = .said notice ∧ notice.channel = .output ∧ notice.text = text := by
  cases event with
  | called call => cases h
  | said notice =>
    rw [sight?, Option.ite_none_right_eq_some] at h
    obtain ⟨⟨hchannel, -⟩, htext⟩ := h
    cases htext
    exact ⟨notice, rfl, hchannel, rfl⟩

theorem sight?_said_of_opening {notice : Notice}
    (h : ∀ operation, Call.opening notice.text ≠ Call.openingOf operation) :
    sight? (.said notice) = none := by
  refine if_neg ?_
  rintro ⟨-, call, htext⟩
  rw [htext] at h
  exact h call.operation (call.opening_line_append "\n")

theorem sight?_warning (warning : Warning) : sight? (.said (.warning warning)) = none := by
  rw [sight?, if_neg]
  rintro ⟨hchannel, -⟩
  cases hchannel

theorem sight?_release (release : Release) : sight? (.said (.release release)) = none := by
  have hopening : Call.opening (Notice.release release).text = "\nResol".toList :=
    Call.opening_append (by decide) _
  refine sight?_said_of_opening fun operation => ?_
  rw [hopening]
  cases operation <;> decide

theorem sight?_docUpdate (update : DocUpdate) : sight? (.said (.docUpdate update)) = none := by
  refine sight?_said_of_opening fun operation => ?_
  cases hchanged : update.changed with
  | true =>
    have htext : (Notice.docUpdate update).text = "✓ Updated " ++ update.path.text ++ "\n" :=
      if_pos hchanged
    rw [htext, String.append_assoc, Call.opening_append (by decide)]
    cases operation <;> decide
  | false =>
    have htext : (Notice.docUpdate update).text = "→ Unchanged " ++ update.path.text ++ "\n" :=
      if_neg (by simp [hchanged])
    rw [htext, String.append_assoc, Call.opening_append (by decide)]
    cases operation <;> decide

theorem sight?_commit (commit : Commit) : sight? (.said (.commit commit)) = none := by
  obtain ⟨rest, htext⟩ : ∃ rest, (Notice.commit commit).text = "\n" ++ ("commit " ++ rest) := by
    refine ⟨?rest, ?text⟩
    case text =>
      change "\n" ++ commit.summary ++ "\n" = _
      simp only [Commit.summary, String.append_assoc]
      rfl
  refine sight?_said_of_opening fun operation => ?_
  rw [htext, ← String.append_assoc, Call.opening_append (by decide)]
  cases operation <;> decide

end Event

/-- From one session to another a run has said and called `told`, and the calls among them, each
with its announcement before it, are the new calls of the repository. -/
structure Session.Announces (s after : Session) (told : List Event) (trace : List Call) : Prop where
  events : after.events = s.events ++ told
  recorded : after.repository.calls = s.repository.calls ++ trace
  seen : told.filterMap Event.sight? =
    trace.flatMap fun call => [.line (call.line ++ "\n"), .call call]

namespace Session.Announces

variable {s t u : Session} {told more : List Event} {trace calls : List Call}

theorem refl (s : Session) : s.Announces s [] [] :=
  ⟨(List.append_nil _).symm, (List.append_nil _).symm, rfl⟩

theorem trans (h : s.Announces t told trace) (h' : t.Announces u more calls) :
    s.Announces u (told ++ more) (trace ++ calls) := by
  refine ⟨?_, ?_, ?_⟩
  · rw [h'.events, h.events, List.append_assoc]
  · rw [h'.recorded, h.recorded, List.append_assoc]
  · rw [List.filterMap_append, h.seen, h'.seen, List.flatMap_append]

theorem shows (h : s.Announces t told trace) {call : Call} (hcall : call ∈ trace) :
    t.Shows .output call.line := by
  have hseen : .line (call.line ++ "\n") ∈ told.filterMap Event.sight? := by
    rw [h.seen]
    exact List.mem_flatMap.mpr ⟨call, hcall, List.mem_cons_self⟩
  obtain ⟨event, hevent, hsight⟩ := List.mem_filterMap.mp hseen
  obtain ⟨notice, rfl, hchannel, htext⟩ := Event.exists_said_of_sight? hsight
  rw [← hchannel]
  refine shows_of_said_mem ?_ htext
  rw [h.events]
  exact List.mem_append_right _ hevent

theorem printed (h : s.Announces t told trace) (channel : Channel) :
    t.printed channel =
      s.printed channel ++ String.join (told.map (Event.textOn channel)) := by
  rw [Session.printed, h.events, List.map_append, String.join_append]
  rfl

end Session.Announces

namespace Run

variable {α β : Type}

def AnnouncesCalls (x : Run α) : Prop :=
  ∀ s : Session, ∃ told trace, s.Announces (x.run.run s).2 told trace

namespace AnnouncesCalls

theorem of_unchanged {x : Run α} (h : ∀ s, (x.run.run s).2 = s) : AnnouncesCalls x := by
  intro s
  rw [h s]
  exact ⟨[], [], .refl s⟩

theorem sayAll {notices : List Notice}
    (h : ∀ notice ∈ notices, Event.sight? (.said notice) = none) :
    AnnouncesCalls (sayAll notices) := by
  intro s
  rw [run_sayAll]
  refine ⟨notices.map .said, [], rfl, (List.append_nil _).symm, ?_⟩
  rw [List.filterMap_map, List.flatMap_nil, List.filterMap_eq_nil_iff]
  exact h

theorem say {notice : Notice} (h : Event.sight? (.said notice) = none) :
    AnnouncesCalls (say notice) :=
  sayAll (List.forall_mem_singleton.mpr h)

theorem updateDocs (release : Release) (catalog : CatalogConfig) :
    AnnouncesCalls (updateDocs release catalog) := by
  intro s
  rw [run_updateDocs]
  exact ⟨[], [], (List.append_nil _).symm, (List.append_nil _).symm, rfl⟩

theorem announce {call : Call} {action : Repository.Action α}
    (h : ∀ r, (action r).2.calls = r.calls ++ [call]) :
    AnnouncesCalls (announce call action) := by
  intro s
  rw [run_announce (h s.repository)]
  refine ⟨[.said call.announcement, .called call], [call], rfl, h s.repository, ?_⟩
  rw [List.filterMap_cons, Event.sight?_announcement]
  rfl

theorem bind {x : Run α} {f : α → Run β} (hx : AnnouncesCalls x)
    (hf : ∀ a, AnnouncesCalls (f a)) : AnnouncesCalls (x >>= f) := by
  intro s
  obtain ⟨told, trace, hannounces⟩ := hx s
  rw [run_bind]
  rcases hrun : x.run.run s with ⟨e | a, t⟩
  · rw [hrun] at hannounces
    exact ⟨told, trace, hannounces⟩
  · rw [hrun] at hannounces
    obtain ⟨more, calls, hmore⟩ := hf a t
    exact ⟨told ++ more, trace ++ calls, hannounces.trans hmore⟩

theorem ite {p : Prop} [Decidable p] {x y : Run α} (hx : AnnouncesCalls x)
    (hy : AnnouncesCalls y) : AnnouncesCalls (if p then x else y) := by
  split
  · exact hx
  · exact hy

end AnnouncesCalls

end Run

namespace Repository

variable {α : Type} {call : Call}

theorem calls_record (answer : Action α) (h : ∀ r, (answer r).2.calls = r.calls)
    (r : Repository) : (record call answer r).2.calls = r.calls ++ [call] := by
  by_cases hfails : r.Fails call
  · rw [record_of_fails answer hfails]
    rfl
  · rw [record_of_not_fails answer hfails, h]
    rfl

theorem calls_isClean (r : Repository) : r.isClean.2.calls = r.calls ++ [.status] := by
  refine calls_record _ (fun r => ?_) r
  split <;> rfl

theorem calls_showHead (r : Repository) : r.showHead.2.calls = r.calls ++ [.head] := by
  refine calls_record _ (fun r => ?_) r
  split <;> rfl

theorem calls_ofBranch (tree : FileTree) (languages : List String) (branch : ReleaseBranch)
    (r : Repository) :
    (Resolution.ofBranch tree languages branch r).2.calls = r.calls ++ [.tag] :=
  calls_record (fun r => (.ok r.tags, r)) (fun _ => rfl) r

end Repository

namespace Workflow

open Run

theorem announcesCalls_checkOut (config : Config) (branch : ReleaseBranch) :
    AnnouncesCalls (checkOut config branch) := by
  have hcheckout : AnnouncesCalls (announce (.checkout branch.name)
      (Repository.checkout branch.name)) := .announce (Repository.calls_record _ fun _ => rfl)
  have hfetch : AnnouncesCalls (announce (.fetch config.remote)
      (Repository.fetchTags config.remote)) := .announce (Repository.calls_record _ fun _ => rfl)
  have hgo := AnnouncesCalls.ite (p := config.behavior.fetchTags = true)
    (hfetch.bind fun _ => hcheckout) hcheckout
  refine (AnnouncesCalls.announce Repository.calls_isClean).bind fun clean => ?_
  exact .ite (.bind (.of_unchanged fun _ => rfl) fun _ => hgo) hgo

theorem announcesCalls_resolve (config : Config) (branch : ReleaseBranch) :
    AnnouncesCalls (resolve config branch) := by
  refine .bind (.of_unchanged fun _ => rfl) fun s => ?_
  refine .bind (.announce (Repository.calls_ofBranch _ _ _)) fun resolution => ?_
  refine .bind (.sayAll ?_) fun _ => ?_
  · rintro notice hnotice
    obtain ⟨warning, -, rfl⟩ := List.mem_map.mp hnotice
    exact Event.sight?_warning warning
  · exact .bind (.say (Event.sight?_release _)) fun _ => .of_unchanged fun _ => rfl

theorem announcesCalls_refresh (config : Config) (release : Release) :
    AnnouncesCalls (refresh config release) := by
  refine .bind (.updateDocs _ _) fun report => .bind (.sayAll ?_) fun _ => ?_
  · rintro notice hnotice
    obtain ⟨update, -, rfl⟩ := List.mem_map.mp hnotice
    exact Event.sight?_docUpdate update
  · have hcheck : AnnouncesCalls (do
        let clean ← announce .status Repository.isClean
        if clean then
          throw (.docsUpToDate release.qualifiedName)
        return report) := by
      refine (AnnouncesCalls.announce Repository.calls_isClean).bind fun clean => ?_
      exact .ite (.bind (.of_unchanged fun _ => rfl) fun _ => .of_unchanged fun _ => rfl)
        (.of_unchanged fun _ => rfl)
    exact .ite (.bind (.of_unchanged fun _ => rfl) fun _ => hcheck) hcheck

theorem announcesCalls_publish (config : Config) (release : Release) :
    AnnouncesCalls (publish config release) := by
  refine .bind (.announce (Repository.calls_record _ fun _ => rfl)) fun _ => ?_
  refine .bind (.announce (Repository.calls_record _ fun _ => rfl)) fun hash => ?_
  refine .ite ?_ (.of_unchanged fun _ => rfl)
  refine (AnnouncesCalls.announce Repository.calls_showHead).bind fun commit => ?_
  exact .bind (.say (Event.sight?_commit commit)) fun _ => .of_unchanged fun _ => rfl

theorem announcesCalls_run (config : Config) (name : String) :
    AnnouncesCalls (run config name) := by
  refine .bind (.of_unchanged fun s => by rw [run_ofExcept]) fun branch => ?_
  refine (announcesCalls_checkOut config branch).bind fun _ => ?_
  refine (announcesCalls_resolve config branch).bind fun release => ?_
  refine (announcesCalls_refresh config release).bind fun report => ?_
  exact (announcesCalls_publish config release).bind fun _ => .of_unchanged fun _ => rfl

/-- The run has printed a line in front of each of its calls and no such line otherwise, and the
line tells which call it was. -/
structure PrintsCalls (s after : Session) (told : List Event) (trace : List Call) : Prop
    extends s.Announces after told trace where
  printed : after.printed .output =
    s.printed .output ++ String.join (told.map (Event.textOn .output))
  shown : ∀ call ∈ trace, after.Shows .output call.line
  determined : ∀ call ∈ trace, ∀ other : Call, other.line = call.line → other = call

/-- However a run ends, its calls are those that it has announced, in this order, each of them
directly behind its announcement. -/
theorem exists_printsCalls_run (config : Config) (name : String) (s : Session) :
    ∃ told trace, PrintsCalls s ((run config name).run.run s).2 told trace := by
  obtain ⟨told, trace, hannounces⟩ := announcesCalls_run config name s
  exact ⟨told, trace, hannounces, hannounces.printed .output, fun _ => hannounces.shows,
    fun _ _ _ => Call.line_injective⟩

end Workflow

end ReleaseDocs
