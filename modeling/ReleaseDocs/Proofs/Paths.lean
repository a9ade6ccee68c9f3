import Mathlib.Data.List.Basic
import ReleaseDocs.FileTree

namespace ReleaseDocs

namespace Path

/-- The text is that of a path that neither starts nor ends with a slash. -/
structure IsInner (text : String) : Prop where
  nonempty : text ≠ ""
  head : text.toList.head? ≠ some '/'
  last : text.toList.getLast? ≠ some '/'

/-- What a path puts in front of a relative path that is joined to it. -/
def lead (base : Path) : String :=
  if base.text.isEmpty || base.text.toList.getLast? == some '/' then base.text
  else base.text ++ "/"

theorem lead_eq_empty_or (base : Path) :
    base.lead = "" ∨ ∃ front, base.lead.toList = front ++ ['/'] := by
  unfold lead
  split
  · rename_i h
    rcases Bool.or_eq_true_iff.mp h with hempty | hlast
    · exact Or.inl (String.isEmpty_iff.mp hempty)
    · exact Or.inr (List.getLast?_eq_some_iff.mp (beq_iff_eq.mp hlast))
  · exact Or.inr ⟨base.text.toList, by simp⟩

theorem join_of_relative (base : Path) {child : String} (h : child.toList.head? ≠ some '/') :
    base.join child = ⟨base.lead ++ child⟩ := by
  have hrelative : isAbsolute ⟨child⟩ = false := by simpa [isAbsolute] using h
  unfold join lead
  rw [hrelative]
  split
  · contradiction
  · split <;> rfl

theorem lead_append {text inner : String} (h : IsInner inner) :
    lead ⟨text ++ inner⟩ = text ++ inner ++ "/" := by
  have hne : inner.toList ≠ [] := by simpa using h.nonempty
  have hlast : (text ++ inner).toList.getLast? ≠ some '/' := by
    rw [String.toList_append, List.getLast?_append_of_ne_nil _ hne]
    exact h.last
  have hnonempty : (text ++ inner).isEmpty = false := by
    simp [h.nonempty]
  rw [lead, if_neg]
  simpa [hnonempty] using hlast

theorem join_join (base : Path) {inner child : String} (hinner : IsInner inner)
    (hchild : child.toList.head? ≠ some '/') :
    (base.join inner).join child = base.join (inner ++ "/" ++ child) := by
  have hhead : (inner ++ "/" ++ child).toList.head? ≠ some '/' := by
    obtain ⟨c, cs, hcs⟩ := List.exists_cons_of_ne_nil
      (show inner.toList ≠ [] by simpa using hinner.nonempty)
    have hc := hinner.head
    rw [hcs] at hc
    simpa [hcs] using hc
  rw [base.join_of_relative hinner.head, base.join_of_relative hhead,
    join_of_relative _ hchild, lead_append hinner]
  simp [String.append_assoc]

theorem isInner_append {inner segment : String} (hinner : IsInner inner) (hne : segment ≠ "")
    (hsegment : '/' ∉ segment.toList) : IsInner (inner ++ "/" ++ segment) := by
  have hne' : segment.toList ≠ [] := by simpa using hne
  obtain ⟨c, cs, hcs⟩ := List.exists_cons_of_ne_nil
    (show inner.toList ≠ [] by simpa using hinner.nonempty)
  refine ⟨by simp [hne], ?_, ?_⟩
  · have hc := hinner.head
    rw [hcs] at hc
    simpa [hcs] using hc
  · rw [String.toList_append, List.getLast?_append_of_ne_nil _ hne']
    exact fun hlast => hsegment (List.mem_of_getLast? hlast)

theorem head_ne_slash {segment : String} (h : '/' ∉ segment.toList) :
    segment.toList.head? ≠ some '/' :=
  fun hhead => h (List.mem_of_head? hhead)

end Path

namespace FileTree

theorem exists_pathNames_join (base : Path) {name : String} (h : '/' ∉ name.toList) :
    ∃ front, pathNames (base.join name) = front ++ [name] := by
  have hname : fields '/' name.toList = [name.toList] := fields_of_not_mem h
  rw [base.join_of_relative (Path.head_ne_slash h)]
  unfold pathNames
  rw [String.toList_append]
  rcases base.lead_eq_empty_or with hempty | ⟨front, hfront⟩
  · exact ⟨[], by simp [hempty, hname]⟩
  · refine ⟨(fields '/' front).map String.ofList, ?_⟩
    rw [hfront, List.append_assoc, List.singleton_append, fields_append_separator, hname]
    simp

theorem walk_append (tree : FileTree) (location : Location) (front back : List String) :
    tree.walk location (front ++ back) =
      (tree.walk location front).bind fun place => tree.walk place back := by
  induction front generalizing location with
  | nil => rfl
  | cons name front ih =>
    simp only [List.cons_append, walk, ih]
    rcases tree.lookup? location with _ | _ | content
    · rfl
    · simp only
      split
      · rfl
      · split
        · rfl
        · cases tree.lookup? (location ++ [name]) <;> rfl
    · rfl

/-- The name is looked up like any other: it does not mean a place that is known. -/
def IsPlainName (name : String) : Prop :=
  name ≠ "" ∧ name ≠ "." ∧ name ≠ ".." ∧ '/' ∉ name.toList

theorem exists_locate_join {tree : FileTree} {base : Path} {name : String}
    (hname : IsPlainName name) {location : Location}
    (h : tree.locate (base.join name) = .ok location) : ∃ above, location = above ++ [name] := by
  obtain ⟨hne, hdot, hdots, hslash⟩ := hname
  obtain ⟨front, hfront⟩ := exists_pathNames_join base hslash
  unfold locate at h
  split at h
  · cases h
  · rw [hfront, walk_append] at h
    cases hwalk : tree.walk (if (base.join name).isAbsolute then [] else tree.working) front with
    | error fault => rw [hwalk] at h; cases h
    | ok place =>
      rw [hwalk] at h
      simp only [Except.bind, walk, hne, hdot, hdots, or_self, if_false] at h
      refine ⟨place, ?_⟩
      split at h
      · cases h
      · cases h
      · split at h
        · cases h
        · exact (Except.ok.inj h).symm

/-- Where a name leads from a directory: an empty one and `.` stay there, `..` leads to the one
above, and any other leads to what it names. -/
def enter (place : Location) (name : String) : Location :=
  if name = "" ∨ name = "." then place
  else if name = ".." then place.dropLast
  else place ++ [name]

theorem enter_of_isPlainName {name : String} (h : IsPlainName name) (place : Location) :
    enter place name = place ++ [name] := by
  obtain ⟨hne, hdot, hdots, -⟩ := h
  rw [enter, if_neg (by simp [hne, hdot]), if_neg hdots]

/-- Only a plain name leads to a child. -/
theorem exists_enter_eq_iff {place : Location} {name : String} (h : '/' ∉ name.toList) :
    (∃ child, enter place name = place ++ [child]) ↔ IsPlainName name := by
  constructor
  · rintro ⟨child, hchild⟩
    have hlength := congrArg List.length hchild
    simp only [List.length_append, List.length_singleton] at hlength
    refine ⟨?_, ?_, ?_, h⟩
    · rintro rfl
      simp [enter] at hlength
    · rintro rfl
      simp [enter] at hlength
    · rintro rfl
      simp [enter] at hlength
  · exact fun hplain => ⟨name, enter_of_isPlainName hplain place⟩

theorem eq_enter_of_walk {tree : FileTree} {place location : Location} {name : String}
    (h : tree.walk place [name] = .ok location) : location = enter place name := by
  unfold walk at h
  split at h
  · cases h
  · cases h
  · unfold enter
    split at h
    · rename_i hstays
      rw [if_pos hstays]
      exact (Except.ok.inj h).symm
    · rename_i hmoves
      rw [if_neg hmoves]
      split at h
      · rename_i hup
        rw [if_pos hup]
        exact (Except.ok.inj h).symm
      · rename_i hdown
        rw [if_neg hdown]
        split at h
        · cases h
        · exact (Except.ok.inj h).symm

/-- A slash at the end of a path asks for a directory, as every name behind it does. -/
theorem walk_empty_bind (tree : FileTree) (place : Location) (name : String) :
    ((tree.walk place [""]).bind fun place => tree.walk place [name]) =
      tree.walk place [name] := by
  rcases hplace : tree.lookup? place with _ | _ | content <;> simp [walk, hplace, Except.bind]

theorem pathNames_append_slash (front : List Char) (back : String) :
    pathNames ⟨String.ofList front ++ "/" ++ back⟩ =
      pathNames ⟨String.ofList front⟩ ++ pathNames ⟨back⟩ := by
  simp only [pathNames, String.toList_append, String.toList_ofList, ← List.map_append]
  rw [← fields_append_separator]
  simp

theorem locate_append (tree : FileTree) {base : Path} (hbase : base.text ≠ "") (more : String) :
    tree.locate ⟨base.text ++ more⟩ =
      tree.walk (if base.isAbsolute then [] else tree.working) (pathNames ⟨base.text ++ more⟩) := by
  have hne : base.text.toList ≠ [] := by simpa using hbase
  have habsolute : Path.isAbsolute ⟨base.text ++ more⟩ = base.isAbsolute := by
    simp [Path.isAbsolute, List.head?_append_of_ne_nil _ hne]
  have hempty : (base.text ++ more).isEmpty = false := by simp [hbase]
  simp only [locate, hempty, habsolute, Bool.false_eq_true, if_false]

theorem locate_join (tree : FileTree) {base : Path} {name : String} (hbase : base.text ≠ "")
    (hname : '/' ∉ name.toList) :
    tree.locate (base.join name) =
      (tree.locate base).bind fun place => tree.walk place [name] := by
  have hnames : pathNames ⟨name⟩ = [name] := by
    simp [pathNames, fields_of_not_mem hname]
  have hlocate := tree.locate_append hbase ""
  rw [String.append_empty] at hlocate
  rw [base.join_of_relative (Path.head_ne_slash hname), hlocate]
  by_cases hlast : base.text.toList.getLast? = some '/'
  · obtain ⟨front, hfront⟩ := List.getLast?_eq_some_iff.mp hlast
    have htext : base.text = String.ofList front ++ "/" := by
      rw [← String.toList_inj, hfront]
      simp
    have hlead : base.lead = base.text := by simp [Path.lead, hlast]
    have hbehind (back : String) : pathNames ⟨base.text ++ back⟩ =
        pathNames ⟨String.ofList front⟩ ++ pathNames ⟨back⟩ := by
      rw [htext, pathNames_append_slash]
    have hself := hbehind ""
    rw [String.append_empty] at hself
    rw [hlead, tree.locate_append hbase, hbehind, hself, hnames, walk_append, walk_append]
    cases tree.walk (if base.isAbsolute then [] else tree.working)
        (pathNames ⟨String.ofList front⟩) with
    | error fault => rfl
    | ok place => exact (tree.walk_empty_bind place name).symm
  · have hlead : base.lead = base.text ++ "/" := by simp [Path.lead, hbase, hlast]
    rw [hlead, String.append_assoc, tree.locate_append hbase, ← String.append_assoc]
    have hsplit := pathNames_append_slash base.text.toList name
    rw [String.ofList_toList, hnames] at hsplit
    rw [hsplit, walk_append]

end FileTree

end ReleaseDocs
