import ReleaseDocs.Proofs.LineByLine
import ReleaseDocs.Proofs.Overwrite

namespace ReleaseDocs

/-- A byte that every release leaves in a document, a token in whose place a release writes its
version, or a place for its pin. -/
inductive Slot where
  | byte (byte : UInt8)
  | patch (token : Bytes)
  | minor (token : Bytes)
  | pin
deriving DecidableEq, Repr

namespace Slot

/-- What the document has there. -/
def source : Slot → Bytes
  | byte b => [b]
  | patch token => token
  | minor token => token
  | pin => []

/-- What a release writes there. -/
def write (rules : RefreshRules) : Slot → Bytes
  | byte b => [b]
  | patch _ => rules.patch
  | minor _ => rules.minor
  | pin => rules.pin

theorem flatMap_source_byte (bytes : Bytes) : (bytes.map byte).flatMap source = bytes := by
  simp [List.flatMap_map, source]

theorem flatMap_write_byte (rules : RefreshRules) (bytes : Bytes) :
    (bytes.map byte).flatMap (write rules) = bytes := by
  simp [List.flatMap_map, write]

def ofReference (rules : RefreshRules) (before : Bytes) (reference : TagReference) : Slot :=
  if rules.InLink before reference then minor reference.token else patch reference.token

theorem source_ofReference (rules : RefreshRules) (before : Bytes) (reference : TagReference) :
    (ofReference rules before reference).source = reference.token := by
  unfold ofReference
  split <;> rfl

end Slot

open VersionToken TagReference CatalogLink PackageReference

namespace RefreshRules

section OnSite

variable {rules other : RefreshRules} {f site : List Char} (h : rules.OnSite f site)
  (hother : other.OnSite f site)
include h

include hother in
theorem write_ofReference (before : Bytes) (reference : TagReference) :
    (Slot.ofReference rules before reference).write other = other.target before reference := by
  unfold Slot.ofReference target
  simp only [inLink_iff h, inLink_iff hother]
  split <;> rfl

/-- The first two rules of all releases on a site write into the same places of a document. -/
theorem exists_slots_refreshVersions {text : Bytes} (htext : rules.Delimited text) :
    ∃ slots : List Slot, slots.flatMap Slot.source = text ∧
      ∀ other : RefreshRules, other.OnSite f site →
        other.refreshVersions text = slots.flatMap (Slot.write other) := by
  induction text using TagReference.tag_induction rules.function with
  | skip text hskips =>
    refine ⟨text.map .byte, Slot.flatMap_source_byte text, fun other hother => ?_⟩
    rw [h.function, ← hother.function] at hskips
    rw [Slot.flatMap_write_byte, refreshVersions_of_skips hother hskips]
  | find skipped separator cs rest hseparator hreads hskips ih =>
    obtain ⟨⟨hnumber, -⟩, hrest⟩ := (delimited_append hseparator hreads hskips).mp htext
    obtain ⟨slots, hsource, hwrite⟩ := ih hrest
    refine ⟨(skipped ++ (rules.function ++ [separator])).map .byte ++
      Slot.ofReference rules skipped ⟨separator, encode cs⟩ :: slots, ?_, fun other hother => ?_⟩
    · rw [List.flatMap_append, List.flatMap_cons, Slot.flatMap_source_byte, hsource,
        Slot.source_ofReference]
      simp
    · have hfunction : rules.function = other.function := h.function.trans hother.function.symm
      rw [List.flatMap_append, List.flatMap_cons, Slot.flatMap_write_byte,
        write_ofReference h hother, ← hwrite other hother]
      rw [hfunction] at hskips ⊢
      rw [refreshVersions_append_of_number? hother hseparator hreads hskips hnumber]
      simp

theorem Delimited.of_append_blank {c : Char} (hc : isBlank c = true) {front rest : Bytes}
    (htext : rules.Delimited (front ++ (String.utf8EncodeChar c ++ rest))) :
    rules.Delimited front ∧ rules.Delimited rest := by
  have hcuts := TagReference.cuts_stop h.name (Or.inl hc) rest
  rw [← h.function] at hcuts
  constructor
  · intro before reference after hfinds
    obtain ⟨hnumber, hpoint⟩ := htext _ _ _ (hcuts.finds_front hfinds)
    rw [number?_eq_none_iff_not_startsWith] at hnumber ⊢
    rw [pointNumber?_eq_none_iff] at hpoint ⊢
    refine ⟨fun hstart => hnumber (hstart.append _), fun d hd hpoint' => hpoint d hd ?_⟩
    exact hpoint'.trans (List.prefix_append _ _)
  · intro before reference after hfinds
    exact htext _ _ _ (hcuts.finds_back front hfinds)

end OnSite

end RefreshRules

end ReleaseDocs
