-- The entries of a source that a pass can come to: the listed ones and what
-- these refer to, however far.
import LayoutGraph.Source.Reach

namespace LayoutGraph.Source

/-- An entry is found under its own id too, by whatever id it was found. Every listing and every
image is coherent. -/
def Coherent (source : Source) : Prop :=
  ∀ id e, source.find? id = some e → source.find? e.id = some e

/-- A listed id, or an id that a reachable entry refers to. -/
inductive Reachable (source : Source) : EntryId → Prop
  | listed {id : EntryId} : id ∈ source.topLevel → Reachable source id
  | step {id target : EntryId} {e : Entry} : Reachable source id → source.find? id = some e →
    target ∈ e.references → Reachable source target

/-- An entry that is found under a reachable id. -/
def Reaches (source : Source) (e : Entry) : Prop :=
  ∃ id, source.Reachable id ∧ source.find? id = some e

theorem Reaches.reference {source : Source} {e : Entry} (h : source.Reaches e) {target : EntryId}
    (htarget : target ∈ e.references) : source.Reachable target := by
  obtain ⟨id, hid, hfind⟩ := h
  exact hid.step hfind htarget

/-- No reachable struct, union or enumeration waits for a name. -/
def Named (source : Source) : Prop := ∀ e, source.Reaches e → e.awaitsName = false

/-- Somewhere among the reachable entries a target is missing and stands for `void`. -/
def MeetsVoid (source : Source) : Prop :=
  ∃ e, source.Reaches e ∧ (e.kind = .pointer none ∨ e.kind = .qualified none)

end LayoutGraph.Source
