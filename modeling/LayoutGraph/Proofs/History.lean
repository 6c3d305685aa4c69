-- Histories of a store: passes over sources, changes, direct requests and
-- reopenings, in any order and each with any outcome. None of them takes
-- away a row or gives it another key.
import LayoutGraph.Proofs.Recorder.Agreement
import LayoutGraph.Proofs.Store.Choice

namespace LayoutGraph

open Chain

/-- One thing that is done to a store. -/
inductive Action
  | parse (source : Source)
  | remap (mappings : List Change.Mapping)
  | override (requests : List Change.Override)
  /-- A request to the store itself, such as an insert. -/
  | ask {α : Type} (request : Request α)
  /-- The store is closed, and its rows are opened again. A store in memory has no rows outside
  the program, so it is never closed. -/
  | reopen

namespace AnyStore

def reopen : AnyStore → AnyStore
  | memory m => memory m
  | database db => database db.reopen

/-- The store after an action, whether the action went well or failed. -/
def act (s : AnyStore) : Action → AnyStore
  | .parse source => (Session.parse source s).2
  | .remap mappings => (left (Change.remap mappings { store := s })).store
  | .override requests => (left (Change.override requests { store := s })).store
  | .ask request => left (Store.serve request s)
  | .reopen => s.reopen

/-- The store after a history, the earliest action first. -/
def after (s : AnyStore) (history : List Action) : AnyStore := history.foldl act s

end AnyStore

/-! ## What is held stays held -/

namespace AnyStore

theorem holds_reopen {s : AnyStore} {held : Holding} (h : Holds s held) : Holds s.reopen held := by
  cases s with
  | memory m => exact h
  | database db =>
    exact (holds_database _ _).mpr (Database.holds_reopen ((holds_database _ _).mp h))

theorem holds_act {s : AnyStore} {held : Holding} (h : Holds s held) (action : Action) :
    Holds (s.act action) held := by
  cases action with
  | parse source => exact (steady_holds held).parse source h
  | remap mappings => exact (steady_holds held).remap mappings { store := s } h
  | override requests => exact (steady_holds held).override requests { store := s } h
  | ask request => exact Faultless.lasts request s held h
  | reopen => exact holds_reopen h

theorem holds_after {s : AnyStore} {held : Holding} (h : Holds s held) (history : List Action) :
    Holds (s.after history) held := by
  induction history generalizing s with
  | nil => exact h
  | cons action rest ih => exact ih (holds_act h action)

end AnyStore

end LayoutGraph
