-- Writing to a store with a memory for what was written: the ids of the
-- symbols and fields of this pass by natural key, the counters, and the log.
import LayoutGraph.Index
import LayoutGraph.Log.Event
import LayoutGraph.Store.Request

namespace LayoutGraph

/-- The memory of a pass. -/
structure Memo where
  symbols : Index SymbolKey SymbolId := {}
  fields : Index FieldKey FieldId := {}
  tally : Tally := {}
deriving Repr, Inhabited

structure Recorder (σ : Type) where
  store : σ
  memo : Memo := {}
  log : Array Log.Event := #[]

abbrev Recording (σ : Type) := EStateM Failure (Recorder σ)

namespace Recording

variable {σ : Type}

/-- Asks the store. -/
def ask [Store σ] {α : Type} (request : Request α) : Recording σ α := fun r =>
  match Store.serve request r.store with
  | .ok a store => .ok a { r with store }
  | .error e store => .error e { r with store }

def note (event : Log.Event) : Recording σ Unit :=
  modify fun r => { r with log := r.log.push event }

def modifyMemo (f : Memo → Memo) : Recording σ Unit := modify fun r => { r with memo := f r.memo }

def count (f : Tally → Tally) : Recording σ Unit :=
  modifyMemo fun m => { m with tally := f m.tally }

/-- The rows that were written are forgotten, and the counters start anew. -/
def forget : Recording σ Unit := modifyMemo fun _ => {}

end Recording

end LayoutGraph
