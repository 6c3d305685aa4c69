-- A store that records its calls: what was asked of it, in order, and whether
-- it was served. No reply depends on the record.
import LayoutGraph.Store.Request

namespace LayoutGraph

/-! ## Calls -/

/-- The methods whose calls can change rows. -/
def Method.writes : Method → Bool
  | .insertOrigin | .insertSymbol | .insertField | .insertDimension | .insertEnumerator => true
  | .retargetFields | .setFieldType => true
  | _ => false

/-- A call of a store, which was served or failed. -/
structure Call where
  method : Method
  served : Bool
deriving DecidableEq, Repr, Inhabited

/-- The call can have changed rows. -/
def Call.wrote (c : Call) : Bool := c.served && c.method.writes

/-! ## The store -/

/-- A store and the calls of it, the earliest first. -/
structure Traced (σ : Type) where
  store : σ
  calls : List Call := []

namespace Traced

variable {σ : Type} [Store σ]

instance : Store (Traced σ) where
  serve request := fun s =>
    match Store.serve request s.store with
    | .ok reply store => .ok reply ⟨store, s.calls ++ [⟨request.method, true⟩]⟩
    | .error e store => .error e ⟨store, s.calls ++ [⟨request.method, false⟩]⟩

end Traced

end LayoutGraph
