-- One of the two stores, chosen when a program runs.
import LayoutGraph.Store.Memory
import LayoutGraph.Store.Database

namespace LayoutGraph

inductive AnyStore
  | memory (store : Memory)
  | database (store : Database)
deriving Inhabited

instance : Store AnyStore where
  serve request
    | .memory m =>
      match Store.serve request m with
      | .ok a next => .ok a (.memory next)
      | .error e next => .error e (.memory next)
    | .database db =>
      match Store.serve request db with
      | .ok a next => .ok a (.database next)
      | .error e next => .error e (.database next)

end LayoutGraph
