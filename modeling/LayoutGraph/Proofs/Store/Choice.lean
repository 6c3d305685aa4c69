-- A store chosen at run time serves each request as the store behind it
-- does, and so has no faults either.
import LayoutGraph.Proofs.Store.Database
import LayoutGraph.Proofs.Store.Memory
import LayoutGraph.Store.Choice

namespace LayoutGraph.AnyStore

open Chain

variable {α : Type} {request : Request α}

/-! ## The store behind the choice -/

theorem serve_memory_ok {m : Memory} {a : α} {t : AnyStore} :
    Store.serve request (memory m) = .ok a t ↔
      ∃ n, Store.serve request m = .ok a n ∧ t = memory n := by
  simp only [Store.serve]
  cases Attempt.ofStep (fun m : Memory => m.answer request) m <;> simp [eq_comm, and_assoc]

theorem serve_database_ok {db : Database} {a : α} {t : AnyStore} :
    Store.serve request (database db) = .ok a t ↔
      ∃ n, Store.serve request db = .ok a n ∧ t = database n := by
  simp only [Store.serve]
  cases Attempt.ofStep (fun db : Database => db.answer request) db <;> simp [eq_comm, and_assoc]

theorem serve_database_error {db : Database} {e : Failure} {t : AnyStore} :
    Store.serve request (database db) = .error e t ↔
      ∃ n, Store.serve request db = .error e n ∧ t = database n := by
  simp only [Store.serve]
  cases Attempt.ofStep (fun db : Database => db.answer request) db <;> simp [eq_comm, and_assoc]

theorem left_serve_memory (m : Memory) :
    left (Store.serve request (memory m)) = memory (left (Store.serve request m)) := by
  simp only [Store.serve]
  cases Attempt.ofStep (fun m : Memory => m.answer request) m <;> rfl

theorem left_serve_database (db : Database) :
    left (Store.serve request (database db)) = database (left (Store.serve request db)) := by
  simp only [Store.serve]
  cases Attempt.ofStep (fun db : Database => db.answer request) db <;> rfl

theorem holds_memory (m : Memory) (held : Holding) : Holds (memory m) held ↔ Holds m held := by
  cases held <;> simp [Holds, serve_memory_ok]

theorem holds_database (db : Database) (held : Holding) :
    Holds (database db) held ↔ Holds db held := by
  cases held <;> simp [Holds, serve_database_ok]

/-! ## The choice has no faults -/

/-- What is stored, in whichever store it is. -/
def graph : AnyStore → Graph
  | memory m => m.graph
  | database db => db.graph

def lists : AnyStore → ListCounter
  | memory m => m.lists
  | database db => db.lists

theorem serve_symbolsNamed (s : AnyStore) (name : String) :
    Store.serve (.symbolsNamed name) s = .ok (s.graph.symbolsNamed name) s := by
  cases s <;> rfl

theorem serve_symbolById (s : AnyStore) (id : SymbolId) :
    Store.serve (.symbolById id) s = .ok (s.graph.symbolById? id) s := by
  cases s <;> rfl

/-- A look-up that finds a row leaves the chosen store as it is where it does so in both. -/
theorem same_of_find {ι : Type} {find : Request (Option ι)} {s t : AnyStore} {id : ι}
    (hm : ∀ {m n : Memory}, Store.serve find m = .ok (some id) n → n = m)
    (hdb : ∀ {db n : Database}, Store.serve find db = .ok (some id) n → n = db)
    (h : Store.serve find s = .ok (some id) t) : t = s := by
  cases s with
  | memory m =>
    obtain ⟨n, hn, rfl⟩ := serve_memory_ok.mp h
    rw [hm hn]
  | database db =>
    obtain ⟨n, hn, rfl⟩ := serve_database_ok.mp h
    rw [hdb hn]

instance : Faultless AnyStore where
  graph := graph
  lists := lists
  commit s := by cases s <;> rfl
  findOrigin h := same_of_find Faultless.findOrigin Faultless.findOrigin h
  findSymbol h := same_of_find Faultless.findSymbol Faultless.findSymbol h
  findField h := same_of_find Faultless.findField Faultless.findField h
  insert {_ _ _ _ s _} h hheld := by
    cases s with
    | memory m =>
      obtain ⟨n, hn, rfl⟩ := serve_memory_ok.mp h
      exact (holds_memory _ _).mpr (Faultless.insert hn hheld)
    | database db =>
      obtain ⟨n, hn, rfl⟩ := serve_database_ok.mp h
      exact (holds_database _ _).mpr (Faultless.insert hn hheld)
  lasts request s held h := by
    cases s with
    | memory m =>
      rw [left_serve_memory, holds_memory]
      exact Faultless.lasts request m held ((holds_memory _ _).mp h)
    | database db =>
      rw [left_serve_database, holds_database]
      exact Faultless.lasts request db held ((holds_database _ _).mp h)
  noConflict {_ request s _ _ _} h := by
    cases s with
    | memory m =>
      simp only [Store.serve] at h
      split at h <;> cases h
      rename_i n heq
      have hserve : Store.serve request m = .error _ n := heq
      exact Faultless.noConflict hserve
    | database db =>
      simp only [Store.serve] at h
      split at h <;> cases h
      rename_i n heq
      have hserve : Store.serve request db = .error _ n := heq
      exact Faultless.noConflict hserve
  allocate s h := by
    cases s with
    | memory m =>
      obtain ⟨list, t, ht, hgraph, hlists⟩ := Faultless.allocate m h
      exact ⟨list, memory t, serve_memory_ok.mpr ⟨t, ht, rfl⟩, hgraph, hlists⟩
    | database db =>
      obtain ⟨list, t, ht, hgraph, hlists⟩ := Faultless.allocate db h
      exact ⟨list, database t, serve_database_ok.mpr ⟨t, ht, rfl⟩, hgraph, hlists⟩

end LayoutGraph.AnyStore
