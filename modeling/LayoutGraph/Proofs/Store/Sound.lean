-- What every store in memory keeps, whatever was asked of it: its rows are
-- numbered by their places, its indexes name them, no natural key has two
-- rows, and no axis belongs to a list beyond the counter.
import LayoutGraph.Proofs.Ledger.Memory

namespace LayoutGraph

/-! ## Numbered tables -/

/-- The rows are numbered by their places, from one on. -/
def Numbered {ρ : Type} (raw : ρ → Int) (rows : List ρ) : Prop :=
  ∀ (i : Nat) (r : ρ), rows[i]? = some r → raw r = i + 1

namespace Numbered

variable {ρ : Type} {raw : ρ → Int} {rows : List ρ}

theorem nil : Numbered raw [] := fun _ _ h => by simp at h

theorem snoc (h : Numbered raw rows) {row : ρ} (next : raw row = Memory.nextId rows) :
    Numbered raw (rows ++ [row]) := by
  intro i r hr
  rw [List.getElem?_append] at hr
  split at hr
  · exact h i r hr
  · rw [List.getElem?_singleton] at hr
    split at hr
    · cases hr
      rw [next, Memory.nextId]
      omega
    · cases hr

theorem map {change : ρ → ρ} (h : Numbered raw rows) (same : ∀ r, raw (change r) = raw r) :
    Numbered raw (rows.map change) := by
  intro i r hr
  rw [List.getElem?_map] at hr
  obtain ⟨row, hrow, rfl⟩ := Option.map_eq_some_iff.mp hr
  rw [same]
  exact h i row hrow

end Numbered

/-- A change that leaves the keys and the ids of rows alone leaves the index right. -/
theorem Indexed.map {κ ι ρ : Type} [DecidableEq κ] [DecidableEq ι] {index : Index κ ι}
    {rows : List ρ} {key : ρ → κ} {id : ρ → ι} {raw : ι → Int} {change : ρ → ρ}
    (h : Indexed index rows key id raw) (sameKey : ∀ r, key (change r) = key r)
    (sameId : ∀ r, id (change r) = id r) : Indexed index (rows.map change) key id raw where
  found k i hk := by
    rw [List.find?_map, Option.map_map]
    have hid : ((fun r => decide (id r = i)) ∘ change) = fun r => decide (id r = i) := by
      funext r
      simp [sameId]
    have hkey : key ∘ change = key := funext sameKey
    rw [hid, hkey]
    exact h.found k i hk
  listed r hr := by
    obtain ⟨row, hrow, rfl⟩ := List.mem_map.mp hr
    rw [sameKey, sameId]
    exact h.listed row hrow
  counted r hr := by
    obtain ⟨row, hrow, rfl⟩ := List.mem_map.mp hr
    rw [sameId, List.length_map]
    exact h.counted row hrow

/-- Two rows of one key would have one number, and so one place. -/
theorem Indexed.nodup {κ ι ρ : Type} [DecidableEq κ] [DecidableEq ι] {index : Index κ ι}
    {rows : List ρ} {key : ρ → κ} {id : ρ → ι} {raw : ι → Int}
    (h : Indexed index rows key id raw) (numbered : Numbered (fun r => raw (id r)) rows) :
    (rows.map key).Nodup := by
  rw [List.Nodup, List.pairwise_map, List.pairwise_iff_getElem]
  intro i j hi hj hlt heq
  have hlisted := h.listed rows[i] (List.getElem_mem hi)
  rw [heq, h.listed rows[j] (List.getElem_mem hj)] at hlisted
  have hid : id rows[j] = id rows[i] := Option.some.inj hlisted
  have hraw_i := numbered i rows[i] (List.getElem?_eq_getElem hi)
  have hraw_j := numbered j rows[j] (List.getElem?_eq_getElem hj)
  dsimp only at hraw_i hraw_j
  rw [hid] at hraw_j
  omega

/-! ## Graphs -/

namespace Graph

/-- In each table the ids count from one on. -/
structure Numbered (g : Graph) : Prop where
  origins : LayoutGraph.Numbered (fun o : Origin => o.id.raw) g.origins
  symbols : LayoutGraph.Numbered (fun s : Symbol => s.id.raw) g.symbols
  fields : LayoutGraph.Numbered (fun f : Field => f.id.raw) g.fields
  dimensions : LayoutGraph.Numbered (fun d : Dimension => d.id.raw) g.dimensions
  enumerators : LayoutGraph.Numbered (fun e : Enumerator => e.id.raw) g.enumerators

/-- No natural key has two rows. -/
structure KeysOnce (g : Graph) : Prop where
  origins : (g.origins.map Origin.name).Nodup
  symbols : (g.symbols.map Symbol.key).Nodup
  fields : (g.fields.map Field.key).Nodup
  dimensions : (g.dimensions.map Dimension.key).Nodup
  enumerators : (g.enumerators.map Enumerator.key).Nodup

end Graph

/-! ## Stores -/

namespace Memory

structure Sound (m : Memory) : Prop where
  numbered : m.graph.Numbered
  origins : Indexed m.originIndex m.graph.origins Origin.name Origin.id OriginId.raw
  symbols : Indexed m.symbolIndex m.graph.symbols Symbol.key Symbol.id SymbolId.raw
  fields : Indexed m.fieldIndex m.graph.fields Field.key Field.id FieldId.raw
  dimensions :
    Indexed m.dimensionIndex m.graph.dimensions Dimension.key Dimension.id DimensionId.raw
  enumerators :
    Indexed m.enumeratorIndex m.graph.enumerators Enumerator.key Enumerator.id EnumeratorId.raw
  lists : ∀ d ∈ m.graph.dimensions, d.list.raw ≤ m.lists.last

/-- A store that came about by requests to an empty one. -/
inductive Reached : Memory → Prop
  | empty : Reached {}
  | serve {α : Type} {m n : Memory} {request : Request α} {reply : α} :
    Reached m → m.answer request = .ok (reply, n) → Reached n

variable {m : Memory}

theorem Sound.keysOnce (h : m.Sound) : m.graph.KeysOnce where
  origins := h.origins.nodup h.numbered.origins
  symbols := h.symbols.nodup h.numbered.symbols
  fields := h.fields.nodup h.numbered.fields
  dimensions := h.dimensions.nodup h.numbered.dimensions
  enumerators := h.enumerators.nodup h.numbered.enumerators

theorem Sound.origin_mem (h : m.Sound) {name : String} {id : OriginId}
    (hid : m.Names (.origin name id)) : ∃ o ∈ m.graph.origins, o.id = id := by
  obtain ⟨o, ho, -, hoid⟩ := h.origins.mem_of_found hid
  exact ⟨o, ho, hoid⟩

theorem Sound.symbol_mem (h : m.Sound) {key : SymbolKey} {id : SymbolId}
    (hid : m.Names (.symbol key id)) : ∃ s ∈ m.graph.symbols, s.id = id := by
  obtain ⟨s, hs, -, hsid⟩ := h.symbols.mem_of_found hid
  exact ⟨s, hs, hsid⟩

theorem sound_empty : Sound {} where
  numbered := ⟨.nil, .nil, .nil, .nil, .nil⟩
  origins := .empty
  symbols := .empty
  fields := .empty
  dimensions := .empty
  enumerators := .empty
  lists _ h := by cases h

namespace Sound

/-! ### Inserts -/

theorem insertOrigin (h : m.Sound) (name : String) (littleEndian : Bool) :
    (m.insertOrigin name littleEndian).2.Sound := by
  unfold Memory.insertOrigin
  split
  · exact h
  · rename_i hfind
    let row : Origin := ⟨⟨nextId m.graph.origins⟩, name, littleEndian⟩
    exact { h with
      numbered := { h.numbered with origins := h.numbered.origins.snoc rfl }
      origins := h.origins.snoc row hfind rfl }

theorem insertSymbol (h : m.Sound) (row : NewSymbol) : (m.insertSymbol row).2.Sound := by
  unfold Memory.insertSymbol
  split
  · exact h
  · rename_i hfind
    let new : Symbol := row.withId ⟨nextId m.graph.symbols⟩
    exact { h with
      numbered := { h.numbered with symbols := h.numbered.symbols.snoc rfl }
      symbols := h.symbols.snoc new hfind rfl }

theorem insertField (h : m.Sound) (row : NewField) : (m.insertField row).2.Sound := by
  unfold Memory.insertField
  split
  · exact h
  · rename_i hfind
    let new : Field := row.withId ⟨nextId m.graph.fields⟩
    exact { h with
      numbered := { h.numbered with fields := h.numbered.fields.snoc rfl }
      fields := h.fields.snoc new hfind rfl }

theorem insertDimension (h : m.Sound) (list : ListId) (order extent : Nat) :
    (m.insertDimension list order extent).2.Sound := by
  unfold Memory.insertDimension
  split
  · exact h
  · rename_i hfind
    let row : Dimension := ⟨⟨nextId m.graph.dimensions⟩, list, order, extent⟩
    refine { h with
      numbered := { h.numbered with dimensions := h.numbered.dimensions.snoc rfl }
      dimensions := h.dimensions.snoc row hfind rfl
      lists := fun d hd => ?_ }
    rcases List.mem_append.mp hd with hd | hd
    · exact Int.le_trans (h.lists d hd) (Int.le_max_left _ _)
    · rw [List.mem_singleton.mp hd]
      exact Int.le_max_right _ _

theorem insertEnumerator (h : m.Sound) (symbol : SymbolId) (name : String) (value : Int) :
    (m.insertEnumerator symbol name value).2.Sound := by
  unfold Memory.insertEnumerator
  split
  · exact h
  · rename_i hfind
    let row : Enumerator := ⟨⟨nextId m.graph.enumerators⟩, symbol, name, value⟩
    exact { h with
      numbered := { h.numbered with enumerators := h.numbered.enumerators.snoc rfl }
      enumerators := h.enumerators.snoc row hfind rfl }

/-- Another type for a field changes neither its key nor its id. -/
theorem mapFields (h : m.Sound) {change : Field → Field} (sameKey : ∀ f, (change f).key = f.key)
    (sameId : ∀ f, (change f).id = f.id) :
    Sound { m with graph := { m.graph with fields := m.graph.fields.map change } } :=
  { h with
    numbered := { h.numbered with fields := h.numbered.fields.map fun f => by rw [sameId] }
    fields := h.fields.map sameKey sameId }

theorem allocateList (h : m.Sound) : Sound { m with lists := ⟨m.lists.last + 1⟩ } :=
  { h with lists := fun d hd => Int.le_trans (h.lists d hd) (Int.le_add_one (Int.le_refl _)) }

/-! ### Requests -/

/-- Whatever is asked of a sound store leaves it sound. -/
theorem answer (h : m.Sound) {α : Type} (request : Request α) {reply : α} {n : Memory}
    (hanswer : m.answer request = .ok (reply, n)) : n.Sound := by
  cases request with
  | insertOrigin name littleEndian =>
    rw [eq_snd_of_ok hanswer]
    exact h.insertOrigin name littleEndian
  | insertSymbol row =>
    rw [eq_snd_of_ok hanswer]
    exact h.insertSymbol row
  | insertField row =>
    rw [eq_snd_of_ok hanswer]
    exact h.insertField row
  | insertDimension list order extent =>
    rw [eq_snd_of_ok hanswer]
    exact h.insertDimension list order extent
  | insertEnumerator symbol name value =>
    rw [eq_snd_of_ok hanswer]
    exact h.insertEnumerator symbol name value
  | allocateList =>
    simp only [Memory.answer, Memory.allocateList, ListCounter.next] at hanswer
    split at hanswer <;> cases hanswer
    exact h.allocateList
  | retargetFields old new =>
    cases hanswer
    exact h.mapFields (fun f => by split <;> rfl) (fun f => by split <;> rfl)
  | setFieldType field type =>
    cases hanswer
    exact h.mapFields (fun f => by split <;> rfl) (fun f => by split <;> rfl)
  | findOrigin _ | findSymbol _ | findField _ | symbolById _ | fieldById _ | symbolsNamed _
  | snapshot | commit =>
    cases hanswer
    exact h

end Sound

theorem Reached.sound (h : m.Reached) : m.Sound := by
  induction h with
  | empty => exact sound_empty
  | serve _ hanswer ih => exact ih.answer _ hanswer

end Memory

end LayoutGraph
