-- What a store in memory stands for. Whatever was asked of it, its rows are
-- numbered in the order of their insertion, its indexes name exactly the rows
-- of the tables, its replies are what a scan of the tables would give, and a
-- list that it hands out is neither handed out before nor in a row.
import LayoutGraph.Proofs.Store.Mirror

namespace LayoutGraph

/-! ## Runs -/

/-- The list that the reply to a request hands out. -/
def Request.handedOut {α : Type} : Request α → α → List ListId
  | .allocateList, list => [list]
  | _, _ => []

/-- The requests are answered one after another, whatever their replies are. Gives the lists that
were handed out and the store behind the last request. -/
def Memory.serveAll (m : Memory) :
    List (Σ α : Type, Request α) → Except Failure (List ListId × Memory)
  | [] => .ok ([], m)
  | ⟨_, request⟩ :: rest => do
    let (reply, next) ← m.answer request
    let (lists, last) ← next.serveAll rest
    .ok (request.handedOut reply ++ lists, last)

/-! ## Tables and their indexes -/

/-- The ids of a table count its rows from one on, each key has one row at most, and the index
has a key at an id just when the row of the id has the key. -/
structure Represents {κ ι ρ : Type} [DecidableEq κ] (index : Index κ ι) (rows : List ρ)
    (key : ρ → κ) (id : ρ → ι) (raw : ι → Int) : Prop where
  numbered : Numbered (fun r => raw (id r)) rows
  once : (rows.map key).Nodup
  names : ∀ k i, index.find? k = some i ↔ ∃ r ∈ rows, id r = i ∧ key r = k

/-- An insert of a key into the rows of a table. The reply names the row of the key just when there
is one, and just then the graph stays as it is; else the new row is the last of its table. -/
structure Placed {κ ι ρ : Type} (rows : List ρ) (key : ρ → κ) (id : ρ → ι) (raw : ι → Int)
    (k : κ) (row : ι → ρ) (fill : List ρ → Graph) (reply : Inserted ι) (before after : Graph) :
    Prop where
  existing : ∀ i, reply = .existing i ↔ ∃ r ∈ rows, id r = i ∧ key r = k
  unchanged : after = before ↔ ∃ r ∈ rows, key r = k
  created : ∀ i, reply = .created i → raw i = rows.length + 1 ∧ after = fill (rows ++ [row i])

namespace Indexed

variable {κ ι ρ : Type} [DecidableEq κ] [DecidableEq ι] {index : Index κ ι} {rows : List ρ}
  {key : ρ → κ} {id : ρ → ι} {raw : ι → Int}

theorem find?_eq_some_iff (h : Indexed index rows key id raw) {k : κ} {i : ι} :
    index.find? k = some i ↔ ∃ r ∈ rows, id r = i ∧ key r = k := by
  constructor
  · intro hk
    obtain ⟨r, hr, hkey, hid⟩ := h.mem_of_found hk
    exact ⟨r, hr, hid, hkey⟩
  · rintro ⟨r, hr, rfl, rfl⟩
    exact h.listed r hr

theorem represents (h : Indexed index rows key id raw)
    (numbered : Numbered (fun r => raw (id r)) rows) : Represents index rows key id raw where
  numbered := numbered
  once := h.nodup numbered
  names _ _ := h.find?_eq_some_iff

variable {k : κ} {row : ι → ρ} {fill : List ρ → Graph} {before : Graph}

theorem placed_of_found (h : Indexed index rows key id raw) {i : ι}
    (hk : index.find? k = some i) :
    Placed rows key id raw k row fill (.existing i) before before where
  existing j := by
    rw [← h.find?_eq_some_iff, hk]
    simp
  unchanged := by
    obtain ⟨r, hr, -, hkey⟩ := h.find?_eq_some_iff.mp hk
    exact iff_of_true rfl ⟨r, hr, hkey⟩
  created _ hreply := by cases hreply

theorem placed_of_absent (h : Indexed index rows key id raw) (absent : index.find? k = none)
    {i : ι} (next : raw i = Memory.nextId rows) (longer : fill (rows ++ [row i]) ≠ before) :
    Placed rows key id raw k row fill (.created i) before (fill (rows ++ [row i])) where
  existing j := by
    rw [← h.find?_eq_some_iff, absent]
    simp
  unchanged := by
    refine iff_of_false longer ?_
    rintro ⟨r, hr, hkey⟩
    exact h.not_mem_of_absent absent r hr hkey
  created j hreply := by
    cases hreply
    exact ⟨next, rfl⟩

end Indexed

namespace Memory

/-- Each of the five tables is represented by its index. -/
structure RepresentsRows (m : Memory) : Prop where
  origins : Represents m.originIndex m.graph.origins Origin.name Origin.id OriginId.raw
  symbols : Represents m.symbolIndex m.graph.symbols Symbol.key Symbol.id SymbolId.raw
  fields : Represents m.fieldIndex m.graph.fields Field.key Field.id FieldId.raw
  dimensions :
    Represents m.dimensionIndex m.graph.dimensions Dimension.key Dimension.id DimensionId.raw
  enumerators :
    Represents m.enumeratorIndex m.graph.enumerators Enumerator.key Enumerator.id EnumeratorId.raw

theorem Sound.representsRows {m : Memory} (h : m.Sound) : m.RepresentsRows where
  origins := h.origins.represents h.numbered.origins
  symbols := h.symbols.represents h.numbered.symbols
  fields := h.fields.represents h.numbered.fields
  dimensions := h.dimensions.represents h.numbered.dimensions
  enumerators := h.enumerators.represents h.numbered.enumerators

/-! ## Replies -/

/-- What the reply to a request says of the rows. An insert is as `Placed` has it, and a look-up
gives what a scan of its table gives. -/
def Answers (m : Memory) : {α : Type} → Request α → α → Graph → Prop
  | _, .insertOrigin name littleEndian, reply, after =>
    Placed m.graph.origins Origin.name Origin.id OriginId.raw name
      (fun id => ⟨id, name, littleEndian⟩) (fun origins => { m.graph with origins })
      reply m.graph after
  | _, .insertSymbol row, reply, after =>
    Placed m.graph.symbols Symbol.key Symbol.id SymbolId.raw row.key row.withId
      (fun symbols => { m.graph with symbols }) reply m.graph after
  | _, .insertField row, reply, after =>
    Placed m.graph.fields Field.key Field.id FieldId.raw row.key row.withId
      (fun fields => { m.graph with fields }) reply m.graph after
  | _, .insertDimension list order extent, reply, after =>
    ∃ inserted : Inserted DimensionId, reply = inserted.id ∧
      Placed m.graph.dimensions Dimension.key Dimension.id DimensionId.raw ⟨list, order⟩
        (fun id => ⟨id, list, order, extent⟩) (fun dimensions => { m.graph with dimensions })
        inserted m.graph after
  | _, .insertEnumerator symbol name value, reply, after =>
    Placed m.graph.enumerators Enumerator.key Enumerator.id EnumeratorId.raw ⟨symbol, name⟩
      (fun id => ⟨id, symbol, name, value⟩) (fun enumerators => { m.graph with enumerators })
      reply m.graph after
  | _, .allocateList, list, after =>
    (∀ d ∈ m.graph.dimensions, d.list ≠ list) ∧ after = m.graph
  | _, .findOrigin name, reply, after =>
    reply = (m.graph.origins.find? fun o => o.name = name).map Origin.id ∧ after = m.graph
  | _, .findSymbol key, reply, after =>
    reply = (m.graph.symbols.find? fun s => s.key = key).map Symbol.id ∧ after = m.graph
  | _, .findField key, reply, after =>
    reply = (m.graph.fields.find? fun f => f.key = key).map Field.id ∧ after = m.graph
  | _, .symbolById id, reply, after =>
    reply = (m.graph.symbols.find? fun s => s.id = id) ∧ after = m.graph
  | _, .fieldById id, reply, after =>
    reply = (m.graph.fields.find? fun f => f.id = id) ∧ after = m.graph
  | _, .symbolsNamed name, reply, after =>
    reply = (m.graph.symbols.filter fun s => s.name = name) ∧ after = m.graph
  | _, .retargetFields .., _, after | _, .setFieldType .., _, after =>
    ∃ fields, after = { m.graph with fields } ∧
      List.Forall₂ (fun f g => g = { f with type := g.type }) m.graph.fields fields
  | _, .snapshot, reply, after => reply = m.graph ∧ after = m.graph
  | _, .commit, _, after => after = m.graph

variable {m n : Memory}

theorem Sound.placed_origin (h : m.Sound) (name : String) (littleEndian : Bool) :
    m.Answers (.insertOrigin name littleEndian) (m.insertOrigin name littleEndian).1
      (m.insertOrigin name littleEndian).2.graph := by
  unfold Memory.insertOrigin
  split
  · rename_i id hfind
    exact h.origins.placed_of_found hfind
  · rename_i hfind
    refine h.origins.placed_of_absent hfind rfl fun hsame => ?_
    simpa using congrArg Graph.origins hsame

theorem Sound.placed_symbol (h : m.Sound) (row : NewSymbol) :
    m.Answers (.insertSymbol row) (m.insertSymbol row).1 (m.insertSymbol row).2.graph := by
  unfold Memory.insertSymbol
  split
  · rename_i id hfind
    exact h.symbols.placed_of_found hfind
  · rename_i hfind
    refine h.symbols.placed_of_absent hfind rfl fun hsame => ?_
    simpa using congrArg Graph.symbols hsame

theorem Sound.placed_field (h : m.Sound) (row : NewField) :
    m.Answers (.insertField row) (m.insertField row).1 (m.insertField row).2.graph := by
  unfold Memory.insertField
  split
  · rename_i id hfind
    exact h.fields.placed_of_found hfind
  · rename_i hfind
    refine h.fields.placed_of_absent hfind rfl fun hsame => ?_
    simpa using congrArg Graph.fields hsame

theorem Sound.placed_dimension (h : m.Sound) (list : ListId) (order extent : Nat) :
    m.Answers (.insertDimension list order extent) (m.insertDimension list order extent).1
      (m.insertDimension list order extent).2.graph := by
  unfold Memory.insertDimension
  split
  · rename_i id hfind
    exact ⟨.existing id, rfl, h.dimensions.placed_of_found hfind⟩
  · rename_i hfind
    refine ⟨.created _, rfl, h.dimensions.placed_of_absent hfind rfl fun hsame => ?_⟩
    simpa using congrArg Graph.dimensions hsame

theorem Sound.placed_enumerator (h : m.Sound) (symbol : SymbolId) (name : String) (value : Int) :
    m.Answers (.insertEnumerator symbol name value) (m.insertEnumerator symbol name value).1
      (m.insertEnumerator symbol name value).2.graph := by
  unfold Memory.insertEnumerator
  split
  · rename_i id hfind
    exact h.enumerators.placed_of_found hfind
  · rename_i hfind
    refine h.enumerators.placed_of_absent hfind rfl fun hsame => ?_
    simpa using congrArg Graph.enumerators hsame

/-- A change of types changes each field in its place. -/
theorem forall₂_map_type {fields : List Field} {change : Field → Field}
    (type : ∀ f, change f = { f with type := (change f).type }) :
    List.Forall₂ (fun f g : Field => g = { f with type := g.type }) fields (fields.map change) := by
  induction fields with
  | nil => exact .nil
  | cons f rest ih => exact .cons (type f) ih

/-- The replies of a sound store are those of its tables. -/
theorem Sound.answers (h : m.Sound) {α : Type} (request : Request α) {reply : α}
    (hanswer : m.answer request = .ok (reply, n)) : m.Answers request reply n.graph := by
  cases request with
  | insertOrigin name littleEndian =>
    obtain ⟨rfl, rfl⟩ := Prod.mk.inj (Except.ok.inj hanswer)
    exact h.placed_origin name littleEndian
  | insertSymbol row =>
    obtain ⟨rfl, rfl⟩ := Prod.mk.inj (Except.ok.inj hanswer)
    exact h.placed_symbol row
  | insertField row =>
    obtain ⟨rfl, rfl⟩ := Prod.mk.inj (Except.ok.inj hanswer)
    exact h.placed_field row
  | insertDimension list order extent =>
    obtain ⟨rfl, rfl⟩ := Prod.mk.inj (Except.ok.inj hanswer)
    exact h.placed_dimension list order extent
  | insertEnumerator symbol name value =>
    obtain ⟨rfl, rfl⟩ := Prod.mk.inj (Except.ok.inj hanswer)
    exact h.placed_enumerator symbol name value
  | allocateList =>
    simp only [Memory.answer, Memory.allocateList, ListCounter.next] at hanswer
    split at hanswer <;> cases hanswer
    refine ⟨?_, rfl⟩
    rintro d hd heq
    have hle := h.lists d hd
    rw [heq] at hle
    dsimp only at hle
    omega
  | findOrigin name =>
    cases hanswer
    exact ⟨h.origins.find?_eq name, rfl⟩
  | findSymbol key =>
    cases hanswer
    exact ⟨h.symbols.find?_eq key, rfl⟩
  | findField key =>
    cases hanswer
    exact ⟨h.fields.find?_eq key, rfl⟩
  | retargetFields old new =>
    cases hanswer
    refine ⟨_, rfl, forall₂_map_type fun f => ?_⟩
    by_cases hold : f.type = old
    · simp [hold]
    · simp [hold]
  | setFieldType field type =>
    cases hanswer
    refine ⟨_, rfl, forall₂_map_type fun f => ?_⟩
    by_cases hid : f.id = field
    · simp [hid]
    · simp [hid]
  | symbolById id | fieldById id | symbolsNamed name | snapshot =>
    cases hanswer
    exact ⟨rfl, rfl⟩
  | commit =>
    cases hanswer
    rfl

/-- A request is answered unless it wants one list more than the counter can count. -/
theorem answer_of_room {α : Type} (request : Request α) (m : Memory)
    (room : request.method = .allocateList → m.lists.last ≠ ListCounter.greatest) :
    ∃ reply n, m.answer request = .ok (reply, n) := by
  cases request
  case allocateList =>
    simp only [answer, allocateList, ListCounter.next]
    rw [if_neg (room rfl)]
    exact ⟨_, _, rfl⟩
  all_goals exact ⟨_, _, rfl⟩

/-! ## Lists that are handed out -/

theorem allocateList_ok {list : ListId} (h : m.allocateList = .ok (list, n)) :
    list.raw = m.lists.last + 1 ∧ n = { m with lists := ⟨list.raw⟩ } := by
  unfold allocateList ListCounter.next at h
  split at h <;> cases h
  exact ⟨rfl, rfl⟩

/-- The list counter never goes back. -/
theorem lists_le_answer {α : Type} (request : Request α) {reply : α}
    (hanswer : m.answer request = .ok (reply, n)) : m.lists.last ≤ n.lists.last := by
  cases request with
  | insertOrigin name littleEndian =>
    rw [eq_snd_of_ok hanswer]
    exact Int.le_of_eq (congrArg ListCounter.last (insertOrigin_lists m name littleEndian).symm)
  | insertSymbol row =>
    rw [eq_snd_of_ok hanswer]
    exact Int.le_of_eq (congrArg ListCounter.last (insertSymbol_lists m row).symm)
  | insertField row =>
    rw [eq_snd_of_ok hanswer]
    exact Int.le_of_eq (congrArg ListCounter.last (insertField_lists m row).symm)
  | insertEnumerator symbol name value =>
    rw [eq_snd_of_ok hanswer]
    exact Int.le_of_eq (congrArg ListCounter.last (insertEnumerator_lists m symbol name value).symm)
  | insertDimension list order extent =>
    rw [eq_snd_of_ok hanswer]
    unfold insertDimension
    split
    · exact Int.le_refl _
    · exact Int.le_max_left _ _
  | allocateList =>
    obtain ⟨hlist, rfl⟩ := allocateList_ok hanswer
    dsimp only
    omega
  | retargetFields _ _ | setFieldType _ _ | findOrigin _ | findSymbol _ | findField _
  | symbolById _ | fieldById _ | symbolsNamed _ | snapshot | commit =>
    cases hanswer
    exact Int.le_refl _

theorem mem_handedOut {α : Type} {request : Request α} {reply : α} {list : ListId}
    (hlist : list ∈ request.handedOut reply) (hanswer : m.answer request = .ok (reply, n)) :
    m.lists.last < list.raw ∧ list.raw = n.lists.last := by
  cases request <;> simp only [Request.handedOut, List.not_mem_nil, List.mem_singleton] at hlist
  case allocateList =>
    subst hlist
    obtain ⟨hnext, rfl⟩ := allocateList_ok hanswer
    dsimp only
    omega

theorem handedOut_nodup {α : Type} (request : Request α) (reply : α) :
    (request.handedOut reply).Nodup := by
  cases request
  case allocateList => exact List.nodup_singleton _
  all_goals exact List.nodup_nil

variable {α : Type} {request : Request α} {rest requests : List (Σ α : Type, Request α)}
  {lists : List ListId}

theorem serveAll_cons_ok (h : m.serveAll (⟨α, request⟩ :: rest) = .ok (lists, n)) :
    ∃ reply next later, m.answer request = .ok (reply, next) ∧
      next.serveAll rest = .ok (later, n) ∧ lists = request.handedOut reply ++ later := by
  obtain ⟨⟨reply, next⟩, hanswer, h⟩ := Database.bind_eq_ok.mp h
  obtain ⟨⟨later, last⟩, hrest, h⟩ := Database.bind_eq_ok.mp h
  cases h
  exact ⟨reply, next, later, hanswer, hrest, rfl⟩

theorem Sound.serveAll (hm : m.Sound) (h : m.serveAll requests = .ok (lists, n)) : n.Sound := by
  induction requests generalizing m lists with
  | nil =>
    cases h
    exact hm
  | cons asked rest ih =>
    obtain ⟨reply, next, later, hanswer, hrest, -⟩ := serveAll_cons_ok h
    exact ih (hm.answer _ hanswer) hrest

/-- The counter has not reached the lists that a run is going to hand out, and hands out none of
them twice. -/
theorem serveAll_lists (h : m.serveAll requests = .ok (lists, n)) :
    lists.Nodup ∧ ∀ list ∈ lists, m.lists.last < list.raw := by
  induction requests generalizing m lists with
  | nil =>
    cases h
    exact ⟨List.nodup_nil, fun _ hlist => absurd hlist List.not_mem_nil⟩
  | cons asked rest ih =>
    obtain ⟨reply, next, later, hanswer, hrest, rfl⟩ := serveAll_cons_ok h
    obtain ⟨once, beyond⟩ := ih hrest
    have hle := lists_le_answer _ hanswer
    constructor
    · refine List.nodup_append.mpr ⟨handedOut_nodup _ _, once, ?_⟩
      rintro list hnow _ hlater rfl
      have hlast := (mem_handedOut hnow hanswer).2
      have hlt := beyond list hlater
      omega
    · intro list hlist
      rcases List.mem_append.mp hlist with hnow | hlater
      · exact (mem_handedOut hnow hanswer).1
      · have hlt := beyond list hlater
        omega

/-! ## The law -/

/-- Whatever was asked of a store that began empty, its indexes name exactly its rows, the lists
that it handed out are all different, and its next reply is that of its tables. Only the counter of
lists ends a run. -/
theorem a_store_in_memory_numbers_its_rows_and_replies_as_its_tables_do
    (h : ({} : Memory).serveAll requests = .ok (lists, m)) :
    m.RepresentsRows ∧ lists.Nodup ∧
      ∀ {α : Type} (request : Request α),
        (request.method = .allocateList ∧ m.lists.last = ListCounter.greatest ∧
          m.answer request = .error (.overflow .add)) ∨
        ∃ reply next, m.answer request = .ok (reply, next) ∧
          m.Answers request reply next.graph := by
  have sound := sound_empty.serveAll h
  refine ⟨sound.representsRows, (serveAll_lists h).1, fun {α} request => ?_⟩
  cases hanswer : m.answer request with
  | ok result =>
    obtain ⟨reply, next⟩ := result
    exact .inr ⟨reply, next, rfl, sound.answers request hanswer⟩
  | error e =>
    cases answer_error hanswer
    refine .inl ?_
    by_contra hother
    obtain ⟨reply, next, hok⟩ := answer_of_room request m fun hmethod hlast =>
      hother ⟨hmethod, hlast, rfl⟩
    rw [hanswer] at hok
    cases hok

/-- A key comes twice, a row brings a list that was not handed out, and a field changes its
type. -/
def mixedRequests : List (Σ α : Type, Request α) :=
  [⟨_, .insertOrigin "app.o" true⟩, ⟨_, .insertSymbol ⟨⟨1⟩, "Point", 8⟩⟩,
   ⟨_, .insertSymbol ⟨⟨1⟩, "int", 4⟩⟩, ⟨_, .insertSymbol ⟨⟨1⟩, "Point", 8⟩⟩,
   ⟨_, .allocateList⟩, ⟨_, .insertDimension ⟨7⟩ 0 3⟩,
   ⟨_, .insertField ⟨⟨1⟩, "x", 0, ⟨2⟩, some ⟨7⟩, true, none, none, 0⟩⟩,
   ⟨_, .retargetFields ⟨2⟩ ⟨1⟩⟩, ⟨_, .allocateList⟩]

theorem the_store_of_mixed_requests_replies_as_its_tables_do :
    ∃ m, ({} : Memory).serveAll mixedRequests = .ok ([⟨1⟩, ⟨8⟩], m) ∧
      m.RepresentsRows ∧ ([⟨1⟩, ⟨8⟩] : List ListId).Nodup ∧
      ∃ reply next, m.answer (.findField ⟨⟨1⟩, "x"⟩) = .ok (reply, next) ∧
        reply = (m.graph.fields.find? fun f => f.key = ⟨⟨1⟩, "x"⟩).map Field.id := by
  have hlists : (({} : Memory).serveAll mixedRequests).toOption.map Prod.fst =
      some [⟨1⟩, ⟨8⟩] := by decide +kernel
  cases h : ({} : Memory).serveAll mixedRequests with
  | error e =>
    rw [h] at hlists
    cases hlists
  | ok result =>
    obtain ⟨lists, m⟩ := result
    rw [h] at hlists
    obtain rfl : lists = [⟨1⟩, ⟨8⟩] := Option.some.inj hlists
    obtain ⟨represents, once, replies⟩ :=
      a_store_in_memory_numbers_its_rows_and_replies_as_its_tables_do h
    refine ⟨m, rfl, represents, once, ?_⟩
    rcases replies (.findField ⟨⟨1⟩, "x"⟩) with ⟨hmethod, -⟩ | ⟨reply, next, hanswer, hreply, -⟩
    · cases hmethod
    · exact ⟨reply, next, hanswer, hreply⟩

end Memory

end LayoutGraph
