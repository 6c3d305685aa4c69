-- Closing a database file and opening it again. Whatever is pending is
-- committed, so the rows are those that were seen, and no reply but a new list
-- tells that the file was closed in between.
import LayoutGraph.Proofs.Store.Lists
import LayoutGraph.Proofs.Store.Mirror
import LayoutGraph.Store.DatabaseFile

namespace LayoutGraph

open Chain

/-! ## What of a database its replies depend on -/

namespace Database

/-- All of a database but its counter of lists. -/
def shown (db : Database) : Graph × Bool := (db.graph, db.mayWrite)

/-- An answer without the counter of lists that it leaves. -/
def shownAnswer {α : Type} (x : Except Failure (α × Database)) : Except Failure (α × Graph × Bool) :=
  x.map fun (reply, next) => (reply, next.shown)

theorem shownAnswer_bind {α β : Type} (x : Except Failure β)
    {f g : β → Except Failure (α × Database)} (h : ∀ b, shownAnswer (f b) = shownAnswer (g b)) :
    shownAnswer (x >>= f) = shownAnswer (x >>= g) := by
  cases x with
  | ok b => exact h b
  | error e => rfl

/-- Only a new list depends on the counter of lists. -/
theorem shownAnswer_answer {α : Type} {request : Request α}
    (other : request.method ≠ .allocateList) (db : Database) (lists : ListCounter) :
    shownAnswer (answer { db with lists } request) = shownAnswer (db.answer request) := by
  cases request with
  | insertOrigin name littleEndian =>
    refine shownAnswer_bind db.checkMayWrite fun _ => ?_
    dsimp only
    cases db.graph.origins.find? fun o => o.name = name <;> rfl
  | insertSymbol row =>
    refine shownAnswer_bind _ fun _ => shownAnswer_bind db.checkMayWrite fun _ => ?_
    dsimp only
    cases db.graph.symbols.find? fun s => s.key = row.key with
    | some taken => rfl
    | none => exact shownAnswer_bind _ fun _ => rfl
  | insertField row =>
    refine shownAnswer_bind _ fun _ => shownAnswer_bind _ fun _ => shownAnswer_bind _ fun _ =>
      shownAnswer_bind db.checkMayWrite fun _ => ?_
    dsimp only
    cases db.graph.fields.find? fun f => f.key = row.key with
    | some taken => rfl
    | none => exact shownAnswer_bind _ fun _ => shownAnswer_bind _ fun _ => rfl
  | insertDimension list order extent =>
    refine shownAnswer_bind _ fun _ => shownAnswer_bind db.checkMayWrite fun _ => ?_
    dsimp only
    cases db.graph.dimensions.find? fun d => d.key = ⟨list, order⟩ <;> rfl
  | insertEnumerator symbol name value =>
    refine shownAnswer_bind db.checkMayWrite fun _ => ?_
    dsimp only
    cases db.graph.enumerators.find? fun e => e.key = ⟨symbol, name⟩ with
    | some taken => rfl
    | none => exact shownAnswer_bind _ fun _ => rfl
  | allocateList => exact absurd rfl other
  | retargetFields old new =>
    refine shownAnswer_bind db.checkMayWrite fun _ => ?_
    dsimp only
    split
    · exact shownAnswer_bind _ fun _ => rfl
    · rfl
  | setFieldType field type =>
    refine shownAnswer_bind db.checkMayWrite fun _ => ?_
    dsimp only
    split
    · exact shownAnswer_bind _ fun _ => rfl
    · rfl
  | findSymbol key =>
    simp only [answer, findSymbol]
    cases checkFits "byte_size" key.byteSize <;> rfl
  | findOrigin _ | findField _ | symbolById _ | fieldById _ | symbolsNamed _ | snapshot
  | commit => rfl

theorem shownAnswer_congr {db db' : Database} (h : db.shown = db'.shown) {α : Type}
    {request : Request α} (other : request.method ≠ .allocateList) :
    shownAnswer (db.answer request) = shownAnswer (db'.answer request) := by
  obtain ⟨hgraph, hmay⟩ := Prod.mk.inj h
  have hdb : db = { db' with lists := db.lists } := by
    rw [Database.mk.injEq]
    exact ⟨hgraph, rfl, hmay⟩
  rw [hdb]
  exact shownAnswer_answer other db' db.lists

theorem reply_congr {db db' : Database} (h : db.shown = db'.shown) {α : Type}
    {request : Request α} (other : request.method ≠ .allocateList) :
    (db.answer request).map Prod.fst = (db'.answer request).map Prod.fst := by
  have hfst : ∀ x : Except Failure (α × Database), x.map Prod.fst = (shownAnswer x).map Prod.fst := by
    intro x
    cases x <;> rfl
  rw [hfst, hfst, shownAnswer_congr h other]

theorem exists_of_reply {db : Database} {α : Type} {request : Request α} {reply : α}
    (h : (db.answer request).map Prod.fst = .ok reply) :
    ∃ next, db.answer request = .ok (reply, next) := by
  cases hanswer : db.answer request with
  | error e =>
    rw [hanswer] at h
    cases h
  | ok result =>
    rw [hanswer] at h
    cases h
    exact ⟨result.2, rfl⟩

theorem shown_left (db : Database) {α : Type} (request : Request α) :
    (left (Store.serve request db)).shown =
      ((shownAnswer (db.answer request)).toOption.map Prod.snd).getD db.shown := by
  show (left (Attempt.ofStep (fun db : Database => db.answer request) db)).shown = _
  unfold Attempt.ofStep
  dsimp only
  cases db.answer request with
  | ok next => rfl
  | error e => rfl

theorem shown_left_allocateList (db : Database) :
    (left (Store.serve .allocateList db)).shown = db.shown := by
  refine left_ofStep (P := fun next : Database => next.shown = db.shown) rfl fun _ next h => ?_
  obtain ⟨lists, rfl⟩ := allocateList_ok h
  rfl

/-- Databases that show the same show the same after each request. -/
theorem shown_left_congr {db db' : Database} (h : db.shown = db'.shown) {α : Type}
    (request : Request α) :
    (left (Store.serve request db)).shown = (left (Store.serve request db')).shown := by
  by_cases other : request.method = .allocateList
  · cases request <;> simp only [Request.method, reduceCtorEq] at other
    rw [shown_left_allocateList, shown_left_allocateList, h]
  · rw [shown_left, shown_left, shownAnswer_congr h other, h]

/-! ## The counter of lists -/

/-- The counter of lists is past the lists of all rows. -/
def Counts (db : Database) : Prop := ∀ d ∈ db.graph.dimensions, d.list.raw ≤ db.lists.last

theorem counts_ofGraph (rows : Graph) (mayWrite : Bool) :
    Counts { ofGraph rows with mayWrite } := fun _ hd => list_le_greatestList hd

theorem Counts.of_same {db next : Database} (h : db.Counts)
    (rows : next.graph.dimensions = db.graph.dimensions)
    (lists : db.lists.last ≤ next.lists.last) : next.Counts := by
  intro d hd
  rw [rows] at hd
  exact Int.le_trans (h d hd) lists

theorem Counts.insertDimension {db next : Database} (h : db.Counts) {list : ListId}
    {order extent : Nat} {reply : DimensionId}
    (ok : db.insertDimension list order extent = .ok (reply, next)) : next.Counts := by
  unfold Database.insertDimension at ok
  obtain ⟨-, -, ok⟩ := bind_eq_ok.mp ok
  obtain ⟨-, -, ok⟩ := bind_eq_ok.mp ok
  split at ok <;> cases ok
  · exact h.of_same rfl (Int.le_max_left _ _)
  · intro d hd
    rcases List.mem_append.mp hd with hd | hd
    · exact Int.le_trans (h d hd) (Int.le_max_left _ _)
    · rw [List.mem_singleton.mp hd]
      exact Int.le_max_right _ _

theorem allocateList_next {db next : Database} {list : ListId}
    (h : db.allocateList = .ok (list, next)) :
    list.raw = db.lists.last + 1 ∧ next = { db with lists := ⟨db.lists.last + 1⟩ } := by
  unfold allocateList ListCounter.next at h
  split at h <;> cases h
  exact ⟨rfl, rfl⟩

theorem Counts.answer {db next : Database} (h : db.Counts) {α : Type} {request : Request α}
    {reply : α} (ok : db.answer request = .ok (reply, next)) : next.Counts := by
  cases request with
  | insertOrigin name littleEndian =>
    obtain ⟨_, -, -, rfl⟩ | ⟨-, _, -, rfl⟩ := insertOrigin_ok ok <;> exact h
  | insertSymbol row =>
    obtain ⟨-, ⟨_, -, -, rfl⟩ | ⟨-, _, -, rfl⟩⟩ := insertSymbol_ok ok <;> exact h
  | insertField row =>
    obtain ⟨_, -, -, rfl⟩ | ⟨-, _, -, rfl⟩ := insertField_ok ok <;> exact h
  | insertDimension list order extent => exact h.insertDimension ok
  | insertEnumerator symbol name value =>
    obtain ⟨-, ⟨_, -, -, rfl⟩ | ⟨-, _, -, rfl⟩⟩ := insertEnumerator_ok ok <;> exact h
  | allocateList =>
    obtain ⟨-, rfl⟩ := allocateList_next ok
    exact h.of_same rfl (by dsimp only; omega)
  | retargetFields old new =>
    rw [retargetFields_ok ok]
    exact h
  | setFieldType field type =>
    rw [setFieldType_ok ok]
    exact h
  | findSymbol key =>
    simp only [Database.answer] at ok
    cases hfound : db.findSymbol key <;> rw [hfound] at ok <;> cases ok
    exact h
  | findOrigin _ | findField _ | symbolById _ | fieldById _ | symbolsNamed _ | snapshot
  | commit =>
    cases ok
    exact h

/-! ## Requests that write nothing -/

theorem all_lt_columnEnd {value : Option Nat} (h : ∀ n ∈ value, n < columnEnd) :
    value.all (· < columnEnd) = true := by
  cases value with
  | none => rfl
  | some n => exact decide_eq_true (h n rfl)

/-- A request with columns to fill comes to its statement when its numbers fit. -/
theorem writes_of_fits {α : Type} {request : Request α}
    (columns : request.method = .insertSymbol ∨ request.method = .insertField ∨
      request.method = .insertDimension)
    (fits : request.Fits) : DatabaseFile.writes request = true := by
  cases request <;> simp only [Request.method, reduceCtorEq, or_false] at columns
  case insertSymbol row => exact decide_eq_true fits
  case insertDimension list order extent => exact decide_eq_true fits
  case insertField row =>
    obtain ⟨place, size, offset⟩ := fits
    simp only [DatabaseFile.writes, all_lt_columnEnd size, all_lt_columnEnd offset, place,
      decide_true, Bool.and_self]

/-- A request that comes to no statement that writes changes no row. -/
theorem graph_of_not_writes {db next : Database} {α : Type} {request : Request α} {reply : α}
    (reads : DatabaseFile.writes request = false) (ok : db.answer request = .ok (reply, next)) :
    next.graph = db.graph := by
  by_cases columns : request.method = .insertSymbol ∨ request.method = .insertField ∨
      request.method = .insertDimension
  · have unfit : ¬ request.Fits := fun fits => by
      rw [writes_of_fits columns fits] at reads
      cases reads
    obtain ⟨_, _, -, refused⟩ := answer_unfit unfit db
    rw [ok] at refused
    cases refused
  · cases request <;> simp only [DatabaseFile.writes, Bool.true_eq_false] at reads
    case insertSymbol row => exact absurd (.inl rfl) columns
    case insertField row => exact absurd (.inr (.inl rfl)) columns
    case insertDimension list order extent => exact absurd (.inr (.inr rfl)) columns
    case allocateList =>
      obtain ⟨-, rfl⟩ := allocateList_next ok
      rfl
    case findSymbol key =>
      simp only [Database.answer] at ok
      cases hfound : db.findSymbol key <;> rw [hfound] at ok <;> cases ok
      rfl
    all_goals
      cases ok
      rfl

end Database

namespace DatabaseFile

/-! ## What is pending -/

/-- Outside a transaction the file holds what is seen, and the counter of lists is past the lists of
all rows. -/
structure Kept (file : DatabaseFile) : Prop where
  stored : file.inTransaction = false → file.stored = file.seen.graph
  lists : file.seen.Counts

variable {file : DatabaseFile}

theorem kept_opened (rows : Graph) (mayWrite : Bool) :
    Kept (opened { Database.ofGraph rows with mayWrite }) where
  stored _ := rfl
  lists := Database.counts_ofGraph rows mayWrite

@[simp] theorem commit_seen (file : DatabaseFile) : file.commit.seen = file.seen := by
  unfold commit
  split <;> rfl

/-- A commit stores what is seen, whether something is pending or not. -/
theorem Kept.commit_stored (h : file.Kept) : file.commit.stored = file.seen.graph := by
  unfold commit
  split
  · rfl
  · rename_i idle
    exact h.stored (by simpa using idle)

theorem Kept.commit (h : file.Kept) : file.commit.Kept where
  stored _ := by rw [h.commit_stored, commit_seen]
  lists := by
    rw [commit_seen]
    exact h.lists

theorem kept_reopen (file : DatabaseFile) : file.reopen.Kept :=
  kept_opened file.close file.seen.mayWrite

/-- A file that is opened again shows what the database would show. -/
theorem Kept.seen_reopen (h : file.Kept) : file.reopen.seen = file.seen.reopen := by
  show ({ Database.ofGraph file.close with mayWrite := file.seen.mayWrite } : Database) = _
  unfold close
  rw [h.commit_stored]
  rfl

/-! ## Requests -/

theorem serve_eq {α : Type} (request : Request α) (file : DatabaseFile) :
    Store.serve request file = serve request file := rfl

/-- The reply to a request, or its failure. -/
def reply {α : Type} (file : DatabaseFile) (request : Request α) : Except Failure α :=
  match Store.serve request file with
  | .ok a _ => .ok a
  | .error e _ => .error e

/-- A request ends as it does in the database that is seen. -/
theorem reply_eq {α : Type} (file : DatabaseFile) (request : Request α) :
    file.reply request = (file.seen.answer request).map Prod.fst := by
  unfold reply
  simp only [serve_eq, serve, beginFor]
  cases file.seen.answer request with
  | ok result => rfl
  | error e => rfl

theorem seen_left (file : DatabaseFile) {α : Type} (request : Request α) :
    (left (Store.serve request file)).seen = left (Store.serve request file.seen) := by
  show _ = left (Attempt.ofStep (fun db : Database => db.answer request) file.seen)
  simp only [serve_eq, serve, beginFor, Attempt.ofStep]
  cases file.seen.answer request with
  | error e => rfl
  | ok result =>
    dsimp only [left_ok]
    split
    · exact commit_seen _
    · rfl

theorem Kept.serve (h : file.Kept) {α : Type} (request : Request α) :
    (left (Store.serve request file)).Kept := by
  simp only [serve_eq, DatabaseFile.serve, beginFor]
  cases hanswer : file.seen.answer request with
  | error e =>
    refine ⟨fun idle => h.stored ?_, h.lists⟩
    exact (Bool.or_eq_false_iff.mp idle).1
  | ok result =>
    obtain ⟨reply, seen⟩ := result
    have kept : Kept { file with seen, inTransaction := file.inTransaction || writes request } := by
      refine ⟨fun idle => ?_, h.lists.answer hanswer⟩
      obtain ⟨idle, reads⟩ := Bool.or_eq_false_iff.mp idle
      exact (h.stored idle).trans (Database.graph_of_not_writes reads hanswer).symm
    dsimp only [left_ok]
    split
    · exact kept.commit
    · exact kept

/-! ## Runs -/

/-- One thing that is done to a database file. -/
inductive Step
  | ask {α : Type} (request : Request α)
  /-- The file is closed and opened again. -/
  | reopen

def Step.isAsk : Step → Bool
  | .ask _ => true
  | .reopen => false

/-- The file after a step, whether a request went well or failed. -/
def act (file : DatabaseFile) : Step → DatabaseFile
  | .ask request => left (Store.serve request file)
  | .reopen => file.reopen

/-- The file after some steps, the earliest first. -/
def after (file : DatabaseFile) (steps : List Step) : DatabaseFile := steps.foldl act file

theorem Kept.after (h : file.Kept) (steps : List Step) : (file.after steps).Kept := by
  induction steps generalizing file with
  | nil => exact h
  | cons step rest ih =>
    cases step with
    | ask request => exact ih (h.serve request)
    | reopen => exact ih (kept_reopen file)

/-- A run shows what it shows without the reopenings. -/
theorem Kept.shown_after {plain : DatabaseFile} (h : file.Kept)
    (alike : file.seen.shown = plain.seen.shown) (steps : List Step) :
    (file.after steps).seen.shown = (plain.after (steps.filter Step.isAsk)).seen.shown := by
  induction steps generalizing file plain with
  | nil => exact alike
  | cons step rest ih =>
    cases step with
    | ask request =>
      refine ih (h.serve request) ?_
      unfold act
      rw [seen_left, seen_left]
      exact Database.shown_left_congr alike request
    | reopen =>
      refine ih (kept_reopen file) ?_
      unfold act
      rw [h.seen_reopen]
      exact alike

/-! ## The law -/

/-- Take a file with any rows, opened to be written or only to be read, and any requests to it,
commits among them, with the file closed and opened again at any points. What is seen, what the file
holds when it is closed and the reply to the next request are as without the reopenings, but for a
new list. That is greater than the lists of all rows. -/
theorem reopening_a_file_shows_in_nothing_but_new_lists (rows : Graph) (mayWrite : Bool)
    (steps : List Step) :
    let start := opened { Database.ofGraph rows with mayWrite }
    let file := start.after steps
    let plain := start.after (steps.filter Step.isAsk)
    file.reply .snapshot = plain.reply .snapshot ∧ file.reply .snapshot = .ok file.close ∧
      (∀ {α : Type} (request : Request α), request.method ≠ .allocateList →
        file.reply request = plain.reply request) ∧
      ∀ list, file.reply .allocateList = .ok list →
        ∀ d ∈ file.seen.graph.dimensions, d.list.raw < list.raw := by
  intro start file plain
  have kept : file.Kept := (kept_opened rows mayWrite).after steps
  have alike : file.seen.shown = plain.seen.shown :=
    (kept_opened rows mayWrite).shown_after rfl steps
  have replies : ∀ {α : Type} (request : Request α), request.method ≠ .allocateList →
      file.reply request = plain.reply request := by
    intro α request other
    rw [reply_eq, reply_eq]
    exact Database.reply_congr alike other
  refine ⟨replies .snapshot nofun, ?_, replies, ?_⟩
  · rw [reply_eq]
    exact congrArg Except.ok kept.commit_stored.symm
  · intro list hlist d hd
    rw [reply_eq] at hlist
    obtain ⟨next, hanswer⟩ := Database.exists_of_reply hlist
    have hle := kept.lists d hd
    have hnext := (Database.allocateList_next hanswer).1
    omega

/-- A row is pending when an insert is refused and the file is closed, and a row of list 7 is
pending when it is closed again. -/
theorem a_file_with_pending_rows_is_reopened_twice :
    let steps : List Step :=
      [.ask (.insertOrigin "app.o" true), .ask (.insertSymbol ⟨⟨9⟩, "Point", 8⟩), .reopen,
       .ask (.insertDimension ⟨7⟩ 0 3), .ask .allocateList, .reopen]
    let file := (opened { Database.ofGraph {} with mayWrite := true }).after steps
    let plain := (opened { Database.ofGraph {} with mayWrite := true }).after
      (steps.filter Step.isAsk)
    (Request.findOrigin "app.o").method ≠ .allocateList ∧
      file.reply (.findOrigin "app.o") = .ok (some ⟨1⟩) ∧
      plain.reply (.findOrigin "app.o") = .ok (some ⟨1⟩) ∧
      file.reply .allocateList = .ok ⟨8⟩ ∧ plain.reply .allocateList = .ok ⟨9⟩ ∧
      ∀ d ∈ file.seen.graph.dimensions, d.list.raw < 8 := by
  intro steps file plain
  obtain ⟨-, -, replies, lists⟩ :=
    reopening_a_file_shows_in_nothing_but_new_lists {} true steps
  have hfound : file.reply (.findOrigin "app.o") = .ok (some ⟨1⟩) := by decide +kernel
  have hlist : file.reply .allocateList = .ok ⟨8⟩ := by decide +kernel
  exact ⟨nofun, hfound, (replies (.findOrigin "app.o") nofun).symm.trans hfound, hlist,
    by decide +kernel, lists ⟨8⟩ hlist⟩

end DatabaseFile

end LayoutGraph
