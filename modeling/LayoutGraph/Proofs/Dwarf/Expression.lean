-- Expressions as the value of an attribute: a run of bytes after its length, in
-- which operations stand one after another. Those that push a constant without a
-- sign, add one, or add two values are read as they are spelled.
import LayoutGraph.Proofs.Dwarf.Standing

namespace LayoutGraph.Dwarf

open Work

/-! ## Runs of bytes -/

theorem slice?_eq_some_iff {bytes : Bytes} {start : Nat} {run : List UInt8} :
    Bytes.slice? bytes start run.length = some run ↔
      (run = [] ∨ start + run.length ≤ bytes.size) ∧
        (bytes.toList.drop start).take run.length = run := by
  unfold Bytes.slice? Bytes.has
  simp only [List.length_eq_zero_iff, decide_eq_true_eq, Array.toList_extract,
    List.extract_eq_take_drop, Nat.add_sub_cancel_left, Option.ite_none_right_eq_some,
    Option.some.injEq]

theorem slice?_append {bytes : Bytes} {start : Nat} {run rest : List UInt8}
    (h : Bytes.slice? bytes start (run ++ rest).length = some (run ++ rest)) :
    Bytes.slice? bytes start run.length = some run ∧
      Bytes.slice? bytes (start + run.length) rest.length = some rest := by
  obtain ⟨hroom, hrun⟩ := slice?_eq_some_iff.mp h
  rw [List.length_append] at hroom hrun
  refine ⟨slice?_eq_some_iff.mpr ⟨?_, ?_⟩, slice?_eq_some_iff.mpr ⟨?_, ?_⟩⟩
  · rw [List.append_eq_nil_iff] at hroom
    exact hroom.imp And.left fun hroom => by omega
  · have hleft := congrArg (List.take run.length) hrun
    rw [List.take_take, List.take_left, Nat.min_eq_left (Nat.le_add_right _ _)] at hleft
    exact hleft
  · rw [List.append_eq_nil_iff] at hroom
    exact hroom.imp And.right fun hroom => by omega
  · have hright := congrArg (List.drop run.length) hrun
    rw [List.drop_take, List.drop_left, Nat.add_sub_cancel_left, List.drop_drop] at hright
    exact hright

namespace Cursor

variable {sections : Sections} {c : Cursor} {run rest : List UInt8}

theorem past_past (c : Cursor) (count more : Nat) :
    (c.past count).past more = c.past (count + more) := by
  simp only [past, Nat.add_assoc]

theorem Shows.left (h : c.Shows sections (run ++ rest)) : c.Shows sections run := by
  refine ⟨(slice?_append h.1).1, ?_⟩
  have hroom := h.2
  rw [List.length_append] at hroom
  omega

theorem Shows.right (h : c.Shows sections (run ++ rest)) :
    (c.past run.length).Shows sections rest := by
  refine ⟨(slice?_append h.1).2, ?_⟩
  have hroom := h.2
  rw [List.length_append] at hroom
  show c.place + run.length + rest.length ≤ c.stop
  omega

/-- The run of bytes that begins at the cursor, as a stretch of its own. -/
def bounded (c : Cursor) (count : Nat) : Cursor := { c with stop := c.place + count }

theorem Shows.bounded (h : c.Shows sections run) : (c.bounded run.length).Shows sections run :=
  ⟨h.1, Nat.le_refl _⟩

end Cursor

theorem Read.gives_split {sections : Sections} {c : Cursor} {bytes : List UInt8}
    (h : c.Shows sections bytes) :
    Gives sections c (Read.split bytes.length) (c.bounded bytes.length) (c.past bytes.length) := by
  unfold Read.split
  refine gives_bind_iff.mpr ⟨c, c, gives_get_iff.mpr ⟨rfl, rfl⟩, ?_⟩
  rw [if_pos h.2]
  exact gives_bind_iff.mpr ⟨⟨⟩, _, gives_set_iff.mpr rfl, gives_pure_iff.mpr ⟨rfl, rfl⟩⟩

/-! ## Forms for expressions -/

namespace Form

/-- The bytes are the length of a run of bytes in a form for expressions. -/
inductive Measures (littleEndian : Bool) (length : Nat) : Form → List UInt8 → Prop
  | block {bytes : List UInt8} : bytes.length ∈ [1, 2, 4] →
    Bytes.toNumber littleEndian bytes = length →
    Measures littleEndian length (.block bytes.length) bytes
  | variableBlock {bytes : List UInt8} : Leb 128 bytes length → bytes.length ≤ Read.longest →
    length < Word.count → Measures littleEndian length .variableBlock bytes
  | expression {bytes : List UInt8} : Leb 128 bytes length → bytes.length ≤ Read.longest →
    length < Word.count → Measures littleEndian length .expression bytes

/-- A run of bytes after its length is read as the value of an attribute. -/
theorem Measures.gives {sections : Sections} {c : Cursor} (e : Encoding) (spec : AttributeSpec)
    {form : Form} {measure bytes : List UInt8}
    (h : form.Measures (c.littleEndian sections) bytes.length measure)
    (shows : c.Shows sections (measure ++ bytes)) :
    Gives sections c (AttributeValue.readForm e spec form)
      (.block ((c.past measure.length).bounded bytes.length))
      (c.past (measure.length + bytes.length)) := by
  have hblock : Gives sections (c.past measure.length) (AttributeValue.readBlock bytes.length)
      (.block ((c.past measure.length).bounded bytes.length))
      (c.past (measure.length + bytes.length)) := by
    have hsplit := Read.gives_split shows.right
    rw [c.past_past] at hsplit
    exact gives_map_iff.mpr ⟨_, hsplit, rfl⟩
  cases h with
  | block _ hlength =>
    have hread := Read.gives_number shows.left
    rw [hlength] at hread
    exact gives_bind_iff.mpr ⟨_, _, hread, hblock⟩
  | variableBlock hleb hlong hword | expression hleb hlong hword =>
    exact gives_bind_iff.mpr ⟨_, _, Read.gives_unsigned hleb shows.left hlong hword, hblock⟩

end Form

/-! ## Operations -/

namespace Operation

/-- The bytes are an operation that pushes a constant without a sign, of fixed or variable length
or as a part of the code, that adds one to the top of the stack, or that adds the two topmost
values. -/
inductive Spells (littleEndian : Bool) : List UInt8 → Operation → Prop
  | fixed {code : UInt8} {bytes : List UInt8} :
    (code, bytes.length) ∈ [(0x08, 1), (0x0a, 2), (0x0c, 4), (0x0e, 8)] →
    Spells littleEndian (code :: bytes) (.constant (Bytes.toNumber littleEndian bytes))
  | leb {bytes : List UInt8} {n : Nat} : Leb 128 bytes n → bytes.length ≤ Read.longest →
    n < Word.count → Spells littleEndian (0x10 :: bytes) (.constant n)
  | literal {code : UInt8} : 0x30 ≤ code.toNat → code.toNat ≤ 0x4f →
    Spells littleEndian [code] (.constant (code.toNat - 0x30))
  | addConstant {bytes : List UInt8} {n : Nat} : Leb 128 bytes n → bytes.length ≤ Read.longest →
    n < Word.count → Spells littleEndian (0x23 :: bytes) (.addConstant n)
  | add : Spells littleEndian [0x22] .add

/-- The bytes are operations one after another. -/
inductive SpellsAll (littleEndian : Bool) : List UInt8 → List Operation → Prop
  | nil : SpellsAll littleEndian [] []
  | cons {bytes rest : List UInt8} {o : Operation} {later : List Operation} :
    Spells littleEndian bytes o → SpellsAll littleEndian rest later →
    SpellsAll littleEndian (bytes ++ rest) (o :: later)

variable {sections : Sections} {c : Cursor} {bytes : List UInt8} {littleEndian : Bool}

theorem Spells.length_pos {o : Operation} (h : Spells littleEndian bytes o) : 0 < bytes.length := by
  cases h <;> exact Nat.succ_pos _

/-- An operation is read as it is spelled. -/
theorem gives_read (e : Encoding) {o : Operation} (h : Spells (c.littleEndian sections) bytes o)
    (shows : c.Shows sections bytes) :
    Gives sections c (read e) o (c.past bytes.length) := by
  cases h with
  | @fixed code bytes hcode =>
    have hread (count : Nat) (hcount : bytes.length = count) :
        Gives sections (c.past 1) (Read.number count)
          (Bytes.toNumber (c.littleEndian sections) bytes) (c.past (bytes.length + 1)) := by
      have hnumber := Read.gives_number shows.tail
      rw [c.past_one_past, hcount] at hnumber
      rwa [hcount]
    refine gives_bind_iff.mpr ⟨code, _, Read.gives_byte shows, ?_⟩
    simp only [List.mem_cons, List.not_mem_nil, or_false, Prod.mk.injEq] at hcode
    rcases hcode with ⟨rfl, hlength⟩ | ⟨rfl, hlength⟩ | ⟨rfl, hlength⟩ | ⟨rfl, hlength⟩ <;>
      exact gives_map_iff.mpr ⟨_, hread _ hlength, rfl⟩
  | @leb bytes n hleb hlong hword =>
    have hread := Read.gives_unsigned hleb shows.tail hlong hword
    rw [c.past_one_past] at hread
    refine gives_bind_iff.mpr ⟨0x10, _, Read.gives_byte shows, ?_⟩
    exact gives_map_iff.mpr ⟨_, hread, rfl⟩
  | @literal code low high =>
    unfold read
    refine gives_bind_iff.mpr ⟨code, _, Read.gives_byte shows, ?_⟩
    dsimp only
    split
    case h_8 =>
      rw [if_pos ⟨low, high⟩]
      exact gives_pure_iff.mpr ⟨rfl, rfl⟩
    all_goals omega
  | @addConstant bytes n hleb hlong hword =>
    have hread := Read.gives_unsigned hleb shows.tail hlong hword
    rw [c.past_one_past] at hread
    refine gives_bind_iff.mpr ⟨0x23, _, Read.gives_byte shows, ?_⟩
    exact gives_map_iff.mpr ⟨_, hread, rfl⟩
  | add => exact gives_bind_iff.mpr ⟨0x22, _, Read.gives_byte shows, gives_pure_iff.mpr ⟨rfl, rfl⟩⟩

/-- The operations of an expression are read up to its end. -/
theorem gives_readAll (e : Encoding) {seen operations : List Operation} {fuel : Nat}
    (h : SpellsAll littleEndian bytes operations) (order : c.littleEndian sections = littleEndian)
    (shows : c.Shows sections bytes)
    (ends : c.place + bytes.length = c.stop) (enough : bytes.length ≤ fuel) :
    Gives sections c (readAll e seen fuel) (seen.reverse ++ operations)
      (c.past bytes.length) := by
  induction h generalizing c seen fuel with
  | nil =>
    rw [List.append_nil]
    cases fuel with
    | zero => exact gives_pure_iff.mpr ⟨rfl, rfl⟩
    | succ fuel =>
      have hend : c.atEnd = true := decide_eq_true (Nat.le_of_eq ends.symm)
      unfold readAll
      refine gives_bind_iff.mpr ⟨c, c, gives_get_iff.mpr ⟨rfl, rfl⟩, ?_⟩
      rw [if_pos hend]
      exact gives_pure_iff.mpr ⟨rfl, rfl⟩
  | @cons bytes rest o later hhere _ ih =>
    have hpos := hhere.length_pos
    rw [List.length_append] at ends enough ⊢
    obtain ⟨fuel, rfl⟩ := Nat.exists_eq_add_of_le' (Nat.le_trans (by omega : 1 ≤ _) enough)
    have hend : ¬ c.atEnd = true := by
      unfold Cursor.atEnd
      rw [decide_eq_true_eq]
      omega
    have hends : (c.past bytes.length).place + rest.length = c.stop := by
      show c.place + bytes.length + rest.length = c.stop
      omega
    have hlater : Gives sections (c.past bytes.length) (readAll e (o :: seen) fuel)
        ((o :: seen).reverse ++ later) _ := ih order shows.right hends (by omega)
    rw [c.past_past, List.reverse_cons, List.append_assoc] at hlater
    unfold readAll
    refine gives_bind_iff.mpr ⟨c, c, gives_get_iff.mpr ⟨rfl, rfl⟩, ?_⟩
    rw [if_neg hend]
    exact gives_bind_iff.mpr ⟨o, _, gives_read e (order ▸ hhere) shows.left, hlater⟩

theorem run_ofExpression (e : Encoding) {operations : List Operation}
    (h : SpellsAll (c.littleEndian sections) bytes operations) (shows : c.Shows sections bytes) :
    (ofExpression e (c.bounded bytes.length)).run.run sections = .ok operations := by
  have hfuel : bytes.length = c.place + bytes.length - c.place := by omega
  have hread : Gives sections (c.bounded bytes.length)
      (readAll e [] (c.place + bytes.length - c.place)) operations _ :=
    gives_readAll e h rfl shows.bounded rfl (Nat.le_of_eq hfuel)
  exact Trial.run_bind_ok_iff.mpr ⟨(operations, _), Trial.run_on_ok_iff.mpr hread, rfl⟩

/-- Every constant that is spelled is a word. -/
theorem Spells.constant_lt {v : Nat} (h : Spells littleEndian bytes (.constant v)) :
    v < Word.count := by
  cases h with
  | @fixed code bytes hcode =>
    have hlength : bytes.length ≤ 8 := by
      simp only [List.mem_cons, List.not_mem_nil, or_false, Prod.mk.injEq] at hcode
      omega
    have hnumber : Bytes.toNumber littleEndian bytes < 2 ^ (8 * bytes.length) := by
      unfold Bytes.toNumber
      split
      · have hlow := Bytes.lowFirst_lt bytes
        rwa [Nat.one_shiftLeft] at hlow
      · have hlow := Bytes.lowFirst_lt bytes.reverse
        rwa [Nat.one_shiftLeft, List.length_reverse] at hlow
    exact Nat.lt_of_lt_of_le hnumber
      (Nat.pow_le_pow_right (n := 2) (by decide) (by omega : 8 * bytes.length ≤ 64))
  | leb _ _ hword => exact hword
  | literal _ high =>
    unfold Word.count
    omega

theorem SpellsAll.constant_lt {operations : List Operation}
    (h : SpellsAll littleEndian bytes operations) {v : Nat} (hv : .constant v ∈ operations) :
    v < Word.count := by
  induction h with
  | nil => cases hv
  | cons hhere _ ih =>
    rcases List.mem_cons.mp hv with rfl | hv
    · exact hhere.constant_lt
    · exact ih hv

end Operation

/-! ## Entries -/

namespace CompiledUnit

variable {sections : Sections} {u : CompiledUnit} {d : Die} {wanted : AttributeName}
  {operations : List Operation}

/-- The entry at a place of the unit has an expression as the value of an attribute. -/
def Expresses (sections : Sections) (u : CompiledUnit) (place : Nat) (wanted : AttributeName)
    (operations : List Operation) : Prop :=
  ∃ form c measure bytes, u.Stands sections place wanted form c ∧
    c.Shows sections (measure ++ bytes) ∧
    form.Measures (c.littleEndian sections) bytes.length measure ∧
    Operation.SpellsAll (c.littleEndian sections) bytes operations

theorem Expresses.constant_lt {place v : Nat} (h : u.Expresses sections place wanted operations)
    (hv : .constant v ∈ operations) : v < Word.count := by
  obtain ⟨_, _, _, _, -, -, -, hspells⟩ := h
  exact hspells.constant_lt hv

/-- The expression is the value that the entry has, and its operations are read from it. -/
theorem Expresses.value? (has : u.Has sections d)
    (h : u.Expresses sections d.place wanted operations) :
    ∃ c, d.value? wanted = some (.block c) ∧
      (Operation.ofExpression u.encoding c).run.run sections = .ok operations := by
  obtain ⟨form, c, measure, bytes, stands, shows, measures, spells⟩ := h
  refine ⟨(c.past measure.length).bounded bytes.length, ?_, ?_⟩
  · exact stands.value? has fun spec _ => ⟨_, measures.gives u.encoding spec shows⟩
  · exact Operation.run_ofExpression u.encoding spells shows.right

end CompiledUnit

end LayoutGraph.Dwarf
