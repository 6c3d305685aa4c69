-- Changes of the types of fields. A retyping gives its type to the fields that
-- it hits. Where no retyping hits a field that one before it has hit, the order
-- does not count: each field has the type of the one that hits it, and is
-- counted once.
import LayoutGraph.Graph.Row
import Mathlib.Data.List.Basic

namespace LayoutGraph

namespace Field

/-- Only the type may be another. -/
def OnlyRetyped (f after : Field) : Prop := after = { f with type := after.type }

variable {f m after : Field}

theorem OnlyRetyped.trans (h : f.OnlyRetyped m) (h' : m.OnlyRetyped after) :
    f.OnlyRetyped after := by
  calc after = { m with type := after.type } := h'
    _ = { f with type := after.type } := by rw [h]

theorem OnlyRetyped.id (h : f.OnlyRetyped after) : after.id = f.id := by rw [h]

theorem OnlyRetyped.owner (h : f.OnlyRetyped after) : after.owner = f.owner := by rw [h]

end Field

/-! ## One retyping -/

/-- Some fields, and the type that they are given. -/
structure Retyping where
  hits : Field → Bool
  type : SymbolId

namespace Retyping

def apply (c : Retyping) (f : Field) : Field := if c.hits f then { f with type := c.type } else f

variable {c : Retyping} {f : Field}

theorem apply_of_hit (h : c.hits f = true) : c.apply f = { f with type := c.type } := if_pos h

theorem apply_of_miss (h : c.hits f = false) : c.apply f = f := if_neg (by simp [h])

theorem onlyRetyped_apply (c : Retyping) (f : Field) : f.OnlyRetyped (c.apply f) := by
  unfold apply Field.OnlyRetyped
  split <;> rfl

/-! ## Retypings one after another -/

def applyAll (cs : List Retyping) (f : Field) : Field := cs.foldl (fun f c => c.apply f) f

/-- One of the retypings hits the field. -/
def hitAny (cs : List Retyping) (f : Field) : Bool := cs.any fun c => c.hits f

/-- What one retyping hits, no later one hits, neither before nor after. -/
def Apart (cs : List Retyping) : Prop :=
  cs.Pairwise fun c later => ∀ f, c.hits f = true →
    later.hits f = false ∧ later.hits { f with type := c.type } = false

variable {cs rest : List Retyping}

@[simp] theorem hitAny_nil : hitAny [] = fun _ => false := rfl

@[simp] theorem hitAny_cons : hitAny (c :: rest) = fun f => c.hits f || hitAny rest f := rfl

theorem hitAny_eq_false : hitAny cs f = false ↔ ∀ c ∈ cs, c.hits f = false := by simp [hitAny]

theorem onlyRetyped_applyAll (cs : List Retyping) (f : Field) :
    f.OnlyRetyped (applyAll cs f) := by
  induction cs generalizing f with
  | nil => rfl
  | cons c rest ih => exact (c.onlyRetyped_apply f).trans (ih _)

theorem applyAll_of_miss (h : hitAny cs f = false) : applyAll cs f = f := by
  rw [hitAny_eq_false] at h
  induction cs with
  | nil => rfl
  | cons c rest ih =>
    obtain ⟨head, others⟩ := List.forall_mem_cons.mp h
    show applyAll rest (c.apply f) = f
    rw [apply_of_miss head]
    exact ih others

/-- A field that a retyping has hit is hit by no later one. -/
theorem hitAny_apply_of_hit (apart : Apart (c :: rest)) (h : c.hits f = true) :
    hitAny rest (c.apply f) = false := by
  rw [apply_of_hit h, hitAny_eq_false]
  intro later hlater
  exact ((List.pairwise_cons.mp apart).1 later hlater f h).2

/-- Of retypings that are apart, the one that hits a field gives it its type. -/
theorem applyAll_of_hit (apart : Apart cs) (hc : c ∈ cs) (h : c.hits f = true) :
    applyAll cs f = { f with type := c.type } := by
  induction cs with
  | nil => cases hc
  | cons head rest ih =>
    show applyAll rest (head.apply f) = _
    rcases List.mem_cons.mp hc with rfl | hc
    · rw [applyAll_of_miss (hitAny_apply_of_hit apart h), apply_of_hit h]
    · obtain ⟨first, apart⟩ := List.pairwise_cons.mp apart
      have missed : head.hits f = false := by
        cases hhead : head.hits f with
        | false => rfl
        | true => exact absurd h (by simp [(first c hc f hhead).1])
      rw [apply_of_miss missed]
      exact ih apart hc

/-- Of retypings that are apart, each field is hit by the first or, when it is done, by another. -/
theorem length_filter_hitAny (apart : Apart (c :: rest)) (fields : List Field) :
    (fields.filter c.hits).length + ((fields.map c.apply).filter (hitAny rest)).length =
      (fields.filter (hitAny (c :: rest))).length := by
  induction fields with
  | nil => rfl
  | cons f fields ih =>
    cases h : c.hits f with
    | true =>
      have later := hitAny_apply_of_hit apart h
      simp [h, later] at ih ⊢
      omega
    | false =>
      cases h' : hitAny rest f with
      | true =>
        simp [h, h', apply_of_miss h] at ih ⊢
        omega
      | false =>
        simp [h, h', apply_of_miss h] at ih ⊢
        omega

end Retyping

end LayoutGraph
