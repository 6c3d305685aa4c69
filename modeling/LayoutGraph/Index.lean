-- An index from keys to row ids: a list of pairs, the newest in front. A
-- look-up gives the newest pair of its key, so an insert hides older ones.

namespace LayoutGraph

structure Index (κ ι : Type) where
  pairs : List (κ × ι) := []
deriving Repr, Inhabited

namespace Index

variable {κ ι : Type} [DecidableEq κ]

def find? (index : Index κ ι) (key : κ) : Option ι := index.pairs.lookup key

def insert (index : Index κ ι) (key : κ) (id : ι) : Index κ ι := ⟨(key, id) :: index.pairs⟩

@[simp] theorem find?_empty (key : κ) : ({} : Index κ ι).find? key = none := rfl

theorem find?_insert (index : Index κ ι) (key other : κ) (id : ι) :
    (index.insert key id).find? other = if other = key then some id else index.find? other := by
  by_cases h : other = key
  · simp [find?, insert, h]
  · have hne : (other == key) = false := by simpa using h
    simp [find?, insert, List.lookup_cons, h, hne]

end Index

end LayoutGraph
