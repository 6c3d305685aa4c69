-- The numbers by which processors name their relocations. Of these only
-- the ones that store an address serve debug sections.
import LayoutGraph.Object.Relocation

namespace LayoutGraph.Object

/-- The relocations of a processor that store an address. -/
def absoluteTypes (machine : Nat) (wide : Bool) : List Nat :=
  match machine with
  | 2 | 18 => [3, 23]
  | 3 => [1, 20, 22]
  | 4 => [1, 2, 3]
  | 8 => [1, 2, 18]
  | 15 => [1]
  | 20 => [1]
  | 21 => [1, 38]
  | 22 => [1, 3, 4, 22]
  | 40 => [2]
  | 42 => [1]
  | 43 => [3, 23, 32, 54]
  | 62 => [1, 10, 11, 12, 14]
  | 83 => [1, 4]
  | 94 => [1]
  | 105 => [1, 5]
  | 133 => [11, 12, 13, 16, 17, 18, 19, 20, 25]
  | 164 => [6]
  | 175 => [0, 50, 51]
  | 183 => if wide then [257, 258, 259] else [1]
  | 243 => [1, 2]
  | 247 => [1, 10]
  | 252 => [1]
  | 258 => [1, 2]
  | 263 => [1, 10]
  | 36902 => [1, 2]
  | _ => []

/-- What a relocation of a processor asks for. -/
def relocationKind (machine : Nat) (wide : Bool) (type : Nat) : RelocationKind :=
  if type ∈ absoluteTypes machine wide then .absolute else .other

end LayoutGraph.Object
