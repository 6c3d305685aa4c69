-- Which events are worth showing. A filter is a list of directives: of those
-- that hold everywhere the most precise decides, and those that hold within
-- a span add to what is shown there.
import LayoutGraph.Log.Directive

namespace LayoutGraph.Log

structure Filter where
  directives : List Directive
deriving DecidableEq, Repr, Inhabited

/-- The span of a call to parse: its name, the part that opens it, its level and its detail. -/
def parseSpan : String := "parse"
def parseSpeaker : String := "juicer_core::juicer"
def parseLevel : Level := .info
def parseDetail : String := "origin"

namespace Filter

/-- The filter that admits the levels up to one. -/
def upTo (level : Level) : Filter := ⟨[{ limit := some level }]⟩

/-- A filter by its text: directives between commas. A text without any admits nothing. -/
def ofText? (s : String) : Option Filter := do
  let pieces := (Text.pieces ',' s.toList).filter fun piece => !piece.isEmpty
  return ⟨← pieces.mapM fun piece => Directive.ofText? (String.ofList piece)⟩

/-- How far any directive goes. One that asks for a value makes all spans worth a look. -/
def farthest (f : Filter) : Nat :=
  if f.directives.any Directive.hasValue then Level.trace.rank
  else f.directives.foldl (fun farthest d => max farthest (reach d.limit)) 0

/-! ## Directives that hold everywhere -/

/-- The name of the detail that a directive asks for. -/
def detailName (d : Directive) : Option String := d.scope.detail.map Detail.name

/-- How exactly a directive says what it means. -/
def precision (d : Directive) : Nat × Nat × String :=
  (d.scope.target.elim 0 fun target => target.utf8ByteSize + 1,
    if d.scope.detail.isSome then 1 else 0, (detailName d).getD "")

/-- Whether one directive is less precise than another. -/
def isLessPrecise (a b : Directive) : Bool :=
  let (targetA, detailsA, nameA) := precision a
  let (targetB, detailsB, nameB) := precision b
  decide (targetA < targetB) || (targetA = targetB &&
    (decide (detailsA < detailsB) || (detailsA = detailsB && decide (nameA < nameB))))

/-- The more precise of two directives; of two that are equally precise the later. -/
def prefer (best : Option Directive) (d : Directive) : Option Directive :=
  match best with
  | some b => if isLessPrecise d b then some b else some d
  | none => some d

/-- Whether the directives that hold everywhere admit a level of a part of the program. The most
precise of those that hold decides. -/
def admitsPart (f : Filter) (speaker : String) (level : Level) (holds : Directive → Bool) : Bool :=
  let meant := f.directives.filter fun d => d.isEverywhere && d.means speaker && holds d
  (meant.foldl prefer none).any fun d => decide (level.rank ≤ reach d.limit)

/-! ## Directives that hold within a span -/

/-- The directives in order, less those whose scope comes again. -/
def lastOfEach : List Directive → List Directive
  | [] => []
  | d :: rest =>
    if rest.any fun later => later.scope = d.scope then lastOfEach rest else d :: lastOfEach rest

/-- The directives that mean the span of a call to parse. -/
def forSpan (f : Filter) : List Directive :=
  (lastOfEach (f.directives.filter Directive.isWithinSpan)).filter fun d =>
    d.means parseSpeaker && d.scope.span.all (· = parseSpan)
      && (detailName d).all (· = parseDetail)

/-- Whether a directive that means the span holds for its detail. -/
def holdsFor (d : Directive) (origin : String) : Bool :=
  match d.scope.detail.bind Detail.value with
  | none => true
  | some (.pattern p) => p.isMatch origin
  | some .notText => false

/-- How far the directives go within the span of a call to parse. -/
def spanReach (f : Filter) (origin : String) : Nat :=
  (f.forSpan.filter fun d => holdsFor d origin).foldl (fun best d => max best (reach d.limit)) 0

/-- Whether the span of a call to parse is shown around the events within it. -/
def showsSpan (f : Filter) : Bool :=
  decide (parseLevel.rank ≤ f.farthest) &&
    (!f.forSpan.isEmpty || f.admitsPart parseSpeaker parseLevel fun _ => true)

/-! ## Events -/

/-- Whether an event of a part of the program is shown, by its level, the names of its details, and
the input of the call to parse that it happened in. -/
def admits (f : Filter) (speaker : String) (level : Level) (details : List String)
    (origin : Option String) : Bool :=
  let within := f.showsSpan && origin.any fun origin => decide (level.rank ≤ f.spanReach origin)
  within || f.admitsPart speaker level fun d => (detailName d).all details.contains

end Filter

end LayoutGraph.Log
