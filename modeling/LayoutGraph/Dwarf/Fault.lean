-- What can be wrong with debug sections, and where the reader was when it
-- noticed.

namespace LayoutGraph.Dwarf

/-- A defect of the bytes of a debug section. -/
inductive Defect
  | endOfInput
  | unknownVersion
  | reservedLength
  | addressSize
  | unitType
  | unknownAbbreviation
  | repeatedAbbreviation
  | zeroTag
  | zeroForm
  | childrenFlag
  | nonzeroEnd
  | unknownForm
  | strayImplicitConstant
  | notAString
  | unsignedOverflow
  | signedOverflow
  | unknownOperation
  | registerNumber
  | noUnitEntry
  | segmentSize
  | zeroInstructionBytes
  | zeroOperations
  | zeroLineRange
  | zeroOpcodeBase
  | noPathFormat
  /-- A place in a table is no word of 64 bits. -/
  | placeOverflow
deriving DecidableEq, Repr, Inhabited

/-- The break inside a text of two lines; the second is indented. -/
def continuation : String := "\n                 "

def Defect.text : Defect → String
  | .endOfInput => "Hit the end of input before it was expected"
  | .unknownVersion => "Found an unknown DWARF version"
  | .reservedLength => "Found an unknown reserved length value"
  | .addressSize => "The specified address size is not supported"
  | .unitType => "The `DW_UT_*` value for this unit is not supported yet"
  | .unknownAbbreviation => "Found a record with an unknown abbreviation code"
  | .repeatedAbbreviation => "Found an abbreviation code that has already been used"
  | .zeroTag =>
    "An abbreviation declared that its tag is zero," ++ continuation
      ++ "but zero is reserved for null records"
  | .zeroForm =>
    "An attribute specification declared that its form is zero," ++ continuation
      ++ "but zero is reserved for null records"
  | .childrenFlag =>
    "The abbreviation's has-children byte was not one of" ++ continuation
      ++ "`DW_CHILDREN_\x7byes,no\x7d`"
  | .nonzeroEnd => "Expected a zero, found something else"
  | .unknownForm => "Found an unknown `DW_FORM_*` type"
  | .strayImplicitConstant => "DW_FORM_implicit_const used in an invalid context."
  | .notAString => "Expected an attribute value to be a string form."
  | .unsignedOverflow => "An error parsing an unsigned LEB128 value"
  | .signedOverflow => "An error parsing a signed LEB128 value"
  | .unknownOperation => "Invalid opcode in DWARF expression"
  | .registerNumber => "Registers larger than `u16` are not supported."
  | .noUnitEntry => "A compilation unit or type unit is missing its top level DIE."
  | .segmentSize => "Nonzero segment size not supported yet"
  | .zeroInstructionBytes => "The minimum instruction length must not be zero."
  | .zeroOperations => "The maximum operations per instruction must not be zero."
  | .zeroLineRange => "The line range must not be zero."
  | .zeroOpcodeBase => "The opcode base must not be zero."
  | .noPathFormat => "Missing DW_LNCT_path in file entry format."
  | .placeOverflow => "attempt to multiply with overflow"

/-- What was being read when a defect showed. -/
inductive Task
  | infoHeader
  | infoUnit
  | typesHeader
  | typesUnit
  | walkTree
  | compoundChildren
  | constants
  | subranges
  | attribute (name : String)
  | location
  | string
deriving DecidableEq, Repr, Inhabited

def Task.text : Task → String
  | .infoHeader => "reading .debug_info unit header"
  | .infoUnit => "parsing compilation unit"
  | .typesHeader => "reading .debug_types unit header"
  | .typesUnit => "parsing type unit"
  | .walkTree => "traversing DIE tree"
  | .compoundChildren => "iterating compound children"
  | .constants => "iterating enumerators"
  | .subranges => "iterating subranges"
  | .attribute name => "reading " ++ name
  | .location => "evaluating member location"
  | .string => "resolving DWARF string"

/-- A defect, met during a task. -/
structure Fault where
  task : Task
  defect : Defect
deriving DecidableEq, Repr, Inhabited

def Fault.text (f : Fault) : String := f.task.text ++ ": " ++ f.defect.text

end LayoutGraph.Dwarf
