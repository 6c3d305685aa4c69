-- The numbers that DWARF gives to kinds of entries, to attributes and to
-- the forms of attribute values.

namespace LayoutGraph.Dwarf

/-! ## Tags -/

/-- The tags of entries that describe types or parts of types. -/
inductive Tag
  | arrayType
  | classType
  | enumerationType
  | member
  | pointerType
  | referenceType
  | structureType
  | subroutineType
  | typedef
  | unionType
  | subrangeType
  | baseType
  | constType
  | enumerator
  | volatileType
  | restrictType
  | unspecifiedType
  | rvalueReferenceType
  | atomicType
  | other
deriving DecidableEq, Repr, Inhabited

def Tag.ofCode : Nat → Tag
  | 0x01 => .arrayType
  | 0x02 => .classType
  | 0x04 => .enumerationType
  | 0x0d => .member
  | 0x0f => .pointerType
  | 0x10 => .referenceType
  | 0x13 => .structureType
  | 0x15 => .subroutineType
  | 0x16 => .typedef
  | 0x17 => .unionType
  | 0x21 => .subrangeType
  | 0x24 => .baseType
  | 0x26 => .constType
  | 0x28 => .enumerator
  | 0x35 => .volatileType
  | 0x37 => .restrictType
  | 0x3b => .unspecifiedType
  | 0x42 => .rvalueReferenceType
  | 0x47 => .atomicType
  | _ => .other

/-! ## Attributes -/

/-- The attributes that say something about a type, its place or its unit. -/
inductive AttributeName
  | sibling
  | name
  | byteSize
  | bitOffset
  | bitSize
  | lineProgram
  | lowAddress
  | directory
  | constValue
  | lowerBound
  | upperBound
  | count
  | memberLocation
  | declaration
  | external
  | type
  | dataBitOffset
  | stringOffsetsBase
  | addressBase
  /-- An attribute that tells a place in another section and is of use to other tools. -/
  | otherPlace
  | other
deriving DecidableEq, Repr, Inhabited

def AttributeName.ofCode : Nat → AttributeName
  | 0x01 => .sibling
  | 0x03 => .name
  | 0x0b => .byteSize
  | 0x0c => .bitOffset
  | 0x0d => .bitSize
  | 0x10 => .lineProgram
  | 0x11 => .lowAddress
  | 0x1b => .directory
  | 0x1c => .constValue
  | 0x22 => .lowerBound
  | 0x2f => .upperBound
  | 0x37 => .count
  | 0x38 => .memberLocation
  | 0x3c => .declaration
  | 0x3f => .external
  | 0x49 => .type
  | 0x6b => .dataBitOffset
  | 0x72 => .stringOffsetsBase
  | 0x73 | 0x2133 => .addressBase
  | 0x02 | 0x19 | 0x2a | 0x2c | 0x40 | 0x43 | 0x46 | 0x48 | 0x4a | 0x4d | 0x55 | 0x79 => .otherPlace
  | _ => .other

/-- An attribute as a fault names it. -/
def AttributeName.text : AttributeName → String
  | .sibling => "DW_AT_sibling"
  | .name => "DW_AT_name"
  | .byteSize => "DW_AT_byte_size"
  | .bitOffset => "DW_AT_bit_offset"
  | .bitSize => "DW_AT_bit_size"
  | .lineProgram => "DW_AT_stmt_list"
  | .lowAddress => "DW_AT_low_pc"
  | .directory => "DW_AT_comp_dir"
  | .constValue => "DW_AT_const_value"
  | .lowerBound => "DW_AT_lower_bound"
  | .upperBound => "DW_AT_upper_bound"
  | .count => "DW_AT_count"
  | .memberLocation => "DW_AT_data_member_location"
  | .declaration => "DW_AT_declaration"
  | .external => "DW_AT_external"
  | .type => "DW_AT_type"
  | .dataBitOffset => "DW_AT_data_bit_offset"
  | .stringOffsetsBase => "DW_AT_str_offsets_base"
  | .addressBase => "DW_AT_addr_base"
  | .otherPlace | .other => "an attribute"

/-! ## Forms -/

/-- How the value of an attribute is stored. -/
inductive Form
  | address
  | block (lengthBytes : Nat)
  | variableBlock
  | data (bytes : Nat)
  | text
  | flag
  | signed
  | unsigned
  | textOffset
  | lineTextOffset
  | supplementaryTextOffset
  | infoReference
  | unitReference (bytes : Nat)
  | variableUnitReference
  | signatureReference
  | supplementaryReference (bytes : Nat)
  | supplementaryOffset
  | indirect
  | sectionOffset
  | expression
  | presentFlag
  | textIndex
  | fixedTextIndex (bytes : Nat)
  | addressIndex
  | fixedAddressIndex (bytes : Nat)
  | data16
  | implicitConstant
  | listIndex
deriving DecidableEq, Repr, Inhabited

def Form.ofCode? : Nat → Option Form
  | 0x01 => some .address
  | 0x03 => some (.block 2)
  | 0x04 => some (.block 4)
  | 0x05 => some (.data 2)
  | 0x06 => some (.data 4)
  | 0x07 => some (.data 8)
  | 0x08 => some .text
  | 0x09 => some .variableBlock
  | 0x0a => some (.block 1)
  | 0x0b => some (.data 1)
  | 0x0c => some .flag
  | 0x0d => some .signed
  | 0x0e => some .textOffset
  | 0x0f => some .unsigned
  | 0x10 => some .infoReference
  | 0x11 => some (.unitReference 1)
  | 0x12 => some (.unitReference 2)
  | 0x13 => some (.unitReference 4)
  | 0x14 => some (.unitReference 8)
  | 0x15 => some .variableUnitReference
  | 0x16 => some .indirect
  | 0x17 => some .sectionOffset
  | 0x18 => some .expression
  | 0x19 => some .presentFlag
  | 0x1a => some .textIndex
  | 0x1b => some .addressIndex
  | 0x1c => some (.supplementaryReference 4)
  | 0x1d => some .supplementaryTextOffset
  | 0x1e => some .data16
  | 0x1f => some .lineTextOffset
  | 0x20 => some .signatureReference
  | 0x21 => some .implicitConstant
  | 0x22 => some .listIndex
  | 0x23 => some .listIndex
  | 0x24 => some (.supplementaryReference 8)
  | 0x25 => some (.fixedTextIndex 1)
  | 0x26 => some (.fixedTextIndex 2)
  | 0x27 => some (.fixedTextIndex 3)
  | 0x28 => some (.fixedTextIndex 4)
  | 0x29 => some (.fixedAddressIndex 1)
  | 0x2a => some (.fixedAddressIndex 2)
  | 0x2b => some (.fixedAddressIndex 3)
  | 0x2c => some (.fixedAddressIndex 4)
  | 0x1f01 => some .addressIndex
  | 0x1f02 => some .textIndex
  | 0x1f20 => some .supplementaryOffset
  | 0x1f21 => some .supplementaryTextOffset
  | _ => none

/-- The code of the form whose value stands beside it in the abbreviation. -/
def implicitConstantCode : Nat := 0x21

end LayoutGraph.Dwarf
