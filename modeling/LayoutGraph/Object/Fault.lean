-- What can be wrong with an object file, apart from its debug information.

namespace LayoutGraph.Object

/-- Why a file is no object file that can be read. -/
inductive FileDefect
  | noMagic
  | unknownMagic
  | dosFile
  | otherFormat
  | elfHeaderSize
  | elfHeader
  | elfProgramEntrySize
  | elfProgramCount
  | elfProgramTable
  | elfFirstSection
  | elfSectionTable
  | elfSectionEntrySize
  | elfNameSectionMissing
  | elfNameSection
  | elfNameSectionEnd
  | elfSymbols
  | elfSectionIndex
  | elfStringSection
  | elfStringSectionEnd
  | elfSymbolSections
  | elfRelocatedSection
  | elfRelocatedRelocations
  | anonymousClass
  | coffHeader
  | bigCoffHeader
  | coffSections
  | coffSymbols
  | coffStrings
  | xcoffHeader
  | xcoffSections
  | xcoffSymbols
  | xcoffStrings
  | machHeader
  | machCommandSize
  | machSections
  | machSymbols
deriving DecidableEq, Repr, Inhabited

def FileDefect.text : FileDefect → String
  | .noMagic => "Could not read file magic"
  | .unknownMagic => "Unknown file magic"
  | .dosFile => "Unknown MS-DOS file"
  | .otherFormat => "Unsupported file format"
  | .elfHeaderSize => "Invalid ELF header size or alignment"
  | .elfHeader => "Unsupported ELF header"
  | .elfProgramEntrySize => "Invalid ELF program header entry size"
  | .elfProgramCount => "Missing ELF section headers for e_phnum overflow"
  | .elfProgramTable => "Invalid ELF program header size or alignment"
  | .elfFirstSection => "Invalid ELF section header offset or size"
  | .elfSectionTable => "Invalid ELF section header offset/size/alignment"
  | .elfSectionEntrySize => "Invalid ELF section header entry size"
  | .elfNameSectionMissing => "Missing ELF e_shstrndx"
  | .elfNameSection => "Invalid ELF e_shstrndx"
  | .elfNameSectionEnd => "Invalid ELF shstrtab size"
  | .elfSymbols => "Invalid ELF symbol table data"
  | .elfSectionIndex => "Invalid ELF section index"
  | .elfStringSection => "Invalid ELF string section type"
  | .elfStringSectionEnd => "Invalid ELF string section offset or size"
  | .elfSymbolSections => "Invalid ELF symtab_shndx data"
  | .elfRelocatedSection => "Invalid ELF sh_info for relocation section"
  | .elfRelocatedRelocations => "Unsupported ELF sh_info for relocation section"
  | .anonymousClass => "Unknown anon object file"
  | .coffHeader => "Invalid COFF file header size or alignment"
  | .bigCoffHeader => "Invalid COFF bigobj file header size or alignment"
  | .coffSections => "Invalid COFF/PE section headers"
  | .coffSymbols => "Invalid COFF symbol table offset or size"
  | .coffStrings => "Missing COFF string table"
  | .xcoffHeader => "Invalid XCOFF header size or alignment"
  | .xcoffSections => "Invalid XCOFF section headers"
  | .xcoffSymbols => "Invalid XCOFF symbol table offset or size"
  | .xcoffStrings => "Missing XCOFF string table"
  | .machHeader => "Invalid Mach-O header size or alignment"
  | .machCommandSize => "Invalid Mach-O command size"
  | .machSections => "Invalid Mach-O number of sections"
  | .machSymbols => "Invalid Mach-O symbol table offset or size"

/-- Why the bytes of a section cannot be had. -/
inductive SectionDefect
  | outsideFile
  | headerOutsideFile
  | headerWithoutBytes
  | headerCutOff
  | compressionType
  | tooLarge
  | zlib
  | sizeMismatch
  | zstandard
  | gnuHeaderWithoutBytes
  | machGnuHeaderWithoutBytes
  | gnuTooShort
  | gnuHeader
deriving DecidableEq, Repr, Inhabited

def SectionDefect.text : SectionDefect → String
  | .outsideFile => "Invalid compressed data size or offset"
  | .headerOutsideFile => "Invalid ELF compressed section offset"
  | .headerWithoutBytes => "Invalid ELF compressed section type"
  | .headerCutOff => "Invalid ELF compressed section size"
  | .compressionType => "Unsupported ELF compression type"
  | .tooLarge => "Uncompressed data allocation failed"
  | .zlib => "Invalid zlib compressed data"
  | .zstandard => "Invalid zstd compressed data"
  | .sizeMismatch => "Uncompressed data size does not match compression header"
  | .gnuHeaderWithoutBytes => "Invalid ELF GNU compressed section type"
  | .machGnuHeaderWithoutBytes => "Invalid Mach-O GNU compressed section type"
  | .gnuTooShort => "GNU compressed section is too short"
  | .gnuHeader => "Invalid GNU compressed section header"

/-- Why the relocations of a section cannot be applied. -/
inductive RelocationDefect
  | unsupportedType
  | unsupportedTarget
  | unknownSymbol
  | unknownSection
  | repeatedPlace
deriving DecidableEq, Repr, Inhabited

def RelocationDefect.text : RelocationDefect → String
  | .unsupportedType => "Unsupported relocation type"
  | .unsupportedTarget => "Unsupported relocation target"
  | .unknownSymbol => "Relocation with invalid symbol"
  | .unknownSection => "Relocation with invalid section"
  | .repeatedPlace => "Multiple relocations for offset"

end LayoutGraph.Object
