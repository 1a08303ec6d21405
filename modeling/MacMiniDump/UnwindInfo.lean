import MacMiniDump.Lib.PartitionPoint
import MacMiniDump.LoadCommands
import MacMiniDump.StackWalk

/-!
# `LookupStackFrameForPC`

Whether the function at an address has set up a stack frame, by the compact unwind info of its
image. Its first level maps functions to second-level pages, of which there are two kinds; every
table is searched in the target's memory, entry by entry. The entries of a page are taken to follow
its header.
-/

namespace MacMiniDump

def UNWIND_SECOND_LEVEL_REGULAR : UInt32 := 2
def UNWIND_SECOND_LEVEL_COMPRESSED : UInt32 := 3
def UNWIND_ARM64_MODE_MASK : UInt32 := 0x0F000000
def UNWIND_ARM64_MODE_FRAMELESS : UInt32 := 0x02000000
def UNWIND_ARM64_MODE_FRAME : UInt32 := 0x04000000

/-- `UNWIND_INFO_COMPRESSED_ENTRY_FUNC_OFFSET` -/
def compressedEntryFuncOffset (entry : UInt32) : UInt32 := entry &&& 0x00FFFFFF

/-- `UNWIND_INFO_COMPRESSED_ENTRY_ENCODING_INDEX` -/
def compressedEntryEncodingIndex (entry : UInt32) : UInt32 := (entry >>> 24) &&& 0xFF

/-- `unwind_info_section_header` -/
structure UnwindInfoSectionHeader where
  version : UInt32
  commonEncodingsArraySectionOffset : UInt32
  commonEncodingsArrayCount : UInt32
  personalityArraySectionOffset : UInt32
  personalityArrayCount : UInt32
  indexSectionOffset : UInt32
  indexCount : UInt32
  deriving DecidableEq, Repr

def UnwindInfoSectionHeader.decode (l : List UInt8) : UnwindInfoSectionHeader where
  version := u32At l 0
  commonEncodingsArraySectionOffset := u32At l 4
  commonEncodingsArrayCount := u32At l 8
  personalityArraySectionOffset := u32At l 12
  personalityArrayCount := u32At l 16
  indexSectionOffset := u32At l 20
  indexCount := u32At l 24

/-- `unwind_info_section_header_index_entry` -/
structure UnwindInfoIndexEntry where
  functionOffset : UInt32
  secondLevelPagesSectionOffset : UInt32
  lsdaIndexArraySectionOffset : UInt32
  deriving DecidableEq, Repr

def UnwindInfoIndexEntry.decode (l : List UInt8) : UnwindInfoIndexEntry where
  functionOffset := u32At l 0
  secondLevelPagesSectionOffset := u32At l 4
  lsdaIndexArraySectionOffset := u32At l 8

/-- `unwind_info_regular_second_level_page_header` -/
structure RegularPageHeader where
  kind : UInt32
  entryPageOffset : UInt16
  entryCount : UInt16
  deriving DecidableEq, Repr

def RegularPageHeader.decode (l : List UInt8) : RegularPageHeader where
  kind := u32At l 0
  entryPageOffset := u16At l 4
  entryCount := u16At l 6

/-- `unwind_info_regular_second_level_entry` -/
structure RegularEntry where
  functionOffset : UInt32
  encoding : UInt32
  deriving DecidableEq, Repr

def RegularEntry.decode (l : List UInt8) : RegularEntry where
  functionOffset := u32At l 0
  encoding := u32At l 4

/-- `unwind_info_compressed_second_level_page_header` -/
structure CompressedPageHeader where
  kind : UInt32
  entryPageOffset : UInt16
  entryCount : UInt16
  encodingsPageOffset : UInt16
  encodingsCount : UInt16
  deriving DecidableEq, Repr

def CompressedPageHeader.decode (l : List UInt8) : CompressedPageHeader where
  kind := u32At l 0
  entryPageOffset := u16At l 4
  entryCount := u16At l 6
  encodingsPageOffset := u16At l 8
  encodingsCount := u16At l 10

section Lookup

-- `ReadProcessMemoryInto`, by address and size
variable (read : UInt64 → UInt64 → Option (List UInt8))

/-- The `i`-th entry of a table, each of `size` bytes. -/
def readEntry {α : Type} (decode : List UInt8 → α) (tableAddr size : UInt64) (i : ℕ) : Option α :=
  (read (tableAddr + UInt64.ofNat i * size) size).map decode

/-- The encoding that a regular page has for a function. -/
def regularEncoding (secondLevelAddr : UInt64) (pcOffset : UInt32) : Option UInt32 :=
  match (read secondLevelAddr 8).map RegularPageHeader.decode with
  | none => none
  | some pageHeader =>
    let entriesAddr := secondLevelAddr + 8
    (lastPassing (readEntry read RegularEntry.decode entriesAddr 8)
      (fun pEntry => decide (pEntry.functionOffset ≤ pcOffset)) pageHeader.entryCount.toNat).map
        RegularEntry.encoding

/-- An encoding by its index, in the common table or in that of the page. -/
def encodingAt (unwindInfoLoadAddr : UInt64) (unwindHeader : UnwindInfoSectionHeader)
    (secondLevelAddr : UInt64) (pageHeader : CompressedPageHeader) (encodingIndex : UInt16) :
    Option UInt32 :=
  if encodingIndex.toUInt32 < unwindHeader.commonEncodingsArrayCount then
    (read (unwindInfoLoadAddr + unwindHeader.commonEncodingsArraySectionOffset.toUInt64
      + encodingIndex.toUInt64 * 4) 4).map read32
  else
    let pageEncodingIndex :=
      (encodingIndex.toUInt32 - unwindHeader.commonEncodingsArrayCount).toUInt16
    (read (secondLevelAddr + pageHeader.encodingsPageOffset.toUInt64
      + pageEncodingIndex.toUInt64 * 4) 4).map read32

/-- The encoding that a compressed page has for a function. -/
def compressedEncoding (unwindInfoLoadAddr : UInt64) (unwindHeader : UnwindInfoSectionHeader)
    (entry : UnwindInfoIndexEntry) (secondLevelAddr : UInt64) (pcOffset : UInt32) :
    Option UInt32 :=
  match (read secondLevelAddr 12).map CompressedPageHeader.decode with
  | none => none
  | some pageHeader =>
    let entriesAddr := secondLevelAddr + 12
    match lastPassing (readEntry read read32 entriesAddr 4)
        (fun pEntryVal =>
          decide (compressedEntryFuncOffset pEntryVal ≤ pcOffset - entry.functionOffset))
        pageHeader.entryCount.toNat with
    | none => none
    | some pEntryVal =>
      encodingAt read unwindInfoLoadAddr unwindHeader secondLevelAddr pageHeader
        (compressedEntryEncodingIndex pEntryVal).toUInt16

/-- The encoding for the function at that offset into its image. -/
def lookupEncoding (unwindInfoLoadAddr : UInt64) (pcOffset : UInt32) : Option UInt32 :=
  match (read unwindInfoLoadAddr 28).map UnwindInfoSectionHeader.decode with
  | none => none
  | some unwindHeader =>
    let indexSectionAddr := unwindInfoLoadAddr + unwindHeader.indexSectionOffset.toUInt64
    match lastPassing (readEntry read UnwindInfoIndexEntry.decode indexSectionAddr 12)
        (fun midEntry => decide (midEntry.functionOffset ≤ pcOffset))
        unwindHeader.indexCount.toNat with
    | none => none
    | some entry =>
      if entry.secondLevelPagesSectionOffset = 0 then none
      else
        let secondLevelAddr := unwindInfoLoadAddr + entry.secondLevelPagesSectionOffset.toUInt64
        match (read secondLevelAddr 4).map read32 with
        | none => none
        | some kind =>
          if kind = UNWIND_SECOND_LEVEL_REGULAR then regularEncoding read secondLevelAddr pcOffset
          else if kind = UNWIND_SECOND_LEVEL_COMPRESSED then
            compressedEncoding read unwindInfoLoadAddr unwindHeader entry secondLevelAddr pcOffset
          else none

/-- The mode of an encoding. -/
def classifyEncoding (encoding : UInt32) : StackFrameLookupResult :=
  let mode := encoding &&& UNWIND_ARM64_MODE_MASK
  if mode = UNWIND_ARM64_MODE_FRAME then .hasFrame
  else if mode = UNWIND_ARM64_MODE_FRAMELESS then .frameless
  else .unknown

/-- Whatever cannot be found or read is unknown. -/
def lookupUnwindInfo (unwindInfoLoadAddr : UInt64) (pcOffset : UInt32) : StackFrameLookupResult :=
  match lookupEncoding read unwindInfoLoadAddr pcOffset with
  | none => .unknown
  | some encoding => classifyEncoding encoding

def lookupStackFrameForPCImplArm64 (moduleList : ModuleList) (pc : UInt64) :
    Except Fault StackFrameLookupResult :=
  match moduleList.getModuleInfoForAddress pc with
  | none => .ok .unknown
  | some moduleInfo =>
    match moduleInfo.searchUnwindInfo with
    | .error e => .error e
    | .ok found =>
      if found.unwindInfoAddr = 0 || !found.foundText then .ok .unknown
      else
        let slide := moduleInfo.loadAddress - found.textVmAddr
        .ok (lookupUnwindInfo read (found.unwindInfoAddr + slide)
          (pc - moduleInfo.loadAddress).toUInt32)

/-- There is no such lookup for x86_64. -/
def lookupStackFrameForPC (arch : Arch) (moduleList : ModuleList) (pc : UInt64) :
    Except Fault StackFrameLookupResult :=
  match arch with
  | .x86_64 => .ok .unknown
  | .arm64 => lookupStackFrameForPCImplArm64 read moduleList pc

end Lookup

end MacMiniDump
