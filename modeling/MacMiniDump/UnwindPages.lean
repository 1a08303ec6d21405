import MacMiniDump.AddressSpace
import MacMiniDump.Lib.Wraparound
import MacMiniDump.UnwindScan

/-!
# Where the entries of a page are

The header of a second-level page says where its entries are, but the lookup takes them to follow
the header. A page can be relocated, its entries moved to another place in it and its header changed
to say so, and lookups stay as they were only when it has no entries (`relocatable_iff`).
-/

namespace MacMiniDump

inductive PageKind
  | regular
  | compressed
  deriving DecidableEq, Repr

namespace PageKind

def number : PageKind → UInt32
  | regular => UNWIND_SECOND_LEVEL_REGULAR
  | compressed => UNWIND_SECOND_LEVEL_COMPRESSED

def headerSize : PageKind → ℕ
  | regular => 8
  | compressed => 12

def entrySize : PageKind → ℕ
  | regular => 8
  | compressed => 4

theorem headerSize_ge (kind : PageKind) : 8 ≤ kind.headerSize := by cases kind <;> decide

theorem entrySize_le (kind : PageKind) : kind.entrySize ≤ 8 := by cases kind <;> decide

theorem entrySize_pos (kind : PageKind) : 0 < kind.entrySize := by cases kind <;> decide

end PageKind

/-- A page of that kind, with `n` entries, at `o` in the page as its header says. -/
structure HasPage (space : AddressSpace) (kind : PageKind) (n o : UInt16) (page : UInt64) :
    Prop where
  kind_eq : read32 (space.bytes page 4) = kind.number
  offset_eq : read16 (space.bytes (page + 4) 2) = o
  count_eq : read16 (space.bytes (page + 6) 2) = n

/-- Where `n` entries at `o` are. -/
def entriesRange (kind : PageKind) (n o : UInt16) (page : UInt64) : UInt64 × UInt64 :=
  (page + o.toUInt64, UInt64.ofNat (kind.entrySize * n.toNat))

/-- Where the encodings of a compressed page are, as its header says. -/
def encodingsRange (space : AddressSpace) (page : UInt64) : UInt64 × UInt64 :=
  (page + (read16 (space.bytes (page + 8) 2)).toUInt64,
    4 * (read16 (space.bytes (page + 10) 2)).toUInt64)

/-! ## What a lookup may read -/

section Reads

variable (read : UInt64 → UInt64 → Option (List UInt8)) (base : UInt64)

def encodingAddr (header : UnwindInfoSectionHeader) (page : UInt64)
    (pageHeader : CompressedPageHeader)
    (encodingIndex : UInt16) : UInt64 :=
  if encodingIndex.toUInt32 < header.commonEncodingsArrayCount then
    base + header.commonEncodingsArraySectionOffset.toUInt64 + encodingIndex.toUInt64 * 4
  else
    page + pageHeader.encodingsPageOffset.toUInt64
      + (encodingIndex.toUInt32 - header.commonEncodingsArrayCount).toUInt16.toUInt64 * 4

/-- The ranges of memory that lookups which come to that page read, from there on. -/
inductive PageReads (header : UnwindInfoSectionHeader) (page : UInt64) : UInt64 × UInt64 → Prop
  | kind : PageReads header page (page, 4)
  | regularHeader {kind} : (read page 4).map read32 = some kind →
      kind = UNWIND_SECOND_LEVEL_REGULAR → PageReads header page (page, 8)
  | regularEntry {kind pageHeader i} : (read page 4).map read32 = some kind →
      kind = UNWIND_SECOND_LEVEL_REGULAR →
      (read page 8).map RegularPageHeader.decode = some pageHeader →
      i < pageHeader.entryCount.toNat → PageReads header page (page + 8 + UInt64.ofNat i * 8, 8)
  | compressedHeader {kind} : (read page 4).map read32 = some kind →
      kind = UNWIND_SECOND_LEVEL_COMPRESSED → PageReads header page (page, 12)
  | compressedEntry {kind pageHeader i} : (read page 4).map read32 = some kind →
      kind = UNWIND_SECOND_LEVEL_COMPRESSED →
      (read page 12).map CompressedPageHeader.decode = some pageHeader →
      i < pageHeader.entryCount.toNat → PageReads header page (page + 12 + UInt64.ofNat i * 4, 4)
  | encoding {kind pageHeader i v} : (read page 4).map read32 = some kind →
      kind = UNWIND_SECOND_LEVEL_COMPRESSED →
      (read page 12).map CompressedPageHeader.decode = some pageHeader →
      i < pageHeader.entryCount.toNat → readEntry read read32 (page + 12) 4 i = some v →
      PageReads header page
        (encodingAddr base header page pageHeader (compressedEntryEncodingIndex v).toUInt16, 4)

/-- The ranges that lookups read other than in the page. -/
inductive OtherReads (page : UInt64) : UInt64 × UInt64 → Prop
  | header : OtherReads page (base, 28)
  | index {header i} : (read base 28).map UnwindInfoSectionHeader.decode = some header →
      i < header.indexCount.toNat →
      OtherReads page (base + header.indexSectionOffset.toUInt64 + UInt64.ofNat i * 12, 12)
  | page {header i entry x} : (read base 28).map UnwindInfoSectionHeader.decode = some header →
      i < header.indexCount.toNat →
      readEntry read UnwindInfoIndexEntry.decode (base + header.indexSectionOffset.toUInt64) 12 i
        = some entry →
      entry.secondLevelPagesSectionOffset ≠ 0 → pageAddr base entry ≠ page →
      PageReads read base header (pageAddr base entry) x → OtherReads page x

end Reads

/-- The entries of a page are moved from `o` to `o'`, clear of its header and of its encodings, and
its header says so. What was at the old place may be anything then; the rest of the memory stays as
it is. -/
structure Relocation (kind : PageKind) (n o o' : UInt16) (size : UInt64)
    (space space' : AddressSpace)
    (base page : UInt64) : Prop where
  regions : space'.regions = space.regions
  page_old : HasPage space kind n o page
  page_new : HasPage space' kind n o' page
  header_old : kind.headerSize ≤ o.toNat
  header_new : kind.headerSize ≤ o'.toNat
  inPage_old : o.toNat + kind.entrySize * n.toNat ≤ size.toNat
  inPage_new : o'.toNat + kind.entrySize * n.toNat ≤ size.toNat
  encodings_old : kind = .compressed →
    Apart (encodingsRange space page) (entriesRange kind n o page)
  encodings_new : kind = .compressed →
    Apart (encodingsRange space page) (entriesRange kind n o' page)
  moved : ∀ i < kind.entrySize * n.toNat,
    space'.byte ((entriesRange kind n o' page).1 + UInt64.ofNat i)
      = space.byte ((entriesRange kind n o page).1 + UInt64.ofNat i)
  kept : ∀ a, ¬ Inside (page + 4, 2) a → ¬ Inside (entriesRange kind n o page) a →
    ¬ Inside (entriesRange kind n o' page) a → space'.byte a = space.byte a
  others : ∀ x, OtherReads space.readMemory base page x → Apart (page, size) x

/-- If a lookup for that address gets to unwind info, it is that at `base`. -/
def UnwindInfoAt (modules : ModuleList) (pc base : UInt64) : Prop :=
  ∀ mi found, modules.getModuleInfoForAddress pc = some mi → mi.searchUnwindInfo = .ok found →
    found.unwindInfoAddr + (mi.loadAddress - found.textVmAddr) = base

/-- No lookup changes when such a page is relocated. -/
def Relocatable (kind : PageKind) (n o : UInt16) : Prop :=
  ∀ o' ≠ o, ∀ size space space' base page, Relocation kind n o o' size space space' base page →
    ∀ modules pc, UnwindInfoAt modules pc base →
      lookupStackFrameForPC space'.readMemory .arm64 modules pc
        = lookupStackFrameForPC space.readMemory .arm64 modules pc

section Congr

variable {read read' : UInt64 → UInt64 → Option (List UInt8)} {base page : UInt64}
  {header : UnwindInfoSectionHeader} {entry : UnwindInfoIndexEntry} {pcOffset : UInt32}

/-- The encoding for a function whose index entry leads to that page. -/
def pageEncoding (read : UInt64 → UInt64 → Option (List UInt8)) (base : UInt64)
    (header : UnwindInfoSectionHeader) (entry : UnwindInfoIndexEntry) (page : UInt64)
    (pcOffset : UInt32) : Option UInt32 :=
  match (read page 4).map read32 with
  | none => none
  | some kind =>
    if kind = UNWIND_SECOND_LEVEL_REGULAR then regularEncoding read page pcOffset
    else if kind = UNWIND_SECOND_LEVEL_COMPRESSED then
      compressedEncoding read base header entry page pcOffset
    else none

theorem encodingAt_eq_encodingAddr {pageHeader : CompressedPageHeader} {i : UInt16} :
    encodingAt read base header page pageHeader i
      = (read (encodingAddr base header page pageHeader i) 4).map read32 := by
  unfold encodingAt encodingAddr
  split_ifs <;> rfl

theorem pageEncoding_congr (h : ∀ x, PageReads read base header page x →
    read' x.1 x.2 = read x.1 x.2) :
    pageEncoding read' base header entry page pcOffset
      = pageEncoding read base header entry page pcOffset := by
  have hkind : (read' page 4).map read32 = (read page 4).map read32 := by
    rw [h _ .kind]
  unfold pageEncoding
  rw [hkind]
  rcases hk : (read page 4).map read32 with _ | kind
  · rfl
  simp only
  split_ifs with hreg hcomp
  · have hheader : (read' page 8).map RegularPageHeader.decode
        = (read page 8).map RegularPageHeader.decode := by
      rw [h _ (.regularHeader hk hreg)]
    unfold regularEncoding
    rw [hheader]
    rcases hp : (read page 8).map RegularPageHeader.decode with _ | pageHeader
    · rfl
    · have hentries : ∀ i < pageHeader.entryCount.toNat,
          readEntry read' RegularEntry.decode (page + 8) 8 i
            = readEntry read RegularEntry.decode (page + 8) 8 i := by
        intro i hi
        rw [readEntry, readEntry, h _ (.regularEntry hk hreg hp hi)]
      simp only [lastPassing_congr hentries]
  · have hheader : (read' page 12).map CompressedPageHeader.decode
        = (read page 12).map CompressedPageHeader.decode := by
      rw [h _ (.compressedHeader hk hcomp)]
    unfold compressedEncoding
    rw [hheader]
    rcases hp : (read page 12).map CompressedPageHeader.decode with _ | pageHeader
    · rfl
    · have hentries : ∀ i < pageHeader.entryCount.toNat,
          readEntry read' read32 (page + 12) 4 i = readEntry read read32 (page + 12) 4 i := by
        intro i hi
        rw [readEntry, readEntry, h _ (.compressedEntry hk hcomp hp hi)]
      simp only [lastPassing_congr hentries]
      split
      · rfl
      · rename_i v hv
        obtain ⟨i, hi, hentry⟩ := exists_of_lastPassing hv
        rw [encodingAt_eq_encodingAddr, encodingAt_eq_encodingAddr,
          h _ (.encoding hk hcomp hp hi hentry)]
  · rfl

/-- Lookups are the same when all they read outside the page is, and what they make of the page. -/
theorem lookupUnwindInfo_congr
    (h : ∀ x, OtherReads read base page x → read' x.1 x.2 = read x.1 x.2)
    (hpage : ∀ header entry, pageEncoding read' base header entry page pcOffset
      = pageEncoding read base header entry page pcOffset) :
    lookupUnwindInfo read' base pcOffset = lookupUnwindInfo read base pcOffset := by
  have hheader : (read' base 28).map UnwindInfoSectionHeader.decode
      = (read base 28).map UnwindInfoSectionHeader.decode := by
    rw [h _ .header]
  unfold lookupUnwindInfo lookupEncoding
  rw [hheader]
  rcases hh : (read base 28).map UnwindInfoSectionHeader.decode with _ | header
  · rfl
  have hindex : ∀ i < header.indexCount.toNat,
      readEntry read' UnwindInfoIndexEntry.decode (base + header.indexSectionOffset.toUInt64) 12 i
        = readEntry read UnwindInfoIndexEntry.decode
            (base + header.indexSectionOffset.toUInt64) 12 i := by
    intro i hi
    rw [readEntry, readEntry, h _ (.index hh hi)]
  simp only [lastPassing_congr hindex]
  rcases hlast : lastPassing (readEntry read UnwindInfoIndexEntry.decode
      (base + header.indexSectionOffset.toUInt64) 12)
    (fun midEntry => decide (midEntry.functionOffset ≤ pcOffset)) header.indexCount.toNat
    with _ | entry
  · rfl
  simp only
  split_ifs with hnone
  · rfl
  have hsame : pageEncoding read' base header entry (pageAddr base entry) pcOffset
      = pageEncoding read base header entry (pageAddr base entry) pcOffset := by
    by_cases heq : pageAddr base entry = page
    · rw [heq]
      exact hpage header entry
    · obtain ⟨i, hi, hentry⟩ := exists_of_lastPassing hlast
      exact pageEncoding_congr fun x hx => h x (.page hh hi hentry hnone heq hx)
  show (match pageEncoding read' base header entry (pageAddr base entry) pcOffset with
      | none => StackFrameLookupResult.unknown
      | some encoding => classifyEncoding encoding)
    = match pageEncoding read base header entry (pageAddr base entry) pcOffset with
      | none => StackFrameLookupResult.unknown
      | some encoding => classifyEncoding encoding
  rw [hsame]

theorem lookupStackFrameForPC_congr {modules : ModuleList} {pc : UInt64}
    (hat : UnwindInfoAt modules pc base)
    (h : ∀ pcOffset, lookupUnwindInfo read' base pcOffset = lookupUnwindInfo read base pcOffset) :
    lookupStackFrameForPC read' .arm64 modules pc
      = lookupStackFrameForPC read .arm64 modules pc := by
  unfold lookupStackFrameForPC lookupStackFrameForPCImplArm64
  simp only
  rcases hmi : modules.getModuleInfoForAddress pc with _ | mi
  · rfl
  simp only
  rcases hfound : mi.searchUnwindInfo with e | found
  · rfl
  · simp only [hat mi found hmi hfound, h]

end Congr

section Bytes

variable {space space' : AddressSpace} {kind : PageKind} {n o o' : UInt16} {size base page : UInt64}

theorem readAt_bytes {a : UInt64} {m i k : ℕ} (h : i + k ≤ m) :
    readAt (space.bytes a m) i k = space.bytes (a + UInt64.ofNat i) k := by
  refine List.ext_getElem (by simp [readAt, AddressSpace.bytes]; omega) fun j _ _ => ?_
  simp [readAt, AddressSpace.bytes, UInt64.ofNat_add, UInt64.add_assoc]

/-- A page without entries has no encodings. -/
theorem pageEncoding_eq_none {header : UnwindInfoSectionHeader} {entry : UnwindInfoIndexEntry}
    {pcOffset : UInt32} (hp : HasPage space kind 0 o page) :
    pageEncoding space.readMemory base header entry page pcOffset = none := by
  have hcount : ∀ (m : UInt64) l, 8 ≤ m.toNat → space.readMemory page m = some l →
      u16At l 6 = 0 := by
    intro m l hm hl
    rw [AddressSpace.eq_bytes_of_readMemory hl, u16At, readAt_bytes (by omega)]
    exact hp.count_eq
  have hnone : ∀ {α : Type} (entry : ℕ → Option α) pass, lastPassing entry pass 0 = none :=
    fun _ _ => rfl
  unfold pageEncoding
  split
  · rfl
  split_ifs
  · unfold regularEncoding
    split
    · rfl
    · rename_i pageHeader hheader
      obtain ⟨l, hl, rfl⟩ := Option.map_eq_some_iff.1 hheader
      have hzero : (RegularPageHeader.decode l).entryCount = 0 := hcount 8 l (by decide) hl
      simp only [hzero, UInt16.toNat_zero, hnone, Option.map_none]
  · unfold compressedEncoding
    split
    · rfl
    · rename_i pageHeader hheader
      obtain ⟨l, hl, rfl⟩ := Option.map_eq_some_iff.1 hheader
      have hzero : (CompressedPageHeader.decode l).entryCount = 0 := hcount 12 l (by decide) hl
      simp only [hzero, UInt16.toNat_zero, hnone]
  · rfl

/-- Outside the page a relocation changes nothing. -/
theorem Relocation.byte_eq (h : Relocation kind n o o' size space space' base page) {a : UInt64}
    (ha : ¬ Inside (page, size) a) : space'.byte a = space.byte a := by
  have hH := kind.headerSize_ge
  have hold := h.inPage_old
  have hnew := h.inPage_new
  have hheader := h.header_old
  have hlt := size.toNat_lt
  have hlen : (UInt64.ofNat (kind.entrySize * n.toNat)).toNat = kind.entrySize * n.toNat :=
    UInt64.toNat_ofNat_of_lt' (show _ < 2 ^ 64 by omega)
  refine h.kept a (fun hin => ha (hin.of_part ?_)) (fun hin => ha (hin.of_part ?_))
    (fun hin => ha (hin.of_part ?_))
  · show 4 + 2 ≤ size.toNat
    omega
  · rw [hlen, UInt16.toNat_toUInt64]
    exact hold
  · rw [hlen, UInt16.toNat_toUInt64]
    exact hnew

theorem Relocation.readMemory_eq (h : Relocation kind n o o' size space space' base page)
    {x : UInt64 × UInt64} (hx : OtherReads space.readMemory base page x) :
    space'.readMemory x.1 x.2 = space.readMemory x.1 x.2 := by
  have hap := h.others x hx
  have hreadable : ∀ a, space'.Readable a ↔ space.Readable a := by
    intro a
    rw [AddressSpace.Readable, AddressSpace.Readable, h.regions]
  have hbytes : ∀ i < x.2.toNat,
      space'.byte (x.1 + UInt64.ofNat i) = space.byte (x.1 + UInt64.ofNat i) := by
    intro i hi
    refine h.byte_eq fun hin => hap _ ⟨hin, ?_⟩
    have hlt : i < 2 ^ 64 := hi.trans x.2.toNat_lt
    rw [UInt64.add_comm, UInt64.add_sub_cancel, UInt64.lt_iff_toNat_lt,
      UInt64.toNat_ofNat_of_lt' hlt]
    exact hi
  unfold AddressSpace.readMemory
  simp only [hreadable]
  split_ifs
  · refine congrArg some (List.map_congr_left fun i hi => hbytes i (List.mem_range.1 hi))
  · rfl

end Bytes

/-! ## A page that is relocated -/

/-- A section with one index entry, which leads to a page at 256. Of the common encodings the last
is that of a function with a frame. -/
def sectionHead : List UInt8 :=
  le32 1 ++ le32 28 ++ le32 5 ++ le32 0 ++ le32 0 ++ le32 48 ++ le32 1
    ++ (le32 0 ++ le32 0 ++ le32 0 ++ le32 0 ++ le32 UNWIND_ARM64_MODE_FRAME)
    ++ (le32 0 ++ le32 0x100 ++ le32 0)

def pageHead (kind : PageKind) (n o : UInt16) : List UInt8 := le32 kind.number ++ le16 o ++ le16 n

/-- The section with a page of `n` entries at `o`: all bytes of the entries are zero but the last,
which makes the last of them one with a frame. -/
def sectionByte (kind : PageKind) (n o : UInt16) (i : ℕ) : UInt8 :=
  if i < 0x100 then sectionHead.getD i 0
  else if i < 0x108 then (pageHead kind n o).getD (i - 0x100) 0
  else if i + 1 = 0x100 + o.toNat + kind.entrySize * n.toNat then 4
  else 0

def pageSpace (kind : PageKind) (n o : UInt16) : AddressSpace := unwindSpace (sectionByte kind n o)

section PageSpace

variable {kind : PageKind} {n o o' : UInt16}

theorem toNat_pos (hn : n ≠ 0) : 0 < n.toNat := by
  refine Nat.pos_of_ne_zero fun h => hn ?_
  rw [← UInt16.toNat_inj, h]
  rfl

theorem regions_unwindSpace (content : ℕ → UInt8) :
    (unwindSpace content).regions = [⟨0x10000, 0x100000, ⟨1, 0⟩⟩] := rfl

theorem byte_unwindSpace {content : ℕ → UInt8} {i : ℕ} (hi : i < 2 ^ 32) :
    (unwindSpace content).byte (0x10000 + UInt64.ofNat i) = content i := by
  show content (0x10000 + UInt64.ofNat i - 0x10000).toNat = content i
  rw [UInt64.add_comm, UInt64.add_sub_cancel, UInt64.toNat_ofNat_of_lt' (show _ < 2 ^ 64 by omega)]

theorem bytes_unwindSpace {content : ℕ → UInt8} {i : ℕ} {l : List UInt8}
    (hl : ∀ j < l.length, content (i + j) = l.getD j 0) (hi : i + l.length ≤ 2 ^ 32) :
    (unwindSpace content).bytes (0x10000 + UInt64.ofNat i) l.length = l := by
  refine List.ext_getElem (by simp [AddressSpace.bytes]) fun j hj hj' => ?_
  have hadd : 0x10000 + UInt64.ofNat i + UInt64.ofNat j = 0x10000 + UInt64.ofNat (i + j) := by
    rw [UInt64.ofNat_add, UInt64.add_assoc]
  simp only [AddressSpace.bytes, List.getElem_map, List.getElem_range]
  rw [hadd, byte_unwindSpace (by omega), hl j hj', List.getD_eq_getElem _ _ hj']

theorem readable_unwindSpace {content : ℕ → UInt8} {i : ℕ} (hi : i < 0x100000) :
    (unwindSpace content).Readable (0x10000 + UInt64.ofNat i) := by
  have hnat : (0x10000 + UInt64.ofNat i : UInt64).toNat = 0x10000 + i := by
    rw [UInt64.toNat_add, UInt64.toNat_ofNat_of_lt' (show _ < 2 ^ 64 by omega)]
    exact Nat.mod_eq_of_lt (show 0x10000 + i < 2 ^ 64 by omega)
  refine ⟨_, List.mem_singleton.2 rfl, ⟨?_, ?_⟩, by decide⟩
  · rw [UInt64.le_iff_toNat_le, hnat]
    exact Nat.le_add_right _ _
  · rw [hnat]
    exact Nat.add_lt_add_left hi 0x10000

theorem readMemory_unwindSpace {content : ℕ → UInt8} {a size : UInt64} {i : ℕ} {l : List UInt8}
    (ha : a = 0x10000 + UInt64.ofNat i) (hs : size.toNat = l.length)
    (hl : ∀ j < l.length, content (i + j) = l.getD j 0) (hi : i + l.length ≤ 0x100000) :
    (unwindSpace content).readMemory a size = some l := by
  have hreadable : ∀ j < size.toNat, (unwindSpace content).Readable (a + UInt64.ofNat j) := by
    intro j hj
    rw [ha, UInt64.add_assoc, ← UInt64.ofNat_add]
    exact readable_unwindSpace (by omega)
  have hend : a.toNat + size.toNat ≤ 2 ^ 64 := by
    rw [ha, UInt64.toNat_add, UInt64.toNat_ofNat_of_lt' (show _ < 2 ^ 64 by omega)]
    have hmod := Nat.mod_le ((0x10000 : UInt64).toNat + i) (2 ^ 64)
    have hbase : (0x10000 : UInt64).toNat = 0x10000 := rfl
    omega
  rw [AddressSpace.readMemory_of_readable hend hreadable, ha, hs, bytes_unwindSpace hl (by omega)]

theorem length_pageHead : (pageHead kind n o).length = 8 := by simp [pageHead]

theorem length_sectionHead : sectionHead.length = 60 := by decide

theorem sectionByte_head {i : ℕ} (hi : i < 0x100) : sectionByte kind n o i = sectionHead.getD i 0 :=
  if_pos hi

theorem sectionByte_pageHead {i : ℕ} (hi : i < 8) :
    sectionByte kind n o (0x100 + i) = (pageHead kind n o).getD i 0 := by
  unfold sectionByte
  rw [if_neg (by omega), if_pos (by omega), Nat.add_sub_cancel_left]

theorem sectionByte_page {i : ℕ} (hi : 8 ≤ i) :
    sectionByte kind n o (0x100 + i)
      = if i + 1 = o.toNat + kind.entrySize * n.toNat then 4 else 0 := by
  have hiff : 0x100 + i + 1 = 0x100 + o.toNat + kind.entrySize * n.toNat
      ↔ i + 1 = o.toNat + kind.entrySize * n.toNat := by omega
  unfold sectionByte
  rw [if_neg (by omega), if_neg (by omega)]
  simp only [hiff]

theorem hasPage_pageSpace : HasPage (pageSpace kind n o) kind n o 0x10100 := by
  have hread : ∀ i k, i + k ≤ 8 →
      (pageSpace kind n o).bytes (0x10000 + UInt64.ofNat (0x100 + i)) k
        = readAt (pageHead kind n o) i k := by
    intro i k hik
    have hlen : (readAt (pageHead kind n o) i k).length = k :=
      length_readAt (by rw [length_pageHead]; exact hik)
    have hbyte : ∀ j < (readAt (pageHead kind n o) i k).length,
        sectionByte kind n o (0x100 + i + j) = (readAt (pageHead kind n o) i k).getD j 0 := by
      intro j hj
      rw [hlen] at hj
      rw [Nat.add_assoc, sectionByte_pageHead (by omega), List.getD_eq_getElem?_getD,
        List.getD_eq_getElem?_getD, getElem?_readAt hj]
    have h := bytes_unwindSpace hbyte (by omega)
    rwa [hlen] at h
  refine ⟨?_, ?_, ?_⟩
  · have h := hread 0 4 (by decide)
    exact (congrArg read32 h).trans (read32_le32 _)
  · have h := hread 4 2 (by decide)
    exact (congrArg read16 h).trans (read16_le16 _)
  · have h := hread 6 2 (by decide)
    exact (congrArg read16 h).trans (read16_le16 _)

theorem readMemory_sectionHead {a size : UInt64} {i : ℕ} (ha : a = 0x10000 + UInt64.ofNat i)
    (hi : i + size.toNat ≤ 60) :
    (pageSpace kind n o).readMemory a size = some (readAt sectionHead i size.toNat) := by
  have hlen : (readAt sectionHead i size.toNat).length = size.toNat :=
    length_readAt (by rw [length_sectionHead]; exact hi)
  refine readMemory_unwindSpace ha hlen.symm (fun j hj => ?_) (by omega)
  rw [hlen] at hj
  rw [sectionByte_head (by omega), List.getD_eq_getElem?_getD, List.getD_eq_getElem?_getD,
    getElem?_readAt hj]

theorem readMemory_pageHead {size : UInt64} (hs : size.toNat ≤ 8) :
    (pageSpace kind n o).readMemory 0x10100 size
      = some (readAt (pageHead kind n o) 0 size.toNat) := by
  have hlen : (readAt (pageHead kind n o) 0 size.toNat).length = size.toNat :=
    length_readAt (by rw [length_pageHead]; omega)
  refine readMemory_unwindSpace (i := 0x100) rfl hlen.symm (fun j hj => ?_) (by omega)
  rw [hlen] at hj
  rw [sectionByte_pageHead (by omega), List.getD_eq_getElem?_getD, List.getD_eq_getElem?_getD,
    getElem?_readAt hj, Nat.zero_add]

/-- The bytes of an entry that is in the place right after the header. -/
def entryAfterHeader (kind : PageKind) (n o : UInt16) (k : ℕ) : List UInt8 :=
  List.replicate (kind.entrySize - 1) 0
    ++ [if o.toNat = kind.headerSize ∧ k + 1 = n.toNat then 4 else 0]

theorem readMemory_entryAfterHeader {a size : UInt64} {k : ℕ}
    (ha : a = 0x10100 + UInt64.ofNat kind.headerSize + UInt64.ofNat k * UInt64.ofNat kind.entrySize)
    (hs : size.toNat = kind.entrySize) (ho : kind.headerSize ≤ o.toNat) (hk : k < n.toNat) :
    (pageSpace kind n o).readMemory a size = some (entryAfterHeader kind n o k) := by
  have haddr : a = 0x10000 + UInt64.ofNat (0x100 + (kind.headerSize + k * kind.entrySize)) := by
    rw [ha, UInt64.ofNat_add, UInt64.ofNat_add, UInt64.ofNat_mul, ← UInt64.add_assoc,
      ← UInt64.add_assoc]
    rfl
  have hlen : (entryAfterHeader kind n o k).length = kind.entrySize := by
    cases kind <;> rfl
  have hn := n.toNat_lt
  refine readMemory_unwindSpace haddr (hs.trans hlen.symm) (fun j hj => ?_) ?_
  · rw [hlen] at hj
    have hH := kind.headerSize_ge
    rw [Nat.add_assoc, sectionByte_page (by omega), entryAfterHeader]
    rcases Nat.lt_or_ge j (kind.entrySize - 1) with hlt | hge
    · rw [List.getD_append _ _ _ _ (by simpa using hlt), List.getD_replicate _ hlt, if_neg]
      cases kind with
      | regular => simp only [PageKind.headerSize, PageKind.entrySize] at *; omega
      | compressed => simp only [PageKind.headerSize, PageKind.entrySize] at *; omega
    · obtain rfl : j = kind.entrySize - 1 := by omega
      rw [List.getD_append_right _ _ _ _ (by simp)]
      simp only [List.length_replicate, Nat.sub_self, List.getD_cons_zero]
      have hiff : kind.headerSize + k * kind.entrySize + (kind.entrySize - 1) + 1
          = o.toNat + kind.entrySize * n.toNat ↔ o.toNat = kind.headerSize ∧ k + 1 = n.toNat := by
        cases kind with
        | regular => simp only [PageKind.headerSize, PageKind.entrySize] at *; omega
        | compressed => simp only [PageKind.headerSize, PageKind.entrySize] at *; omega
      simp only [hiff]
  · rw [hlen]
    cases kind with
    | regular => simp only [PageKind.headerSize, PageKind.entrySize] at *; omega
    | compressed => simp only [PageKind.headerSize, PageKind.entrySize] at *; omega

def sectionHeader : UnwindInfoSectionHeader := .decode (readAt sectionHead 0 28)

def indexEntry : UnwindInfoIndexEntry := .decode (readAt sectionHead 48 12)

theorem readEntry_index :
    readEntry (pageSpace kind n o).readMemory UnwindInfoIndexEntry.decode
      (0x10000 + sectionHeader.indexSectionOffset.toUInt64) 12 0 = some indexEntry := by
  have hread : (pageSpace kind n o).readMemory
      (0x10000 + sectionHeader.indexSectionOffset.toUInt64 + UInt64.ofNat 0 * 12) 12
        = some (readAt sectionHead 48 12) := readMemory_sectionHead (by decide) (by decide)
  rw [readEntry, hread]
  rfl

/-- What the lookup comes to is what the page has. -/
theorem lookupUnwindInfo_pageSpace :
    lookupUnwindInfo (pageSpace kind n o).readMemory 0x10000 0
      = match pageEncoding (pageSpace kind n o).readMemory 0x10000 sectionHeader indexEntry 0x10100
          0 with
        | none => .unknown
        | some encoding => classifyEncoding encoding := by
  have hheader : (pageSpace kind n o).readMemory 0x10000 28 = some (readAt sectionHead 0 28) :=
    readMemory_sectionHead (by decide) (by decide)
  have hindex : ∀ i ≤ 0, ∃ e : UnwindInfoIndexEntry,
      readEntry (pageSpace kind n o).readMemory UnwindInfoIndexEntry.decode
        (0x10000 + sectionHeader.indexSectionOffset.toUInt64) 12 i = some e
      ∧ decide (e.functionOffset ≤ 0) = true := by
    intro i hi
    obtain rfl : i = 0 := by omega
    exact ⟨indexEntry, readEntry_index, by decide⟩
  have hlast : lastPassing (readEntry (pageSpace kind n o).readMemory UnwindInfoIndexEntry.decode
        (0x10000 + sectionHeader.indexSectionOffset.toUInt64) 12)
      (fun e => decide (e.functionOffset ≤ 0)) sectionHeader.indexCount.toNat = some indexEntry :=
    (lastPassing_of_forall hindex).trans readEntry_index
  have hdecode : UnwindInfoSectionHeader.decode (readAt sectionHead 0 28) = sectionHeader := rfl
  have hsome : indexEntry.secondLevelPagesSectionOffset ≠ 0 := by decide
  unfold lookupUnwindInfo lookupEncoding
  simp only [hheader, Option.map_some, hdecode, hlast, hsome, if_false]
  rfl

/-- The encoding of the last of the entries after the header. -/
def lastEncoding (kind : PageKind) (o : UInt16) : UInt32 :=
  if o.toNat = kind.headerSize then UNWIND_ARM64_MODE_FRAME else 0

variable {m : ℕ}

theorem regularEncoding_pageSpace (ho : 8 ≤ o.toNat) (hm : n.toNat = m + 1) :
    regularEncoding (pageSpace .regular n o).readMemory 0x10100 0
      = some (lastEncoding .regular o) := by
  have hheader : (pageSpace .regular n o).readMemory 0x10100 8
      = some (readAt (pageHead .regular n o) 0 8) := readMemory_pageHead (by decide)
  have hcount : (RegularPageHeader.decode (readAt (pageHead .regular n o) 0 8)).entryCount.toNat
      = m + 1 := by
    rw [← hm]
    exact congrArg UInt16.toNat (read16_le16 n)
  have hentry : ∀ k ≤ m, readEntry (pageSpace .regular n o).readMemory RegularEntry.decode
      (0x10100 + 8) 8 k = some (RegularEntry.decode (entryAfterHeader .regular n o k)) := by
    intro k hk
    have hread : (pageSpace .regular n o).readMemory (0x10100 + 8 + UInt64.ofNat k * 8) 8
        = some (entryAfterHeader .regular n o k) :=
      readMemory_entryAfterHeader rfl rfl ho (by omega)
    rw [readEntry, hread, Option.map_some]
  have hlast : lastPassing (readEntry (pageSpace .regular n o).readMemory RegularEntry.decode
        (0x10100 + 8) 8) (fun e => decide (e.functionOffset ≤ 0)) (m + 1) = _ :=
    lastPassing_of_forall fun k hk => ⟨_, hentry k hk, rfl⟩
  unfold regularEncoding
  simp only [hheader, Option.map_some, hcount, hlast, hentry m le_rfl, lastEncoding,
    entryAfterHeader, hm, and_true]
  split_ifs <;> rfl

theorem compressedEncoding_pageSpace (ho : 12 ≤ o.toNat) (hm : n.toNat = m + 1) :
    compressedEncoding (pageSpace .compressed n o).readMemory 0x10000 sectionHeader indexEntry
        0x10100 0
      = some (lastEncoding .compressed o) := by
  have hheader : (pageSpace .compressed n o).readMemory 0x10100 12
      = some (pageHead .compressed n o ++ List.replicate 4 0) := by
    refine readMemory_unwindSpace (i := 0x100) rfl rfl (fun j hj => ?_) ?_
    · have hj : j < 12 := hj
      rcases Nat.lt_or_ge j 8 with hlt | hge
      · rw [sectionByte_pageHead hlt, List.getD_append _ _ _ _ (by rwa [length_pageHead])]
      · rw [sectionByte_page hge, List.getD_append_right _ _ _ _ (by rwa [length_pageHead]),
          List.getD_replicate _ (by rw [length_pageHead]; omega), if_neg]
        simp only [PageKind.entrySize]
        omega
    · show 0x100 + 12 ≤ 0x100000
      decide
  have hcount : (CompressedPageHeader.decode
      (pageHead .compressed n o ++ List.replicate 4 0)).entryCount.toNat = m + 1 := by
    rw [← hm]
    exact congrArg UInt16.toNat (read16_le16 n)
  have hentry : ∀ k ≤ m, readEntry (pageSpace .compressed n o).readMemory read32
      (0x10100 + 12) 4 k = some (read32 (entryAfterHeader .compressed n o k)) := by
    intro k hk
    have hread : (pageSpace .compressed n o).readMemory (0x10100 + 12 + UInt64.ofNat k * 4) 4
        = some (entryAfterHeader .compressed n o k) :=
      readMemory_entryAfterHeader rfl rfl ho (by omega)
    rw [readEntry, hread, Option.map_some]
  have hoffset : ∀ k, compressedEntryFuncOffset (read32 (entryAfterHeader .compressed n o k))
      = 0 := by
    intro k
    unfold entryAfterHeader
    split_ifs <;> rfl
  have hlast : lastPassing (readEntry (pageSpace .compressed n o).readMemory read32
      (0x10100 + 12) 4)
      (fun v => decide (compressedEntryFuncOffset v ≤ 0 - indexEntry.functionOffset)) (m + 1) = _ :=
    lastPassing_of_forall fun k hk => ⟨_, hentry k hk, by rw [hoffset]; rfl⟩
  have hframe : (pageSpace .compressed n o).readMemory (0x10000 + 44) 4
      = some (readAt sectionHead 44 4) := readMemory_sectionHead (by decide) (by decide)
  have hzero : (pageSpace .compressed n o).readMemory (0x10000 + 28) 4
      = some (readAt sectionHead 28 4) := readMemory_sectionHead (by decide) (by decide)
  unfold compressedEncoding
  simp only [hheader, Option.map_some, hcount, hlast, hentry m le_rfl, lastEncoding,
    entryAfterHeader, hm, and_true]
  split_ifs
  · exact congrArg (Option.map read32) hframe
  · exact congrArg (Option.map read32) hzero

/-- What the last of the entries after the header has, as the code takes it. -/
theorem pageEncoding_pageSpace (ho : kind.headerSize ≤ o.toNat) (hn : n ≠ 0) :
    pageEncoding (pageSpace kind n o).readMemory 0x10000 sectionHeader indexEntry 0x10100 0
      = some (lastEncoding kind o) := by
  have hkind : ((pageSpace kind n o).readMemory 0x10100 4).map read32 = some kind.number := by
    have hread : (pageSpace kind n o).readMemory 0x10100 4
        = some (readAt (pageHead kind n o) 0 4) :=
      readMemory_pageHead (by decide)
    rw [hread, Option.map_some]
    exact congrArg some (read32_le32 _)
  obtain ⟨m, hm⟩ := Nat.exists_eq_succ_of_ne_zero (toNat_pos hn).ne'
  unfold pageEncoding
  rw [hkind]
  cases kind with
  | regular => exact regularEncoding_pageSpace ho hm
  | compressed => exact compressedEncoding_pageSpace ho hm

theorem lookup_pageSpace (ho : kind.headerSize ≤ o.toNat) (hn : n ≠ 0) :
    lookupStackFrameForPC (pageSpace kind n o).readMemory .arm64 unwindModules 0x8000
      = .ok (if o.toNat = kind.headerSize then .hasFrame else .unknown) := by
  have hlookup : lookupStackFrameForPC (pageSpace kind n o).readMemory .arm64 unwindModules 0x8000
      = .ok (lookupUnwindInfo (pageSpace kind n o).readMemory 0x10000 0) := by
    rw [lookupStackFrameForPC_eq getModuleInfo_unwindModules wellFormed_unwindModule
      oneUnwindInfo_unwindModule]
    have haddr : unwindModule.unwindInfoLoadAddr 32 104 = 0x10000 := by decide +kernel
    rw [haddr]
    rfl
  rw [hlookup, lookupUnwindInfo_pageSpace, pageEncoding_pageSpace ho hn, lastEncoding]
  split_ifs <;> rfl

theorem unwindInfoAt_unwindModules : UnwindInfoAt unwindModules 0x8000 0x10000 := by
  intro mi found hmi hfound
  rw [getModuleInfo_unwindModules, Option.some.injEq] at hmi
  subst hmi
  rw [ModuleInfo.searchUnwindInfo_eq wellFormed_unwindModule oneUnwindInfo_unwindModule,
    Except.ok.injEq] at hfound
  subst hfound
  decide +kernel

theorem inside_ofNat {p q : ℕ} {s : UInt64} (hp : p ≤ q) (hq : q < p + s.toNat) :
    Inside (UInt64.ofNat p, s) (UInt64.ofNat q) :=
  sub_ofNat_lt_iff.2 ⟨q - p, show q - p < s.toNat by omega, by rw [Nat.add_sub_cancel' hp]⟩

theorem inside_entriesRange (hn : n ≠ 0) {i : ℕ}
    (hi : i + 1 = 0x100 + o.toNat + kind.entrySize * n.toNat) :
    Inside (entriesRange kind n o 0x10100) (0x10000 + UInt64.ofNat i) := by
  have hlen : (UInt64.ofNat (kind.entrySize * n.toNat)).toNat = kind.entrySize * n.toNat := by
    have hle := Nat.mul_le_mul kind.entrySize_le n.toNat_lt.le
    exact UInt64.toNat_ofNat_of_lt' (show _ < 2 ^ 64 by omega)
  have hpos := Nat.mul_pos kind.entrySize_pos (toNat_pos hn)
  have hstart : 0x10100 + o.toUInt64 = UInt64.ofNat (0x10100 + o.toNat) := by
    rw [UInt64.ofNat_add, UInt64.ofNat_uInt16ToNat]
    rfl
  have haddr : 0x10000 + UInt64.ofNat i = UInt64.ofNat (0x10000 + i) := by
    rw [UInt64.ofNat_add]
    rfl
  rw [entriesRange, hstart, haddr]
  exact inside_ofNat (by omega) (by omega)

theorem inside_offsetField {i : ℕ} (hi : 0x104 ≤ i ∧ i < 0x106) :
    Inside (0x10100 + 4, 2) (0x10000 + UInt64.ofNat i) := by
  obtain ⟨hlow, hhigh⟩ := hi
  interval_cases i <;> decide

theorem byte_pageSpace_entries (ho : 8 ≤ o.toNat) {i : ℕ}
    (hi : i < kind.entrySize * n.toNat) :
    (pageSpace kind n o).byte ((entriesRange kind n o 0x10100).1 + UInt64.ofNat i)
      = if i + 1 = kind.entrySize * n.toNat then 4 else 0 := by
  have hn := n.toNat_lt
  have hmul : kind.entrySize * n.toNat ≤ 8 * n.toNat := Nat.mul_le_mul_right _ kind.entrySize_le
  have hlt := o.toNat_lt
  have haddr : (entriesRange kind n o 0x10100).1 + UInt64.ofNat i
      = 0x10000 + UInt64.ofNat (0x100 + (o.toNat + i)) := by
    have hoff : o.toUInt64 = UInt64.ofNat o.toNat := by simp
    rw [entriesRange, hoff, UInt64.ofNat_add, UInt64.ofNat_add, ← UInt64.add_assoc,
      ← UInt64.add_assoc]
    rfl
  have hiff : o.toNat + i + 1 = o.toNat + kind.entrySize * n.toNat
      ↔ i + 1 = kind.entrySize * n.toNat := by omega
  rw [haddr, pageSpace, byte_unwindSpace (by omega), sectionByte_page (by omega)]
  simp only [hiff]

/-- The pages differ in what their headers say and where the last byte of their entries is. -/
theorem sectionByte_eq {i : ℕ} (hfield : ¬ (0x104 ≤ i ∧ i < 0x106))
    (hold : i + 1 ≠ 0x100 + o.toNat + kind.entrySize * n.toNat)
    (hnew : i + 1 ≠ 0x100 + o'.toNat + kind.entrySize * n.toNat) :
    sectionByte kind n o' i = sectionByte kind n o i := by
  unfold sectionByte
  rw [if_neg hold, if_neg hnew]
  split_ifs with hhead hpage
  · rfl
  · obtain ⟨j, rfl⟩ := Nat.exists_eq_add_of_le (Nat.le_of_not_lt hhead)
    have hj : j < 8 := by omega
    rw [Nat.add_sub_cancel_left]
    interval_cases j <;> first | rfl | omega
  · rfl

theorem inPage_pageSpace : o.toNat + kind.entrySize * n.toNat ≤ (0xF0000 : UInt64).toNat := by
  have hn := n.toNat_lt
  have ho := o.toNat_lt
  have hmul : kind.entrySize * n.toNat ≤ 8 * n.toNat := Nat.mul_le_mul_right _ kind.entrySize_le
  show _ ≤ 0xF0000
  omega

theorem encodingsApart_pageSpace (hn : n ≠ 0) (ho : kind.headerSize ≤ o.toNat)
    (hk : kind = .compressed) :
    Apart (encodingsRange (pageSpace kind n o) 0x10100) (entriesRange kind n o' 0x10100) := by
  subst hk
  have hzero : (pageSpace .compressed n o).bytes (0x10100 + 10) 2 = [0, 0] := by
    refine bytes_unwindSpace (i := 0x100 + 10) (l := [0, 0]) (fun j hj => ?_) ?_
    · have hj : j < 2 := hj
      have ho : 12 ≤ o.toNat := ho
      have hpos := toNat_pos hn
      rw [Nat.add_assoc, sectionByte_page (by omega),
        if_neg (by simp only [PageKind.entrySize]; omega)]
      interval_cases j <;> rfl
    · simp
  rintro a ⟨ha, -⟩
  rw [encodingsRange, hzero] at ha
  exact absurd ha (by simp [read16, leNat])

theorem apart_of_otherReads {x : UInt64 × UInt64}
    (hx : OtherReads (pageSpace kind n o).readMemory 0x10000 0x10100 x) :
    Apart (0x10100, 0xF0000) x := by
  have hheader : (pageSpace kind n o).readMemory 0x10000 28 = some (readAt sectionHead 0 28) :=
    readMemory_sectionHead (by decide) (by decide)
  have hcount : sectionHeader.indexCount.toNat = 1 := by decide +kernel
  have hindex : 0x10000 + sectionHeader.indexSectionOffset.toUInt64 + UInt64.ofNat 0 * 12
      = UInt64.ofNat 0x10030 := by decide +kernel
  have hdecode : UnwindInfoSectionHeader.decode (readAt sectionHead 0 28) = sectionHeader := rfl
  have hbefore : ∀ p s : UInt64, (∃ m : ℕ, p = UInt64.ofNat m ∧ m + s.toNat ≤ 0x10100) →
      Apart (0x10100, 0xF0000) (p, s) := by
    rintro p s ⟨m, rfl, hm⟩
    have hpage : (0x10100 : UInt64) = UInt64.ofNat 0x10100 := rfl
    have hsize : (0xF0000 : UInt64).toNat = 0xF0000 := by decide
    rw [hpage]
    exact (apart_of_le hm (by omega)).symm
  cases hx with
  | header => exact hbefore _ _ ⟨0x10000, rfl, by decide⟩
  | @index header i hh hi =>
    rw [hheader, Option.map_some, Option.some.injEq, hdecode] at hh
    subst hh
    rw [hcount] at hi
    obtain rfl : i = 0 := by omega
    exact hbefore _ _ ⟨0x10030, hindex, by decide⟩
  | @page header i entry x hh hi he hsome hne hread =>
    rw [hheader, Option.map_some, Option.some.injEq, hdecode] at hh
    subst hh
    rw [hcount] at hi
    obtain rfl : i = 0 := by omega
    rw [readEntry_index, Option.some.injEq] at he
    subst he
    exact absurd (by decide +kernel) hne

theorem relocation_pageSpace (hn : n ≠ 0) (ho : kind.headerSize ≤ o.toNat)
    (ho' : kind.headerSize ≤ o'.toNat) :
    Relocation kind n o o' 0xF0000 (pageSpace kind n o) (pageSpace kind n o') 0x10000 0x10100 where
  regions := (regions_unwindSpace _).trans (regions_unwindSpace _).symm
  page_old := hasPage_pageSpace
  page_new := hasPage_pageSpace
  header_old := ho
  header_new := ho'
  inPage_old := inPage_pageSpace
  inPage_new := inPage_pageSpace
  encodings_old := encodingsApart_pageSpace hn ho
  encodings_new := encodingsApart_pageSpace hn ho
  moved := by
    intro i hi
    have hH := kind.headerSize_ge
    rw [byte_pageSpace_entries (by omega) hi, byte_pageSpace_entries (by omega) hi]
  kept := by
    intro a hfield hold hnew
    show sectionByte kind n o' (a - 0x10000).toNat = sectionByte kind n o (a - 0x10000).toNat
    have ha : a = 0x10000 + UInt64.ofNat (a - 0x10000).toNat := by
      rw [UInt64.ofNat_toNat, UInt64.add_comm, UInt64.sub_add_cancel]
    refine sectionByte_eq (fun hi => hfield ?_) (fun hi => hold ?_) fun hi => hnew ?_
    · exact ha ▸ inside_offsetField hi
    · exact ha ▸ inside_entriesRange hn hi
    · exact ha ▸ inside_entriesRange hn hi
  others := fun _ => apart_of_otherReads

/-- Another place, right after the header unless the entries are there already. -/
theorem exists_other_offset (kind : PageKind) (o : UInt16) :
    ∃ o' ≠ o, kind.headerSize ≤ o'.toNat
      ∧ (o'.toNat = kind.headerSize ↔ o.toNat ≠ kind.headerSize) := by
  obtain ⟨d, hd⟩ : ∃ d : UInt16, d.toNat = kind.headerSize := by
    cases kind with
    | regular => exact ⟨8, rfl⟩
    | compressed => exact ⟨12, rfl⟩
  have h16 : (16 : UInt16).toNat = 16 := rfl
  by_cases heq : o.toNat = kind.headerSize
  · have hlt : kind.headerSize < 16 := by cases kind <;> decide
    refine ⟨16, ?_, hlt.le, by simp only [heq, h16]; omega⟩
    rintro rfl
    omega
  · refine ⟨d, ?_, hd.ge, by simp only [hd, heq, ne_eq, not_false_eq_true]⟩
    rintro rfl
    exact heq hd

/-- The entries of a page do not look the same from after its header when they are moved. -/
theorem not_relocatable_of_ne (hn : n ≠ 0) (ho : kind.headerSize ≤ o.toNat) :
    ¬ Relocatable kind n o := by
  intro hrel
  obtain ⟨o', hne, ho', hiff⟩ := exists_other_offset kind o
  have heq := hrel o' hne _ _ _ _ _ (relocation_pageSpace hn ho ho') _ _ unwindInfoAt_unwindModules
  rw [lookup_pageSpace ho' hn, lookup_pageSpace ho hn, Except.ok.injEq] at heq
  by_cases h : o.toNat = kind.headerSize
  · simp [h, hiff] at heq
  · simp [h, hiff] at heq

end PageSpace

/-- Lookups do not depend on where the entries of a page are only if there are none. -/
theorem relocatable_iff {kind : PageKind} {n o : UInt16} (ho : kind.headerSize ≤ o.toNat) :
    Relocatable kind n o ↔ n = 0 := by
  constructor
  · intro hrel
    by_contra hn
    exact not_relocatable_of_ne hn ho hrel
  · rintro rfl o' hne size space space' base page h modules pc hat
    refine lookupStackFrameForPC_congr hat fun pcOffset => ?_
    refine lookupUnwindInfo_congr (fun x hx => h.readMemory_eq hx) fun header entry => ?_
    rw [pageEncoding_eq_none h.page_old, pageEncoding_eq_none h.page_new]

/-- Of pages of either kind, with entries or none. -/
theorem relocatable_iff_pages :
    (Relocatable .regular 2 8 ↔ (2 : UInt16) = 0)
      ∧ (Relocatable .compressed 3 0x40 ↔ (3 : UInt16) = 0)
      ∧ (Relocatable .regular 0 8 ↔ (0 : UInt16) = 0) :=
  ⟨relocatable_iff (by decide), relocatable_iff (by decide), relocatable_iff (by decide)⟩

/-- The one entry of a page, of a function with a frame, is not found after it is moved. -/
theorem lookup_relocated_one :
    Relocation .regular 1 8 16 0xF0000 (pageSpace .regular 1 8)
      (pageSpace .regular 1 16) 0x10000 0x10100
      ∧ UnwindInfoAt unwindModules 0x8000 0x10000
      ∧ lookupStackFrameForPC (pageSpace .regular 1 8).readMemory .arm64 unwindModules 0x8000
        = .ok .hasFrame
      ∧ lookupStackFrameForPC (pageSpace .regular 1 16).readMemory .arm64 unwindModules 0x8000
        = .ok .unknown :=
  ⟨relocation_pageSpace (by decide) (by decide) (by decide), unwindInfoAt_unwindModules,
    lookup_pageSpace (by decide) (by decide), lookup_pageSpace (by decide) (by decide)⟩

end MacMiniDump
