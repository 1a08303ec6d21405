import MacMiniDump.UnwindInfo

/-!
# Compact unwind info by a plain scan

What the format says about a function: the last index entry that is not past it leads to a page, and
the last entry there that is not past it has the encoding. Where the tables are sorted and can be
read, and the entries of a page follow its header, the lookup comes to the same answer
(`lookupStackFrameForPC_eq_scan`).
-/

namespace MacMiniDump

section Scan

variable (read : UInt64 → UInt64 → Option (List UInt8))

/-- A whole table, if every entry of it can be read. -/
def readTable {α : Type} (decode : List UInt8 → α) (tableAddr size : UInt64) : ℕ → Option (List α)
  | 0 => some []
  | n + 1 =>
    match readTable decode tableAddr size n, readEntry read decode tableAddr size n with
    | some l, some a => some (l ++ [a])
    | _, _ => none

/-- A second-level page with its entries where the header says that they are. -/
inductive SecondLevelPage
  | regular (header : RegularPageHeader) (entries : List RegularEntry)
  | compressed (header : CompressedPageHeader) (entries : List UInt32)
  | other (kind : UInt32)
  deriving DecidableEq, Repr

def readPage (page : UInt64) : Option SecondLevelPage :=
  match (read page 4).map read32 with
  | none => none
  | some kind =>
    if kind = UNWIND_SECOND_LEVEL_REGULAR then
      match (read page 8).map RegularPageHeader.decode with
      | none => none
      | some header =>
        (readTable read RegularEntry.decode (page + header.entryPageOffset.toUInt64) 8
          header.entryCount.toNat).map (.regular header)
    else if kind = UNWIND_SECOND_LEVEL_COMPRESSED then
      match (read page 12).map CompressedPageHeader.decode with
      | none => none
      | some header =>
        (readTable read read32 (page + header.entryPageOffset.toUInt64) 4
          header.entryCount.toNat).map (.compressed header)
    else some (.other kind)

/-- The encoding of that index: those of the common table come first. -/
def encodingOf (base : UInt64) (header : UnwindInfoSectionHeader) (page : UInt64)
    (pageHeader : CompressedPageHeader) (i : ℕ) : Option UInt32 :=
  if i < header.commonEncodingsArrayCount.toNat then
    (read (base + header.commonEncodingsArraySectionOffset.toUInt64
      + UInt64.ofNat i * 4) 4).map read32
  else
    (read (page + pageHeader.encodingsPageOffset.toUInt64
      + UInt64.ofNat (i - header.commonEncodingsArrayCount.toNat) * 4) 4).map read32

/-- The answer of a page, `none` when its encoding cannot be read. -/
def scanPage (base : UInt64) (header : UnwindInfoSectionHeader) (entry : UnwindInfoIndexEntry)
    (page : UInt64) (pcOffset : ℕ) : SecondLevelPage → Option StackFrameLookupResult
  | .regular _ entries =>
    match lastNotPast (fun e => e.functionOffset.toNat) pcOffset entries with
    | none => some .unknown
    | some e => some (classifyEncoding e.encoding)
  | .compressed pageHeader entries =>
    match lastNotPast (fun v => entry.functionOffset.toNat + (compressedEntryFuncOffset v).toNat)
        pcOffset entries with
    | none => some .unknown
    | some v =>
      (encodingOf read base header page pageHeader (compressedEntryEncodingIndex v).toNat).map
        classifyEncoding
  | .other _ => some .unknown

/-- The header of the section, and its index. -/
def readIndex (base : UInt64) : Option (UnwindInfoSectionHeader × List UnwindInfoIndexEntry) :=
  match (read base 28).map UnwindInfoSectionHeader.decode with
  | none => none
  | some header =>
    (readTable read UnwindInfoIndexEntry.decode (base + header.indexSectionOffset.toUInt64) 12
      header.indexCount.toNat).map (header, ·)

def pageAddr (base : UInt64) (entry : UnwindInfoIndexEntry) : UInt64 :=
  base + entry.secondLevelPagesSectionOffset.toUInt64

/-- The answer of the section, `none` when something cannot be read. -/
def scanUnwindInfo (base : UInt64) (pcOffset : ℕ) : Option StackFrameLookupResult :=
  match readIndex read base with
  | none => none
  | some (header, index) =>
    match lastNotPast (fun e : UnwindInfoIndexEntry => e.functionOffset.toNat) pcOffset index with
    | none => some .unknown
    | some entry =>
      if entry.secondLevelPagesSectionOffset = 0 then some .unknown
      else
        match readPage read (pageAddr base entry) with
        | none => none
        | some page => scanPage read base header entry (pageAddr base entry) pcOffset page

/-- The entries are sorted, and follow the header. -/
def SecondLevelPage.InOrder : SecondLevelPage → Prop
  | .regular header entries => header.entryPageOffset = 8
    ∧ entries.Pairwise fun e e' => e.functionOffset ≤ e'.functionOffset
  | .compressed header entries => header.entryPageOffset = 12
    ∧ entries.Pairwise fun v v' => compressedEntryFuncOffset v ≤ compressedEntryFuncOffset v'
  | .other _ => True

/-- The index is sorted, and the page it leads to is in order. -/
structure SectionInOrder (base : UInt64) (pcOffset : ℕ) : Prop where
  index : ∀ header index, readIndex read base = some (header, index) →
    index.Pairwise fun e e' => e.functionOffset ≤ e'.functionOffset
  page : ∀ header index entry page, readIndex read base = some (header, index) →
    lastNotPast (fun e : UnwindInfoIndexEntry => e.functionOffset.toNat) pcOffset index
      = some entry →
    entry.secondLevelPagesSectionOffset ≠ 0 →
    readPage read (pageAddr base entry) = some page → page.InOrder

end Scan

/-! ## The lookup and the scan -/

section Eq

variable {read : UInt64 → UInt64 → Option (List UInt8)}

theorem readTable_eq {α : Type} {decode : List UInt8 → α} {tableAddr size : UInt64} :
    ∀ {n : ℕ} {l : List α}, readTable read decode tableAddr size n = some l →
      l.length = n ∧ ∀ i (hi : i < l.length), readEntry read decode tableAddr size i = some l[i]
  | 0, l, h => by
    simp only [readTable, Option.some.injEq] at h
    subst h
    exact ⟨rfl, fun i hi => absurd hi (Nat.not_lt_zero i)⟩
  | n + 1, l, h => by
    unfold readTable at h
    split at h
    · rename_i l' a hl ha
      simp only [Option.some.injEq] at h
      subst h
      obtain ⟨hlen, hget⟩ := readTable_eq hl
      refine ⟨by simp [hlen], fun i hi => ?_⟩
      rcases Nat.lt_or_ge i l'.length with hlt | hge
      · rw [List.getElem_append_left hlt, hget i hlt]
      · have hin : i = n := by
          rw [List.length_append, List.length_singleton] at hi
          omega
        subst hin
        rw [List.getElem_append_right hge]
        simp [ha]
    · simp at h

/-- A search in a sorted table that can be read. -/
theorem lastPassing_readTable {α : Type} {decode : List UInt8 → α} {tableAddr size : UInt64} {n : ℕ}
    {l : List α} (h : readTable read decode tableAddr size n = some l) (key : α → ℕ) (x : ℕ)
    (pass : α → Bool) (hs : l.Pairwise fun a b => key a ≤ key b)
    (hpass : ∀ a, pass a = decide (key a ≤ x)) :
    lastPassing (readEntry read decode tableAddr size) pass n = lastNotPast key x l := by
  obtain ⟨hlen, hget⟩ := readTable_eq h
  have hfun : pass = fun a => decide (key a ≤ x) := funext hpass
  rw [hfun, ← hlen]
  exact lastPassing_eq hs hget

theorem compressedEntryEncodingIndex_lt (v : UInt32) :
    (compressedEntryEncodingIndex v).toNat < 256 := by
  rw [compressedEntryEncodingIndex, UInt32.toNat_and]
  exact Nat.lt_succ_of_le Nat.and_le_right

theorem encodingAt_eq {base page : UInt64} {header : UnwindInfoSectionHeader}
    {pageHeader : CompressedPageHeader} (v : UInt32) :
    encodingAt read base header page pageHeader (compressedEntryEncodingIndex v).toUInt16
      = encodingOf read base header page pageHeader (compressedEntryEncodingIndex v).toNat := by
  have hlt := compressedEntryEncodingIndex_lt v
  set idx := compressedEntryEncodingIndex v
  have h16 : idx.toUInt16.toNat = idx.toNat := by
    rw [UInt32.toNat_toUInt16]
    omega
  have h32 : idx.toUInt16.toUInt32 = idx := by
    rw [← UInt32.toNat_inj, UInt16.toNat_toUInt32, h16]
  have h64 : idx.toUInt16.toUInt64 = UInt64.ofNat idx.toNat := by
    rw [← UInt64.toNat_inj, UInt16.toNat_toUInt64, h16,
      UInt64.toNat_ofNat_of_lt' (show _ < 2 ^ 64 by omega)]
  unfold encodingAt encodingOf
  rw [h32, h64]
  simp only [UInt32.lt_iff_toNat_lt]
  split_ifs with hcommon
  · rfl
  · have hsub : (idx - header.commonEncodingsArrayCount).toUInt16.toUInt64
        = UInt64.ofNat (idx.toNat - header.commonEncodingsArrayCount.toNat) := by
      have hle : header.commonEncodingsArrayCount ≤ idx := UInt32.le_iff_toNat_le.2 (by omega)
      rw [← UInt64.toNat_inj, UInt16.toNat_toUInt64, UInt32.toNat_toUInt16,
        UInt32.toNat_sub_of_le _ _ hle, UInt64.toNat_ofNat_of_lt' (show _ < 2 ^ 64 by omega)]
      omega
    simp only [hsub]

variable {base page : UInt64} {pcOffset : UInt32}

theorem regularEncoding_eq {r : StackFrameLookupResult} {pageHeader : RegularPageHeader}
    {entries : List RegularEntry} {header : UnwindInfoSectionHeader} {entry : UnwindInfoIndexEntry}
    (hh : (read page 8).map RegularPageHeader.decode = some pageHeader)
    (ht : readTable read RegularEntry.decode (page + pageHeader.entryPageOffset.toUInt64) 8
      pageHeader.entryCount.toNat = some entries)
    (hin : (SecondLevelPage.regular pageHeader entries).InOrder)
    (hr : scanPage read base header entry page pcOffset.toNat (.regular pageHeader entries)
      = some r) :
    (match regularEncoding read page pcOffset with
      | none => .unknown
      | some encoding => classifyEncoding encoding) = r := by
  obtain ⟨hoff, hsorted⟩ := hin
  rw [hoff] at ht
  have hlast := lastPassing_readTable ht (fun e => e.functionOffset.toNat) pcOffset.toNat
    (fun e => decide (e.functionOffset ≤ pcOffset))
    (hsorted.imp fun h => UInt32.le_iff_toNat_le.1 h) fun e => by
      simp only [UInt32.le_iff_toNat_le]
  have haddr : page + UInt16.toUInt64 8 = page + 8 := rfl
  rw [haddr] at hlast
  unfold regularEncoding
  simp only [hh, hlast]
  unfold scanPage at hr
  rcases he : lastNotPast (fun e : RegularEntry => e.functionOffset.toNat) pcOffset.toNat entries
    with _ | e
  · simpa [he] using hr
  · simpa [he] using hr

theorem compressedEncoding_eq {r : StackFrameLookupResult} {pageHeader : CompressedPageHeader}
    {entries : List UInt32} {header : UnwindInfoSectionHeader} {entry : UnwindInfoIndexEntry}
    (hle : entry.functionOffset ≤ pcOffset)
    (hh : (read page 12).map CompressedPageHeader.decode = some pageHeader)
    (ht : readTable read read32 (page + pageHeader.entryPageOffset.toUInt64) 4
      pageHeader.entryCount.toNat = some entries)
    (hin : (SecondLevelPage.compressed pageHeader entries).InOrder)
    (hr : scanPage read base header entry page pcOffset.toNat (.compressed pageHeader entries)
      = some r) :
    (match compressedEncoding read base header entry page pcOffset with
      | none => .unknown
      | some encoding => classifyEncoding encoding) = r := by
  obtain ⟨hoff, hsorted⟩ := hin
  rw [hoff] at ht
  have hle' := UInt32.le_iff_toNat_le.1 hle
  have hlast := lastPassing_readTable ht
    (fun v => entry.functionOffset.toNat + (compressedEntryFuncOffset v).toNat) pcOffset.toNat
    (fun v => decide (compressedEntryFuncOffset v ≤ pcOffset - entry.functionOffset))
    (hsorted.imp fun h => Nat.add_le_add_left (UInt32.le_iff_toNat_le.1 h) _) fun v => by
      simp only [UInt32.le_iff_toNat_le, UInt32.toNat_sub_of_le _ _ hle, decide_eq_decide]
      omega
  have haddr : page + UInt16.toUInt64 12 = page + 12 := rfl
  rw [haddr] at hlast
  unfold compressedEncoding
  simp only [hh, hlast]
  unfold scanPage at hr
  rcases hv : lastNotPast
      (fun v => entry.functionOffset.toNat + (compressedEntryFuncOffset v).toNat)
    pcOffset.toNat entries with _ | v
  · simpa [hv] using hr
  · simp only [hv, encodingAt_eq] at hr ⊢
    rcases henc : encodingOf read base header page pageHeader (compressedEntryEncodingIndex v).toNat
      with _ | encoding
    · simp [henc] at hr
    · simpa [henc] using hr

/-- What the scan makes of a section that can be read, the lookup makes of it too. -/
theorem lookupUnwindInfo_eq {r : StackFrameLookupResult}
    (hin : SectionInOrder read base pcOffset.toNat)
    (hr : scanUnwindInfo read base pcOffset.toNat = some r) :
    lookupUnwindInfo read base pcOffset = r := by
  unfold scanUnwindInfo at hr
  rcases hindex : readIndex read base with _ | ⟨header, index⟩
  · simp [hindex] at hr
  have hsorted := hin.index header index hindex
  have hpages := fun entry page => hin.page header index entry page hindex
  have hread := hindex
  unfold readIndex at hread
  rcases hheader : (read base 28).map UnwindInfoSectionHeader.decode with _ | header'
  · simp [hheader] at hread
  simp only [hheader, Option.map_eq_some_iff, Prod.mk.injEq, exists_eq_right_right] at hread
  obtain ⟨htable, rfl⟩ := hread
  have hlast := lastPassing_readTable htable (fun e => e.functionOffset.toNat) pcOffset.toNat
    (fun e => decide (e.functionOffset ≤ pcOffset))
    (hsorted.imp fun h => UInt32.le_iff_toNat_le.1 h) fun e => by
      simp only [UInt32.le_iff_toNat_le]
  unfold lookupUnwindInfo lookupEncoding
  simp only [hindex, hheader, hlast] at hr ⊢
  rcases hentry : lastNotPast (fun e : UnwindInfoIndexEntry => e.functionOffset.toNat)
    pcOffset.toNat index with _ | entry
  · simpa [hentry] using hr
  simp only [hentry] at hr ⊢
  by_cases hnone : entry.secondLevelPagesSectionOffset = 0
  · simpa [hnone] using hr
  simp only [hnone, if_false] at hr ⊢
  rcases hpage : readPage read (pageAddr base entry) with _ | page
  · simp [hpage] at hr
  simp only [hpage] at hr
  have hinorder := hpages entry page hentry hnone hpage
  have hnotPast := lastNotPast_le hentry
  have hle : entry.functionOffset ≤ pcOffset := UInt32.le_iff_toNat_le.2 hnotPast
  show (match match (read (pageAddr base entry) 4).map read32 with
      | none => none
      | some kind =>
        if kind = UNWIND_SECOND_LEVEL_REGULAR then
          regularEncoding read (pageAddr base entry) pcOffset
        else if kind = UNWIND_SECOND_LEVEL_COMPRESSED then
          compressedEncoding read base header' entry (pageAddr base entry) pcOffset
        else none with
    | none => StackFrameLookupResult.unknown
    | some encoding => classifyEncoding encoding) = r
  unfold readPage at hpage
  rcases hkind : (read (pageAddr base entry) 4).map read32 with _ | kind
  · simp [hkind] at hpage
  simp only [hkind] at hpage ⊢
  split_ifs at hpage ⊢ with hreg hcomp
  · rcases hh : (read (pageAddr base entry) 8).map RegularPageHeader.decode with _ | pageHeader
    · simp [hh] at hpage
    simp only [hh, Option.map_eq_some_iff] at hpage
    obtain ⟨entries, ht, rfl⟩ := hpage
    exact regularEncoding_eq hh ht hinorder hr
  · rcases hh : (read (pageAddr base entry) 12).map CompressedPageHeader.decode with _ | pageHeader
    · simp [hh] at hpage
    simp only [hh, Option.map_eq_some_iff] at hpage
    obtain ⟨entries, ht, rfl⟩ := hpage
    exact compressedEncoding_eq hle hh ht hinorder hr
  · simp only [Option.some.injEq] at hpage
    subst hpage
    simpa [scanPage] using hr

/-- An address that the module lookup finds in an image is no further from its start than `__TEXT`
is long. -/
theorem sub_loadAddress_le {modules : ModuleList} {pc : UInt64} {mi : ModuleInfo} {p q : ℕ}
    (hmi : modules.getModuleInfoForAddress pc = some mi) (hw : mi.WellFormed) (hc : mi.Created)
    (hone : mi.OneUnwindInfo p q) :
    (pc - mi.loadAddress).toNat ≤ (mi.segmentAt p).vmsize.toNat := by
  obtain ⟨si, htext, haddr, hsize⟩ := ModuleInfo.getTextSegmentOfModule_eq hw hc hone
  have hcode : mi.isCodeInModule pc = true := by
    unfold ModuleList.getModuleInfoForAddress at hmi
    split at hmi
    · simp at hmi
    · split_ifs at hmi with h
      simp only [Option.some.injEq] at hmi
      exact hmi ▸ h
  unfold ModuleInfo.isCodeInModule at hcode
  rw [htext] at hcode
  simp only [haddr, hsize, ge_iff_le, Bool.and_eq_true, decide_eq_true_eq] at hcode
  obtain ⟨hge, hle⟩ := hcode
  have hge' := UInt64.le_iff_toNat_le.1 hge
  have hle' := UInt64.le_iff_toNat_le.1 hle
  have hmod := Nat.mod_le (mi.loadAddress.toNat + (mi.segmentAt p).vmsize.toNat) (2 ^ 64)
  rw [UInt64.toNat_add] at hle'
  rw [UInt64.toNat_sub_of_le _ _ hge]
  omega

end Eq

/-- Where the section is in the target. -/
def ModuleInfo.unwindInfoLoadAddr (mi : ModuleInfo) (p q : ℕ) : UInt64 :=
  mi.sectionAddr q + (mi.loadAddress - (mi.segmentAt p).vmaddr)

theorem lookupStackFrameForPC_eq {read : UInt64 → UInt64 → Option (List UInt8)}
    {modules : ModuleList} {pc : UInt64} {mi : ModuleInfo} {p q : ℕ}
    (hmi : modules.getModuleInfoForAddress pc = some mi) (hw : mi.WellFormed)
    (hone : mi.OneUnwindInfo p q) :
    lookupStackFrameForPC read .arm64 modules pc
      = .ok (lookupUnwindInfo read (mi.unwindInfoLoadAddr p q) (pc - mi.loadAddress).toUInt32) := by
  unfold lookupStackFrameForPC lookupStackFrameForPCImplArm64
  simp only [hmi, ModuleInfo.searchUnwindInfo_eq hw hone, hone.addr, decide_false, Bool.not_true,
    Bool.or_self, Bool.false_eq_true, if_false]
  rfl

/-- On arm64 the lookup comes to what a plain scan finds, for every image with one `__TEXT` of less
than 4 GiB and one `__unwind_info`, wherever the scan can read the tables and they are in order. -/
theorem lookupStackFrameForPC_eq_scan {read : UInt64 → UInt64 → Option (List UInt8)}
    {modules : ModuleList} {pc : UInt64} {mi : ModuleInfo} {p q : ℕ} {r : StackFrameLookupResult}
    (hmi : modules.getModuleInfoForAddress pc = some mi) (hw : mi.WellFormed) (hc : mi.Created)
    (hone : mi.OneUnwindInfo p q) (htext : (mi.segmentAt p).vmsize.toNat < 2 ^ 32)
    (hin : SectionInOrder read (mi.unwindInfoLoadAddr p q) (pc - mi.loadAddress).toNat)
    (hr : scanUnwindInfo read (mi.unwindInfoLoadAddr p q) (pc - mi.loadAddress).toNat = some r) :
    lookupStackFrameForPC read .arm64 modules pc = .ok r := by
  have hle := sub_loadAddress_le hmi hw hc hone
  have hoff : (pc - mi.loadAddress).toUInt32.toNat = (pc - mi.loadAddress).toNat := by
    rw [UInt64.toNat_toUInt32, Nat.mod_eq_of_lt (by omega)]
  have hlookup : lookupUnwindInfo read (mi.unwindInfoLoadAddr p q) (pc - mi.loadAddress).toUInt32
      = r := lookupUnwindInfo_eq (by rwa [hoff]) (by rwa [hoff])
  rw [lookupStackFrameForPC_eq hmi hw hone, hlookup]

/-- `__TEXT` at zero, with `__unwind_info` at 0x8000. -/
def unwindImage : List UInt8 :=
  MachHeader64.bytes
      { magic := MH_MAGIC_64, cputype := Arch.arm64.cputype, cpusubtype := Arch.arm64.cpusubtype
        filetype := MH_EXECUTE, ncmds := 1, sizeofcmds := 152, flags := 0, reserved := 0 }
    ++ SegmentCommand64.bytes
      { cmd := LC_SEGMENT_64, cmdsize := 152
        segname := #v[95, 95, 84, 69, 88, 84, 0, 0, 0, 0, 0, 0, 0, 0, 0, 0]
        vmaddr := 0, vmsize := 0x10000, fileoff := 0, filesize := 0x10000, maxprot := 5
        initprot := 5, nsects := 1, flags := 0 }
    ++ strncpy 16 (ascii "__unwind_info") ++ strncpy 16 (ascii "__TEXT") ++ le64 0x8000
      ++ le64 0x1000
    ++ List.replicate 32 0

def unwindModule : ModuleInfo where
  loadAddress := 0x8000
  uuid := Vector.replicate 16 0
  filePath := []
  segments :=
    [{ segmentName := #v[95, 95, 84, 69, 88, 84, 0, 0, 0, 0, 0, 0, 0, 0, 0, 0]
       address := 0x8000, size := 0x10000 }]
  executing := true
  headerAndLoadCommandBytes := unwindImage
  noNul := zero_notMem_nil
  segmentCount := by simp
  hasHeader := by decide +kernel

def unwindModules : ModuleList where
  moduleInfos := [(0x8000, unwindModule)]
  ordered := List.pairwise_singleton _ _
  keyed := by
    intro i hi
    obtain rfl := List.mem_singleton.1 hi
    rfl
  count := by simp

theorem getModuleInfo_of_candidate {pc : UInt64}
    (hcandidate : candidate unwindModules.moduleInfos pc = some (0x8000, unwindModule))
    (hcode : unwindModule.isCodeInModule pc = true) :
    unwindModules.getModuleInfoForAddress pc = some unwindModule := by
  rw [ModuleList.getModuleInfoForAddress, hcandidate]
  simp only [hcode, if_true]

theorem getModuleInfo_unwindModules :
    unwindModules.getModuleInfoForAddress 0x8000 = some unwindModule :=
  getModuleInfo_of_candidate rfl (by decide +kernel)

theorem wellFormed_unwindModule : unwindModule.WellFormed := by
  have hcommands : unwindModule.commands = [32] := by decide +kernel
  have hsegments : unwindModule.segmentOffsets = [32] := by decide +kernel
  refine ⟨fun p hp => ?_, fun p hp => ?_⟩
  · rw [hcommands, List.mem_singleton] at hp
    subst hp
    decide +kernel
  · rw [hsegments, List.mem_singleton] at hp
    subst hp
    decide +kernel

theorem oneUnwindInfo_unwindModule : unwindModule.OneUnwindInfo 32 104 :=
  ⟨by decide +kernel, by decide +kernel, by decide +kernel⟩

theorem created_unwindModule : unwindModule.Created := by
  have hsegments : getSegmentsOfModule unwindImage
      = .ok [{ segmentName := #v[95, 95, 84, 69, 88, 84, 0, 0, 0, 0, 0, 0, 0, 0, 0, 0]
               address := 0, size := 0x10000 }] := by decide +kernel
  exact ⟨_, hsegments, by decide +kernel⟩

/-- A megabyte that can be read, with these bytes in it. -/
def unwindSpace (content : ℕ → UInt8) : AddressSpace where
  regions := [⟨0x10000, 0x100000, ⟨1, 0⟩⟩]
  byte a := content (a - 0x10000).toNat
  nonempty := by
    intro r hr
    obtain rfl := List.mem_singleton.1 hr
    decide
  aligned := by
    intro r hr
    obtain rfl := List.mem_singleton.1 hr
    decide
  fits := by
    intro r hr
    obtain rfl := List.mem_singleton.1 hr
    decide
  ascending := List.pairwise_singleton _ _

/-- A regular page with two functions, and a compressed one with two. The encoding of the first
function there is in the common table, and that of the second one in the page. -/
def twoPagesSection : List UInt8 :=
  le32 1 ++ le32 28 ++ le32 1 ++ le32 0 ++ le32 0 ++ le32 32 ++ le32 2
    ++ le32 UNWIND_ARM64_MODE_FRAMELESS
    ++ (le32 0 ++ le32 56 ++ le32 0) ++ (le32 0x100 ++ le32 80 ++ le32 0)
    ++ (le32 UNWIND_SECOND_LEVEL_REGULAR ++ le16 8 ++ le16 2
      ++ (le32 0 ++ le32 UNWIND_ARM64_MODE_FRAMELESS)
        ++ (le32 0x10 ++ le32 UNWIND_ARM64_MODE_FRAME))
    ++ (le32 UNWIND_SECOND_LEVEL_COMPRESSED ++ le16 12 ++ le16 2 ++ le16 20 ++ le16 1
      ++ le32 0 ++ le32 0x01000020 ++ le32 UNWIND_ARM64_MODE_FRAME)

def twoPagesSpace : AddressSpace := unwindSpace fun i => twoPagesSection.getD i 0

def twoPagesIndex : List UnwindInfoIndexEntry :=
  [{ functionOffset := 0, secondLevelPagesSectionOffset := 56, lsdaIndexArraySectionOffset := 0 },
    { functionOffset := 0x100, secondLevelPagesSectionOffset := 80
      lsdaIndexArraySectionOffset := 0 }]

theorem readIndex_twoPagesSpace :
    (readIndex twoPagesSpace.readMemory 0x10000).map Prod.snd = some twoPagesIndex := by
  decide +kernel

theorem readPage_twoPagesSpace :
    readPage twoPagesSpace.readMemory 0x10038 = some (.regular
        { kind := UNWIND_SECOND_LEVEL_REGULAR, entryPageOffset := 8, entryCount := 2 }
        [⟨0, UNWIND_ARM64_MODE_FRAMELESS⟩, ⟨0x10, UNWIND_ARM64_MODE_FRAME⟩])
      ∧ readPage twoPagesSpace.readMemory 0x10050 = some (.compressed
        { kind := UNWIND_SECOND_LEVEL_COMPRESSED, entryPageOffset := 12, entryCount := 2
          encodingsPageOffset := 20, encodingsCount := 1 } [0, 0x01000020]) := by
  decide +kernel

theorem sectionInOrder_twoPagesSpace (pcOffset : ℕ) :
    SectionInOrder twoPagesSpace.readMemory 0x10000 pcOffset := by
  have hindex : ∀ header index, readIndex twoPagesSpace.readMemory 0x10000 = some (header, index) →
      index = twoPagesIndex := by
    intro header index h
    have hsnd := readIndex_twoPagesSpace
    rw [h, Option.map_some, Option.some.injEq] at hsnd
    exact hsnd
  constructor
  · intro header index h
    rw [hindex header index h]
    decide
  · intro header index entry page h hentry _ hpage
    rw [hindex header index h] at hentry
    have hmem := (List.mem_filter.1 (List.mem_of_getLast? hentry)).1
    obtain ⟨hregular, hcompressed⟩ := readPage_twoPagesSpace
    rcases List.mem_pair.1 hmem with rfl | rfl
    · have haddr : pageAddr 0x10000 { functionOffset := 0, secondLevelPagesSectionOffset := 56
                                      lsdaIndexArraySectionOffset := 0 } = 0x10038 := rfl
      rw [haddr, hregular, Option.some.injEq] at hpage
      subst hpage
      exact ⟨rfl, by decide⟩
    · have haddr : pageAddr 0x10000 { functionOffset := 0x100, secondLevelPagesSectionOffset := 80
                                      lsdaIndexArraySectionOffset := 0 } = 0x10050 := rfl
      rw [haddr, hcompressed, Option.some.injEq] at hpage
      subst hpage
      exact ⟨rfl, by decide⟩

/-- The second function of either page. -/
theorem lookupStackFrameForPC_eq_scan_twoPages :
    lookupStackFrameForPC twoPagesSpace.readMemory .arm64 unwindModules 0x8014 = .ok .hasFrame
      ∧ lookupStackFrameForPC twoPagesSpace.readMemory .arm64 unwindModules 0x8140
        = .ok .hasFrame := by
  have haddr : unwindModule.unwindInfoLoadAddr 32 104 = 0x10000 := by decide +kernel
  have hfound : ∀ pc, unwindModules.getModuleInfoForAddress pc = some unwindModule →
      scanUnwindInfo twoPagesSpace.readMemory 0x10000 (pc - 0x8000).toNat = some .hasFrame →
      lookupStackFrameForPC twoPagesSpace.readMemory .arm64 unwindModules pc = .ok .hasFrame := by
    intro pc hmi hscan
    refine lookupStackFrameForPC_eq_scan hmi wellFormed_unwindModule created_unwindModule
      oneUnwindInfo_unwindModule (by decide +kernel) ?_ ?_
    · rw [haddr]
      exact sectionInOrder_twoPagesSpace _
    · rwa [haddr]
  exact ⟨hfound 0x8014 (getModuleInfo_of_candidate rfl (by decide +kernel)) (by decide +kernel),
    hfound 0x8140 (getModuleInfo_of_candidate rfl (by decide +kernel)) (by decide +kernel)⟩

end MacMiniDump
