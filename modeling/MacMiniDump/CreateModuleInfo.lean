import MacMiniDump.UnwindInfo
import MacMiniDump.WalkBounds

/-!
# `CreateModuleInfo`

An image becomes a `ModuleInfo` when its header, its load commands and its path can be read. Its
segments are moved by the slide of `__TEXT`, and two other walks compute that slide again: one that
returns at the first `__TEXT`, for the main binary, and one that keeps the last, for the unwind
info. With one such segment in commands that are well formed they all agree (`slides_agree`).
-/

namespace MacMiniDump

/-- What comes of the reads that are made for one image, each of which may fail. -/
structure ImageReads where
  /-- `ReadProcessMemoryString`, of the path -/
  path : UInt64 → Option (List UInt8)
  /-- `ReadProcessMemoryInto`, of the header -/
  header : UInt64 → Option (List UInt8)
  /-- `ReadProcessMemory`, of the header and the load commands -/
  block : UInt64 → UInt64 → Option (List UInt8)
  noNul : ∀ {a s}, path a = some s → 0 ∉ s
  length_block : ∀ {a n d}, block a n = some d → d.length = n.toNat

theorem length_pushSegment {bytes : List UInt8} {p : ℕ} {result segments : List SegmentInfo}
    (h : pushSegment bytes p result = .ok segments) : segments.length ≤ result.length + 1 := by
  unfold pushSegment at h
  split_ifs at h
  · obtain rfl := Except.ok.inj h
    simp
  · obtain rfl := Except.ok.inj h
    exact Nat.le_succ _

theorem length_forCommands {bytes : List UInt8} :
    ∀ (n p : ℕ) {result segments : List SegmentInfo},
      forCommands bytes (pushSegment bytes) n p result = .ok segments →
      segments.length ≤ result.length + n
  | 0, p, result, segments, h => by
    obtain rfl := Except.ok.inj h
    exact le_rfl
  | n + 1, p, result, segments, h => by
    rw [forCommands] at h
    split_ifs at h
    rcases hbody : pushSegment bytes p result with e | result'
    · simp [hbody] at h
    · rw [hbody] at h
      have hstep := length_pushSegment hbody
      have hrest := length_forCommands n _ h
      omega

theorem length_getSegmentsOfModule {bytes : List UInt8} {segments : List SegmentInfo}
    (h : getSegmentsOfModule bytes = .ok segments) : segments.length < 2 ^ 32 := by
  have hlen := length_forCommands _ _ h
  have hncmds : ncmdsOf bytes < 2 ^ 32 := UInt32.toNat_lt _
  simp only [List.length_nil, Nat.zero_add] at hlen
  exact hlen.trans_lt hncmds

@[simp] theorem length_slideSegments (loadAddress : UInt64) (segments : List SegmentInfo) :
    (slideSegments loadAddress segments).length = segments.length := by
  simp [slideSegments]

/-- `sizeof (mach_header_64) + header.sizeofcmds` -/
def blockSize (headerBytes : List UInt8) : UInt64 :=
  32 + (MachHeader64.decode headerBytes).sizeofcmds.toUInt64

theorem toNat_blockSize (headerBytes : List UInt8) :
    (blockSize headerBytes).toNat = 32 + (MachHeader64.decode headerBytes).sizeofcmds.toNat := by
  have hlt := (MachHeader64.decode headerBytes).sizeofcmds.toNat_lt
  rw [blockSize, UInt64.toNat_add, UInt32.toNat_toUInt64]
  exact Nat.mod_eq_of_lt (by simp; omega)

/-- `CreateModuleInfo`, none for a read that failed. -/
def createModuleInfo (reads : ImageReads) (loadAddress : UInt64) (pImageFilePath : List UInt8) :
    Except Fault (Option ModuleInfo) :=
  match reads.header loadAddress with
  | none => .ok none
  | some headerBytes =>
    match hblock : reads.block loadAddress (blockSize headerBytes) with
    | none => .ok none
    | some rawBytes =>
      match hsegments : getSegmentsOfModule rawBytes, getUUIDOfModule rawBytes with
      | .error e, _ => .error e
      | .ok _, .error e => .error e
      | .ok segments, .ok uuid =>
        .ok (some
          { loadAddress := loadAddress
            uuid := uuid
            filePath := cstr pImageFilePath
            segments := slideSegments loadAddress segments
            executing := false
            headerAndLoadCommandBytes := rawBytes
            noNul := zero_notMem_cstr _
            segmentCount := by
              rw [length_slideSegments]
              exact length_getSegmentsOfModule hsegments
            hasHeader := by
              rw [reads.length_block hblock, toNat_blockSize]
              exact Nat.le_add_right _ _ })

/-- `CreateModuleInfo`, with the address of the path. -/
def createModuleInfoAt (reads : ImageReads) (loadAddress imageFilePathAddress : UInt64) :
    Except Fault (Option ModuleInfo) :=
  match reads.path imageFilePathAddress with
  | none => .ok none
  | some imagePath => createModuleInfo reads loadAddress imagePath

/-- The module is made of these bytes. -/
structure ModuleInfo.MadeOf (mi : ModuleInfo) (loadAddress : UInt64)
    (pImageFilePath rawBytes : List UInt8) : Prop where
  loadAddress : mi.loadAddress = loadAddress
  filePath : mi.filePath = cstr pImageFilePath
  bytes : mi.headerAndLoadCommandBytes = rawBytes
  uuid : getUUIDOfModule rawBytes = .ok mi.uuid
  segments : mi.Created
  executing : mi.executing = false

/-- Where the load commands are. -/
def commandsOf (bytes : List UInt8) : List ℕ := commandOffsets bytes (ncmdsOf bytes) 32

def cmdsizeAt (bytes : List UInt8) (p : ℕ) : ℕ := (u32At bytes (p + 4)).toNat

/-- The size of the structure of the command. -/
def structureSize (bytes : List UInt8) (p : ℕ) : ℕ :=
  if isSegment bytes p then 72 else if isUUID bytes p then 24 else 8

/-- Every command is at least as large as its structure, and together they fill the bytes. -/
structure CommandsFormed (bytes : List UInt8) : Prop where
  atLeast : ∀ p ∈ commandsOf bytes, structureSize bytes p ≤ cmdsizeAt bytes p
  sum : 32 + ((commandsOf bytes).map (cmdsizeAt bytes)).sum = bytes.length

section Formed

variable {bytes : List UInt8}

theorem add_cmdsizeAt_le :
    ∀ (n p : ℕ), ∀ q ∈ commandOffsets bytes n p,
      q + cmdsizeAt bytes q ≤ p + ((commandOffsets bytes n p).map (cmdsizeAt bytes)).sum
  | n + 1, p, q, hq => by
    rw [commandOffsets, List.map_cons, List.sum_cons]
    rcases List.mem_cons.1 hq with rfl | hq
    · omega
    · have hrest := add_cmdsizeAt_le n _ q hq
      rw [← cmdsizeAt] at hrest ⊢
      omega

theorem CommandsFormed.fits (h : CommandsFormed bytes) :
    ∀ p ∈ commandsOf bytes, p + structureSize bytes p ≤ bytes.length := by
  intro p hp
  have hsize := h.atLeast p hp
  have hend := add_cmdsizeAt_le (ncmdsOf bytes) 32 p hp
  have hsum := h.sum
  rw [commandsOf] at hsum
  omega

theorem CommandsFormed.command (h : CommandsFormed bytes) :
    ∀ p ∈ commandsOf bytes, p + 8 ≤ bytes.length := by
  intro p hp
  have hfit := h.fits p hp
  unfold structureSize at hfit
  split_ifs at hfit
  · omega
  · omega
  · omega

theorem CommandsFormed.segment (h : CommandsFormed bytes) :
    ∀ p ∈ commandsOf bytes, isSegment bytes p = true → p + 72 ≤ bytes.length := by
  intro p hp hseg
  have hfit := h.fits p hp
  rwa [structureSize, if_pos hseg] at hfit

/-- The segments are those of the commands, in their order. -/
theorem CommandsFormed.getSegmentsOfModule_eq (h : CommandsFormed bytes) :
    getSegmentsOfModule bytes = .ok (((commandsOf bytes).filter (isSegment bytes)).map fun p =>
      .ofCommand (segmentCommandAt bytes p)) := by
  rw [getSegmentsOfModule, forCommands_eq _ _ _ _ h.command, foldlM_pushSegment, List.nil_append]
  · rfl
  · intro p hp hseg
    have hsize := h.segment p hp hseg
    omega

theorem isUUID_of_isSegment {p : ℕ} (hseg : isSegment bytes p = true) : isUUID bytes p = false := by
  rw [isSegment_iff] at hseg
  rw [isUUID, hseg]
  decide

theorem CommandsFormed.stays_getUUIDOfModule (h : CommandsFormed bytes) :
    Stays (getUUIDOfModule bytes) := by
  refine (stays_findUUID_iff _ _ h.command).2 fun p hp => ?_
  have huuid : isUUID bytes p = true := List.find?_some hp
  have hseg : isSegment bytes p ≠ true := fun hseg => by
    rw [isUUID_of_isSegment hseg] at huuid
    cases huuid
  have hfit := h.fits p (List.mem_of_find?_eq_some hp)
  rwa [structureSize, if_neg hseg, if_pos huuid] at hfit

/-- With the header and well-formed commands read, there is a module. -/
theorem createModuleInfo_eq {reads : ImageReads} {loadAddress : UInt64} {headerBytes : List UInt8}
    (hheader : reads.header loadAddress = some headerBytes)
    (hblock : reads.block loadAddress (blockSize headerBytes) = some bytes)
    (hw : CommandsFormed bytes) (pImageFilePath : List UInt8) :
    ∃ mi, createModuleInfo reads loadAddress pImageFilePath = .ok (some mi)
      ∧ mi.MadeOf loadAddress pImageFilePath bytes := by
  obtain ⟨uuid, huuid⟩ := hw.stays_getUUIDOfModule
  have hsegments := hw.getSegmentsOfModule_eq
  unfold createModuleInfo
  rw [hheader]
  simp only
  split
  · rename_i hnone
    rw [hblock] at hnone
    cases hnone
  · rename_i raw hraw
    obtain rfl := Option.some.inj (hblock.symm.trans hraw)
    split
    · rename_i e he
      rw [hsegments] at he
      cases he
    · rename_i e _ he
      rw [huuid] at he
      cases he
    · rename_i segments uuid' hget hget'
      obtain rfl := Except.ok.inj (huuid.symm.trans hget')
      exact ⟨_, rfl, rfl, rfl, rfl, huuid, ⟨segments, hget, rfl⟩, rfl⟩

end Formed

section Text

variable {bytes : List UInt8}

theorem segname_segmentCommandAt {p : ℕ} (hp : p + 24 ≤ bytes.length) :
    (segmentCommandAt bytes p).segname.toList = readAt bytes (p + 8) 16 := by
  have hname : readAt (readAt bytes p 72) 8 16 = readAt bytes (p + 8) 16 :=
    readAt_readAt bytes p (by decide)
  have hlen : (readAt bytes (p + 8) 16).length = 16 := length_readAt (by omega)
  rw [segmentCommandAt, SegmentCommand64.decode, hname]
  refine List.ext_getElem (by rw [hlen, Vector.length_toList]) fun i hi _ => ?_
  rw [Vector.length_toList] at hi
  simp [hlen]

theorem vmaddr_segmentCommandAt (p : ℕ) :
    (segmentCommandAt bytes p).vmaddr = u64At bytes (p + 24) :=
  congrArg read64 (readAt_readAt bytes p (by decide))

/-- The walk that returns at the first. -/
theorem preferredTextAddress_eq :
    ∀ (n p : ℕ), (∀ q ∈ commandOffsets bytes n p, q + 8 ≤ bytes.length
        ∧ (isSegment bytes q = true → q + 72 ≤ bytes.length)) →
      preferredTextAddress bytes n p
        = .ok ((((commandOffsets bytes n p).filter (isSegment bytes)).find?
          (isTextCommand bytes)).elim 0 fun q => (segmentCommandAt bytes q).vmaddr)
  | 0, p, _ => rfl
  | n + 1, p, h => by
    obtain ⟨⟨hp, hsegment⟩, hrest⟩ := List.forall_mem_cons.1 h
    have ih := preferredTextAddress_eq n _ hrest
    rw [preferredTextAddress, if_neg (by omega), commandOffsets]
    by_cases hseg : isSegment bytes p = true
    · have hsize := hsegment hseg
      have hname : startsWith (ascii "__TEXT" ++ [0]) (bytes.drop (p + 8))
          = .ok (isTextCommand bytes p) := by
        rw [isTextCommand, segname_segmentCommandAt (by omega)]
        exact namedAt_eq (by decide) (by decide) (by omega)
      rw [List.filter_cons_of_pos hseg]
      rw [isSegment_iff] at hseg
      simp only [if_pos hseg, hname]
      by_cases htext : isTextCommand bytes p = true
      · rw [List.find?_cons_of_pos htext, htext]
        simp only
        rw [if_neg (by omega), Option.elim_some, vmaddr_segmentCommandAt]
      · rw [List.find?_cons_of_neg htext, eq_false_of_ne_true htext]
        simp only
        rwa [if_neg (by omega)]
    · rw [List.filter_cons_of_neg hseg]
      rw [isSegment_iff] at hseg
      simp only [if_neg hseg]
      rwa [if_neg (by omega)]

theorem searchCommand_text {p : ℕ} {s s' : UnwindSearch} (h : searchCommand bytes p s = .ok s') :
    s'.textVmAddr = (if isSegment bytes p && isTextCommand bytes p then
        (segmentCommandAt bytes p).vmaddr else s.textVmAddr)
      ∧ s'.foundText = (isSegment bytes p && isTextCommand bytes p || s.foundText) := by
  unfold searchCommand at h
  by_cases hseg : isSegment bytes p = true
  · rw [if_pos hseg] at h
    by_cases hp : bytes.length < p + 68
    · rw [if_pos hp] at h
      cases h
    · rw [if_neg hp] at h
      rcases htext : isTextCommand bytes p with _ | _
      · simp only [htext, Bool.false_eq_true, if_false] at h
        split at h
        · cases h
        · obtain rfl := Except.ok.inj h
          simp
      · simp only [htext, if_true] at h
        split at h
        · cases h
        · obtain rfl := Except.ok.inj h
          simp [hseg]
  · rw [if_neg hseg] at h
    obtain rfl := Except.ok.inj h
    simp [hseg]

/-- The walk that keeps the last. -/
theorem forCommands_searchCommand_text :
    ∀ (n p : ℕ) {s s' : UnwindSearch}, forCommands bytes (searchCommand bytes) n p s = .ok s' →
      s'.textVmAddr = (((commandOffsets bytes n p).filter fun q =>
          isSegment bytes q && isTextCommand bytes q).foldl
            (fun _ q => (segmentCommandAt bytes q).vmaddr) s.textVmAddr)
        ∧ s'.foundText = ((commandOffsets bytes n p).any (fun q =>
          isSegment bytes q && isTextCommand bytes q) || s.foundText)
  | 0, p, s, s', h => by
    obtain rfl := Except.ok.inj h
    exact ⟨rfl, rfl⟩
  | n + 1, p, s, s', h => by
    rw [forCommands] at h
    split_ifs at h
    rcases hbody : searchCommand bytes p s with e | s''
    · simp [hbody] at h
    · rw [hbody] at h
      obtain ⟨haddr, hfound⟩ := searchCommand_text hbody
      obtain ⟨haddr', hfound'⟩ := forCommands_searchCommand_text n _ h
      rw [haddr', hfound', haddr, hfound, commandOffsets, List.filter_cons, List.any_cons]
      cases isSegment bytes p && isTextCommand bytes p with
      | false => simp
      | true => simp

end Text

/-! ## The slides -/

/-- The same image, whether it is executing or not. -/
structure ModuleInfo.SameImage (mi mi' : ModuleInfo) : Prop where
  loadAddress : mi'.loadAddress = mi.loadAddress
  bytes : mi'.headerAndLoadCommandBytes = mi.headerAndLoadCommandBytes

/-- Where the segment is, in an image that is slid by as much. -/
def slidAddress (loadAddress slide : UInt64) (sc : SegmentCommand64) : UInt64 :=
  if cstr sc.segname.toList = ascii "__TEXT" then loadAddress
  else if cstr sc.segname.toList = ascii "__PAGEZERO" then sc.vmaddr
  else sc.vmaddr + slide

/-- All who compute the slide of the image come to this one. The search for the unwind info reads
the sections too, and stays in the bytes if they are in their commands. -/
structure ModuleInfo.SlidBy (mi : ModuleInfo) (slide : UInt64) : Prop where
  segments : mi.segments = mi.segmentOffsets.map fun q =>
    { SegmentInfo.ofCommand (mi.segmentAt q) with
      address := slidAddress mi.loadAddress slide (mi.segmentAt q) }
  mainBinSpec : ∀ {debug : Bool} {modules : ModuleList} {mi' : ModuleInfo}, mi.SameImage mi' →
    modules.moduleInfos.find? (·.2.isMainExecutable) = some (mi.loadAddress, mi') →
    ∃ spec, createMainBinSpecPayload debug modules = .ok spec ∧ spec.slide = slide
  unwindInfo : ∀ {read : UInt64 → UInt64 → Option (List UInt8)} {modules : ModuleList} {pc : UInt64}
    {mi' : ModuleInfo} {found : UnwindSearch}, mi.SameImage mi' →
    modules.getModuleInfoForAddress pc = some mi' → mi'.searchUnwindInfo = .ok found →
    found.unwindInfoAddr ≠ 0 →
    lookupStackFrameForPCImplArm64 read modules pc = .ok (lookupUnwindInfo read
      (found.unwindInfoAddr + slide) (pc - mi.loadAddress).toUInt32)
  searched : (∀ q ∈ mi.segmentOffsets, 72 + nsectsAt mi.headerAndLoadCommandBytes q * sectionSize
      ≤ cmdsizeAt mi.headerAndLoadCommandBytes q) →
    ∀ mi' : ModuleInfo, mi.SameImage mi' → Stays mi'.searchUnwindInfo

section Slides

variable {bytes : List UInt8} {p : ℕ}

theorem slideSegments_eq {ps : List ℕ} (h : ps.filter (isTextCommand bytes) = [p])
    (loadAddress : UInt64) :
    slideSegments loadAddress (ps.map fun q => .ofCommand (segmentCommandAt bytes q))
      = ps.map fun q =>
        { SegmentInfo.ofCommand (segmentCommandAt bytes q) with
          address := slidAddress loadAddress (loadAddress - (segmentCommandAt bytes p).vmaddr)
            (segmentCommandAt bytes q) } := by
  rw [slideSegments, ModuleInfo.find?_isText h]
  simp only [List.map_map]
  refine List.map_congr_left fun q hq => ?_
  have hname := ModuleInfo.cstr_ofCommand (segmentCommandAt bytes q)
  rw [Function.comp_apply, SegmentInfo.slideBy, slidAddress, hname]
  by_cases htext : isTextCommand bytes q = true
  · have hqp : q = p := by
      rw [← List.mem_singleton, ← h]
      exact List.mem_filter.2 ⟨hq, htext⟩
    rw [isTextCommand_iff] at htext
    have haddr : (SegmentInfo.ofCommand (segmentCommandAt bytes p)).address
        + (loadAddress - (SegmentInfo.ofCommand (segmentCommandAt bytes p)).address)
          = loadAddress := by
      rw [UInt64.add_comm, UInt64.sub_add_cancel]
    rw [if_pos htext, if_neg (by rw [htext]; decide), hqp, haddr]
  · rw [isTextCommand_iff] at htext
    rw [if_neg htext]
    split_ifs
    · rfl
    · rfl

variable {mi : ModuleInfo} (hb : mi.headerAndLoadCommandBytes = bytes)
include hb

theorem getPreferredTextAddress_eq (hw : CommandsFormed bytes)
    (htext : ((commandsOf bytes).filter (isSegment bytes)).filter (isTextCommand bytes) = [p]) :
    getPreferredTextAddress mi = .ok (segmentCommandAt bytes p).vmaddr := by
  subst hb
  have hwalk := preferredTextAddress_eq (ncmdsOf mi.headerAndLoadCommandBytes) 32 fun q hq =>
    ⟨hw.command q hq, hw.segment q hq⟩
  have hfind : ((commandsOf mi.headerAndLoadCommandBytes).filter
      (isSegment mi.headerAndLoadCommandBytes)).find? (isTextCommand mi.headerAndLoadCommandBytes)
        = some p := by
    rw [← List.head?_filter, htext]
    rfl
  rw [commandsOf] at hfind
  rw [hfind] at hwalk
  exact hwalk

theorem searchUnwindInfo_text {found : UnwindSearch}
    (htext : ((commandsOf bytes).filter (isSegment bytes)).filter (isTextCommand bytes) = [p])
    (h : mi.searchUnwindInfo = .ok found) :
    found.textVmAddr = (segmentCommandAt bytes p).vmaddr ∧ found.foundText = true := by
  subst hb
  obtain ⟨haddr, hfound⟩ := forCommands_searchCommand_text _ _ h
  rw [List.filter_filter] at htext
  simp only [Bool.and_comm (isTextCommand _ _)] at htext
  have hany : (commandsOf mi.headerAndLoadCommandBytes).any (fun q =>
      isSegment mi.headerAndLoadCommandBytes q && isTextCommand mi.headerAndLoadCommandBytes q)
        = true := by
    have hmem := htext.symm ▸ List.mem_singleton_self p
    exact List.any_eq_true.2 ⟨p, List.mem_filter.1 hmem⟩
  rw [commandsOf] at htext hany
  rw [haddr, hfound, htext, hany]
  exact ⟨rfl, rfl⟩

theorem stays_searchUnwindInfo (hw : CommandsFormed bytes)
    (hsections : ∀ q ∈ (commandsOf bytes).filter (isSegment bytes),
      72 + nsectsAt bytes q * sectionSize ≤ cmdsizeAt bytes q) :
    Stays mi.searchUnwindInfo := by
  subst hb
  have hfits : ∀ q ∈ commandsOf mi.headerAndLoadCommandBytes,
      isSegment mi.headerAndLoadCommandBytes q = true →
      q + 72 + nsectsAt mi.headerAndLoadCommandBytes q * sectionSize
        ≤ mi.headerAndLoadCommandBytes.length := by
    intro q hq hseg
    have hinside := hsections q (List.mem_filter.2 ⟨hq, hseg⟩)
    have hend := add_cmdsizeAt_le (ncmdsOf mi.headerAndLoadCommandBytes) 32 q hq
    have hsum := hw.sum
    rw [commandsOf] at hsum
    omega
  have hwalk := forCommands_eq (searchCommand mi.headerAndLoadCommandBytes) _ _
    { unwindInfoAddr := 0, textVmAddr := 0, foundText := false } hw.command
  exact ⟨_, hwalk.trans (foldlM_searchCommand _ _ hfits)⟩

omit hb

/-- With one `__TEXT` in well-formed commands, all slides of the image are the same. -/
theorem slides_agree {reads : ImageReads} {loadAddress : UInt64} {headerBytes : List UInt8}
    (hheader : reads.header loadAddress = some headerBytes)
    (hblock : reads.block loadAddress (blockSize headerBytes) = some bytes)
    (hw : CommandsFormed bytes)
    (htext : ((commandsOf bytes).filter (isSegment bytes)).filter (isTextCommand bytes) = [p])
    (pImageFilePath : List UInt8) :
    ∃ mi, createModuleInfo reads loadAddress pImageFilePath = .ok (some mi)
      ∧ mi.MadeOf loadAddress pImageFilePath bytes
      ∧ mi.SlidBy (loadAddress - (segmentCommandAt bytes p).vmaddr) := by
  obtain ⟨mi, hcreate, hmade⟩ := createModuleInfo_eq hheader hblock hw pImageFilePath
  obtain rfl := hmade.bytes
  obtain rfl := hmade.loadAddress
  refine ⟨mi, hcreate, hmade, ?_, ?_, ?_, ?_⟩
  · obtain ⟨segments, hget, heq⟩ := hmade.segments
    rw [hw.getSegmentsOfModule_eq] at hget
    obtain rfl := Except.ok.inj hget
    exact heq.trans (slideSegments_eq htext mi.loadAddress)
  · intro debug modules mi' hsame hmain
    have hpreferred := getPreferredTextAddress_eq hsame.bytes hw htext
    unfold createMainBinSpecPayload
    rw [hmain]
    simp only [hpreferred]
    exact ⟨_, rfl, rfl⟩
  · intro read modules pc mi' found hsame hget hfound haddr
    obtain ⟨htextAddr, hfoundText⟩ := searchUnwindInfo_text hsame.bytes htext hfound
    unfold lookupStackFrameForPCImplArm64
    simp [hget, hfound, haddr, hfoundText, htextAddr, hsame.loadAddress]
  · intro hsections mi' hsame
    exact stays_searchUnwindInfo hsame.bytes hw hsections

/-- `__PAGEZERO`, and `__TEXT` behind it. -/
def smallImage : List UInt8 :=
  MachHeader64.bytes
      { magic := MH_MAGIC_64, cputype := Arch.arm64.cputype, cpusubtype := Arch.arm64.cpusubtype
        filetype := MH_EXECUTE, ncmds := 2, sizeofcmds := 144, flags := 0, reserved := 0 }
    ++ SegmentCommand64.bytes
      { cmd := LC_SEGMENT_64, cmdsize := 72
        segname := nameField (ascii "__PAGEZERO")
        vmaddr := 0, vmsize := 0x1000, fileoff := 0, filesize := 0, maxprot := 0, initprot := 0
        nsects := 0, flags := 0 }
    ++ SegmentCommand64.bytes
      { cmd := LC_SEGMENT_64, cmdsize := 72
        segname := nameField (ascii "__TEXT")
        vmaddr := 0x1000, vmsize := 0x1000, fileoff := 0, filesize := 0x1000, maxprot := 5
        initprot := 5, nsects := 0, flags := 0 }

/-- The image, wherever it is asked for. -/
def smallReads : ImageReads where
  path _ := some (ascii "/a")
  header _ := some (smallImage.take 32)
  block _ n := if n = 176 then some smallImage else none
  noNul := by
    intro a s h
    obtain rfl := Option.some.inj h
    decide
  length_block := by
    intro a n d h
    split_ifs at h with hn
    obtain rfl := Option.some.inj h
    rw [hn]
    decide +kernel

theorem commandsFormed_smallImage : CommandsFormed smallImage := by
  have hcommands : commandsOf smallImage = [32, 104] := by decide +kernel
  refine ⟨fun p hp => ?_, by rw [hcommands]; decide +kernel⟩
  rw [hcommands] at hp
  rcases List.mem_pair.1 hp with rfl | rfl
  · decide +kernel
  · decide +kernel

/-- Slid from 0x1000 to 0x5000. -/
theorem slides_agree_smallImage :
    ∃ mi, createModuleInfo smallReads 0x5000 (ascii "/a") = .ok (some mi)
      ∧ mi.MadeOf 0x5000 (ascii "/a") smallImage
      ∧ mi.SlidBy (0x5000 - (segmentCommandAt smallImage 104).vmaddr) :=
  slides_agree (show _ = some (smallImage.take 32) from rfl) (by decide +kernel)
    commandsFormed_smallImage (by decide +kernel) _

end Slides

end MacMiniDump
