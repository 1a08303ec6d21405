import MacMiniDump.Payloads

/-!
# Walking over load commands

`GetSegmentsOfModule`, `GetUUIDOfModule` and the search for `__unwind_info` go over the load
commands of an image that has been read, each as long as its `cmdsize` says. They check none of the
sizes, and what they read behind the bytes is an overread; where the commands are well formed, a
walk goes over the offsets of the commands and nothing else (`forCommands_eq`).
-/

namespace MacMiniDump

/-- A loop over `n` load commands, from the one at `p` on. -/
def forCommands {σ : Type} (bytes : List UInt8) (body : ℕ → σ → Except Fault σ) :
    ℕ → ℕ → σ → Except Fault σ
  | 0, _, s => .ok s
  | n + 1, p, s =>
    if bytes.length < p + 8 then .error .overread
    else
      match body p s with
      | .error e => .error e
      | .ok s' => forCommands bytes body n (p + (u32At bytes (p + 4)).toNat) s'

/-- The segment command at `p`, without the sections that follow it. -/
def segmentCommandAt (bytes : List UInt8) (p : ℕ) : SegmentCommand64 :=
  SegmentCommand64.decode (readAt bytes p 72)

/-- Is the command at `p` a segment? -/
def isSegment (bytes : List UInt8) (p : ℕ) : Bool := u32At bytes p = LC_SEGMENT_64

theorem isSegment_iff {bytes : List UInt8} {p : ℕ} :
    isSegment bytes p = true ↔ u32At bytes p = LC_SEGMENT_64 := decide_eq_true_iff

def SegmentInfo.ofCommand (segCmd : SegmentCommand64) : SegmentInfo where
  segmentName := Vector.ofFn fun i => (strncpy 16 segCmd.segname.toList).getD i 0
  address := segCmd.vmaddr
  size := segCmd.vmsize

/-- The body of the loop of `GetSegmentsOfModule`. It reads no more of the command than the name,
the address and the size. -/
def pushSegment (bytes : List UInt8) (p : ℕ) (result : List SegmentInfo) :
    Except Fault (List SegmentInfo) :=
  if isSegment bytes p then
    if bytes.length < p + 40 then .error .overread
    else .ok (result ++ [.ofCommand (segmentCommandAt bytes p)])
  else .ok result

/-- The `ncmds` of the header. -/
def ncmdsOf (bytes : List UInt8) : ℕ := (MachHeader64.decode (bytes.take 32)).ncmds.toNat

def getSegmentsOfModule (bytes : List UInt8) : Except Fault (List SegmentInfo) :=
  forCommands bytes (pushSegment bytes) (ncmdsOf bytes) 32 []

def isUUID (bytes : List UInt8) (p : ℕ) : Bool := u32At bytes p = LC_UUID

def uuidAt (bytes : List UInt8) (p : ℕ) : Vector UInt8 16 :=
  Vector.ofFn fun i => (readAt bytes (p + 8) 16).getD i 0

/-- The loop of `GetUUIDOfModule` over `n` commands, from the one at `p` on. -/
def findUUID (bytes : List UInt8) : ℕ → ℕ → Except Fault (Vector UInt8 16)
  | 0, _ => .ok (Vector.replicate 16 0)
  | n + 1, p =>
    if bytes.length < p + 4 then .error .overread
    else if isUUID bytes p then
      if bytes.length < p + 24 then .error .overread else .ok (uuidAt bytes p)
    else if bytes.length < p + 8 then .error .overread
    else findUUID bytes n (p + (u32At bytes (p + 4)).toNat)

def getUUIDOfModule (bytes : List UInt8) : Except Fault (Vector UInt8 16) :=
  findUUID bytes (ncmdsOf bytes) 32

def SegmentInfo.isText (si : SegmentInfo) : Bool := cstr si.segmentName.toList = ascii "__TEXT"

/-- All segments but `__PAGEZERO` are moved. -/
def SegmentInfo.slideBy (slide : UInt64) (si : SegmentInfo) : SegmentInfo :=
  if cstr si.segmentName.toList = ascii "__PAGEZERO" then si
  else { si with address := si.address + slide }

/-- What `CreateModuleInfo` makes of the segments: they are moved by as much as `__TEXT` is. -/
def slideSegments (loadAddress : UInt64) (segments : List SegmentInfo) : List SegmentInfo :=
  let slide :=
    match segments.find? SegmentInfo.isText with
    | none => 0
    | some si => loadAddress - si.address
  segments.map (SegmentInfo.slideBy slide)

/-- The segments are those that `CreateModuleInfo` gets from the bytes. -/
def ModuleInfo.Created (mi : ModuleInfo) : Prop :=
  ∃ segments, getSegmentsOfModule mi.headerAndLoadCommandBytes = .ok segments
    ∧ mi.segments = slideSegments mi.loadAddress segments

/-- `sizeof (section_64)` -/
def sectionSize : ℕ := 80

def sectionName (bytes : List UInt8) (q : ℕ) : List UInt8 := cstr (readAt bytes q 16)

def isUnwindInfo (bytes : List UInt8) (q : ℕ) : Bool := sectionName bytes q = ascii "__unwind_info"

/-- `strncmp`, with a name that is shorter than its limit. -/
def namedAt (bytes : List UInt8) (name : List UInt8) (p : ℕ) : Except Fault Bool :=
  startsWith (name ++ [0]) (bytes.drop p)

/-- The loop over `n` sections, from the one at `q` on, for the address of the last that is
`__unwind_info`. -/
def searchSections (bytes : List UInt8) : ℕ → ℕ → UInt64 → Except Fault UInt64
  | 0, _, unwindInfoAddr => .ok unwindInfoAddr
  | n + 1, q, unwindInfoAddr =>
    match namedAt bytes (ascii "__unwind_info") q with
    | .error e => .error e
    | .ok false => searchSections bytes n (q + sectionSize) unwindInfoAddr
    | .ok true =>
      if bytes.length < q + 40 then .error .overread
      else searchSections bytes n (q + sectionSize) (u64At bytes (q + 32))

structure UnwindSearch where
  unwindInfoAddr : UInt64
  textVmAddr : UInt64
  foundText : Bool
  deriving DecidableEq, Repr

def isTextCommand (bytes : List UInt8) (p : ℕ) : Bool :=
  cstr (segmentCommandAt bytes p).segname.toList = ascii "__TEXT"

theorem isTextCommand_iff {bytes : List UInt8} {p : ℕ} : isTextCommand bytes p = true
    ↔ cstr (segmentCommandAt bytes p).segname.toList = ascii "__TEXT" := decide_eq_true_iff

/-- The body of the loop of `LookupStackFrameForPCImplArm64` over the load commands. The number of
sections is the last it reads of a segment. -/
def searchCommand (bytes : List UInt8) (p : ℕ) (s : UnwindSearch) : Except Fault UnwindSearch :=
  if isSegment bytes p then
    if bytes.length < p + 68 then .error .overread
    else
      let sc := segmentCommandAt bytes p
      let s :=
        if isTextCommand bytes p then { s with textVmAddr := sc.vmaddr, foundText := true } else s
      match searchSections bytes sc.nsects.toNat (p + 72) s.unwindInfoAddr with
      | .error e => .error e
      | .ok unwindInfoAddr => .ok { s with unwindInfoAddr := unwindInfoAddr }
  else .ok s

def ModuleInfo.searchUnwindInfo (mi : ModuleInfo) : Except Fault UnwindSearch :=
  let bytes := mi.headerAndLoadCommandBytes
  forCommands bytes (searchCommand bytes) (ncmdsOf bytes) 32
    { unwindInfoAddr := 0, textVmAddr := 0, foundText := false }

/-- Where the commands are, when nothing is checked. -/
def commandOffsets (bytes : List UInt8) : ℕ → ℕ → List ℕ
  | 0, _ => []
  | n + 1, p => p :: commandOffsets bytes n (p + (u32At bytes (p + 4)).toNat)

def nsectsAt (bytes : List UInt8) (p : ℕ) : ℕ := (segmentCommandAt bytes p).nsects.toNat

/-- The sections of the segment at `p`. -/
def sectionOffsets (bytes : List UInt8) (p : ℕ) : List ℕ :=
  (List.range (nsectsAt bytes p)).map fun j => p + 72 + j * sectionSize

namespace ModuleInfo

def commands (mi : ModuleInfo) : List ℕ :=
  commandOffsets mi.headerAndLoadCommandBytes (ncmdsOf mi.headerAndLoadCommandBytes) 32

def segmentOffsets (mi : ModuleInfo) : List ℕ :=
  mi.commands.filter (isSegment mi.headerAndLoadCommandBytes)

/-- Every command is within the bytes read, and the sections of a segment are within its command. -/
structure WellFormed (mi : ModuleInfo) : Prop where
  fits : ∀ p ∈ mi.commands, 8 ≤ (u32At mi.headerAndLoadCommandBytes (p + 4)).toNat
    ∧ p + (u32At mi.headerAndLoadCommandBytes (p + 4)).toNat
      ≤ mi.headerAndLoadCommandBytes.length
  sections : ∀ p ∈ mi.segmentOffsets,
    72 + nsectsAt mi.headerAndLoadCommandBytes p * sectionSize
      ≤ (u32At mi.headerAndLoadCommandBytes (p + 4)).toNat

end ModuleInfo

theorem forCommands_eq {σ : Type} {bytes : List UInt8} (body : ℕ → σ → Except Fault σ) :
    ∀ (n p : ℕ) (s : σ), (∀ q ∈ commandOffsets bytes n p, q + 8 ≤ bytes.length) →
      forCommands bytes body n p s = (commandOffsets bytes n p).foldlM (fun s q => body q s) s
  | 0, _, _, _ => rfl
  | n + 1, p, s, h => by
    have hp : ¬ bytes.length < p + 8 := not_lt.2 (h p List.mem_cons_self)
    rw [forCommands, if_neg hp, commandOffsets, List.foldlM_cons]
    rcases hb : body p s with e | s'
    · rfl
    · exact forCommands_eq body n _ s' fun q hq => h q (List.mem_cons_of_mem _ hq)

/-- A comparison reads no further than to the end of what it is looking for. -/
theorem startsWith_take :
    ∀ (s m : List UInt8) {k : ℕ}, s.length ≤ k → startsWith s (m.take k) = startsWith s m
  | [], _, _, _ => by simp [startsWith]
  | c :: s, [], _, _ => by rw [List.take_nil]
  | c :: s, b :: m, 0, hk => by simp at hk
  | c :: s, b :: m, k + 1, hk => by
    rw [List.take_succ_cons, startsWith, startsWith, startsWith_take s m (by simpa using hk)]

theorem startsWith_eq :
    ∀ (s m : List UInt8), 0 ∉ s → s.length < m.length →
      startsWith (s ++ [0]) m = .ok (decide (cstr m = s))
  | [], b :: m, _, _ => by
    by_cases hb : 0 = b
    · subst hb
      simp [startsWith, cstr]
    · simp [startsWith, cstr, hb, Ne.symm hb]
  | c :: s, b :: m, hs, hlen => by
    obtain ⟨hc, hs'⟩ : 0 ≠ c ∧ 0 ∉ s := by simpa using hs
    rw [List.cons_append, startsWith]
    by_cases hcb : c = b
    · subst hcb
      rw [if_pos rfl, startsWith_eq s m hs' (by simpa using hlen)]
      simp [cstr, hc.symm]
    · rw [if_neg hcb]
      by_cases hb : b = 0
      · simp [cstr, hb]
      · simp [cstr, hb, Ne.symm hcb]

/-- A name in a field of 16 bytes. -/
theorem namedAt_eq {bytes name : List UInt8} {p : ℕ} (hname : 0 ∉ name) (hlen : name.length < 16)
    (hp : p + 16 ≤ bytes.length) :
    namedAt bytes name p = .ok (decide (cstr (readAt bytes p 16) = name)) := by
  rw [namedAt, ← startsWith_take _ _ (k := 16) (by simpa using hlen), ← readAt,
    startsWith_eq _ _ hname (by rw [length_readAt hp]; exact hlen)]

section WellFormed

variable {bytes : List UInt8}

theorem searchSections_eq :
    ∀ (n q : ℕ) (a : UInt64), q + n * sectionSize ≤ bytes.length →
      searchSections bytes n q a = .ok (((List.range n).map fun j => q + j * sectionSize).foldl
        (fun a r => if isUnwindInfo bytes r then u64At bytes (r + 32) else a) a)
  | 0, _, _, _ => rfl
  | n + 1, q, a, h => by
    have hsize : q + 80 ≤ bytes.length := by
      rw [Nat.succ_mul, sectionSize] at h
      omega
    have hname : namedAt bytes (ascii "__unwind_info") q = .ok (isUnwindInfo bytes q) :=
      namedAt_eq (by decide) (by decide) (by omega)
    have hshift : (fun j => q + j * sectionSize) ∘ Nat.succ
        = fun j => q + sectionSize + j * sectionSize := by
      funext j
      rw [Function.comp_apply, Nat.succ_mul]
      omega
    have hrest := fun a => searchSections_eq n (q + sectionSize) a
      (by rw [Nat.succ_mul] at h; omega)
    rw [searchSections, hname, List.range_succ_eq_map, List.map_cons, List.map_map, List.foldl_cons,
      hshift, Nat.zero_mul, Nat.add_zero]
    cases isUnwindInfo bytes q with
    | false => exact hrest a
    | true =>
      simp only [if_true]
      rw [if_neg (by omega)]
      exact hrest _

theorem searchCommand_eq {p : ℕ} (s : UnwindSearch) (hseg : isSegment bytes p = true)
    (hfit : p + 72 + nsectsAt bytes p * sectionSize ≤ bytes.length) :
    searchCommand bytes p s = .ok
      { unwindInfoAddr := (sectionOffsets bytes p).foldl
          (fun a r => if isUnwindInfo bytes r then u64At bytes (r + 32) else a) s.unwindInfoAddr
        textVmAddr :=
          if isTextCommand bytes p then (segmentCommandAt bytes p).vmaddr else s.textVmAddr
        foundText := isTextCommand bytes p || s.foundText } := by
  have hp : ¬ bytes.length < p + 68 := by omega
  have hsections := searchSections_eq (nsectsAt bytes p) (p + 72) s.unwindInfoAddr hfit
  rw [nsectsAt] at hsections
  rw [searchCommand, if_pos hseg, if_neg hp]
  rcases htext : isTextCommand bytes p with _ | _
  · simp only [Bool.false_eq_true, if_false, hsections, Bool.false_or]
    rfl
  · simp only [if_true, hsections, Bool.true_or]
    rfl

/-- What a walk over these commands finds. -/
theorem foldlM_searchCommand :
    ∀ (ps : List ℕ) (s : UnwindSearch),
      (∀ p ∈ ps, isSegment bytes p = true →
        p + 72 + nsectsAt bytes p * sectionSize ≤ bytes.length) →
      ps.foldlM (fun s p => searchCommand bytes p s) s = (.ok
        { unwindInfoAddr := ((ps.filter (isSegment bytes)).flatMap (sectionOffsets bytes)).foldl
            (fun a r => if isUnwindInfo bytes r then u64At bytes (r + 32) else a) s.unwindInfoAddr
          textVmAddr := (ps.filter (isSegment bytes)).foldl
            (fun a p => if isTextCommand bytes p then (segmentCommandAt bytes p).vmaddr else a)
            s.textVmAddr
          foundText := (ps.filter (isSegment bytes)).any (isTextCommand bytes) || s.foundText } :
        Except Fault UnwindSearch)
  | [], s, _ => by simp [pure, Except.pure]
  | p :: ps, s, h => by
    have ih := fun s => foldlM_searchCommand ps s fun q hq => h q (List.mem_cons_of_mem _ hq)
    rw [List.foldlM_cons]
    by_cases hseg : isSegment bytes p = true
    · rw [searchCommand_eq s hseg (h p List.mem_cons_self hseg), List.filter_cons_of_pos hseg,
        List.flatMap_cons, List.foldl_append, List.foldl_cons, List.any_cons]
      refine (ih _).trans ?_
      simp only [Bool.or_comm, Bool.or_left_comm]
    · rw [searchCommand, if_neg hseg, List.filter_cons_of_neg hseg]
      exact ih s

theorem foldlM_pushSegment :
    ∀ (ps : List ℕ) (result : List SegmentInfo),
      (∀ p ∈ ps, isSegment bytes p = true → p + 40 ≤ bytes.length) →
      ps.foldlM (fun s p => pushSegment bytes p s) result = (.ok (result
        ++ (ps.filter (isSegment bytes)).map fun p => .ofCommand (segmentCommandAt bytes p)) :
        Except Fault (List SegmentInfo))
  | [], result, _ => by simp [pure, Except.pure]
  | p :: ps, result, h => by
    have ih := fun result => foldlM_pushSegment ps result
      fun q hq => h q (List.mem_cons_of_mem _ hq)
    rw [List.foldlM_cons, pushSegment]
    by_cases hseg : isSegment bytes p = true
    · have hp : ¬ bytes.length < p + 40 := not_lt.2 (h p List.mem_cons_self hseg)
      rw [if_pos hseg, if_neg hp, List.filter_cons_of_pos hseg, List.map_cons]
      calc _ = _ := ih _
        _ = _ := by rw [List.append_assoc, List.singleton_append]
    · rw [if_neg hseg, List.filter_cons_of_neg hseg]
      exact ih result

theorem foldl_ite_eq {α β : Type*} (P : α → Bool) (f : α → β) (l : List α) (b : β) :
    l.foldl (fun b a => if P a then f a else b) b = (l.filter P).foldl (fun _ a => f a) b := by
  rw [List.foldl_filter]

end WellFormed

namespace ModuleInfo

variable {mi : ModuleInfo}

theorem WellFormed.length_le (h : mi.WellFormed) :
    ∀ p ∈ mi.commands, p + 8 ≤ mi.headerAndLoadCommandBytes.length := by
  intro p hp
  have hfit := h.fits p hp
  omega

theorem WellFormed.segment_length_le (h : mi.WellFormed) :
    ∀ p ∈ mi.commands, isSegment mi.headerAndLoadCommandBytes p = true →
      p + 72 + nsectsAt mi.headerAndLoadCommandBytes p * sectionSize
        ≤ mi.headerAndLoadCommandBytes.length := by
  intro p hp hseg
  have hfit := h.fits p hp
  have hsec := h.sections p (List.mem_filter.2 ⟨hp, hseg⟩)
  omega

/-- The address of the section and of the segment, as the commands have them. -/
def sectionAddr (mi : ModuleInfo) (q : ℕ) : UInt64 := u64At mi.headerAndLoadCommandBytes (q + 32)

def segmentAt (mi : ModuleInfo) (p : ℕ) : SegmentCommand64 :=
  segmentCommandAt mi.headerAndLoadCommandBytes p

/-- The one `__TEXT` and the one `__unwind_info`. No section is at address zero: that is where
`__PAGEZERO` is, or the header of the image. -/
structure OneUnwindInfo (mi : ModuleInfo) (p q : ℕ) : Prop where
  text : mi.segmentOffsets.filter (isTextCommand mi.headerAndLoadCommandBytes) = [p]
  unwindInfo : (mi.segmentOffsets.flatMap (sectionOffsets mi.headerAndLoadCommandBytes)).filter
    (isUnwindInfo mi.headerAndLoadCommandBytes) = [q]
  addr : mi.sectionAddr q ≠ 0

/-- The name in a field of 16 bytes is copied whole. -/
theorem cstr_ofCommand (sc : SegmentCommand64) :
    cstr (SegmentInfo.ofCommand sc).segmentName.toList = cstr sc.segname.toList := by
  have hlen : (strncpy 16 sc.segname.toList).length = 16 := length_strncpy _ _
  have hname : (SegmentInfo.ofCommand sc).segmentName.toList = strncpy 16 sc.segname.toList := by
    refine List.ext_getElem (by simp) fun i hi _ => ?_
    simp only [Vector.length_toList] at hi
    simp [SegmentInfo.ofCommand, hlen]
  rw [hname, cstr_strncpy, List.take_of_length_le]
  refine (List.takeWhile_prefix _).length_le.trans ?_
  simp

theorem isText_ofCommand {bytes : List UInt8} (p : ℕ) :
    SegmentInfo.isText (.ofCommand (segmentCommandAt bytes p)) = isTextCommand bytes p := by
  rw [SegmentInfo.isText, cstr_ofCommand]
  rfl

/-- The first `__TEXT`, where there is one only. -/
theorem find?_isText {bytes : List UInt8} {ps : List ℕ} {p : ℕ}
    (h : ps.filter (isTextCommand bytes) = [p]) :
    (ps.map fun q => SegmentInfo.ofCommand (segmentCommandAt bytes q)).find? SegmentInfo.isText
      = some (.ofCommand (segmentCommandAt bytes p)) := by
  have hcomp : SegmentInfo.isText ∘ (fun q => SegmentInfo.ofCommand (segmentCommandAt bytes q))
      = isTextCommand bytes := by
    funext q
    rw [Function.comp_apply, isText_ofCommand]
  rw [List.find?_map, hcomp, ← List.head?_filter, h]
  rfl

theorem segments_eq (h : mi.WellFormed) (hc : mi.Created) :
    mi.segments = slideSegments mi.loadAddress
      (mi.segmentOffsets.map fun p => .ofCommand (mi.segmentAt p)) := by
  obtain ⟨segments, hget, heq⟩ := hc
  rw [getSegmentsOfModule, forCommands_eq _ _ _ _ h.length_le, foldlM_pushSegment] at hget
  · simp only [List.nil_append, Except.ok.injEq] at hget
    rw [heq, ← hget]
    rfl
  · intro p hp hseg
    have := h.segment_length_le p hp hseg
    omega

/-- `__TEXT` is at the load address, and as large as its command says. -/
theorem getTextSegmentOfModule_eq (h : mi.WellFormed) (hc : mi.Created) {p q : ℕ}
    (hone : mi.OneUnwindInfo p q) :
    ∃ si, mi.getTextSegmentOfModule = some si ∧ si.address = mi.loadAddress
      ∧ si.size = (mi.segmentAt p).vmsize := by
  have hfind : (mi.segmentOffsets.map fun p => SegmentInfo.ofCommand (mi.segmentAt p)).find?
      SegmentInfo.isText = some (.ofCommand (mi.segmentAt p)) := find?_isText hone.text
  have htext : cstr (SegmentInfo.ofCommand (mi.segmentAt p)).segmentName.toList
      ≠ ascii "__PAGEZERO" := by
    have hname := List.find?_some hfind
    rw [SegmentInfo.isText, decide_eq_true_eq] at hname
    rw [hname]
    decide +kernel
  have hkeep : ∀ slide, SegmentInfo.isText ∘ SegmentInfo.slideBy slide = SegmentInfo.isText := by
    intro slide
    funext si
    rw [Function.comp_apply, SegmentInfo.slideBy]
    split_ifs <;> rfl
  have hslid := segments_eq h hc
  rw [slideSegments, hfind] at hslid
  have hget : mi.getTextSegmentOfModule = some (SegmentInfo.slideBy
      (mi.loadAddress - (SegmentInfo.ofCommand (mi.segmentAt p)).address)
      (.ofCommand (mi.segmentAt p))) := by
    show mi.segments.find? SegmentInfo.isText = _
    rw [hslid, List.find?_map, hkeep, hfind, Option.map_some]
  refine ⟨_, hget, ?_⟩
  rw [SegmentInfo.slideBy, if_neg htext]
  exact ⟨by rw [UInt64.add_comm, UInt64.sub_add_cancel], rfl⟩

theorem searchUnwindInfo_eq (h : mi.WellFormed) {p q : ℕ} (hone : mi.OneUnwindInfo p q) :
    mi.searchUnwindInfo = .ok
      { unwindInfoAddr := mi.sectionAddr q, textVmAddr := (mi.segmentAt p).vmaddr
        foundText := true } := by
  have hwalk := forCommands_eq (searchCommand mi.headerAndLoadCommandBytes) _ _
    { unwindInfoAddr := 0, textVmAddr := 0, foundText := false } h.length_le
  have hany : mi.segmentOffsets.any (isTextCommand mi.headerAndLoadCommandBytes) = true := by
    have hmem : p ∈ mi.segmentOffsets.filter (isTextCommand mi.headerAndLoadCommandBytes) := by
      rw [hone.text]
      exact List.mem_singleton.2 rfl
    exact List.any_eq_true.2 ⟨p, List.mem_filter.1 hmem⟩
  have htext := hone.text
  have hunwind := hone.unwindInfo
  unfold segmentOffsets at htext hunwind hany
  calc mi.searchUnwindInfo = _ := hwalk
    _ = _ := foldlM_searchCommand mi.commands _ h.segment_length_le
    _ = _ := by
        simp only [foldl_ite_eq]
        rw [htext, hunwind, hany]
        rfl

end ModuleInfo

end MacMiniDump
