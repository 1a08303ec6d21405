import MacMiniDump.AllImageInfos
import MacMiniDump.Extents
import MacMiniDump.OffsetQueries
import MacMiniDump.Segments

/-!
# `MiniDumpWriteDump`

A dump from its beginning to its end: the stream is emptied, what goes into the dump is put together
from the target, and the builder writes it out. The stream has no part in what is put together
(`writeDump_eq`), and that is always the four notes with their payloads, a command for each thread
and a segment for each of the merged ranges of memory that is in a region (`prepare_put`).
-/

namespace MacMiniDump

open MachOCoreDumpBuilder DisjointIntervalSet

variable {arch : Arch}

/-- The target as a dump finds it. -/
structure DumpEnv (arch : Arch) where
  pidForTask : Bool
  /-- was it suspended, or its threads but this one? -/
  suspended : Bool
  target : Target arch
  crash : Option (CrashContext arch)

/-- The payloads for these are added later. -/
def addNotesToCore (b : MachOCoreDumpBuilder) : MachOCoreDumpBuilder :=
  let b := (b.addNoteCommand addrableBitsOwner none).2
  let b := (b.addNoteCommand allImageInfosOwner none).2
  let b := (b.addNoteCommand mainBinSpecOwner none).2
  (b.addNoteCommand processMetadataOwner none).2

/-- `AddPayloadsAndWrite` up to the writing, `none` when it returns `false` before. -/
def addPayloads (debug : Bool) (nAddrableBits : Option UInt32) (modules : ModuleList)
    (threadIds : List UInt64) (b : MachOCoreDumpBuilder) :
    Except Fault (Option MachOCoreDumpBuilder) :=
  match nAddrableBits with
  | none => .ok none
  | some nBits => do
    let abInfo : AddrableBitsInfo := { version := 3, nBits := nBits, unused := 0 }
    let b ← b.addDataProviderForNoteCommand debug addrableBitsOwner
      (some (copiedDataProvider abInfo.bytes))
    let b ← b.2.addDataProviderForNoteCommand debug processMetadataOwner
      (some (copiedDataProvider (createProcessMetadataPayload threadIds)))
    -- the payload of all image infos depends on the size of all load commands
    let b := b.2.finalizeLoadCommands
    let offset ← b.getOffsetForNoteCommandPayload debug allImageInfosOwner
    let imageInfosPayload ← createAllImageInfosPayload (offset.getD 0) modules
    if imageInfosPayload = [] then .ok none
    else
      let b ← b.addDataProviderForNoteCommand debug allImageInfosOwner
        (some (copiedDataProvider imageInfosPayload))
      let mainBinSpec ← createMainBinSpecPayload debug modules
      let b ← b.2.addDataProviderForNoteCommand debug mainBinSpecOwner
        (some (copiedDataProvider mainBinSpec.bytes))
      let b ← storeFileoffs debug b.2
      .ok (some b.2)

namespace DumpEnv

variable (env : DumpEnv arch) (debug : Bool)

/-- What is built, `none` when it is given up before that. -/
def prepare : Except Fault (Option MachOCoreDumpBuilder) :=
  match env.target.addThreadsToCore env.crash (new arch) with
  | none => .ok none
  | some s =>
    addPayloads debug env.target.nAddrableBits s.modules s.threadIds (addNotesToCore s.builder)

variable {σ : Type} [OStream σ]

def miniDumpWriteDumpImpl (s : σ) : Except Fault (Bool × σ) :=
  if !env.pidForTask then .ok (false, s)
  else
    match OStream.setSize 0 s with
    | (false, s) => .ok (false, s)
    | (true, s) =>
      if !env.suspended then .ok (false, s)
      else
        match env.prepare debug with
        | .error e => .error e
        | .ok none => .ok (false, s)
        | .ok (some b) => (build debug ⟨b, s⟩).map fun r => (r.1, r.2.stream)

end DumpEnv

section Eq

variable {env : DumpEnv arch} {debug : Bool}

/-- A dump that succeeds is a build on the emptied stream. -/
theorem writeDump_eq {σ : Type} [OStream σ] {s s' : σ}
    (h : env.miniDumpWriteDumpImpl debug s = .ok (true, s')) :
    ∃ b st', env.prepare debug = .ok (some b) ∧ st'.stream = s'
      ∧ build debug ⟨b, (OStream.setSize 0 s).2⟩ = .ok (true, st') := by
  unfold DumpEnv.miniDumpWriteDumpImpl at h
  split at h
  · simp at h
  split at h
  · simp at h
  rename_i s₀ hsize
  split at h
  · simp at h
  split at h
  · simp at h
  · simp at h
  rename_i b hb
  rcases hr : build debug ⟨b, s₀⟩ with e | ⟨r, st'⟩
  · simp [hr, Except.map] at h
  simp only [hr, Except.map, Except.ok.injEq, Prod.mk.injEq] at h
  obtain ⟨rfl, rfl⟩ := h
  refine ⟨b, st', hb, rfl, ?_⟩
  rw [hsize]
  exact hr

end Eq

/-- A note of that owner, as it is before its offset is known. -/
def noteOf (owner : List UInt8) (h : (cstr owner).length ≤ 16) (p : Option DataProvider) :
    Note where
  cmd :=
    { cmd := LC_NOTE, cmdsize := NoteCommand.sizeOf
      dataOwner := ⟨cstr owner, zero_notMem_cstr owner, h⟩, offset := 0, size := sizeOfProvider p }
  provider := p

theorem length_addrableBitsOwner : (cstr addrableBitsOwner).length ≤ 16 := by decide +kernel

theorem length_allImageInfosOwner : (cstr allImageInfosOwner).length ≤ 16 := by decide +kernel

theorem length_mainBinSpecOwner : (cstr mainBinSpecOwner).length ≤ 16 := by decide +kernel

theorem length_processMetadataOwner : (cstr processMetadataOwner).length ≤ 16 := by decide +kernel

/-- The notes of a dump, with these providers. -/
def dumpNotes (p₁ p₂ p₃ p₄ : Option DataProvider) : List Note :=
  [noteOf addrableBitsOwner length_addrableBitsOwner p₁,
    noteOf allImageInfosOwner length_allImageInfosOwner p₂,
    noteOf mainBinSpecOwner length_mainBinSpecOwner p₃,
    noteOf processMetadataOwner length_processMetadataOwner p₄]

section Notes

variable {debug : Bool} {p₁ p₂ p₃ p₄ : Option DataProvider}

theorem addNotesToCore_eq {b : MachOCoreDumpBuilder} (hb : b.loadCommandsFinalized = false)
    (hn : b.noteCmds = []) :
    addNotesToCore b = { b with noteCmds := dumpNotes none none none none } := by
  have h₁ := length_addrableBitsOwner
  have h₂ := length_allImageInfosOwner
  have h₃ := length_mainBinSpecOwner
  have h₄ := length_processMetadataOwner
  simp only [addNotesToCore, addNoteCommand, hb, hn, h₁, h₂, h₃, h₄, Bool.false_eq_true, if_false,
    dif_pos, List.nil_append]
  rfl

theorem cstr_noteOf {owner : List UInt8} {h : (cstr owner).length ≤ 16} {p : Option DataProvider} :
    cstr (noteOf owner h p).cmd.ownerMemory = cstr owner :=
  NoteCommand.cstr_ownerMemory rfl

theorem attach_noteOf_self {owner : List UInt8} {h : (cstr owner).length ≤ 16} {p : DataProvider}
    {rest : List Note} :
    attachDataProvider debug owner (some p) (noteOf owner h none :: rest)
      = .ok (some (noteOf owner h (some p) :: rest)) := by
  have hnone : ¬ (debug && (noteOf owner h none).provider.isSome) = true := by simp [noteOf]
  rw [attachDataProvider, if_pos cstr_noteOf, if_neg hnone]
  rfl

theorem attach_noteOf_ne {owner owner' : List UInt8} {h : (cstr owner).length ≤ 16}
    {p : DataProvider}
    {q : Option DataProvider} {rest rest' : List Note} (hne : cstr owner ≠ cstr owner')
    (hrest : attachDataProvider debug owner' (some p) rest = .ok (some rest')) :
    attachDataProvider debug owner' (some p) (noteOf owner h q :: rest)
      = .ok (some (noteOf owner h q :: rest')) := by
  rw [attachDataProvider, cstr_noteOf, if_neg hne, hrest]

theorem owners_pairwise :
    [cstr addrableBitsOwner, cstr allImageInfosOwner, cstr mainBinSpecOwner,
      cstr processMetadataOwner].Pairwise (· ≠ ·) := by decide +kernel

theorem distinctOwners_dumpNotes :
    (dumpNotes p₁ p₂ p₃ p₄).Pairwise fun n n' => n.cmd.dataOwner ≠ n'.cmd.dataOwner := by
  have hmap : (dumpNotes p₁ p₂ p₃ p₄).map (fun n => n.cmd.dataOwner.chars)
      = [cstr addrableBitsOwner, cstr allImageInfosOwner, cstr mainBinSpecOwner,
          cstr processMetadataOwner] := rfl
  have hpairwise := owners_pairwise
  rw [← hmap, List.pairwise_map] at hpairwise
  exact hpairwise.imp fun hne heq => hne (congrArg OwnerName.chars heq)

variable {p : DataProvider}

theorem attach_addrableBits :
    attachDataProvider debug addrableBitsOwner (some p) (dumpNotes none p₂ p₃ p₄)
      = .ok (some (dumpNotes (some p) p₂ p₃ p₄)) := attach_noteOf_self

theorem attach_allImageInfos :
    attachDataProvider debug allImageInfosOwner (some p) (dumpNotes p₁ none p₃ p₄)
      = .ok (some (dumpNotes p₁ (some p) p₃ p₄)) :=
  attach_noteOf_ne (by decide +kernel) attach_noteOf_self

theorem attach_mainBinSpec :
    attachDataProvider debug mainBinSpecOwner (some p) (dumpNotes p₁ p₂ none p₄)
      = .ok (some (dumpNotes p₁ p₂ (some p) p₄)) :=
  attach_noteOf_ne (by decide +kernel) (attach_noteOf_ne (by decide +kernel) attach_noteOf_self)

theorem attach_processMetadata :
    attachDataProvider debug processMetadataOwner (some p) (dumpNotes p₁ p₂ p₃ none)
      = .ok (some (dumpNotes p₁ p₂ p₃ (some p))) :=
  attach_noteOf_ne (by decide +kernel)
    (attach_noteOf_ne (by decide +kernel) (attach_noteOf_ne (by decide +kernel) attach_noteOf_self))

theorem addDataProvider_of_attach {b b' : MachOCoreDumpBuilder} {owner : List UInt8} {r : Bool}
    {notes notes' : List Note} (hn : b.noteCmds = notes)
    (hattach : attachDataProvider debug owner (some p) notes = .ok (some notes'))
    (h : b.addDataProviderForNoteCommand debug owner (some p) = .ok (r, b')) :
    b' = { b with noteCmds := notes' } := by
  simp only [addDataProviderForNoteCommand, hn, hattach, Except.ok.injEq, Prod.mk.injEq] at h
  exact h.2.symm

end Notes

/-- The builder of a dump, when it is about to be written. -/
structure DumpPut (env : DumpEnv arch) (b : MachOCoreDumpBuilder) : Prop where
  finalized : b.loadCommandsFinalized = true
  magic : b.header.magic = MH_MAGIC_64
  ncmds : b.header.ncmds
    = UInt32.ofNat (b.noteCmds.length + b.threadCmds.length + b.segmentCmds.length)
  sizeofcmds : b.header.sizeofcmds = UInt32.ofNat b.commandsSize
  notes : ∃ d₁ d₂ d₃ d₄, b.noteCmds = dumpNotes (some (copiedDataProvider d₁))
    (some (copiedDataProvider d₂)) (some (copiedDataProvider d₃)) (some (copiedDataProvider d₄))
  threads : ∀ t ∈ b.threadCmds, t.Formed
  segments : b.segmentCmds.map Segment.unplaced
    = (forEachArgs (env.target.mergedRanges env.crash (env.target.threads.getD []))).filterMap
      env.target.segmentOf

section Put

variable {env : DumpEnv arch} {debug : Bool} {b b' : MachOCoreDumpBuilder}

/-- The segments are in the order of their addresses. -/
theorem pairwise_segmentOf (target : Target arch) {ranges : List (UInt64 × UInt64)}
    (h : Separated ranges) :
    ((forEachArgs ranges).filterMap target.segmentOf).Pairwise
      fun s s' => s.cmd.vmaddr < s'.cmd.vmaddr := by
  refine List.pairwise_filterMap.2 (List.pairwise_map.2 ?_)
  refine List.Pairwise.imp_of_mem (fun {i j} hi hj hij => ?_) h.gap
  intro s hs s' hs'
  obtain ⟨prot, -, rfl⟩ := Option.map_eq_some_iff.1 hs
  obtain ⟨prot', -, rfl⟩ := Option.map_eq_some_iff.1 hs'
  exact (h.lt i hi).trans hij

/-- Storing the offsets of the segments changes nothing else. -/
theorem storeFileoffs_keeps {r : Bool} (h : storeFileoffs debug b = .ok (r, b')) :
    b'.unplaced = b.unplaced ∧ b'.noteCmds = b.noteCmds := by
  refine forEach_keeps (fun c => c.unplaced = b.unplaced ∧ c.noteCmds = b.noteCmds)
    (fun k c r c' hc h => ?_) _ _ _ _ ⟨rfl, rfl⟩ h
  unfold storeFileoff at h
  split at h
  · simp only [Except.ok.injEq, Prod.mk.injEq] at h
    exact h.2 ▸ hc
  split at h
  · simp at h
  · simp only [Except.ok.injEq, Prod.mk.injEq] at h
    rw [← h.2]
    exact ⟨(unplaced_setSegmentFileoff _ _ _).trans hc.1, hc.2⟩

/-- The images are asked for behind the addressable bits. -/
theorem getOffset_allImageInfos {p₁ p₂ p₃ p₄ : Option DataProvider} {offset : Option UInt64}
    (hf : b.loadCommandsFinalized = true) (hn : b.noteCmds = dumpNotes p₁ p₂ p₃ p₄)
    (h : b.getOffsetForNoteCommandPayload debug allImageInfosOwner = .ok offset) :
    offset = some (b.firstPayloadOffset + sizeOfProvider p₁) := by
  have hne : cstr allImageInfosOwner ≠ cstr addrableBitsOwner := by decide +kernel
  rw [getOffsetForNoteCommandPayload, if_pos hf, hn, dumpNotes, notePayloadOffset, cstr_noteOf,
    if_neg hne] at h
  split_ifs at h
  rw [notePayloadOffset, if_pos cstr_noteOf.symm] at h
  exact (Except.ok.inj h).symm

/-- The payloads end up with their notes, and the commands are counted. -/
theorem addPayloads_holds {nAddrableBits : Option UInt32} {modules : ModuleList}
    {threadIds : List UInt64} (hf : b.loadCommandsFinalized = false)
    (hn : b.noteCmds = dumpNotes none none none none)
    (h : addPayloads debug nAddrableBits modules threadIds b = .ok (some b')) :
    ∃ (nBits : UInt32) (payload : List UInt8) (spec : MainBinSpec) (c : MachOCoreDumpBuilder),
      nAddrableBits = some nBits
      ∧ createAllImageInfosPayload (b.finalizeLoadCommands.firstPayloadOffset + 16) modules
        = .ok payload
      ∧ createMainBinSpecPayload debug modules = .ok spec
      ∧ c = { b.finalizeLoadCommands with
        noteCmds := dumpNotes (some (copiedDataProvider (AddrableBitsInfo.bytes ⟨3, nBits, 0⟩)))
          (some (copiedDataProvider payload)) (some (copiedDataProvider spec.bytes))
          (some (copiedDataProvider (createProcessMetadataPayload threadIds))) }
      ∧ b'.unplaced = c.unplaced ∧ b'.noteCmds = c.noteCmds := by
  unfold addPayloads at h
  split at h
  · simp at h
  rename_i nBits
  obtain ⟨⟨r₁, b₁⟩, h₁, h⟩ := exists_of_bind_ok h
  obtain ⟨⟨r₂, b₂⟩, h₂, h⟩ := exists_of_bind_ok h
  obtain ⟨offset, hoffset, h⟩ := exists_of_bind_ok h
  obtain ⟨payload, hpayload, h⟩ := exists_of_bind_ok h
  split at h
  · simp at h
  obtain ⟨⟨r₃, b₃⟩, h₃, h⟩ := exists_of_bind_ok h
  obtain ⟨spec, hspec, h⟩ := exists_of_bind_ok h
  obtain ⟨⟨r₄, b₄⟩, h₄, h⟩ := exists_of_bind_ok h
  obtain ⟨⟨r₅, b₅⟩, h₅, h⟩ := exists_of_bind_ok h
  simp only [Except.ok.injEq, Option.some.injEq] at h
  subst h
  have e₁ := addDataProvider_of_attach hn attach_addrableBits h₁
  have e₂ := addDataProvider_of_attach (congrArg noteCmds e₁) attach_processMetadata h₂
  have hn₂ := (noteCmds_finalizeLoadCommands b₂).trans (congrArg noteCmds e₂)
  have e₃ := addDataProvider_of_attach hn₂ attach_allImageInfos h₃
  have e₄ := addDataProvider_of_attach (congrArg noteCmds e₃) attach_mainBinSpec h₄
  obtain ⟨hu, hnotes⟩ := storeFileoffs_keeps h₅
  have hfin : b₂.finalizeLoadCommands
      = { b.finalizeLoadCommands with noteCmds := b₂.noteCmds } := by
    rw [e₂, e₁]
    unfold finalizeLoadCommands commandsSize
    simp only [hf, hn, Bool.false_eq_true, if_false]
    rfl
  have hat := getOffset_allImageInfos (finalized_finalizeLoadCommands b₂) hn₂ hoffset
  have hfirst : b₂.finalizeLoadCommands.firstPayloadOffset
      = b.finalizeLoadCommands.firstPayloadOffset := by
    rw [hfin]
    rfl
  rw [hat, hfirst] at hpayload
  refine ⟨nBits, payload, spec, b₄, rfl, hpayload, hspec, e₄.trans ?_, hu, hnotes⟩
  rw [e₃, hfin]

/-- The same, for the payloads of the modules alone. -/
theorem addPayloads_eq {nAddrableBits : Option UInt32} {modules : ModuleList}
    {threadIds : List UInt64}
    (hf : b.loadCommandsFinalized = false) (hn : b.noteCmds = dumpNotes none none none none)
    (h : addPayloads debug nAddrableBits modules threadIds b = .ok (some b')) :
    ∃ (d₁ payload d₄ : List UInt8) (payloadOffset : UInt64) (spec : MainBinSpec)
      (c : MachOCoreDumpBuilder),
      createAllImageInfosPayload payloadOffset modules = .ok payload
      ∧ createMainBinSpecPayload debug modules = .ok spec
      ∧ c = { b.finalizeLoadCommands with
        noteCmds := dumpNotes (some (copiedDataProvider d₁)) (some (copiedDataProvider payload))
          (some (copiedDataProvider spec.bytes)) (some (copiedDataProvider d₄)) }
      ∧ b'.unplaced = c.unplaced ∧ b'.noteCmds = c.noteCmds := by
  obtain ⟨_, payload, spec, c, -, hpayload, hspec, hc, hu, hnotes⟩ := addPayloads_holds hf hn h
  exact ⟨_, payload, _, _, spec, c, hpayload, hspec, hc, hu, hnotes⟩

/-- What a dump writes. -/
theorem prepare_put (h : env.prepare debug = .ok (some b)) : DumpPut env b := by
  unfold DumpEnv.prepare at h
  split at h
  · simp at h
  rename_i s hs
  obtain ⟨hformed, hnil, hsegments⟩ := addThreadsToCore_builder env.target env.crash hs
  have hnotes := addNotesToCore_eq hformed.notFinalized hnil
  rw [hnotes] at h
  obtain ⟨d₁, payload, d₄, offset, spec, c, -, -, hc, hu, hn⟩ :=
    addPayloads_eq (by exact hformed.notFinalized) rfl h
  rw [finalizeLoadCommands_of_not (by exact hformed.notFinalized)] at hc
  obtain ⟨hfinalized, hheader, hthreads, -, hsegs⟩ := eq_of_unplaced hu
  have hlen : b.segmentCmds.length = c.segmentCmds.length := by
    simpa using congrArg List.length hsegs
  have hsize : b.commandsSize = c.commandsSize := by
    have hs := map_segments_of_unplaced hu (·.cmd.cmdsize.toNat) fun _ => rfl
    unfold commandsSize
    rw [hn, hthreads, hs]
  subst hc
  refine { finalized := hfinalized, magic := ?_, ncmds := ?_, sizeofcmds := ?_,
           notes := ⟨d₁, payload, spec.bytes, d₄, hn⟩, threads := ?_, segments := ?_ }
  · rw [hheader]
    show s.builder.header.magic = MH_MAGIC_64
    rw [hformed.header]
    rfl
  · rw [hheader, hn, hthreads, hlen]
    rfl
  · rw [hheader, hsize]
    rfl
  · intro t ht
    rw [hthreads] at ht
    exact hformed.threads t ht
  · rw [hsegs]
    show s.builder.segmentCmds.map Segment.unplaced = _
    rw [hsegments, segments_eq]
    refine (List.map_congr_left fun x hx => ?_).trans (List.map_id _)
    obtain ⟨r, -, hr⟩ := List.mem_filterMap.1 hx
    obtain ⟨prot, -, rfl⟩ := Option.map_eq_some_iff.1 hr
    rfl

/-- What a dump writes, and the payloads it is put together from. The one of the images is made for
the offset it ends up at. -/
theorem prepare_holds (h : env.prepare debug = .ok (some b)) :
    ∃ (s : Collected) (nBits : UInt32) (payload : List UInt8) (spec : MainBinSpec),
      env.target.addThreadsToCore env.crash (new arch) = some s
      ∧ env.target.nAddrableBits = some nBits
      ∧ createAllImageInfosPayload (b.noteOffset 1) s.modules = .ok payload
      ∧ createMainBinSpecPayload debug s.modules = .ok spec
      ∧ b.noteCmds = dumpNotes (some (copiedDataProvider (AddrableBitsInfo.bytes ⟨3, nBits, 0⟩)))
        (some (copiedDataProvider payload)) (some (copiedDataProvider spec.bytes))
        (some (copiedDataProvider (createProcessMetadataPayload s.threadIds)))
      ∧ b.threadCmds = s.builder.threadCmds
      ∧ b.header.cputype = arch.cputype := by
  unfold DumpEnv.prepare at h
  split at h
  · simp at h
  rename_i s hs
  obtain ⟨hformed, hnil, -⟩ := addThreadsToCore_builder env.target env.crash hs
  rw [addNotesToCore_eq hformed.notFinalized hnil] at h
  obtain ⟨nBits, payload, spec, c, hbits, hpayload, hspec, hc, hu, hn⟩ :=
    addPayloads_holds (by exact hformed.notFinalized) rfl h
  rw [finalizeLoadCommands_of_not (by exact hformed.notFinalized)] at hpayload hc
  obtain ⟨-, hheader, hthreads, -, -⟩ := eq_of_unplaced hu
  subst hc
  refine ⟨s, nBits, payload, spec, hs, hbits, ?_, hspec, hn, hthreads, ?_⟩
  · have hat : b.noteOffset 1 = b.firstPayloadOffset + 16 := by
      rw [noteOffset, hn]
      rfl
    rw [hat, firstPayloadOffset, hheader]
    exact hpayload
  · rw [hheader]
    show s.builder.header.cputype = arch.cputype
    rw [hformed.header]
    rfl

theorem DumpPut.distinctOwners (h : DumpPut env b) : b.DistinctOwners := by
  obtain ⟨d₁, d₂, d₃, d₄, hn⟩ := h.notes
  rw [DistinctOwners, hn]
  exact distinctOwners_dumpNotes

theorem DumpPut.ascending (h : DumpPut env b) :
    b.segmentCmds.Pairwise fun s s' => s.cmd.vmaddr < s'.cmd.vmaddr := by
  have hseparated := (mergedRanges_covers env.target env.crash (env.target.threads.getD [])).1
  have hpairwise := pairwise_segmentOf env.target hseparated
  rw [← h.segments, List.pairwise_map] at hpairwise
  exact hpairwise

theorem DumpPut.distinctVmaddrs (h : DumpPut env b) : b.DistinctVmaddrs :=
  h.ascending.imp fun hlt => hlt.ne

/-- Every segment is over the memory of the target, in one of the merged ranges. -/
theorem DumpPut.segment (h : DumpPut env b) {s : Segment} (hs : s ∈ b.segmentCmds) :
    s.Formed ∧ ∃ r ∈ forEachArgs (env.target.mergedRanges env.crash (env.target.threads.getD [])),
      s.cmd.vmaddr = r.1 ∧ s.cmd.filesize = r.2
        ∧ s.provider = some (processMemoryDataProvider env.target.space.readMemory r.1 r.2) := by
  have hmem : s.unplaced ∈ b.segmentCmds.map Segment.unplaced := List.mem_map_of_mem hs
  rw [h.segments] at hmem
  obtain ⟨r, hr, hseg⟩ := List.mem_filterMap.1 hmem
  have hform := segmentOf_formed env.target hseg
  obtain ⟨prot, -, heq⟩ := Option.map_eq_some_iff.1 hseg
  refine ⟨⟨hform.cmd, hform.cmdsize, hform.filesize, hform.vmsize⟩, r, hr, ?_, ?_, ?_⟩
  · exact (congrArg (fun s : Segment => s.cmd.vmaddr) heq).symm
  · exact (congrArg (fun s : Segment => s.cmd.filesize) heq).symm
  · exact (congrArg (fun s : Segment => s.provider) heq).symm

/-- Every note has a payload that is in the dump already. -/
theorem DumpPut.note (h : DumpPut env b) {n : Note} (hn : n ∈ b.noteCmds) :
    n.Formed ∧ n.provider = some (copiedDataProvider n.content) := by
  obtain ⟨d₁, d₂, d₃, d₄, hnotes⟩ := h.notes
  rw [hnotes, dumpNotes] at hn
  simp only [List.mem_cons, List.not_mem_nil, or_false] at hn
  rcases hn with rfl | rfl | rfl | rfl <;> exact ⟨⟨rfl, rfl, rfl⟩, rfl⟩

end Put

end MacMiniDump
