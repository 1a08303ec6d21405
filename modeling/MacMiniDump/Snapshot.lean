import MacMiniDump.CoreReader
import MacMiniDump.ModuleMarks
import MacMiniDump.SavedMemory

/-!
# A dump is a snapshot

What a core file is for: whoever reads it knows what a snapshot of the target shows, its memory
apart. The reader has nothing but the file, and finds the snapshot of the target there
(`readCore_writeDump`).
-/

namespace MacMiniDump

open MachOCoreDumpBuilder

/-- What is known of a target, its memory apart. -/
structure Snapshot (arch : Arch) where
  addrableBits : UInt32
  /-- the id and the registers of each thread -/
  threads : List (UInt64 × GPR arch × EXC arch)
  /-- all but the main executable -/
  images : List Image
  mainUuid : Vector UInt8 16
  mainSlide : UInt64

variable {arch : Arch}

namespace Target

variable (target : Target arch) (crash : Option (CrashContext arch))

/-- Is an address of the module on a call stack? -/
def onCallStack (mi : ModuleInfo) : Bool :=
  (target.callStackAddresses crash (target.threads.getD [])).any (target.modules.finds · mi)

/-- The threads whose registers are known. -/
def shownThreads : List (UInt64 × GPR arch × EXC arch) :=
  (target.threads.getD []).filterMap fun t => (t.registers crash).map (t.tid, ·)

/-- The images but for the main executable, with a mark for those that are on a call stack. -/
def shownImages : List Image :=
  (images target.modules.infos).map fun mi =>
    { mi.image with executing := mi.executing || target.onCallStack crash mi }

/-- The snapshot is one of the target. -/
structure Shows (s : Snapshot arch) : Prop where
  addrableBits : target.nAddrableBits = some s.addrableBits
  threads : s.threads = target.shownThreads crash
  images : s.images = target.shownImages crash
  main : ∃ mi ∈ target.modules.infos, mi.isMainExecutable = true ∧ s.mainUuid = mi.uuid
    ∧ ∃ preferred, getPreferredTextAddress mi = .ok preferred
      ∧ s.mainSlide + preferred = mi.loadAddress

end Target

def readThreads (arch : Arch) (file : List UInt8) :
    Option (List (UInt64 × GPR arch × EXC arch)) := do
  let (_, cs) ← parseMachO file
  let (_, metadata) ← findNote file cs processMetadataOwner
  let ids ← readThreadIds metadata
  let states ← (threadCommands cs).mapM (readRegisters arch)
  if ids.length = states.length then some (ids.zip states) else none

/-- The snapshot in a file of that architecture. -/
def readCore (arch : Arch) (file : List UInt8) : Option (Snapshot arch) := do
  let (header, cs) ← parseMachO file
  let (_, bits) ← findNote file cs addrableBitsOwner
  let (infosOffset, infos) ← findNote file cs allImageInfosOwner
  let (_, images) ← readAllImageInfos infosOffset infos
  let (_, mainBin) ← findNote file cs mainBinSpecOwner
  let threads ← readThreads arch file
  if header.cputype = arch.cputype then
    some
      { addrableBits := (AddrableBitsInfo.decode bits).nBits
        threads := threads
        images := images
        mainUuid := (MainBinSpec.decode mainBin).uuid
        mainSlide := (MainBinSpec.decode mainBin).slide }
  else none

section Read

variable {env : DumpEnv arch} {debug : Bool} {b : MachOCoreDumpBuilder} {file : List UInt8}

theorem callStackAddresses_cons (target : Target arch) (crash : Option (CrashContext arch))
    (thread : TargetThread arch) (threads : List (TargetThread arch)) :
    target.callStackAddresses crash (thread :: threads)
      = (match thread.registers crash with
          | none => []
          | some (gpr, exc) => target.walkStack gpr exc)
        ++ target.callStackAddresses crash threads := rfl

/-- The loop over the threads marks the modules on their call stacks. -/
theorem foldl_addThread_modules (target : Target arch) (crash : Option (CrashContext arch)) :
    ∀ (threads : List (TargetThread arch)) (s : Collected),
      (threads.foldl (target.addThread crash) s).modules
        = s.modules.markAll (target.callStackAddresses crash threads)
  | [], _ => rfl
  | thread :: threads, s => by
    rw [List.foldl_cons, foldl_addThread_modules target crash threads, callStackAddresses_cons,
      ModuleList.markAll_append]
    unfold Target.addThread
    rcases thread.registers crash with _ | ⟨gpr, exc⟩ <;> rfl

/-- What the loops over the threads and the ranges leave. -/
theorem addThreadsToCore_holds {target : Target arch} {crash : Option (CrashContext arch)}
    {s : Collected} (h : target.addThreadsToCore crash (new arch) = some s) :
    s.modules = target.modules.markAll
        (target.callStackAddresses crash (target.threads.getD []))
      ∧ s.threadIds = (target.threads.getD []).filterMap
        (fun t => (t.registers crash).map fun _ => t.tid)
      ∧ s.builder.threadCmds = (target.threads.getD []).filterMap
        fun t => (t.registers crash).map fun r => threadCommandOf r.1 r.2 := by
  obtain ⟨threads, ht, rfl⟩ := Option.map_eq_some_iff.1 h
  obtain ⟨hids, hcmds⟩ :=
    foldl_addThread_lists target crash threads ⟨new arch, target.modules, [], []⟩
  rw [ht, Option.getD_some]
  refine ⟨foldl_addThread_modules target crash threads _, hids, ?_⟩
  exact (foldl_addSegment_threadCmds target _ _).trans hcmds

theorem zip_filterMap {α β γ : Type*} (f : α → γ) (g : α → Option β) :
    ∀ l : List α, (l.filterMap fun a => (g a).map fun _ => f a).zip (l.filterMap g)
      = l.filterMap fun a => (g a).map (f a, ·)
  | [] => rfl
  | a :: l => by
    have ih := zip_filterMap f g l
    rcases hg : g a with _ | x <;> simp [hg, ih]

theorem length_filterMap_map {α β γ δ : Type*} (f : α → β → γ) (g : α → Option β) (f' : α → β → δ)
    (l : List α) : (l.filterMap fun a => (g a).map (f a)).length
      = (l.filterMap fun a => (g a).map (f' a)).length := by
  induction l with
  | nil => rfl
  | cons a l ih => rcases hg : g a with _ | x <;> simp [hg, ih]

/-- The threads in the file, with the ids and the registers they had. -/
theorem readThreads_eq (hb : env.prepare debug = .ok (some b)) (hw : WellPlaced b file) :
    readThreads arch file = some (env.target.shownThreads env.crash) := by
  obtain ⟨s, nBits, payload, spec, hs, -, -, -, hn, hthreads, -⟩ := prepare_holds hb
  obtain ⟨-, hids, hcmds⟩ := addThreadsToCore_holds hs
  have hfound : findNote file b.loadCommands processMetadataOwner
      = some (b.noteOffset 3, createProcessMetadataPayload s.threadIds) :=
    findNote_eq hw (prepare_put hb).distinctOwners (k := 3) (by rw [hn]; rfl) rfl
  have hstates : (threadCommands b.loadCommands).mapM (readRegisters arch)
      = some ((env.target.threads.getD []).filterMap fun t => t.registers env.crash) := by
    rw [threadCommands_loadCommands, hthreads, hcmds, mapM_readRegisters]
  have hlen : ((env.target.threads.getD []).filterMap
        fun t => (t.registers env.crash).map fun _ => t.tid).length
      = ((env.target.threads.getD []).filterMap fun t => t.registers env.crash).length := by
    have h := length_filterMap_map (fun (t : TargetThread arch) _ => t.tid)
      (fun t => t.registers env.crash) (fun _ r => r) (env.target.threads.getD [])
    simpa using h
  unfold readThreads
  rw [hw.parses]
  simp only [Option.bind_eq_bind, Option.bind_some, hfound, readThreadIds_payload, hstates, hids,
    hlen, if_true, zip_filterMap]
  rfl

/-- Marks change neither which images there are nor which of them is the main executable. -/
theorem map_image_markAll (target : Target arch) (crash : Option (CrashContext arch)) :
    (images (target.modules.markAll
        (target.callStackAddresses crash (target.threads.getD []))).infos).map ModuleInfo.image
      = target.shownImages crash := by
  rw [ModuleList.infos_markAll, images, List.filter_map, List.map_map]
  rfl

theorem countP_markAll (modules : ModuleList) (addresses : List UInt64) :
    (modules.markAll addresses).infos.countP (·.isMainExecutable)
      = modules.infos.countP (·.isMainExecutable) := by
  rw [ModuleList.infos_markAll, List.countP_map]
  rfl

/-- The main executable that the spec is made for. -/
theorem exists_of_createMainBinSpecPayload {modules : ModuleList} {spec : MainBinSpec}
    (hmain : modules.infos.countP (·.isMainExecutable) = 1)
    (h : createMainBinSpecPayload debug modules = .ok spec) :
    ∃ mi ∈ modules.infos, mi.isMainExecutable = true ∧ spec.uuid = mi.uuid
      ∧ ∃ preferred, getPreferredTextAddress mi = .ok preferred
        ∧ spec.slide + preferred = mi.loadAddress := by
  unfold createMainBinSpecPayload at h
  rcases hfind : modules.moduleInfos.find? (·.2.isMainExecutable) with _ | ⟨loadAddr, mi⟩
  · have hnone : modules.infos.countP (·.isMainExecutable) = 0 := by
      refine List.countP_eq_zero.2 fun mi hmi => ?_
      obtain ⟨i, hi, rfl⟩ := List.mem_map.1 hmi
      exact List.find?_eq_none.1 hfind i hi
    omega
  · have hmem := List.mem_of_find?_eq_some hfind
    have hkey : loadAddr = mi.loadAddress := modules.keyed _ hmem
    rw [hfind] at h
    obtain ⟨preferred, hpreferred, rfl⟩ : ∃ preferred, getPreferredTextAddress mi = .ok preferred
        ∧ { slide := loadAddr - preferred, uuid := mi.uuid } = spec := by
      rcases hp : getPreferredTextAddress mi with e | preferred
      · simp [hp, Except.map] at h
      · simp only [hp, Except.map, Except.ok.injEq] at h
        exact ⟨preferred, rfl, h⟩
    refine ⟨mi, List.mem_map_of_mem hmem,
      by simpa using List.find?_some hfind, rfl, preferred, hpreferred, ?_⟩
    rw [hkey]
    exact sub_add_cancel _ _

theorem length_of_createAllImageInfosPayload {modules : ModuleList} {payloadOffset : UInt64}
    {payload : List UInt8} (hmain : modules.infos.countP (·.isMainExecutable) = 1)
    (h : createAllImageInfosPayload payloadOffset modules = .ok payload) :
    payload.length = imageInfosSize (images modules.infos) := by
  rw [createAllImageInfosPayload_eq payloadOffset hmain] at h
  obtain rfl := Except.ok.inj h
  simp only [List.length_append, AllImageInfosHeader.length_bytes, length_entryArea, imageInfosSize,
    pathAreaStart, segmentAreaStart]

/-- A payload that starts with the header and the entries it counts. -/
theorem readAllImageInfos_of_entries {payloadOffset : UInt64} {payload rest : List UInt8}
    {header : AllImageInfosHeader} {entries : List ImageEntry} {images : List Image}
    (hpayload : payload = header.bytes ++ (entries.flatMap ImageEntry.bytes ++ rest))
    (hwidth : header.entries_size.toNat = ImageEntry.sizeOf)
    (hcount : header.imgcount.toNat = entries.length)
    (hplace : place payloadOffset header.entries_fileoff = AllImageInfosHeader.sizeOf)
    (hread : entries.mapM (readImage payloadOffset payload) = some images) :
    readAllImageInfos payloadOffset payload = some (header, images) := by
  have hlen := AllImageInfosHeader.length_bytes header
  have hdecode : AllImageInfosHeader.decode (payload.take AllImageInfosHeader.sizeOf) = header := by
    rw [hpayload, List.take_left' hlen, AllImageInfosHeader.decode_bytes]
  have hentries : payload.drop AllImageInfosHeader.sizeOf
      = entries.flatMap ImageEntry.bytes ++ rest := by
    rw [hpayload, List.drop_left' hlen]
  have hroom : ¬ (entries.flatMap ImageEntry.bytes ++ rest).length
      < entries.length * ImageEntry.sizeOf := by
    rw [List.length_append, length_flatMap_of_const ImageEntry.length_bytes]
    omega
  unfold readAllImageInfos
  simp only [hdecode, hplace, hentries, hwidth, hcount, if_neg hroom,
    records_flatMap ImageEntry.length_bytes, List.mapM_map, Function.comp_def,
    ImageEntry.decode_bytes, hread, Option.map_some]

/-- The images are read back from the payload made of them. -/
theorem readAllImageInfos_payload {modules : ModuleList} {payloadOffset : UInt64}
    {payload : List UInt8} (hmain : modules.infos.countP (·.isMainExecutable) = 1)
    (hfit : payloadOffset.toNat + imageInfosSize (images modules.infos) < 2 ^ 64)
    (h : createAllImageInfosPayload payloadOffset modules = .ok payload) :
    readAllImageInfos payloadOffset payload
      = some (imageInfosHeader payloadOffset (images modules.infos).length,
        (images modules.infos).map ModuleInfo.image) := by
  have hlen := length_of_createAllImageInfosPayload hmain h
  rw [createAllImageInfosPayload_eq payloadOffset hmain, Except.ok.injEq] at h
  have hcount : (images modules.infos).length < 2 ^ 32 := by
    have := modules.count
    rw [length_images hmain, ModuleList.getSize]
    omega
  generalize images modules.infos = ms at h hcount hlen hfit ⊢
  have hstart : ((imageInfosHeader payloadOffset ms.length).bytes
      ++ entryArea payloadOffset ms).length
      = segmentAreaStart ms := by
    rw [List.length_append, AllImageInfosHeader.length_bytes, length_entryArea, segmentAreaStart]
  have hpaths : ((imageInfosHeader payloadOffset ms.length).bytes ++ entryArea payloadOffset ms
      ++ segmentArea ms ++ []).length = pathAreaStart ms := by
    rw [List.append_nil, List.length_append, hstart, pathAreaStart]
  have hfit' : payloadOffset.toNat + payload.length < 2 ^ 64 := by rwa [hlen]
  have hread := mapM_readImage hfit' ms ((imageInfosHeader payloadOffset ms.length).bytes
    ++ entryArea payloadOffset ms) [] (by rw [List.append_nil, h])
  rw [hstart, hpaths] at hread
  have hpayload : payload = (imageInfosHeader payloadOffset ms.length).bytes
      ++ (entryArea payloadOffset ms ++ (segmentArea ms ++ pathArea ms)) := by
    rw [← h]
    simp only [List.append_assoc]
  refine readAllImageInfos_of_entries hpayload rfl ?_ ?_ hread
  · rw [imageInfosHeader, UInt32.toNat_ofNat', Nat.mod_eq_of_lt hcount, length_imageEntries]
  · refine place_add (lt_of_le_of_lt (Nat.add_le_add_left ?_ _) hfit)
    rw [imageInfosSize, pathAreaStart, segmentAreaStart]
    omega

/-- What the file of a dump has is the snapshot of the target. -/
theorem exists_readCore (hb : env.prepare debug = .ok (some b)) (hw : WellPlaced b file)
    (hmain : env.target.modules.infos.countP (·.isMainExecutable) = 1) :
    ∃ s, env.target.Shows env.crash s ∧ readCore arch file = some s := by
  obtain ⟨s, nBits, payload, spec, hs, hbits, hpayload, hspec, hn, -, hcputype⟩ := prepare_holds hb
  obtain ⟨hmodules, -, -⟩ := addThreadsToCore_holds hs
  rw [hmodules] at hpayload hspec
  have hdistinct := (prepare_put hb).distinctOwners
  have hcount := (countP_markAll env.target.modules
    (env.target.callStackAddresses env.crash (env.target.threads.getD []))).trans hmain
  -- the payload of the images lies in the file, so its offsets do not overflow
  have hfit : (b.noteOffset 1).toNat + imageInfosSize (images (env.target.modules.markAll
      (env.target.callStackAddresses env.crash (env.target.threads.getD []))).infos) < 2 ^ 64 := by
    have hk : b.noteCmds[1]? = some (noteOf allImageInfosOwner length_allImageInfosOwner
        (some (copiedDataProvider payload))) := by
      rw [hn]
      rfl
    have hlen := length_of_createAllImageInfosPayload hcount hpayload
    have hsize := (hw.noteData 1 _ hk).1
    have hbehind := (hw.note hk).2
    have hcontent : (noteOf allImageInfosOwner length_allImageInfosOwner
        (some (copiedDataProvider payload))).content = payload := rfl
    rw [hsize, hcontent, hlen] at hbehind
    exact hbehind
  have hread := readAllImageInfos_payload hcount hfit hpayload
  obtain ⟨mi, hmi, hexe, huuid, preferred, hpreferred, hslide⟩ :=
    exists_of_createMainBinSpecPayload hcount hspec
  have hbitsNote : findNote file b.loadCommands addrableBitsOwner
      = some (b.noteOffset 0, AddrableBitsInfo.bytes ⟨3, nBits, 0⟩) :=
    findNote_eq hw hdistinct (k := 0) (by rw [hn]; rfl) rfl
  have himagesNote : findNote file b.loadCommands allImageInfosOwner
      = some (b.noteOffset 1, payload) :=
    findNote_eq hw hdistinct (k := 1) (by rw [hn]; rfl) rfl
  have hmainNote : findNote file b.loadCommands mainBinSpecOwner
      = some (b.noteOffset 2, spec.bytes) :=
    findNote_eq hw hdistinct (k := 2) (by rw [hn]; rfl) rfl
  refine ⟨⟨nBits, env.target.shownThreads env.crash, env.target.shownImages env.crash, spec.uuid,
    spec.slide⟩, ⟨hbits, rfl, rfl, ?_⟩, ?_⟩
  · rw [ModuleList.infos_markAll] at hmi
    obtain ⟨mi', hmi', rfl⟩ := List.mem_map.1 hmi
    exact ⟨mi', hmi', hexe, huuid, preferred, hpreferred, hslide⟩
  · rw [map_image_markAll] at hread
    unfold readCore
    rw [hw.parses]
    simp only [Option.bind_eq_bind, Option.bind_some, hbitsNote, himagesNote, hread, hmainNote,
      readThreads_eq hb hw, hcputype, if_true, AddrableBitsInfo.decode_bytes,
      MainBinSpec.decode_bytes]

theorem eq_of_countP {α : Type*} {p : α → Bool} {l : List α} (h : l.countP p = 1) {a a' : α}
    (ha : a ∈ l) (hp : p a = true) (ha' : a' ∈ l) (hp' : p a' = true) : a = a' := by
  rw [List.countP_eq_length_filter] at h
  obtain ⟨x, hx⟩ := List.length_eq_one_iff.1 h
  have hmem : ∀ y ∈ l, p y = true → y = x := by
    intro y hy hpy
    have hin := List.mem_filter.2 ⟨hy, hpy⟩
    rw [hx] at hin
    exact List.mem_singleton.1 hin
  exact (hmem a ha hp).trans (hmem a' ha' hp').symm

/-- A target with one main executable has one snapshot. -/
theorem Target.Shows.unique {target : Target arch} {crash : Option (CrashContext arch)}
    {s s' : Snapshot arch} (hmain : target.modules.infos.countP (·.isMainExecutable) = 1)
    (h : target.Shows crash s) (h' : target.Shows crash s') : s = s' := by
  obtain ⟨bits, threads, images, uuid, slide⟩ := s
  obtain ⟨bits', threads', images', uuid', slide'⟩ := s'
  obtain ⟨hbits, rfl, rfl, mi, hmi, hexe, rfl, preferred, hp, hslide⟩ := h
  obtain ⟨hbits', rfl, rfl, mi', hmi', hexe', rfl, preferred', hp', hslide'⟩ := h'
  obtain rfl := eq_of_countP hmain hmi hexe hmi' hexe'
  obtain rfl : preferred = preferred' := Except.ok.inj (hp.symm.trans hp')
  obtain rfl : bits = bits' := Option.some.inj (hbits.symm.trans hbits')
  obtain rfl : slide = slide' := add_right_cancel (hslide.trans hslide'.symm)
  rfl

/-- The file of a dump that succeeds, on a stream at its start and with a layout that fits, reads as
a snapshot, and that is the one of the target and no other. -/
theorem readCore_writeDump {f f' : FileStream} (hb : env.prepare debug = .ok (some b))
    (h : env.miniDumpWriteDumpImpl debug f = .ok (true, f')) (hpos : f.pos = 0) (hfits : Fits b)
    (hmain : env.target.modules.infos.countP (·.isMainExecutable) = 1) :
    ∃ s, readCore arch f'.content = some s ∧ ∀ s', env.target.Shows env.crash s' ↔ s' = s := by
  have hrun := runOps_of_writeDump hb h
  rw [hpos] at hrun
  obtain ⟨s, hshows, hread⟩ := exists_readCore hb (wellPlaced_of_runOps (prepare_put hb) hfits hrun)
    hmain
  refine ⟨s, hread, fun s' => ⟨fun hs => hs.unique hmain hshows, ?_⟩⟩
  rintro rfl
  exact hshows

end Read

theorem readCore_writeDump_withCallStack :
    ∃ f', (withCallStack [0x1200]).miniDumpWriteDumpImpl false FileStream.empty = .ok (true, f')
      ∧ ∃ s, readCore .arm64 f'.content = some s
        ∧ ∀ s', (withCallStack [0x1200]).target.Shows none s' ↔ s' = s := by
  obtain ⟨b, f', hb, hf, hfits⟩ := exists_of_succeeds succeeds_withCallStack.1
  exact ⟨f', hf, readCore_writeDump hb hf rfl hfits (by decide +kernel)⟩

end MacMiniDump
