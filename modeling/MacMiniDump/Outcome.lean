import MacMiniDump.CoreMemory
import MacMiniDump.FailedReads
import MacMiniDump.MainExecutables

/-!
# How a dump ends

A release build of a dump to a file. It returns `true`, returns `false`, or does something that is
undefined, and which of these it is depends on the target alone (`writeDump_outcome`): on what the
kernel answers, on the modules, and on what is left over of each run of requested addresses after
its chunks.
-/

namespace MacMiniDump

open MachOCoreDumpBuilder DisjointIntervalSet

/-- The payloads that are made of the modules can be: the images do not leave theirs, and the main
executable has a text segment before its commands end. -/
structure ModuleList.Describable (modules : ModuleList) : Prop where
  images : modules.infos.countP (·.isMainExecutable) ≠ 0 ∨ ImageEntry.sizeOf
    ≤ (segmentArea (images modules.infos)).length + (pathArea (images modules.infos)).length
  mainText : ∀ mi, modules.infos.find? (·.isMainExecutable) = some mi →
    ∃ preferred, getPreferredTextAddress mi = .ok preferred

/-- What is left over of a range, after as many chunks as can be read, can be read, or there is
nothing left over. -/
def AddressSpace.LeftoverReadable (space : AddressSpace) (start size : UInt64) : Prop :=
  let chunk := min size maxChunkSize
  let k := space.leadingChunks start chunk (size / chunk).toNat
  size % chunk = 0 ∨ (space.readMemory (start + UInt64.ofNat k * chunk) (size % chunk)).isSome

/-- Every run of requested addresses that has a region at or behind it ends well. -/
def Target.LeftoversReadable {arch : Arch} (target : Target arch)
    (crash : Option (CrashContext arch)) : Prop :=
  ∀ s e, target.Run crash (target.threads.getD []) s e →
    (∃ r ∈ target.space.regions, s.toNat < r.stop) → target.space.LeftoverReadable s (e - s)

/-- The dump gets as far as to the payloads of the modules. -/
structure Target.Ready {arch : Arch} (target : Target arch) : Prop where
  threads : target.threads ≠ none
  nAddrableBits : target.nAddrableBits ≠ none
  modules : target.modules.isValid = true

section Payloads

variable {debug : Bool} {b : MachOCoreDumpBuilder} {modules : ModuleList} {threadIds : List UInt64}
  {e : Fault}

theorem createMainBinSpecPayload_ok_iff :
    (∃ spec, createMainBinSpecPayload false modules = .ok spec)
      ↔ ∀ mi, modules.infos.find? (·.isMainExecutable) = some mi →
        ∃ preferred, getPreferredTextAddress mi = .ok preferred := by
  have hfind : modules.infos.find? (·.isMainExecutable)
      = (modules.moduleInfos.find? (·.2.isMainExecutable)).map (·.2) := List.find?_map
  unfold createMainBinSpecPayload
  rw [hfind]
  rcases hmain : modules.moduleInfos.find? (·.2.isMainExecutable) with _ | ⟨loadAddr, mi⟩
  · simp [hmain]
  · rcases hp : getPreferredTextAddress mi with e | preferred
    · simp [hmain, hp, Except.map]
    · simp [hmain, hp, Except.map]

theorem addDataProvider_attached {owner : List UInt8} {p : DataProvider} {notes notes' : List Note}
    (hn : b.noteCmds = notes)
    (hattach : attachDataProvider debug owner (some p) notes = .ok (some notes')) :
    b.addDataProviderForNoteCommand debug owner (some p)
      = .ok (true, { b with noteCmds := notes' }) := by
  rw [addDataProviderForNoteCommand, hn, hattach]

/-- All that can go wrong with the payloads of a dump is in those of the modules. -/
theorem addPayloads_run (debug : Bool) (nBits : UInt32) (modules : ModuleList)
    (threadIds : List UInt64)
    (hn : b.noteCmds = dumpNotes none none none none)
    (hs : ∀ s ∈ b.segmentCmds, s.provider ≠ none) :
    ∃ (offset : UInt64) (put : List UInt8 → MainBinSpec → MachOCoreDumpBuilder),
      addPayloads debug (some nBits) modules threadIds b = (do
        let payload ← createAllImageInfosPayload offset modules
        if payload = [] then .ok none
        else
          let spec ← createMainBinSpecPayload debug modules
          .ok (some (put payload spec))) := by
  obtain ⟨d₁, hd₁⟩ : ∃ d, d = copiedDataProvider (AddrableBitsInfo.bytes ⟨3, nBits, 0⟩) := ⟨_, rfl⟩
  obtain ⟨d₄, hd₄⟩ : ∃ d, d = copiedDataProvider (createProcessMetadataPayload threadIds) :=
    ⟨_, rfl⟩
  obtain ⟨c, hc⟩ : ∃ c, c = ({ b with noteCmds := dumpNotes (some d₁) none none (some d₄) } :
    MachOCoreDumpBuilder).finalizeLoadCommands := ⟨_, rfl⟩
  have hcf : c.loadCommandsFinalized = true := hc ▸ finalized_finalizeLoadCommands _
  have hcn : c.noteCmds = dumpNotes (some d₁) none none (some d₄) := by
    rw [hc, noteCmds_finalizeLoadCommands]
  have hcs : c.segmentCmds = b.segmentCmds := by
    rw [hc, segmentCmds_finalizeLoadCommands]
  obtain ⟨offset, hoffset⟩ : ∃ offset,
      c.getOffsetForNoteCommandPayload debug allImageInfosOwner = .ok offset := by
    refine getOffset_ok hcf (k := 1) (by rw [hcn]; rfl) rfl ?_
    simp [hcn, dumpNotes, noteOf]
  have hstore : ∀ p₂ p₃ : DataProvider, ∃ c', storeFileoffs debug
      { c with noteCmds := dumpNotes (some d₁) (some p₂) (some p₃) (some d₄) }
        = .ok (true, c') := by
    refine fun p₂ p₃ => storeFileoffs_ok hcf (by simp [dumpNotes]) ?_ (by simpa only [hcs] using hs)
    intro n hn
    simp only [dumpNotes, List.mem_cons, List.not_mem_nil, or_false] at hn
    rcases hn with rfl | rfl | rfl | rfl <;> simp [noteOf]
  choose put hput using hstore
  refine ⟨offset.getD 0, fun payload spec =>
    put (copiedDataProvider payload) (copiedDataProvider spec.bytes), ?_⟩
  have hd₁' : copiedDataProvider (AddrableBitsInfo.bytes ⟨3, nBits, 0⟩) = d₁ := hd₁.symm
  have hb : addDataProviderForNoteCommand debug processMetadataOwner (some d₄)
      { b with noteCmds := dumpNotes (some d₁) none none none }
      = .ok (true, { b with noteCmds := dumpNotes (some d₁) none none (some d₄) }) :=
    addDataProvider_attached rfl attach_processMetadata
  have hp₃ : ∀ p₂ p₃ : DataProvider, addDataProviderForNoteCommand debug mainBinSpecOwner (some p₃)
      { c with noteCmds := dumpNotes (some d₁) (some p₂) none (some d₄) }
      = .ok (true, { c with noteCmds := dumpNotes (some d₁) (some p₂) (some p₃) (some d₄) }) :=
    fun _ _ => addDataProvider_attached rfl attach_mainBinSpec
  simp only [addPayloads, hd₁', ← hd₄, addDataProvider_attached hn attach_addrableBits, ok_bind, hb,
    ← hc, hoffset, addDataProvider_attached hcn attach_allImageInfos, hp₃, hput]

/-- The payloads are put together when the modules can be described, and only then. -/
theorem addPayloads_outcome (nBits : UInt32) (threadIds : List UInt64)
    (hn : b.noteCmds = dumpNotes none none none none)
    (hs : ∀ s ∈ b.segmentCmds, s.provider ≠ none) (hvalid : modules.isValid = true) :
    (modules.Describable → ∃ b', addPayloads false (some nBits) modules threadIds b = .ok (some b'))
      ∧ (¬ modules.Describable →
        ∃ e, addPayloads false (some nBits) modules threadIds b = .error e) := by
  obtain ⟨offset, put, hrun⟩ := addPayloads_run false nBits modules threadIds hn hs
  have himages := createAllImageInfosPayload_ok_iff offset hvalid
  have hmain : (∃ spec, createMainBinSpecPayload false modules = .ok spec) ↔ _ :=
    createMainBinSpecPayload_ok_iff
  rw [hrun]
  rcases hpayload : createAllImageInfosPayload offset modules with e | payload
  · have hbad : ¬ modules.Describable := by
      rintro ⟨hroom, -⟩
      obtain ⟨payload, hok⟩ := himages.2 hroom
      rw [hpayload] at hok
      cases hok
    exact ⟨fun h => absurd h hbad, fun _ => ⟨e, rfl⟩⟩
  have hroom := himages.1 ⟨payload, hpayload⟩
  rw [ok_bind, if_neg (payload_ne_nil hvalid hpayload)]
  rcases hspec : createMainBinSpecPayload false modules with e | spec
  · have hbad : ¬ modules.Describable := by
      rintro ⟨-, htext⟩
      obtain ⟨spec, hok⟩ := hmain.2 htext
      rw [hspec] at hok
      cases hok
    exact ⟨fun h => absurd h hbad, fun _ => ⟨e, rfl⟩⟩
  · exact ⟨fun _ => ⟨put payload spec, rfl⟩, fun hbad => absurd ⟨hroom, hmain.1 ⟨spec, hspec⟩⟩ hbad⟩

/-- An invalid list of modules ends it before anything is written. -/
theorem addPayloads_invalid (debug : Bool) (nBits : UInt32) (threadIds : List UInt64)
    (hn : b.noteCmds = dumpNotes none none none none)
    (hs : ∀ s ∈ b.segmentCmds, s.provider ≠ none) (hvalid : modules.isValid = false) :
    addPayloads debug (some nBits) modules threadIds b = .ok none := by
  obtain ⟨offset, put, hrun⟩ := addPayloads_run debug nBits modules threadIds hn hs
  have hnil : createAllImageInfosPayload offset modules = .ok [] := by
    rw [createAllImageInfosPayload, hvalid]
    rfl
  rw [hrun, hnil, ok_bind, if_pos rfl]

/-- Marks do not change what the payloads are made of. -/
theorem describable_markAll (addresses : List UInt64) :
    (modules.markAll addresses).Describable ↔ modules.Describable := by
  have hinfos := ModuleList.infos_markAll modules addresses
  obtain ⟨f, hf⟩ : ∃ f : ModuleInfo → ModuleInfo, f = fun mi =>
    { mi with executing := mi.executing || addresses.any (modules.finds · mi) } := ⟨_, rfl⟩
  have hmain : (fun mi : ModuleInfo => (f mi).isMainExecutable) = (·.isMainExecutable) := by
    rw [hf]
    rfl
  have himages : images (modules.markAll addresses).infos = (images modules.infos).map f := by
    rw [hinfos, ← hf, images, List.filter_map]
    simp only [Function.comp_def, congrFun hmain, images]
  have hareas : ∀ l : List ModuleInfo,
      segmentArea (l.map f) = segmentArea l ∧ pathArea (l.map f) = pathArea l := by
    intro l
    rw [segmentArea, pathArea, List.flatMap_map, List.flatMap_map, hf]
    exact ⟨rfl, rfl⟩
  have hfind : (modules.markAll addresses).infos.find? (·.isMainExecutable)
      = (modules.infos.find? (·.isMainExecutable)).map f := by
    rw [hinfos, ← hf, List.find?_map]
    simp only [Function.comp_def, congrFun hmain]
  have htext : ∀ mi, getPreferredTextAddress (f mi) = getPreferredTextAddress mi := by
    rw [hf]
    exact fun _ => rfl
  have hroom := countP_markAll modules addresses
  constructor
  · rintro ⟨h₁, h₂⟩
    rw [hroom, himages, (hareas _).1, (hareas _).2] at h₁
    refine ⟨h₁, fun mi hmi => ?_⟩
    rw [← htext mi]
    exact h₂ _ (by rw [hfind, hmi]; rfl)
  · rintro ⟨h₁, h₂⟩
    rw [← (hareas _).1, ← (hareas (images modules.infos)).2, ← himages, ← hroom] at h₁
    refine ⟨h₁, fun mi hmi => ?_⟩
    rw [hfind] at hmi
    obtain ⟨mi', hmi', rfl⟩ := Option.map_eq_some_iff.1 hmi
    rw [htext]
    exact h₂ mi' hmi'

theorem isValid_markAll (addresses : List UInt64) :
    (modules.markAll addresses).isValid = modules.isValid := by
  have hlen := congrArg List.length (ModuleList.infos_markAll modules addresses)
  simp only [ModuleList.infos, List.length_map] at hlen
  rw [Bool.eq_iff_iff, ModuleList.isValid, ModuleList.isValid]
  simp only [Bool.not_eq_true', List.isEmpty_eq_false_iff, ← List.length_pos_iff, hlen]

end Payloads

section Outcome

variable {arch : Arch} {env : DumpEnv arch} {b : MachOCoreDumpBuilder}

/-- With the threads listed, what is put together is made of the modules of the target, marked. -/
theorem prepare_run (env : DumpEnv arch) (debug : Bool) (hthreads : env.target.threads ≠ none) :
    ∃ (c : MachOCoreDumpBuilder) (addresses threadIds : List UInt64),
      env.prepare debug = addPayloads debug env.target.nAddrableBits
          (env.target.modules.markAll addresses) threadIds c
        ∧ c.noteCmds = dumpNotes none none none none
        ∧ ∀ seg ∈ c.segmentCmds, seg.provider ≠ none := by
  unfold DumpEnv.prepare
  rcases hs : env.target.addThreadsToCore env.crash (new arch) with _ | s
  · exact absurd (Option.map_eq_none_iff.1 hs) hthreads
  obtain ⟨hformed, hnil, hsegments⟩ := addThreadsToCore_builder env.target env.crash hs
  obtain ⟨hmodules, -, -⟩ := addThreadsToCore_holds hs
  have hnotes := addNotesToCore_eq hformed.notFinalized hnil
  refine ⟨addNotesToCore s.builder, _, s.threadIds, by rw [← hmodules], by rw [hnotes], ?_⟩
  intro seg hseg
  rw [hnotes, hsegments] at hseg
  obtain ⟨r, -, hr⟩ := List.mem_filterMap.1 hseg
  obtain ⟨prot, -, rfl⟩ := Option.map_eq_some_iff.1 hr
  simp

theorem prepare_outcome (env : DumpEnv arch) :
    (env.target.Ready → env.target.modules.Describable → ∃ b, env.prepare false = .ok (some b))
      ∧ (env.target.Ready → ¬ env.target.modules.Describable → ∃ e, env.prepare false = .error e)
      ∧ (¬ env.target.Ready → env.prepare false = .ok none) := by
  by_cases hthreads : env.target.threads = none
  · have hbad : ¬ env.target.Ready := fun h => h.threads hthreads
    refine ⟨fun h => absurd h hbad, fun h => absurd h hbad, fun _ => ?_⟩
    rw [DumpEnv.prepare, Target.addThreadsToCore, hthreads]
    rfl
  obtain ⟨c, addresses, threadIds, hrun, hcn, hcs⟩ := prepare_run env false hthreads
  have hvalid : (env.target.modules.markAll addresses).isValid = env.target.modules.isValid :=
    isValid_markAll _
  rw [hrun]
  rcases hbits : env.target.nAddrableBits with _ | nBits
  · have hbad : ¬ env.target.Ready := fun h => h.nAddrableBits hbits
    exact ⟨fun h => absurd h hbad, fun h => absurd h hbad, fun _ => rfl⟩
  rcases hv : env.target.modules.isValid with _ | _
  · have hbad : ¬ env.target.Ready := fun h => by
      rw [h.modules] at hv
      cases hv
    refine ⟨fun h => absurd h hbad, fun h => absurd h hbad, fun _ => ?_⟩
    exact addPayloads_invalid false nBits threadIds hcn hcs (hvalid.trans hv)
  · obtain ⟨hyes, hno⟩ := addPayloads_outcome nBits threadIds hcn hcs (hvalid.trans hv)
    rw [describable_markAll] at hyes hno
    exact ⟨fun _ => hyes, fun _ => hno, fun h => absurd ⟨hthreads, by simp [hbits], hv⟩ h⟩

theorem leftover_processMemory (space : AddressSpace) (start size : UInt64) :
    (leftoverSize (processMemoryDataProvider space.readMemory start size) = 0
        ∨ (leftover (processMemoryDataProvider space.readMemory start size)).isSome)
      ↔ space.LeftoverReadable start size := by
  rw [AddressSpace.LeftoverReadable, ← AddressSpace.get_readChunks]
  rfl

/-- A segment is made for the runs that have a region at or behind them. -/
theorem exists_segmentOf_iff (target : Target arch) (r : UInt64 × UInt64) :
    (∃ s, target.segmentOf r = some s) ↔ ∃ region ∈ target.space.regions, r.1.toNat
      < region.stop := by
  have hfind : target.space.regionRecurse r.1 ≠ none
      ↔ ∃ region ∈ target.space.regions, r.1.toNat < region.stop := by
    rw [AddressSpace.regionRecurse, ne_eq, List.find?_eq_none]
    simp
  rw [← hfind, Target.segmentOf, Target.getMemoryProtection]
  rcases target.space.regionRecurse r.1 with _ | region <;> simp

/-- A file takes all data, and a null pointer where there is nothing to write. -/
theorem writes_fileStream :
    Takes FileStream (fun data n => data = true ∨ n = 0) (fun data n => data = true ∨ n = 0) := by
  refine ⟨fun data n f h => ?_, takes_fileStream.no⟩
  rcases data with _ | d
  · simpa [OStream.write, FileStream.write] using h
  · rfl

/-- The providers of what was put together are as a build needs them. -/
theorem DumpPut.sound (hput : DumpPut env b) : Noted b ∧ AllHonest b ∧ Fed b := by
  obtain ⟨hsep, -⟩ := mergedRanges_covers env.target env.crash (env.target.threads.getD [])
  refine ⟨⟨fun n hn => ?_, fun n hn => (hput.note hn).1.size, fun t ht => ?_⟩,
    ⟨fun n hn p d hp hd => ?_, fun s hs p hp offset n d _ hd => ?_⟩, ⟨fun _ => ?_, fun s hs => ?_⟩⟩
  · rw [(hput.note hn).2]
    exact Option.some_ne_none _
  · rw [ThreadCommand.length_bytes, (hput.threads t ht).cmdsize]
  · obtain rfl := Option.some.inj ((hput.note hn).2.symm.trans hp)
    obtain rfl : n.content = d := Option.some.inj hd
    show (UInt64.ofNat n.content.length).toNat ≤ n.content.length
    rw [UInt64.toNat_ofNat']
    exact Nat.mod_le _ _
  · obtain ⟨-, r, -, -, -, hprov⟩ := hput.segment hs
    obtain rfl := Option.some.inj (hprov.symm.trans hp)
    exact ((processMemory_get_length _ _ _).1 offset n d hd).ge
  · obtain ⟨d₁, d₂, d₃, d₄, hnotes⟩ := hput.notes
    simp [hnotes, dumpNotes]
  · obtain ⟨-, r, hr, -, -, hprov⟩ := hput.segment hs
    obtain ⟨i, hi, rfl⟩ := List.mem_map.1 hr
    have hlt := UInt64.lt_iff_toNat_lt.1 (hsep.lt i hi)
    have hstop : i.1.toNat + (i.2 - i.1).toNat = i.2.toNat := forEachArgs_stop (hsep.lt i hi)
    refine ⟨_, hprov, fun hzero => ?_⟩
    have hsize : (i.2 - i.1).toNat = 0 := congrArg UInt64.toNat hzero
    omega

/-- The segments of what was put together are those of the runs that have a region. -/
theorem DumpPut.exists_segment_iff (hput : DumpPut env b) (p : DataProvider) :
    (∃ s ∈ b.segmentCmds, s.provider = some p)
      ↔ ∃ s e, env.target.Run env.crash (env.target.threads.getD []) s e
        ∧ (∃ region ∈ env.target.space.regions, s.toNat < region.stop)
        ∧ p = processMemoryDataProvider env.target.space.readMemory s (e - s) := by
  have hprov : ∀ p, (∃ s ∈ b.segmentCmds, s.provider = some p)
      ↔ ∃ s ∈ b.segmentCmds.map Segment.unplaced, s.provider = some p := by
    intro p
    simp only [List.mem_map, exists_exists_and_eq_and]
    rfl
  rw [hprov, hput.segments]
  constructor
  · rintro ⟨seg, hseg, hp⟩
    obtain ⟨r, hr, hsome⟩ := List.mem_filterMap.1 hseg
    obtain ⟨i, hi, rfl⟩ := List.mem_map.1 hr
    have hregion := (exists_segmentOf_iff env.target (i.1, i.2 - i.1)).1 ⟨seg, hsome⟩
    refine ⟨i.1, i.2, (Target.run_iff_mem _ _).2 hi, hregion, ?_⟩
    obtain ⟨prot, -, rfl⟩ := Option.map_eq_some_iff.1 hsome
    exact (Option.some.inj hp).symm
  · rintro ⟨s, e, hrun, hregion, rfl⟩
    obtain ⟨seg, hseg⟩ := (exists_segmentOf_iff env.target (s, e - s)).2 hregion
    have hi := (Target.run_iff_mem _ _).1 hrun
    refine ⟨seg, List.mem_filterMap.2 ⟨_, List.mem_map.2 ⟨(s, e), hi, rfl⟩, hseg⟩, ?_⟩
    obtain ⟨prot, -, rfl⟩ := Option.map_eq_some_iff.1 hseg
    rfl

/-- The build of what was put together ends, and with which result. -/
theorem build_put_outcome (hput : DumpPut env b) (f : FileStream) :
    ∃ r st', build false ⟨b, f⟩ = .ok (r, st')
      ∧ (r = true ↔ env.target.LeftoversReadable env.crash) := by
  obtain ⟨hnoted, hhonest, hfed⟩ := hput.sound
  obtain ⟨hfault, hok⟩ := build_outcome false writes_fileStream hnoted f
  rcases hr : build false ⟨b, f⟩ with e | ⟨r, st'⟩
  · rcases hfault e hr with ⟨-, hdebug⟩ | ⟨-, hnot⟩ | ⟨-, hnot⟩
    · cases hdebug
    · exact absurd hhonest hnot
    · exact absurd hfed hnot
  obtain ⟨hyes, hno⟩ := hok r st' hr
  have hdata : ∀ n ∈ b.noteCmds, (n.provider.bind (·.getAll)).isSome = true := by
    intro n hn
    rw [(hput.note hn).2]
    rfl
  refine ⟨r, st', rfl, fun htrue s e hrun hregion => ?_, fun hleft => hyes ⟨fun _ => .inl rfl,
    fun n hn => .inl (hdata n hn), fun s hs p hp => ?_⟩⟩
  · obtain ⟨seg, hseg, hprov⟩ := (hput.exists_segment_iff _).2 ⟨s, e, hrun, hregion, rfl⟩
    exact (leftover_processMemory _ _ _).1 ((hno htrue).2 seg hseg _ hprov).symm
  · obtain ⟨s, e, hrun, hregion, rfl⟩ := (hput.exists_segment_iff p).1 ⟨s, hs, hp⟩
    exact ((leftover_processMemory _ _ _).2 (hleft s e hrun hregion)).symm

/-- How a release build of a dump to a file ends. -/
theorem writeDump_outcome (env : DumpEnv arch) (f : FileStream) :
    ((∃ f', env.miniDumpWriteDumpImpl false f = .ok (true, f'))
        ↔ env.pidForTask = true ∧ env.suspended = true ∧ env.target.Ready
          ∧ env.target.modules.Describable ∧ env.target.LeftoversReadable env.crash)
      ∧ ((∃ e, env.miniDumpWriteDumpImpl false f = .error e)
        ↔ env.pidForTask = true ∧ env.suspended = true ∧ env.target.Ready
          ∧ ¬ env.target.modules.Describable) := by
  obtain ⟨hyes, hno, hnone⟩ := prepare_outcome env
  unfold DumpEnv.miniDumpWriteDumpImpl
  rcases hpid : env.pidForTask with _ | _
  · simp
  rcases hsuspended : env.suspended with _ | _
  · simp [OStream.setSize, FileStream.setSize]
  by_cases hready : env.target.Ready
  · by_cases hdescribable : env.target.modules.Describable
    · obtain ⟨b, hb⟩ := hyes hready hdescribable
      obtain ⟨r, st', hbuild, hr⟩ := build_put_outcome (prepare_put hb) (OStream.setSize 0 f).2
      have hsize : OStream.setSize 0 f = (true, (OStream.setSize 0 f).2) := rfl
      rw [hsize]
      simp [hb, hbuild, Except.map, hready, hdescribable, hr]
    · obtain ⟨e, he⟩ := hno hready hdescribable
      simp [OStream.setSize, FileStream.setSize, he, hready, hdescribable]
  · simp [OStream.setSize, FileStream.setSize, hnone hready, hready]

end Outcome

end MacMiniDump
