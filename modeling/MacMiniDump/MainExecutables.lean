import MacMiniDump.Defined
import MacMiniDump.Dump

/-!
# Any number of main executables

`CreateAllImageInfosPayload` counts all images but one, and fills in those that are not a main
executable. The pieces it stores are as many as are counted, and apart, when one image is a main
executable and only then (`countsImages_iff`).
-/

namespace MacMiniDump

open MachOCoreDumpBuilder

theorem length_store {offset : ℕ} {d r r' : List UInt8} (h : store offset d r = .ok r') :
    offset + d.length ≤ r.length ∧ r'.length = r.length := by
  unfold store at h
  split_ifs at h with hroom
  obtain rfl := Except.ok.inj h
  refine ⟨not_lt.1 hroom, ?_⟩
  simp only [List.length_append, List.length_take, List.length_drop]
  omega

theorem take_store {offset k : ℕ} {d r r' : List UInt8} (h : store offset d r = .ok r')
    (hk : k ≤ offset) : r'.take k = r.take k := by
  have hlen := (length_store h).1
  unfold store at h
  split_ifs at h
  obtain rfl := Except.ok.inj h
  have htake : k ≤ (r.take offset).length := by
    rw [List.length_take]
    omega
  rw [List.append_assoc, List.take_append_of_le_length htake, List.take_take, min_eq_left hk]

/-- Storing goes well exactly when no piece leaves the buffer. -/
theorem storeAll_ok_iff :
    ∀ (ps : List (ℕ × List UInt8)) (r : List UInt8),
      (∃ r', storeAll ps r = .ok r') ↔ ∀ p ∈ ps, p.1 + p.2.length ≤ r.length
  | [], r => iff_of_true ⟨r, rfl⟩ fun _ h => absurd h List.not_mem_nil
  | (offset, d) :: ps, r => by
    rw [storeAll, List.forall_mem_cons]
    rcases hs : store offset d r with e | r'
    · refine iff_of_false (by simp) fun h => ?_
      unfold store at hs
      rw [if_neg (not_lt.2 h.1)] at hs
      cases hs
    · obtain ⟨hroom, hlen⟩ := length_store hs
      rw [and_iff_right hroom, ← hlen]
      exact storeAll_ok_iff ps r'

theorem storeAll_keeps :
    ∀ {ps : List (ℕ × List UInt8)} {r r' : List UInt8} {k : ℕ}, storeAll ps r = .ok r' →
      (∀ p ∈ ps, k ≤ p.1) → r'.length = r.length ∧ r'.take k = r.take k
  | [], r, r', k, h, _ => by
    obtain rfl := Except.ok.inj h
    exact ⟨rfl, rfl⟩
  | (offset, d) :: ps, r, r', k, h, hk => by
    obtain ⟨hoffset, hps⟩ := List.forall_mem_cons.1 hk
    rw [storeAll] at h
    rcases hs : store offset d r with e | r''
    · simp [hs] at h
    · rw [hs] at h
      obtain ⟨hlen, htake⟩ := storeAll_keeps h hps
      exact ⟨hlen.trans (length_store hs).2, htake.trans (take_store hs hoffset)⟩

/-- What is written of the images: as many entries as the header counts, nothing where something
else is, and the spec of an image of the list. -/
structure ImagesCounted (payloadOffset : UInt64) (modules : ModuleList) (payload : List UInt8)
    (spec : MainBinSpec) : Prop where
  stored : storeAll (imageInfosPieces payloadOffset modules) (List.replicate payload.length 0)
    = .ok payload
  count : (AllImageInfosHeader.decode (payload.take AllImageInfosHeader.sizeOf)).imgcount.toNat
    = (imageEntryPieces payloadOffset modules).length
  apart : KeptApart payload.length (imageInfosPieces payloadOffset modules)
  mainBin : ∃ m ∈ modules.infos, ∃ preferred, getPreferredTextAddress m = .ok preferred
    ∧ spec.uuid = m.uuid ∧ spec.slide = m.loadAddress - preferred

section Counted

variable {modules : ModuleList} {payloadOffset : UInt64} {payload : List UInt8}

@[simp] theorem length_imageEntryPieces (payloadOffset : UInt64) (modules : ModuleList) :
    (imageEntryPieces payloadOffset modules).length = (images modules.infos).length := by
  simp [imageEntryPieces, entryBytes]

/-- Nothing is stored over the header. -/
theorem header_of_stored {n : ℕ}
    (h : storeAll (imageInfosPieces payloadOffset modules) (List.replicate n 0) = .ok payload) :
    AllImageInfosHeader.decode (payload.take AllImageInfosHeader.sizeOf)
      = imageInfosHeader payloadOffset (modules.getSize - 1) := by
  rw [imageInfosPieces, headerPiece, storeAll] at h
  rcases hs : store 0 (imageInfosHeader payloadOffset (modules.getSize - 1)).bytes
    (List.replicate n 0) with e | r
  · simp [hs] at h
  rw [hs] at h
  have hbehind : ∀ p ∈ imageEntryPieces payloadOffset modules ++ vmAddrPieces modules
      ++ modulePathPieces modules, AllImageInfosHeader.sizeOf ≤ p.1 := by
    intro p hp
    have hsegments : AllImageInfosHeader.sizeOf ≤ vmAddrsStart modules := Nat.le_add_right _ _
    have hpaths : vmAddrsStart modules ≤ pathsStart modules := Nat.le_add_right _ _
    rcases List.mem_append.1 hp with hp | hp
    · rcases List.mem_append.1 hp with hp | hp
      · exact (bounds_of_mem_laidOut hp).1
      · exact hsegments.trans (bounds_of_mem_laidOut hp).1
    · calc AllImageInfosHeader.sizeOf ≤ vmAddrsStart modules := hsegments
        _ ≤ pathsStart modules := hpaths
        _ ≤ p.1 := (bounds_of_mem_laidOut hp).1
  have hfirst : r.take AllImageInfosHeader.sizeOf
      = (imageInfosHeader payloadOffset (modules.getSize - 1)).bytes := by
    unfold store at hs
    split_ifs at hs
    obtain rfl := Except.ok.inj hs
    rw [List.take_zero, List.nil_append, List.take_left' (AllImageInfosHeader.length_bytes _)]
  rw [(storeAll_keeps h hbehind).2, hfirst, AllImageInfosHeader.decode_bytes]

theorem imgcount_of_stored {n : ℕ}
    (h : storeAll (imageInfosPieces payloadOffset modules) (List.replicate n 0) = .ok payload) :
    (AllImageInfosHeader.decode (payload.take AllImageInfosHeader.sizeOf)).imgcount.toNat
      = modules.getSize - 1 := by
  have hcount : modules.getSize ≤ 2 ^ 32 := modules.count
  rw [header_of_stored h, imageInfosHeader, UInt32.toNat_ofNat']
  exact Nat.mod_eq_of_lt (by omega)

theorem getSize_pos (hvalid : modules.isValid = true) : 0 < modules.getSize := by
  rw [ModuleList.isValid] at hvalid
  rw [ModuleList.getSize, List.length_pos_iff]
  simpa using hvalid

/-- Without a main executable there is an entry more than there is room for, and it leaves the
payload if what follows the entries is smaller. -/
theorem createAllImageInfosPayload_ok_iff (payloadOffset : UInt64)
    (hvalid : modules.isValid = true) :
    (∃ payload, createAllImageInfosPayload payloadOffset modules = .ok payload)
      ↔ modules.infos.countP (·.isMainExecutable) ≠ 0 ∨ ImageEntry.sizeOf
        ≤ (segmentArea (images modules.infos)).length
          + (pathArea (images modules.infos)).length := by
  have hall := length_images_add modules
  have hpos := getSize_pos hvalid
  have hentries := length_entries payloadOffset modules
  have hheader : (headerPiece payloadOffset modules).1
      + (headerPiece payloadOffset modules).2.length
      = AllImageInfosHeader.sizeOf := by
    rw [headerPiece, AllImageInfosHeader.length_bytes, Nat.zero_add]
  have hroom : AllImageInfosHeader.sizeOf + (images modules.infos).length * ImageEntry.sizeOf
      ≤ payloadSize modules ↔ modules.infos.countP (·.isMainExecutable) ≠ 0 ∨ ImageEntry.sizeOf
        ≤ (segmentArea (images modules.infos)).length
          + (pathArea (images modules.infos)).length := by
    simp only [payloadSize, pathsStart, vmAddrsStart, ImageEntry.sizeOf, AllImageInfosHeader.sizeOf]
    omega
  rw [createAllImageInfosPayload_stores payloadOffset hvalid, storeAll_ok_iff,
    List.length_replicate,
    imageInfosPieces, List.forall_mem_cons, List.forall_mem_append, List.forall_mem_append, hheader,
    ← hroom, ← hentries]
  constructor
  · rintro ⟨hfirst, ⟨hall, -⟩, -⟩
    by_cases hnil : entryBytes payloadOffset modules = []
    · rw [hnil]
      simpa using hfirst
    · obtain ⟨p, hp, hend⟩ := exists_end_laidOut AllImageInfosHeader.sizeOf hnil
      rw [← hend]
      exact hall p hp
  · intro h
    have hpaths : pathsStart modules ≤ payloadSize modules := Nat.le_add_right _ _
    refine ⟨(Nat.le_add_right _ _).trans h, ⟨fun p hp => ?_, fun p hp => ?_⟩, fun p hp => ?_⟩
    · exact (bounds_of_mem_laidOut hp).2.trans h
    · have hend := (bounds_of_mem_laidOut hp).2
      rw [flatten_vmAddrs] at hend
      exact hend.trans hpaths
    · have hend := (bounds_of_mem_laidOut hp).2
      rwa [flatten_modulePaths] at hend

/-- With a main executable in the list, the spec is that of one. -/
theorem mainBin_of_create {spec : MainBinSpec}
    (hmain : modules.infos.countP (·.isMainExecutable) ≠ 0)
    (hspec : createMainBinSpecPayload false modules = .ok spec) :
    ∃ m ∈ modules.infos, ∃ preferred, getPreferredTextAddress m = .ok preferred
      ∧ spec.uuid = m.uuid ∧ spec.slide = m.loadAddress - preferred := by
  unfold createMainBinSpecPayload at hspec
  rcases hfind : modules.moduleInfos.find? (·.2.isMainExecutable) with _ | ⟨loadAddr, m⟩
  · refine absurd (List.countP_eq_zero.2 fun m hm => ?_) hmain
    obtain ⟨i, hi, rfl⟩ := List.mem_map.1 hm
    exact List.find?_eq_none.1 hfind i hi
  · have hmem := List.mem_of_find?_eq_some hfind
    have hkey : loadAddr = m.loadAddress := modules.keyed _ hmem
    rw [hfind] at hspec
    simp only at hspec
    rcases hpreferred : getPreferredTextAddress m with e | preferred
    · simp [hpreferred, Except.map] at hspec
    · rw [hpreferred] at hspec
      obtain rfl := Except.ok.inj hspec
      exact ⟨m, List.mem_map_of_mem hmem, preferred, hpreferred, rfl, by rw [← hkey]⟩

/-- The images are counted without one of them. -/
theorem ImagesCounted.countP_eq_one {spec : MainBinSpec} (hvalid : modules.isValid = true)
    (h : ImagesCounted payloadOffset modules payload spec) :
    modules.infos.countP (·.isMainExecutable) = 1 := by
  have hpos := getSize_pos hvalid
  have hall := length_images_add modules
  have hcount := h.count
  rw [imgcount_of_stored h.stored, length_imageEntryPieces] at hcount
  omega

theorem length_payload (hvalid : modules.isValid = true)
    (hpayload : createAllImageInfosPayload payloadOffset modules = .ok payload) :
    payload.length = payloadSize modules := by
  rw [createAllImageInfosPayload_stores payloadOffset hvalid] at hpayload
  have hlen := (storeAll_keeps hpayload fun p _ => Nat.zero_le p.1).1
  rwa [List.length_replicate] at hlen

theorem imagesCounted_of_one {spec : MainBinSpec} (hvalid : modules.isValid = true)
    (hmain : modules.infos.countP (·.isMainExecutable) = 1)
    (hpayload : createAllImageInfosPayload payloadOffset modules = .ok payload)
    (hspec : createMainBinSpecPayload false modules = .ok spec) :
    ImagesCounted payloadOffset modules payload spec := by
  have hlen := length_payload hvalid hpayload
  rw [createAllImageInfosPayload_stores payloadOffset hvalid, ← hlen] at hpayload
  refine ⟨hpayload, ?_, ?_, mainBin_of_create (by omega) hspec⟩
  · rw [imgcount_of_stored hpayload, length_imageEntryPieces, length_images hmain]
  · rw [imageInfosPieces_eq payloadOffset hmain, hlen, ← length_pieceBytes payloadOffset hmain]
    exact keptApart_laidOut _

end Counted

theorem startsWith_fault {e : Fault} :
    ∀ {s m : List UInt8}, startsWith s m = .error e → e = .overread
  | [], _, h => by cases h
  | _ :: _, [], h => (Except.error.inj h).symm
  | c :: s, b :: m, h => by
    rw [startsWith] at h
    split_ifs at h
    exact startsWith_fault h

theorem preferredTextAddress_fault {raw : List UInt8} {e : Fault} :
    ∀ {n pos : ℕ}, preferredTextAddress raw n pos = .error e → e = .overread
  | 0, _, h => by cases h
  | n + 1, pos, h => by
    rw [preferredTextAddress] at h
    split at h
    · exact (Except.error.inj h).symm
    · simp only [] at h
      split at h
      · rename_i hfound
        obtain rfl := Except.error.inj h
        split_ifs at hfound
        exact startsWith_fault hfound
      · split_ifs at h
        exact (Except.error.inj h).symm
      · split_ifs at h
        · exact (Except.error.inj h).symm
        · exact preferredTextAddress_fault h

theorem createMainBinSpecPayload_fault {modules : ModuleList} {e : Fault}
    (h : createMainBinSpecPayload false modules = .error e) : e = .overread := by
  unfold createMainBinSpecPayload at h
  split at h
  · rename_i m hm
    rcases hp : getPreferredTextAddress m with e' | preferred
    · rw [hp] at h
      obtain rfl := Except.error.inj h
      exact preferredTextAddress_fault hp
    · rw [hp] at h
      cases h
  · cases h

section Faults

variable {b : MachOCoreDumpBuilder} {e : Fault}

theorem attachDataProvider_ne_error {owner : List UInt8} {p : DataProvider} :
    ∀ notes : List Note, attachDataProvider false owner (some p) notes ≠ .error e
  | [], h => by cases h
  | nc :: rest, h => by
    rw [attachDataProvider, Bool.false_and, if_neg Bool.false_ne_true] at h
    split_ifs at h
    split at h
    · cases h
    · exact attachDataProvider_ne_error rest h

theorem addDataProvider_ne_error {owner : List UInt8} {p : DataProvider} :
    b.addDataProviderForNoteCommand false owner (some p) ≠ .error e := by
  intro h
  unfold addDataProviderForNoteCommand at h
  split at h
  · cases h
  · cases h
  · rename_i hattach
    exact attachDataProvider_ne_error _ hattach

theorem getOffset_ne_error {owner : List UInt8} :
    b.getOffsetForNoteCommandPayload false owner ≠ .error e := by
  intro h
  unfold getOffsetForNoteCommandPayload at h
  split_ifs at h
  exact absurd (notePayloadOffset_fault _ _ h).2 Bool.false_ne_true

theorem storeFileoff_fault {k : ℕ} (h : storeFileoff false k b = .error e) : e = .emptyBack := by
  unfold storeFileoff at h
  split at h
  · cases h
  split at h
  · rename_i hoffset
    obtain rfl := Except.error.inj h
    unfold getOffsetForSegmentCommandPayload at hoffset
    split_ifs at hoffset
    split at hoffset
    · exact (Except.error.inj hoffset).symm
    split at hoffset
    · rename_i hnote
      exact absurd hnote getOffset_ne_error
    · exact absurd (segmentPayloadOffset_fault _ _ hoffset).2 Bool.false_ne_true
  · cases h

end Faults

/-- `AddPayloadsAndWrite` -/
def addPayloadsAndWrite {σ : Type} [OStream σ] (debug : Bool) (nAddrableBits : Option UInt32)
    (modules : ModuleList) (threadIds : List UInt64) (b : MachOCoreDumpBuilder) (s : σ) :
    Except Fault (Bool × σ) :=
  match addPayloads debug nAddrableBits modules threadIds b with
  | .error e => .error e
  | .ok none => .ok (false, s)
  | .ok (some b) => (build debug ⟨b, s⟩).map fun r => (r.1, r.2.stream)

/-- The notes that are dumped tell of the images as they should. -/
def CountsImages (modules : ModuleList) (b : MachOCoreDumpBuilder) : Prop :=
  ∃ (d₁ payload d₄ : List UInt8) (payloadOffset : UInt64) (spec : MainBinSpec),
    b.noteCmds = dumpNotes (some (copiedDataProvider d₁)) (some (copiedDataProvider payload))
      (some (copiedDataProvider spec.bytes)) (some (copiedDataProvider d₄))
    ∧ ImagesCounted payloadOffset modules payload spec

section Written

variable {b : MachOCoreDumpBuilder} {modules : ModuleList} {nAddrableBits : Option UInt32}
variable {threadIds : List UInt64}

/-- The payload of the images has a header at least. -/
theorem payload_ne_nil {offset : UInt64} {payload : List UInt8} (hvalid : modules.isValid = true)
    (hpayload : createAllImageInfosPayload offset modules = .ok payload) : payload ≠ [] := by
  intro hnil
  have hlen := length_payload hvalid hpayload
  rw [hnil, List.length_nil, payloadSize, pathsStart, vmAddrsStart, AllImageInfosHeader.sizeOf]
    at hlen
  omega

/-- No list makes it return `false` before it writes. -/
theorem addPayloads_ne_none {nBits : UInt32} (hvalid : modules.isValid = true) :
    addPayloads false (some nBits) modules threadIds b ≠ .ok none := by
  intro h
  simp only [addPayloads] at h
  obtain ⟨⟨r₁, b₁⟩, -, h⟩ := exists_of_bind_ok h
  obtain ⟨⟨r₂, b₂⟩, -, h⟩ := exists_of_bind_ok h
  obtain ⟨offset, -, h⟩ := exists_of_bind_ok h
  obtain ⟨payload, hpayload, h⟩ := exists_of_bind_ok h
  split at h
  · rename_i hempty
    exact payload_ne_nil hvalid hpayload hempty
  · obtain ⟨⟨r₃, b₃⟩, -, h⟩ := exists_of_bind_ok h
    obtain ⟨spec, -, h⟩ := exists_of_bind_ok h
    obtain ⟨⟨r₄, b₄⟩, -, h⟩ := exists_of_bind_ok h
    obtain ⟨⟨r₅, b₅⟩, -, h⟩ := exists_of_bind_ok h
    simp at h

/-- What leaves the payload is an entry too many. -/
theorem countP_of_overwrite (hvalid : modules.isValid = true)
    (h : addPayloads false nAddrableBits modules threadIds b = .error .overwrite) :
    modules.infos.countP (·.isMainExecutable) = 0 := by
  unfold addPayloads at h
  split at h
  · cases h
  rcases error_of_bind h with h | ⟨⟨r₁, b₁⟩, -, h⟩
  · exact absurd h addDataProvider_ne_error
  rcases error_of_bind h with h | ⟨⟨r₂, b₂⟩, -, h⟩
  · exact absurd h addDataProvider_ne_error
  rcases error_of_bind h with h | ⟨offset, -, h⟩
  · exact absurd h getOffset_ne_error
  rcases error_of_bind h with h | ⟨payload, -, h⟩
  · by_contra hmain
    obtain ⟨payload, hpayload⟩ :=
      (createAllImageInfosPayload_ok_iff (offset.getD 0) hvalid).2 (.inl hmain)
    rw [hpayload] at h
    cases h
  split at h
  · cases h
  rcases error_of_bind h with h | ⟨⟨r₃, b₃⟩, -, h⟩
  · exact absurd h addDataProvider_ne_error
  rcases error_of_bind h with h | ⟨spec, -, h⟩
  · cases createMainBinSpecPayload_fault h
  rcases error_of_bind h with h | ⟨⟨r₄, b₄⟩, -, h⟩
  · exact absurd h addDataProvider_ne_error
  rcases error_of_bind h with h | ⟨⟨r₅, b₅⟩, -, h⟩
  · cases forEach_fault (P := (· = .emptyBack)) (fun _ _ _ => storeFileoff_fault) _ _ _ h
  · cases h

/-- Where it succeeds, or writes behind the payload, the images are counted exactly when one of them
is a main executable. -/
theorem countsImages_iff (hf : b.loadCommandsFinalized = false)
    (hn : b.noteCmds = dumpNotes none none none none) (hvalid : modules.isValid = true)
    {σ : Type} [OStream σ] {s : σ}
    (h : (∃ s', addPayloadsAndWrite false nAddrableBits modules threadIds b s = .ok (true, s'))
      ∨ addPayloadsAndWrite false nAddrableBits modules threadIds b s = .error .overwrite) :
    (∃ b', addPayloads false nAddrableBits modules threadIds b = .ok (some b')
      ∧ CountsImages modules b') ↔ modules.infos.countP (·.isMainExecutable) = 1 := by
  constructor
  · rintro ⟨b', -, d₁, payload, d₄, offset, spec, -, hcounted⟩
    exact hcounted.countP_eq_one hvalid
  intro hmain
  unfold addPayloadsAndWrite at h
  rcases hb : addPayloads false nAddrableBits modules threadIds b with e | _ | b'
  · rw [hb] at h
    obtain ⟨s', h⟩ | h := h
    · cases h
    · obtain rfl := Except.error.inj h
      rw [countP_of_overwrite hvalid hb] at hmain
      cases hmain
  · rw [hb] at h
    obtain ⟨s', h⟩ | h := h <;> cases h
  · obtain ⟨d₁, payload, d₄, offset, spec, c, hpayload, hspec, rfl, -, hnotes⟩ :=
      addPayloads_eq hf hn hb
    exact ⟨b', rfl, d₁, payload, d₄, offset, spec, hnotes,
      imagesCounted_of_one hvalid hmain hpayload hspec⟩

end Written

theorem countsImages_iff_sample :
    ∃ f b', addPayloadsAndWrite false (some 47) sampleModules [] (addNotesToCore (new .arm64))
        FileStream.empty = .ok (true, f)
      ∧ addPayloads false (some 47) sampleModules [] (addNotesToCore (new .arm64)) = .ok (some b')
      ∧ CountsImages sampleModules b' := by
  obtain ⟨f, hf, -⟩ : ∃ f, addPayloadsAndWrite false (some 47) sampleModules []
      (addNotesToCore (new .arm64)) FileStream.empty = .ok (true, f) ∧ f.content.length = 375 :=
    exists_of_toOption (by decide +kernel)
  have hn : (addNotesToCore (new .arm64)).noteCmds = dumpNotes none none none none := by
    rw [addNotesToCore_eq rfl rfl]
  obtain ⟨b', hb, hcounts⟩ := (countsImages_iff rfl hn rfl (.inl ⟨f, hf⟩)).2 (by decide +kernel)
  exact ⟨f, b', hf, hb, hcounts⟩

/-- The list while the array of images is still empty: all there is is `dyld`. -/
def onlyDyld : ModuleList where
  moduleInfos :=
    [(0x1000, ⟨0x1000, Vector.replicate 16 1, ascii "/usr/lib/dyld",
        [⟨Vector.replicate 16 0x5f, 0x1000, 0x100⟩, ⟨Vector.replicate 16 0x5f, 0x2000, 0x100⟩],
        false, sampleHeader 7, by decide, by decide, by decide⟩)]
  ordered := List.pairwise_singleton _ _
  keyed := by
    intro i hi
    obtain rfl := List.mem_singleton.1 hi
    rfl
  count := by decide

/-- No image is counted, and one is filled in. -/
theorem not_countsImages_onlyDyld :
    ∃ f b', addPayloadsAndWrite false (some 47) onlyDyld [] (addNotesToCore (new .arm64))
        FileStream.empty = .ok (true, f)
      ∧ addPayloads false (some 47) onlyDyld [] (addNotesToCore (new .arm64)) = .ok (some b')
      ∧ ¬ CountsImages onlyDyld b' := by
  obtain ⟨f, hf, -⟩ : ∃ f, addPayloadsAndWrite false (some 47) onlyDyld []
      (addNotesToCore (new .arm64)) FileStream.empty = .ok (true, f) ∧ f.content.length = 372 :=
    exists_of_toOption (by decide +kernel)
  have hnone : onlyDyld.infos.countP (·.isMainExecutable) = 0 := by decide +kernel
  have hwritten := hf
  unfold addPayloadsAndWrite at hwritten
  split at hwritten
  · cases hwritten
  · simp at hwritten
  · rename_i b' hb
    refine ⟨f, b', hf, hb, ?_⟩
    rintro ⟨d₁, payload, d₄, offset, spec, -, hcounted⟩
    have hone := hcounted.countP_eq_one rfl
    rw [hnone] at hone
    cases hone

end MacMiniDump
