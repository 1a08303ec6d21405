import MacMiniDump.ImageList
import MacMiniDump.LiveDump
import MacMiniDump.StringReads

/-!
# A dump of a task

Now the list of modules is read from the memory of the target, too, where `dyld` keeps its infos.
What the reads of an image come to is a fact about that memory (`imagePath_eq_some_iff`,
`bytes_imageReads_iff`). So a reader of the core file finds the images that `dyld` lists there, each
the first at its address and with what its header says, and no others (`readCore_taskDump`).
-/

namespace MacMiniDump

open MachOCoreDumpBuilder

namespace AddressSpace

variable (space : AddressSpace)

/-- The string of less than 4096 bytes at the address. -/
def HasString (address : UInt64) (string : List UInt8) : Prop :=
  ∃ n < 4096, StringAt space address n ∧ string = space.bytes address n

/-- A header with its load commands at the address. -/
structure HasHeader (loadAddress : UInt64) (rawBytes : List UInt8) : Prop where
  fits : loadAddress.toNat + rawBytes.length ≤ 2 ^ 64
  readable : ∀ i < rawBytes.length, space.Readable (loadAddress + UInt64.ofNat i)
  eq : rawBytes = space.bytes loadAddress rawBytes.length
  size : rawBytes.length = 32 + (MachHeader64.decode (rawBytes.take 32)).sizeofcmds.toNat

/-- `ReadProcessMemoryString`, as it is called for a path. -/
def imagePath (address : UInt64) : Option (List UInt8) :=
  let (found, path) := readProcessMemoryString space address 4096 []
  if found then some path else none

variable {space} {a : UInt64}

theorem HasString.zero_notMem {s : List UInt8} (h : space.HasString a s) : 0 ∉ s := by
  obtain ⟨n, -, hstring, rfl⟩ := h
  intro h0
  obtain ⟨i, hi, hzero⟩ := zero_mem_bytes.1 h0
  exact hstring.nonzero i hi hzero

theorem imagePath_eq_some_iff {s : List UInt8} :
    space.imagePath a = some s ↔ space.HasString a s := by
  unfold imagePath
  by_cases ha : space.Readable a
  · obtain ⟨d, hd, hread⟩ := readString_of_readable ha []
    rw [hread]
    constructor
    · intro h
      split_ifs at h with h0
      · obtain ⟨n, hn, hstring⟩ := exists_stringAt hd (min_le_left _ _) h0
        simp only [if_true, Option.some.injEq] at h
        exact ⟨n, (lt_min_iff.1 hn).2, hstring, h ▸ cstr_bytes hstring hn⟩
      · simp at h
    · rintro ⟨n, hn, hstring, rfl⟩
      have hlt : n < min d.toNat 4096 := lt_min (hstring.lt_distance hn hd) hn
      rw [if_pos (zero_mem_bytes.2 ⟨n, hlt, hstring.zero⟩), cstr_bytes hstring hlt]
      rfl
  · rw [readString_of_not_readable ha]
    refine iff_of_false (by simp) ?_
    rintro ⟨n, -, hstring, -⟩
    exact ha hstring.readable_start

variable (space) in
/-- What comes of the reads for an image. -/
def imageReads : ImageReads where
  path := space.imagePath
  header loadAddress := space.readMemory loadAddress 32
  block := space.readMemory
  noNul h := (imagePath_eq_some_iff.1 h).zero_notMem
  length_block := length_readMemory

/-- Both reads work, and agree on the header, when the header is there with its commands. -/
theorem bytes_imageReads_iff {rawBytes : List UInt8} :
    space.imageReads.bytes a = some rawBytes ↔ space.HasHeader a rawBytes := by
  have h32 : (32 : UInt64).toNat = 32 := rfl
  unfold ImageReads.bytes
  rw [Option.bind_eq_some_iff]
  constructor
  · rintro ⟨headerBytes, hheader, hblock⟩
    have hsize := toNat_blockSize headerBytes
    obtain ⟨-, -, rfl⟩ := readMemory_eq_some_iff.1 hheader
    obtain ⟨hfits, hread, rfl⟩ := readMemory_eq_some_iff.1 hblock
    refine ⟨by rwa [length_bytes], by rwa [length_bytes], by rw [length_bytes], ?_⟩
    rw [length_bytes, take_bytes (by omega), hsize, h32]
  · intro h
    have hsize := h.size
    have hheader : rawBytes.take 32 = space.bytes a 32 := by
      rw [h.eq, take_bytes (by omega)]
    refine ⟨rawBytes.take 32, readMemory_eq_some_iff.2 ⟨?_, fun i hi => h.readable i ?_, hheader⟩,
      readMemory_eq_some_iff.2 ?_⟩
    · have hfits := h.fits
      omega
    · omega
    · rw [toNat_blockSize, ← hsize]
      exact ⟨h.fits, h.readable, h.eq⟩

end AddressSpace

/-! ## What `dyld` lists -/

/-- An image as it is listed: where it is, and where its path is or what is taken for it. -/
structure Listing where
  loadAddress : UInt64
  pathAddress : Option UInt64
  defaultPath : Option (List UInt8)

namespace Listing

/-- The path is in the memory, or it is not and this one is taken for it. -/
def HasPath (l : Listing) (space : AddressSpace) (path : List UInt8) : Prop :=
  (∃ a, l.pathAddress = some a ∧ space.HasString a path)
    ∨ (∀ a s, l.pathAddress = some a → ¬ space.HasString a s) ∧ l.defaultPath = some path

/-- The images that `dyld` lists, and itself. -/
def all (imageInfo : DyldAllImageInfos) (infos : List DyldImageInfo) : List Listing :=
  ⟨imageInfo.dyldImageLoadAddress,
    if imageInfo.version ≥ 15 then some imageInfo.dyldPath else none, some dyldDefaultPath⟩
    :: infos.map fun info => ⟨info.imageLoadAddress, some info.imageFilePath, none⟩

/-- What is read for the listing is what it says. -/
structure ReadFor (l : Listing) (space : AddressSpace) (c : ListedImage) : Prop where
  loadAddress : c.loadAddress = l.loadAddress
  reads : c.reads = space.imageReads
  path : ∀ path, c.path = some path ↔ l.HasPath space path

end Listing

section Listed

variable {space : AddressSpace}

theorem readFor_ofInfo (info : DyldImageInfo) :
    Listing.ReadFor ⟨info.imageLoadAddress, some info.imageFilePath, none⟩ space
      (.ofInfo space.imageReads info) := by
  refine ⟨rfl, rfl, fun path => ?_⟩
  have hpath : (ListedImage.ofInfo space.imageReads info).path = some path
      ↔ space.HasString info.imageFilePath path := AddressSpace.imagePath_eq_some_iff
  rw [hpath]
  constructor
  · exact fun h => .inl ⟨_, rfl, h⟩
  · rintro (⟨a, ha, h⟩ | ⟨-, h⟩)
    · rwa [Option.some.inj ha]
    · cases h

theorem readFor_ofDyld (imageInfo : DyldAllImageInfos) :
    Listing.ReadFor ⟨imageInfo.dyldImageLoadAddress,
      if imageInfo.version ≥ 15 then some imageInfo.dyldPath else none, some dyldDefaultPath⟩ space
      (.ofDyld space.imageReads imageInfo) := by
  refine ⟨rfl, rfl, fun path => ?_⟩
  have hpath : (ListedImage.ofDyld space.imageReads imageInfo).path
      = some (dyldImagePath space.imageReads imageInfo) := rfl
  rw [hpath, Option.some.injEq, dyldImagePath, Listing.HasPath]
  by_cases hversion : imageInfo.version ≥ 15
  · simp only [if_pos hversion, Option.some.injEq, exists_eq_left']
    rcases hread : space.imageReads.path imageInfo.dyldPath with _ | s
    · have hno : ∀ s, ¬ space.HasString imageInfo.dyldPath s := fun s h => by
        rw [← AddressSpace.imagePath_eq_some_iff] at h
        rw [show space.imageReads.path = space.imagePath from rfl, h] at hread
        cases hread
      constructor
      · exact fun h => .inr ⟨fun a s ha => ha ▸ hno s, h⟩
      · rintro (h | ⟨-, h⟩)
        · exact absurd h (hno path)
        · exact h
    · have hs : space.HasString imageInfo.dyldPath s := AddressSpace.imagePath_eq_some_iff.1 hread
      constructor
      · rintro rfl
        exact .inl hs
      · rintro (h | ⟨hno, -⟩)
        · exact Option.some.inj (hread.symm.trans (AddressSpace.imagePath_eq_some_iff.2 h))
        · exact absurd hs (hno _ s rfl)
  · simp [if_neg hversion]

theorem readFor_listedFrom :
    ∀ (infos : List DyldImageInfo) (i : ℕ),
      List.Forall₂ (fun l c => Listing.ReadFor l space c)
        (infos.map fun info => ⟨info.imageLoadAddress, some info.imageFilePath, none⟩)
        (listedFrom (fun _ => space.imageReads) infos i)
  | [], _ => .nil
  | info :: infos, i => .cons (readFor_ofInfo info) (readFor_listedFrom infos (i + 1))

end Listed

/-- A module that is created is what was read. -/
theorem readAs_of_createModuleInfo {c : ListedImage} {path : List UInt8} {mi : ModuleInfo}
    (hpath : c.path = some path)
    (h : createModuleInfo c.reads c.loadAddress path = .ok (some mi)) : c.ReadAs mi := by
  unfold createModuleInfo at h
  rcases hheader : c.reads.header c.loadAddress with _ | headerBytes
  · rw [hheader] at h
    cases h
  rw [hheader] at h
  simp only at h
  split at h
  · cases h
  rename_i rawBytes hblock
  have hbytes : c.bytes = some rawBytes := by
    rw [ListedImage.bytes, ImageReads.bytes, hheader]
    exact hblock
  split at h
  · cases h
  · cases h
  rename_i segments uuid hsegments huuid
  simp only [Except.ok.injEq, Option.some.injEq] at h
  subst h
  exact ⟨path, rawBytes, hpath, hbytes, cstr_of_zero_notMem (c.noNul hpath),
    rfl, rfl, rfl, huuid, ⟨segments, hsegments, rfl⟩, rfl⟩

/-- So is a list of them. -/
theorem readAs_of_addImages {image : ℕ → ImageReads} :
    ∀ (infos : List DyldImageInfo) (i : ℕ) {m m' : List (UInt64 × ModuleInfo)},
      addImages image infos i m = .ok (some m') →
      ∃ mis, List.Forall₂ ListedImage.ReadAs (listedFrom image infos i) mis ∧ m' = addAll mis m
  | [], _, m, m', h => ⟨[], .nil, (Option.some.inj (Except.ok.inj h)).symm⟩
  | info :: infos, i, m, m', h => by
    rw [addImages] at h
    rcases hmi : createModuleInfoAt (image i) info.imageLoadAddress info.imageFilePath
        with e | _ | mi
    · simp [hmi] at h
    · simp [hmi] at h
    rw [hmi] at h
    obtain ⟨mis, hmis, rfl⟩ := readAs_of_addImages infos (i + 1) h
    unfold createModuleInfoAt at hmi
    rcases hpath : (image i).path info.imageFilePath with _ | path
    · simp [hpath] at hmi
    rw [hpath] at hmi
    exact ⟨mi :: mis, .cons (readAs_of_createModuleInfo (c := .ofInfo (image i) info) hpath hmi)
      hmis, rfl⟩

/-- A list that is valid has everything that is listed. -/
theorem completeFor_of_create {debug : Bool} {t : TargetReads} {modules : ModuleList}
    (h : ModuleList.create debug t = .ok modules) (hvalid : modules.isValid = true) :
    ∃ imageInfo dyldInfosBytes, t.dyldInfos = some (imageInfo, dyldInfosBytes)
      ∧ modules.CompleteFor (t.listed imageInfo dyldInfosBytes) := by
  have hcreate : createModuleInfos debug t = .ok modules.moduleInfos := by
    unfold ModuleList.create at h
    split at h
    · cases h
    · rename_i m hm
      rw [hm, ← Except.ok.inj h]
  have hnil : modules.moduleInfos ≠ [] := by
    rintro hm
    rw [ModuleList.isValid, hm] at hvalid
    cases hvalid
  have hempty : (Except.ok [] : Except Fault _) ≠ .ok modules.moduleInfos :=
    fun h => hnil (Except.ok.inj h).symm
  unfold createModuleInfos at hcreate
  rcases htask : t.taskInfo with _ | dyldInfoAddress <;> simp only [htask] at hcreate
  · exact absurd hcreate hempty
  rcases hinfo : t.imageInfo dyldInfoAddress with _ | imageInfo <;> simp only [hinfo] at hcreate
  · exact absurd hcreate hempty
  rcases harray : t.array imageInfo.infoArray (arraySize imageInfo) with _ | dyldInfosBytes <;>
    simp only [harray] at hcreate
  · exact absurd hcreate hempty
  split_ifs at hcreate
  rcases hdyld : createModuleInfo (t.image 0) imageInfo.dyldImageLoadAddress
    (dyldImagePath (t.image 0) imageInfo) with e | _ | mi <;> simp only [hdyld] at hcreate
  · cases hcreate
  · exact absurd hcreate hempty
  rcases hadd : addImages t.image (imageInfoArray imageInfo dyldInfosBytes) 1
    (insertNew mi.loadAddress mi []) with e | _ | m <;> simp only [hadd] at hcreate
  · cases hcreate
  · exact absurd hcreate hempty
  obtain ⟨mis, hmis, rfl⟩ := readAs_of_addImages _ _ hadd
  have hread : (ListedImage.ofDyld (t.image 0) imageInfo).ReadAs mi :=
    readAs_of_createModuleInfo (c := .ofDyld (t.image 0) imageInfo) rfl hdyld
  refine ⟨imageInfo, dyldInfosBytes, ?_, ModuleList.completeFor_addAll (.cons hread hmis)
    (Except.ok.inj hcreate).symm⟩
  rw [TargetReads.dyldInfos, htask, Option.bind_some, hinfo, Option.bind_some, harray,
    Option.map_some]

variable {arch : Arch}

/-- A dump that creates the list of modules itself; what `live` says of that is not used. -/
structure TaskDump (arch : Arch) where
  live : LiveDump arch
  /-- `task_info`, for the address of the infos of `dyld` -/
  dyldInfoAddress : Option UInt64
  /-- `sizeof (dyld_all_image_infos)`, and what the fields are -/
  infosSize : UInt64
  decodeInfos : List UInt8 → DyldAllImageInfos

namespace TaskDump

variable (task : TaskDump arch)

def space : AddressSpace := task.live.env.target.space

/-- What the constructor of `ModuleList` asks the system for. -/
def reads : TargetReads where
  taskInfo := task.dyldInfoAddress
  imageInfo address := (task.space.readMemory address task.infosSize).map task.decodeInfos
  array := task.space.readMemory
  image _ := task.space.imageReads

/-- The dump with this list of modules. -/
def withModules (modules : ModuleList) : LiveDump arch :=
  { task.live with
    env := { task.live.env with target := { task.live.env.target with modules := modules } } }

def prepare (rounds : ℕ) : Option (Except Fault (Option MachOCoreDumpBuilder)) :=
  match ModuleList.create task.live.debug task.reads with
  | .error e => some (.error e)
  | .ok modules => (task.withModules modules).prepare rounds

variable {σ : Type} [OStream σ]

/-- `MiniDumpWriteDumpImpl`, `none` when a walk has not come to its end after so many rounds. -/
def miniDumpWriteDumpImpl (rounds : ℕ) (s : σ) : Option (Except Fault (Bool × σ)) :=
  task.live.env.writePrepared task.live.debug (task.prepare rounds) s

variable {task} {rounds : ℕ} {s s' : σ}

/-- A dump that succeeds has created a list, and is the dump with it. -/
theorem exists_modules (h : task.miniDumpWriteDumpImpl rounds s = some (.ok (true, s'))) :
    ∃ modules, ModuleList.create task.live.debug task.reads = .ok modules
      ∧ task.prepare rounds = (task.withModules modules).prepare rounds
      ∧ (task.withModules modules).miniDumpWriteDumpImpl rounds s = some (.ok (true, s')) := by
  obtain ⟨b, hb⟩ := DumpEnv.exists_of_writePrepared h
  rcases hcreate : ModuleList.create task.live.debug task.reads with e | modules
  · simp [prepare, hcreate] at hb
  · have hprepare : task.prepare rounds = (task.withModules modules).prepare rounds := by
      rw [prepare, hcreate]
    unfold miniDumpWriteDumpImpl at h
    rw [hprepare] at h
    exact ⟨modules, rfl, hprepare, h⟩

/-! ## What is shown -/

variable (task)

/-- What `dyld` lists in the memory of the task. -/
def listings : Option (List Listing) :=
  task.reads.dyldInfos.map fun (imageInfo, dyldInfosBytes) =>
    Listing.all imageInfo (imageInfoArray imageInfo dyldInfosBytes)

/-- The image is the first that is listed at its address, and this is its header, which says so. -/
structure Lists (image : Image) (rawBytes : List UInt8) : Prop where
  listed : ∃ listings l, task.listings = some listings
    ∧ listings.find? (fun l => decide (l.loadAddress = image.loadAddress)) = some l
    ∧ l.HasPath task.space image.filePath
  header : task.space.HasHeader image.loadAddress rawBytes
  uuid : getUUIDOfModule rawBytes = .ok image.uuid
  segments : ∃ segments, getSegmentsOfModule rawBytes = .ok segments
    ∧ image.segments = (slideSegments image.loadAddress segments).map
      fun si => (cstr si.segmentName.toList, si.address)

/-- An address of the image is on a call stack. -/
def OnCallStack (modules : ModuleList) (image : Image) : Prop :=
  ∃ thread ∈ task.live.env.target.threads.getD [], ∃ gpr exc callStack rounds,
    thread.registers task.live.env.crash = some (gpr, exc)
      ∧ (task.withModules modules).walkStack rounds modules gpr exc = some (.ok callStack)
      ∧ ∃ ip ∈ callStack, (modules.getModuleInfoForAddress ip).map (·.loadAddress)
        = some image.loadAddress

def IsExecutable (rawBytes : List UInt8) : Prop :=
  (MachHeader64.decode (rawBytes.take 32)).filetype = MH_EXECUTE

/-- The snapshot is one of the task. -/
structure Shows (modules : ModuleList) (s : Snapshot arch) : Prop where
  addrableBits : task.live.env.target.nAddrableBits = some s.addrableBits
  threads : s.threads = task.live.env.target.shownThreads task.live.env.crash
  ascending : s.images.Pairwise fun image image' => image.loadAddress < image'.loadAddress
  images : ∀ image, image ∈ s.images ↔ ∃ rawBytes, task.Lists image rawBytes
    ∧ ¬ IsExecutable rawBytes ∧ (image.executing = true ↔ task.OnCallStack modules image)
  main : ∃ image rawBytes, task.Lists image rawBytes ∧ IsExecutable rawBytes
    ∧ s.mainUuid = image.uuid
    ∧ ∃ preferred, preferredTextAddress rawBytes (ncmdsOf rawBytes) 32 = .ok preferred
      ∧ s.mainSlide + preferred = image.loadAddress

variable {task} {modules : ModuleList}

theorem isMainExecutable_iff (mi : ModuleInfo) :
    mi.isMainExecutable = true ↔ IsExecutable mi.headerAndLoadCommandBytes := decide_eq_true_iff

theorem find?_rel {α β : Type*} {R : α → β → Prop} {p : α → Bool} {q : β → Bool}
    (hpq : ∀ a b, R a b → p a = q b) {l : List α} {l' : List β} (h : List.Forall₂ R l l') :
    Option.Rel R (l.find? p) (l'.find? q) := by
  induction h with
  | nil => exact .none
  | @cons a b _ _ hab _ ih =>
    rw [List.find?_cons, List.find?_cons, ← hpq a b hab]
    cases p a with
    | true => exact .some hab
    | false => exact ih

/-- What is listed in the memory is what the modules are read for. -/
theorem readFor_listed {imageInfo : DyldAllImageInfos} {dyldInfosBytes : List UInt8} :
    List.Forall₂ (fun l c => Listing.ReadFor l task.space c)
      (Listing.all imageInfo (imageInfoArray imageInfo dyldInfosBytes))
      (task.reads.listed imageInfo dyldInfosBytes) :=
  .cons (readFor_ofDyld imageInfo) (readFor_listedFrom _ 1)

theorem bytes_eq_some_iff {l : Listing} {space : AddressSpace} {c : ListedImage}
    (h : l.ReadFor space c) {rawBytes : List UInt8} :
    c.bytes = some rawBytes ↔ space.HasHeader l.loadAddress rawBytes := by
  rw [ListedImage.bytes, h.reads, h.loadAddress]
  exact AddressSpace.bytes_imageReads_iff

/-- What is known of a module that was read for a listing. -/
theorem image_of_readAs {l : Listing} {space : AddressSpace} {c : ListedImage} {mi : ModuleInfo}
    {image : Image} {rawBytes : List UInt8} (hl : l.ReadFor space c) (hread : c.ReadAs mi) :
    mi.image = { image with executing := false } ∧ mi.headerAndLoadCommandBytes = rawBytes
      ↔ l.loadAddress = image.loadAddress ∧ l.HasPath space image.filePath
        ∧ space.HasHeader image.loadAddress rawBytes ∧ getUUIDOfModule rawBytes = .ok image.uuid
        ∧ ∃ segments, getSegmentsOfModule rawBytes = .ok segments
          ∧ image.segments = (slideSegments image.loadAddress segments).map
            fun si => (cstr si.segmentName.toList, si.address) := by
  obtain ⟨path, bytes, hpath, hbytes, hfile, hmade⟩ := hread
  obtain ⟨segments, hsegments, hslid⟩ := hmade.segments
  have haddr : mi.loadAddress = l.loadAddress := hmade.loadAddress.trans hl.loadAddress
  rw [hmade.bytes] at hsegments ⊢
  constructor
  · rintro ⟨himage, rfl⟩
    obtain ⟨hfilePath, huuid, hload, hsegs, -⟩ := Image.mk.inj himage
    rw [← hload, ← hfilePath, ← huuid, ← hsegs, haddr, hfile]
    refine ⟨rfl, (hl.path path).1 hpath, (bytes_eq_some_iff hl).1 hbytes, hmade.uuid, segments,
      hsegments, ?_⟩
    rw [hslid, haddr]
  · rintro ⟨hload, hhas, hheader, huuid, segments', hsegments', hsegs⟩
    rw [← hload] at hheader hsegs
    have hraw := (bytes_eq_some_iff hl).2 hheader
    obtain rfl := Option.some.inj (hbytes.symm.trans hraw)
    obtain rfl := Except.ok.inj (hsegments.symm.trans hsegments')
    have hfilePath := Option.some.inj (hpath.symm.trans ((hl.path _).2 hhas))
    have hmuuid := Except.ok.inj (hmade.uuid.symm.trans huuid)
    refine ⟨?_, rfl⟩
    rw [ModuleInfo.image, hfile, hfilePath, hmuuid, hslid, haddr, hload, ← hload, ← hsegs,
      hmade.executing]

/-- The modules that are created are the images that are listed. -/
theorem lists_iff (hcreate : ModuleList.create task.live.debug task.reads = .ok modules)
    (hvalid : modules.isValid = true) {image : Image} {rawBytes : List UInt8} :
    task.Lists image rawBytes ↔ ∃ mi ∈ modules.infos, mi.image = { image with executing := false }
      ∧ mi.headerAndLoadCommandBytes = rawBytes := by
  obtain ⟨imageInfo, dyldInfosBytes, hinfos, hcomplete⟩ := completeFor_of_create hcreate hvalid
  have hlistings : task.listings
      = some (Listing.all imageInfo (imageInfoArray imageInfo dyldInfosBytes)) := by
    rw [listings, hinfos, Option.map_some]
  have hread : List.Forall₂ (fun l c => Listing.ReadFor l task.space c) _
    (task.reads.listed imageInfo dyldInfosBytes) := readFor_listed
  have hfind := fun a => find?_rel (p := fun l : Listing => decide (l.loadAddress = a))
    (q := fun c : ListedImage => decide (c.loadAddress = a))
    (fun l c h => by rw [h.loadAddress]) hread
  constructor
  · rintro ⟨⟨listings, l, hl, hfound, hpath⟩, hheader, huuid, hsegments⟩
    obtain rfl := Option.some.inj (hl.symm.trans hlistings)
    have hrel := hfind image.loadAddress
    rw [hfound] at hrel
    rcases hc : (task.reads.listed imageInfo dyldInfosBytes).find?
      (fun c => decide (c.loadAddress = image.loadAddress)) with _ | c
    · rw [hc] at hrel
      cases hrel
    rw [hc] at hrel
    cases hrel with
    | some hfor =>
      have haddr : c.loadAddress = image.loadAddress := by simpa using List.find?_some hc
      obtain ⟨i, hi, hkey⟩ := List.mem_map.1 ((hcomplete.keys image.loadAddress).2
        (List.mem_map.2 ⟨c, List.mem_of_find?_eq_some hc, haddr⟩))
      obtain ⟨c', hc', hreadAs⟩ := hcomplete.first i hi
      rw [hkey, hc, Option.some.injEq] at hc'
      subst hc'
      exact ⟨i.2, List.mem_map_of_mem hi, (image_of_readAs hfor hreadAs).2
        ⟨hfor.loadAddress.symm.trans haddr, hpath, hheader, huuid, hsegments⟩⟩
  · rintro ⟨mi, hmi, himage⟩
    obtain ⟨i, hi, rfl⟩ := List.mem_map.1 hmi
    obtain ⟨c, hc, hreadAs⟩ := hcomplete.first i hi
    have hrel := hfind i.1
    rw [hc] at hrel
    rcases hl : (Listing.all imageInfo (imageInfoArray imageInfo dyldInfosBytes)).find?
      (fun l => decide (l.loadAddress = i.1)) with _ | l
    · rw [hl] at hrel
      cases hrel
    rw [hl] at hrel
    cases hrel with
    | some hfor =>
      obtain ⟨hload, hpath, hheader, huuid, hsegments⟩ := (image_of_readAs hfor hreadAs).1 himage
      have haddr : l.loadAddress = i.1 := by simpa using List.find?_some hl
      rw [← haddr, hload] at hl
      exact ⟨⟨_, l, hlistings, hl, hpath⟩, hheader, huuid, hsegments⟩

theorem executing_of_create (hcreate : ModuleList.create task.live.debug task.reads = .ok modules)
    {mi : ModuleInfo} (hmi : mi ∈ modules.infos) : mi.executing = false := by
  have hvalid : modules.isValid = true := by
    obtain ⟨i, hi, -⟩ := List.mem_map.1 hmi
    simp [ModuleList.isValid, List.ne_nil_of_mem hi]
  obtain ⟨imageInfo, dyldInfosBytes, -, hcomplete⟩ := completeFor_of_create hcreate hvalid
  obtain ⟨i, hi, rfl⟩ := List.mem_map.1 hmi
  obtain ⟨c, -, path, bytes, -, -, -, hmade⟩ := hcomplete.first i hi
  exact hmade.executing

section Shows

variable {s : Snapshot arch} {rounds : ℕ}

/-- The dump with the lists that the walks return. -/
def walked (task : TaskDump arch) (modules : ModuleList) (rounds : ℕ) : DumpEnv arch :=
  (task.withModules modules).withWalks ((task.withModules modules).returned rounds)

/-- The walks returned within so many rounds. -/
def Walked (task : TaskDump arch) (modules : ModuleList) (rounds : ℕ) : Prop :=
  ∀ thread ∈ task.live.env.target.threads.getD [], ∀ gpr exc,
    thread.registers task.live.env.crash = some (gpr, exc) →
      (task.withModules modules).walkStack rounds modules gpr exc
        = some (.ok ((task.withModules modules).returned rounds gpr exc))

theorem onCallStack_iff (hwalked : task.Walked modules rounds) (mi : ModuleInfo) :
    (task.walked modules rounds).target.onCallStack task.live.env.crash mi = true
      ↔ task.OnCallStack modules mi.image := by
  rw [Target.onCallStack, List.any_eq_true]
  constructor
  · rintro ⟨ip, hip, hfinds⟩
    obtain ⟨thread, ht, hmem⟩ := List.mem_flatMap.1 hip
    rcases hregs : thread.registers task.live.env.crash with _ | ⟨gpr, exc⟩
    · rw [hregs] at hmem
      cases hmem
    rw [hregs] at hmem
    exact ⟨thread, ht, gpr, exc, _, rounds, hregs, hwalked thread ht gpr exc hregs, ip, hmem,
      beq_iff_eq.1 hfinds⟩
  · rintro ⟨thread, ht, gpr, exc, callStack, rounds', hregs, hwalk, ip, hip, hfinds⟩
    have hwalk' := hwalked thread ht gpr exc hregs
    -- more rounds than a walk needs do not change what it returns
    have hsame : callStack = (task.withModules modules).returned rounds gpr exc := by
      have h := LiveDump.walkStack_of_le (le_max_left rounds' rounds) hwalk
      have h' := LiveDump.walkStack_of_le (le_max_right rounds' rounds) hwalk'
      exact Except.ok.inj (Option.some.inj (h.symm.trans h'))
    rw [hsame] at hip
    exact ⟨ip, mem_callStackAddresses ht hregs hip, beq_iff_eq.2 hfinds⟩

theorem eq_of_ascending {l l' : List Image}
    (h : l.Pairwise fun image image' => image.loadAddress < image'.loadAddress)
    (h' : l'.Pairwise fun image image' => image.loadAddress < image'.loadAddress)
    (hmem : ∀ image, image ∈ l ↔ image ∈ l') : l = l' := by
  have hnodup : ∀ {l : List Image}, (l.Pairwise fun image image' =>
      image.loadAddress < image'.loadAddress) → l.Nodup :=
    fun h => h.imp fun hlt heq => by
      rw [heq] at hlt
      exact lt_irrefl _ hlt
  exact ((List.perm_ext_iff_of_nodup (hnodup h) (hnodup h')).2 hmem).eq_of_pairwise
    (fun _ _ _ _ hlt hgt => absurd hlt (lt_asymm hgt)) h h'

/-- The images that are shown of the modules are those that are listed. -/
theorem mem_shownImages_iff (hcreate : ModuleList.create task.live.debug task.reads = .ok modules)
    (hvalid : modules.isValid = true) (hwalked : task.Walked modules rounds) (image : Image) :
    image ∈ (task.walked modules rounds).target.shownImages task.live.env.crash
      ↔ ∃ rawBytes, task.Lists image rawBytes ∧ ¬ IsExecutable rawBytes
        ∧ (image.executing = true ↔ task.OnCallStack modules image) := by
  have hshown : image ∈ (task.walked modules rounds).target.shownImages task.live.env.crash
      ↔ ∃ mi ∈ modules.infos, mi.isMainExecutable = false ∧ { mi.image with
        executing := (task.walked modules rounds).target.onCallStack task.live.env.crash mi }
          = image := by
    have himages : (task.walked modules rounds).target.modules.infos = modules.infos := rfl
    simp only [Target.shownImages, himages, images, List.mem_map, List.mem_filter,
      Bool.not_eq_true', and_assoc]
    refine exists_congr fun mi => and_congr_right fun hmi => ?_
    rw [executing_of_create hcreate hmi, Bool.false_or]
  simp only [hshown, lists_iff hcreate hvalid]
  constructor
  · rintro ⟨mi, hmi, hmain, rfl⟩
    refine ⟨_, ⟨mi, hmi, ?_, rfl⟩, ?_, onCallStack_iff hwalked mi⟩
    · rw [ModuleInfo.image, executing_of_create hcreate hmi]
    · rw [← isMainExecutable_iff, hmain]
      exact Bool.false_ne_true
  · rintro ⟨rawBytes, ⟨mi, hmi, himage, rfl⟩, hmain, hexecuting⟩
    refine ⟨mi, hmi, by rwa [← isMainExecutable_iff, Bool.not_eq_true] at hmain, ?_⟩
    have hcall := onCallStack_iff hwalked mi
    rw [himage] at hcall ⊢
    have hiff : task.OnCallStack modules { image with executing := false }
        ↔ task.OnCallStack modules image := Iff.rfl
    rw [hiff, ← hexecuting, Bool.eq_iff_iff.symm] at hcall
    rw [hcall]

/-- The snapshot of the modules that were created is that of the task. -/
theorem shows_iff (hcreate : ModuleList.create task.live.debug task.reads = .ok modules)
    (hvalid : modules.isValid = true) (hwalked : task.Walked modules rounds) :
    (task.walked modules rounds).target.Shows task.live.env.crash s ↔ task.Shows modules s := by
  have hascending : ((task.walked modules rounds).target.shownImages task.live.env.crash).Pairwise
      fun image image' => image.loadAddress < image'.loadAddress := by
    rw [Target.shownImages, List.pairwise_map]
    exact modules.infos_pairwise.filter _
  have hlists : ∀ mi ∈ modules.infos, task.Lists mi.image mi.headerAndLoadCommandBytes := by
    intro mi hmi
    refine (lists_iff hcreate hvalid).2 ⟨mi, hmi, ?_, rfl⟩
    rw [ModuleInfo.image, executing_of_create hcreate hmi]
  constructor
  · rintro ⟨hbits, hthreads, himages, mi, hmi, hmain, huuid, preferred, hpreferred, hslide⟩
    refine ⟨hbits, hthreads, himages ▸ hascending, fun image => ?_, mi.image, _, hlists mi hmi,
      (isMainExecutable_iff mi).1 hmain, huuid, preferred, hpreferred, hslide⟩
    rw [himages]
    exact mem_shownImages_iff hcreate hvalid hwalked image
  · rintro ⟨hbits, hthreads, hasc, himages, image, rawBytes, himage, hmain, huuid, preferred,
      hpreferred, hslide⟩
    obtain ⟨mi, hmi, heq, rfl⟩ := (lists_iff hcreate hvalid).1 himage
    have hsame : mi.uuid = image.uuid ∧ mi.loadAddress = image.loadAddress :=
      ⟨congrArg Image.uuid heq, congrArg Image.loadAddress heq⟩
    refine ⟨hbits, hthreads, ?_, mi, hmi, (isMainExecutable_iff mi).2 hmain,
      huuid.trans hsame.1.symm, preferred, hpreferred, hslide.trans hsame.2.symm⟩
    refine eq_of_ascending hasc hascending fun image => ?_
    rw [himages, mem_shownImages_iff hcreate hvalid hwalked]

end Shows

/-- The file of a dump that succeeds, on a stream at its start and with a layout that fits, reads as
a snapshot, and that is what the memory of the task shows, and nothing else is. -/
theorem readCore_taskDump {rounds : ℕ} {f f' : FileStream} {b : MachOCoreDumpBuilder}
    (hcreate : ModuleList.create task.live.debug task.reads = .ok modules)
    (hmain : modules.infos.countP (·.isMainExecutable) = 1)
    (hb : task.prepare rounds = some (.ok (some b)))
    (h : task.miniDumpWriteDumpImpl rounds f = some (.ok (true, f'))) (hpos : f.pos = 0)
    (hfits : Fits b) :
    ∃ s, readCore arch f'.content = some s ∧ ∀ s', task.Shows modules s' ↔ s' = s := by
  have hvalid : modules.isValid = true := by
    rcases hinfos : modules.moduleInfos with _ | ⟨i, is⟩
    · rw [ModuleList.infos, hinfos] at hmain
      cases hmain
    · rw [ModuleList.isValid, hinfos]
      rfl
  obtain ⟨modules', hcreate', hprepare, hdump⟩ := exists_modules h
  obtain rfl := Except.ok.inj (hcreate.symm.trans hcreate')
  obtain ⟨-, hprepare', hdump'⟩ := LiveDump.returned_of_writeDump hdump
  rw [hprepare] at hb
  obtain ⟨s₀, hs₀⟩ := LiveDump.exists_of_prepare hb
  obtain ⟨hwalked, -⟩ := LiveDump.returned_of_addThreadsToCore hs₀
  have hb' : (task.walked modules rounds).prepare task.live.debug = .ok (some b) := by
    rw [hb, Option.some.injEq] at hprepare'
    exact hprepare'.symm
  have hrun := runOps_of_writeDump hb' hdump'
  rw [hpos] at hrun
  obtain ⟨s, hshows, hread⟩ := exists_readCore hb'
    (wellPlaced_of_runOps (prepare_put hb') hfits hrun) hmain
  refine ⟨s, hread, fun s' => ?_⟩
  rw [← shows_iff hcreate hvalid hwalked]
  refine ⟨fun hs => hs.unique hmain hshows, ?_⟩
  rintro rfl
  exact hshows

end TaskDump

/-- An executable with `dyld` behind it, the infos, their array, and a path at the end of the
page. -/
def imagesPage : AddressSpace where
  regions := [⟨0x1000, 0x1000, ⟨1, 0⟩⟩]
  byte a :=
    if a < 0x1FF8 then
      (smallImage ++ MachHeader64.bytes
          { magic := MH_MAGIC_64, cputype := Arch.arm64.cputype, cpusubtype := Arch.arm64.cpusubtype
            filetype := 7, ncmds := 0, sizeofcmds := 0, flags := 0, reserved := 0 }
        ++ (le32 14 ++ le32 1 ++ le64 0x1240 ++ List.replicate 16 0 ++ le64 0x10B0
          ++ List.replicate 328 0)
        ++ (le64 0x1000 ++ le64 0x1FF8 ++ le64 0)).getD (a - 0x1000).toNat 0
    else (ascii "/bin/a").getD (a - 0x1FF8).toNat 0
  nonempty := by decide
  aligned := by decide
  fits := by decide
  ascending := by decide

/-- A task with one thread. Its infos are of a version that has no path for `dyld`. -/
def smallTask : TaskDump .arm64 where
  live :=
    { env :=
        { pidForTask := true
          suspended := true
          target :=
            { space := imagesPage, uninitialized := ⟨0, 0⟩, threads := some [zeroThread 1]
              threadSelf := 1, walkStack := fun _ _ => [], modules := noModules
              nAddrableBits := some 47 }
          crash := none }
      xpaci := id
      debug := false }
  dyldInfoAddress := some 0x10D0
  infosSize := 368
  decodeInfos l := ⟨u32At l 0, u32At l 4, u64At l 8, u64At l 32, u64At l 192⟩

/-- Is there one main executable, and a dump within so many rounds, with a layout that fits? -/
def TaskDump.succeeds {arch : Arch} (task : TaskDump arch) (rounds : ℕ) : Bool :=
  match ModuleList.create task.live.debug task.reads, task.prepare rounds,
    task.miniDumpWriteDumpImpl rounds FileStream.empty with
  | .ok modules, some (.ok (some b)), some (.ok (true, _)) =>
    modules.infos.countP (·.isMainExecutable) == 1 && decide (Fits b)
  | _, _, _ => false

theorem succeeds_smallTask : smallTask.succeeds 1 = true := by decide +kernel

theorem readCore_taskDump_smallTask :
    ∃ modules f', smallTask.miniDumpWriteDumpImpl 1 FileStream.empty = some (.ok (true, f'))
      ∧ ∃ s, readCore .arm64 f'.content = some s ∧ ∀ s', smallTask.Shows modules s' ↔ s' = s := by
  have hsucceeds := succeeds_smallTask
  unfold TaskDump.succeeds at hsucceeds
  split at hsucceeds
  · rename_i modules b f' hcreate hb hf
    rw [Bool.and_eq_true, beq_iff_eq, decide_eq_true_eq] at hsucceeds
    exact ⟨modules, f', hf,
      TaskDump.readCore_taskDump hcreate hsucceeds.1 hb hf rfl hsucceeds.2⟩
  · cases hsucceeds

end MacMiniDump
