import MacMiniDump.CreateModuleInfo

/-!
# The constructor of `ModuleList`

`dyld` comes first, as it is not among the images it lists, and then every image of the array. One
that cannot be read empties the list. So a list that is not empty has them all, and of images that
are listed with one load address it has the first (`create_completeOrEmpty`).
-/

namespace MacMiniDump

/-- What is used of `dyld_all_image_infos`. -/
structure DyldAllImageInfos where
  version : UInt32
  infoArrayCount : UInt32
  infoArray : UInt64
  dyldImageLoadAddress : UInt64
  dyldPath : UInt64

/-- What is used of `dyld_image_info`. -/
structure DyldImageInfo where
  imageLoadAddress : UInt64
  imageFilePath : UInt64

namespace DyldImageInfo

/-- `sizeof (dyld_image_info)` -/
def sizeOf : ℕ := 24

def decode (l : List UInt8) : DyldImageInfo where
  imageLoadAddress := u64At l 0
  imageFilePath := u64At l 8

end DyldImageInfo

/-- What comes of everything that the constructor asks the system for: of all images, `dyld` is the
one at zero. -/
structure TargetReads where
  /-- `task_info`, for the address of the infos -/
  taskInfo : Option UInt64
  /-- `ReadProcessMemoryInto`, of the infos -/
  imageInfo : UInt64 → Option DyldAllImageInfos
  /-- `ReadProcessMemory`, of the array -/
  array : UInt64 → UInt64 → Option (List UInt8)
  image : ℕ → ImageReads

def dyldDefaultPath : List UInt8 := ascii "/usr/lib/dyld"

/-- A path that is there from version 15 on, if it can be read. -/
def dyldImagePath (reads : ImageReads) (imageInfo : DyldAllImageInfos) : List UInt8 :=
  if imageInfo.version ≥ 15 then (reads.path imageInfo.dyldPath).getD dyldDefaultPath
  else dyldDefaultPath

/-- The loop over the array, from the image `i` on; none for a list that is invalidated. -/
def addImages (image : ℕ → ImageReads) :
    List DyldImageInfo → ℕ → List (UInt64 × ModuleInfo) →
      Except Fault (Option (List (UInt64 × ModuleInfo)))
  | [], _, moduleInfos => .ok (some moduleInfos)
  | info :: infos, i, moduleInfos =>
    match createModuleInfoAt (image i) info.imageLoadAddress info.imageFilePath with
    | .error e => .error e
    | .ok none => .ok none
    | .ok (some moduleInfo) =>
      addImages image infos (i + 1) (insertNew moduleInfo.loadAddress moduleInfo moduleInfos)

def imageInfoArray (imageInfo : DyldAllImageInfos) (dyldInfosBytes : List UInt8) :
    List DyldImageInfo :=
  (records DyldImageInfo.sizeOf imageInfo.infoArrayCount.toNat dyldInfosBytes).map
    DyldImageInfo.decode

def arraySize (imageInfo : DyldAllImageInfos) : UInt64 :=
  imageInfo.infoArrayCount.toUInt64 * UInt64.ofNat DyldImageInfo.sizeOf

/-- The map after the constructor. -/
def createModuleInfos (debug : Bool) (t : TargetReads) :
    Except Fault (List (UInt64 × ModuleInfo)) :=
  match t.taskInfo with
  | none => .ok []
  | some dyldInfoAddress =>
    match t.imageInfo dyldInfoAddress with
    | none => .ok []
    | some imageInfo =>
      match t.array imageInfo.infoArray (arraySize imageInfo) with
      | none => .ok []
      | some dyldInfosBytes =>
        if debug = true ∧ imageInfo.version < 9 then .error .assertion
        else
          match createModuleInfo (t.image 0) imageInfo.dyldImageLoadAddress
            (dyldImagePath (t.image 0) imageInfo) with
          | .error e => .error e
          | .ok none => .ok []
          | .ok (some dyldModuleInfo) =>
            match addImages t.image (imageInfoArray imageInfo dyldInfosBytes) 1
              (insertNew dyldModuleInfo.loadAddress dyldModuleInfo []) with
            | .error e => .error e
            | .ok none => .ok []
            | .ok (some moduleInfos) => .ok moduleInfos

/-- The map is one of a `ModuleList`. -/
structure Listable (n : ℕ) (moduleInfos : List (UInt64 × ModuleInfo)) : Prop where
  ordered : Ordered moduleInfos
  keyed : ∀ i ∈ moduleInfos, i.1 = i.2.loadAddress
  count : moduleInfos.length ≤ n

theorem Listable.nil (n : ℕ) : Listable n [] :=
  ⟨List.Pairwise.nil, fun _ h => absurd h List.not_mem_nil, Nat.zero_le n⟩

theorem Listable.insertNew {n : ℕ} {m : List (UInt64 × ModuleInfo)} (h : Listable n m)
    (mi : ModuleInfo) : Listable (n + 1) (insertNew mi.loadAddress mi m) := by
  refine ⟨ordered_insertNew h.ordered _ _, fun i hi => ?_, ?_⟩
  · rcases (mem_insertNew h.ordered).1 hi with hi | ⟨rfl, -⟩
    · exact h.keyed i hi
    · rfl
  · exact (length_insertNew_le h.ordered _ _).trans (Nat.succ_le_succ h.count)

theorem Listable.mono {n n' : ℕ} {m : List (UInt64 × ModuleInfo)} (h : Listable n m) (hn : n ≤ n') :
    Listable n' m := ⟨h.ordered, h.keyed, h.count.trans hn⟩

theorem listable_addImages {image : ℕ → ImageReads} :
    ∀ (infos : List DyldImageInfo) (i n : ℕ) {m m' : List (UInt64 × ModuleInfo)}, Listable n m →
      addImages image infos i m = .ok (some m') → Listable (n + infos.length) m'
  | [], _, _, m, m', hm, h => by
    obtain rfl := Option.some.inj (Except.ok.inj h)
    exact hm
  | info :: infos, i, n, m, m', hm, h => by
    rw [addImages] at h
    rcases hmi : createModuleInfoAt (image i) info.imageLoadAddress info.imageFilePath
        with e | _ | mi
    · simp [hmi] at h
    · simp [hmi] at h
    · rw [hmi] at h
      have hrest := listable_addImages infos (i + 1) (n + 1) (hm.insertNew mi) h
      rw [List.length_cons]
      exact hrest.mono (by omega)

theorem listable_createModuleInfos {debug : Bool} {t : TargetReads}
    {moduleInfos : List (UInt64 × ModuleInfo)} (h : createModuleInfos debug t = .ok moduleInfos) :
    Listable (2 ^ 32) moduleInfos := by
  have hempty : Except.ok [] = (.ok moduleInfos : Except Fault _) →
      Listable (2 ^ 32) moduleInfos := by
    intro h
    obtain rfl := Except.ok.inj h
    exact .nil _
  unfold createModuleInfos at h
  split at h
  · exact hempty h
  · split at h
    · exact hempty h
    · rename_i imageInfo _
      split at h
      · exact hempty h
      · split_ifs at h
        split at h
        · cases h
        · exact hempty h
        · rename_i dyldModuleInfo _
          split at h
          · cases h
          · exact hempty h
          · rename_i m hadd
            obtain rfl := Except.ok.inj h
            have hm := listable_addImages _ _ 1 ((Listable.nil 0).insertNew dyldModuleInfo) hadd
            refine hm.mono ?_
            have hcount := imageInfo.infoArrayCount.toNat_lt
            simp only [imageInfoArray, records, List.length_map, List.length_range]
            omega

def ModuleList.create (debug : Bool) (t : TargetReads) : Except Fault ModuleList :=
  match h : createModuleInfos debug t with
  | .error e => .error e
  | .ok moduleInfos =>
    .ok
      { moduleInfos := moduleInfos
        ordered := (listable_createModuleInfos h).ordered
        keyed := (listable_createModuleInfos h).keyed
        count := (listable_createModuleInfos h).count }

/-- The header with the load commands, if both reads work. -/
def ImageReads.bytes (reads : ImageReads) (loadAddress : UInt64) : Option (List UInt8) :=
  (reads.header loadAddress).bind fun headerBytes => reads.block loadAddress (blockSize headerBytes)

/-- An image that has to be in the list, with its path if that can be read. -/
structure ListedImage where
  reads : ImageReads
  loadAddress : UInt64
  path : Option (List UInt8)
  noNul : ∀ {s}, path = some s → 0 ∉ s

namespace ListedImage

def bytes (c : ListedImage) : Option (List UInt8) := c.reads.bytes c.loadAddress

/-- All of the image can be read. -/
def Readable (c : ListedImage) : Prop := c.path ≠ none ∧ c.bytes ≠ none

def ofInfo (reads : ImageReads) (info : DyldImageInfo) : ListedImage where
  reads := reads
  loadAddress := info.imageLoadAddress
  path := reads.path info.imageFilePath
  noNul h := reads.noNul h

def ofDyld (reads : ImageReads) (imageInfo : DyldAllImageInfos) : ListedImage where
  reads := reads
  loadAddress := imageInfo.dyldImageLoadAddress
  path := some (dyldImagePath reads imageInfo)
  noNul := by
    intro s h
    obtain rfl := Option.some.inj h
    have hdefault : 0 ∉ dyldDefaultPath := by decide
    unfold dyldImagePath
    split_ifs
    · rcases hpath : reads.path imageInfo.dyldPath with _ | path
      · exact hdefault
      · exact reads.noNul hpath
    · exact hdefault

end ListedImage

def listedFrom (image : ℕ → ImageReads) : List DyldImageInfo → ℕ → List ListedImage
  | [], _ => []
  | info :: infos, i => .ofInfo (image i) info :: listedFrom image infos (i + 1)

namespace TargetReads

/-- The infos and the array, if they can be read. -/
def dyldInfos (t : TargetReads) : Option (DyldAllImageInfos × List UInt8) :=
  (t.taskInfo.bind t.imageInfo).bind fun imageInfo =>
    (t.array imageInfo.infoArray (arraySize imageInfo)).map (imageInfo, ·)

def listed (t : TargetReads) (imageInfo : DyldAllImageInfos) (dyldInfosBytes : List UInt8) :
    List ListedImage :=
  .ofDyld (t.image 0) imageInfo :: listedFrom t.image (imageInfoArray imageInfo dyldInfosBytes) 1

/-- Nothing that is read of the target fails, but for the path of `dyld`. -/
def AllRead (t : TargetReads) : Prop :=
  ∃ imageInfo dyldInfosBytes, t.dyldInfos = some (imageInfo, dyldInfosBytes)
    ∧ ∀ c ∈ t.listed imageInfo dyldInfosBytes, c.Readable

end TargetReads

/-- The module is what was read of the image. -/
def ListedImage.ReadAs (c : ListedImage) (mi : ModuleInfo) : Prop :=
  ∃ path bytes, c.path = some path ∧ c.bytes = some bytes ∧ mi.filePath = path
    ∧ mi.MadeOf c.loadAddress path bytes

/-- The load addresses are those of the images, and each has the first image with that address. -/
structure ModuleList.CompleteFor (modules : ModuleList) (images : List ListedImage) : Prop where
  keys : ∀ a, a ∈ modules.moduleInfos.map Prod.fst ↔ a ∈ images.map ListedImage.loadAddress
  first : ∀ i ∈ modules.moduleInfos,
    ∃ c, images.find? (fun c => decide (c.loadAddress = i.1)) = some c ∧ c.ReadAs i.2

/-- The list has every image, or it is empty since something could not be read. -/
structure ModuleList.CompleteOrEmpty (modules : ModuleList) (t : TargetReads) : Prop where
  valid : modules.isValid = true ↔ t.AllRead
  empty : modules.isValid = false → modules.moduleInfos = []
  complete : modules.isValid = true → ∃ imageInfo dyldInfosBytes,
    t.dyldInfos = some (imageInfo, dyldInfosBytes)
      ∧ modules.CompleteFor (t.listed imageInfo dyldInfosBytes)

theorem createModuleInfo_none {reads : ImageReads} {loadAddress : UInt64}
    (h : reads.bytes loadAddress = none) (pImageFilePath : List UInt8) :
    createModuleInfo reads loadAddress pImageFilePath = .ok none := by
  unfold ImageReads.bytes at h
  unfold createModuleInfo
  rcases hheader : reads.header loadAddress with _ | headerBytes
  · rfl
  · simp only
    rw [hheader, Option.bind_some] at h
    split
    · rfl
    · rename_i rawBytes hblock
      rw [h] at hblock
      cases hblock

/-- Either the image is read, or something of it cannot be. -/
theorem createModuleInfo_cases {c : ListedImage} {path : List UInt8} (hpath : c.path = some path)
    (hw : ∀ bytes, c.bytes = some bytes → CommandsFormed bytes) :
    (∃ mi, createModuleInfo c.reads c.loadAddress path = .ok (some mi) ∧ c.ReadAs mi)
      ∨ ¬ c.Readable ∧ createModuleInfo c.reads c.loadAddress path = .ok none := by
  rcases hbytes : c.bytes with _ | bytes
  · exact .inr ⟨fun h => h.2 hbytes, createModuleInfo_none hbytes path⟩
  · obtain ⟨headerBytes, hheader, hblock⟩ := Option.bind_eq_some_iff.1 hbytes
    obtain ⟨mi, hcreate, hmade⟩ := createModuleInfo_eq hheader hblock (hw bytes hbytes) path
    have hfile : mi.filePath = path := hmade.filePath.trans (cstr_of_zero_notMem (c.noNul hpath))
    exact .inl ⟨mi, hcreate, path, bytes, hpath, hbytes, hfile, hmade⟩

theorem createModuleInfoAt_cases {reads : ImageReads} {info : DyldImageInfo}
    (hw : ∀ bytes, (ListedImage.ofInfo reads info).bytes = some bytes → CommandsFormed bytes) :
    (∃ mi, createModuleInfoAt reads info.imageLoadAddress info.imageFilePath = .ok (some mi)
        ∧ (ListedImage.ofInfo reads info).ReadAs mi)
      ∨ ¬ (ListedImage.ofInfo reads info).Readable
        ∧ createModuleInfoAt reads info.imageLoadAddress info.imageFilePath = .ok none := by
  unfold createModuleInfoAt
  rcases hpath : reads.path info.imageFilePath with _ | path
  · exact .inr ⟨fun h => h.1 hpath, rfl⟩
  · exact createModuleInfo_cases (c := .ofInfo reads info) hpath hw

theorem ListedImage.ReadAs.readable {c : ListedImage} {mi : ModuleInfo} (h : c.ReadAs mi) :
    c.Readable := by
  obtain ⟨path, bytes, hpath, hbytes, -, -⟩ := h
  exact ⟨by rw [hpath]; exact Option.some_ne_none _, by rw [hbytes]; exact Option.some_ne_none _⟩

def addAll (mis : List ModuleInfo) (m : List (UInt64 × ModuleInfo)) : List (UInt64 × ModuleInfo) :=
  (mis.map fun mi => (mi.loadAddress, mi)).foldl (fun m e => insertNew e.1 e.2 m) m

theorem addImages_cases {image : ℕ → ImageReads} :
    ∀ (infos : List DyldImageInfo) (i : ℕ) (m : List (UInt64 × ModuleInfo)),
      (∀ c ∈ listedFrom image infos i, ∀ bytes, c.bytes = some bytes → CommandsFormed bytes) →
      (∃ mis, List.Forall₂ ListedImage.ReadAs (listedFrom image infos i) mis
          ∧ addImages image infos i m = .ok (some (addAll mis m)))
        ∨ (∃ c ∈ listedFrom image infos i, ¬ c.Readable) ∧ addImages image infos i m = .ok none
  | [], _, m, _ => .inl ⟨[], .nil, rfl⟩
  | info :: infos, i, m, hw => by
    obtain ⟨hinfo, hinfos⟩ := List.forall_mem_cons.1 hw
    rw [addImages]
    rcases createModuleInfoAt_cases hinfo with ⟨mi, hcreate, hread⟩ | ⟨hfail, hcreate⟩
    · rw [hcreate]
      rcases addImages_cases infos (i + 1) (insertNew mi.loadAddress mi m) hinfos with
        ⟨mis, hmis, hadd⟩ | ⟨⟨c, hc, hfail⟩, hadd⟩
      · exact .inl ⟨mi :: mis, .cons hread hmis, hadd⟩
      · exact .inr ⟨⟨c, List.mem_cons_of_mem _ hc, hfail⟩, hadd⟩
    · rw [hcreate]
      exact .inr ⟨⟨_, List.mem_cons_self, hfail⟩, rfl⟩

theorem map_loadAddress_eq {images : List ListedImage} {mis : List ModuleInfo}
    (h : List.Forall₂ ListedImage.ReadAs images mis) :
    images.map ListedImage.loadAddress = mis.map ModuleInfo.loadAddress := by
  induction h with
  | nil => rfl
  | cons hread _ ih =>
    obtain ⟨path, bytes, -, -, -, hmade⟩ := hread
    rw [List.map_cons, List.map_cons, ih, hmade.loadAddress]

theorem find?_forall₂ {images : List ListedImage} {mis : List ModuleInfo} {a : UInt64}
    {mi : ModuleInfo} (h : List.Forall₂ ListedImage.ReadAs images mis)
    (hfind : mis.find? (fun mi => decide (mi.loadAddress = a)) = some mi) :
    ∃ c, images.find? (fun c => decide (c.loadAddress = a)) = some c ∧ c.ReadAs mi := by
  induction h with
  | nil => simp at hfind
  | @cons c mi' images mis hread _ ih =>
    have haddr : mi'.loadAddress = c.loadAddress := by
      obtain ⟨path, bytes, -, -, -, hmade⟩ := hread
      exact hmade.loadAddress
    by_cases hca : c.loadAddress = a
    · rw [List.find?_cons_of_pos (by simpa [haddr] using hca)] at hfind
      obtain rfl := Option.some.inj hfind
      exact ⟨c, List.find?_cons_of_pos (by simpa using hca), hread⟩
    · rw [List.find?_cons_of_neg (by simpa [haddr] using hca)] at hfind
      rw [List.find?_cons_of_neg (by simpa using hca)]
      exact ih hfind

theorem ModuleList.completeFor_addAll {modules : ModuleList} {images : List ListedImage}
    {mis : List ModuleInfo} (h : List.Forall₂ ListedImage.ReadAs images mis)
    (hm : modules.moduleInfos = addAll mis []) : modules.CompleteFor images := by
  have hmem : ∀ i, i ∈ modules.moduleInfos
      ↔ mis.find? (fun mi => decide (mi.loadAddress = i.1)) = some i.2 := by
    intro i
    have hfold := mem_foldl_insertNew (mis.map fun mi => (mi.loadAddress, mi)) [] .nil i
    rw [← addAll, ← hm] at hfold
    have hcomp : (fun e : UInt64 × ModuleInfo => decide (e.1 = i.1)) ∘ (fun mi =>
        (mi.loadAddress, mi))
        = fun mi => decide (mi.loadAddress = i.1) := rfl
    simp only [hfold, List.find?_map, hcomp, List.not_mem_nil, false_imp_iff, implies_true,
      true_and, false_or, Option.map_eq_some_iff]
    constructor
    · rintro ⟨mi, hfind, rfl⟩
      exact hfind
    · intro hfind
      have haddr : i.2.loadAddress = i.1 := by simpa using List.find?_some hfind
      exact ⟨i.2, hfind, Prod.ext haddr rfl⟩
  refine ⟨fun a => ?_, fun i hi => find?_forall₂ h ((hmem i).1 hi)⟩
  rw [map_loadAddress_eq h]
  constructor
  · intro ha
    obtain ⟨i, hi, rfl⟩ := List.mem_map.1 ha
    have hfind := (hmem i).1 hi
    exact List.mem_map.2 ⟨i.2, List.mem_of_find?_eq_some hfind, (modules.keyed i hi).symm⟩
  · intro ha
    obtain ⟨mi, hmi, rfl⟩ := List.mem_map.1 ha
    rcases hfind : mis.find? (fun mi' => decide (mi'.loadAddress = mi.loadAddress)) with _ | mi'
    · exact absurd (List.find?_eq_none.1 hfind mi hmi) (by simp)
    · exact List.mem_map.2 ⟨(mi.loadAddress, mi'), (hmem _).2 hfind, rfl⟩

theorem ModuleList.create_eq {debug : Bool} {t : TargetReads} {m : List (UInt64 × ModuleInfo)}
    (h : createModuleInfos debug t = .ok m) :
    ∃ modules, ModuleList.create debug t = .ok modules ∧ modules.moduleInfos = m := by
  unfold ModuleList.create
  split
  · rename_i e he
    rw [h] at he
    cases he
  · rename_i m' hm
    obtain rfl := Except.ok.inj (h.symm.trans hm)
    exact ⟨_, rfl, rfl⟩

theorem createModuleInfos_none {debug : Bool} {t : TargetReads} (h : t.dyldInfos = none) :
    createModuleInfos debug t = .ok [] := by
  unfold TargetReads.dyldInfos at h
  unfold createModuleInfos
  rcases hinfo : t.taskInfo with _ | dyldInfoAddress
  · rfl
  rw [hinfo, Option.bind_some] at h
  rcases himage : t.imageInfo dyldInfoAddress with _ | imageInfo
  · simp [himage]
  rw [himage, Option.bind_some, Option.map_eq_none_iff] at h
  simp [himage, h]

/-- With the infos and the array, the images are read one after another. -/
theorem createModuleInfos_cases {debug : Bool} {t : TargetReads} {imageInfo : DyldAllImageInfos}
    {dyldInfosBytes : List UInt8} (h : t.dyldInfos = some (imageInfo, dyldInfosBytes))
    (hversion : 9 ≤ imageInfo.version)
    (hw : ∀ c ∈ t.listed imageInfo dyldInfosBytes, ∀ bytes, c.bytes = some bytes →
      CommandsFormed bytes) :
    (∃ mis, List.Forall₂ ListedImage.ReadAs (t.listed imageInfo dyldInfosBytes) mis
        ∧ createModuleInfos debug t = .ok (addAll mis []))
      ∨ (∃ c ∈ t.listed imageInfo dyldInfosBytes, ¬ c.Readable)
        ∧ createModuleInfos debug t = .ok [] := by
  obtain ⟨imageInfo', hinfo, hmap⟩ := Option.bind_eq_some_iff.1 h
  obtain ⟨dyldInfoAddress, htask, himage⟩ := Option.bind_eq_some_iff.1 hinfo
  obtain ⟨bytes', harray, heq⟩ := Option.map_eq_some_iff.1 hmap
  obtain ⟨rfl, rfl⟩ := Prod.mk.inj heq
  have hnew : ¬ (debug = true ∧ imageInfo'.version < 9) := fun h => UInt32.not_lt.2 hversion h.2
  obtain ⟨hdyld, hinfos⟩ := List.forall_mem_cons.1 hw
  unfold createModuleInfos
  simp only [htask, himage, harray, if_neg hnew]
  rcases createModuleInfo_cases (c := .ofDyld (t.image 0) imageInfo') rfl hdyld with
    ⟨mi, hcreate, hread⟩ | ⟨hfail, hcreate⟩
  · have hcreate' : createModuleInfo (t.image 0) imageInfo'.dyldImageLoadAddress
        (dyldImagePath (t.image 0) imageInfo') = .ok (some mi) := hcreate
    simp only [hcreate']
    rcases addImages_cases (imageInfoArray imageInfo' bytes') 1 (insertNew mi.loadAddress mi [])
      hinfos with ⟨mis, hmis, hadd⟩ | ⟨⟨c, hc, hfail⟩, hadd⟩
    · rw [hadd]
      exact .inl ⟨mi :: mis, .cons hread hmis, rfl⟩
    · rw [hadd]
      exact .inr ⟨⟨c, List.mem_cons_of_mem _ hc, hfail⟩, rfl⟩
  · have hcreate' : createModuleInfo (t.image 0) imageInfo'.dyldImageLoadAddress
        (dyldImagePath (t.image 0) imageInfo') = .ok none := hcreate
    simp only [hcreate']
    exact .inr ⟨⟨_, List.mem_cons_self, hfail⟩, trivial⟩

theorem readable_of_forall₂ {images : List ListedImage} {mis : List ModuleInfo}
    (h : List.Forall₂ ListedImage.ReadAs images mis) : ∀ c ∈ images, c.Readable := by
  induction h with
  | nil => exact fun c hc => absurd hc List.not_mem_nil
  | cons hread _ ih => exact List.forall_mem_cons.2 ⟨hread.readable, ih⟩

theorem ModuleList.CompleteFor.isValid {modules : ModuleList} {images : List ListedImage}
    (h : modules.CompleteFor images) (hne : images ≠ []) : modules.isValid = true := by
  obtain ⟨c, cs, rfl⟩ := List.exists_cons_of_ne_nil hne
  have hkey := (h.keys c.loadAddress).2 List.mem_cons_self
  rcases hm : modules.moduleInfos with _ | ⟨i, is⟩
  · rw [hm] at hkey
    cases hkey
  · rw [ModuleList.isValid, hm]
    rfl

theorem ModuleList.CompleteOrEmpty.of_nil {modules : ModuleList} {t : TargetReads}
    (hm : modules.moduleInfos = []) (hnot : ¬ t.AllRead) : modules.CompleteOrEmpty t := by
  have hinvalid : modules.isValid ≠ true := by
    rw [ModuleList.isValid, hm]
    exact Bool.false_ne_true
  exact ⟨iff_of_false hinvalid hnot, fun _ => hm, fun h => absurd h hinvalid⟩

/-- A list that is valid has every image, the first of each load address, and it is valid exactly
when nothing failed. -/
theorem create_completeOrEmpty {t : TargetReads}
    (hversion : ∀ imageInfo dyldInfosBytes, t.dyldInfos = some (imageInfo, dyldInfosBytes) →
      9 ≤ imageInfo.version)
    (hw : ∀ imageInfo dyldInfosBytes, t.dyldInfos = some (imageInfo, dyldInfosBytes) →
      ∀ c ∈ t.listed imageInfo dyldInfosBytes, ∀ bytes, c.bytes = some bytes → CommandsFormed bytes)
    (debug : Bool) :
    ∃ modules, ModuleList.create debug t = .ok modules ∧ modules.CompleteOrEmpty t := by
  rcases hinfos : t.dyldInfos with _ | ⟨imageInfo, dyldInfosBytes⟩
  · obtain ⟨modules, hcreate, hm⟩ := ModuleList.create_eq (createModuleInfos_none hinfos)
    refine ⟨modules, hcreate, .of_nil hm ?_⟩
    rintro ⟨imageInfo, dyldInfosBytes, h, -⟩
    rw [hinfos] at h
    cases h
  · have hall : t.AllRead ↔ ∀ c ∈ t.listed imageInfo dyldInfosBytes, c.Readable := by
      constructor
      · rintro ⟨imageInfo', dyldInfosBytes', h, hread⟩
        obtain ⟨rfl, rfl⟩ := Prod.mk.inj (Option.some.inj (hinfos.symm.trans h))
        exact hread
      · exact fun hread => ⟨imageInfo, dyldInfosBytes, hinfos, hread⟩
    rcases createModuleInfos_cases hinfos (hversion _ _ hinfos) (hw _ _ hinfos) with
      ⟨mis, hmis, h⟩ | ⟨⟨c, hc, hfail⟩, h⟩
    · obtain ⟨modules, hcreate, hm⟩ := ModuleList.create_eq h
      have hcomplete := ModuleList.completeFor_addAll hmis hm
      have hvalid := hcomplete.isValid (List.cons_ne_nil _ _)
      refine ⟨modules, hcreate, iff_of_true hvalid (hall.2 (readable_of_forall₂ hmis)),
        fun hnot => ?_, fun _ => ⟨imageInfo, dyldInfosBytes, hinfos, hcomplete⟩⟩
      rw [hvalid] at hnot
      cases hnot
    · obtain ⟨modules, hcreate, hm⟩ := ModuleList.create_eq h
      exact ⟨modules, hcreate, .of_nil hm fun hread => hfail (hall.1 hread c hc)⟩

/-- `dyld`, listed once more, and an image that is listed twice. -/
def smallTarget : TargetReads where
  taskInfo := some 0x100
  imageInfo _ := some
    { version := 15, infoArrayCount := 3, infoArray := 0x200, dyldImageLoadAddress := 0x7000
      dyldPath := 0x300 }
  array _ _ := some
    (le64 0x5000 ++ le64 0x300 ++ le64 0 ++ (le64 0x7000 ++ le64 0x300 ++ le64 0)
      ++ (le64 0x5000 ++ le64 0x300 ++ le64 0))
  image _ := smallReads

example : (createModuleInfos false smallTarget).map (·.map Prod.fst) = .ok [0x5000, 0x7000] := by
  decide +kernel

theorem reads_listedFrom {image : ℕ → ImageReads} :
    ∀ (infos : List DyldImageInfo) (i : ℕ), ∀ c ∈ listedFrom image infos i, ∃ j, c.reads = image j
  | info :: infos, i, c, hc => by
    rcases List.mem_cons.1 hc with rfl | hc
    · exact ⟨i, rfl⟩
    · exact reads_listedFrom infos (i + 1) c hc

theorem commandsFormed_smallTarget {imageInfo : DyldAllImageInfos}
    {dyldInfosBytes bytes : List UInt8}
    {c : ListedImage} (hc : c ∈ smallTarget.listed imageInfo dyldInfosBytes)
    (hbytes : c.bytes = some bytes) : CommandsFormed bytes := by
  have hreads : c.reads = smallReads := by
    rcases List.mem_cons.1 hc with rfl | hc
    · rfl
    · obtain ⟨j, hj⟩ := reads_listedFrom _ 1 c hc
      exact hj
  obtain ⟨headerBytes, -, hblock⟩ := Option.bind_eq_some_iff.1 hbytes
  rw [hreads] at hblock
  have hraw : bytes = smallImage := by
    simp only [smallReads] at hblock
    split_ifs at hblock
    exact (Option.some.inj hblock).symm
  rw [hraw]
  exact commandsFormed_smallImage

theorem create_completeOrEmpty_smallTarget :
    ∃ modules, ModuleList.create false smallTarget = .ok modules
      ∧ modules.CompleteOrEmpty smallTarget := by
  refine create_completeOrEmpty (fun imageInfo dyldInfosBytes h => ?_)
    (fun _ _ _ c hc bytes hbytes => commandsFormed_smallTarget hc hbytes) false
  obtain ⟨rfl, -⟩ := Prod.mk.inj (Option.some.inj h)
  decide

end MacMiniDump
