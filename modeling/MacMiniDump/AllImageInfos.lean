import MacMiniDump.Lib.Loop
import MacMiniDump.Lib.Pieces
import MacMiniDump.Payloads

/-!
# The payload of "all image infos"

A header, one entry for each image but the main executable, the segments of all of them, and their
paths. Three passes over the images fill a buffer of the size found by a first one, with offsets
kept apart for the buffer and for the file. What they leave is what comes of storing the pieces of
the payload into zeros (`createAllImageInfosPayload_stores`). With one main executable the four
areas tile the buffer, and a reader of the file finds the images again
(`createAllImageInfosPayload_reads`).
-/

namespace MacMiniDump

structure AllImageInfosHeader where
  version : UInt32
  imgcount : UInt32
  entries_fileoff : UInt64
  entries_size : UInt32
  reserved : UInt32
  deriving DecidableEq, Repr

structure ImageEntry where
  filepath_offset : UInt64
  uuid : Vector UInt8 16
  load_address : UInt64
  seg_addrs_offset : UInt64
  segment_count : UInt32
  reserved : UInt32
  deriving DecidableEq, Repr

structure SegmentVMAddr where
  segname : Vector UInt8 16
  vmaddr : UInt64
  unused : UInt64
  deriving DecidableEq, Repr

/-- `sizeof (AllImageInfosHeader)` -/
def AllImageInfosHeader.sizeOf : ℕ := 24

/-- `sizeof (ImageEntry)` -/
def ImageEntry.sizeOf : ℕ := 48

/-- `sizeof (SegmentVMAddr)` -/
def SegmentVMAddr.sizeOf : ℕ := 32

def AllImageInfosHeader.bytes (h : AllImageInfosHeader) : List UInt8 :=
  le32 h.version ++ le32 h.imgcount ++ le64 h.entries_fileoff ++ le32 h.entries_size
    ++ le32 h.reserved

def ImageEntry.bytes (e : ImageEntry) : List UInt8 :=
  le64 e.filepath_offset ++ e.uuid.toList ++ le64 e.load_address ++ le64 e.seg_addrs_offset
    ++ le32 e.segment_count ++ le32 e.reserved

def SegmentVMAddr.bytes (s : SegmentVMAddr) : List UInt8 :=
  s.segname.toList ++ le64 s.vmaddr ++ le64 s.unused

@[simp] theorem AllImageInfosHeader.length_bytes (h : AllImageInfosHeader) :
    h.bytes.length = sizeOf := by simp [bytes, sizeOf]

@[simp] theorem ImageEntry.length_bytes (e : ImageEntry) : e.bytes.length = sizeOf := by
  simp [bytes, sizeOf]

@[simp] theorem SegmentVMAddr.length_bytes (s : SegmentVMAddr) : s.bytes.length = sizeOf := by
  simp [bytes, sizeOf]

def SegmentInfo.vmAddr (s : SegmentInfo) : SegmentVMAddr where
  segname := ⟨(strncpy 16 s.segmentName.toList).toArray, by simp⟩
  vmaddr := s.address
  unused := 0

/-- What the first pass finds. -/
structure Tally where
  nSegments : ℕ := 0
  modulePathsSize : ℕ := 0
  segmentListList : List (List SegmentVMAddr) := []

def Tally.add (t : Tally) (moduleInfo : ModuleInfo) : Tally :=
  if moduleInfo.isMainExecutable then t
  else
    { nSegments := t.nSegments + moduleInfo.segments.length
      modulePathsSize := t.modulePathsSize + (moduleInfo.filePath.length + 1)
      segmentListList := t.segmentListList ++ [moduleInfo.segments.map SegmentInfo.vmAddr] }

/-- `memcpy (&result[offset], ...)` -/
def store (offset : ℕ) (d result : List UInt8) : Except Fault (List UInt8) :=
  if result.length < offset + d.length then .error .overwrite
  else .ok (result.take offset ++ d ++ result.drop (offset + d.length))

/-- The buffer with the place where the next piece goes. -/
structure Cursor where
  memOffset : ℕ
  result : List UInt8

def Cursor.put (c : Cursor) (d : List UInt8) : Except Fault Cursor :=
  (store c.memOffset d c.result).map fun result => ⟨c.memOffset + d.length, result⟩

/-- The state of the second pass. -/
structure EntryCursor extends Cursor where
  modulePathOffset : UInt64
  segAddrsOffset : UInt64

def imageEntry (modulePathOffset segAddrsOffset : UInt64) (moduleInfo : ModuleInfo) :
    ImageEntry where
  filepath_offset := modulePathOffset
  uuid := moduleInfo.uuid
  load_address := moduleInfo.loadAddress
  seg_addrs_offset := segAddrsOffset
  segment_count := UInt32.ofNat moduleInfo.segments.length
  reserved := if moduleInfo.executing then 1 else 0

/-- The body of the second pass. -/
def putImageEntry (moduleInfo : ModuleInfo) (c : EntryCursor) : Except Fault (Bool × EntryCursor) :=
  if moduleInfo.isMainExecutable then .ok (true, c)
  else
    let entry := imageEntry c.modulePathOffset c.segAddrsOffset moduleInfo
    (c.toCursor.put entry.bytes).map fun cursor =>
      (true,
        { toCursor := cursor
          modulePathOffset := c.modulePathOffset + UInt64.ofNat (moduleInfo.filePath.length + 1)
          segAddrsOffset := c.segAddrsOffset
            + entry.segment_count.toUInt64 * UInt64.ofNat SegmentVMAddr.sizeOf })

def putSegment (segment : SegmentVMAddr) (c : Cursor) : Except Fault (Bool × Cursor) :=
  (c.put segment.bytes).map (true, ·)

/-- The body of the last pass; `strcpy` copies up to and with the terminator. -/
def putModulePath (moduleInfo : ModuleInfo) (c : Cursor) : Except Fault (Bool × Cursor) :=
  if moduleInfo.isMainExecutable then .ok (true, c)
  else (c.put (cstr moduleInfo.filePath ++ [0])).map (true, ·)

def createAllImageInfosPayload (payloadOffset : UInt64) (modules : ModuleList) :
    Except Fault (List UInt8) :=
  if !modules.isValid then .ok []
  else do
    -- the main binary is left to the "main bin spec" note
    let nModules := modules.getSize - 1
    let header : AllImageInfosHeader :=
      { version := 1
        imgcount := UInt32.ofNat nModules
        entries_fileoff := payloadOffset + UInt64.ofNat AllImageInfosHeader.sizeOf
        entries_size := UInt32.ofNat ImageEntry.sizeOf
        reserved := 0 }
    let tally := modules.infos.foldl Tally.add {}
    let imageEntriesSize := nModules * ImageEntry.sizeOf
    let segmentEntriesSize := tally.nSegments * SegmentVMAddr.sizeOf
    let payloadSize :=
      AllImageInfosHeader.sizeOf + imageEntriesSize + segmentEntriesSize + tally.modulePathsSize
    let afterHeader ← (⟨0, List.replicate payloadSize 0⟩ : Cursor).put header.bytes
    let modulePathOffset :=
      payloadOffset + UInt64.ofNat payloadSize - UInt64.ofNat tally.modulePathsSize
    let (_, afterEntries) ← forEach putImageEntry modules.infos
      { toCursor := afterHeader
        modulePathOffset := modulePathOffset
        segAddrsOffset := modulePathOffset - UInt64.ofNat segmentEntriesSize }
    let (_, afterSegments) ← forEach (forEach putSegment) tally.segmentListList
      ⟨AllImageInfosHeader.sizeOf + imageEntriesSize, afterEntries.result⟩
    let (_, afterPaths) ← forEach putModulePath modules.infos
      ⟨payloadSize - tally.modulePathsSize, afterSegments.result⟩
    return afterPaths.result

/-! ## The areas -/

/-- The images that have an entry. -/
def images (modules : List ModuleInfo) : List ModuleInfo :=
  modules.filter fun m => !m.isMainExecutable

def segmentArea (modules : List ModuleInfo) : List UInt8 :=
  modules.flatMap fun m => (m.segments.map SegmentInfo.vmAddr).flatMap SegmentVMAddr.bytes

def pathArea (modules : List ModuleInfo) : List UInt8 :=
  modules.flatMap fun m => m.filePath ++ [0]

/-- The entries of images whose paths and segments start at these offsets. -/
def imageEntries : UInt64 → UInt64 → List ModuleInfo → List ImageEntry
  | _, _, [] => []
  | pathOffset, segAddrsOffset, m :: ms =>
    imageEntry pathOffset segAddrsOffset m
      :: imageEntries (pathOffset + UInt64.ofNat (m.filePath.length + 1))
        (segAddrsOffset + UInt64.ofNat (m.segments.length * SegmentVMAddr.sizeOf)) ms

theorem length_flatMap_of_const {α β : Type*} {f : α → List β} {w : ℕ}
    (hf : ∀ a, (f a).length = w) (l : List α) : (l.flatMap f).length = l.length * w := by
  induction l with
  | nil => simp
  | cons a l ih =>
    rw [List.flatMap_cons, List.length_append, hf, ih, List.length_cons, Nat.succ_mul, Nat.add_comm]

@[simp] theorem length_imageEntries :
    ∀ (ms : List ModuleInfo) (p s : UInt64), (imageEntries p s ms).length = ms.length
  | [], _, _ => rfl
  | _ :: ms, _, _ => congrArg (· + 1) (length_imageEntries ms _ _)

theorem foldl_tally :
    ∀ (ms : List ModuleInfo) (t : Tally), ms.foldl Tally.add t =
      { nSegments := t.nSegments + ((images ms).map (·.segments.length)).sum
        modulePathsSize := t.modulePathsSize + (pathArea (images ms)).length
        segmentListList := t.segmentListList
          ++ (images ms).map fun m => m.segments.map SegmentInfo.vmAddr }
  | [], t => by simp [images, pathArea]
  | m :: ms, t => by
    rw [List.foldl_cons, foldl_tally ms]
    unfold Tally.add images pathArea
    by_cases hm : m.isMainExecutable
    · simp [hm]
    · simp [hm, Nat.add_assoc, Nat.add_comm]

theorem length_segmentArea :
    ∀ ms : List ModuleInfo, (segmentArea ms).length
      = (ms.map (·.segments.length)).sum * SegmentVMAddr.sizeOf
  | [] => rfl
  | m :: ms => by
    have ih := length_segmentArea ms
    unfold segmentArea at ih ⊢
    rw [List.flatMap_cons, List.length_append, ih,
      length_flatMap_of_const SegmentVMAddr.length_bytes, List.length_map, List.map_cons,
      List.sum_cons, Nat.add_mul]

/-- The buffer of which these bytes have been filled. -/
def Cursor.filled (total : ℕ) (w : List UInt8) : Cursor where
  memOffset := w.length
  result := w ++ List.replicate (total - w.length) 0

/-- The next piece is stored behind what has been filled. -/
theorem store_filled (total : ℕ) {w d : List UInt8} (h : w.length + d.length ≤ total) :
    store w.length d (Cursor.filled total w).result
      = .ok (Cursor.filled total (w ++ d)).result := by
  have hroom : ¬ (w ++ List.replicate (total - w.length) (0 : UInt8)).length
      < w.length + d.length := by
    rw [List.length_append, List.length_replicate]
    omega
  have hdrop : (w ++ List.replicate (total - w.length) (0 : UInt8)).drop (w.length + d.length)
      = List.replicate (total - (w ++ d).length) 0 := by
    rw [← List.drop_drop, List.drop_left, List.drop_replicate, List.length_append, Nat.sub_sub]
  rw [Cursor.filled, Cursor.filled, store, if_neg hroom, List.take_left, hdrop]

/-- The pieces are stored one after another. -/
def storeAll : List (ℕ × List UInt8) → List UInt8 → Except Fault (List UInt8)
  | [], result => .ok result
  | (offset, d) :: pieces, result =>
    match store offset d result with
    | .error e => .error e
    | .ok result => storeAll pieces result

theorem storeAll_append :
    ∀ (ps qs : List (ℕ × List UInt8)) (r : List UInt8),
      storeAll (ps ++ qs) r = storeAll ps r >>= storeAll qs
  | [], _, _ => rfl
  | (offset, d) :: ps, qs, r => by
    rw [List.cons_append, storeAll, storeAll]
    rcases store offset d r with e | r'
    · rfl
    · exact storeAll_append ps qs r'

theorem storeAll_laidOut (total : ℕ) :
    ∀ (ds : List (List UInt8)) (w : List UInt8), w.length + ds.flatten.length ≤ total →
      storeAll (laidOut w.length ds) (Cursor.filled total w).result
        = .ok (Cursor.filled total (w ++ ds.flatten)).result
  | [], w, _ => by rw [laidOut, storeAll, List.flatten_nil, List.append_nil]
  | d :: ds, w, h => by
    rw [List.flatten_cons, List.length_append] at h
    have hrest := storeAll_laidOut total ds (w ++ d) (by rw [List.length_append]; omega)
    rw [List.length_append] at hrest
    rw [laidOut, storeAll, store_filled total (by omega)]
    simp only []
    rw [hrest, List.flatten_cons, List.append_assoc]

/-- Pieces laid out in a buffer of zeros as large as they are leave none of them. -/
theorem storeAll_zeros (ds : List (List UInt8)) :
    storeAll (laidOut 0 ds) (List.replicate ds.flatten.length 0) = .ok ds.flatten := by
  have h := storeAll_laidOut ds.flatten.length ds [] (by simp)
  simpa [Cursor.filled] using h

/-- As large as the segments of the module are in the payload. -/
theorem segment_count_mul (p s : UInt64) (m : ModuleInfo) :
    (imageEntry p s m).segment_count.toUInt64 * UInt64.ofNat SegmentVMAddr.sizeOf
      = UInt64.ofNat (m.segments.length * SegmentVMAddr.sizeOf) := by
  have hlt := m.segmentCount
  rw [UInt64.ofNat_mul, imageEntry]
  congr 1
  rw [← UInt64.toNat_inj, UInt32.toNat_toUInt64, UInt32.toNat_ofNat', UInt64.toNat_ofNat',
    Nat.mod_eq_of_lt hlt, Nat.mod_eq_of_lt (by omega)]

theorem forEach_putImageEntry_eq :
    ∀ (ms : List ModuleInfo) (pos : ℕ) (r : List UInt8) (p s : UInt64),
      (forEach putImageEntry ms ⟨⟨pos, r⟩, p, s⟩).map (fun x => x.2.result)
        = storeAll (laidOut pos ((imageEntries p s (images ms)).map ImageEntry.bytes)) r
  | [], _, _, _, _ => rfl
  | m :: ms, pos, r, p, s => by
    by_cases hm : m.isMainExecutable = true
    · have himg : images (m :: ms) = images ms := by simp [images, hm]
      rw [himg]
      simp only [forEach, putImageEntry, hm, if_true]
      exact forEach_putImageEntry_eq ms pos r p s
    · have himg : images (m :: ms) = m :: images ms := by simp [images, hm]
      rw [himg, imageEntries, List.map_cons, laidOut, storeAll]
      simp only [forEach, putImageEntry, hm, Cursor.put, segment_count_mul]
      rcases store pos (imageEntry p s m).bytes r with e | r'
      · rfl
      · exact forEach_putImageEntry_eq ms _ r' _ _

theorem forEach_putSegment_eq :
    ∀ (segments : List SegmentVMAddr) (pos : ℕ) (r : List UInt8),
      forEach putSegment segments ⟨pos, r⟩
        = (storeAll (laidOut pos (segments.map SegmentVMAddr.bytes)) r).map fun r' =>
          (true, ⟨pos + (segments.map SegmentVMAddr.bytes).flatten.length, r'⟩)
  | [], _, _ => rfl
  | s :: segments, pos, r => by
    rw [List.map_cons, laidOut, storeAll, List.flatten_cons, List.length_append, ← Nat.add_assoc]
    simp only [forEach, putSegment, Cursor.put]
    rcases store pos s.bytes r with e | r'
    · rfl
    · exact forEach_putSegment_eq segments _ r'

theorem forEach_putSegments_eq :
    ∀ (ls : List (List SegmentVMAddr)) (pos : ℕ) (r : List UInt8),
      (forEach (forEach putSegment) ls ⟨pos, r⟩).map (fun x => x.2.result)
        = storeAll (laidOut pos (ls.flatten.map SegmentVMAddr.bytes)) r
  | [], _, _ => rfl
  | l :: ls, pos, r => by
    rw [List.flatten_cons, List.map_append, laidOut_append, storeAll_append]
    simp only [forEach, forEach_putSegment_eq]
    rcases storeAll (laidOut pos (l.map SegmentVMAddr.bytes)) r with e | r'
    · rfl
    · exact forEach_putSegments_eq ls _ r'

theorem forEach_putModulePath_eq :
    ∀ (ms : List ModuleInfo) (pos : ℕ) (r : List UInt8),
      (forEach putModulePath ms ⟨pos, r⟩).map (fun x => x.2.result)
        = storeAll (laidOut pos ((images ms).map fun m => m.filePath ++ [0])) r
  | [], _, _ => rfl
  | m :: ms, pos, r => by
    by_cases hm : m.isMainExecutable = true
    · have himg : images (m :: ms) = images ms := by simp [images, hm]
      rw [himg]
      simp only [forEach, putModulePath, hm, if_true]
      exact forEach_putModulePath_eq ms pos r
    · have himg : images (m :: ms) = m :: images ms := by simp [images, hm]
      rw [himg, List.map_cons, laidOut, storeAll]
      simp only [forEach, putModulePath, hm, Cursor.put, cstr_of_zero_notMem m.noNul]
      rcases store pos (m.filePath ++ [0]) r with e | r'
      · rfl
      · exact forEach_putModulePath_eq ms _ r'

def imageInfosHeader (payloadOffset : UInt64) (imgcount : ℕ) : AllImageInfosHeader where
  version := 1
  imgcount := UInt32.ofNat imgcount
  entries_fileoff := payloadOffset + UInt64.ofNat AllImageInfosHeader.sizeOf
  entries_size := UInt32.ofNat ImageEntry.sizeOf
  reserved := 0

/-- Where the segments of the images start, with room for all images but one before them. -/
def vmAddrsStart (modules : ModuleList) : ℕ :=
  AllImageInfosHeader.sizeOf + (modules.getSize - 1) * ImageEntry.sizeOf

def pathsStart (modules : ModuleList) : ℕ :=
  vmAddrsStart modules + (segmentArea (images modules.infos)).length

def payloadSize (modules : ModuleList) : ℕ :=
  pathsStart modules + (pathArea (images modules.infos)).length

section Pieces

variable (payloadOffset : UInt64) (modules : ModuleList)

/-- An entry for each image that is not a main executable. -/
def entryBytes : List (List UInt8) :=
  (imageEntries (payloadOffset + UInt64.ofNat (pathsStart modules))
    (payloadOffset + UInt64.ofNat (vmAddrsStart modules))
    (images modules.infos)).map ImageEntry.bytes

def imageEntryPieces : List (ℕ × List UInt8) :=
  laidOut AllImageInfosHeader.sizeOf (entryBytes payloadOffset modules)

def vmAddrPieces : List (ℕ × List UInt8) :=
  laidOut (vmAddrsStart modules)
    (((images modules.infos).map fun m => m.segments.map SegmentInfo.vmAddr).flatten.map
      SegmentVMAddr.bytes)

def modulePathPieces : List (ℕ × List UInt8) :=
  laidOut (pathsStart modules) ((images modules.infos).map fun m => m.filePath ++ [0])

def headerPiece : ℕ × List UInt8 :=
  (0, (imageInfosHeader payloadOffset (modules.getSize - 1)).bytes)

def imageInfosPieces : List (ℕ × List UInt8) :=
  headerPiece payloadOffset modules
    :: (imageEntryPieces payloadOffset modules ++ vmAddrPieces modules ++ modulePathPieces modules)

end Pieces

theorem bind_map {ε α β γ : Type} (x : Except ε α) (g : α → β) (f : β → Except ε γ) :
    (x >>= fun a => f (g a)) = x.map g >>= f := by
  cases x <;> rfl

/-- The payload is what comes of storing the pieces. -/
theorem createAllImageInfosPayload_stores {modules : ModuleList} (payloadOffset : UInt64)
    (hvalid : modules.isValid = true) :
    createAllImageInfosPayload payloadOffset modules
      = storeAll (imageInfosPieces payloadOffset modules)
        (List.replicate (payloadSize modules) 0) := by
  have hseg := length_segmentArea (images modules.infos)
  have hsize : AllImageInfosHeader.sizeOf + (modules.getSize - 1) * ImageEntry.sizeOf
      + (0 + ((images modules.infos).map (·.segments.length)).sum) * SegmentVMAddr.sizeOf
      + (0 + (pathArea (images modules.infos)).length) = payloadSize modules := by
    rw [Nat.zero_add, Nat.zero_add, ← hseg]
    rfl
  have hpaths : payloadSize modules - (0 + (pathArea (images modules.infos)).length)
      = pathsStart modules := by
    rw [Nat.zero_add, payloadSize, Nat.add_sub_cancel]
  have hpathOffset : payloadOffset + UInt64.ofNat (payloadSize modules)
      - UInt64.ofNat (0 + (pathArea (images modules.infos)).length)
      = payloadOffset + UInt64.ofNat (pathsStart modules) := by
    rw [payloadSize, UInt64.ofNat_add, Nat.zero_add, ← add_assoc, add_sub_cancel_right]
  have hsegOffset : payloadOffset + UInt64.ofNat (pathsStart modules)
      - UInt64.ofNat ((0 + ((images modules.infos).map (·.segments.length)).sum)
        * SegmentVMAddr.sizeOf)
      = payloadOffset + UInt64.ofNat (vmAddrsStart modules) := by
    rw [pathsStart, UInt64.ofNat_add, Nat.zero_add, ← hseg, ← add_assoc, add_sub_cancel_right]
  rw [createAllImageInfosPayload, hvalid, if_neg (by decide)]
  simp only [foldl_tally, hsize, hpaths, hpathOffset, hsegOffset, List.nil_append]
  rw [imageInfosPieces, headerPiece, storeAll]
  show (Except.map _ (store 0 (imageInfosHeader payloadOffset (modules.getSize - 1)).bytes
    (List.replicate (payloadSize modules) 0)) >>= _) = _
  rcases store 0 (imageInfosHeader payloadOffset (modules.getSize - 1)).bytes
    (List.replicate (payloadSize modules) 0) with e | r
  · rfl
  have hheader : 0 + (imageInfosHeader payloadOffset (modules.getSize - 1)).bytes.length
      = AllImageInfosHeader.sizeOf := by
    rw [Nat.zero_add, AllImageInfosHeader.length_bytes]
  have hmodulePaths : ∀ r, (forEach putModulePath modules.infos ⟨pathsStart modules, r⟩ >>=
      fun x => pure x.2.result) = storeAll (modulePathPieces modules) r := by
    intro r
    calc _ = (forEach putModulePath modules.infos ⟨pathsStart modules, r⟩).map
            (fun x => x.2.result) >>= pure :=
          bind_map _ (fun x : Bool × Cursor => x.2.result) pure
      _ = storeAll (modulePathPieces modules) r := by
          rw [bind_pure, forEach_putModulePath_eq, modulePathPieces]
  have hsegments : ∀ r, (forEach (forEach putSegment)
      ((images modules.infos).map fun m => m.segments.map SegmentInfo.vmAddr)
        ⟨vmAddrsStart modules, r⟩ >>= fun x =>
          forEach putModulePath modules.infos ⟨pathsStart modules, x.2.result⟩ >>=
            fun x => pure x.2.result)
      = storeAll (vmAddrPieces modules) r >>= storeAll (modulePathPieces modules) := by
    intro r
    simp only [hmodulePaths]
    calc _ = (forEach (forEach putSegment)
            ((images modules.infos).map fun m => m.segments.map SegmentInfo.vmAddr)
              ⟨vmAddrsStart modules, r⟩).map (fun x => x.2.result)
                >>= storeAll (modulePathPieces modules) :=
          bind_map _ (fun x : Bool × Cursor => x.2.result) _
      _ = storeAll (vmAddrPieces modules) r >>= storeAll (modulePathPieces modules) := by
          rw [forEach_putSegments_eq, vmAddrPieces]
  simp only []
  rw [storeAll_append, storeAll_append]
  show (forEach putImageEntry modules.infos
    ⟨⟨0 + (imageInfosHeader payloadOffset (modules.getSize - 1)).bytes.length, r⟩,
      payloadOffset + UInt64.ofNat (pathsStart modules),
      payloadOffset + UInt64.ofNat (vmAddrsStart modules)⟩ >>= fun x =>
        forEach (forEach putSegment) _ ⟨vmAddrsStart modules, x.2.result⟩ >>= _) = _
  rw [hheader]
  simp only [hsegments]
  refine (bind_map _ (fun x : Bool × EntryCursor => x.2.result) fun r =>
    storeAll (vmAddrPieces modules) r >>= storeAll (modulePathPieces modules)).trans ?_
  rw [forEach_putImageEntry_eq, imageEntryPieces, entryBytes, bind_assoc]

/-- Where the segments start in the payload, and where the paths do. -/
def segmentAreaStart (ms : List ModuleInfo) : ℕ :=
  AllImageInfosHeader.sizeOf + ms.length * ImageEntry.sizeOf

def pathAreaStart (ms : List ModuleInfo) : ℕ := segmentAreaStart ms + (segmentArea ms).length

def imageInfosSize (ms : List ModuleInfo) : ℕ := pathAreaStart ms + (pathArea ms).length

def entryArea (payloadOffset : UInt64) (ms : List ModuleInfo) : List UInt8 :=
  (imageEntries (payloadOffset + UInt64.ofNat (pathAreaStart ms))
    (payloadOffset + UInt64.ofNat (segmentAreaStart ms)) ms).flatMap ImageEntry.bytes

theorem length_entryArea (payloadOffset : UInt64) (ms : List ModuleInfo) :
    (entryArea payloadOffset ms).length = ms.length * ImageEntry.sizeOf := by
  rw [entryArea, length_flatMap_of_const ImageEntry.length_bytes, length_imageEntries]

/-- Every image has an entry or is a main executable. -/
theorem length_images_add (modules : ModuleList) :
    (images modules.infos).length + modules.infos.countP (·.isMainExecutable)
      = modules.getSize := by
  have hsplit := List.length_eq_countP_add_countP (·.isMainExecutable) (l := modules.infos)
  have hnot : modules.infos.countP (fun m => ¬ m.isMainExecutable = true)
      = (images modules.infos).length := by
    rw [images, List.countP_eq_length_filter]
    simp
  have hlen : modules.infos.length = modules.getSize := by
    rw [ModuleList.infos, List.length_map, ModuleList.getSize]
  omega

theorem length_images {modules : ModuleList}
    (hmain : modules.infos.countP (·.isMainExecutable) = 1) :
    (images modules.infos).length = modules.getSize - 1 := by
  have hall := length_images_add modules
  omega

theorem length_entries (payloadOffset : UInt64) (modules : ModuleList) :
    (entryBytes payloadOffset modules).flatten.length
      = (images modules.infos).length * ImageEntry.sizeOf := by
  rw [entryBytes, ← List.flatMap_def, length_flatMap_of_const ImageEntry.length_bytes,
    length_imageEntries]

theorem flatten_vmAddrs (ms : List ModuleInfo) :
    ((ms.map fun m => m.segments.map SegmentInfo.vmAddr).flatten.map SegmentVMAddr.bytes).flatten
      = segmentArea ms := by
  rw [← List.flatMap_def, ← List.flatMap_def, List.flatMap_assoc, segmentArea]

theorem flatten_modulePaths (ms : List ModuleInfo) :
    (ms.map fun m => m.filePath ++ [0]).flatten = pathArea ms := by
  rw [← List.flatMap_def, pathArea]

/-- The bytes of all the pieces. -/
def pieceBytes (payloadOffset : UInt64) (modules : ModuleList) : List (List UInt8) :=
  (imageInfosHeader payloadOffset (modules.getSize - 1)).bytes
    :: (entryBytes payloadOffset modules
      ++ ((images modules.infos).map fun m => m.segments.map SegmentInfo.vmAddr).flatten.map
        SegmentVMAddr.bytes
      ++ (images modules.infos).map fun m => m.filePath ++ [0])

section OneMain

variable {modules : ModuleList} (payloadOffset : UInt64)
variable (hmain : modules.infos.countP (·.isMainExecutable) = 1)
include hmain

theorem length_pieceBytes :
    (pieceBytes payloadOffset modules).flatten.length = payloadSize modules := by
  have hentries := length_entries payloadOffset modules
  rw [length_images hmain] at hentries
  rw [pieceBytes, List.flatten_cons, List.flatten_append, List.flatten_append, flatten_modulePaths,
    flatten_vmAddrs, List.length_append, List.length_append, List.length_append, hentries,
    AllImageInfosHeader.length_bytes]
  simp only [payloadSize, pathsStart, vmAddrsStart]
  omega

/-- With one main executable, the pieces are laid out one behind the other. -/
theorem imageInfosPieces_eq :
    imageInfosPieces payloadOffset modules = laidOut 0 (pieceBytes payloadOffset modules) := by
  have hentries := length_entries payloadOffset modules
  rw [length_images hmain] at hentries
  rw [pieceBytes, laidOut, laidOut_append, laidOut_append, List.flatten_append, List.length_append,
    flatten_vmAddrs, hentries, AllImageInfosHeader.length_bytes, Nat.zero_add, ← Nat.add_assoc]
  rfl

/-- With one main executable, the four areas tile the payload. -/
theorem createAllImageInfosPayload_eq :
    createAllImageInfosPayload payloadOffset modules
      = .ok ((imageInfosHeader payloadOffset (images modules.infos).length).bytes
        ++ entryArea payloadOffset (images modules.infos) ++ segmentArea (images modules.infos)
        ++ pathArea (images modules.infos)) := by
  have hlen := length_images hmain
  have hvalid : modules.isValid = true := by
    have hne : modules.moduleInfos ≠ [] := by
      intro h
      simp [ModuleList.infos, h] at hmain
    simpa [ModuleList.isValid] using hne
  have hstart : vmAddrsStart modules = segmentAreaStart (images modules.infos) := by
    rw [vmAddrsStart, ← hlen, segmentAreaStart]
  have hpaths : pathsStart modules = pathAreaStart (images modules.infos) := by
    rw [pathsStart, hstart, pathAreaStart]
  have hentries : (entryBytes payloadOffset modules).flatten
      = entryArea payloadOffset (images modules.infos) := by
    rw [entryBytes, hstart, hpaths, entryArea, List.flatMap_def]
  have hflatten : (pieceBytes payloadOffset modules).flatten
      = (imageInfosHeader payloadOffset (images modules.infos).length).bytes
        ++ entryArea payloadOffset (images modules.infos) ++ segmentArea (images modules.infos)
        ++ pathArea (images modules.infos) := by
    rw [pieceBytes, ← hlen, List.flatten_cons, List.flatten_append, List.flatten_append, hentries,
      flatten_vmAddrs, flatten_modulePaths, List.append_assoc, List.append_assoc, List.append_assoc]
  calc createAllImageInfosPayload payloadOffset modules
      = storeAll (imageInfosPieces payloadOffset modules)
          (List.replicate (payloadSize modules) 0) :=
        createAllImageInfosPayload_stores payloadOffset hvalid
    _ = storeAll (laidOut 0 (pieceBytes payloadOffset modules))
          (List.replicate (pieceBytes payloadOffset modules).flatten.length 0) := by
        rw [imageInfosPieces_eq payloadOffset hmain, length_pieceBytes payloadOffset hmain]
    _ = .ok (pieceBytes payloadOffset modules).flatten := storeAll_zeros _
    _ = _ := by rw [hflatten]

end OneMain

/-! ## Reading -/

def AllImageInfosHeader.decode (l : List UInt8) : AllImageInfosHeader where
  version := u32At l 0
  imgcount := u32At l 4
  entries_fileoff := u64At l 8
  entries_size := u32At l 16
  reserved := u32At l 20

def ImageEntry.decode (l : List UInt8) : ImageEntry where
  filepath_offset := u64At l 0
  uuid := Vector.ofFn fun i => (readAt l 8 16).getD i 0
  load_address := u64At l 24
  seg_addrs_offset := u64At l 32
  segment_count := u32At l 40
  reserved := u32At l 44

/-- What a reader knows of an image. -/
structure Image where
  filePath : List UInt8
  uuid : Vector UInt8 16
  loadAddress : UInt64
  segments : List (List UInt8 × UInt64)
  executing : Bool
  deriving DecidableEq, Repr

def ModuleInfo.image (m : ModuleInfo) : Image where
  filePath := m.filePath
  uuid := m.uuid
  loadAddress := m.loadAddress
  segments := m.segments.map fun s => (cstr s.segmentName.toList, s.address)
  executing := m.executing

/-- Where the byte at an offset of the file is in the payload. -/
def place (payloadOffset offset : UInt64) : ℕ := offset.toNat - payloadOffset.toNat

def readSegment (l : List UInt8) : List UInt8 × UInt64 := (cstr (readAt l 0 16), u64At l 16)

/-- The image of an entry, unless its path or its segments leave the payload. -/
def readImage (payloadOffset : UInt64) (payload : List UInt8) (e : ImageEntry) : Option Image :=
  let path := payload.drop (place payloadOffset e.filepath_offset)
  let segments := payload.drop (place payloadOffset e.seg_addrs_offset)
  if 0 ∉ path ∨ segments.length < e.segment_count.toNat * SegmentVMAddr.sizeOf then none
  else some
    { filePath := cstr path
      uuid := e.uuid
      loadAddress := e.load_address
      segments := (records SegmentVMAddr.sizeOf e.segment_count.toNat segments).map readSegment
      executing := e.reserved != 0 }

/-- The images that the header counts, unless their entries leave the payload. -/
def readAllImageInfos (payloadOffset : UInt64) (payload : List UInt8) :
    Option (AllImageInfosHeader × List Image) :=
  let header := AllImageInfosHeader.decode (payload.take AllImageInfosHeader.sizeOf)
  let entries := payload.drop (place payloadOffset header.entries_fileoff)
  let width := header.entries_size.toNat
  if entries.length < header.imgcount.toNat * width then none
  else
    ((records width header.imgcount.toNat entries).mapM fun l =>
      readImage payloadOffset payload (ImageEntry.decode l)).map (header, ·)

theorem AllImageInfosHeader.decode_bytes (h : AllImageInfosHeader) : decode h.bytes = h := by
  simp (disch := simp) only [decode, bytes, u32At, u64At, readAt_append_left, readAt_append_right,
    readAt_zero_self, length_le32, length_le64, List.length_append]
  simp [readAt_zero_self]

theorem ImageEntry.decode_bytes (e : ImageEntry) : decode e.bytes = e := by
  have huuid : readAt e.bytes 8 16 = e.uuid.toList := by
    simp (disch := simp) only [bytes, readAt_append_left, readAt_append_right]
    simp [readAt_zero_self]
  have hvec : (Vector.ofFn fun i : Fin 16 => (readAt e.bytes 8 16).getD i 0) = e.uuid := by
    rw [huuid]
    ext i hi
    simp
  rw [decode, hvec]
  simp (disch := simp) only [bytes, u32At, u64At, readAt_append_left, readAt_append_right,
    readAt_zero_self, length_le32, length_le64, List.length_append, Vector.length_toList]
  simp [readAt_zero_self]

theorem readSegment_bytes (s : SegmentInfo) :
    readSegment s.vmAddr.bytes = (cstr s.segmentName.toList, s.address) := by
  have hname : readAt s.vmAddr.bytes 0 16 = strncpy 16 s.segmentName.toList := by
    simp (disch := simp) only [SegmentVMAddr.bytes, readAt_append_left]
    rw [readAt_zero_self (by simp)]
    simp [SegmentInfo.vmAddr]
  have haddr : u64At s.vmAddr.bytes 16 = s.address := by
    simp (disch := simp) only [SegmentVMAddr.bytes, u64At, readAt_append_left, readAt_append_right]
    simp [readAt_zero_self, SegmentInfo.vmAddr]
  have hle : (cstr s.segmentName.toList).length ≤ 16 := by
    refine (List.takeWhile_prefix _).length_le.trans ?_
    simp
  rw [readSegment, hname, haddr, cstr_strncpy, List.take_of_length_le hle]

theorem place_add {payloadOffset : UInt64} {k : ℕ} (h : payloadOffset.toNat + k < 2 ^ 64) :
    place payloadOffset (payloadOffset + UInt64.ofNat k) = k := by
  rw [place, UInt64.toNat_add, UInt64.toNat_ofNat', Nat.mod_eq_of_lt (a := k) (by omega),
    Nat.mod_eq_of_lt h, Nat.add_sub_cancel_left]

/-- An entry leads to its own segments and its own path. -/
theorem readImage_imageEntry {payloadOffset : UInt64} {payload a rest b rest' : List UInt8}
    {m : ModuleInfo} (hfit : payloadOffset.toNat + payload.length < 2 ^ 64)
    (hsegs : payload = a ++ (m.segments.map SegmentInfo.vmAddr).flatMap SegmentVMAddr.bytes ++ rest)
    (hpath : payload = b ++ (m.filePath ++ [0]) ++ rest') :
    readImage payloadOffset payload (imageEntry (payloadOffset + UInt64.ofNat b.length)
      (payloadOffset + UInt64.ofNat a.length) m) = some m.image := by
  have hlb : b.length ≤ payload.length := by
    rw [hpath]
    simp
  have hla : a.length ≤ payload.length := by
    rw [hsegs]
    simp
  have hcount : (UInt32.ofNat m.segments.length).toNat = m.segments.length := by
    rw [UInt32.toNat_ofNat', Nat.mod_eq_of_lt m.segmentCount]
  have hdropPath : payload.drop b.length = m.filePath ++ 0 :: rest' := by
    rw [hpath, List.append_assoc, List.drop_left]
    simp
  have hdropSegs : payload.drop a.length
      = (m.segments.map SegmentInfo.vmAddr).flatMap SegmentVMAddr.bytes ++ rest := by
    rw [hsegs, List.append_assoc, List.drop_left]
  have hrecords := records_flatMap (w := SegmentVMAddr.sizeOf) SegmentVMAddr.length_bytes
    (m.segments.map SegmentInfo.vmAddr) rest
  rw [List.length_map] at hrecords
  have hroom : ¬ (0 ∉ m.filePath ++ 0 :: rest' ∨ ((m.segments.map SegmentInfo.vmAddr).flatMap
      SegmentVMAddr.bytes ++ rest).length < m.segments.length * SegmentVMAddr.sizeOf) := by
    rw [List.length_append, length_flatMap_of_const SegmentVMAddr.length_bytes, List.length_map]
    simp
  have hexec : ((if m.executing then 1 else 0 : UInt32) != 0) = m.executing := by
    cases m.executing <;> rfl
  unfold readImage
  simp only [imageEntry, place_add (lt_of_le_of_lt (Nat.add_le_add_left hlb _) hfit),
    place_add (lt_of_le_of_lt (Nat.add_le_add_left hla _) hfit), hdropPath, hdropSegs, hcount,
    hrecords, if_neg hroom, hexec, cstr_append_zero m.noNul, List.map_map]
  simp only [Function.comp_def, readSegment_bytes, ModuleInfo.image]

/-- The entries of the last images of a payload, whose segments and paths end the two areas. -/
theorem mapM_readImage {payloadOffset : UInt64} {payload : List UInt8}
    (hfit : payloadOffset.toNat + payload.length < 2 ^ 64) :
    ∀ (ms : List ModuleInfo) (a b : List UInt8),
      payload = a ++ segmentArea ms ++ b ++ pathArea ms →
      (imageEntries (payloadOffset + UInt64.ofNat (a ++ segmentArea ms ++ b).length)
        (payloadOffset + UInt64.ofNat a.length) ms).mapM (readImage payloadOffset payload)
        = some (ms.map ModuleInfo.image)
  | [], _, _, _ => rfl
  | m :: ms, a, b, hp => by
    set segs := (m.segments.map SegmentInfo.vmAddr).flatMap SegmentVMAddr.bytes with hsegs
    have hs : segmentArea (m :: ms) = segs ++ segmentArea ms := rfl
    have hpa : pathArea (m :: ms) = m.filePath ++ [0] ++ pathArea ms := rfl
    have hlen : segs.length = m.segments.length * SegmentVMAddr.sizeOf := by
      rw [hsegs, length_flatMap_of_const SegmentVMAddr.length_bytes, List.length_map]
    have hsegPart : payload = a ++ segs ++ (segmentArea ms ++ b ++ pathArea (m :: ms)) := by
      rw [hp, hs]
      simp only [List.append_assoc]
    have hpathPart : payload
        = a ++ segmentArea (m :: ms) ++ b ++ (m.filePath ++ [0]) ++ pathArea ms := by
      rw [hp, hpa]
      simp only [List.append_assoc]
    have hfirst := readImage_imageEntry hfit hsegPart hpathPart
    have hrest := mapM_readImage hfit ms (a ++ segs) (b ++ (m.filePath ++ [0]))
      (by rw [hp, hs, hpa]; simp only [List.append_assoc])
    have hpathOffset : payloadOffset + UInt64.ofNat (a ++ segmentArea (m :: ms) ++ b).length
        + UInt64.ofNat (m.filePath.length + 1)
        = payloadOffset + UInt64.ofNat (a ++ segs ++ segmentArea ms
          ++ (b ++ (m.filePath ++ [0]))).length := by
      rw [add_assoc, ← UInt64.ofNat_add, hs]
      congr 2
      simp only [List.length_append, List.length_singleton]
      omega
    have hsegOffset : payloadOffset + UInt64.ofNat a.length
        + UInt64.ofNat (m.segments.length * SegmentVMAddr.sizeOf)
        = payloadOffset + UInt64.ofNat (a ++ segs).length := by
      rw [add_assoc, ← UInt64.ofNat_add, List.length_append, hlen]
    rw [imageEntries, hpathOffset, hsegOffset, List.mapM_cons, hfirst, hrest]
    rfl

/-- The payload is tiled by its four areas, and a reader that takes every offset in it as one of
the file finds the images that are not the main executable. -/
theorem createAllImageInfosPayload_reads {modules : ModuleList} {payloadOffset : UInt64}
    (hmain : modules.infos.countP (·.isMainExecutable) = 1)
    (hfit : payloadOffset.toNat + imageInfosSize (images modules.infos) < 2 ^ 64) :
    ∃ (payload : List UInt8) (header : AllImageInfosHeader) (entries : List ImageEntry),
      createAllImageInfosPayload payloadOffset modules = .ok payload
      ∧ payload = header.bytes ++ entries.flatMap ImageEntry.bytes
        ++ segmentArea (images modules.infos) ++ pathArea (images modules.infos)
      ∧ payload.length = imageInfosSize (images modules.infos)
      ∧ entries.length = (images modules.infos).length
      ∧ header.imgcount.toNat = (images modules.infos).length
      ∧ readAllImageInfos payloadOffset payload
        = some (header, (images modules.infos).map ModuleInfo.image)
      ∧ (images modules.infos).Pairwise fun m m' => m.loadAddress < m'.loadAddress := by
  have hcreate := createAllImageInfosPayload_eq payloadOffset hmain
  have hcount : (images modules.infos).length < 2 ^ 32 := by
    have := modules.count
    rw [length_images hmain, ModuleList.getSize]
    omega
  have hord : (images modules.infos).Pairwise fun m m' => m.loadAddress < m'.loadAddress :=
    modules.infos_pairwise.sublist List.filter_sublist
  generalize images modules.infos = ms at hcreate hcount hord hfit ⊢
  set header := imageInfosHeader payloadOffset ms.length with hheader
  set payload := header.bytes ++ entryArea payloadOffset ms ++ segmentArea ms ++ pathArea ms
    with hpayload
  have hhlen : header.bytes.length = AllImageInfosHeader.sizeOf :=
    AllImageInfosHeader.length_bytes _
  have hstart : (header.bytes ++ entryArea payloadOffset ms).length = segmentAreaStart ms := by
    rw [List.length_append, hhlen, length_entryArea, segmentAreaStart]
  have hlen : payload.length = imageInfosSize ms := by
    rw [hpayload, List.length_append, List.length_append, hstart]
    rfl
  have himg : header.imgcount.toNat = ms.length := by
    rw [hheader, imageInfosHeader, UInt32.toNat_ofNat', Nat.mod_eq_of_lt hcount]
  refine ⟨payload, header, _, hcreate, rfl, hlen, length_imageEntries _ _ _, himg, ?_, hord⟩
  have hdecode : AllImageInfosHeader.decode (payload.take AllImageInfosHeader.sizeOf) = header := by
    rw [hpayload, List.append_assoc, List.append_assoc, List.take_left' hhlen,
      AllImageInfosHeader.decode_bytes]
  have hplace : place payloadOffset header.entries_fileoff = AllImageInfosHeader.sizeOf := by
    refine place_add (lt_of_le_of_lt (Nat.add_le_add_left ?_ _) hfit)
    rw [imageInfosSize, pathAreaStart, segmentAreaStart]
    omega
  have hdrop : payload.drop AllImageInfosHeader.sizeOf
      = entryArea payloadOffset ms ++ (segmentArea ms ++ pathArea ms) := by
    rw [hpayload, List.append_assoc, List.append_assoc, List.drop_left' hhlen]
  have hwidth : header.entries_size.toNat = ImageEntry.sizeOf := rfl
  have hroom : ¬ (entryArea payloadOffset ms ++ (segmentArea ms ++ pathArea ms)).length
      < ms.length * ImageEntry.sizeOf := by
    rw [List.length_append, length_entryArea]
    omega
  have hrecords := records_flatMap (w := ImageEntry.sizeOf) ImageEntry.length_bytes
    (imageEntries (payloadOffset + UInt64.ofNat (pathAreaStart ms))
      (payloadOffset + UInt64.ofNat (segmentAreaStart ms)) ms) (segmentArea ms ++ pathArea ms)
  rw [length_imageEntries, ← entryArea] at hrecords
  have hfit' : payloadOffset.toNat + payload.length < 2 ^ 64 := by rwa [hlen]
  have hread := mapM_readImage hfit' ms (header.bytes ++ entryArea payloadOffset ms) []
    (by rw [List.append_nil])
  have hpstart : (header.bytes ++ entryArea payloadOffset ms ++ segmentArea ms ++ []).length
      = pathAreaStart ms := by
    rw [List.append_nil, List.length_append, hstart, pathAreaStart]
  rw [hstart, hpstart] at hread
  unfold readAllImageInfos
  simp only [hdecode, hplace, hdrop, himg, hwidth, if_neg hroom, hrecords, List.mapM_map,
    Function.comp_def, ImageEntry.decode_bytes, hread, Option.map_some]

/-- A header with nothing but its file type. -/
def sampleHeader (filetype : UInt32) : List UInt8 :=
  List.replicate 12 0 ++ le32 filetype ++ List.replicate 16 0

/-- The main executable and a library with one segment. -/
def sampleModules : ModuleList where
  moduleInfos :=
    [(0x1000, ⟨0x1000, Vector.replicate 16 1, ascii "/a", [], true, sampleHeader MH_EXECUTE,
        by decide, by decide, by decide⟩),
      (0x2000, ⟨0x2000, Vector.replicate 16 2, [],
        [⟨Vector.replicate 16 0x5f, 0x2000, 0x100⟩], true, sampleHeader 6,
        zero_notMem_nil, by decide, by decide⟩)]
  ordered := List.pairwise_pair.2 (by decide)
  keyed := by
    intro i hi
    simp only [List.mem_cons, List.not_mem_nil, or_false] at hi
    rcases hi with rfl | rfl <;> rfl
  count := by decide

theorem createAllImageInfosPayload_reads_sample :
    ∃ (payload : List UInt8) (header : AllImageInfosHeader) (entries : List ImageEntry),
      createAllImageInfosPayload 0x4000 sampleModules = .ok payload
        ∧ payload = header.bytes ++ entries.flatMap ImageEntry.bytes
          ++ segmentArea (images sampleModules.infos) ++ pathArea (images sampleModules.infos)
        ∧ payload.length = imageInfosSize (images sampleModules.infos)
        ∧ entries.length = (images sampleModules.infos).length
        ∧ header.imgcount.toNat = (images sampleModules.infos).length
        ∧ readAllImageInfos 0x4000 payload
          = some (header, (images sampleModules.infos).map ModuleInfo.image)
        ∧ (images sampleModules.infos).Pairwise fun m m' => m.loadAddress < m'.loadAddress :=
  createAllImageInfosPayload_reads (by decide +kernel) (by decide +kernel)

end MacMiniDump
