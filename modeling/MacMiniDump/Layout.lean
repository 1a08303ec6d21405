import MacMiniDump.Builder
import MacMiniDump.StreamOps

/-!
# The layout of a core file

A payload goes where the sizes of the payloads before it put it (`noteOffset`, `segmentOffset`),
which the offsets already stored in the commands do not affect. With distinct owners and distinct
addresses every lookup finds its own command, so that `build`, whenever it ends, has run its script
(`build_script`): the header, the commands with these offsets, and each payload at its own.
-/

namespace MacMiniDump

def Note.unplaced (nc : Note) : Note := nc.withOffset 0

def Segment.unplaced (sc : Segment) : Segment := sc.withFileoff 0

/-- The end of payloads of the given sizes. -/
def offsetAfter (start : UInt64) (sizes : List UInt64) : UInt64 := sizes.foldl (· + ·) start

@[simp] theorem offsetAfter_nil (start : UInt64) : offsetAfter start [] = start := rfl

@[simp] theorem offsetAfter_cons (start n : UInt64) (sizes : List UInt64) :
    offsetAfter start (n :: sizes) = offsetAfter (start + n) sizes := rfl

theorem offsetAfter_append (start : UInt64) (a b : List UInt64) :
    offsetAfter start (a ++ b) = offsetAfter (offsetAfter start a) b := by
  simp [offsetAfter, List.foldl_append]

theorem offsetAfter_toNat : ∀ (sizes : List UInt64) (start : UInt64),
    start.toNat + (sizes.map UInt64.toNat).sum < 2 ^ 64 →
      (offsetAfter start sizes).toNat = start.toNat + (sizes.map UInt64.toNat).sum
  | [], start, _ => by simp
  | n :: sizes, start, h => by
    simp only [List.map_cons, List.sum_cons] at h ⊢
    have hn : (start + n).toNat = start.toNat + n.toNat := by
      rw [UInt64.toNat_add, Nat.mod_eq_of_lt (by omega)]
    rw [offsetAfter_cons, offsetAfter_toNat sizes _ (by omega), hn]
    omega

/-- A loop over the indices of a list that does something for each element. -/
theorem flatMap_range {α β γ : Type*} (f : ℕ → α → γ) (h : γ → List β) (g : ℕ → List β)
    (l : List α) (hg : ∀ k a, l[k]? = some a → g k = h (f k a)) :
    (List.range l.length).flatMap g = (l.mapIdx f).flatMap h := by
  induction l using List.reverseRecOn with
  | nil => rfl
  | append_singleton l a ih =>
    rw [List.length_append, List.length_singleton, List.range_succ, List.flatMap_append,
      List.mapIdx_append, List.flatMap_append, ih fun k a' hk => hg k a' ?_]
    · simp [hg l.length a (by simp)]
    · have hlt : k < l.length := (List.getElem?_eq_some_iff.1 hk).1
      rw [List.getElem?_append_left hlt, hk]

namespace MachOCoreDumpBuilder

/-- The builder without what `build` stores in it: the offsets, and the ranges written. -/
def unplaced (b : MachOCoreDumpBuilder) : MachOCoreDumpBuilder :=
  { b with
    noteCmds := b.noteCmds.map Note.unplaced
    segmentCmds := b.segmentCmds.map Segment.unplaced
    writtenRanges := [] }

def noteOffset (b : MachOCoreDumpBuilder) (k : ℕ) : UInt64 :=
  offsetAfter b.firstPayloadOffset ((b.noteCmds.take k).map (·.cmd.size))

/-- The first segment payload goes to a 4K boundary. -/
def firstSegmentOffset (b : MachOCoreDumpBuilder) : UInt64 :=
  roundUp (b.noteOffset b.noteCmds.length) 0x1000

def segmentOffset (b : MachOCoreDumpBuilder) (k : ℕ) : UInt64 :=
  offsetAfter b.firstSegmentOffset ((b.segmentCmds.take k).map (·.cmd.filesize))

/-- No two notes have the same `data_owner`. -/
def DistinctOwners (b : MachOCoreDumpBuilder) : Prop :=
  b.noteCmds.Pairwise fun n n' => n.cmd.dataOwner ≠ n'.cmd.dataOwner

/-- No two segments have the same `vmaddr`. -/
def DistinctVmaddrs (b : MachOCoreDumpBuilder) : Prop :=
  b.segmentCmds.Pairwise fun s s' => s.cmd.vmaddr ≠ s'.cmd.vmaddr

section Unplaced

variable {b b' : MachOCoreDumpBuilder}

/-- What two builders that differ in the stored offsets only agree on. -/
theorem eq_of_unplaced (h : b'.unplaced = b.unplaced) :
    b'.loadCommandsFinalized = b.loadCommandsFinalized ∧ b'.header = b.header
      ∧ b'.threadCmds = b.threadCmds
      ∧ b'.noteCmds.map Note.unplaced = b.noteCmds.map Note.unplaced
      ∧ b'.segmentCmds.map Segment.unplaced = b.segmentCmds.map Segment.unplaced := by
  unfold unplaced at h
  simp only [MachOCoreDumpBuilder.mk.injEq] at h
  exact ⟨h.1, h.2.1, h.2.2.2.1, h.2.2.1, h.2.2.2.2.1⟩

theorem map_notes_of_unplaced (h : b'.unplaced = b.unplaced) {β : Type*} (f : Note → β)
    (hf : ∀ n : Note, f n.unplaced = f n) : b'.noteCmds.map f = b.noteCmds.map f := by
  have hn := congrArg (List.map f) (eq_of_unplaced h).2.2.2.1
  simpa [List.map_map, Function.comp_def, hf] using hn

theorem map_segments_of_unplaced (h : b'.unplaced = b.unplaced) {β : Type*} (f : Segment → β)
    (hf : ∀ s : Segment, f s.unplaced = f s) : b'.segmentCmds.map f = b.segmentCmds.map f := by
  have hn := congrArg (List.map f) (eq_of_unplaced h).2.2.2.2
  simpa [List.map_map, Function.comp_def, hf] using hn

theorem length_notes_of_unplaced (h : b'.unplaced = b.unplaced) :
    b'.noteCmds.length = b.noteCmds.length := by
  simpa using congrArg List.length (map_notes_of_unplaced h (fun _ => ()) fun _ => rfl)

theorem noteOffset_of_unplaced (h : b'.unplaced = b.unplaced) (k : ℕ) :
    b'.noteOffset k = b.noteOffset k := by
  have hs := map_notes_of_unplaced h (·.cmd.size) fun _ => rfl
  unfold noteOffset firstPayloadOffset
  rw [(eq_of_unplaced h).2.1, List.map_take, List.map_take, hs]

theorem segmentOffset_of_unplaced (h : b'.unplaced = b.unplaced) (k : ℕ) :
    b'.segmentOffset k = b.segmentOffset k := by
  have hs := map_segments_of_unplaced h (·.cmd.filesize) fun _ => rfl
  unfold segmentOffset firstSegmentOffset
  rw [noteOffset_of_unplaced h, length_notes_of_unplaced h, List.map_take, List.map_take, hs]

theorem distinctOwners_of_unplaced (h : b'.unplaced = b.unplaced) (hd : b.DistinctOwners) :
    b'.DistinctOwners := by
  have hs := map_notes_of_unplaced h (·.cmd.dataOwner) fun _ => rfl
  rw [DistinctOwners, ← List.pairwise_map (f := fun n : Note => n.cmd.dataOwner)] at hd ⊢
  rwa [hs]

theorem distinctVmaddrs_of_unplaced (h : b'.unplaced = b.unplaced) (hd : b.DistinctVmaddrs) :
    b'.DistinctVmaddrs := by
  have hs := map_segments_of_unplaced h (·.cmd.vmaddr) fun _ => rfl
  rw [DistinctVmaddrs, ← List.pairwise_map (f := fun s : Segment => s.cmd.vmaddr)] at hd ⊢
  rwa [hs]

/-- What holds of a part of every note that a build leaves alone. -/
theorem forall_notes_of_unplaced (h : b'.unplaced = b.unplaced) {β : Type*} {f : Note → β}
    (hf : ∀ n : Note, f n.unplaced = f n) {P : β → Prop} (hb : ∀ n ∈ b.noteCmds, P (f n)) :
    ∀ n ∈ b'.noteCmds, P (f n) := by
  intro n hn
  have hmem : f n ∈ b.noteCmds.map f := map_notes_of_unplaced h f hf ▸ List.mem_map_of_mem hn
  obtain ⟨m, hm, heq⟩ := List.mem_map.1 hmem
  exact heq ▸ hb m hm

theorem forall_segments_of_unplaced (h : b'.unplaced = b.unplaced) {β : Type*} {f : Segment → β}
    (hf : ∀ s : Segment, f s.unplaced = f s) {P : β → Prop} (hb : ∀ s ∈ b.segmentCmds, P (f s)) :
    ∀ s ∈ b'.segmentCmds, P (f s) := by
  intro s hs
  have hmem : f s ∈ b.segmentCmds.map f := map_segments_of_unplaced h f hf ▸ List.mem_map_of_mem hs
  obtain ⟨m, hm, heq⟩ := List.mem_map.1 hmem
  exact heq ▸ hb m hm

theorem notes_ne_nil_of_unplaced (h : b'.unplaced = b.unplaced) (hb : b.noteCmds ≠ []) :
    b'.noteCmds ≠ [] := by
  rw [ne_eq, ← List.length_eq_zero_iff] at hb ⊢
  rwa [length_notes_of_unplaced h]

end Unplaced

/-! ## Lookups -/

section Lookup

variable {debug : Bool} {owner : List UInt8} {nc : Note}

/-- A lookup that returns stopped at the first note whose owner compares equal. -/
theorem notePayloadOffset_eq {r : Option UInt64} :
    ∀ (pre post : List Note) (start : UInt64),
      (∀ n ∈ pre, cstr owner ≠ cstr n.cmd.ownerMemory) → cstr owner = cstr nc.cmd.ownerMemory →
      notePayloadOffset debug owner start (pre ++ nc :: post) = .ok r →
      r = some (offsetAfter start (pre.map (·.cmd.size)))
  | [], _, start, _, hnc, h => by
    rw [List.nil_append, notePayloadOffset, if_pos hnc] at h
    simpa using h.symm
  | n :: pre, post, start, hpre, hnc, h => by
    rw [List.cons_append, notePayloadOffset, if_neg (hpre n List.mem_cons_self)] at h
    split_ifs at h
    exact notePayloadOffset_eq pre post _ (fun m hm => hpre m (List.mem_cons_of_mem _ hm)) hnc h

/-- With a provider on every note before it, the lookup does return. -/
theorem notePayloadOffset_ok :
    ∀ (pre post : List Note) (start : UInt64), cstr owner = cstr nc.cmd.ownerMemory →
      (debug = true → ∀ n ∈ pre, n.provider ≠ none) →
      ∃ r, notePayloadOffset debug owner start (pre ++ nc :: post) = .ok r
  | [], _, start, hnc, _ => ⟨_, by rw [List.nil_append, notePayloadOffset, if_pos hnc]⟩
  | n :: pre, post, start, hnc, hdbg => by
    have hp : ¬ (debug && n.provider.isNone) = true := by
      intro hd
      simp only [Bool.and_eq_true, Option.isNone_iff_eq_none] at hd
      exact hdbg hd.1 n List.mem_cons_self hd.2
    rw [List.cons_append, notePayloadOffset, if_neg hp]
    split_ifs
    · exact ⟨_, rfl⟩
    · exact notePayloadOffset_ok pre post _ hnc fun hd m hm =>
        hdbg hd m (List.mem_cons_of_mem _ hm)

theorem segmentPayloadOffset_eq {vmaddr : UInt64} {sc : Segment} {r : Option UInt64} :
    ∀ (pre post : List Segment) (start : UInt64),
      (∀ s ∈ pre, vmaddr ≠ s.cmd.vmaddr) → vmaddr = sc.cmd.vmaddr →
      segmentPayloadOffset debug vmaddr start (pre ++ sc :: post) = .ok r →
      r = some (offsetAfter start (pre.map (·.cmd.filesize)))
  | [], _, start, _, hsc, h => by
    rw [List.nil_append, segmentPayloadOffset, if_pos hsc] at h
    simpa using h.symm
  | s :: pre, post, start, hpre, hsc, h => by
    rw [List.cons_append, segmentPayloadOffset, if_neg (hpre s List.mem_cons_self)] at h
    split_ifs at h
    exact segmentPayloadOffset_eq pre post _ (fun m hm => hpre m (List.mem_cons_of_mem _ hm)) hsc h

theorem segmentPayloadOffset_ok {vmaddr : UInt64} {sc : Segment} :
    ∀ (pre post : List Segment) (start : UInt64), vmaddr = sc.cmd.vmaddr →
      (debug = true → ∀ s ∈ pre, s.provider ≠ none) →
      ∃ r, segmentPayloadOffset debug vmaddr start (pre ++ sc :: post) = .ok r
  | [], _, start, hsc, _ => ⟨_, by rw [List.nil_append, segmentPayloadOffset, if_pos hsc]⟩
  | s :: pre, post, start, hsc, hdbg => by
    have hp : ¬ (debug && s.provider.isNone) = true := by
      intro hd
      simp only [Bool.and_eq_true, Option.isNone_iff_eq_none] at hd
      exact hdbg hd.1 s List.mem_cons_self hd.2
    rw [List.cons_append, segmentPayloadOffset, if_neg hp]
    split_ifs
    · exact ⟨_, rfl⟩
    · exact segmentPayloadOffset_ok pre post _ hsc fun hd m hm =>
        hdbg hd m (List.mem_cons_of_mem _ hm)

end Lookup

theorem split_at {α : Type*} {l : List α} {k : ℕ} {a : α} (h : l[k]? = some a) :
    l = l.take k ++ a :: l.drop (k + 1) := by
  obtain ⟨hk, rfl⟩ := List.getElem?_eq_some_iff.1 h
  rw [← List.drop_eq_getElem_cons hk, List.take_append_drop]

section Own

variable {b : MachOCoreDumpBuilder} {debug : Bool} {k : ℕ}

/-- No note before the `k`-th has its owner. -/
theorem DistinctOwners.ne_of_mem_take (hd : b.DistinctOwners) {nc : Note}
    (hk : b.noteCmds[k]? = some nc) :
    ∀ n ∈ b.noteCmds.take k, n.cmd.dataOwner ≠ nc.cmd.dataOwner := by
  rw [DistinctOwners, split_at hk] at hd
  intro n hn
  exact (List.pairwise_append.1 hd).2.2 n hn nc List.mem_cons_self

theorem DistinctVmaddrs.ne_of_mem_take (hd : b.DistinctVmaddrs) {sc : Segment}
    (hk : b.segmentCmds[k]? = some sc) :
    ∀ s ∈ b.segmentCmds.take k, s.cmd.vmaddr ≠ sc.cmd.vmaddr := by
  rw [DistinctVmaddrs, split_at hk] at hd
  intro s hs
  exact (List.pairwise_append.1 hd).2.2 s hs sc List.mem_cons_self

/-- Among distinct owners, a name that compares equal to a note's finds that note. -/
theorem getOffset_of_cstr_eq (hf : b.loadCommandsFinalized = true) (hd : b.DistinctOwners)
    {nc : Note} (hk : b.noteCmds[k]? = some nc) {owner : List UInt8}
    (ho : cstr owner = cstr nc.cmd.ownerMemory) {r : Option UInt64}
    (h : b.getOffsetForNoteCommandPayload debug owner = .ok r) : r = some (b.noteOffset k) := by
  rw [getOffsetForNoteCommandPayload, if_pos hf, split_at hk] at h
  refine notePayloadOffset_eq _ _ _ (fun n hn hc => ?_) ho h
  exact hd.ne_of_mem_take hk n hn (NoteCommand.dataOwner_of_cstr_eq (hc.symm.trans ho))

theorem getOffset_ok (hf : b.loadCommandsFinalized = true) {nc : Note}
    (hk : b.noteCmds[k]? = some nc) {owner : List UInt8}
    (ho : cstr owner = cstr nc.cmd.ownerMemory)
    (hp : debug = true → ∀ n ∈ b.noteCmds.take k, n.provider ≠ none) :
    ∃ r, b.getOffsetForNoteCommandPayload debug owner = .ok r := by
  obtain ⟨r, hr⟩ := notePayloadOffset_ok (b.noteCmds.take k) (b.noteCmds.drop (k + 1))
    b.firstPayloadOffset ho hp
  exact ⟨r, by rw [getOffsetForNoteCommandPayload, if_pos hf, ← hr, ← split_at hk]⟩

/-- The last note's payload ends where the segments' payloads are rounded up from. -/
theorem getOffset_last (hf : b.loadCommandsFinalized = true) (hd : b.DistinctOwners)
    {last : Note} (hl : b.noteCmds.getLast? = some last) {r : Option UInt64}
    (h : b.getOffsetForNoteCommandPayload debug last.cmd.ownerMemory = .ok r) :
    r.getD 0 + last.cmd.size = b.noteOffset b.noteCmds.length := by
  obtain ⟨init, hi⟩ := List.getLast?_eq_some_iff.1 hl
  have hk : b.noteCmds[init.length]? = some last := by simp [hi]
  have ht : b.noteCmds.take init.length = init := by rw [hi, List.take_left]
  rw [getOffset_of_cstr_eq hf hd hk rfl h, Option.getD_some, noteOffset, noteOffset, ht,
    List.take_length, hi, List.map_append, offsetAfter_append]
  rfl

theorem getSegmentOffset_eq (hf : b.loadCommandsFinalized = true) (hd : b.DistinctOwners)
    (hv : b.DistinctVmaddrs) {sc : Segment} (hk : b.segmentCmds[k]? = some sc)
    {r : Option UInt64}
    (h : b.getOffsetForSegmentCommandPayload debug sc.cmd.vmaddr = .ok r) :
    r = some (b.segmentOffset k) := by
  rw [getOffsetForSegmentCommandPayload, if_pos hf] at h
  split at h
  · simp at h
  rename_i last hl
  split at h
  · simp at h
  rename_i lastOffset ho
  rw [getOffset_last hf hd hl ho, split_at hk] at h
  exact segmentPayloadOffset_eq _ _ _ (fun s hs hc => hv.ne_of_mem_take hk s hs hc.symm) rfl h

theorem getSegmentOffset_ok (hf : b.loadCommandsFinalized = true) {sc : Segment}
    (hk : b.segmentCmds[k]? = some sc) (hn : b.noteCmds ≠ [])
    (hp : debug = true → ∀ n ∈ b.noteCmds, n.provider ≠ none)
    (hs : debug = true → ∀ s ∈ b.segmentCmds, s.provider ≠ none) :
    ∃ r, b.getOffsetForSegmentCommandPayload debug sc.cmd.vmaddr = .ok r := by
  obtain ⟨last, hl⟩ : ∃ last, b.noteCmds.getLast? = some last :=
    ⟨_, List.getLast?_eq_some_getLast hn⟩
  obtain ⟨init, hi⟩ := List.getLast?_eq_some_iff.1 hl
  have hlk : b.noteCmds[init.length]? = some last := by simp [hi]
  have hown : ∃ r, b.getOffsetForNoteCommandPayload debug last.cmd.ownerMemory = .ok r :=
    getOffset_ok hf hlk rfl fun hd n hn' => hp hd n (List.mem_of_mem_take hn')
  obtain ⟨o, ho⟩ := hown
  obtain ⟨r, hr⟩ := segmentPayloadOffset_ok (b.segmentCmds.take k) (b.segmentCmds.drop (k + 1))
    (roundUp (o.getD 0 + last.cmd.size) 0x1000) rfl fun hd s hs' =>
      hs hd s (List.mem_of_mem_take hs')
  refine ⟨r, ?_⟩
  rw [getOffsetForSegmentCommandPayload, if_pos hf, hl]
  simp only [ho]
  rw [← hr, ← split_at hk]

end Own

/-! ## The script of `build` -/

def noteCommandOps (b : MachOCoreDumpBuilder) (k : ℕ) : List StreamOp :=
  match b.noteCmds[k]? with
  | none => []
  | some nc =>
    [.write (some (nc.cmd.withOffset (b.noteOffset k)).bytes) NoteCommand.sizeOf.toUInt64]

def threadCommandOps (b : MachOCoreDumpBuilder) (k : ℕ) : List StreamOp :=
  match b.threadCmds[k]? with
  | none => []
  | some tc => [.write (some (tc.bytes.take tc.cmdsize.toNat)) tc.cmdsize.toUInt64]

def segmentCommandOps (b : MachOCoreDumpBuilder) (k : ℕ) : List StreamOp :=
  match b.segmentCmds[k]? with
  | none => []
  | some sc =>
    [.write (some (sc.cmd.withFileoff (b.segmentOffset k)).bytes)
      SegmentCommand64.sizeOf.toUInt64]

def notePayloadOps (b : MachOCoreDumpBuilder) (k : ℕ) : List StreamOp :=
  match b.noteCmds[k]? with
  | none => []
  | some nc =>
    [.setPosition (b.noteOffset k),
      .write ((nc.provider.bind (·.getAll)).map (·.take nc.cmd.size.toNat)) nc.cmd.size]

/-- The chunks that could be read before the first that could not, and the offset there. -/
def readChunks (p : DataProvider) (chunkSize : UInt64) :
    ℕ → UInt64 → List (List UInt8) × UInt64
  | 0, offset => ([], offset)
  | n + 1, offset =>
    match p.get offset chunkSize with
    | none => ([], offset)
    | some data =>
      let rest := readChunks p chunkSize n (offset + chunkSize)
      (data.take chunkSize.toNat :: rest.1, rest.2)

/-- The whole chunks and what is left are all of the data. -/
theorem chunks_add_left (size c : UInt64) :
    (size / c).toNat * c.toNat + (size % c).toNat = size.toNat := by
  rw [UInt64.toNat_div, UInt64.toNat_mod]
  exact Nat.div_add_mod' _ _

/-- The writes of one segment's payload. -/
def segmentDataOps (p : DataProvider) : List StreamOp :=
  let chunkSize := min p.size maxChunkSize
  let chunks := readChunks p chunkSize (p.size / chunkSize).toNat 0
  let left := p.size % chunkSize
  chunks.1.map (fun d => .write (some d) chunkSize)
    ++ [.write ((p.get chunks.2 left).map (·.take left.toNat)) left]

def segmentPayloadOps (b : MachOCoreDumpBuilder) (k : ℕ) : List StreamOp :=
  match b.segmentCmds[k]? with
  | none => []
  | some sc => .setPosition (b.segmentOffset k) :: (sc.provider.map segmentDataOps).getD []

def commandOps (b : MachOCoreDumpBuilder) : List StreamOp :=
  .write (some b.header.bytes) MachHeader64.sizeOf
    :: ((List.range b.noteCmds.length).flatMap b.noteCommandOps
      ++ (List.range b.threadCmds.length).flatMap b.threadCommandOps
      ++ (List.range b.segmentCmds.length).flatMap b.segmentCommandOps)

def script (b : MachOCoreDumpBuilder) : List StreamOp :=
  b.commandOps ++ ((List.range b.noteCmds.length).flatMap b.notePayloadOps
    ++ (List.range b.segmentCmds.length).flatMap b.segmentPayloadOps)

/-- The commands with their offsets. -/
def placedNotes (b : MachOCoreDumpBuilder) : List NoteCommand :=
  b.noteCmds.mapIdx fun k n => n.cmd.withOffset (b.noteOffset k)

def placedSegments (b : MachOCoreDumpBuilder) : List SegmentCommand64 :=
  b.segmentCmds.mapIdx fun k s => s.cmd.withFileoff (b.segmentOffset k)

theorem map_length_placedNotes {b : MachOCoreDumpBuilder}
    (h : ∀ n ∈ b.noteCmds, n.cmd.cmdsize = NoteCommand.sizeOf) :
    b.placedNotes.map (fun nc => nc.bytes.length)
      = b.noteCmds.map fun n => n.cmd.cmdsize.toNat := by
  refine List.ext_getElem (by simp [placedNotes]) fun i hi _ => ?_
  simp only [placedNotes, List.length_map, List.length_mapIdx] at hi
  simp [placedNotes, h _ (List.getElem_mem hi), NoteCommand.sizeOf]

theorem map_length_placedSegments {b : MachOCoreDumpBuilder}
    (h : ∀ s ∈ b.segmentCmds, s.cmd.cmdsize = SegmentCommand64.sizeOf) :
    b.placedSegments.map (fun sc => sc.bytes.length)
      = b.segmentCmds.map fun s => s.cmd.cmdsize.toNat := by
  refine List.ext_getElem (by simp [placedSegments]) fun i hi _ => ?_
  simp only [placedSegments, List.length_map, List.length_mapIdx] at hi
  simp [placedSegments, h _ (List.getElem_mem hi), SegmentCommand64.sizeOf]

theorem commandOps_eq (b : MachOCoreDumpBuilder) :
    b.commandOps = .write (some b.header.bytes) MachHeader64.sizeOf
      :: (b.placedNotes.map (fun nc => .write (some nc.bytes) NoteCommand.sizeOf.toUInt64)
        ++ b.threadCmds.map (fun tc =>
          .write (some (tc.bytes.take tc.cmdsize.toNat)) tc.cmdsize.toUInt64)
        ++ b.placedSegments.map fun sc =>
          .write (some sc.bytes) SegmentCommand64.sizeOf.toUInt64) := by
  have hid : b.threadCmds.mapIdx (fun _ t => t) = b.threadCmds :=
    List.mapIdx_eq_iff.2 fun i => by simp
  have hnotes : (List.range b.noteCmds.length).flatMap b.noteCommandOps
      = b.placedNotes.flatMap fun nc => [.write (some nc.bytes) NoteCommand.sizeOf.toUInt64] :=
    flatMap_range _ _ _ _ fun k n hk => by rw [noteCommandOps, hk]
  have hthreads : (List.range b.threadCmds.length).flatMap b.threadCommandOps
      = (b.threadCmds.mapIdx fun _ t => t).flatMap fun tc =>
        [.write (some (tc.bytes.take tc.cmdsize.toNat)) tc.cmdsize.toUInt64] :=
    flatMap_range _ _ _ _ fun k t hk => by rw [threadCommandOps, hk]
  have hsegments : (List.range b.segmentCmds.length).flatMap b.segmentCommandOps
      = b.placedSegments.flatMap fun sc =>
        [.write (some sc.bytes) SegmentCommand64.sizeOf.toUInt64] :=
    flatMap_range _ _ _ _ fun k s hk => by rw [segmentCommandOps, hk]
  rw [commandOps, hnotes, hthreads, hsegments, hid]
  simp only [List.map_eq_flatMap]

end MachOCoreDumpBuilder

section Script

open MachOCoreDumpBuilder

variable {σ : Type} [OStream σ] {debug : Bool} {b : MachOCoreDumpBuilder}

/-- The state is in the middle of a build of `b`. -/
def Building (b : MachOCoreDumpBuilder) (st : BuildState σ) : Prop :=
  st.builder.unplaced = b.unplaced

theorem writeToOStream_eq {data : Option (List UInt8)} {size : UInt64} {st st' : BuildState σ}
    {r : Bool} (h : writeToOStream debug data size st = .ok (r, st')) :
    st'.builder.unplaced = st.builder.unplaced
      ∧ (r, st'.stream) = OStream.write (data.map (·.take size.toNat)) size st.stream := by
  unfold writeToOStream at h
  simp only [] at h
  split_ifs at h
  all_goals
    simp only [Except.ok.injEq, Prod.mk.injEq] at h
    obtain ⟨rfl, rfl⟩ := h
    exact ⟨rfl, rfl⟩

theorem scripted_write (data : Option (List UInt8)) (size : UInt64) :
    Scripted (Building b) (fun st : BuildState σ => st.stream) (writeToOStream debug data size)
      [.write (data.map (·.take size.toNat)) size] := by
  intro st r st' hP h
  obtain ⟨hu, hw⟩ := writeToOStream_eq h
  exact ⟨hu.trans hP, by rw [runOps_write, hw]⟩

/-- A write of data that is no longer than its size says. -/
theorem scripted_write_some {d : List UInt8} {size : UInt64} (hlen : d.length ≤ size.toNat) :
    Scripted (Building b) (fun st : BuildState σ => st.stream)
      (writeToOStream debug (some d) size) [.write (some d) size] := by
  have h : Scripted (Building b) (fun st : BuildState σ => st.stream)
      (writeToOStream debug (some d) size) _ := scripted_write (some d) size
  rwa [Option.map_some, List.take_of_length_le hlen] at h

theorem map_modify_of_eq {α β : Type*} {f : α → β} {g : α → α} (h : ∀ a, f (g a) = f a)
    (l : List α) (k : ℕ) : (l.modify k g).map f = l.map f := by
  refine List.ext_getElem? fun i => ?_
  rw [List.getElem?_map, List.getElem?_map, List.getElem?_modify]
  split_ifs
  · simp [Option.map_map, Function.comp_def, h]
  · simp

theorem unplaced_setNoteOffset (c : MachOCoreDumpBuilder) (k : ℕ) (off : UInt64) :
    (c.setNoteOffset k off).unplaced = c.unplaced := by
  simp only [unplaced, setNoteOffset, MachOCoreDumpBuilder.mk.injEq, true_and, and_true]
  exact map_modify_of_eq (g := fun nc : Note => nc.withOffset off) (f := Note.unplaced)
    (fun _ => rfl) _ _

theorem unplaced_setSegmentFileoff (c : MachOCoreDumpBuilder) (k : ℕ) (off : UInt64) :
    (c.setSegmentFileoff k off).unplaced = c.unplaced := by
  simp only [unplaced, setSegmentFileoff, MachOCoreDumpBuilder.mk.injEq, true_and, and_true]
  exact map_modify_of_eq (g := fun sc : Segment => sc.withFileoff off) (f := Segment.unplaced)
    (fun _ => rfl) _ _

/-- A note of a builder in progress is the note of the one it came from, but for its offset. -/
theorem note_of_unplaced {c : MachOCoreDumpBuilder} (h : c.unplaced = b.unplaced) {k : ℕ}
    {nc : Note} (hk : c.noteCmds[k]? = some nc) :
    ∃ n, b.noteCmds[k]? = some n ∧ n.provider = nc.provider ∧ n.cmd.size = nc.cmd.size
      ∧ ∀ off, nc.cmd.withOffset off = n.cmd.withOffset off := by
  have hn := congrArg (·[k]?) (eq_of_unplaced h).2.2.2.1
  simp only [List.getElem?_map, hk, Option.map_some] at hn
  obtain ⟨n, hb, hu⟩ := Option.map_eq_some_iff.1 hn.symm
  obtain ⟨ncmd, nprov⟩ := n
  obtain ⟨ccmd, cprov⟩ := nc
  simp only [Note.unplaced, Note.withOffset, Note.mk.injEq, NoteCommand.withOffset,
    NoteCommand.mk.injEq] at hu
  obtain ⟨⟨h1, h2, h3, -, h4⟩, h5⟩ := hu
  exact ⟨_, hb, h5, h4, fun off => by simp [NoteCommand.withOffset, h1, h2, h3, h4]⟩

theorem segment_of_unplaced {c : MachOCoreDumpBuilder} (h : c.unplaced = b.unplaced) {k : ℕ}
    {sc : Segment} (hk : c.segmentCmds[k]? = some sc) :
    ∃ s, b.segmentCmds[k]? = some s ∧ s.provider = sc.provider
      ∧ ∀ off, sc.cmd.withFileoff off = s.cmd.withFileoff off := by
  have hn := congrArg (·[k]?) (eq_of_unplaced h).2.2.2.2
  simp only [List.getElem?_map, hk, Option.map_some] at hn
  obtain ⟨s, hb, hu⟩ := Option.map_eq_some_iff.1 hn.symm
  obtain ⟨scmd, sprov⟩ := s
  obtain ⟨ccmd, cprov⟩ := sc
  simp only [Segment.unplaced, Segment.withFileoff, Segment.mk.injEq, SegmentCommand64.withFileoff,
    SegmentCommand64.mk.injEq] at hu
  refine ⟨_, hb, hu.2, fun off => ?_⟩
  simp [SegmentCommand64.withFileoff, hu]

theorem getElem?_eq_none_of_unplaced {c : MachOCoreDumpBuilder} (h : c.unplaced = b.unplaced)
    {k : ℕ} :
    (c.noteCmds[k]? = none ↔ b.noteCmds[k]? = none)
      ∧ (c.segmentCmds[k]? = none ↔ b.segmentCmds[k]? = none) := by
  have hn := length_notes_of_unplaced h
  have hs : c.segmentCmds.length = b.segmentCmds.length := by
    simpa using congrArg List.length (map_segments_of_unplaced h (fun _ => ()) fun _ => rfl)
  simp only [List.getElem?_eq_none_iff, hn, hs, true_and]

/-- Nothing but the ranges written is changed. -/
def SameButRanges (c c' : MachOCoreDumpBuilder) : Prop :=
  ∃ ranges, c' = { c with writtenRanges := ranges }

theorem SameButRanges.trans {c₁ c₂ c₃ : MachOCoreDumpBuilder} (h : SameButRanges c₁ c₂)
    (h' : SameButRanges c₂ c₃) : SameButRanges c₁ c₃ := by
  obtain ⟨ranges, rfl⟩ := h
  obtain ⟨ranges', rfl⟩ := h'
  exact ⟨ranges', rfl⟩

theorem SameButRanges.unplaced {c c' : MachOCoreDumpBuilder} (h : SameButRanges c c') :
    c'.unplaced = c.unplaced := by
  obtain ⟨ranges, rfl⟩ := h
  rfl

theorem sameButRanges_write {data : Option (List UInt8)} {size : UInt64} {st st' : BuildState σ}
    {r : Bool} (h : writeToOStream debug data size st = .ok (r, st')) :
    SameButRanges st.builder st'.builder := by
  unfold writeToOStream at h
  simp only [] at h
  split_ifs at h
  all_goals
    simp only [Except.ok.injEq, Prod.mk.injEq] at h
    obtain ⟨-, rfl⟩ := h
    exact ⟨_, rfl⟩

theorem runOps_of_write {data : Option (List UInt8)} {size : UInt64} {st st' : BuildState σ}
    {r : Bool} (h : writeToOStream debug data size st = .ok (r, st')) :
    (r, st'.stream) = runOps [.write (data.map (·.take size.toNat)) size] st.stream := by
  rw [runOps_write, (writeToOStream_eq h).2]

section Equations

variable {k : ℕ} {st : BuildState σ} {nc : Note} {tc : ThreadCommand} {sc : Segment}

theorem writeNoteCommand_of_none (hk : st.builder.noteCmds[k]? = none) :
    writeNoteCommand debug k st = .ok (true, st) := by
  rw [writeNoteCommand, hk]

theorem writeNoteCommand_of_some (hk : st.builder.noteCmds[k]? = some nc) :
    writeNoteCommand debug k st
      = st.builder.getOffsetForNoteCommandPayload debug nc.cmd.ownerMemory >>= fun found =>
        writeToOStream debug (some (nc.cmd.withOffset (found.getD nc.cmd.offset)).bytes)
          NoteCommand.sizeOf.toUInt64
          { st with builder := st.builder.setNoteOffset k (found.getD nc.cmd.offset) } := by
  simp only [writeNoteCommand, hk]
  cases st.builder.getOffsetForNoteCommandPayload debug nc.cmd.ownerMemory <;> rfl

theorem writeThreadCommand_of_none (hk : st.builder.threadCmds[k]? = none) :
    writeThreadCommand debug k st = .ok (true, st) := by
  rw [writeThreadCommand, hk]

theorem writeThreadCommand_of_some (hk : st.builder.threadCmds[k]? = some tc) :
    writeThreadCommand debug k st
      = writeToOStream debug (some tc.bytes) tc.cmdsize.toUInt64 st := by
  rw [writeThreadCommand, hk]

theorem writeSegmentCommand_of_none (hk : st.builder.segmentCmds[k]? = none) :
    writeSegmentCommand debug k st = .ok (true, st) := by
  rw [writeSegmentCommand, hk]

theorem writeSegmentCommand_of_some (hk : st.builder.segmentCmds[k]? = some sc) :
    writeSegmentCommand debug k st
      = st.builder.getOffsetForSegmentCommandPayload debug sc.cmd.vmaddr >>= fun found =>
        writeToOStream debug (some (sc.cmd.withFileoff (found.getD sc.cmd.fileoff)).bytes)
          SegmentCommand64.sizeOf.toUInt64
          { st with builder := st.builder.setSegmentFileoff k (found.getD sc.cmd.fileoff) } := by
  simp only [writeSegmentCommand, hk]
  cases st.builder.getOffsetForSegmentCommandPayload debug sc.cmd.vmaddr <;> rfl

theorem writeNotePayload_of_none (hk : st.builder.noteCmds[k]? = none) :
    writeNotePayload debug k st = .ok (true, st) := by
  rw [writeNotePayload, hk]

theorem writeNotePayload_of_some (hk : st.builder.noteCmds[k]? = some nc) :
    writeNotePayload debug k st
      = st.builder.getOffsetForNoteCommandPayload debug nc.cmd.ownerMemory >>= fun found =>
        found.elim (.error .uninitialized) fun offset =>
          nc.provider.elim (.error .nullDereference) fun p =>
            writeToOStream debug p.getAll nc.cmd.size
              { st with stream := OStream.setPosition offset st.stream } := by
  simp only [writeNotePayload, hk]
  rcases st.builder.getOffsetForNoteCommandPayload debug nc.cmd.ownerMemory with e | _ | offset
  · rfl
  · rfl
  · cases nc.provider <;> rfl

/-- The chunks of a segment and what is left over of it, from where the stream is. -/
def writeSegmentData (debug : Bool) (p : DataProvider) (st : BuildState σ) :
    Except Fault (Bool × BuildState σ) :=
  let chunkSize := min p.size maxChunkSize
  match writeChunks debug p chunkSize (p.size / chunkSize).toNat 0 st with
  | .error e => .error e
  | .ok (false, _, st') => .ok (false, st')
  | .ok (true, offset, st') =>
    writeToOStream debug (p.get offset (p.size % chunkSize)) (p.size % chunkSize) st'

theorem writeSegmentPayload_of_none (hk : st.builder.segmentCmds[k]? = none) :
    writeSegmentPayload debug k st = .ok (true, st) := by
  rw [writeSegmentPayload, hk]

theorem writeSegmentPayload_of_some (hk : st.builder.segmentCmds[k]? = some sc) :
    writeSegmentPayload debug k st = sc.provider.elim (.error .nullDereference) fun p =>
      if debug && p.size != sc.cmd.filesize then .error .assertion
      else
        st.builder.getOffsetForSegmentCommandPayload debug sc.cmd.vmaddr >>= fun found =>
          found.elim (.error .uninitialized) fun startOffset =>
            if min p.size maxChunkSize = 0 then .error .divisionByZero
            else
              writeSegmentData debug p
                { st with stream := OStream.setPosition startOffset st.stream } := by
  simp only [writeSegmentPayload, hk]
  rcases sc.provider with _ | p
  · rfl
  simp only [Option.elim_some]
  split_ifs
  · rfl
  all_goals
    rcases st.builder.getOffsetForSegmentCommandPayload debug sc.cmd.vmaddr with e | _ | offset
    · rfl
    · rfl
    · rfl

end Equations

theorem chunkSize_eq_zero_iff {p : DataProvider} : min p.size maxChunkSize = 0 ↔ p.size = 0 := by
  constructor
  · intro hzero
    rcases min_choice p.size maxChunkSize with h | h
    · exact h ▸ hzero
    · rw [h] at hzero
      exact absurd hzero (by decide)
  · intro hzero
    rw [hzero]
    decide

section Bodies

variable {k : ℕ} {st st' : BuildState σ} {r : Bool}

/-- A command is stored with the offset that was looked up, and written. -/
theorem writeNoteCommand_eq {nc : Note} (hk : st.builder.noteCmds[k]? = some nc)
    (h : writeNoteCommand debug k st = .ok (r, st')) :
    ∃ found, st.builder.getOffsetForNoteCommandPayload debug nc.cmd.ownerMemory = .ok found
      ∧ SameButRanges (st.builder.setNoteOffset k (found.getD nc.cmd.offset)) st'.builder
      ∧ (r, st'.stream) = runOps [.write (some (nc.cmd.withOffset (found.getD nc.cmd.offset)).bytes)
        NoteCommand.sizeOf.toUInt64] st.stream := by
  rw [writeNoteCommand_of_some hk] at h
  obtain ⟨found, ho, h⟩ := exists_of_bind_ok h
  refine ⟨found, ho, sameButRanges_write h, ?_⟩
  have hlen : (nc.cmd.withOffset (found.getD nc.cmd.offset)).bytes.length
      ≤ NoteCommand.sizeOf.toUInt64.toNat := by simp [NoteCommand.sizeOf]
  rw [runOps_of_write h, Option.map_some, List.take_of_length_le hlen]

/-- A payload that is written is found, and has a provider. -/
theorem exists_noteData {nc : Note} (hk : st.builder.noteCmds[k]? = some nc)
    (h : writeNotePayload debug k st = .ok (r, st')) :
    ∃ offset p, st.builder.getOffsetForNoteCommandPayload debug nc.cmd.ownerMemory
        = .ok (some offset) ∧ nc.provider = some p
      ∧ writeToOStream debug p.getAll nc.cmd.size
          { st with stream := OStream.setPosition offset st.stream } = .ok (r, st') := by
  rw [writeNotePayload_of_some hk] at h
  obtain ⟨_ | offset, ho, h⟩ := exists_of_bind_ok h
  · cases h
  simp only [Option.elim_some] at h
  rcases hp : nc.provider with _ | p <;> rw [hp] at h
  · cases h
  · exact ⟨offset, p, ho, rfl, h⟩

theorem writeNotePayload_eq {nc : Note} (hk : st.builder.noteCmds[k]? = some nc)
    (h : writeNotePayload debug k st = .ok (r, st')) :
    ∃ offset p, st.builder.getOffsetForNoteCommandPayload debug nc.cmd.ownerMemory
        = .ok (some offset) ∧ nc.provider = some p ∧ SameButRanges st.builder st'.builder
      ∧ (r, st'.stream) = runOps [.setPosition offset,
        .write (p.getAll.map (·.take nc.cmd.size.toNat)) nc.cmd.size] st.stream := by
  obtain ⟨offset, p, ho, hp, hwrite⟩ := exists_noteData hk h
  have hs := sameButRanges_write hwrite
  refine ⟨offset, p, ho, hp, hs, ?_⟩
  rw [runOps_of_write hwrite]
  rfl

theorem writeSegmentCommand_eq {sc : Segment} (hk : st.builder.segmentCmds[k]? = some sc)
    (h : writeSegmentCommand debug k st = .ok (r, st')) :
    ∃ found, st.builder.getOffsetForSegmentCommandPayload debug sc.cmd.vmaddr = .ok found
      ∧ SameButRanges (st.builder.setSegmentFileoff k (found.getD sc.cmd.fileoff)) st'.builder
      ∧ (r, st'.stream) = runOps
        [.write (some (sc.cmd.withFileoff (found.getD sc.cmd.fileoff)).bytes)
          SegmentCommand64.sizeOf.toUInt64] st.stream := by
  rw [writeSegmentCommand_of_some hk] at h
  obtain ⟨found, ho, h⟩ := exists_of_bind_ok h
  refine ⟨found, ho, sameButRanges_write h, ?_⟩
  have hlen : (sc.cmd.withFileoff (found.getD sc.cmd.fileoff)).bytes.length
      ≤ SegmentCommand64.sizeOf.toUInt64.toNat := by simp [SegmentCommand64.sizeOf]
  rw [runOps_of_write h, Option.map_some, List.take_of_length_le hlen]

/-- The chunks of a segment are those that could be read, unless a write failed before. -/
theorem writeChunks_eq (p : DataProvider) (chunkSize : UInt64) :
    ∀ (n : ℕ) (offset offset' : UInt64) (st st' : BuildState σ) (r : Bool),
      writeChunks debug p chunkSize n offset st = .ok (r, offset', st') →
      SameButRanges st.builder st'.builder
        ∧ (r = true → offset' = (readChunks p chunkSize n offset).2)
        ∧ (r, st'.stream) = runOps ((readChunks p chunkSize n offset).1.map
          fun d => .write (some d) chunkSize) st.stream
  | 0, offset, offset', st, st', r, h => by
    simp only [writeChunks, Except.ok.injEq, Prod.mk.injEq] at h
    obtain ⟨rfl, rfl, rfl⟩ := h
    exact ⟨⟨_, rfl⟩, fun _ => rfl, rfl⟩
  | n + 1, offset, offset', st, st', r, h => by
    rw [writeChunks] at h
    rw [readChunks]
    rcases hg : p.get offset chunkSize with _ | data
    · simp only [hg, Except.ok.injEq, Prod.mk.injEq] at h
      obtain ⟨rfl, rfl, rfl⟩ := h
      exact ⟨⟨_, rfl⟩, fun _ => rfl, rfl⟩
    simp only [hg] at h
    simp only [List.map_cons]
    split at h
    · simp at h
    · rename_i st₁ hw
      simp only [Except.ok.injEq, Prod.mk.injEq] at h
      obtain ⟨rfl, rfl, rfl⟩ := h
      have h₁ := runOps_of_write hw
      simp only [Option.map_some] at h₁
      refine ⟨sameButRanges_write hw, by simp, ?_⟩
      rw [← List.singleton_append, runOps_append_of_false _ _ h₁.symm]
    · rename_i st₁ hw
      have h₁ := runOps_of_write hw
      simp only [Option.map_some] at h₁
      obtain ⟨hs, ho, h₂⟩ := writeChunks_eq p chunkSize n _ offset' st₁ st' r h
      refine ⟨(sameButRanges_write hw).trans hs, ho, ?_⟩
      rw [← List.singleton_append, runOps_append_of_true _ _ h₁.symm, h₂]

theorem writeSegmentData_eq {p : DataProvider} (h : writeSegmentData debug p st = .ok (r, st')) :
    SameButRanges st.builder st'.builder
      ∧ (r, st'.stream) = runOps (segmentDataOps p) st.stream := by
  unfold writeSegmentData at h
  simp only [] at h
  split at h
  · cases h
  · rename_i st₁ hc
    obtain ⟨rfl, rfl⟩ := Prod.mk.inj (Except.ok.inj h)
    obtain ⟨hs, -, h₁⟩ := writeChunks_eq p _ _ _ _ _ _ _ hc
    exact ⟨hs, by rw [segmentDataOps, runOps_append_of_false _ _ h₁.symm]⟩
  · rename_i offset st₁ hc
    obtain ⟨hs, hoff, h₁⟩ := writeChunks_eq p _ _ _ _ _ _ _ hc
    refine ⟨hs.trans (sameButRanges_write h), ?_⟩
    rw [segmentDataOps, runOps_append_of_true _ _ h₁.symm, ← hoff rfl]
    exact runOps_of_write h

theorem exists_segmentData {sc : Segment} (hk : st.builder.segmentCmds[k]? = some sc)
    (h : writeSegmentPayload debug k st = .ok (r, st')) :
    ∃ startOffset p, st.builder.getOffsetForSegmentCommandPayload debug sc.cmd.vmaddr
        = .ok (some startOffset) ∧ sc.provider = some p
      ∧ writeSegmentData debug p { st with stream := OStream.setPosition startOffset st.stream }
        = .ok (r, st') := by
  rw [writeSegmentPayload_of_some hk] at h
  rcases hp : sc.provider with _ | p <;> rw [hp] at h
  · cases h
  simp only [Option.elim_some] at h
  split_ifs at h
  all_goals
    obtain ⟨_ | startOffset, ho, h⟩ := exists_of_bind_ok h
    · cases h
  · cases h
  · exact ⟨startOffset, p, ho, rfl, h⟩

theorem writeSegmentPayload_eq {sc : Segment} (hk : st.builder.segmentCmds[k]? = some sc)
    (h : writeSegmentPayload debug k st = .ok (r, st')) :
    ∃ offset p, st.builder.getOffsetForSegmentCommandPayload debug sc.cmd.vmaddr
        = .ok (some offset) ∧ sc.provider = some p ∧ SameButRanges st.builder st'.builder
      ∧ (r, st'.stream) = runOps (.setPosition offset :: segmentDataOps p) st.stream := by
  obtain ⟨startOffset, p, ho, hp, hdata⟩ := exists_segmentData hk h
  exact ⟨startOffset, p, ho, hp, writeSegmentData_eq hdata⟩

end Bodies

/-- A loop over the commands of a builder does nothing past the last one. -/
theorem scripted_of_none {ops : List StreamOp}
    {f : BuildState σ → Except Fault (Bool × BuildState σ)} {st : BuildState σ} {r : Bool}
    {st' : BuildState σ} (hP : Building b st) (hf : f st = .ok (true, st)) (hops : ops = [])
    (h : f st = .ok (r, st')) : Building b st' ∧ (r, st'.stream) = runOps ops st.stream := by
  rw [hf] at h
  simp only [Except.ok.injEq, Prod.mk.injEq] at h
  obtain ⟨rfl, rfl⟩ := h
  exact ⟨hP, by rw [hops]; rfl⟩

theorem scripted_threadCommand (k : ℕ) :
    Scripted (Building b) (fun st : BuildState σ => st.stream) (writeThreadCommand debug k)
      (b.threadCommandOps k) := by
  intro st r st' hP h
  rw [threadCommandOps, ← (eq_of_unplaced hP).2.2.1]
  rcases hk : st.builder.threadCmds[k]? with _ | tc
  · exact scripted_of_none hP (writeThreadCommand_of_none hk) rfl h
  · rw [writeThreadCommand_of_some hk] at h
    exact scripted_write _ _ st r st' hP h

variable (hf : b.loadCommandsFinalized = true) (hd : b.DistinctOwners)

include hf hd

theorem scripted_noteCommand (k : ℕ) :
    Scripted (Building b) (fun st : BuildState σ => st.stream) (writeNoteCommand debug k)
      (b.noteCommandOps k) := by
  intro st r st' hP h
  rcases hk : st.builder.noteCmds[k]? with _ | nc
  · exact scripted_of_none hP (writeNoteCommand_of_none hk)
      (by rw [noteCommandOps, (getElem?_eq_none_of_unplaced hP).1.1 hk]) h
  obtain ⟨found, ho, hs, hr⟩ := writeNoteCommand_eq hk h
  obtain ⟨n, hb, -, -, hcmd⟩ := note_of_unplaced hP hk
  have hfound := getOffset_of_cstr_eq ((eq_of_unplaced hP).1.trans hf)
    (distinctOwners_of_unplaced hP hd) hk rfl ho
  refine ⟨hs.unplaced.trans ((unplaced_setNoteOffset _ _ _).trans hP), ?_⟩
  rw [hr, hfound, Option.getD_some, noteOffset_of_unplaced hP k, hcmd, noteCommandOps, hb]

theorem scripted_notePayload (k : ℕ) :
    Scripted (Building b) (fun st : BuildState σ => st.stream) (writeNotePayload debug k)
      (b.notePayloadOps k) := by
  intro st r st' hP h
  rcases hk : st.builder.noteCmds[k]? with _ | nc
  · exact scripted_of_none hP (writeNotePayload_of_none hk)
      (by rw [notePayloadOps, (getElem?_eq_none_of_unplaced hP).1.1 hk]) h
  obtain ⟨offset, p, ho, hprov, hs, hr⟩ := writeNotePayload_eq hk h
  obtain ⟨n, hb, hp, hsize, -⟩ := note_of_unplaced hP hk
  have hfound := getOffset_of_cstr_eq ((eq_of_unplaced hP).1.trans hf)
    (distinctOwners_of_unplaced hP hd) hk rfl ho
  simp only [Option.some.injEq, noteOffset_of_unplaced hP k] at hfound
  subst hfound
  refine ⟨hs.unplaced.trans hP, ?_⟩
  rw [hr, notePayloadOps, hb]
  simp only [hp, hprov, hsize, Option.bind_some]

variable (hv : b.DistinctVmaddrs)

include hv

theorem scripted_segmentCommand (k : ℕ) :
    Scripted (Building b) (fun st : BuildState σ => st.stream) (writeSegmentCommand debug k)
      (b.segmentCommandOps k) := by
  intro st r st' hP h
  rcases hk : st.builder.segmentCmds[k]? with _ | sc
  · exact scripted_of_none hP (writeSegmentCommand_of_none hk)
      (by rw [segmentCommandOps, (getElem?_eq_none_of_unplaced hP).2.1 hk]) h
  obtain ⟨found, ho, hs, hr⟩ := writeSegmentCommand_eq hk h
  obtain ⟨s, hb, -, hcmd⟩ := segment_of_unplaced hP hk
  have hfound := getSegmentOffset_eq ((eq_of_unplaced hP).1.trans hf)
    (distinctOwners_of_unplaced hP hd) (distinctVmaddrs_of_unplaced hP hv) hk ho
  refine ⟨hs.unplaced.trans ((unplaced_setSegmentFileoff _ _ _).trans hP), ?_⟩
  rw [hr, hfound, Option.getD_some, segmentOffset_of_unplaced hP k, hcmd, segmentCommandOps, hb]

theorem scripted_segmentPayload (k : ℕ) :
    Scripted (Building b) (fun st : BuildState σ => st.stream) (writeSegmentPayload debug k)
      (b.segmentPayloadOps k) := by
  intro st r st' hP h
  rcases hk : st.builder.segmentCmds[k]? with _ | sc
  · exact scripted_of_none hP (writeSegmentPayload_of_none hk)
      (by rw [segmentPayloadOps, (getElem?_eq_none_of_unplaced hP).2.1 hk]) h
  obtain ⟨offset, p, ho, hprov, hs, hr⟩ := writeSegmentPayload_eq hk h
  obtain ⟨s, hb, hp, -⟩ := segment_of_unplaced hP hk
  have hfound := getSegmentOffset_eq ((eq_of_unplaced hP).1.trans hf)
    (distinctOwners_of_unplaced hP hd) (distinctVmaddrs_of_unplaced hP hv) hk ho
  simp only [Option.some.injEq, segmentOffset_of_unplaced hP k] at hfound
  subst hfound
  refine ⟨hs.unplaced.trans hP, ?_⟩
  rw [hr, segmentPayloadOps, hb]
  simp only [hp, hprov, Option.map_some, Option.getD_some]

omit hf hd hv in
theorem scripted_header :
    Scripted (Building b) (fun st : BuildState σ => st.stream)
      (writeToOStream debug (some b.header.bytes) MachHeader64.sizeOf)
      [.write (some b.header.bytes) MachHeader64.sizeOf] :=
  scripted_write_some (by simp [MachHeader64.sizeOf])

end Script

section Build

open MachOCoreDumpBuilder

variable {σ : Type} [OStream σ] {debug : Bool}

/-- The finalized builder has the commands of the one it comes from, and counts them. -/
theorem finalizeLoadCommands_of_not {b : MachOCoreDumpBuilder}
    (h : b.loadCommandsFinalized = false) :
    b.finalizeLoadCommands = { b with
      header := { b.header with
        ncmds := UInt32.ofNat (b.noteCmds.length + b.threadCmds.length + b.segmentCmds.length)
        sizeofcmds := UInt32.ofNat b.commandsSize }
      loadCommandsFinalized := true } := by
  rw [finalizeLoadCommands, if_neg (by simp [h])]

theorem finalized_finalizeLoadCommands (b : MachOCoreDumpBuilder) :
    b.finalizeLoadCommands.loadCommandsFinalized = true := by
  unfold finalizeLoadCommands
  split_ifs with h
  · exact h
  · rfl

@[simp] theorem noteCmds_finalizeLoadCommands (b : MachOCoreDumpBuilder) :
    b.finalizeLoadCommands.noteCmds = b.noteCmds := by
  unfold finalizeLoadCommands
  split_ifs <;> rfl

@[simp] theorem threadCmds_finalizeLoadCommands (b : MachOCoreDumpBuilder) :
    b.finalizeLoadCommands.threadCmds = b.threadCmds := by
  unfold finalizeLoadCommands
  split_ifs <;> rfl

@[simp] theorem segmentCmds_finalizeLoadCommands (b : MachOCoreDumpBuilder) :
    b.finalizeLoadCommands.segmentCmds = b.segmentCmds := by
  unfold finalizeLoadCommands
  split_ifs <;> rfl

/-- The builder `build` starts from. -/
def startOfBuild (debug : Bool) (b : MachOCoreDumpBuilder) : MachOCoreDumpBuilder :=
  (if debug then { b with writtenRanges := [] } else b).finalizeLoadCommands

theorem unplaced_startOfBuild (debug : Bool) (b : MachOCoreDumpBuilder) :
    (startOfBuild debug b).unplaced = b.finalizeLoadCommands.unplaced := by
  unfold startOfBuild
  split_ifs
  · unfold finalizeLoadCommands
    split_ifs <;> rfl
  · rfl

/-- What `build` does once the commands are finalized. -/
def writeOut (debug : Bool) (b : MachOCoreDumpBuilder) :
    BuildState σ → Except Fault (Bool × BuildState σ) :=
  seq (writeToOStream debug (some b.header.bytes) MachHeader64.sizeOf)
    (seq (forEach (writeNoteCommand debug) (List.range b.noteCmds.length))
    (seq (forEach (writeThreadCommand debug) (List.range b.threadCmds.length))
    (seq (forEach (writeSegmentCommand debug) (List.range b.segmentCmds.length))
    (seq (forEach (writeNotePayload debug) (List.range b.noteCmds.length))
      (forEach (writeSegmentPayload debug) (List.range b.segmentCmds.length))))))

theorem build_eq (st : BuildState σ) :
    build debug st = writeOut debug st.builder.finalizeLoadCommands
      { builder := startOfBuild debug st.builder, stream := st.stream } := by
  have hu := unplaced_startOfBuild debug st.builder
  have hs : (startOfBuild debug st.builder).segmentCmds.length
      = st.builder.finalizeLoadCommands.segmentCmds.length := by
    simpa using congrArg List.length (map_segments_of_unplaced hu (fun _ => ()) fun _ => rfl)
  rw [writeOut, ← length_notes_of_unplaced hu, ← (eq_of_unplaced hu).2.1,
    ← (eq_of_unplaced hu).2.2.1, ← hs]
  rfl

theorem scripted_writeOut {b : MachOCoreDumpBuilder} (hf : b.loadCommandsFinalized = true)
    (hd : b.DistinctOwners) (hv : b.DistinctVmaddrs) :
    Scripted (Building b) (fun st : BuildState σ => st.stream) (writeOut debug b) b.script := by
  have hall : Scripted (Building b) (fun st : BuildState σ => st.stream) (writeOut debug b) _ :=
    scripted_header.seq
    ((Scripted.forEach (scripted_noteCommand hf hd) (List.range b.noteCmds.length)).seq
    ((Scripted.forEach scripted_threadCommand (List.range b.threadCmds.length)).seq
    ((Scripted.forEach (scripted_segmentCommand hf hd hv) (List.range b.segmentCmds.length)).seq
    ((Scripted.forEach (scripted_notePayload hf hd) (List.range b.noteCmds.length)).seq
      (Scripted.forEach (scripted_segmentPayload hf hd hv)
        (List.range b.segmentCmds.length))))))
  rw [script, commandOps, ← List.singleton_append]
  simpa only [List.append_assoc] using hall

/-- A build that ends has run the script of its builder on the stream. -/
theorem build_script {st st' : BuildState σ} {r : Bool}
    (hd : st.builder.finalizeLoadCommands.DistinctOwners)
    (hv : st.builder.finalizeLoadCommands.DistinctVmaddrs)
    (h : build debug st = .ok (r, st')) :
    st'.builder.unplaced = st.builder.finalizeLoadCommands.unplaced
      ∧ (r, st'.stream) = runOps st.builder.finalizeLoadCommands.script st.stream := by
  rw [build_eq] at h
  exact scripted_writeOut (finalized_finalizeLoadCommands st.builder) hd hv
    { builder := startOfBuild debug st.builder, stream := st.stream } r st'
    (unplaced_startOfBuild debug st.builder) h

end Build

end MacMiniDump
