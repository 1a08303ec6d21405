import MacMiniDump.Layout
import MacMiniDump.Calls
import MacMiniDump.Reader

/-!
# The extents of a build

The stretches of the file that a build writes: the commands, the payloads of the notes from a
16-byte boundary on, and those of the segments from a page boundary on, each at the sum of the sizes
before it. As long as none of the sums overflows they ascend (`extents_ascend`), and a file that
holds them parses (`parses_of_stores`).
-/

namespace MacMiniDump

open MachOCoreDumpBuilder

/-- The whole of the provider can be read at once. -/
structure DataProvider.ReadsAll (p : DataProvider) (data : List UInt8) : Prop where
  size : p.size.toNat = data.length
  getAll : p.getAll = some data

theorem copiedDataProvider_readsAll {data : List UInt8} (h : data.length < 2 ^ 64) :
    (copiedDataProvider data).ReadsAll data :=
  ⟨by simpa [copiedDataProvider, UInt64.toNat_ofNat'] using h, rfl⟩

/-- The pieces a segment is written in. -/
def segmentPieces (p : DataProvider) : List (List UInt8) :=
  let chunkSize := min p.size maxChunkSize
  let chunks := readChunks p chunkSize (p.size / chunkSize).toNat 0
  let left := p.size % chunkSize
  chunks.1 ++ [((p.get chunks.2 left).getD []).take left.toNat]

/-- The next multiple of `m`. -/
def alignUp (n m : ℕ) : ℕ := if n % m = 0 then n else (n / m + 1) * m

theorem dvd_alignUp (n m : ℕ) : m ∣ alignUp n m := by
  unfold alignUp
  split_ifs with h
  · exact Nat.dvd_of_mod_eq_zero h
  · exact Dvd.intro_left _ rfl

theorem alignUp_bounds (n : ℕ) {m : ℕ} (hm : 0 < m) :
    n ≤ alignUp n m ∧ alignUp n m < n + m := by
  unfold alignUp
  have hdiv := Nat.div_add_mod' n m
  have hmod := Nat.mod_lt n hm
  split_ifs with h
  · omega
  · rw [Nat.succ_mul]
    omega

theorem roundUp_toNat {x m : UInt64} (hm : 0 < m.toNat) (h : alignUp x.toNat m.toNat < 2 ^ 64) :
    (roundUp x m).toNat = alignUp x.toNat m.toNat := by
  have hzero : x % m = 0 ↔ x.toNat % m.toNat = 0 := by
    rw [← UInt64.toNat_inj, UInt64.toNat_mod, UInt64.toNat_zero]
  unfold alignUp at h ⊢
  unfold roundUp
  simp only [hzero]
  split_ifs at h ⊢ with hr
  · rfl
  · have hq : (x / m + 1).toNat = x.toNat / m.toNat + 1 := by
      have hlt : x.toNat / m.toNat + 1 ≤ (x.toNat / m.toNat + 1) * m.toNat :=
        Nat.le_mul_of_pos_right _ hm
      rw [UInt64.toNat_add, UInt64.toNat_div, UInt64.toNat_one, Nat.mod_eq_of_lt (by omega)]
    rw [UInt64.toNat_mul, hq, Nat.mod_eq_of_lt h]

namespace MachOCoreDumpBuilder

/-- Where the payloads of the notes start. -/
def notesStart (b : MachOCoreDumpBuilder) : ℕ := alignUp (32 + b.commandsSize) 16

/-- Where the payloads of the notes end. -/
def notesEnd (b : MachOCoreDumpBuilder) : ℕ :=
  b.notesStart + (b.noteCmds.map (·.cmd.size.toNat)).sum

/-- Where the payloads of the segments start. -/
def segmentsStart (b : MachOCoreDumpBuilder) : ℕ := alignUp b.notesEnd 0x1000

/-- Where the file ends, in exact arithmetic. -/
def fileEnd (b : MachOCoreDumpBuilder) : ℕ :=
  b.segmentsStart + (b.segmentCmds.map (·.cmd.filesize.toNat)).sum

end MachOCoreDumpBuilder

section Offsets

variable {b : MachOCoreDumpBuilder}

/-- The sum of the sizes before an element, and of those up to and with it. -/
theorem sum_take_le {α : Type*} (f : α → ℕ) (l : List α) (k : ℕ) :
    ((l.take k).map f).sum ≤ (l.map f).sum := by
  calc ((l.take k).map f).sum ≤ ((l.take k).map f).sum + ((l.drop k).map f).sum := by omega
    _ = (l.map f).sum := by rw [← List.sum_append, ← List.map_append, List.take_append_drop]

theorem sum_take_succ {α : Type*} (f : α → ℕ) {l : List α} {k : ℕ} {a : α} (h : l[k]? = some a) :
    ((l.take (k + 1)).map f).sum = ((l.take k).map f).sum + f a := by
  rw [List.take_add_one, h]
  simp

/-- No sum of the layout overflows: the offsets are the exact ones. -/
structure Exact (b : MachOCoreDumpBuilder) : Prop where
  sizeofcmds : b.header.sizeofcmds.toNat = b.commandsSize
  notesFit : b.notesEnd < 2 ^ 64
  segmentsFit : b.segmentCmds ≠ [] → b.fileEnd < 2 ^ 64

theorem Exact.noteOffset (h : Exact b) (k : ℕ) :
    (b.noteOffset k).toNat = b.notesStart + ((b.noteCmds.take k).map (·.cmd.size.toNat)).sum := by
  have hend := h.notesFit
  have hle := sum_take_le (fun n : Note => n.cmd.size.toNat) b.noteCmds k
  have hcmds : (MachHeader64.sizeOf + b.header.sizeofcmds.toUInt64).toNat
      = 32 + b.commandsSize := by
    have := b.header.sizeofcmds.toNat_lt
    rw [UInt64.toNat_add, UInt32.toNat_toUInt64, h.sizeofcmds]
    rw [h.sizeofcmds] at this
    exact Nat.mod_eq_of_lt (by simp [MachHeader64.sizeOf]; omega)
  have hstart : b.firstPayloadOffset.toNat = b.notesStart := by
    have hlt : alignUp (32 + b.commandsSize) 16 < 2 ^ 64 := by
      unfold notesEnd notesStart at hend
      omega
    rw [firstPayloadOffset, roundUp_toNat (by decide) (by rw [hcmds]; exact hlt), hcmds]
    rfl
  unfold MachOCoreDumpBuilder.noteOffset
  unfold notesEnd at hend
  rw [offsetAfter_toNat, hstart, List.map_map]
  · rfl
  · rw [hstart, List.map_map]
    simp only [Function.comp_def]
    omega

theorem Exact.segmentOffset (h : Exact b) (hs : b.segmentCmds ≠ []) (k : ℕ) :
    (b.segmentOffset k).toNat
      = b.segmentsStart + ((b.segmentCmds.take k).map (·.cmd.filesize.toNat)).sum := by
  have hend := h.segmentsFit hs
  have hle := sum_take_le (fun s : Segment => s.cmd.filesize.toNat) b.segmentCmds k
  have hnotes : (b.noteOffset b.noteCmds.length).toNat = b.notesEnd := by
    rw [h.noteOffset, List.take_length, notesEnd]
  have hlt : b.segmentsStart < 2 ^ 64 := lt_of_le_of_lt (Nat.le_add_right _ _) hend
  have hstart : b.firstSegmentOffset.toNat = b.segmentsStart := by
    rw [firstSegmentOffset, roundUp_toNat (by decide) (by rw [hnotes]; exact hlt), hnotes]
    rfl
  unfold MachOCoreDumpBuilder.segmentOffset
  unfold MachOCoreDumpBuilder.fileEnd at hend
  rw [offsetAfter_toNat, hstart, List.map_map]
  · rfl
  · rw [hstart, List.map_map]
    simp only [Function.comp_def]
    omega

end Offsets

/-- The data of the note, the pieces of the segment. -/
def Note.content (n : Note) : List UInt8 := (n.provider.bind (·.getAll)).getD []

def Segment.pieces (s : Segment) : List (List UInt8) := (s.provider.map segmentPieces).getD []

namespace MachOCoreDumpBuilder

/-- The commands as they are written. -/
def loadCommands (b : MachOCoreDumpBuilder) : List LoadCommand :=
  b.placedNotes.map .note ++ b.threadCmds.map .thread ++ b.placedSegments.map .segment

def noteExtents (b : MachOCoreDumpBuilder) : List (UInt64 × List (List UInt8)) :=
  b.noteCmds.mapIdx fun k n => (b.noteOffset k, [n.content])

def segmentExtents (b : MachOCoreDumpBuilder) : List (UInt64 × List (List UInt8)) :=
  b.segmentCmds.mapIdx fun k s => (b.segmentOffset k, s.pieces)

def extents (b : MachOCoreDumpBuilder) : List (UInt64 × List (List UInt8)) :=
  (0, b.header.bytes :: b.loadCommands.map LoadCommand.bytes) :: (b.noteExtents ++ b.segmentExtents)

end MachOCoreDumpBuilder

/-- Commands and providers fit to be written: each command is as long as it says, the providers of
the notes can be read, and the pieces of a segment are no longer than its command says. -/
structure Streams (b : MachOCoreDumpBuilder) : Prop where
  threads : ∀ t ∈ b.threadCmds, t.Formed
  notes : ∀ n ∈ b.noteCmds, n.Formed ∧ ∃ p data, n.provider = some p ∧ p.ReadsAll data
  segments : ∀ s ∈ b.segmentCmds, s.Formed ∧ ∃ p, s.provider = some p
    ∧ segmentDataOps p = writePieces (segmentPieces p)
    ∧ (segmentPieces p).flatten.length ≤ p.size.toNat

section Extents

variable {b : MachOCoreDumpBuilder}

theorem Streams.note (hw : Streams b) {k : ℕ} {n : Note} (hk : b.noteCmds[k]? = some n) :
    ∃ p, n.provider = some p ∧ p.ReadsAll n.content ∧ n.cmd.size.toNat = n.content.length := by
  obtain ⟨hform, p, data, hp, hr⟩ := hw.notes n (List.mem_of_getElem? hk)
  have hc : n.content = data := by simp [Note.content, hp, hr.getAll]
  refine ⟨p, hp, hc ▸ hr, ?_⟩
  rw [hform.size, hp, hc]
  exact hr.size

theorem Streams.segment (hw : Streams b) {k : ℕ} {s : Segment}
    (hk : b.segmentCmds[k]? = some s) :
    ∃ p, s.provider = some p ∧ segmentDataOps p = writePieces s.pieces
      ∧ s.pieces.flatten.length ≤ s.cmd.filesize.toNat := by
  obtain ⟨hform, p, hp, hops, hlen⟩ := hw.segments s (List.mem_of_getElem? hk)
  have hpieces : s.pieces = segmentPieces p := by simp [Segment.pieces, hp]
  have hsize : s.cmd.filesize = p.size := by rw [hform.filesize, hp]; rfl
  exact ⟨p, hp, hpieces ▸ hops, by rw [hsize, hpieces]; exact hlen⟩

theorem Streams.wellFormed (hw : Streams b) : ∀ c ∈ b.loadCommands, c.WellFormed := by
  intro c hc
  simp only [loadCommands, List.mem_append, List.mem_map] at hc
  rcases hc with (⟨nc, hnc, rfl⟩ | ⟨tc, htc, rfl⟩) | ⟨sc, hsc, rfl⟩
  · obtain ⟨k, hk, rfl⟩ := List.mem_mapIdx.1 hnc
    have h := (hw.notes _ (List.getElem_mem hk)).1
    exact ⟨h.cmd, h.cmdsize⟩
  · have h := hw.threads tc htc
    exact ⟨h.cmd, h.cmdsize⟩
  · obtain ⟨k, hk, rfl⟩ := List.mem_mapIdx.1 hsc
    have h := (hw.segments _ (List.getElem_mem hk)).1
    exact ⟨h.cmd, h.cmdsize⟩

/-- The commands are written one after another. -/
theorem commandOps_eq_writePieces (hw : Streams b) :
    b.commandOps = writePieces (b.header.bytes :: b.loadCommands.map LoadCommand.bytes) := by
  have hthreads : b.threadCmds.map (fun tc => StreamOp.write (some (tc.bytes.take tc.cmdsize.toNat))
      tc.cmdsize.toUInt64) = writePieces (b.threadCmds.map ThreadCommand.bytes) := by
    rw [writePieces, List.map_map]
    refine List.map_congr_left fun t ht => ?_
    have hlen : t.cmdsize.toNat = t.bytes.length := by
      rw [(hw.threads t ht).cmdsize, ThreadCommand.length_bytes]
    have hsize : t.cmdsize.toUInt64 = UInt64.ofNat t.bytes.length := by
      rw [← hlen, ← UInt32.toNat_toUInt64, UInt64.ofNat_toNat]
    rw [hsize, hlen, List.take_length]
    rfl
  rw [commandOps_eq, hthreads, loadCommands]
  simp only [writePieces, List.map_append, List.map_map, List.map_cons, Function.comp_def,
    LoadCommand.bytes, MachHeader64.length_bytes, NoteCommand.length_bytes,
    SegmentCommand64.length_bytes]
  rfl

theorem script_eq (hw : Streams b) :
    .setPosition 0 :: b.script = b.extents.flatMap extentOps := by
  have hnotes : (List.range b.noteCmds.length).flatMap b.notePayloadOps
      = b.noteExtents.flatMap extentOps := by
    refine flatMap_range _ _ _ _ fun k n hk => ?_
    obtain ⟨p, hp, hr, hsize⟩ := hw.note hk
    simp only [notePayloadOps, hk, hp, Option.bind_some, hr.getAll, Option.map_some, extentOps,
      writePieces, List.map_cons, List.map_nil, hsize, List.take_length]
    rw [← hsize, UInt64.ofNat_toNat]
  have hsegments : (List.range b.segmentCmds.length).flatMap b.segmentPayloadOps
      = b.segmentExtents.flatMap extentOps := by
    refine flatMap_range _ _ _ _ fun k s hk => ?_
    obtain ⟨p, hp, hops, -⟩ := hw.segment hk
    simp only [segmentPayloadOps, hk, hp, Option.map_some, Option.getD_some, extentOps, hops]
  rw [script, hnotes, hsegments, extents, List.flatMap_cons, List.flatMap_append,
    commandOps_eq_writePieces hw]
  rfl

/-- Extents whose positions are the sums of the sizes before them do not overlap. -/
theorem extents_of_sums {α : Type*} {l : List α} {f : α → ℕ} (start : ℕ)
    {g : ℕ → α → UInt64 × List (List UInt8)}
    (hg : ∀ k a, l[k]? = some a → (g k a).1.toNat = start + ((l.take k).map f).sum
      ∧ (g k a).2.flatten.length ≤ f a) :
    ((l.mapIdx g).Pairwise fun x y => x.1.toNat + x.2.flatten.length ≤ y.1.toNat)
      ∧ ∀ x ∈ l.mapIdx g, start ≤ x.1.toNat
        ∧ x.1.toNat + x.2.flatten.length ≤ start + (l.map f).sum := by
  refine ⟨List.pairwise_iff_getElem.2 fun i j hi hj hij => ?_, fun x hx => ?_⟩
  · rw [List.length_mapIdx] at hi hj
    obtain ⟨hpi, hli⟩ := hg i l[i] (List.getElem?_eq_getElem hi)
    obtain ⟨hpj, -⟩ := hg j l[j] (List.getElem?_eq_getElem hj)
    have hsucc := sum_take_succ f (List.getElem?_eq_getElem hi)
    have hle := sum_take_le f (l.take j) (i + 1)
    rw [List.take_take, min_eq_left (by omega)] at hle
    simp only [List.getElem_mapIdx]
    omega
  · obtain ⟨i, hi, rfl⟩ := List.mem_mapIdx.1 hx
    obtain ⟨hpi, hli⟩ := hg i l[i] (List.getElem?_eq_getElem hi)
    have hsucc := sum_take_succ f (List.getElem?_eq_getElem hi)
    have hle := sum_take_le f l (i + 1)
    omega

theorem length_commands (hw : Streams b) :
    (b.loadCommands.flatMap LoadCommand.bytes).length = b.commandsSize := by
  have hn := map_length_placedNotes fun n h => (hw.notes n h).1.cmdsize
  have ht : b.threadCmds.map (fun tc => tc.bytes.length)
      = b.threadCmds.map fun tc => tc.cmdsize.toNat :=
    List.map_congr_left fun t ht => by
      rw [ThreadCommand.length_bytes, (hw.threads t ht).cmdsize]
  have hs := map_length_placedSegments fun s h => (hw.segments s h).1.cmdsize
  rw [List.length_flatMap, loadCommands, commandsSize, ← hn, ← ht, ← hs]
  simp only [List.map_append, List.map_map, List.sum_append]
  rfl

/-- The extents of a build: the commands, then the payloads, each after the one before. -/
theorem extents_ascend (hw : Streams b) (he : Exact b) :
    (b.extents.Pairwise fun x y => x.1.toNat + x.2.flatten.length ≤ y.1.toNat)
      ∧ ∀ x ∈ b.extents, x.1.toNat + x.2.flatten.length < 2 ^ 64 := by
  obtain ⟨hnp, hnb⟩ := extents_of_sums b.notesStart (l := b.noteCmds)
    (f := fun n => n.cmd.size.toNat)
    (g := fun k n => (b.noteOffset k, [n.content])) fun k n hk => by
      obtain ⟨-, -, -, hsize⟩ := hw.note hk
      exact ⟨he.noteOffset k, by simpa using hsize.ge⟩
  obtain ⟨hsp, hsb⟩ := extents_of_sums b.segmentsStart (l := b.segmentCmds)
    (f := fun s => s.cmd.filesize.toNat) (g := fun k s => (b.segmentOffset k, s.pieces))
    fun k s hk => by
      obtain ⟨-, -, -, hsize⟩ := hw.segment hk
      exact ⟨he.segmentOffset (List.ne_nil_of_mem (List.mem_of_getElem? hk)) k, hsize⟩
  have hlen : (b.header.bytes :: b.loadCommands.map LoadCommand.bytes).flatten.length
      = 32 + b.commandsSize := by
    rw [List.flatten_cons, List.length_append, MachHeader64.length_bytes, ← length_commands hw,
      List.flatMap]
  have hstart : 32 + b.commandsSize ≤ b.notesStart := (alignUp_bounds _ (by omega)).1
  have hends : b.notesEnd ≤ b.segmentsStart := (alignUp_bounds _ (by omega)).1
  have hend := he.notesFit
  have hne : b.notesStart ≤ b.notesEnd := Nat.le_add_right _ _
  have hzero : (0 : UInt64).toNat = 0 := rfl
  have hnb' : ∀ x ∈ b.noteExtents, b.notesStart ≤ x.1.toNat
      ∧ x.1.toNat + x.2.flatten.length ≤ b.notesEnd := hnb
  have hsb' : ∀ x ∈ b.segmentExtents, b.segmentsStart ≤ x.1.toNat
      ∧ x.1.toNat + x.2.flatten.length ≤ b.fileEnd := hsb
  refine ⟨?_, fun x hx => ?_⟩
  · refine List.pairwise_cons.2 ⟨fun x hx => ?_, List.pairwise_append.2 ⟨hnp, hsp, ?_⟩⟩
    · simp only [hlen, hzero]
      rcases List.mem_append.1 hx with hx | hx
      · have := hnb' x hx
        omega
      · have := hsb' x hx
        omega
    · intro x hx y hy
      have := hnb' x hx
      have := hsb' y hy
      omega
  · rcases List.mem_cons.1 hx with rfl | hx
    · simp only [hlen, hzero]
      omega
    · rcases List.mem_append.1 hx with hx | hx
      · have := hnb' x hx
        omega
      · have hs : b.segmentCmds ≠ [] := by
          rintro hs
          simp [segmentExtents, hs] at hx
        exact lt_of_le_of_lt (hsb' x hx).2 (he.segmentsFit hs)

theorem ncmds_le_commandsSize (hw : Streams b) : b.loadCommands.length ≤ b.commandsSize := by
  rw [← length_commands hw, List.length_flatMap]
  have h : ∀ n ∈ b.loadCommands.map fun c => c.bytes.length, 1 ≤ n := by
    intro n hn
    obtain ⟨c, hc, rfl⟩ := List.mem_map.1 hn
    have := (LoadCommand.cmdsize_bytes (hw.wellFormed c hc)).2
    omega
  simpa using List.length_le_sum_of_one_le _ h

/-- A file that starts with the header and the commands parses. -/
theorem parseMachO_append (hw : Streams b) (hmagic : b.header.magic = MH_MAGIC_64)
    (hncmds : b.header.ncmds.toNat = b.loadCommands.length)
    (hsize : b.header.sizeofcmds.toNat = b.commandsSize) (rest : List UInt8) :
    parseMachO (b.header.bytes ++ b.loadCommands.flatMap LoadCommand.bytes ++ rest)
      = some (b.header, b.loadCommands) := by
  have hdecode : MachHeader64.decode ((b.header.bytes ++ b.loadCommands.flatMap LoadCommand.bytes
      ++ rest).take 32) = b.header := by
    rw [List.append_assoc, List.take_left' (by simp), MachHeader64.decode_bytes]
  have hread : readAt (b.header.bytes ++ b.loadCommands.flatMap LoadCommand.bytes ++ rest) 32
      b.header.sizeofcmds.toNat = b.loadCommands.flatMap LoadCommand.bytes := by
    have hl := length_commands hw
    rw [List.append_assoc, readAt_append_right (by simp), MachHeader64.length_bytes, Nat.sub_self,
      readAt_append_left (by omega), readAt_zero_self (by omega)]
  have hlen : ¬ (b.header.bytes ++ b.loadCommands.flatMap LoadCommand.bytes ++ rest).length
      < 32 + b.header.sizeofcmds.toNat := by
    have hl := length_commands hw
    simp only [List.length_append, MachHeader64.length_bytes]
    omega
  have hparse := parseCommands_flatMap b.loadCommands [] hw.wellFormed
  rw [List.append_nil] at hparse
  unfold parseMachO
  simp only [hdecode, hlen, hmagic, ne_eq, not_true_eq_false, or_self, if_false, hread, hncmds,
    hparse]

/-- The extents of the file are in it. -/
def Stores (file : List UInt8) (xs : List (UInt64 × List (List UInt8))) : Prop :=
  ∀ x ∈ xs, readAt file x.1.toNat x.2.flatten.length = x.2.flatten

theorem parses_of_stores {file : List UInt8} (hw : Streams b)
    (hmagic : b.header.magic = MH_MAGIC_64) (hncmds : b.header.ncmds.toNat = b.loadCommands.length)
    (hsize : b.header.sizeofcmds.toNat = b.commandsSize) (h : Stores file b.extents) :
    parseMachO file = some (b.header, b.loadCommands) := by
  have hfirst := h _ List.mem_cons_self
  simp only [UInt64.toNat_zero, readAt, List.drop_zero] at hfirst
  have hsplit := List.take_append_drop
    (b.header.bytes :: b.loadCommands.map LoadCommand.bytes).flatten.length file
  rw [hfirst, List.flatten_cons] at hsplit
  rw [← hsplit]
  exact parseMachO_append hw hmagic hncmds hsize _

theorem note_of_stores {file : List UInt8} (h : Stores file b.extents) {k : ℕ} {n : Note}
    (hk : b.noteCmds[k]? = some n) :
    readAt file (b.noteOffset k).toNat n.content.length = n.content := by
  obtain ⟨hlt, rfl⟩ := List.getElem?_eq_some_iff.1 hk
  have hx : (b.noteOffset k, [b.noteCmds[k].content]) ∈ b.extents :=
    List.mem_cons_of_mem _ (List.mem_append_left _ (List.mem_mapIdx.2 ⟨k, hlt, rfl⟩))
  simpa only [List.flatten_singleton] using h _ hx

theorem segment_of_stores {file : List UInt8} (h : Stores file b.extents) {k : ℕ} {s : Segment}
    (hk : b.segmentCmds[k]? = some s) :
    readAt file (b.segmentOffset k).toNat s.pieces.flatten.length = s.pieces.flatten := by
  obtain ⟨hlt, rfl⟩ := List.getElem?_eq_some_iff.1 hk
  exact h _ (List.mem_cons_of_mem _ (List.mem_append_right _ (List.mem_mapIdx.2 ⟨k, hlt, rfl⟩)))

end Extents

end MacMiniDump
