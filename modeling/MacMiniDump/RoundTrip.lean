import MacMiniDump.Completion
import MacMiniDump.Extents

/-!
# A core file reads back

With providers that can be read, a build writes all of its extents. So everything written stays in
the file, and parsing it gives back the commands, with ranges that hold the bytes of their providers
(`build_roundTrip`).
-/

namespace MacMiniDump

open MachOCoreDumpBuilder

/-- Every range of the provider can be read. -/
structure DataProvider.ReadsRanges (p : DataProvider) (data : List UInt8) : Prop where
  size : p.size.toNat = data.length
  get : ∀ offset n : UInt64, offset.toNat + n.toNat ≤ data.length →
    ∃ d, p.get offset n = some d ∧ d.take n.toNat = readAt data offset.toNat n.toNat

theorem copiedDataProvider_readsRanges {data : List UInt8} (h : data.length < 2 ^ 64) :
    (copiedDataProvider data).ReadsRanges data :=
  ⟨by simpa [copiedDataProvider, UInt64.toNat_ofNat'] using h, fun _ _ _ => ⟨_, rfl, rfl⟩⟩

section Chunks

variable {p : DataProvider} {data : List UInt8} {c : UInt64}

/-- When the ranges can be read, so can all the chunks, and they are the data. -/
theorem readChunks_of_readsRanges (h : p.ReadsRanges data) :
    ∀ (n : ℕ) (offset : UInt64), offset.toNat + n * c.toNat ≤ data.length →
      (readChunks p c n offset).1.flatten = readAt data offset.toNat (n * c.toNat)
        ∧ (readChunks p c n offset).2.toNat = offset.toNat + n * c.toNat
        ∧ ∀ d ∈ (readChunks p c n offset).1, d.length = c.toNat
  | 0, offset, _ => by simp [readChunks, readAt]
  | n + 1, offset, hn => by
    have hsucc : (n + 1) * c.toNat = c.toNat + n * c.toNat := by rw [Nat.succ_mul, Nat.add_comm]
    rw [hsucc] at hn
    obtain ⟨d, hg, hd⟩ := h.get offset c (by omega)
    have hp := p.size.toNat_lt
    have hsize := h.size
    have hoff : (offset + c).toNat = offset.toNat + c.toNat := by
      rw [UInt64.toNat_add, Nat.mod_eq_of_lt (by omega)]
    obtain ⟨h₁, h₂, h₃⟩ := readChunks_of_readsRanges h n (offset + c) (by rw [hoff]; omega)
    simp only [readChunks, hg, hsucc]
    refine ⟨?_, ?_, ?_⟩
    · rw [List.flatten_cons, h₁, hd, hoff, readAt_add]
    · rw [h₂, hoff]
      omega
    · intro x hx
      rcases List.mem_cons.1 hx with rfl | hx
      · rw [hd, length_readAt (by omega)]
      · exact h₃ x hx

/-- A segment that can be read is written whole. -/
theorem segmentDataOps_of_readsRanges (h : p.ReadsRanges data) :
    segmentDataOps p = writePieces (segmentPieces p) ∧ (segmentPieces p).flatten = data := by
  set c := min p.size maxChunkSize with hc
  set n := (p.size / c).toNat with hn
  have hdiv : n * c.toNat + (p.size % c).toNat = data.length := by
    rw [hn, ← h.size]
    exact chunks_add_left p.size c
  obtain ⟨h₁, h₂, h₃⟩ := readChunks_of_readsRanges (c := c) h n 0 (by simp; omega)
  simp only [UInt64.toNat_zero, Nat.zero_add] at h₁ h₂
  obtain ⟨d, hg, hd⟩ := h.get (readChunks p c n 0).2 (p.size % c) (by rw [h₂]; omega)
  have hlen : (d.take (p.size % c).toNat).length = (p.size % c).toNat := by
    rw [hd, length_readAt (by rw [h₂]; omega)]
  have hpieces : segmentPieces p
      = (readChunks p c n 0).1 ++ [d.take (p.size % c).toNat] := by
    simp only [segmentPieces, ← hc, ← hn, hg, Option.getD_some]
  refine ⟨?_, ?_⟩
  · simp only [segmentDataOps, ← hc, ← hn, hpieces, writePieces, List.map_append, List.map_cons,
      List.map_nil, hg, Option.map_some, hlen, UInt64.ofNat_toNat]
    congr 1
    refine List.map_congr_left fun x hx => ?_
    rw [h₃ x hx, UInt64.ofNat_toNat]
  · have hadd := readAt_add data 0 (n * c.toNat) (p.size % c).toNat
    rw [Nat.zero_add, hdiv, readAt_zero_self rfl] at hadd
    rw [hpieces, List.flatten_append, h₁, List.flatten_singleton, hd, h₂, ← hadd]

end Chunks

/-- Commands and providers fit to be written: each command is as long as it says, each provider can
be read and has the size its command says. -/
structure Writable (b : MachOCoreDumpBuilder) : Prop where
  threads : ∀ t ∈ b.threadCmds, t.Formed
  notes : ∀ n ∈ b.noteCmds, n.Formed ∧ ∃ p data, n.provider = some p ∧ p.ReadsAll data
  segments : ∀ s ∈ b.segmentCmds,
    s.Formed ∧ ∃ p data, s.provider = some p ∧ p.ReadsRanges data ∧ data ≠ []

section Writable

variable {b : MachOCoreDumpBuilder}

theorem Writable.segment (hw : Writable b) {k : ℕ} {s : Segment}
    (hk : b.segmentCmds[k]? = some s) :
    ∃ p, s.provider = some p ∧ s.pieces = segmentPieces p ∧ p.ReadsRanges s.pieces.flatten
      ∧ s.cmd.filesize.toNat = s.pieces.flatten.length ∧ s.pieces.flatten ≠ []
      ∧ p.size = s.cmd.filesize := by
  obtain ⟨hform, p, data, hp, hr, hne⟩ := hw.segments s (List.mem_of_getElem? hk)
  have hpieces : s.pieces = segmentPieces p := by simp [Segment.pieces, hp]
  have hdata : s.pieces.flatten = data := hpieces ▸ (segmentDataOps_of_readsRanges hr).2
  have hsize : s.cmd.filesize = p.size := by rw [hform.filesize, hp]; rfl
  exact ⟨p, hp, hpieces, hdata ▸ hr, by rw [hsize, hdata, hr.size], hdata ▸ hne, hsize.symm⟩

theorem Writable.streams (hw : Writable b) : Streams b where
  threads := hw.threads
  notes := hw.notes
  segments s hs := by
    obtain ⟨hform, p, data, hp, hr, -⟩ := hw.segments s hs
    obtain ⟨hops, hdata⟩ := segmentDataOps_of_readsRanges hr
    exact ⟨hform, p, hp, hops, by rw [hdata, hr.size]⟩

end Writable

/-- A script of extents that ascend is ascending. -/
theorem ascending_writePieces :
    ∀ (pieces : List (List UInt8)) (pos : ℕ), pos + pieces.flatten.length < 2 ^ 64 →
      Ascending (writePieces pieces) pos
        ∧ endPos (writePieces pieces) pos = pos + pieces.flatten.length
  | [], pos, _ => ⟨trivial, rfl⟩
  | d :: pieces, pos, h => by
    simp only [List.flatten_cons, List.length_append] at h ⊢
    have hd : (UInt64.ofNat d.length).toNat = d.length := by
      rw [UInt64.toNat_ofNat', Nat.mod_eq_of_lt (by omega)]
    obtain ⟨h₁, h₂⟩ := ascending_writePieces pieces (pos + d.length) (by omega)
    simp only [writePieces, List.map_cons, Ascending, endPos, hd]
    refine ⟨⟨⟨d, rfl, rfl⟩, by omega, h₁⟩, ?_⟩
    rw [← Nat.add_assoc]
    exact h₂

theorem ascending_extents :
    ∀ (xs : List (UInt64 × List (List UInt8))) (pos : ℕ), (∀ x ∈ xs, pos ≤ x.1.toNat) →
      (xs.Pairwise fun x y => x.1.toNat + x.2.flatten.length ≤ y.1.toNat) →
      (∀ x ∈ xs, x.1.toNat + x.2.flatten.length < 2 ^ 64) →
      Ascending (xs.flatMap extentOps) pos
  | [], _, _, _, _ => trivial
  | x :: xs, pos, hpos, hp, hlt => by
    obtain ⟨hx, hxs⟩ := List.pairwise_cons.1 hp
    obtain ⟨h₁, h₂⟩ := ascending_writePieces x.2 x.1.toNat (hlt x List.mem_cons_self)
    refine ⟨hpos x List.mem_cons_self, ?_⟩
    refine (ascending_append _ _ _).2 ⟨h₁, ?_⟩
    rw [h₂]
    exact ascending_extents xs _ hx hxs fun y hy => hlt y (List.mem_cons_of_mem _ hy)

/-- The ranges of a file that the commands name. -/
def payloadRanges (notes : List NoteCommand) (segments : List SegmentCommand64) : List (ℕ × ℕ) :=
  notes.map (fun nc => (nc.offset.toNat, nc.size.toNat))
    ++ segments.map fun sc => (sc.fileoff.toNat, sc.filesize.toNat)

/-- The file parses into the commands of the builder, and their ranges, which lie one after another
behind the commands, hold the bytes of the providers. -/
structure ReadsBack (b : MachOCoreDumpBuilder) (file : List UInt8) (header : MachHeader64)
    (notes : List NoteCommand) (segments : List SegmentCommand64) : Prop where
  parses : parseMachO file = some (header,
    notes.map .note ++ b.threadCmds.map .thread ++ segments.map .segment)
  ncmds : header.ncmds.toNat = notes.length + b.threadCmds.length + segments.length
  sizeofcmds : header.sizeofcmds.toNat = ((notes.map LoadCommand.note
    ++ b.threadCmds.map LoadCommand.thread
    ++ segments.map LoadCommand.segment).flatMap LoadCommand.bytes).length
  noteData : List.Forall₂ (fun n nc => nc.dataOwner = n.cmd.dataOwner
    ∧ ∀ p data, n.provider = some p → p.ReadsAll data →
      nc.size = p.size ∧ readAt file nc.offset.toNat nc.size.toNat = data) b.noteCmds notes
  segmentData : List.Forall₂ (fun s sc => sc.vmaddr = s.cmd.vmaddr ∧ sc.initprot = s.cmd.initprot
    ∧ sc.filesize = sc.vmsize ∧ ∀ p data, s.provider = some p → p.ReadsRanges data →
      sc.filesize = p.size ∧ readAt file sc.fileoff.toNat sc.filesize.toNat = data)
    b.segmentCmds segments
  noteAligned : ∀ nc ∈ notes.head?, 16 ∣ nc.offset.toNat
  segmentAligned : ∀ sc ∈ segments.head?, 0x1000 ∣ sc.fileoff.toNat
  behind : ∀ r ∈ payloadRanges notes segments, 32 + header.sizeofcmds.toNat ≤ r.1
  disjoint : (payloadRanges notes segments).Pairwise fun r r' => r.1 + r.2 ≤ r'.1

section ReadsBack

variable {b : MachOCoreDumpBuilder}

theorem noteData_of_stores {file : List UInt8} (hw : Writable b) (h : Stores file b.extents) :
    List.Forall₂ (fun n nc => nc.dataOwner = n.cmd.dataOwner
      ∧ ∀ p data, n.provider = some p → p.ReadsAll data →
        nc.size = p.size ∧ readAt file nc.offset.toNat nc.size.toNat = data)
      b.noteCmds b.placedNotes := by
  refine List.forall₂_iff_get.2 ⟨by simp [placedNotes], fun k hk _ => ?_⟩
  have hget : b.noteCmds[k]? = some b.noteCmds[k] := List.getElem?_eq_getElem hk
  obtain ⟨p, hp, hr, hsize⟩ := hw.streams.note hget
  simp only [placedNotes, List.get_eq_getElem, List.getElem_mapIdx]
  refine ⟨rfl, fun q data hq hdata => ?_⟩
  rw [hp, Option.some.injEq] at hq
  subst hq
  have hcontent : b.noteCmds[k].content = data := by
    rw [← Option.some.injEq, ← hr.getAll, hdata.getAll]
  have hstored := note_of_stores h hget
  refine ⟨?_, ?_⟩
  · rw [← UInt64.toNat_inj, hr.size]
    exact hsize
  · rw [← hcontent, ← hstored, ← hsize]
    rfl

theorem segmentData_of_stores {file : List UInt8} (hw : Writable b) (h : Stores file b.extents) :
    List.Forall₂ (fun s sc => sc.vmaddr = s.cmd.vmaddr ∧ sc.initprot = s.cmd.initprot
      ∧ sc.filesize = sc.vmsize ∧ ∀ p data, s.provider = some p → p.ReadsRanges data →
        sc.filesize = p.size ∧ readAt file sc.fileoff.toNat sc.filesize.toNat = data)
      b.segmentCmds b.placedSegments := by
  refine List.forall₂_iff_get.2 ⟨by simp [placedSegments], fun k hk _ => ?_⟩
  have hget : b.segmentCmds[k]? = some b.segmentCmds[k] := List.getElem?_eq_getElem hk
  obtain ⟨p, hp, hpieces, hr, hsize, -, hfs⟩ := hw.segment hget
  have hvm := (hw.segments _ (List.getElem_mem hk)).1.vmsize
  simp only [placedSegments, List.get_eq_getElem, List.getElem_mapIdx]
  refine ⟨rfl, rfl, hvm.symm, fun q data hq hdata => ?_⟩
  rw [hp, Option.some.injEq] at hq
  subst hq
  have hcontent : b.segmentCmds[k].pieces.flatten = data := by
    rw [hpieces, (segmentDataOps_of_readsRanges hdata).2]
  refine ⟨hfs.symm, ?_⟩
  rw [← hcontent, ← segment_of_stores h hget, ← hsize]
  rfl

theorem payloadRanges_eq (hw : Writable b) :
    payloadRanges b.placedNotes b.placedSegments
      = (b.noteExtents ++ b.segmentExtents).map fun x => (x.1.toNat, x.2.flatten.length) := by
  rw [payloadRanges, List.map_append]
  congr 1
  · refine List.ext_getElem (by simp [placedNotes, noteExtents]) fun k hk _ => ?_
    simp only [placedNotes, List.length_map, List.length_mapIdx] at hk
    obtain ⟨-, -, -, hsize⟩ := hw.streams.note (List.getElem?_eq_getElem hk)
    simp [placedNotes, noteExtents, NoteCommand.withOffset, hsize]
  · refine List.ext_getElem (by simp [placedSegments, segmentExtents]) fun k hk _ => ?_
    simp only [placedSegments, List.length_map, List.length_mapIdx] at hk
    obtain ⟨-, -, -, -, hsize, -⟩ := hw.segment (List.getElem?_eq_getElem hk)
    simp [placedSegments, segmentExtents, SegmentCommand64.withFileoff, hsize]

/-- A builder that is ready to be written is, and reads back. -/
theorem build_readsBack {debug : Bool} {b₀ : MachOCoreDumpBuilder}
    (hfin : b₀.finalizeLoadCommands = b) (hw : Writable b)
    (he : Exact b) (hn : b.noteCmds ≠ []) (hd : b.DistinctOwners) (hv : b.DistinctVmaddrs)
    (hmagic : b.header.magic = MH_MAGIC_64)
    (hncmds : b.header.ncmds.toNat = b.loadCommands.length) :
    ∃ st', build debug ⟨b₀, FileStream.empty⟩ = .ok (true, st')
      ∧ ReadsBack b st'.stream.content b.header b.placedNotes b.placedSegments := by
  obtain ⟨hpair, hlt⟩ := extents_ascend hw.streams he
  have hasc : Ascending b.script 0 := by
    have h := ascending_extents b.extents 0 (fun _ _ => Nat.zero_le _) hpair hlt
    rw [← script_eq hw.streams] at h
    exact h.2
  have hprov : Provided b := by
    refine ⟨hn, fun n hmem => ?_, fun s hmem => ?_⟩
    · obtain ⟨-, p, -, hp, -⟩ := hw.notes n hmem
      simp [hp]
    · obtain ⟨k, hk⟩ := List.getElem?_of_mem hmem
      obtain ⟨p, hp, -, hr, -, hne, hsize⟩ := hw.segment hk
      refine ⟨p, hp, hsize, fun hzero => hne ?_⟩
      have := hr.size
      rw [hzero] at this
      exact List.eq_nil_of_length_eq_zero this.symm
  obtain ⟨st', hb, hrun⟩ := build_completes (b := b₀) (f := FileStream.empty)
    (by rwa [hfin]) (by rwa [hfin]) (by rwa [hfin]) (by decide) (by rwa [hfin])
  refine ⟨st', hb, ?_⟩
  obtain ⟨f', hrun', -, hread, -⟩ :=
    runOps_extents b.extents FileStream.empty 0 (by simp [FileStream.empty])
    (fun _ _ => Nat.zero_le _) hpair
  rw [← script_eq hw.streams] at hrun'
  rw [hfin] at hrun
  have hfile : f' = st'.stream := by
    have h : runOps b.script FileStream.empty = (true, f') := hrun'
    rw [hrun] at h
    simpa using h.symm
  subst hfile
  have hstores : Stores st'.stream.content b.extents := hread
  exact
    { parses := parses_of_stores hw.streams hmagic hncmds he.sizeofcmds hstores
      ncmds := by simpa [loadCommands, Nat.add_assoc] using hncmds
      sizeofcmds := by rw [he.sizeofcmds, ← length_commands hw.streams, loadCommands]
      noteData := noteData_of_stores hw hstores
      segmentData := segmentData_of_stores hw hstores
      noteAligned := by
        intro nc hnc
        rw [List.head?_eq_getElem?, placedNotes, List.getElem?_mapIdx] at hnc
        obtain ⟨n, -, rfl⟩ := Option.map_eq_some_iff.1 hnc
        simpa [NoteCommand.withOffset, he.noteOffset, notesStart] using dvd_alignUp _ 16
      segmentAligned := by
        intro sc hsc
        rw [List.head?_eq_getElem?, placedSegments, List.getElem?_mapIdx] at hsc
        obtain ⟨s, hs, rfl⟩ := Option.map_eq_some_iff.1 hsc
        have hs := List.ne_nil_of_mem (List.mem_of_getElem? hs)
        simpa [SegmentCommand64.withFileoff, he.segmentOffset hs, segmentsStart]
          using dvd_alignUp _ 0x1000
      behind := by
        rw [payloadRanges_eq hw, he.sizeofcmds]
        intro r hr
        obtain ⟨x, hx, rfl⟩ := List.mem_map.1 hr
        have h := (List.pairwise_cons.1 hpair).1 x hx
        rw [List.flatten_cons, List.length_append, MachHeader64.length_bytes] at h
        have hl := length_commands hw.streams
        rw [List.flatMap] at hl
        rw [hl] at h
        simpa using h
      disjoint := by
        rw [payloadRanges_eq hw, List.pairwise_map]
        exact (List.pairwise_cons.1 hpair).2 }

/-- What a dump is put together from with `calls` is written whole, and reads back: the commands
in the order of the calls, every range with the bytes of its provider. -/
theorem build_roundTrip {arch : Arch} {debug : Bool} {calls : List (Call FileStream)}
    (hadds : ∀ c ∈ calls, c.Adds arch) (hrun : runCalls debug calls (new arch) = .ok b)
    (hnote : b.noteCmds ≠ []) (hd : b.DistinctOwners) (hv : b.DistinctVmaddrs)
    (hnotes : ∀ n ∈ b.noteCmds, ∃ p data, n.provider = some p ∧ p.ReadsAll data)
    (hsegments : ∀ s ∈ b.segmentCmds,
      ∃ p data, s.provider = some p ∧ p.ReadsRanges data ∧ data ≠ [])
    (hcmds : b.commandsSize < 2 ^ 32) (hend : b.fileEnd < 2 ^ 64) :
    b.Holds (calls.filterMap Call.noteOwner) (calls.filterMap Call.threadStates)
        (calls.filterMap Call.segment)
      ∧ ∃ st' header notes segments, build debug ⟨b, FileStream.empty⟩ = .ok (true, st')
        ∧ ReadsBack b st'.stream.content header notes segments := by
  have hnew : (new arch).Holds [] [] [] := ⟨rfl, rfl, rfl⟩
  obtain ⟨hform, hholds⟩ := runCalls_formed hadds (formed_new arch) hnew hrun
  refine ⟨hholds, ?_⟩
  have hfin := finalizeLoadCommands_of_not hform.notFinalized
  set c := b.finalizeLoadCommands with hc
  have hw : Writable c := by
    rw [hfin]
    exact ⟨hform.threads, fun n hn => ⟨hform.notes n hn, hnotes n hn⟩,
      fun s hs => ⟨hform.segments s hs, hsegments s hs⟩⟩
  have hsize : c.commandsSize = b.commandsSize := by rw [hfin]; rfl
  have he : Exact c := by
    have hnotes : b.notesEnd ≤ b.segmentsStart := (alignUp_bounds _ (by omega)).1
    have hseg : b.segmentsStart ≤ b.fileEnd := Nat.le_add_right _ _
    refine ⟨?_, ?_, ?_⟩
    · rw [hsize, hfin]
      exact Nat.mod_eq_of_lt hcmds
    · rw [hfin]
      calc b.notesEnd ≤ b.segmentsStart := hnotes
        _ ≤ b.fileEnd := hseg
        _ < 2 ^ 64 := hend
    · rw [hfin]
      exact fun _ => hend
  have hncmds : c.header.ncmds.toNat = c.loadCommands.length := by
    have hle := ncmds_le_commandsSize hw.streams
    have hlen : c.loadCommands.length
        = b.noteCmds.length + b.threadCmds.length + b.segmentCmds.length := by
      rw [hfin]
      simp [loadCommands, placedNotes, placedSegments, Nat.add_assoc]
    rw [hlen, hsize] at hle
    rw [hlen, hfin]
    exact Nat.mod_eq_of_lt (by omega)
  have hmagic : c.header.magic = MH_MAGIC_64 := by
    rw [hfin, hform.header]
    rfl
  obtain ⟨st', hb, hr⟩ := build_readsBack hc.symm hw he (by rw [hfin]; exact hnote)
    (by rw [hfin]; exact hd) (by rw [hfin]; exact hv) hmagic hncmds
  refine ⟨st', c.header, c.placedNotes, c.placedSegments, hb, ?_⟩
  rw [hfin] at hr ⊢
  exact ⟨hr.parses, hr.ncmds, hr.sizeofcmds, hr.noteData, hr.segmentData, hr.noteAligned,
    hr.segmentAligned, hr.behind, hr.disjoint⟩

/-- A note, a thread and a segment. -/
def sampleCalls : List (Call FileStream) :=
  [.addNoteCommand [0x61] none,
    .addThreadCommand [(⟨6, 68, Vector.replicate 272 0⟩ : GPR .arm64).threadState,
      (⟨7, 4, Vector.replicate 16 0⟩ : EXC .arm64).threadState],
    .addSegmentCommand 0x1000 1 (some (copiedDataProvider [4, 5])),
    .addDataProviderForNoteCommand [0x61] (some (copiedDataProvider [1, 2, 3]))]

theorem build_roundTrip_sample :
    ∃ b, runCalls true sampleCalls (new .arm64) = .ok b
      ∧ b.Holds (sampleCalls.filterMap Call.noteOwner) (sampleCalls.filterMap Call.threadStates)
        (sampleCalls.filterMap Call.segment)
      ∧ ∃ st' header notes segments, build true ⟨b, FileStream.empty⟩ = .ok (true, st')
        ∧ ReadsBack b st'.stream.content header notes segments := by
  have hadds : ∀ c ∈ sampleCalls, c.Adds .arm64 := by
    intro c hc
    simp only [sampleCalls, List.mem_cons, List.not_mem_nil, or_false] at hc
    rcases hc with rfl | rfl | rfl | rfl
    · exact .note _ _
    · exact .thread _ _
    · exact .segment _ _ _
    · exact .noteData _ _
  refine ⟨_, rfl, build_roundTrip hadds rfl ?_ ?_ ?_ ?_ ?_ ?_ ?_⟩
  · exact List.cons_ne_nil _ _
  · exact List.pairwise_singleton _ _
  · exact List.pairwise_singleton _ _
  · intro n hn
    obtain rfl := List.mem_singleton.1 hn
    exact ⟨_, [1, 2, 3], rfl, copiedDataProvider_readsAll (by decide)⟩
  · intro s hs
    obtain rfl := List.mem_singleton.1 hs
    exact ⟨_, [4, 5], rfl, copiedDataProvider_readsRanges (by decide), by simp⟩
  · decide +kernel
  · decide +kernel

end ReadsBack

end MacMiniDump
