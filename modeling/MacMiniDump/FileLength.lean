import MacMiniDump.Accepted
import MacMiniDump.Extents
import MacMiniDump.OffsetQueries

/-!
# The length of a core file

A file ends where the furthest write to it does. So the payloads that were written whole are all in
it, but one of which only a part could be read, or that is empty, ends past the end of the file
unless something else was written there or further on (`build_holdsPayloads_iff`): the last segment
has to be written whole (`covered_iff_last`).
-/

namespace MacMiniDump

open MachOCoreDumpBuilder

/-- The place of a payload, its size, and how much of it is written. -/
structure Stretch where
  start : ℕ
  size : ℕ
  saved : ℕ

namespace MachOCoreDumpBuilder

def payloads (b : MachOCoreDumpBuilder) : List Stretch :=
  (b.noteCmds.mapIdx fun k n => ⟨(b.noteOffset k).toNat, n.cmd.size.toNat,
      (n.content.take n.cmd.size.toNat).length⟩)
    ++ b.segmentCmds.mapIdx fun k s => ⟨(b.segmentOffset k).toNat, s.cmd.filesize.toNat,
      s.pieces.flatten.length⟩

/-- The commands, or what is written of some payload, end there or further on. -/
def Reaches (b : MachOCoreDumpBuilder) (e : ℕ) : Prop :=
  e ≤ 32 + b.commandsSize ∨ ∃ x ∈ b.payloads, x.saved ≠ 0 ∧ e ≤ x.start + x.saved

/-- Every payload that is empty, or of which not all is written, ends where something else does or
before. -/
def Covered (b : MachOCoreDumpBuilder) : Prop :=
  ∀ x ∈ b.payloads, x.size = 0 ∨ x.saved < x.size → b.Reaches (x.start + x.size)

/-- The ranges that the commands describe are within a file of that length. -/
def HoldsPayloads (b : MachOCoreDumpBuilder) (len : ℕ) : Prop :=
  (∀ nc ∈ b.placedNotes, nc.offset.toNat + nc.size.toNat ≤ len)
    ∧ ∀ sc ∈ b.placedSegments, sc.fileoff.toNat + sc.filesize.toNat ≤ len

end MachOCoreDumpBuilder

section Length

variable {b : MachOCoreDumpBuilder}

/-- The commands as long as they say. -/
structure CommandsSized (b : MachOCoreDumpBuilder) : Prop where
  notes : ∀ n ∈ b.noteCmds, n.cmd.cmdsize = NoteCommand.sizeOf
  threads : ∀ t ∈ b.threadCmds, t.cmdsize.toNat ≤ t.bytes.length
  segments : ∀ s ∈ b.segmentCmds, s.cmd.cmdsize = SegmentCommand64.sizeOf

theorem length_commandOps (h : CommandsSized b) (rest : List StreamOp) :
    (dataUntilSeek (b.commandOps ++ rest)).length
      = 32 + b.commandsSize + (dataUntilSeek rest).length := by
  have hn := map_length_placedNotes h.notes
  have hs := map_length_placedSegments h.segments
  have ht : b.threadCmds.map (fun tc => (tc.bytes.take tc.cmdsize.toNat).length)
      = b.threadCmds.map fun tc => tc.cmdsize.toNat :=
    List.map_congr_left fun t ht => by rw [List.length_take, min_eq_left (h.threads t ht)]
  rw [commandOps_eq, List.cons_append, dataUntilSeek, Option.getD_some]
  simp only [List.append_assoc, dataUntilSeek_writes]
  rw [commandsSize, ← hn, ← hs, ← ht]
  simp only [List.length_append, MachHeader64.length_bytes, List.length_flatMap]
  omega

theorem dataUntilSeek_segmentDataOps (p : DataProvider) :
    dataUntilSeek (segmentDataOps p) = (segmentPieces p).flatten := by
  have hnil : dataUntilSeek [] = [] := rfl
  rw [segmentDataOps, dataUntilSeek_writes, segmentPieces, List.flatMap_id', List.flatten_append,
    dataUntilSeek, hnil]
  rcases p.get (readChunks p (min p.size maxChunkSize) (p.size / min p.size maxChunkSize).toNat 0).2
    (p.size % min p.size maxChunkSize) with _ | d
  · simp
  · simp

theorem written_notes (b : MachOCoreDumpBuilder) :
    dataUntilSeek ((List.range b.noteCmds.length).flatMap b.notePayloadOps) = []
      ∧ written ((List.range b.noteCmds.length).flatMap b.notePayloadOps)
        = b.noteCmds.mapIdx fun k n => (b.noteOffset k, n.content.take n.cmd.size.toNat) := by
  have hparts : (List.range b.noteCmds.length).flatMap b.notePayloadOps
      = (b.noteCmds.mapIdx fun k n => (b.noteOffset k, [StreamOp.write
        ((n.provider.bind (·.getAll)).map (·.take n.cmd.size.toNat)) n.cmd.size])).flatMap
        fun x => .setPosition x.1 :: x.2 :=
    flatMap_range _ _ _ _ fun k n hk => by rw [notePayloadOps, hk]
  obtain ⟨hd, hw⟩ := written_flatMap Prod.fst Prod.snd (b.noteCmds.mapIdx fun k n =>
    (b.noteOffset k, [StreamOp.write
      ((n.provider.bind (·.getAll)).map (·.take n.cmd.size.toNat)) n.cmd.size])) fun x hx => by
    obtain ⟨k, hk, rfl⟩ := List.mem_mapIdx.1 hx
    rfl
  rw [hparts]
  refine ⟨hd, hw.trans ?_⟩
  refine List.ext_getElem? fun i => ?_
  rw [List.getElem?_map, List.getElem?_mapIdx, List.getElem?_mapIdx, Option.map_map]
  refine Option.map_congr fun n _ => ?_
  have hnil : dataUntilSeek [] = [] := rfl
  rw [Function.comp_apply, dataUntilSeek, hnil, List.append_nil, Note.content]
  rcases n.provider.bind (·.getAll) with _ | d
  · simp
  · rfl

theorem written_segments (b : MachOCoreDumpBuilder) :
    dataUntilSeek ((List.range b.segmentCmds.length).flatMap b.segmentPayloadOps) = []
      ∧ written ((List.range b.segmentCmds.length).flatMap b.segmentPayloadOps)
        = b.segmentCmds.mapIdx fun k s => (b.segmentOffset k, s.pieces.flatten) := by
  have hparts : (List.range b.segmentCmds.length).flatMap b.segmentPayloadOps
      = (b.segmentCmds.mapIdx fun k s => (b.segmentOffset k,
        (s.provider.map segmentDataOps).getD [])).flatMap fun x => .setPosition x.1 :: x.2 :=
    flatMap_range _ _ _ _ fun k s hk => by rw [segmentPayloadOps, hk]
  obtain ⟨hd, hw⟩ := written_flatMap Prod.fst Prod.snd (b.segmentCmds.mapIdx fun k s =>
    (b.segmentOffset k, (s.provider.map segmentDataOps).getD [])) fun x hx => by
    obtain ⟨k, hk, rfl⟩ := List.mem_mapIdx.1 hx
    rcases hp : b.segmentCmds[k].provider with _ | p
    · rfl
    · simpa [hp] using seeks_segmentDataOps p
  rw [hparts]
  refine ⟨hd, hw.trans ?_⟩
  refine List.ext_getElem? fun i => ?_
  rw [List.getElem?_map, List.getElem?_mapIdx, List.getElem?_mapIdx, Option.map_map]
  refine Option.map_congr fun s _ => ?_
  rw [Function.comp_apply, Segment.pieces]
  rcases s.provider with _ | p
  · rfl
  · simp [dataUntilSeek_segmentDataOps]

theorem forall_mem_mapIdx {α β : Type} {l : List α} {f : ℕ → α → β} {P : β → Prop} :
    (∀ x ∈ l.mapIdx f, P x) ↔ ∀ (k : ℕ) (h : k < l.length), P (f k l[k]) := by
  simp only [List.mem_mapIdx]
  constructor
  · intro h k hk
    exact h _ ⟨k, hk, rfl⟩
  · rintro h _ ⟨k, hk, rfl⟩
    exact h k hk

theorem exists_mem_mapIdx {α β : Type} {l : List α} {f : ℕ → α → β} {P : β → Prop} :
    (∃ x ∈ l.mapIdx f, P x) ↔ ∃ k, ∃ hk : k < l.length, P (f k l[k]) := by
  simp only [List.mem_mapIdx]
  constructor
  · rintro ⟨_, ⟨k, hk, rfl⟩, hP⟩
    exact ⟨k, hk, hP⟩
  · rintro ⟨k, hk, hP⟩
    exact ⟨_, ⟨k, hk, rfl⟩, hP⟩

/-- What is in a file after the script of `b`. -/
theorem le_length_script_iff (h : CommandsSized b) {f : FileStream}
    (hrun : runOps b.script FileStream.empty = (true, f)) (e : ℕ) :
    e ≤ f.content.length ↔ b.Reaches e := by
  obtain ⟨hdn, hwn⟩ := written_notes b
  obtain ⟨hds, hws⟩ := written_segments b
  have hseeks := seeks_commandOps b
  have hlen := length_commandOps h
    ((List.range b.noteCmds.length).flatMap b.notePayloadOps
      ++ (List.range b.segmentCmds.length).flatMap b.segmentPayloadOps)
  rw [(written_append hds _).2, hdn, List.length_nil, Nat.add_zero] at hlen
  have hne : dataUntilSeek b.script ≠ [] := by
    intro hnil
    rw [script] at hnil
    rw [hnil, List.length_nil] at hlen
    omega
  rw [le_length_runOps_iff hrun, script, hlen, (written_append_of_seeks_eq_nil _ hseeks).1,
    (written_append hds _).1, hwn, hws]
  rw [script] at hne
  have hmem : (∃ w ∈ (b.noteCmds.mapIdx fun k n =>
        (b.noteOffset k, n.content.take n.cmd.size.toNat))
      ++ b.segmentCmds.mapIdx (fun k s => (b.segmentOffset k, s.pieces.flatten)),
        w.2 ≠ [] ∧ e ≤ w.1.toNat + w.2.length)
      ↔ ∃ x ∈ b.payloads, x.saved ≠ 0 ∧ e ≤ x.start + x.saved := by
    simp only [payloads, List.mem_append, or_and_right, exists_or, exists_mem_mapIdx, ne_eq,
      List.length_eq_zero_iff]
  rw [hmem, Reaches]
  simp only [FileStream.empty, List.length_nil, Nat.le_zero, Nat.zero_add, hne, ne_eq,
    not_false_eq_true, true_and]
  constructor
  · rintro (rfl | h)
    · exact .inl (Nat.zero_le _)
    · exact h
  · exact .inr

theorem holdsPayloads_iff {len : ℕ} :
    b.HoldsPayloads len ↔ ∀ x ∈ b.payloads, x.start + x.size ≤ len := by
  simp only [HoldsPayloads, payloads, placedNotes, placedSegments, List.mem_append, or_imp,
    forall_and, forall_mem_mapIdx]
  rfl

/-- With offsets that do not overflow, everything else ends before the last segment starts. -/
theorem payloads_before_last (he : Exact b) {init : List Segment} {last : Segment}
    (hs : b.segmentCmds = init ++ [last]) :
    32 + b.commandsSize ≤ (b.segmentOffset init.length).toNat
      ∧ ∀ x ∈ b.payloads, x.start + x.size ≤ (b.segmentOffset init.length).toNat
        ∨ x = ⟨(b.segmentOffset init.length).toNat, last.cmd.filesize.toNat,
          last.pieces.flatten.length⟩ := by
  have hne : b.segmentCmds ≠ [] := by simp [hs]
  have hlast : (b.segmentOffset init.length).toNat
      = b.segmentsStart + (init.map (·.cmd.filesize.toNat)).sum := by
    rw [he.segmentOffset hne, hs, List.take_left]
  have hstart : 32 + b.commandsSize ≤ b.notesStart := (alignUp_bounds _ (by omega)).1
  have hnotes : b.notesStart ≤ b.notesEnd := Nat.le_add_right _ _
  have hends : b.notesEnd ≤ b.segmentsStart := (alignUp_bounds _ (by omega)).1
  refine ⟨by omega, fun x hx => ?_⟩
  rcases List.mem_append.1 hx with hx | hx
  · obtain ⟨k, hk, rfl⟩ := List.mem_mapIdx.1 hx
    have hsucc := sum_take_succ (fun n : Note => n.cmd.size.toNat) (List.getElem?_eq_getElem hk)
    have hle := sum_take_le (fun n : Note => n.cmd.size.toNat) b.noteCmds (k + 1)
    have hoff := he.noteOffset k
    have hend : b.notesEnd = b.notesStart + (b.noteCmds.map (·.cmd.size.toNat)).sum := rfl
    left
    simp only
    omega
  · obtain ⟨k, hk, rfl⟩ := List.mem_mapIdx.1 hx
    rw [hs, List.length_append, List.length_singleton] at hk
    rcases Nat.lt_or_ge k init.length with hlt | hge
    · have hget : b.segmentCmds[k] = init[k] := by simp [hs, hlt]
      have hsucc := sum_take_succ (fun s : Segment => s.cmd.filesize.toNat)
        (List.getElem?_eq_getElem hlt)
      have hle := sum_take_le (fun s : Segment => s.cmd.filesize.toNat) init (k + 1)
      have hoff := he.segmentOffset hne k
      rw [hs, List.take_append_of_le_length hlt.le] at hoff
      left
      simp only [hget]
      omega
    · obtain rfl : k = init.length := by omega
      right
      simp [hs]

/-- With offsets that do not overflow, all that matters is whether the last segment is written
whole. -/
theorem covered_iff_last (he : Exact b) (hle : ∀ x ∈ b.payloads, x.saved ≤ x.size)
    {init : List Segment} {last : Segment} (hs : b.segmentCmds = init ++ [last])
    (hsize : last.cmd.filesize ≠ 0) :
    b.Covered ↔ last.pieces.flatten.length = last.cmd.filesize.toNat := by
  obtain ⟨hcmds, hbefore⟩ := payloads_before_last he hs
  have hpos : 0 < last.cmd.filesize.toNat := by
    rw [Nat.pos_iff_ne_zero, ne_eq, ← UInt64.toNat_zero, UInt64.toNat_inj]
    exact hsize
  have hmem : (⟨(b.segmentOffset init.length).toNat, last.cmd.filesize.toNat,
      last.pieces.flatten.length⟩ : Stretch) ∈ b.payloads := by
    refine List.mem_append_right _ (List.mem_mapIdx.2 ⟨init.length, by simp [hs], ?_⟩)
    simp [hs]
  have hsaved := hle _ hmem
  simp only at hsaved
  constructor
  · intro hcov
    by_contra hpart
    rcases hcov _ hmem (.inr (by simp only; omega)) with hreach | ⟨x, hx, -, hreach⟩
    · simp only at hreach
      omega
    · simp only at hreach
      have hx' := hle x hx
      rcases hbefore x hx with hb | rfl
      · omega
      · simp only at hreach
        omega
  · intro hwhole x hx _
    refine .inr ⟨_, hmem, by simp only; omega, ?_⟩
    simp only
    rcases hbefore x hx with hb | rfl
    · omega
    · simp only
      omega

end Length

/-- A build that succeeds has left a file that all of the payloads are within, exactly when those
that it did not write whole end no later than what it did write. -/
theorem build_holdsPayloads_iff {debug : Bool} {arch : Arch} {b : MachOCoreDumpBuilder}
    {st' : BuildState FileStream} (h : Accepted debug arch b) (hd : b.DistinctOwners)
    (hv : b.DistinctVmaddrs) (hbuild : build debug ⟨b, FileStream.empty⟩ = .ok (true, st')) :
    b.finalizeLoadCommands.HoldsPayloads st'.stream.content.length
      ↔ b.finalizeLoadCommands.Covered := by
  have hsized : CommandsSized b.finalizeLoadCommands := by
    refine ⟨fun n hn => ?_, fun t ht => ?_, fun s hs => ?_⟩
    · rw [noteCmds_finalizeLoadCommands] at hn
      exact (h.fresh.notes n hn).cmdsize
    · rw [threadCmds_finalizeLoadCommands] at ht
      exact h.fresh.threads t ht
    · rw [segmentCmds_finalizeLoadCommands] at hs
      exact (h.fresh.segments s hs).cmdsize
  have hrun : runOps b.finalizeLoadCommands.script FileStream.empty = (true, st'.stream) := by
    refine (build_script ?_ ?_ hbuild).2.symm
    · rwa [DistinctOwners, noteCmds_finalizeLoadCommands]
    · rwa [DistinctVmaddrs, segmentCmds_finalizeLoadCommands]
  rw [holdsPayloads_iff]
  simp only [le_length_script_iff hsized hrun]
  constructor
  · exact fun hall x hx _ => hall x hx
  · intro hcov x hx
    by_cases hpart : x.size = 0 ∨ x.saved < x.size
    · exact hcov x hx hpart
    · rw [not_or, not_lt] at hpart
      exact .inr ⟨x, hx, by omega, by omega⟩

/-- One note, and one segment that cannot be read. -/
def segmentLost : MachOCoreDumpBuilder :=
  (((new .arm64).addNoteCommand [110] (some (copiedDataProvider [1]))).2.addSegmentCommand
    0x1000 3 (some (processMemoryDataProvider (fun _ _ => none) 0x1000 0x1000))).2

theorem accepted_segmentLost : Accepted false .arm64 segmentLost :=
  accepted_noteAndSegment (by decide) _ _ _ _

theorem distinct_segmentLost : segmentLost.DistinctOwners ∧ segmentLost.DistinctVmaddrs :=
  ⟨List.pairwise_singleton _ _, List.pairwise_singleton _ _⟩

/-- The file ends after the note. -/
theorem build_segmentLost : ∃ st', build false ⟨segmentLost, FileStream.empty⟩ = .ok (true, st')
    ∧ st'.stream.content.length = 145 :=
  exists_of_toOption (by decide +kernel)

theorem build_holdsPayloads_iff_segmentLost :
    ∃ st', build false ⟨segmentLost, FileStream.empty⟩ = .ok (true, st')
      ∧ (segmentLost.finalizeLoadCommands.HoldsPayloads st'.stream.content.length
        ↔ segmentLost.finalizeLoadCommands.Covered) := by
  obtain ⟨st', hb, -⟩ := build_segmentLost
  exact ⟨st', hb, build_holdsPayloads_iff accepted_segmentLost distinct_segmentLost.1
    distinct_segmentLost.2 hb⟩

/-- The command of the segment describes bytes past the end of the file. -/
theorem not_holdsPayloads_segmentLost :
    Accepted false .arm64 segmentLost ∧ segmentLost.DistinctOwners ∧ segmentLost.DistinctVmaddrs
      ∧ ∃ st', build false ⟨segmentLost, FileStream.empty⟩ = .ok (true, st')
        ∧ ¬ segmentLost.finalizeLoadCommands.HoldsPayloads st'.stream.content.length := by
  obtain ⟨st', hb, hlen⟩ := build_segmentLost
  refine ⟨accepted_segmentLost, distinct_segmentLost.1, distinct_segmentLost.2, st', hb,
    fun h => ?_⟩
  have hend := h.2 _ (List.mem_mapIdx.2 ⟨0, by decide, rfl⟩)
  rw [hlen] at hend
  revert hend
  decide +kernel

end MacMiniDump
