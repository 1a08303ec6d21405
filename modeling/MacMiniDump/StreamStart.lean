import MacMiniDump.AddressSpace
import MacMiniDump.Dump
import MacMiniDump.RoundTrip

/-!
# Where a dump starts

A dump empties its stream, but does not go back to the start of it. The header and the commands are
written where the stream happens to be, while the payloads go to offsets that count from the start
of the file. So two dumps of one target are the same file, and one whose offsets lead to the
payloads, when both streams were at their start, and only then (`writeDump_wellPlaced_iff`).
-/

namespace MacMiniDump

open MachOCoreDumpBuilder

section Run

theorem size_eq_zero_of_mem {n : UInt64} :
    ∀ {ops : List StreamOp} {f f' : FileStream}, runOps ops f = (true, f') →
      .write none n ∈ ops → n = 0
  | [], _, _, _, hmem => absurd hmem List.not_mem_nil
  | .setPosition p :: ops, f, f', h, hmem => by
    have h' : runOps ops (OStream.setPosition p f) = (true, f') := h
    rcases List.mem_cons.1 hmem with hm | hm
    · cases hm
    · exact size_eq_zero_of_mem h' hm
  | .write d m :: ops, f, f', h, hmem => by
    rw [runOps] at h
    split_ifs at h with hw
    · rcases List.mem_cons.1 hmem with hm | hm
      · obtain ⟨rfl, rfl⟩ := StreamOp.write.inj hm
        simpa [OStream.write, FileStream.write] using hw
      · exact size_eq_zero_of_mem h hm
    · simp at h

/-- Nothing is written at the start of a file by a script that does not go there. -/
theorem head_of_runOps :
    ∀ {ops : List StreamOp} {f f' : FileStream} {r : Bool}, runOps ops f = (r, f') →
      0 < f.pos → f.content[0]?.getD 0 = 0 → (∀ p ∈ seeks ops, 0 < p.toNat) →
      f'.content[0]?.getD 0 = 0
  | [], f, f', r, h, _, hzero, _ => by
    obtain ⟨-, rfl⟩ := Prod.mk.inj h
    exact hzero
  | .setPosition p :: ops, f, f', r, h, hpos, hzero, hseeks =>
    head_of_runOps (f := OStream.setPosition p f) h (hseeks p (by simp [seeks])) hzero
      fun q hq => hseeks q (by simpa [seeks] using .inr (by simpa [seeks] using hq))
  | .write d n :: ops, f, f', r, h, hpos, hzero, hseeks => by
    have hstep : 0 < (OStream.write d n f).2.pos
        ∧ (OStream.write d n f).2.content[0]?.getD 0 = 0 := by
      rcases d with _ | d
      · exact ⟨hpos, hzero⟩
      · refine ⟨Nat.add_pos_left hpos _, ?_⟩
        show (writeAt f.content f.pos d)[0]?.getD 0 = 0
        by_cases hd : d = []
        · rw [hd, writeAt_nil]
          exact hzero
        · rw [getElem?_writeAt_of_lt hd hpos, Option.getD_some]
          exact hzero
    rw [runOps] at h
    split_ifs at h
    · exact head_of_runOps h hstep.1 hstep.2 fun q hq => hseeks q (by simpa [seeks] using hq)
    · obtain ⟨-, rfl⟩ := Prod.mk.inj h
      exact hstep.2

end Run

section Streams

/-- The offset after the chunks, of which there are no more than were asked for. -/
theorem readChunks_offset (p : DataProvider) (c : UInt64) :
    ∀ (n : ℕ) (offset : UInt64), offset.toNat + n * c.toNat < 2 ^ 64 →
      (readChunks p c n offset).1.length ≤ n ∧ (readChunks p c n offset).2.toNat
        = offset.toNat + (readChunks p c n offset).1.length * c.toNat
  | 0, offset, _ => ⟨Nat.le_refl 0, by simp [readChunks]⟩
  | n + 1, offset, h => by
    unfold readChunks
    split
    · exact ⟨Nat.zero_le _, by simp⟩
    · rw [Nat.succ_mul] at h
      have hoff : (offset + c).toNat = offset.toNat + c.toNat := by
        rw [UInt64.toNat_add, Nat.mod_eq_of_lt (by omega)]
      obtain ⟨hlen, hend⟩ := readChunks_offset p c n (offset + c) (by rw [hoff]; omega)
      refine ⟨Nat.succ_le_succ hlen, ?_⟩
      simp only [List.length_cons, Nat.succ_mul]
      rw [hend, hoff]
      omega

variable {p : DataProvider}

theorem length_of_mem_readChunks (hp : ∀ offset n d, p.get offset n = some d → d.length = n.toNat)
    (c : UInt64) :
    ∀ (n : ℕ) (offset : UInt64), ∀ d ∈ (readChunks p c n offset).1, d.length = c.toNat
  | 0, _, d, hd => absurd hd List.not_mem_nil
  | n + 1, offset, d, hd => by
    unfold readChunks at hd
    split at hd
    · exact absurd hd List.not_mem_nil
    · rename_i data hget
      rcases List.mem_cons.1 hd with rfl | hd
      · rw [List.length_take, hp _ _ _ hget, min_self]
      · exact length_of_mem_readChunks hp c n _ d hd

/-- The pieces of a segment are written as they are, when what is left over can be read. -/
theorem segmentDataOps_of_leftover (hp : ∀ offset n d, p.get offset n = some d → d.length = n.toNat)
    (hzero : ∀ offset, p.get offset 0 = none → p.size < offset)
    (hleft : ∀ n, .write none n ∈ segmentDataOps p → n = 0) :
    segmentDataOps p = writePieces (segmentPieces p)
      ∧ (segmentPieces p).flatten.length ≤ p.size.toNat := by
  obtain ⟨c, hc⟩ : ∃ c, c = min p.size maxChunkSize := ⟨_, rfl⟩
  obtain ⟨n, hn⟩ : ∃ n, n = (p.size / c).toNat := ⟨_, rfl⟩
  have hops : segmentDataOps p = (readChunks p c n 0).1.map (fun d => .write (some d) c)
      ++ [.write ((p.get (readChunks p c n 0).2 (p.size % c)).map
        (·.take (p.size % c).toNat)) (p.size % c)] := by
    rw [hn, hc]
    rfl
  have hpieces : segmentPieces p = (readChunks p c n 0).1
      ++ [((p.get (readChunks p c n 0).2 (p.size % c)).getD []).take (p.size % c).toNat] := by
    rw [hn, hc]
    rfl
  have hdiv : n * c.toNat + (p.size % c).toNat = p.size.toNat := by
    rw [hn]
    exact chunks_add_left p.size c
  have hlt := p.size.toNat_lt
  obtain ⟨hlen, hend⟩ := readChunks_offset p c n 0 (by rw [UInt64.toNat_zero]; omega)
  have hle := Nat.mul_le_mul_right c.toNat hlen
  rw [UInt64.toNat_zero, Nat.zero_add] at hend
  have hchunks := length_of_mem_readChunks hp c n 0
  obtain ⟨d, hget⟩ : ∃ d, p.get (readChunks p c n 0).2 (p.size % c) = some d := by
    rcases hget : p.get (readChunks p c n 0).2 (p.size % c) with _ | d
    · have hempty := hleft (p.size % c) (by rw [hops, hget]; simp)
      rw [hempty] at hget
      have hpast := UInt64.lt_iff_toNat_lt.1 (hzero _ hget)
      omega
    · exact ⟨d, rfl⟩
  have hd : d.take (p.size % c).toNat = d := List.take_of_length_le (hp _ _ _ hget).le
  have hflat : ((readChunks p c n 0).1).flatten.length
      = (readChunks p c n 0).1.length * c.toNat := by
    rw [List.length_flatten, List.map_congr_left hchunks, List.map_const', List.sum_replicate]
    rfl
  rw [hget, Option.map_some, hd] at hops
  rw [hget, Option.getD_some, hd] at hpieces
  rw [hops, hpieces]
  refine ⟨?_, ?_⟩
  · rw [writePieces, List.map_append, List.map_singleton, hp _ _ _ hget, UInt64.ofNat_toNat]
    congr 1
    refine List.map_congr_left fun x hx => ?_
    rw [hchunks x hx, UInt64.ofNat_toNat]
  · rw [List.flatten_append, List.length_append, hflat, List.flatten_singleton, hp _ _ _ hget]
    omega

/-- A range of the memory of the target. -/
theorem processMemory_get_length (space : AddressSpace) (start size : UInt64) :
    (∀ offset n d, (processMemoryDataProvider space.readMemory start size).get offset n = some d →
      d.length = n.toNat)
    ∧ ∀ offset, (processMemoryDataProvider space.readMemory start size).get offset 0 = none →
      size < offset := by
  refine ⟨fun offset n d h => ?_, fun offset h => ?_⟩
  · unfold processMemoryDataProvider at h
    simp only at h
    split_ifs at h
    exact AddressSpace.length_readMemory h
  · by_contra hle
    have hread : space.readMemory (start + offset) 0 = some [] := by
      have hlt := (start + offset).toNat_lt
      unfold AddressSpace.readMemory
      rw [if_pos ⟨by simp; omega, by simp⟩]
      rfl
    simp [processMemoryDataProvider, hle, hread] at h

end Streams

/-! ## The layout -/

/-- The sums of the layout do not overflow, and no payload of a note is too long for its command. -/
structure Fits (b : MachOCoreDumpBuilder) : Prop extends Exact b where
  notes : ∀ n ∈ b.noteCmds, n.content.length < 2 ^ 64

/-- The file has the header and the commands at its start, and each offset in them is that of the
payload, which is behind the commands. -/
structure WellPlaced (b : MachOCoreDumpBuilder) (file : List UInt8) : Prop where
  parses : parseMachO file = some (b.header, b.loadCommands)
  sizeofcmds : b.header.sizeofcmds.toNat = b.commandsSize
  noteData : ∀ k n, b.noteCmds[k]? = some n → n.cmd.size.toNat = n.content.length
    ∧ readAt file (b.noteOffset k).toNat n.content.length = n.content
  segmentData : ∀ k s, b.segmentCmds[k]? = some s →
    readAt file (b.segmentOffset k).toNat s.pieces.flatten.length = s.pieces.flatten
  behind : ∀ r ∈ payloadRanges b.placedNotes b.placedSegments,
    32 + b.header.sizeofcmds.toNat ≤ r.1 ∧ r.1 + r.2 < 2 ^ 64

section Layout

variable {arch : Arch} {env : DumpEnv arch} {debug : Bool} {b : MachOCoreDumpBuilder}
  {file : List UInt8}

/-- When none of the ranges runs over, neither do the sums. -/
theorem sum_lt_of_offsets :
    ∀ (sizes : List UInt64) (start : UInt64),
      (∀ k s, sizes[k]? = some s → (offsetAfter start (sizes.take k)).toNat + s.toNat < 2 ^ 64) →
      start.toNat + (sizes.map UInt64.toNat).sum < 2 ^ 64
  | [], start, _ => start.toNat_lt
  | s :: sizes, start, h => by
    have hfirst : start.toNat + s.toNat < 2 ^ 64 := h 0 s rfl
    have hadd : (start + s).toNat = start.toNat + s.toNat := by
      rw [UInt64.toNat_add, Nat.mod_eq_of_lt hfirst]
    have hrest := sum_lt_of_offsets sizes (start + s) fun k t ht => h (k + 1) t ht
    rw [List.map_cons, List.sum_cons, ← Nat.add_assoc, ← hadd]
    exact hrest

/-- What cannot be rounded up is rounded to zero. -/
theorem roundUp_eq_zero {x m : UInt64} (hm : m.toNat ∣ 2 ^ 64)
    (h : 2 ^ 64 ≤ alignUp x.toNat m.toNat) : roundUp x m = 0 := by
  obtain ⟨q, hq⟩ := hm
  have hx := x.toNat_lt
  unfold alignUp at h
  split_ifs at h with hmod
  · omega
  have hmod' : ¬ x % m = 0 := by
    rwa [← UInt64.toNat_inj, UInt64.toNat_mod, UInt64.toNat_zero]
  have hdiv : x.toNat / m.toNat < q := Nat.div_lt_of_lt_mul (hq ▸ hx)
  have hend : (x.toNat / m.toNat + 1) * m.toNat = 2 ^ 64 := by
    refine le_antisymm ?_ h
    rw [hq, Nat.mul_comm m.toNat q]
    exact Nat.mul_le_mul_right _ hdiv
  refine UInt64.toNat_inj.1 ?_
  calc (roundUp x m).toNat = ((x.toNat / m.toNat + 1) * m.toNat) % 2 ^ 64 := by
        rw [roundUp, if_neg hmod', UInt64.toNat_mul, UInt64.toNat_add, UInt64.toNat_div,
          UInt64.toNat_one, Nat.mod_mul_mod]
    _ = 2 ^ 64 % 2 ^ 64 := by rw [hend]
    _ = 0 := Nat.mod_self _

theorem mem_payloadRanges_iff {r : ℕ × ℕ} :
    r ∈ payloadRanges b.placedNotes b.placedSegments
      ↔ (∃ k n, b.noteCmds[k]? = some n ∧ r = ((b.noteOffset k).toNat, n.cmd.size.toNat))
        ∨ ∃ k s, b.segmentCmds[k]? = some s
          ∧ r = ((b.segmentOffset k).toNat, s.cmd.filesize.toNat) := by
  rw [payloadRanges, List.mem_append, List.mem_map, List.mem_map]
  constructor
  · rintro (⟨nc, hnc, rfl⟩ | ⟨sc, hsc, rfl⟩)
    · obtain ⟨k, hk, rfl⟩ := List.mem_mapIdx.1 hnc
      exact .inl ⟨k, _, List.getElem?_eq_getElem hk, rfl⟩
    · obtain ⟨k, hk, rfl⟩ := List.mem_mapIdx.1 hsc
      exact .inr ⟨k, _, List.getElem?_eq_getElem hk, rfl⟩
  · rintro (⟨k, n, hk, rfl⟩ | ⟨k, s, hk, rfl⟩)
    · obtain ⟨hlt, rfl⟩ := List.getElem?_eq_some_iff.1 hk
      exact .inl ⟨_, List.mem_mapIdx.2 ⟨k, hlt, rfl⟩, rfl⟩
    · obtain ⟨hlt, rfl⟩ := List.getElem?_eq_some_iff.1 hk
      exact .inr ⟨_, List.mem_mapIdx.2 ⟨k, hlt, rfl⟩, rfl⟩

theorem WellPlaced.note (h : WellPlaced b file) {k : ℕ} {n : Note} (hk : b.noteCmds[k]? = some n) :
    32 + b.header.sizeofcmds.toNat ≤ (b.noteOffset k).toNat
      ∧ (b.noteOffset k).toNat + n.cmd.size.toNat < 2 ^ 64 :=
  h.behind _ (mem_payloadRanges_iff.2 (.inl ⟨k, n, hk, rfl⟩))

theorem WellPlaced.segment (h : WellPlaced b file) {k : ℕ} {s : Segment}
    (hk : b.segmentCmds[k]? = some s) :
    32 + b.header.sizeofcmds.toNat ≤ (b.segmentOffset k).toNat
      ∧ (b.segmentOffset k).toNat + s.cmd.filesize.toNat < 2 ^ 64 :=
  h.behind _ (mem_payloadRanges_iff.2 (.inr ⟨k, s, hk, rfl⟩))

/-- When the sums fit, the payloads are behind the commands. -/
theorem Exact.behind (he : Exact b) :
    ∀ r ∈ payloadRanges b.placedNotes b.placedSegments,
      32 + b.header.sizeofcmds.toNat ≤ r.1 ∧ r.1 + r.2 < 2 ^ 64 := by
  intro r hr
  have hstart := (alignUp_bounds (32 + b.commandsSize) (show 0 < 16 by omega)).1
  have hstart' := (alignUp_bounds b.notesEnd (show 0 < 0x1000 by omega)).1
  have hnotes := he.notesFit
  have hsegments := he.segmentsFit
  rw [he.sizeofcmds]
  unfold fileEnd segmentsStart at hsegments
  unfold notesEnd notesStart at *
  rcases mem_payloadRanges_iff.1 hr with ⟨k, n, hk, rfl⟩ | ⟨k, s, hk, rfl⟩
  · have hsucc := sum_take_succ (fun n : Note => n.cmd.size.toNat) hk
    have hle := sum_take_le (fun n : Note => n.cmd.size.toNat) b.noteCmds (k + 1)
    rw [he.noteOffset k, notesStart]
    omega
  · have hne : b.segmentCmds ≠ [] := List.ne_nil_of_mem (List.mem_of_getElem? hk)
    have hsucc := sum_take_succ (fun s : Segment => s.cmd.filesize.toNat) hk
    have hle := sum_take_le (fun s : Segment => s.cmd.filesize.toNat) b.segmentCmds (k + 1)
    have hend := hsegments hne
    rw [he.segmentOffset hne k, segmentsStart, notesEnd, notesStart]
    omega

theorem WellPlaced.fits (h : WellPlaced b file) : Fits b := by
  have hsize : b.header.sizeofcmds.toNat < 2 ^ 32 := b.header.sizeofcmds.toNat_lt
  rw [h.sizeofcmds] at hsize
  have hcmds : (MachHeader64.sizeOf + b.header.sizeofcmds.toUInt64).toNat
      = 32 + b.commandsSize := by
    rw [UInt64.toNat_add, UInt32.toNat_toUInt64, h.sizeofcmds]
    exact Nat.mod_eq_of_lt (by simp [MachHeader64.sizeOf]; omega)
  have hstart : b.firstPayloadOffset.toNat = b.notesStart := by
    have hlt := (alignUp_bounds (32 + b.commandsSize) (show 0 < 16 by omega)).2
    rw [firstPayloadOffset, roundUp_toNat (by decide) (by rw [hcmds]; exact hlt.trans (by omega)),
      hcmds]
    rfl
  have hnotes : b.notesEnd < 2 ^ 64 := by
    have hsum := sum_lt_of_offsets (b.noteCmds.map (·.cmd.size)) b.firstPayloadOffset ?_
    · rwa [hstart, List.map_map] at hsum
    · intro k s hk
      obtain ⟨n, hn, rfl⟩ := Option.map_eq_some_iff.1 (List.getElem?_map ▸ hk)
      have hbehind := (h.note hn).2
      rwa [← List.map_take]
  have hend : (b.noteOffset b.noteCmds.length).toNat = b.notesEnd := by
    have hsum : b.firstPayloadOffset.toNat
        + ((b.noteCmds.map (·.cmd.size)).map UInt64.toNat).sum = b.notesEnd := by
      rw [hstart, List.map_map]
      rfl
    rw [MachOCoreDumpBuilder.noteOffset, List.take_length, offsetAfter_toNat _ _ (by omega), hsum]
  refine
    { sizeofcmds := h.sizeofcmds, notesFit := hnotes
      segmentsFit := fun hne => ?_, notes := ?_ }
  · have hfirst : b.firstSegmentOffset.toNat = b.segmentsStart := by
      have hstep : (0x1000 : UInt64).toNat = 0x1000 := rfl
      rcases Nat.lt_or_ge b.segmentsStart (2 ^ 64) with hlt | hge
      · have hlt' : alignUp (b.noteOffset b.noteCmds.length).toNat (0x1000 : UInt64).toNat
            < 2 ^ 64 := by
          rw [hend, hstep]
          exact hlt
        rw [firstSegmentOffset, roundUp_toNat (by decide) hlt', hend, hstep]
        rfl
      · -- the first segment would be at the start of the file
        have hge' : 2 ^ 64 ≤ alignUp (b.noteOffset b.noteCmds.length).toNat
            (0x1000 : UInt64).toNat := by
          rw [hend, hstep]
          exact hge
        have hzero : b.firstSegmentOffset = 0 :=
          roundUp_eq_zero (by rw [hstep]; exact ⟨2 ^ 52, by norm_num⟩) hge'
        obtain ⟨s, hs⟩ : ∃ s, b.segmentCmds[0]? = some s :=
          ⟨_, List.getElem?_eq_getElem (List.length_pos_of_ne_nil hne)⟩
        have hbehind := (h.segment hs).1
        have hoff : b.segmentOffset 0 = 0 := hzero
        rw [hoff] at hbehind
        simp at hbehind
    have hsum := sum_lt_of_offsets (b.segmentCmds.map (·.cmd.filesize)) b.firstSegmentOffset ?_
    · rwa [hfirst, List.map_map] at hsum
    · intro k x hk
      obtain ⟨s, hs, rfl⟩ := Option.map_eq_some_iff.1 (List.getElem?_map ▸ hk)
      have hbehind := (h.segment hs).2
      rwa [← List.map_take]
  · intro n hn
    obtain ⟨k, hk⟩ := List.getElem?_of_mem hn
    rw [← (h.noteData k n hk).1]
    exact n.cmd.size.toNat_lt

/-- A file with the magic at its start has something there. -/
theorem head_ne_of_parses {header : MachHeader64} {cs : List LoadCommand}
    (h : parseMachO file = some (header, cs)) : file[0]?.getD 0 ≠ 0 := by
  unfold parseMachO at h
  simp only at h
  split_ifs at h with hbad
  push Not at hbad
  obtain ⟨hlen, hmagic⟩ := hbad
  rcases file with _ | ⟨v, rest⟩
  · simp at hlen
  rintro hzero
  have hv : v = 0 := by simpa using hzero
  subst hv
  have hmagic' : u32At ((0 :: rest).take 32) 0 = MH_MAGIC_64 := hmagic
  have hlow : (u32At ((0 :: rest).take 32) 0).toNat % 256 = 0 := by
    show (UInt32.ofNat (0 + 256 * leNat ((rest.take 31).take 3))).toNat % 256 = 0
    rw [UInt32.toNat_ofNat']
    omega
  rw [hmagic'] at hlow
  exact absurd hlow (by decide)

variable {s₁ s₂ f₁ f₂ : FileStream}

/-- A successful run is that of the script on the emptied stream. -/
theorem runOps_of_writeDump (hb : env.prepare debug = .ok (some b))
    (h : env.miniDumpWriteDumpImpl debug s₁ = .ok (true, f₁)) :
    runOps b.script ⟨[], s₁.pos⟩ = (true, f₁) := by
  obtain ⟨b', st', hb', rfl, hbuild⟩ := writeDump_eq h
  rw [hb, Except.ok.injEq, Option.some.injEq] at hb'
  subst hb'
  have hput := prepare_put hb
  have hfin : b.finalizeLoadCommands = b := by rw [finalizeLoadCommands, if_pos hput.finalized]
  have hsize : (OStream.setSize 0 s₁).2 = (⟨[], s₁.pos⟩ : FileStream) := by
    show (⟨_, s₁.pos⟩ : FileStream) = _
    simp
  rw [hsize] at hbuild
  have hscript := (build_script (by rw [hfin]; exact hput.distinctOwners)
    (by rw [hfin]; exact hput.distinctVmaddrs) hbuild).2
  simp only [hfin] at hscript
  exact hscript.symm

/-- With the stream past its start, nothing gets to be there. -/
theorem pos_eq_zero_of_wellPlaced (hrun : runOps b.script ⟨[], s₁.pos⟩ = (true, f₁))
    (h : WellPlaced b f₁.content) : s₁.pos = 0 := by
  by_contra hpos
  refine head_ne_of_parses h.parses (head_of_runOps hrun (Nat.pos_of_ne_zero hpos) rfl ?_)
  intro p hp
  rw [seeks_script, List.mem_append, List.mem_map, List.mem_map] at hp
  rcases hp with ⟨k, hk, rfl⟩ | ⟨k, hk, rfl⟩
  · have hget := List.getElem?_eq_getElem (List.mem_range.1 hk)
    have hbehind := (h.note hget).1
    omega
  · have hget := List.getElem?_eq_getElem (List.mem_range.1 hk)
    have hbehind := (h.segment hget).1
    omega

theorem streams_of_runOps (hput : DumpPut env b) (hfits : Fits b) {p : ℕ}
    (hrun : runOps b.script ⟨[], p⟩ = (true, f₁)) : Streams b where
  threads := hput.threads
  notes n hn := by
    obtain ⟨hform, hprov⟩ := hput.note hn
    exact ⟨hform, _, _, hprov, copiedDataProvider_readsAll (hfits.notes n hn)⟩
  segments s hs := by
    obtain ⟨hform, r, -, -, -, hprov⟩ := hput.segment hs
    obtain ⟨k, hk⟩ := List.getElem?_of_mem hs
    obtain ⟨hlen, hzero⟩ := processMemory_get_length env.target.space r.1 r.2
    obtain ⟨hops, hle⟩ := segmentDataOps_of_leftover hlen hzero fun n hmem => by
      refine size_eq_zero_of_mem hrun (List.mem_append_right _ (List.mem_append_right _ ?_))
      refine List.mem_flatMap.2 ⟨k, List.mem_range.2 (List.getElem?_eq_some_iff.1 hk).1, ?_⟩
      rw [segmentPayloadOps, hk]
      refine List.mem_cons_of_mem _ ?_
      simpa only [hprov, Option.map_some, Option.getD_some] using hmem
    exact ⟨hform, _, hprov, hops, hle⟩

/-- With the stream at its start, the extents are in the file, and there are zeros between them. -/
theorem stores_of_runOps (hstreams : Streams b) (hexact : Exact b)
    (hrun : runOps b.script ⟨[], 0⟩ = (true, f₁)) :
    Stores f₁.content b.extents
      ∧ ∀ i, (∀ x ∈ b.extents, i < x.1.toNat ∨ x.1.toNat + x.2.flatten.length ≤ i) →
        ∀ v, f₁.content[i]? = some v
          ↔ v = 0 ∧ ∃ x ∈ b.extents, i < x.1.toNat ∧ x.2.flatten ≠ [] := by
  obtain ⟨hascend, -⟩ := extents_ascend hstreams hexact
  obtain ⟨f', hf', -, hstores, hgap⟩ := runOps_extents b.extents ⟨[], 0⟩ 0 le_rfl
    (fun _ _ => Nat.zero_le _) hascend
  rw [← script_eq hstreams] at hf'
  have hsame : f' = f₁ := (Prod.mk.inj (hf'.symm.trans hrun)).2
  rw [hsame] at hstores hgap
  exact ⟨hstores, fun i => hgap i (Nat.zero_le i)⟩

/-- With the stream at its start, everything is in its place. -/
theorem wellPlaced_of_runOps (hput : DumpPut env b) (hfits : Fits b)
    (hrun : runOps b.script ⟨[], 0⟩ = (true, f₁)) : WellPlaced b f₁.content := by
  have hstreams : Streams b := streams_of_runOps hput hfits hrun
  have hexact : Exact b := hfits.toExact
  obtain ⟨hstores, -⟩ := stores_of_runOps hstreams hexact hrun
  have hcount : b.loadCommands.length
      = b.noteCmds.length + b.threadCmds.length + b.segmentCmds.length := by
    simp [loadCommands, placedNotes, placedSegments, Nat.add_assoc]
  have hncmds : b.header.ncmds.toNat = b.loadCommands.length := by
    have hle := ncmds_le_commandsSize hstreams
    have hlt := b.header.sizeofcmds.toNat_lt
    rw [hexact.sizeofcmds] at hlt
    rw [hput.ncmds, ← hcount, UInt32.toNat_ofNat', Nat.mod_eq_of_lt (by omega)]
  refine ⟨parses_of_stores hstreams hput.magic hncmds hexact.sizeofcmds hstores, hexact.sizeofcmds,
    fun k n hk => ?_, fun k s hk => segment_of_stores hstores hk, hexact.behind⟩
  obtain ⟨-, -, -, hsize⟩ := hstreams.note hk
  exact ⟨hsize, note_of_stores hstores hk⟩

/-- Two dumps of one target that succeed are the same file, with everything in its place, when both
streams were at their start and the layout fits, and only then. -/
theorem writeDump_wellPlaced_iff (hb : env.prepare debug = .ok (some b))
    (h₁ : env.miniDumpWriteDumpImpl debug s₁ = .ok (true, f₁))
    (h₂ : env.miniDumpWriteDumpImpl debug s₂ = .ok (true, f₂)) :
    (f₁.content = f₂.content ∧ WellPlaced b f₁.content ∧ WellPlaced b f₂.content)
      ↔ s₁.pos = 0 ∧ s₂.pos = 0 ∧ Fits b := by
  have hput := prepare_put hb
  have hrun₁ := runOps_of_writeDump hb h₁
  have hrun₂ := runOps_of_writeDump hb h₂
  constructor
  · rintro ⟨-, hw₁, hw₂⟩
    exact ⟨pos_eq_zero_of_wellPlaced hrun₁ hw₁, pos_eq_zero_of_wellPlaced hrun₂ hw₂, hw₁.fits⟩
  · rintro ⟨hpos₁, hpos₂, hfits⟩
    rw [hpos₁] at hrun₁
    rw [hpos₂] at hrun₂
    have hsame : f₁ = f₂ := (Prod.mk.inj (hrun₁.symm.trans hrun₂)).2
    have hw := wellPlaced_of_runOps hput hfits hrun₁
    exact ⟨congrArg FileStream.content hsame, hw, hsame ▸ hw⟩

end Layout

/-- A target without threads. -/
def smallDump : DumpEnv .arm64 where
  pidForTask := true
  suspended := true
  target :=
    { space := noRegions, uninitialized := ⟨0, 0⟩, threads := some [], threadSelf := 0
      walkStack := fun _ _ => [], modules := sampleModules, nAddrableBits := some 47 }
  crash := none

/-- What of its layout could overflow. -/
def smallLayout : Option (ℕ × ℕ × ℕ × ℕ × List ℕ) :=
  match smallDump.prepare false with
  | .ok (some b) => some (b.header.sizeofcmds.toNat, b.commandsSize, b.notesEnd,
      b.segmentCmds.length, b.noteCmds.map fun n => n.content.length)
  | _ => none

theorem smallDump_prepare : ∃ b, smallDump.prepare false = .ok (some b) ∧ Fits b := by
  have hlayout : smallLayout = some (160, 160, 375, 0, [16, 105, 48, 14]) := by decide +kernel
  unfold smallLayout at hlayout
  split at hlayout
  · rename_i b hb
    simp only [Option.some.injEq, Prod.mk.injEq] at hlayout
    obtain ⟨hsize, hcmds, hend, hsegs, hlens⟩ := hlayout
    refine ⟨b, hb, ⟨hsize.trans hcmds.symm, by omega, fun hne => ?_⟩, fun n hn => ?_⟩
    · exact absurd (List.length_eq_zero_iff.1 hsegs) hne
    · have hmem : n.content.length ∈ b.noteCmds.map fun n => n.content.length :=
        List.mem_map_of_mem hn
      rw [hlens] at hmem
      simp only [List.mem_cons, List.not_mem_nil, or_false] at hmem
      omega
  · simp at hlayout

/-- The dump when the stream is at that position, if it succeeds. -/
def smallDumpFrom (f : FileStream) : Option FileStream :=
  match smallDump.miniDumpWriteDumpImpl false f with
  | .ok (true, f') => some f'
  | _ => none

theorem writeDump_of_smallDumpFrom {f f' : FileStream} (h : smallDumpFrom f = some f') :
    smallDump.miniDumpWriteDumpImpl false f = .ok (true, f') := by
  unfold smallDumpFrom at h
  split at h
  · rename_i f'' hf
    rw [hf, Option.some.inj h]
  · simp at h

theorem exists_smallDumpFrom {f : FileStream} {v : UInt8}
    (h : (smallDumpFrom f).map (fun f' => f'.content[0]?.getD 0) = some v) :
    ∃ f', smallDump.miniDumpWriteDumpImpl false f = .ok (true, f') ∧ f'.content[0]?.getD 0 = v := by
  obtain ⟨f', hf', hv⟩ := Option.map_eq_some_iff.1 h
  exact ⟨f', writeDump_of_smallDumpFrom hf', hv⟩

theorem writeDump_wellPlaced_iff_small :
    ∃ b f₁ f₂, smallDump.prepare false = .ok (some b)
      ∧ smallDump.miniDumpWriteDumpImpl false (⟨[], 0⟩ : FileStream) = .ok (true, f₁)
      ∧ smallDump.miniDumpWriteDumpImpl false (⟨[1, 2, 3], 0⟩ : FileStream) = .ok (true, f₂)
      ∧ f₁.content = f₂.content ∧ WellPlaced b f₁.content ∧ WellPlaced b f₂.content := by
  obtain ⟨b, hb, hfits⟩ := smallDump_prepare
  obtain ⟨f₁, h₁, -⟩ := exists_smallDumpFrom (f := ⟨[], 0⟩) (v := 0xCF) (by decide +kernel)
  obtain ⟨f₂, h₂, -⟩ := exists_smallDumpFrom (f := ⟨[1, 2, 3], 0⟩) (v := 0xCF) (by decide +kernel)
  exact ⟨b, f₁, f₂, hb, h₁, h₂, (writeDump_wellPlaced_iff hb h₁ h₂).2 ⟨rfl, rfl, hfits⟩⟩

/-- With the stream one byte further on, the header is not where it should be. -/
theorem smallDump_differs :
    ∃ b f₁ f₂, smallDump.prepare false = .ok (some b)
      ∧ smallDump.miniDumpWriteDumpImpl false (⟨[], 0⟩ : FileStream) = .ok (true, f₁)
      ∧ smallDump.miniDumpWriteDumpImpl false (⟨[], 1⟩ : FileStream) = .ok (true, f₂)
      ∧ f₁.content ≠ f₂.content ∧ ¬ WellPlaced b f₂.content := by
  obtain ⟨b, hb, -⟩ := smallDump_prepare
  obtain ⟨f₁, h₁, hv₁⟩ := exists_smallDumpFrom (f := ⟨[], 0⟩) (v := 0xCF) (by decide +kernel)
  obtain ⟨f₂, h₂, hv₂⟩ := exists_smallDumpFrom (f := ⟨[], 1⟩) (v := 0) (by decide +kernel)
  refine ⟨b, f₁, f₂, hb, h₁, h₂, fun heq => ?_, fun hw => ?_⟩
  · rw [heq, hv₂] at hv₁
    exact absurd hv₁ (by decide)
  · exact absurd (pos_eq_zero_of_wellPlaced (runOps_of_writeDump hb h₂) hw) (by decide)

end MacMiniDump
