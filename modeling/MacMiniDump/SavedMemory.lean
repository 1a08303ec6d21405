import MacMiniDump.Protection
import MacMiniDump.StreamStart

/-!
# The memory in a dump

The memory of a segment is read in chunks, and the first one that cannot be read ends the segment,
but for as many bytes as do not fill a chunk. So a segment is as long as its run of requested
addresses, but what is saved of it stops at the first chunk with a page that is not mapped, and
everything behind it in the run is lost, unless it is zero where the file goes on with another
segment (`savesRequested_iff`). Most runs are a single chunk, and then nothing of them is saved.
-/

namespace MacMiniDump

open MachOCoreDumpBuilder DisjointIntervalSet

namespace AddressSpace

variable (space : AddressSpace)

/-- How many chunks can be read before the first that cannot. -/
def leadingChunks (start chunk : UInt64) (n : ℕ) : ℕ :=
  ((List.range n).takeWhile fun i =>
    (space.readMemory (start + UInt64.ofNat i * chunk) chunk).isSome).length

/-- How many bytes of the range are read. -/
def savedLength (start size : UInt64) : ℕ :=
  let chunk := min size maxChunkSize
  let k := space.leadingChunks start chunk (size / chunk).toNat
  let left := size % chunk
  k * chunk.toNat
    + if (space.readMemory (start + UInt64.ofNat k * chunk) left).isSome then left.toNat else 0

variable {space} {a n : UInt64}

theorem leadingChunks_succ (start c : UInt64) (n : ℕ) :
    space.leadingChunks start c (n + 1)
      = if (space.readMemory start c).isSome then space.leadingChunks (start + c) c n + 1
        else 0 := by
  have hnext : ∀ i : ℕ, start + UInt64.ofNat (i + 1) * c = start + c + UInt64.ofNat i * c := by
    intro i
    have hone : UInt64.ofNat 1 * c = c := UInt64.one_mul c
    rw [UInt64.ofNat_add, UInt64.add_mul, hone, UInt64.add_comm _ c, UInt64.add_assoc]
  have hfirst : start + UInt64.ofNat 0 * c = start := by simp
  unfold leadingChunks
  rw [List.range_succ_eq_map, List.takeWhile_cons, hfirst]
  split_ifs
  · rw [List.length_cons, List.takeWhile_map, List.length_map]
    simp only [Function.comp_def, Nat.succ_eq_add_one, hnext]
  · rfl

theorem leadingChunks_le (space : AddressSpace) (start c : UInt64) (n : ℕ) :
    space.leadingChunks start c n ≤ n :=
  (List.takeWhile_sublist _).length_le.trans List.length_range.le

/-- The chunks of a range, as they are read. -/
theorem readChunks_processMemory (space : AddressSpace) (start size c : UInt64) :
    ∀ (n : ℕ) (offset : UInt64), offset.toNat + n * c.toNat ≤ size.toNat →
      (readChunks (processMemoryDataProvider space.readMemory start size) c n offset).1.length
          = space.leadingChunks (start + offset) c n
        ∧ (readChunks (processMemoryDataProvider space.readMemory start size) c n offset).1.flatten
          = space.bytes (start + offset) (space.leadingChunks (start + offset) c n * c.toNat)
  | 0, offset, _ => by simp [readChunks, leadingChunks, bytes]
  | n + 1, offset, h => by
    rw [Nat.succ_mul] at h
    have hlt := size.toNat_lt
    have hoff : (offset + c).toNat = offset.toNat + c.toNat := by
      rw [UInt64.toNat_add, Nat.mod_eq_of_lt (by omega)]
    have hin : ¬ size < offset + c := by
      rw [UInt64.lt_iff_toNat_lt, hoff]
      omega
    have hget : (processMemoryDataProvider space.readMemory start size).get offset c
        = space.readMemory (start + offset) c := if_neg hin
    obtain ⟨hlen, hflat⟩ := readChunks_processMemory space start size c n (offset + c)
      (by rw [hoff]; omega)
    rw [readChunks, hget, leadingChunks_succ, UInt64.add_assoc]
    rcases hread : space.readMemory (start + offset) c with _ | d
    · simp [bytes]
    · have hd := eq_bytes_of_readMemory hread
      simp only [Option.isSome_some, if_true, List.length_cons, List.flatten_cons, hlen, hflat]
      refine ⟨trivial, ?_⟩
      rw [Nat.succ_mul, Nat.add_comm, bytes_add, UInt64.ofNat_toNat, UInt64.add_assoc, hd,
        List.take_of_length_le (by simp)]

theorem savedLength_eq (space : AddressSpace) (start : UInt64) {size c : UInt64}
    (hc : c = min size maxChunkSize) :
    space.savedLength start size = space.leadingChunks start c (size / c).toNat * c.toNat
      + if (space.readMemory
          (start + UInt64.ofNat (space.leadingChunks start c (size / c).toNat) * c)
          (size % c)).isSome then (size % c).toNat else 0 := by
  rw [hc]
  rfl

/-- What is left over of a range is read where its chunks stopped. -/
theorem get_readChunks (space : AddressSpace) (start size c : UInt64) :
    (processMemoryDataProvider space.readMemory start size).get
        (readChunks (processMemoryDataProvider space.readMemory start size) c (size / c).toNat 0).2
        (size % c)
      = space.readMemory
        (start + UInt64.ofNat (space.leadingChunks start c (size / c).toNat) * c) (size % c) := by
  obtain ⟨p, hp⟩ : ∃ p, p = processMemoryDataProvider space.readMemory start size := ⟨_, rfl⟩
  have hdiv := chunks_add_left size c
  have hlt := size.toNat_lt
  obtain ⟨n, hn⟩ : ∃ n, n = (size / c).toNat := ⟨_, rfl⟩
  rw [← hn] at hdiv
  obtain ⟨hlen, -⟩ := readChunks_processMemory space start size c n 0
    (by rw [UInt64.toNat_zero]; omega)
  obtain ⟨-, hend⟩ := readChunks_offset p c n 0 (by rw [UInt64.toNat_zero]; omega)
  rw [UInt64.add_zero, ← hp] at hlen
  rw [hlen, UInt64.toNat_zero, Nat.zero_add] at hend
  obtain ⟨k, hk⟩ : ∃ k, k = space.leadingChunks start c n := ⟨_, rfl⟩
  have hkn : k * c.toNat ≤ n * c.toNat := Nat.mul_le_mul_right _ (hk ▸ leadingChunks_le _ _ _ _)
  rw [← hk] at hend
  have hoffset : (readChunks p c n 0).2 = UInt64.ofNat k * c := by
    rw [← UInt64.toNat_inj, hend, UInt64.toNat_mul, UInt64.toNat_ofNat', Nat.mod_mul_mod,
      Nat.mod_eq_of_lt (by omega)]
  have hin : ¬ size < UInt64.ofNat k * c + size % c := by
    rw [UInt64.lt_iff_toNat_lt, UInt64.toNat_add, ← hoffset, hend, Nat.mod_eq_of_lt (by omega)]
    omega
  rw [← hp, ← hn, ← hk, hoffset, hp]
  exact if_neg hin

/-- What is written of a range is its first bytes. -/
theorem flatten_segmentPieces (start size : UInt64) :
    (segmentPieces (processMemoryDataProvider space.readMemory start size)).flatten
      = space.bytes start (space.savedLength start size) := by
  obtain ⟨c, hc⟩ : ∃ c, c = min size maxChunkSize := ⟨_, rfl⟩
  obtain ⟨p, hp⟩ : ∃ p, p = processMemoryDataProvider space.readMemory start size := ⟨_, rfl⟩
  have hpieces : segmentPieces p = (readChunks p c (size / c).toNat 0).1
      ++ [((p.get (readChunks p c (size / c).toNat 0).2 (size % c)).getD []).take
        (size % c).toNat] := by
    rw [hc, hp]
    rfl
  have hsaved := savedLength_eq space start hc
  have hdiv := chunks_add_left size c
  have hget := get_readChunks space start size c
  obtain ⟨-, hflat⟩ := readChunks_processMemory space start size c (size / c).toNat 0
    (by rw [UInt64.toNat_zero]; omega)
  rw [UInt64.add_zero, ← hp] at hflat
  rw [← hp] at hget
  obtain ⟨k, hk⟩ : ∃ k, k = space.leadingChunks start c (size / c).toNat := ⟨_, rfl⟩
  rw [← hk] at hget hflat hsaved
  have hstart : UInt64.ofNat (k * c.toNat) = UInt64.ofNat k * c := by
    rw [UInt64.ofNat_mul, UInt64.ofNat_toNat]
  rw [← hp, hpieces, hsaved, List.flatten_append, List.flatten_singleton, hflat, hget, bytes_add,
    hstart]
  congr 1
  rcases hread : space.readMemory (start + UInt64.ofNat k * c) (size % c) with _ | d
  · simp [bytes]
  · rw [Option.getD_some, Option.isSome_some, if_pos rfl, eq_bytes_of_readMemory hread,
      List.take_of_length_le (by simp)]

theorem savedLength_le (start size : UInt64) : space.savedLength start size ≤ size.toNat := by
  have hdiv := chunks_add_left size (min size maxChunkSize)
  have hchunks := Nat.mul_le_mul_right (min size maxChunkSize).toNat
    (leadingChunks_le space start (min size maxChunkSize) (size / min size maxChunkSize).toNat)
  rw [savedLength_eq space start rfl]
  split_ifs <;> omega

/-- Where anything is saved of a range, its first byte is. -/
theorem readable_of_savedLength_pos {start size : UInt64} (h : 0 < space.savedLength start size) :
    space.Readable start := by
  obtain ⟨c, hc⟩ : ∃ c, c = min size maxChunkSize := ⟨_, rfl⟩
  have hpos : 0 < c.toNat := by
    have hsize : 0 < size := UInt64.lt_iff_toNat_lt.2 (h.trans_le (savedLength_le start size))
    have hmin : 0 < c := hc ▸ lt_min hsize (by decide)
    exact UInt64.lt_iff_toNat_lt.1 hmin
  by_cases hread : (space.readMemory start c).isSome
  · exact readable_of_readMemory hread hpos
  · have hnone : space.leadingChunks start c (size / c).toNat = 0 := by
      cases (size / c).toNat with
      | zero => rfl
      | succ n => rw [leadingChunks_succ, if_neg hread]
    have hfirst : start + UInt64.ofNat 0 * c = start := by simp
    rw [savedLength_eq space start hc, hnone, hfirst, Nat.zero_mul, Nat.zero_add] at h
    split_ifs at h with hleft
    · exact readable_of_readMemory hleft h
    · exact absurd h (lt_irrefl _)

end AddressSpace

section File

variable {arch : Arch} {env : DumpEnv arch} {debug : Bool} {b : MachOCoreDumpBuilder}
  {f : FileStream}

theorem Exact.segmentOffset_of_lt (he : Exact b) {j k : ℕ} {s : Segment} (hjk : j < k)
    (hj : b.segmentCmds[j]? = some s) :
    (b.segmentOffset j).toNat + s.cmd.filesize.toNat ≤ (b.segmentOffset k).toNat := by
  have hne : b.segmentCmds ≠ [] := List.ne_nil_of_mem (List.mem_of_getElem? hj)
  have hj' : (b.segmentCmds.take k)[j]? = some s := by rw [List.getElem?_take_of_lt hjk, hj]
  have hsucc := sum_take_succ (fun s : Segment => s.cmd.filesize.toNat) hj'
  have hle := sum_take_le (fun s : Segment => s.cmd.filesize.toNat) (b.segmentCmds.take k) (j + 1)
  rw [List.take_take, List.take_take, min_eq_left hjk, min_eq_left hjk.le] at hsucc
  rw [List.take_take, min_eq_left hjk] at hle
  rw [he.segmentOffset hne, he.segmentOffset hne]
  omega

/-- What is not the extent of a segment or one behind it ends before it. -/
theorem extents_beside (hw : Streams b) (he : Exact b) {k : ℕ} {s : Segment}
    (hk : b.segmentCmds[k]? = some s) {x : UInt64 × List (List UInt8)} (hx : x ∈ b.extents) :
    x.1.toNat + x.2.flatten.length ≤ (b.segmentOffset k).toNat ∨ x = (b.segmentOffset k, s.pieces)
      ∨ ∃ j s', k < j ∧ b.segmentCmds[j]? = some s' ∧ x = (b.segmentOffset j, s'.pieces) := by
  have hpairwise := (extents_ascend hw he).1
  rw [extents, ← List.cons_append] at hpairwise hx
  rcases List.mem_append.1 hx with hx | hx
  · obtain ⟨hlt, rfl⟩ := List.getElem?_eq_some_iff.1 hk
    exact .inl ((List.pairwise_append.1 hpairwise).2.2 x hx _ (List.mem_mapIdx.2 ⟨k, hlt, rfl⟩))
  · obtain ⟨j, hj, rfl⟩ := List.mem_mapIdx.1 hx
    have hget : b.segmentCmds[j]? = some b.segmentCmds[j] := List.getElem?_eq_getElem hj
    rcases Nat.lt_trichotomy j k with hjk | rfl | hjk
    · obtain ⟨-, -, -, hlen⟩ := hw.segment hget
      have hoff := he.segmentOffset_of_lt hjk hget
      exact .inl (by simp only; omega)
    · rw [hget, Option.some.injEq] at hk
      exact .inr (.inl (by rw [hk]))
    · exact .inr (.inr ⟨j, _, hjk, hget, rfl⟩)

/-- In a file with a segment of which not all is saved, the rest is zero as far as there are
segments of which something is. -/
theorem getElem?_segment (hw : Streams b) (he : Exact b) (hstores : Stores f.content b.extents)
    (hgap : ∀ i, (∀ x ∈ b.extents, i < x.1.toNat ∨ x.1.toNat + x.2.flatten.length ≤ i) →
      ∀ v, f.content[i]? = some v ↔ v = 0 ∧ ∃ x ∈ b.extents, i < x.1.toNat ∧ x.2.flatten ≠ [])
    {k : ℕ} {s : Segment} (hk : b.segmentCmds[k]? = some s) {d : ℕ}
    (hd : d < s.cmd.filesize.toNat) (v : UInt8) :
    f.content[(b.segmentOffset k).toNat + d]? = some v
      ↔ s.pieces.flatten[d]? = some v
        ∨ s.pieces.flatten.length ≤ d ∧ v = 0
          ∧ ∃ j s', k < j ∧ b.segmentCmds[j]? = some s' ∧ s'.pieces.flatten ≠ [] := by
  rcases Nat.lt_or_ge d s.pieces.flatten.length with hlt | hge
  · have hread := segment_of_stores hstores hk
    have hat : f.content[(b.segmentOffset k).toNat + d]? = s.pieces.flatten[d]? := by
      rw [← getElem?_readAt hlt, hread]
    rw [hat]
    exact (or_iff_left fun h => absurd h.1 (by omega)).symm
  · have hbehind : ∀ {j : ℕ}, k < j →
        (b.segmentOffset k).toNat + d < (b.segmentOffset j).toNat := by
      intro j hkj
      have hoff := he.segmentOffset_of_lt hkj hk
      omega
    rw [hgap _ fun x hx => ?_, List.getElem?_eq_none hge]
    · have hnone : (none : Option UInt8) ≠ some v := by simp
      rw [or_iff_right hnone, and_iff_right hge]
      refine and_congr_right fun _ => ⟨?_, ?_⟩
      · rintro ⟨x, hx, hlt, hne⟩
        rcases extents_beside hw he hk hx with h | rfl | ⟨j, s', hkj, hj, rfl⟩
        · omega
        · simp only at hlt
          omega
        · exact ⟨j, s', hkj, hj, hne⟩
      · rintro ⟨j, s', hkj, hj, hne⟩
        obtain ⟨hlt, rfl⟩ := List.getElem?_eq_some_iff.1 hj
        refine ⟨(b.segmentOffset j, b.segmentCmds[j].pieces), ?_, hbehind hkj, hne⟩
        exact List.mem_cons_of_mem _ (List.mem_append_right _ (List.mem_mapIdx.2 ⟨j, hlt, rfl⟩))
    · rcases extents_beside hw he hk hx with h | rfl | ⟨j, s', hkj, -, rfl⟩
      · exact .inr (by omega)
      · exact .inr (by simp only; omega)
      · exact .inl (hbehind hkj)

end File

/-! ## The runs of requested addresses -/

namespace Target

variable {arch : Arch} (target : Target arch) (crash : Option (CrashContext arch))

/-- A maximal run of the addresses in the ranges whose end does not overflow. -/
def Run (threads : List (TargetThread arch)) (s e : UInt64) : Prop :=
  IsRun (InRanges ((target.requests crash threads).filter (· ≠ (topStart, 513)))) s e

/-- The byte is in what is read of its run, or it is zero and there is something behind the run. -/
def Stays (threads : List (TargetThread arch)) (a : UInt64) : Prop :=
  ∃ s e, target.Run crash threads s e ∧ s ≤ a ∧ a < e
    ∧ (a.toNat - s.toNat < target.space.savedLength s (e - s)
      ∨ target.space.byte a = 0 ∧ ∃ s' e', target.Run crash threads s' e' ∧ s < s'
        ∧ 0 < target.space.savedLength s' (e' - s'))

variable {threads : List (TargetThread arch)} {s e e' a : UInt64}

theorem run_iff_mem :
    target.Run crash threads s e ↔ (s, e) ∈ target.mergedRanges crash threads := by
  obtain ⟨hsep, hcov⟩ := mergedRanges_covers target crash threads
  rw [hsep.mem_iff_isRun, Run, funext fun x => propext (hcov x)]

theorem Run.stop_eq (h : target.Run crash threads s e) (h' : target.Run crash threads s e') :
    e = e' := by
  obtain ⟨hsep, -⟩ := mergedRanges_covers target crash threads
  rw [run_iff_mem] at h h'
  have hlt : s < e := hsep.lt _ h
  have hlt' : s < e' := hsep.lt _ h'
  rcases hsep.trichotomy h h' with heq | hbefore | hbehind
  · exact (Prod.mk.inj heq).2
  · exact absurd hlt (lt_asymm hbefore)
  · exact absurd hlt' (lt_asymm hbehind)

/-- Where every run can be read whole, nothing is lost. -/
theorem stays_of_whole (hwhole : ∀ i ∈ target.mergedRanges crash threads,
      target.space.savedLength i.1 (i.2 - i.1) = (i.2 - i.1).toNat)
    (hreq : target.Requested crash threads a) (hread : target.space.Readable a) :
    target.Stays crash threads a := by
  obtain ⟨hsep, -⟩ := mergedRanges_covers target crash threads
  obtain ⟨r, hr, hin, -⟩ := hread
  obtain ⟨i, hi, ⟨hle, hlt⟩, -⟩ := exists_mergedRange target crash hreq
    (lt_topStart_of_contains hr hin)
  refine ⟨i.1, i.2, (run_iff_mem _ _).2 hi, hle, hlt, .inl ?_⟩
  have hstop := forEachArgs_stop (hsep.lt i hi)
  have hle' := UInt64.le_iff_toNat_le.1 hle
  have hlt' := UInt64.lt_iff_toNat_lt.1 hlt
  rw [hwhole i hi]
  omega

/-- Behind what is read of its run, a byte that is not zero does not stay. -/
theorem not_stays_of_mem {i : UInt64 × UInt64} (hi : i ∈ target.mergedRanges crash threads)
    (hin : i.1 ≤ a ∧ a < i.2)
    (hlen : target.space.savedLength i.1 (i.2 - i.1) ≤ a.toNat - i.1.toNat)
    (hbyte : target.space.byte a ≠ 0) : ¬ target.Stays crash threads a := by
  obtain ⟨hsep, -⟩ := mergedRanges_covers target crash threads
  rintro ⟨s, e, hrun, hle, hlt, hstays⟩
  have hmem := (run_iff_mem _ _).1 hrun
  have heq : i = (s, e) := by
    rcases hsep.trichotomy hi hmem with h | h | h
    · exact h
    · exact absurd (hle.trans hin.2.le) (not_le.2 h)
    · exact absurd (hin.1.trans hlt.le) (not_le.2 h)
  subst heq
  rcases hstays with h | ⟨hzero, -⟩
  · exact absurd h (not_lt.2 hlen)
  · exact hbyte hzero

end Target

section Dump

variable {arch : Arch} {env : DumpEnv arch} {b : MachOCoreDumpBuilder}

/-- Every segment is over a run, and what is written of it are the first bytes of the run. -/
theorem DumpPut.run (h : DumpPut env b) {s : Segment} (hs : s ∈ b.segmentCmds) :
    ∃ e, env.target.Run env.crash (env.target.threads.getD []) s.cmd.vmaddr e
      ∧ s.cmd.vmsize = e - s.cmd.vmaddr ∧ s.cmd.filesize = s.cmd.vmsize
      ∧ s.pieces.flatten = env.target.space.bytes s.cmd.vmaddr
        (env.target.space.savedLength s.cmd.vmaddr s.cmd.vmsize) := by
  obtain ⟨hform, r, hr, haddr, hsize, hprov⟩ := h.segment hs
  obtain ⟨i, hi, rfl⟩ := List.mem_map.1 hr
  have hpieces : s.pieces = segmentPieces
      (processMemoryDataProvider env.target.space.readMemory i.1 (i.2 - i.1)) := by
    rw [Segment.pieces, hprov]
    rfl
  refine ⟨i.2, ?_, ?_, hform.vmsize.symm, ?_⟩
  · rw [haddr]
    exact (Target.run_iff_mem _ _).2 hi
  · rw [hform.vmsize, hsize, haddr]
  · rw [hform.vmsize, hsize, haddr, hpieces, AddressSpace.flatten_segmentPieces]

/-- A run with memory that can be read gets a segment. -/
theorem DumpPut.exists_segment (h : DumpPut env b) {s e a : UInt64}
    (hrun : env.target.Run env.crash (env.target.threads.getD []) s e) (hsa : s ≤ a)
    (hread : env.target.space.Readable a) :
    ∃ (k : ℕ) (seg : Segment), b.segmentCmds[k]? = some seg ∧ seg.cmd.vmaddr = s := by
  obtain ⟨r, hr, hin, -⟩ := hread
  obtain ⟨region, hregion⟩ : ∃ region, env.target.space.regionRecurse s = some region := by
    have hle := UInt64.le_iff_toNat_le.1 hsa
    have hlt := hin.2
    rcases hnone : env.target.space.regionRecurse s with _ | region
    · have hstop := List.find?_eq_none.1 hnone r hr
      simp only [decide_eq_true_eq] at hstop
      omega
    · exact ⟨region, rfl⟩
  obtain ⟨seg, hseg⟩ : ∃ seg, env.target.segmentOf (s, e - s) = some seg := by
    simp [Target.segmentOf, Target.getMemoryProtection, hregion]
  have hmem : seg ∈ b.segmentCmds.map Segment.unplaced := by
    rw [h.segments]
    refine List.mem_filterMap.2 ⟨_, List.mem_map.2 ⟨(s, e), ?_, rfl⟩, hseg⟩
    exact (Target.run_iff_mem _ _).1 hrun
  obtain ⟨seg', hseg', heq⟩ := List.mem_map.1 hmem
  obtain ⟨k, hk⟩ := List.getElem?_of_mem hseg'
  obtain ⟨prot, -, rfl⟩ := Option.map_eq_some_iff.1 hseg
  exact ⟨k, seg', hk, congrArg (fun s : Segment => s.cmd.vmaddr) heq⟩

/-- The core file has the byte of the target at `a` where one of its segments says. -/
def SavedIn (space : AddressSpace) (file : List UInt8) (a : UInt64) : Prop :=
  ∃ header cs sc, parseMachO file = some (header, cs) ∧ LoadCommand.segment sc ∈ cs
    ∧ sc.vmaddr ≤ a ∧ a.toNat < sc.vmaddr.toNat + sc.vmsize.toNat
    ∧ file[sc.fileoff.toNat + (a.toNat - sc.vmaddr.toNat)]? = some (space.byte a)

theorem segment_mem_loadCommands {sc : SegmentCommand64} :
    LoadCommand.segment sc ∈ b.loadCommands
      ↔ ∃ (k : ℕ) (s : Segment), b.segmentCmds[k]? = some s
        ∧ sc = s.cmd.withFileoff (b.segmentOffset k) := by
  simp only [loadCommands, List.mem_append, List.mem_map, reduceCtorEq, and_false, exists_false,
    or_self, false_or, LoadCommand.segment.injEq, exists_eq_right, placedSegments, List.mem_mapIdx]
  constructor
  · rintro ⟨k, hk, rfl⟩
    exact ⟨k, _, List.getElem?_eq_getElem hk, rfl⟩
  · rintro ⟨k, s, hk, rfl⟩
    obtain ⟨hlt, rfl⟩ := List.getElem?_eq_some_iff.1 hk
    exact ⟨k, hlt, rfl⟩

/-- The segments behind one of which something is saved are those of the later runs. -/
theorem DumpPut.exists_behind_iff (h : DumpPut env b) {k : ℕ} {s : Segment}
    (hk : b.segmentCmds[k]? = some s) :
    (∃ j s', k < j ∧ b.segmentCmds[j]? = some s' ∧ s'.pieces.flatten ≠ [])
      ↔ ∃ s' e', env.target.Run env.crash (env.target.threads.getD []) s' e' ∧ s.cmd.vmaddr < s'
        ∧ 0 < env.target.space.savedLength s' (e' - s') := by
  have hlen : ∀ {a : UInt64} {n : ℕ}, env.target.space.bytes a n ≠ [] ↔ 0 < n := by
    intro a n
    rw [← List.length_pos_iff, AddressSpace.length_bytes]
  constructor
  · rintro ⟨j, s', hkj, hj, hne⟩
    obtain ⟨e, hrun, hsize, -, hpieces⟩ := h.run (List.mem_of_getElem? hj)
    rw [hpieces, hlen, hsize] at hne
    refine ⟨s'.cmd.vmaddr, e, hrun, ?_, hne⟩
    obtain ⟨hk', rfl⟩ := List.getElem?_eq_some_iff.1 hk
    obtain ⟨hj', rfl⟩ := List.getElem?_eq_some_iff.1 hj
    exact List.pairwise_iff_getElem.1 h.ascending k j hk' hj' hkj
  · rintro ⟨s', e', hrun', hlt, hpos⟩
    obtain ⟨j, seg, hj, rfl⟩ := h.exists_segment hrun' le_rfl
      (AddressSpace.readable_of_savedLength_pos hpos)
    obtain ⟨e, hrun, hsize, -, hpieces⟩ := h.run (List.mem_of_getElem? hj)
    have hstop := hrun.stop_eq _ _ hrun'
    refine ⟨j, seg, ?_, hj, ?_⟩
    · by_contra hle
      obtain ⟨hk', rfl⟩ := List.getElem?_eq_some_iff.1 hk
      obtain ⟨hj', rfl⟩ := List.getElem?_eq_some_iff.1 hj
      rcases Nat.lt_or_eq_of_le (not_lt.1 hle) with hjk | rfl
      · exact lt_asymm hlt (List.pairwise_iff_getElem.1 h.ascending j k hj' hk' hjk)
      · exact lt_irrefl _ hlt
    · rw [hpieces, hlen, hsize, hstop]
      exact hpos

/-- In a dump that is in its place, where a byte of the target is found in a segment. -/
theorem getElem?_eq_byte_iff (hput : DumpPut env b) (hfits : Fits b) {f : FileStream}
    (hrun : runOps b.script ⟨[], 0⟩ = (true, f)) {k : ℕ} {s : Segment}
    (hk : b.segmentCmds[k]? = some s) {a : UInt64} (hle : s.cmd.vmaddr ≤ a)
    (hlt : a.toNat < s.cmd.vmaddr.toNat + s.cmd.vmsize.toNat) :
    f.content[(b.segmentOffset k).toNat + (a.toNat - s.cmd.vmaddr.toNat)]?
        = some (env.target.space.byte a)
      ↔ a.toNat - s.cmd.vmaddr.toNat < env.target.space.savedLength s.cmd.vmaddr s.cmd.vmsize
        ∨ env.target.space.byte a = 0
          ∧ ∃ s' e', env.target.Run env.crash (env.target.threads.getD []) s' e'
            ∧ s.cmd.vmaddr < s' ∧ 0 < env.target.space.savedLength s' (e' - s') := by
  have hstreams : Streams b := streams_of_runOps hput hfits hrun
  have hexact : Exact b := hfits.toExact
  obtain ⟨hstores, hgap⟩ := stores_of_runOps hstreams hexact hrun
  obtain ⟨e, -, -, hfile, hpieces⟩ := hput.run (List.mem_of_getElem? hk)
  have hle' := UInt64.le_iff_toNat_le.1 hle
  have hbyte : s.cmd.vmaddr + UInt64.ofNat (a.toNat - s.cmd.vmaddr.toNat) = a := by
    have ha := a.toNat_lt
    rw [← UInt64.toNat_inj, UInt64.toNat_add, UInt64.toNat_ofNat_of_lt' (show _ < 2 ^ 64 by omega),
      Nat.mod_eq_of_lt (by omega)]
    omega
  rw [getElem?_segment hstreams hexact hstores hgap hk (by rw [hfile]; omega),
    hput.exists_behind_iff hk, hpieces, AddressSpace.length_bytes]
  obtain ⟨d, hd⟩ : ∃ d, d = a.toNat - s.cmd.vmaddr.toNat := ⟨_, rfl⟩
  rw [← hd] at hbyte ⊢
  rcases Nat.lt_or_ge d (env.target.space.savedLength s.cmd.vmaddr s.cmd.vmsize) with hin | hout
  · rw [AddressSpace.getElem?_bytes hin, hbyte]
    exact iff_of_true (.inl rfl) (.inl hin)
  · rw [List.getElem?_eq_none (by simpa using hout), or_iff_right (by simp),
      or_iff_right (not_lt.2 hout), and_iff_right hout]

/-- In a dump that is in its place, what is saved of the memory that can be read. -/
theorem savedIn_iff (hput : DumpPut env b) (hfits : Fits b) {f : FileStream}
    (hrun : runOps b.script ⟨[], 0⟩ = (true, f)) {a : UInt64}
    (hread : env.target.space.Readable a) :
    SavedIn env.target.space f.content a
      ↔ env.target.Stays env.crash (env.target.threads.getD []) a := by
  have hparses := (wellPlaced_of_runOps hput hfits hrun).parses
  obtain ⟨hsep, -⟩ := mergedRanges_covers env.target env.crash (env.target.threads.getD [])
  constructor
  · rintro ⟨header, cs, sc, hparse, hmem, hle, hlt, hbyte⟩
    rw [hparses, Option.some.injEq, Prod.mk.injEq] at hparse
    obtain ⟨-, rfl⟩ := hparse
    obtain ⟨k, s, hk, rfl⟩ := segment_mem_loadCommands.1 hmem
    obtain ⟨e, hrange, hsize, -, -⟩ := hput.run (List.mem_of_getElem? hk)
    have hse : s.cmd.vmaddr < e := hsep.lt _ ((Target.run_iff_mem _ _).1 hrange)
    have hsaved := (getElem?_eq_byte_iff hput hfits hrun hk hle hlt).1 hbyte
    have hlt' : a.toNat < s.cmd.vmaddr.toNat + s.cmd.vmsize.toNat := hlt
    rw [hsize, forEachArgs_stop (i := (s.cmd.vmaddr, e)) hse] at hlt'
    rw [hsize] at hsaved
    exact ⟨s.cmd.vmaddr, e, hrange, hle, UInt64.lt_iff_toNat_lt.2 hlt', hsaved⟩
  · rintro ⟨s, e, hrange, hle, hlt, hstays⟩
    obtain ⟨k, seg, hk, rfl⟩ := hput.exists_segment hrange hle hread
    obtain ⟨e', hrange', hsize, -, -⟩ := hput.run (List.mem_of_getElem? hk)
    obtain rfl := hrange.stop_eq _ _ hrange'
    have hin : a.toNat < seg.cmd.vmaddr.toNat + seg.cmd.vmsize.toNat := by
      rw [hsize, forEachArgs_stop (i := (seg.cmd.vmaddr, e)) (hle.trans_lt hlt)]
      exact UInt64.lt_iff_toNat_lt.1 hlt
    rw [← hsize] at hstays
    exact ⟨_, _, _, hparses, segment_mem_loadCommands.2 ⟨k, seg, hk, rfl⟩, hle, hin,
      (getElem?_eq_byte_iff hput hfits hrun hk hle hin).2 hstays⟩

/-- A dump that succeeds is in its place, with all the requested memory that can be read, exactly
when the stream was at its start, the layout fits, and each of these bytes stays. -/
theorem savesRequested_iff {debug : Bool} {f f' : FileStream}
    (hb : env.prepare debug = .ok (some b))
    (h : env.miniDumpWriteDumpImpl debug f = .ok (true, f')) :
    (WellPlaced b f'.content ∧ ∀ a, env.target.Requested env.crash (env.target.threads.getD []) a →
        env.target.space.Readable a → SavedIn env.target.space f'.content a)
      ↔ f.pos = 0 ∧ Fits b ∧ ∀ a, env.target.Requested env.crash (env.target.threads.getD []) a →
        env.target.space.Readable a →
        env.target.Stays env.crash (env.target.threads.getD []) a := by
  have hput := prepare_put hb
  have hrun := runOps_of_writeDump hb h
  constructor
  · rintro ⟨hplaced, hsaved⟩
    have hpos := pos_eq_zero_of_wellPlaced hrun hplaced
    rw [hpos] at hrun
    refine ⟨hpos, hplaced.fits, fun a hreq hread => ?_⟩
    exact (savedIn_iff hput hplaced.fits hrun hread).1 (hsaved a hreq hread)
  · rintro ⟨hpos, hfits, hstays⟩
    rw [hpos] at hrun
    refine ⟨wellPlaced_of_runOps hput hfits hrun, fun a hreq hread => ?_⟩
    exact (savedIn_iff hput hfits hrun hread).2 (hstays a hreq hread)

end Dump

instance : Decidable (Fits b) :=
  decidable_of_iff ((b.header.sizeofcmds.toNat = b.commandsSize ∧ b.notesEnd < 2 ^ 64
      ∧ (b.segmentCmds ≠ [] → b.fileEnd < 2 ^ 64)) ∧ ∀ n ∈ b.noteCmds, n.content.length < 2 ^ 64)
    ⟨fun ⟨⟨h₁, h₂, h₃⟩, h₄⟩ => ⟨⟨h₁, h₂, h₃⟩, h₄⟩, fun ⟨⟨h₁, h₂, h₃⟩, h₄⟩ => ⟨⟨h₁, h₂, h₃⟩, h₄⟩⟩

/-- Is a dump to an empty file written, with a layout that fits? -/
def DumpEnv.succeeds {arch : Arch} (env : DumpEnv arch) : Bool :=
  match env.prepare false, env.miniDumpWriteDumpImpl false FileStream.empty with
  | .ok (some b), .ok (true, _) => decide (Fits b)
  | _, _ => false

theorem exists_of_succeeds {arch : Arch} {env : DumpEnv arch} (h : env.succeeds = true) :
    ∃ b f', env.prepare false = .ok (some b)
      ∧ env.miniDumpWriteDumpImpl false FileStream.empty = .ok (true, f') ∧ Fits b := by
  unfold DumpEnv.succeeds at h
  split at h
  · rename_i b f' hb hf
    exact ⟨b, f', hb, hf, of_decide_eq_true h⟩
  · simp at h

/-- One page of code. -/
def onePage : AddressSpace where
  regions := [⟨0x1000, 0x1000, ⟨5, 0⟩⟩]
  byte _ := 7
  nonempty := by decide
  aligned := by decide
  fits := by decide
  ascending := by decide

/-- A thread with these addresses on its call stack. -/
def withCallStack (callStack : List UInt64) : DumpEnv .arm64 where
  pidForTask := true
  suspended := true
  target :=
    { space := onePage, uninitialized := ⟨0, 0⟩, threads := some [zeroThread 1], threadSelf := 1
      walkStack := fun _ _ => callStack, modules := sampleModules, nAddrableBits := some 47 }
  crash := none

theorem succeeds_withCallStack :
    (withCallStack [0x1200]).succeeds = true
      ∧ (withCallStack [0x1200, 0x1080]).succeeds = true := by
  decide +kernel

theorem mergedRanges_withCallStack :
    (withCallStack [0x1200]).target.mergedRanges none [zeroThread 1] = [(0x1100, 0x1301)]
      ∧ (withCallStack [0x1200, 0x1080]).target.mergedRanges none [zeroThread 1]
        = [(0xF80, 0x1301)] := by
  decide +kernel

theorem savedLength_onePage :
    onePage.savedLength 0x1100 (0x1301 - 0x1100) = (0x1301 - 0x1100 : UInt64).toNat
      ∧ onePage.savedLength 0xF80 (0x1301 - 0xF80) = 0 := by
  decide +kernel

/-- The surroundings of the one address can be read whole. -/
theorem stays_withCallStack {a : UInt64}
    (hreq : (withCallStack [0x1200]).target.Requested none [zeroThread 1] a)
    (hread : onePage.Readable a) : (withCallStack [0x1200]).target.Stays none [zeroThread 1] a := by
  refine Target.stays_of_whole _ _ (fun i hi => ?_) hreq hread
  rw [mergedRanges_withCallStack.1, List.mem_singleton] at hi
  rw [hi]
  exact savedLength_onePage.1

theorem savesRequested_iff_withCallStack :
    ∃ b f', (withCallStack [0x1200]).prepare false = .ok (some b)
      ∧ (withCallStack [0x1200]).miniDumpWriteDumpImpl false FileStream.empty = .ok (true, f')
      ∧ WellPlaced b f'.content
      ∧ ∀ a, (withCallStack [0x1200]).target.Requested none [zeroThread 1] a →
        onePage.Readable a → SavedIn onePage f'.content a := by
  obtain ⟨b, f', hb, hf, hfits⟩ := exists_of_succeeds succeeds_withCallStack.1
  obtain ⟨hplaced, hsaved⟩ := (savesRequested_iff hb hf).2
    ⟨rfl, hfits, fun _ hreq hread => stays_withCallStack hreq hread⟩
  exact ⟨b, f', hb, hf, hplaced, hsaved⟩

/-- With an address whose surroundings are only in part mapped, what was saved is lost. -/
theorem garbage_address_loses :
    ∃ f₁ f₂, (withCallStack [0x1200]).miniDumpWriteDumpImpl false FileStream.empty = .ok (true, f₁)
      ∧ (withCallStack [0x1200, 0x1080]).miniDumpWriteDumpImpl false FileStream.empty
        = .ok (true, f₂)
      ∧ (withCallStack [0x1200, 0x1080]).target.Requested none [zeroThread 1] 0x1200
      ∧ onePage.Readable 0x1200
      ∧ SavedIn onePage f₁.content 0x1200 ∧ ¬ SavedIn onePage f₂.content 0x1200 := by
  obtain ⟨b₁, f₁, hb₁, hf₁, hfits₁⟩ := exists_of_succeeds succeeds_withCallStack.1
  obtain ⟨b₂, f₂, hb₂, hf₂, hfits₂⟩ := exists_of_succeeds succeeds_withCallStack.2
  have hread : onePage.Readable 0x1200 := by decide
  have hreq₁ : (withCallStack [0x1200]).target.Requested none [zeroThread 1] 0x1200 :=
    .inl ⟨0x1200, by decide, by decide, by decide, by decide⟩
  have hreq₂ : (withCallStack [0x1200, 0x1080]).target.Requested none [zeroThread 1] 0x1200 :=
    .inl ⟨0x1200, by decide, by decide, by decide, by decide⟩
  refine ⟨f₁, f₂, hf₁, hf₂, hreq₂, hread, ?_, fun hsaved => ?_⟩
  · exact (savedIn_iff (prepare_put hb₁) hfits₁ (runOps_of_writeDump hb₁ hf₁) hread).2
      (stays_withCallStack hreq₁ hread)
  · have hstays := (savedIn_iff (prepare_put hb₂) hfits₂ (runOps_of_writeDump hb₂ hf₂) hread).1
      hsaved
    refine Target.not_stays_of_mem _ _ (i := (0xF80, 0x1301)) ?_ (by decide) ?_ ?_ hstays
    · exact mergedRanges_withCallStack.2 ▸ List.mem_singleton_self _
    · exact savedLength_onePage.2.le.trans (Nat.zero_le _)
    · decide

end MacMiniDump
