import MacMiniDump.Snapshot

/-!
# The memory in a core file

The core file as memory. Where all that was requested of the target can be read, it is the memory of
the target on the requested addresses, and there is nothing else in it (`readCoreMemory_writeDump`).
A run of requested addresses that can be read whole is in the file whatever became of the others
(`readCoreMemory_of_run`).
-/

namespace MacMiniDump

open MachOCoreDumpBuilder DisjointIntervalSet

def segmentCommands (cs : List LoadCommand) : List SegmentCommand64 :=
  cs.filterMap fun
    | .segment sc => some sc
    | _ => none

/-- The segment has all of the range. -/
def SegmentCommand64.Holds (sc : SegmentCommand64) (address size : UInt64) : Prop :=
  sc.vmaddr ≤ address ∧ address.toNat + size.toNat ≤ sc.vmaddr.toNat + sc.vmsize.toNat

instance (sc : SegmentCommand64) (address size : UInt64) : Decidable (sc.Holds address size) :=
  inferInstanceAs (Decidable (_ ∧ _))

/-- A range of the memory, from the segment that has all of it. -/
def readCoreMemory (file : List UInt8) (address size : UInt64) : Option (List UInt8) := do
  let (_, cs) ← parseMachO file
  let sc ← (segmentCommands cs).find? fun sc => sc.Holds address size
  let data := readAt file (sc.fileoff.toNat + (address.toNat - sc.vmaddr.toNat)) size.toNat
  if data.length = size.toNat then some data else none

theorem segmentCommands_loadCommands (b : MachOCoreDumpBuilder) :
    segmentCommands b.loadCommands = b.placedSegments := by
  simp [segmentCommands, loadCommands, List.filterMap_append, List.filterMap_map]

namespace AddressSpace

variable {space : AddressSpace} {a n : UInt64}

/-- All of a range that can be read is saved. -/
theorem savedLength_of_readable {start size : UInt64} (hfit : start.toNat + size.toNat < 2 ^ 64)
    (h : ∀ i < size.toNat, space.Readable (start + UInt64.ofNat i)) :
    space.savedLength start size = size.toNat := by
  obtain ⟨c, hc⟩ : ∃ c, c = min size maxChunkSize := ⟨_, rfl⟩
  have hdiv := chunks_add_left size c
  -- a piece of the range, at an offset that is a number of chunks
  have hpiece : ∀ (i : ℕ) (m : UInt64), i * c.toNat + m.toNat ≤ size.toNat →
      (space.readMemory (start + UInt64.ofNat i * c) m).isSome = true := by
    intro i m hle
    have hoffset : UInt64.ofNat i * c = UInt64.ofNat (i * c.toNat) := by
      rw [UInt64.ofNat_mul, UInt64.ofNat_toNat]
    have hstart : (start + UInt64.ofNat i * c).toNat = start.toNat + i * c.toNat := by
      rw [hoffset, UInt64.toNat_add, UInt64.toNat_ofNat_of_lt' (show _ < 2 ^ 64 by omega),
        Nat.mod_eq_of_lt (by omega)]
    rw [readMemory_of_readable (by rw [hstart]; omega) fun j hj => ?_, Option.isSome_some]
    rw [hoffset, UInt64.add_assoc, ← UInt64.ofNat_add]
    exact h _ (by omega)
  have hall : space.leadingChunks start c (size / c).toNat = (size / c).toNat := by
    unfold leadingChunks
    rw [List.takeWhile_eq_self_iff.2 fun i hi => ?_, List.length_range]
    have hlt := Nat.mul_le_mul_right c.toNat (Nat.succ_le_of_lt (List.mem_range.1 hi))
    rw [Nat.succ_mul] at hlt
    exact hpiece i c (by omega)
  rw [savedLength_eq space start hc, hall, if_pos (hpiece _ _ hdiv.le), hdiv]

end AddressSpace

/-- The byte of a run as the file has it. -/
def AddressSpace.savedByte (space : AddressSpace) (s e x : UInt64) : UInt8 :=
  if x.toNat - s.toNat < space.savedLength s (e - s) then space.byte x else 0

/-- The file goes on with memory of another run. -/
def Target.SavedBehind {arch : Arch} (target : Target arch) (crash : Option (CrashContext arch))
    (threads : List (TargetThread arch)) (s : UInt64) : Prop :=
  ∃ s' e', target.Run crash threads s' e' ∧ s < s' ∧ 0 < target.space.savedLength s' (e' - s')

section Dump

variable {arch : Arch} {env : DumpEnv arch} {debug : Bool} {b : MachOCoreDumpBuilder}

/-- A range that is not empty is in one segment at most. -/
theorem find?_holds (hput : DumpPut env b) {k : ℕ} {s : Segment} (hk : b.segmentCmds[k]? = some s)
    {a n : UInt64} (hn : 0 < n.toNat) (hholds : s.cmd.Holds a n) :
    b.placedSegments.find? (fun sc => decide (sc.Holds a n))
      = some (s.cmd.withFileoff (b.segmentOffset k)) := by
  obtain ⟨hsep, -⟩ := mergedRanges_covers env.target env.crash (env.target.threads.getD [])
  obtain ⟨hlt, rfl⟩ := List.getElem?_eq_some_iff.1 hk
  rw [List.find?_eq_some_iff_getElem]
  refine ⟨decide_eq_true hholds, k, by simpa [placedSegments] using hlt,
    by simp [placedSegments], fun j hj => ?_⟩
  obtain ⟨e, hrun, hsize, -, -⟩ := hput.run (List.getElem_mem hlt)
  obtain ⟨e', hrun', hsize', -, -⟩ := hput.run (List.getElem_mem (hj.trans hlt))
  have hbefore := List.pairwise_iff_getElem.1 hput.ascending j k (hj.trans hlt) hlt hj
  rw [Target.run_iff_mem] at hrun hrun'
  have hse : b.segmentCmds[k].cmd.vmaddr < e := hsep.lt _ hrun
  have hstop' : b.segmentCmds[j].cmd.vmaddr.toNat + (e' - b.segmentCmds[j].cmd.vmaddr).toNat
      = e'.toNat := forEachArgs_stop (i := (_, e')) (hsep.lt _ hrun')
  simp only [placedSegments, List.getElem_mapIdx, Bool.not_eq_true', decide_eq_false_iff_not]
  rintro ⟨hle', hend'⟩
  have hle := UInt64.le_iff_toNat_le.1 hholds.1
  simp only [SegmentCommand64.withFileoff, hsize'] at hle' hend'
  rcases hsep.trichotomy hrun' hrun with heq | hlt' | hlt'
  · exact absurd (Prod.mk.inj heq).1 hbefore.ne
  · have hgap : e'.toNat < b.segmentCmds[k].cmd.vmaddr.toNat := UInt64.lt_iff_toNat_lt.1 hlt'
    omega
  · exact absurd (hbefore.trans hse) (lt_asymm hlt')

/-- A byte of a run in the file. -/
theorem getElem?_run (hput : DumpPut env b) (hfits : Fits b) {f : FileStream}
    (hops : runOps b.script ⟨[], 0⟩ = (true, f)) {k : ℕ} {seg : Segment}
    (hk : b.segmentCmds[k]? = some seg) {e x : UInt64}
    (hrun : env.target.Run env.crash (env.target.threads.getD []) seg.cmd.vmaddr e)
    (hle : seg.cmd.vmaddr.toNat ≤ x.toNat) (hlt : x.toNat < e.toNat) (v : UInt8) :
    f.content[(b.segmentOffset k).toNat + (x.toNat - seg.cmd.vmaddr.toNat)]? = some v
      ↔ v = env.target.space.savedByte seg.cmd.vmaddr e x
        ∧ (x.toNat - seg.cmd.vmaddr.toNat
            < env.target.space.savedLength seg.cmd.vmaddr (e - seg.cmd.vmaddr)
          ∨ env.target.SavedBehind env.crash (env.target.threads.getD []) seg.cmd.vmaddr) := by
  have hstreams : Streams b := streams_of_runOps hput hfits hops
  have hexact : Exact b := hfits.toExact
  obtain ⟨hstores, hgap⟩ := stores_of_runOps hstreams hexact hops
  obtain ⟨e', hrun', hsize, hfile, hpieces⟩ := hput.run (List.mem_of_getElem? hk)
  obtain rfl := hrun.stop_eq _ _ hrun'
  have hbefore : seg.cmd.vmaddr < e := UInt64.lt_iff_toNat_lt.2 (hle.trans_lt hlt)
  have hstop : seg.cmd.vmaddr.toNat + (e - seg.cmd.vmaddr).toNat = e.toNat :=
    forEachArgs_stop (i := (_, e)) hbefore
  have haddr : seg.cmd.vmaddr + UInt64.ofNat (x.toNat - seg.cmd.vmaddr.toNat) = x := by
    have hx := x.toNat_lt
    rw [← UInt64.toNat_inj, toNat_add_ofNat (by omega)]
    omega
  rw [getElem?_segment hstreams hexact hstores hgap hk (by rw [hfile, hsize]; omega),
    hput.exists_behind_iff hk, hpieces, AddressSpace.length_bytes, hsize, AddressSpace.savedByte,
    Target.SavedBehind]
  split_ifs with hin
  · rw [AddressSpace.getElem?_bytes hin, haddr, Option.some.injEq]
    simp only [hin, true_or, and_true, not_le.2 hin, false_and, or_false, eq_comm]
  · rw [List.getElem?_eq_none (by simpa using hin)]
    simp only [reduceCtorEq, false_or, hin, not_lt.1 hin, true_and]

/-- What the file has of a run. -/
theorem readAt_run_iff (hput : DumpPut env b) (hfits : Fits b) {f : FileStream}
    (hops : runOps b.script ⟨[], 0⟩ = (true, f)) {k : ℕ} {seg : Segment}
    (hk : b.segmentCmds[k]? = some seg) {e a n : UInt64} {d : List UInt8}
    (hrun : env.target.Run env.crash (env.target.threads.getD []) seg.cmd.vmaddr e)
    (hn : 0 < n.toNat) (hle : seg.cmd.vmaddr.toNat ≤ a.toNat)
    (hend : a.toNat + n.toNat ≤ e.toNat) :
    (readAt f.content ((b.segmentOffset k).toNat + (a.toNat - seg.cmd.vmaddr.toNat)) n.toNat = d
        ∧ d.length = n.toNat)
      ↔ (a.toNat + n.toNat ≤ seg.cmd.vmaddr.toNat
            + env.target.space.savedLength seg.cmd.vmaddr (e - seg.cmd.vmaddr)
          ∨ env.target.SavedBehind env.crash (env.target.threads.getD []) seg.cmd.vmaddr)
        ∧ d = (List.range n.toNat).map fun i =>
          env.target.space.savedByte seg.cmd.vmaddr e (a + UInt64.ofNat i) := by
  have hbyte : ∀ i < n.toNat, ∀ v, f.content[(b.segmentOffset k).toNat
      + (a.toNat - seg.cmd.vmaddr.toNat) + i]? = some v
        ↔ v = env.target.space.savedByte seg.cmd.vmaddr e (a + UInt64.ofNat i)
          ∧ (a.toNat - seg.cmd.vmaddr.toNat + i
              < env.target.space.savedLength seg.cmd.vmaddr (e - seg.cmd.vmaddr)
            ∨ env.target.SavedBehind env.crash (env.target.threads.getD []) seg.cmd.vmaddr) := by
    intro i hi v
    have hlt := e.toNat_lt
    have hx : (a + UInt64.ofNat i).toNat = a.toNat + i := toNat_add_ofNat (by omega)
    have hrest : a.toNat + i - seg.cmd.vmaddr.toNat = a.toNat - seg.cmd.vmaddr.toNat + i := by omega
    have h := getElem?_run hput hfits hops hk hrun (x := a + UInt64.ofNat i) (by omega) (by omega) v
    rwa [hx, hrest, ← Nat.add_assoc] at h
  constructor
  · rintro ⟨hd, hlen⟩
    have hsaved : ∀ i < n.toNat, a.toNat - seg.cmd.vmaddr.toNat + i
          < env.target.space.savedLength seg.cmd.vmaddr (e - seg.cmd.vmaddr)
        ∨ env.target.SavedBehind env.crash (env.target.threads.getD []) seg.cmd.vmaddr := by
      intro i hi
      have hat := getElem?_readAt (f := f.content)
        (p := (b.segmentOffset k).toNat + (a.toNat - seg.cmd.vmaddr.toNat)) hi
      rw [hd, List.getElem?_eq_getElem (by omega)] at hat
      exact ((hbyte i hi _).1 hat.symm).2
    refine ⟨(hsaved (n.toNat - 1) (by omega)).imp_left fun h => by omega, ?_⟩
    rw [← hd]
    exact readAt_eq_map_range_iff.2 fun i hi => (hbyte i hi _).2 ⟨rfl, hsaved i hi⟩
  · rintro ⟨hsaved, rfl⟩
    refine ⟨readAt_eq_map_range_iff.2 fun i hi => (hbyte i hi _).2 ⟨rfl, ?_⟩, by simp⟩
    exact hsaved.imp_left fun h => by omega

/-- A range of the memory of the core file is a range of a run, as far as that was saved, and with
zeros behind it where the file goes on. -/
theorem readCoreMemory_iff (hput : DumpPut env b) (hfits : Fits b) {f : FileStream}
    (hops : runOps b.script ⟨[], 0⟩ = (true, f)) {a n : UInt64} (hn : 0 < n.toNat)
    (d : List UInt8) :
    readCoreMemory f.content a n = some d
      ↔ ∃ s e, env.target.Run env.crash (env.target.threads.getD []) s e
        ∧ s ≤ a ∧ a.toNat + n.toNat ≤ e.toNat
        ∧ (a.toNat + n.toNat ≤ s.toNat + env.target.space.savedLength s (e - s)
          ∨ env.target.SavedBehind env.crash (env.target.threads.getD []) s)
        ∧ d = (List.range n.toNat).map fun i =>
          env.target.space.savedByte s e (a + UInt64.ofNat i) := by
  have hparses := (wellPlaced_of_runOps hput hfits hops).parses
  obtain ⟨hsep, -⟩ := mergedRanges_covers env.target env.crash (env.target.threads.getD [])
  have hstop : ∀ {s e}, env.target.Run env.crash (env.target.threads.getD []) s e →
      s.toNat + (e - s).toNat = e.toNat := fun hrun =>
    forEachArgs_stop (i := (_, _)) (hsep.lt _ ((Target.run_iff_mem _ _).1 hrun))
  unfold readCoreMemory
  rw [hparses]
  simp only [Option.bind_eq_bind, Option.bind_some, segmentCommands_loadCommands]
  constructor
  · intro h
    obtain ⟨sc, hsc, hd⟩ := Option.bind_eq_some_iff.1 h
    obtain ⟨hle, hend⟩ : sc.Holds a n := by simpa using List.find?_some hsc
    obtain ⟨k, hk, rfl⟩ := List.mem_mapIdx.1 (List.mem_of_find?_eq_some hsc)
    obtain ⟨e, hrun, hsize, -, -⟩ := hput.run (List.getElem_mem hk)
    simp only [SegmentCommand64.withFileoff] at hle hend hd
    rw [hsize, hstop hrun] at hend
    obtain ⟨hlen, hread⟩ := Option.ite_none_right_eq_some.1 hd
    rw [Option.some.injEq] at hread
    have hle' := UInt64.le_iff_toNat_le.1 hle
    exact ⟨_, e, hrun, hle, hend, (readAt_run_iff hput hfits hops (List.getElem?_eq_getElem hk) hrun
      hn hle' hend).1 ⟨hread, hread ▸ hlen⟩⟩
  · rintro ⟨s, e, hrun, hle, hend, hsaved, hd⟩
    have hle' := UInt64.le_iff_toNat_le.1 hle
    -- there is memory that can be read in the run or behind it, so it has a segment
    obtain ⟨k, seg, hk, rfl⟩ : ∃ (k : ℕ) (seg : Segment), b.segmentCmds[k]? = some seg
        ∧ seg.cmd.vmaddr = s := by
      rcases hsaved with hin | ⟨s', e', -, hlt, hpos⟩
      · have hpos : 0 < env.target.space.savedLength s (e - s) := by omega
        exact hput.exists_segment hrun le_rfl (AddressSpace.readable_of_savedLength_pos hpos)
      · exact hput.exists_segment hrun hlt.le (AddressSpace.readable_of_savedLength_pos hpos)
    obtain ⟨e', hrun', hsize, -, -⟩ := hput.run (List.mem_of_getElem? hk)
    obtain rfl := hrun.stop_eq _ _ hrun'
    obtain ⟨hread, hlen⟩ := (readAt_run_iff hput hfits hops hk hrun hn hle' hend).2 ⟨hsaved, hd⟩
    rw [find?_holds hput hk hn ⟨hle, by rw [hsize, hstop hrun]; exact hend⟩]
    simp only [Option.bind_some, SegmentCommand64.withFileoff, hread, hlen, if_true]

/-- A run that can be read whole is in the file, and so is every part of it. -/
theorem readCoreMemory_of_run (hput : DumpPut env b) (hfits : Fits b) {f : FileStream}
    (hops : runOps b.script ⟨[], 0⟩ = (true, f)) {s e a n : UInt64}
    (hrun : env.target.Run env.crash (env.target.threads.getD []) s e)
    (hreadable : ∀ x, s ≤ x → x < e → env.target.space.Readable x) (hn : 0 < n.toNat) (hle : s ≤ a)
    (hend : a.toNat + n.toNat ≤ e.toNat) :
    readCoreMemory f.content a n = some (env.target.space.bytes a n.toNat) := by
  obtain ⟨hsep, -⟩ := mergedRanges_covers env.target env.crash (env.target.threads.getD [])
  have hstop : s.toNat + (e - s).toNat = e.toNat :=
    forEachArgs_stop (i := (s, e)) (hsep.lt _ ((Target.run_iff_mem _ _).1 hrun))
  have hfit : s.toNat + (e - s).toNat < 2 ^ 64 := hstop ▸ e.toNat_lt
  have hle' := UInt64.le_iff_toNat_le.1 hle
  have hsaved : env.target.space.savedLength s (e - s) = (e - s).toNat := by
    refine AddressSpace.savedLength_of_readable hfit fun i hi => ?_
    have hx : (s + UInt64.ofNat i).toNat = s.toNat + i := toNat_add_ofNat (by omega)
    exact hreadable _ (UInt64.le_iff_toNat_le.2 (by omega)) (UInt64.lt_iff_toNat_lt.2 (by omega))
  refine (readCoreMemory_iff hput hfits hops hn _).2 ⟨s, e, hrun, hle, hend, .inl ?_, ?_⟩
  · rw [hsaved, hstop]
    exact hend
  · refine List.map_congr_left fun i hi => ?_
    have hi' := List.mem_range.1 hi
    have hlt := e.toNat_lt
    have hx : (a + UInt64.ofNat i).toNat = a.toNat + i := toNat_add_ofNat (by omega)
    rw [AddressSpace.savedByte, if_pos (by omega)]

/-- What a dump that succeeds, on a stream at its start and with a layout that fits, has of a range
of memory. -/
theorem readCoreMemory_writeDump {f f' : FileStream} (hb : env.prepare debug = .ok (some b))
    (h : env.miniDumpWriteDumpImpl debug f = .ok (true, f')) (hpos : f.pos = 0) (hfits : Fits b)
    {a n : UInt64} (hn : 0 < n.toNat) (d : List UInt8) :
    readCoreMemory f'.content a n = some d
      ↔ ∃ s e, env.target.Run env.crash (env.target.threads.getD []) s e
        ∧ s ≤ a ∧ a.toNat + n.toNat ≤ e.toNat
        ∧ (a.toNat + n.toNat ≤ s.toNat + env.target.space.savedLength s (e - s)
          ∨ env.target.SavedBehind env.crash (env.target.threads.getD []) s)
        ∧ d = (List.range n.toNat).map fun i =>
          env.target.space.savedByte s e (a + UInt64.ofNat i) := by
  have hrun := runOps_of_writeDump hb h
  rw [hpos] at hrun
  exact readCoreMemory_iff (prepare_put hb) hfits hrun hn d

end Dump

/-- Eight bytes of the code before the one address. -/
theorem readCoreMemory_writeDump_withCallStack :
    ∃ f', (withCallStack [0x1200]).miniDumpWriteDumpImpl false FileStream.empty = .ok (true, f')
      ∧ readCoreMemory f'.content 0x11F8 8 = some (List.replicate 8 7) := by
  obtain ⟨b, f', hb, hf, hfits⟩ := exists_of_succeeds succeeds_withCallStack.1
  refine ⟨f', hf, (readCoreMemory_writeDump hb hf rfl hfits (by decide) _).2
    ⟨0x1100, 0x1301, ?_, by decide, by decide, .inl ?_, ?_⟩⟩
  · refine (Target.run_iff_mem _ _).2 ?_
    have hmerged := mergedRanges_withCallStack.1
    exact (congrArg (_ ∈ ·) hmerged).mpr (List.mem_singleton_self _)
  · have hsaved : (withCallStack [0x1200]).target.space.savedLength 0x1100 (0x1301 - 0x1100)
        = (0x1301 - 0x1100 : UInt64).toNat := savedLength_onePage.1
    rw [hsaved]
    decide
  · decide +kernel

end MacMiniDump
