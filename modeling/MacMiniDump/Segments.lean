import MacMiniDump.Calls
import MacMiniDump.Threads

/-!
# The segments of a dump

What `AddThreadsToCore` adds to the builder, in the terms of what it was asked for: one segment for
each maximal run of requested addresses, with the protection of the first region that ends after the
start of the run, if there is one (`addThreadsToCore_builder`, `segmentCmds_eq`). The range whose
end overflows is the last one, and gets no segment since no region is there.
-/

namespace MacMiniDump

open MachOCoreDumpBuilder DisjointIntervalSet

variable {arch : Arch}

namespace Target

/-- At most 256 bytes from a call-stack address that passes the guard, or on a stack. -/
def Requested (target : Target arch) (crash : Option (CrashContext arch))
    (threads : List (TargetThread arch)) (x : UInt64) : Prop :=
  (∃ ip ∈ target.callStackAddresses crash threads, surroundingsFit ip = true
    ∧ ip.toNat ≤ x.toNat + 256 ∧ x.toNat ≤ ip.toNat + 256)
    ∨ ∃ s ∈ target.stackRanges crash threads, s.1 ≤ x ∧ x < s.2

/-- The segment that is added for a range. -/
def segmentOf (target : Target arch) (r : UInt64 × UInt64) : Option Segment :=
  (target.getMemoryProtection r.1).map fun prot =>
    { cmd :=
        { cmd := LC_SEGMENT_64, cmdsize := SegmentCommand64.sizeOf, segname := Vector.replicate 16 0
          vmaddr := r.1, vmsize := r.2, fileoff := 0, filesize := r.2
          maxprot := prot.toUInt32, initprot := prot.toUInt32, nsects := 0, flags := 0 }
      provider := some (processMemoryDataProvider target.space.readMemory r.1 r.2) }

/-- The ranges whose end does not overflow, merged. -/
def mergedRanges (target : Target arch) (crash : Option (CrashContext arch))
    (threads : List (TargetThread arch)) : List (UInt64 × UInt64) :=
  insertAll ((target.requests crash threads).filter (· ≠ (topStart, 513))) []

end Target

section Builder

variable (target : Target arch) (crash : Option (CrashContext arch)) {b : MachOCoreDumpBuilder}

theorem addSegmentCommandFromProcessMemory_eq (hb : b.loadCommandsFinalized = false)
    (r : UInt64 × UInt64) : (target.addSegmentCommandFromProcessMemory r.1 r.2 b).2
      = { b with segmentCmds := b.segmentCmds ++ (target.segmentOf r).toList } := by
  unfold Target.addSegmentCommandFromProcessMemory Target.segmentOf
  rcases target.getMemoryProtection r.1 with _ | prot
  · simp
  · simp only [addSegmentCommand, hb, Bool.false_eq_true, if_false, Option.map_some,
      Option.toList_some]
    rfl

theorem foldl_addSegmentCommandFromProcessMemory :
    ∀ (ranges : List (UInt64 × UInt64)) {b : MachOCoreDumpBuilder},
      b.loadCommandsFinalized = false →
      ranges.foldl (fun b r => (target.addSegmentCommandFromProcessMemory r.1 r.2 b).2) b
        = { b with segmentCmds := b.segmentCmds ++ ranges.filterMap target.segmentOf }
  | [], _, _ => by simp
  | r :: ranges, b, hb => by
    rw [List.foldl_cons, addSegmentCommandFromProcessMemory_eq target hb,
      foldl_addSegmentCommandFromProcessMemory ranges (by exact hb), filterMap_cons_toList,
      List.append_assoc]

theorem addThread_builder {s : Collected} (hs : s.builder.Formed arch)
    (thread : TargetThread arch) :
    (target.addThread crash s thread).builder.Formed arch
      ∧ (target.addThread crash s thread).builder.noteCmds = s.builder.noteCmds
      ∧ (target.addThread crash s thread).builder.segmentCmds = s.builder.segmentCmds := by
  unfold Target.addThread
  rcases thread.registers crash with _ | ⟨gpr, exc⟩
  · exact ⟨hs, rfl, rfl⟩
  · exact ⟨hs.addThreadCommand gpr exc, rfl, rfl⟩

theorem foldl_addThread_builder :
    ∀ (threads : List (TargetThread arch)) {s : Collected}, s.builder.Formed arch →
      (threads.foldl (target.addThread crash) s).builder.Formed arch
        ∧ (threads.foldl (target.addThread crash) s).builder.noteCmds = s.builder.noteCmds
        ∧ (threads.foldl (target.addThread crash) s).builder.segmentCmds = s.builder.segmentCmds
  | [], _, hs => ⟨hs, rfl, rfl⟩
  | thread :: threads, s, hs => by
    obtain ⟨h1, h2, h3⟩ := addThread_builder target crash hs thread
    obtain ⟨h4, h5, h6⟩ := foldl_addThread_builder threads h1
    exact ⟨h4, h5.trans h2, h6.trans h3⟩

theorem segmentOf_formed {r : UInt64 × UInt64} {s : Segment} (h : target.segmentOf r = some s) :
    s.Formed := by
  obtain ⟨prot, -, rfl⟩ := Option.map_eq_some_iff.1 h
  exact ⟨rfl, rfl, rfl, rfl⟩

/-- A new builder gets a segment for each range. -/
theorem addThreadsToCore_builder {s : Collected}
    (h : target.addThreadsToCore crash (new arch) = some s) :
    s.builder.Formed arch ∧ s.builder.noteCmds = []
      ∧ s.builder.segmentCmds = (forEachArgs
        (target.memoryRanges crash (target.threads.getD []))).filterMap target.segmentOf := by
  obtain ⟨threads, ht, rfl⟩ := Option.map_eq_some_iff.1 h
  obtain ⟨h1, h2, h3⟩ := foldl_addThread_builder target crash threads
    (s := ⟨new arch, target.modules, [], []⟩) (formed_new arch)
  have hsegs : (threads.foldl (target.addThread crash)
      ⟨new arch, target.modules, [], []⟩).builder.segmentCmds = [] := h3
  rw [ht, Option.getD_some]
  simp only [foldl_addSegmentCommandFromProcessMemory target _ h1.notFinalized, hsegs,
    List.nil_append]
  refine ⟨{ h1 with segments := ?_ }, h2, rfl⟩
  intro s hs
  obtain ⟨r, -, hr⟩ := List.mem_filterMap.1 hs
  exact segmentOf_formed target hr

end Builder

section Requested

variable (target : Target arch) (crash : Option (CrashContext arch))

theorem mem_surroundings_iff {ip x : UInt64} (hfit : surroundingsFit ip = true)
    (hne : ip ≠ lastGuarded) : (ip - surroundingsRange ≤ x ∧ x < ip - surroundingsRange + 513)
      ↔ ip.toNat ≤ x.toNat + 256 ∧ x.toNat ≤ ip.toNat + 256 := by
  have h513 : (513 : UInt64).toNat = 513 := rfl
  obtain ⟨h1, h2⟩ := surroundings_bounds hfit
  have h3 := (surroundings_lt hfit hne).1
  rw [UInt64.lt_iff_toNat_lt, UInt64.toNat_add, h513] at h3
  rw [UInt64.le_iff_toNat_le, UInt64.lt_iff_toNat_lt, UInt64.toNat_add, h513]
  omega

/-- Whatever is in the ranges was requested. -/
theorem requested_of_inRanges {threads : List (TargetThread arch)} {x : UInt64}
    (h : InRanges ((target.requests crash threads).filter (· ≠ (topStart, 513))) x) :
    target.Requested crash threads x := by
  obtain ⟨r, hr, hin⟩ := h
  obtain ⟨hr, hne⟩ := List.mem_filter.1 hr
  rcases (mem_requests target crash).1 hr with ⟨ip, hmem, hfit, rfl⟩ | ⟨s, hs, rfl⟩
  · have hne' : ip ≠ lastGuarded := by
      rintro rfl
      exact absurd hne (by decide)
    exact .inl ⟨ip, hmem, hfit, (mem_surroundings_iff hfit hne').1 hin⟩
  · refine .inr ⟨s, hs, hin.1, ?_⟩
    simpa using hin.2

/-- Below the range whose end overflows, the ranges are what was requested. -/
theorem inRanges_iff_requested {threads : List (TargetThread arch)} {x : UInt64}
    (hx : x < topStart) :
    InRanges ((target.requests crash threads).filter (· ≠ (topStart, 513))) x
      ↔ target.Requested crash threads x := by
  have htop : topStart.toNat = 2 ^ 64 - 513 := rfl
  have hlast : lastGuarded.toNat = 2 ^ 64 - 257 := rfl
  rw [UInt64.lt_iff_toNat_lt] at hx
  refine ⟨requested_of_inRanges target crash, ?_⟩
  simp only [InRanges, List.mem_filter, mem_requests]
  rintro (⟨ip, hmem, hfit, h1, h2⟩ | ⟨s, hs, h1, h2⟩)
  · have hne : ip ≠ lastGuarded := by
      rintro rfl
      omega
    have hne' : (ip - surroundingsRange, (513 : UInt64)) ≠ (topStart, 513) := by
      have := (surroundings_lt hfit hne).2
      exact fun h => absurd this (by rw [(Prod.mk.inj h).1]; exact lt_irrefl _)
    exact ⟨_, ⟨.inl ⟨ip, hmem, hfit, rfl⟩, by simpa using hne'⟩,
      (mem_surroundings_iff hfit hne).2 ⟨h1, h2⟩⟩
  · have hlt := stackRanges_lt target crash hs
    refine ⟨_, ⟨.inr ⟨s, hs, rfl⟩, ?_⟩, h1, by simpa using h2⟩
    simp only [decide_eq_true_eq]
    exact fun h => absurd hlt (by rw [(Prod.mk.inj h).1]; exact lt_irrefl _)

/-- The merged ranges are apart, and cover what was requested. -/
theorem mergedRanges_covers (threads : List (TargetThread arch)) :
    Separated (target.mergedRanges crash threads)
      ∧ ∀ x, Covers (target.mergedRanges crash threads) x
        ↔ InRanges ((target.requests crash threads).filter (· ≠ (topStart, 513))) x := by
  have hplain : ∀ r ∈ (target.requests crash threads).filter (· ≠ (topStart, 513)),
      r.2 = 0 ∨ r.1 < r.1 + r.2 := by
    intro r hr
    obtain ⟨hr, hne⟩ := List.mem_filter.1 hr
    rcases guarded_requests target crash r hr with h | h | h
    · simp [h] at hne
    · exact .inl h
    · exact .inr h.1
  obtain ⟨hs, hc⟩ := insertAll_covers Separated.nil hplain
  exact ⟨hs, fun x => (hc x).trans (or_iff_left (covers_nil x))⟩

/-- No region is in the last page there could be. -/
theorem regionRecurse_topStart (space : AddressSpace) : space.regionRecurse topStart = none := by
  refine List.find?_eq_none.2 fun r hr => ?_
  have hfits := space.fits r hr
  obtain ⟨h1, h2⟩ := space.aligned r hr
  have htop : topStart.toNat = 2 ^ 64 - 513 := rfl
  have hle : ¬ topStart.toNat < r.stop := by
    unfold Region.stop at hfits ⊢
    omega
  simpa using hle

/-- The range whose end overflows gets no segment. -/
theorem segments_eq (threads : List (TargetThread arch)) :
    (forEachArgs (target.memoryRanges crash threads)).filterMap target.segmentOf
      = (forEachArgs (target.mergedRanges crash threads)).filterMap target.segmentOf := by
  have hguarded : ∀ r ∈ target.requests crash threads, Guarded r := guarded_requests target crash
  obtain ⟨⟨t, ht, heq⟩, -, -⟩ := insertAll_withTop withTop_nil hguarded
  rw [memoryRanges_eq, heq]
  rcases ht with rfl | rfl
  · rw [List.append_nil]
    rfl
  · have hnone : target.segmentOf (topStart, 0 - topStart) = none := by
      simp [Target.segmentOf, Target.getMemoryProtection, regionRecurse_topStart]
    simp only [forEachArgs, List.map_append, List.filterMap_append, List.map_cons, List.map_nil,
      List.filterMap_cons, hnone, List.filterMap_nil, List.append_nil]
    rfl

end Requested

end MacMiniDump
