import MacMiniDump.Segments

/-!
# The protection of the segments

The protection of a segment is queried once, at its start, which is before the call-stack address it
is for and may be in another region, or in none. So an executable call-stack address is in a segment
with that permission exactly when the first region that ends after the start of its run of requested
addresses is executable (`executableStays_iff`).
-/

namespace MacMiniDump

open MachOCoreDumpBuilder DisjointIntervalSet

variable {arch : Arch}

def Segment.Contains (s : Segment) (a : UInt64) : Prop :=
  s.cmd.vmaddr ≤ a ∧ a.toNat < s.cmd.vmaddr.toNat + s.cmd.vmsize.toNat

def Segment.executable (s : Segment) : Bool := s.cmd.initprot &&& VM_PROT_EXECUTE != 0

namespace Target

variable (target : Target arch) (crash : Option (CrashContext arch))

/-- The call-stack addresses that pass the guard and are in an executable region. -/
def ExecutableIp (threads : List (TargetThread arch)) (ip : UInt64) : Prop :=
  ip ∈ target.callStackAddresses crash threads ∧ surroundingsFit ip = true
    ∧ ∃ r ∈ target.space.regions, r.Contains ip ∧ r.executable = true

/-- Executable call-stack addresses are in an executable segment. -/
def ExecutableStays (threads : List (TargetThread arch)) (segments : List Segment) : Prop :=
  ∀ ip, target.ExecutableIp crash threads ip →
    ∃ s ∈ segments, s.Contains ip ∧ s.executable = true

/-- The first region that ends after the start of the run of requested addresses is executable. -/
def RunStartsExecutable (threads : List (TargetThread arch)) (ip : UInt64) : Prop :=
  ∀ s, RunFrom (target.Requested crash threads) s ip →
    ∃ r, target.space.regionRecurse s = some r ∧ r.executable = true

end Target

/-- The permission is in the byte that is kept of the protection. -/
theorem toUInt8_and_execute (x : UInt32) :
    x.toUInt8.toUInt32 &&& VM_PROT_EXECUTE = x &&& VM_PROT_EXECUTE := by
  have h4 : VM_PROT_EXECUTE.toNat = 2 ^ 2 := rfl
  apply UInt32.toNat_inj.1
  rw [UInt32.toNat_and, UInt32.toNat_and, UInt8.toNat_toUInt32, UInt32.toNat_toUInt8, h4]
  refine Nat.eq_of_testBit_eq fun i => ?_
  simp only [Nat.testBit_and, Nat.testBit_two_pow, Nat.testBit_mod_two_pow]
  by_cases h : 2 = i
  · subst h
    simp
  · simp [h]

variable (target : Target arch) (crash : Option (CrashContext arch))

theorem segmentOf_executable {r : UInt64 × UInt64} {s : Segment}
    (h : target.segmentOf r = some s) : ∃ region, target.space.regionRecurse r.1 = some region
      ∧ s.executable = region.executable ∧ s.cmd.vmaddr = r.1 ∧ s.cmd.vmsize = r.2 := by
  obtain ⟨prot, hprot, rfl⟩ := Option.map_eq_some_iff.1 h
  obtain ⟨region, hregion, rfl⟩ := Option.map_eq_some_iff.1 hprot
  refine ⟨region, hregion, ?_, rfl, rfl⟩
  simp only [Segment.executable, Region.executable, toUInt8_and_execute]

/-- An address in a region is below the range whose end overflows. -/
theorem lt_topStart_of_contains {space : AddressSpace} {r : Region} (hr : r ∈ space.regions)
    {a : UInt64} (ha : r.Contains a) : a < topStart := by
  have hnone := regionRecurse_topStart space
  by_contra hlt
  have hle := UInt64.le_iff_toNat_le.1 (not_lt.1 hlt)
  have hstop := List.find?_eq_none.1 hnone r hr
  simp only [decide_eq_true_eq] at hstop
  have := ha.2
  omega

/-- The run of requested addresses up to a call-stack address in a region starts where the merged
range that holds it does. -/
theorem exists_mergedRange {threads : List (TargetThread arch)} {ip : UInt64}
    (hip : target.Requested crash threads ip) (hlt : ip < topStart) :
    ∃ i ∈ target.mergedRanges crash threads, (i.1 ≤ ip ∧ ip < i.2)
      ∧ ∀ s, RunFrom (target.Requested crash threads) s ip ↔ s = i.1 := by
  obtain ⟨hsep, hcov⟩ := mergedRanges_covers target crash threads
  have hiff : ∀ x ≤ ip, Covers (target.mergedRanges crash threads) x
      ↔ target.Requested crash threads x := fun x hx =>
    (hcov x).trans (inRanges_iff_requested target crash (hx.trans_lt hlt))
  obtain ⟨i, hi, hmem⟩ := (hiff ip le_rfl).2 hip
  refine ⟨i, hi, hmem, fun s => ?_⟩
  rw [← RunFrom.congr hiff]
  exact (hsep.mem_iff_isRun.1 hi).runFrom_iff hmem

/-- Executable call-stack addresses stay executable exactly when the run of requested addresses
around each of them starts in, or before, an executable region. -/
theorem executableStays_iff {s : Collected}
    (h : target.addThreadsToCore crash (new arch) = some s) :
    target.ExecutableStays crash (target.threads.getD []) s.builder.segmentCmds
      ↔ ∀ ip, target.ExecutableIp crash (target.threads.getD []) ip →
        target.RunStartsExecutable crash (target.threads.getD []) ip := by
  obtain ⟨-, -, hsegs⟩ := addThreadsToCore_builder target crash h
  rw [segments_eq] at hsegs
  rw [hsegs]
  generalize target.threads.getD [] = threads
  obtain ⟨hsep, -⟩ := mergedRanges_covers target crash threads
  have hcontains : ∀ {i : UInt64 × UInt64} {seg : Segment} {a : UInt64},
      i ∈ target.mergedRanges crash threads → seg.cmd.vmaddr = i.1 →
      seg.cmd.vmsize = i.2 - i.1 → (seg.Contains a ↔ i.1 ≤ a ∧ a < i.2) := by
    intro i seg a hi hv hz
    rw [Segment.Contains, hv, hz, forEachArgs_stop (hsep.lt i hi), UInt64.lt_iff_toNat_lt]
  refine forall_congr' fun ip => forall_congr' fun hip => ?_
  obtain ⟨hmem, hfit, region, hregion, hin, -⟩ := hip
  have hreq : target.Requested crash threads ip :=
    .inl ⟨ip, hmem, hfit, by omega, by omega⟩
  obtain ⟨i, hi, hrange, hstart⟩ := exists_mergedRange target crash hreq
    (lt_topStart_of_contains hregion hin)
  constructor
  · rintro ⟨seg, hseg, hcon, hex⟩ a ha
    obtain ⟨r, hr, hof⟩ := List.mem_filterMap.1 hseg
    obtain ⟨j, hj, rfl⟩ := List.mem_map.1 hr
    obtain ⟨r', hr', hex', hv, hz⟩ := segmentOf_executable target hof
    -- the segment is that of the range which holds the address
    have hj' := (hcontains hj hv hz).1 hcon
    have heq : i = j := by
      rcases hsep.trichotomy hi hj with h | h | h
      · exact h
      · exact absurd (hj'.1.trans hrange.2.le) (not_le.2 h)
      · exact absurd (hrange.1.trans hj'.2.le) (not_le.2 h)
    rw [(hstart a).1 ha, heq]
    exact ⟨r', hr', hex' ▸ hex⟩
  · intro hrun
    obtain ⟨r, hr, hex⟩ := hrun i.1 ((hstart i.1).2 rfl)
    obtain ⟨seg, hof⟩ : ∃ seg, target.segmentOf (i.1, i.2 - i.1) = some seg := by
      simp [Target.segmentOf, Target.getMemoryProtection, hr]
    obtain ⟨r', hr', hex', hv, hz⟩ := segmentOf_executable target hof
    have hsame : r' = r := Option.some.inj (hr'.symm.trans hr)
    refine ⟨seg, List.mem_filterMap.2 ⟨_, List.mem_map.2 ⟨i, hi, rfl⟩, hof⟩, ?_, ?_⟩
    · exact (hcontains hi hv hz).2 hrange
    · rw [hex', hsame, hex]

/-- Data at `0x1000`, and code right after it. -/
def dataThenCode : AddressSpace where
  regions := [⟨0x1000, 0x1000, ⟨3, 0⟩⟩, ⟨0x2000, 0x1000, ⟨5, 0⟩⟩]
  byte _ := 0
  nonempty := by decide
  aligned := by decide
  fits := by decide
  ascending := by decide

/-- A thread that executes the beginning of the code. -/
def firstInstructions : Target .arm64 where
  space := dataThenCode
  uninitialized := ⟨0, 0⟩
  threads := some [zeroThread 1]
  threadSelf := 1
  walkStack _ _ := [0x2010]
  modules := noModules
  nAddrableBits := none

theorem executableStays_iff_firstInstructions :
    ∃ s, firstInstructions.addThreadsToCore none (new .arm64) = some s
      ∧ (firstInstructions.ExecutableStays none [zeroThread 1] s.builder.segmentCmds
        ↔ ∀ ip, firstInstructions.ExecutableIp none [zeroThread 1] ip →
          firstInstructions.RunStartsExecutable none [zeroThread 1] ip) :=
  ⟨_, rfl, executableStays_iff firstInstructions none rfl⟩

theorem segments_firstInstructions :
    ((firstInstructions.addThreadsToCore none (new .arm64)).all fun s =>
      s.builder.segmentCmds.all (!·.executable)) = true := by
  decide +kernel

/-- The surroundings start in the data, and that is the protection of the segment. -/
theorem not_executableStays_firstInstructions :
    ∃ s, firstInstructions.addThreadsToCore none (new .arm64) = some s
      ∧ ¬ firstInstructions.ExecutableStays none [zeroThread 1] s.builder.segmentCmds := by
  refine ⟨_, rfl, fun h => ?_⟩
  obtain ⟨seg, hseg, -, hex⟩ := h 0x2010 ⟨by decide, by decide, by decide⟩
  have hall := List.all_eq_true.1 segments_firstInstructions seg hseg
  simp [hex] at hall

end MacMiniDump
