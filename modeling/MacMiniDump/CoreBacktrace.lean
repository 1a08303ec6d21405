import MacMiniDump.CoreMemory
import MacMiniDump.FrameChain

/-!
# A backtrace from a core file

A debugger that has nothing but the core file starts at the base pointer of a thread and reads the
frame records from the memory of the file. It comes to the return addresses that the target had on
the stack (`backtrace_writeDump`), all of them, while the walk at the time of the dump leaves the
last one out.
-/

namespace MacMiniDump

open MachOCoreDumpBuilder DisjointIntervalSet

namespace WalkTarget

variable {t t' : WalkTarget} {bp : UInt64} {n : ℕ}

/-- Both words of each record are the same. -/
def SameRecords (t t' : WalkTarget) (bp : UInt64) (n : ℕ) : Prop :=
  ∀ i ≤ n, t'.read (t.basePointers bp i) 8 = t.read (t.basePointers bp i) 8
    ∧ t'.read (t.basePointers bp i + 8) 8 = t.read (t.basePointers bp i + 8) 8

theorem basePointers_succ' (t : WalkTarget) (bp : UInt64) (i : ℕ) :
    t.basePointers bp (i + 1) = t.pointerAt (t.basePointers bp i) :=
  Function.iterate_succ_apply' _ _ _

theorem pointerAt_congr {a : UInt64} (h : t'.read a 8 = t.read a 8) :
    t'.pointerAt a = t.pointerAt a := by
  rw [pointerAt, pointerAt, h]

theorem SameRecords.basePointers (h : t.SameRecords t' bp n) :
    ∀ i ≤ n + 1, t'.basePointers bp i = t.basePointers bp i
  | 0, _ => rfl
  | i + 1, hi => by
    rw [basePointers_succ', basePointers_succ', SameRecords.basePointers h i (by omega)]
    exact pointerAt_congr (h i (by omega)).1

/-- A chain is one wherever its records are the same, with the same return addresses. -/
theorem SameRecords.frameChain (h : t.SameRecords t' bp n) (hchain : t.FrameChain bp n) :
    t'.FrameChain bp n ∧ t'.returnAddresses bp n = t.returnAddresses bp n := by
  have hbp := h.basePointers
  refine ⟨⟨fun i hi => ?_, fun i hi => ?_, fun i hi => ?_, fun i hi => ?_, ?_⟩, ?_⟩
  · rw [hbp i (by omega)]
    exact hchain.nonzero i hi
  · rw [hbp i (by omega)]
    exact hchain.inMemory i hi
  · rw [hbp i (by omega), (h i hi).1]
    exact hchain.savedPointer i hi
  · rw [hbp i (by omega), (h i hi).2]
    exact hchain.savedAddress i hi
  · rw [hbp (n + 1) le_rfl]
    exact hchain.ends
  · refine List.map_congr_left fun i hi => ?_
    have hle : i ≤ n := Nat.le_of_lt_succ (List.mem_range.1 hi)
    rw [returnAddress, returnAddress, hbp i (by omega)]
    exact pointerAt_congr (h i hle).2

end WalkTarget

section Stack

variable {arch : Arch} {env : DumpEnv arch} {debug : Bool} {b : MachOCoreDumpBuilder}

/-- A range that was requested is part of a run. -/
theorem exists_run_of_request {target : Target arch} {crash : Option (CrashContext arch)}
    {threads : List (TargetThread arch)} {start length : UInt64}
    (hr : (start, length) ∈ target.requests crash threads) (htop : start < topStart)
    (hlt : start < start + length) :
    ∃ s e, target.Run crash threads s e ∧ s ≤ start ∧ start + length ≤ e := by
  obtain ⟨hsep, hcov⟩ := mergedRanges_covers target crash threads
  obtain ⟨i, hi, hle, hend⟩ := hsep.exists_mem_of_covers hlt fun x h₁ h₂ => by
    refine (hcov x).2 ⟨(start, length), List.mem_filter.2 ⟨hr, ?_⟩, h₁, h₂⟩
    simp only [decide_eq_true_eq]
    exact fun h => absurd htop (by rw [(Prod.mk.inj h).1]; exact lt_irrefl _)
  exact ⟨i.1, i.2, (Target.run_iff_mem _ _).2 hi, hle, hend⟩

/-- A stack that is included is part of a run. -/
theorem exists_run_of_stack {target : Target arch} {crash : Option (CrashContext arch)}
    {threads : List (TargetThread arch)} {sp stackStart : UInt64}
    (hs : (sp, stackStart) ∈ target.stackRanges crash threads) (hlt : sp < stackStart) :
    ∃ s e, target.Run crash threads s e ∧ s ≤ sp ∧ stackStart ≤ e := by
  have hstop : sp + (stackStart - sp) = stackStart := add_sub_cancel _ _
  obtain ⟨s, e, hrun, hle, hend⟩ := exists_run_of_request
    ((mem_requests target crash).2 (.inr ⟨_, hs, rfl⟩)) (stackRanges_lt target crash hs)
    (by rwa [hstop])
  exact ⟨s, e, hrun, hle, hstop ▸ hend⟩

/-- The stack of a thread from its stack pointer to the end of its region. -/
theorem mem_stackRanges {target : Target arch} {crash : Option (CrashContext arch)}
    {threads : List (TargetThread arch)} {thread : TargetThread arch} {gpr : GPR arch}
    {exc : EXC arch} {ri : MemoryRegionInfo} (ht : thread ∈ threads)
    (hregs : thread.registers crash = some (gpr, exc))
    (hinc : thread.stackIncluded crash target.threadSelf = true)
    (hri : getRegionInfoForAddress target.memoryRegions gpr.stackPointer = some ri) :
    (gpr.stackPointer, ri.vmaddr + ri.vmsize) ∈ target.stackRanges crash threads := by
  refine List.mem_filterMap.2 ⟨thread, ht, ?_⟩
  rw [hregs]
  simp only [hinc, if_true, hri, Option.map_some]

theorem shownThreads_mem {target : Target arch} {crash : Option (CrashContext arch)}
    {thread : TargetThread arch} {r : GPR arch × EXC arch} (ht : thread ∈ target.threads.getD [])
    (hregs : thread.registers crash = some r) :
    (thread.tid, r) ∈ target.shownThreads crash :=
  List.mem_filterMap.2 ⟨thread, ht, by rw [hregs]; rfl⟩

/-- The file of a dump has the registers of a thread, and where its stack was included and is in a
run that could be read whole, the chain of frame records on it has the same return addresses in the
file as in the target. -/
theorem backtrace_writeDump {f f' : FileStream} (hb : env.prepare debug = .ok (some b))
    (h : env.miniDumpWriteDumpImpl debug f = .ok (true, f')) (hpos : f.pos = 0) (hfits : Fits b)
    {thread : TargetThread arch} {gpr : GPR arch} {exc : EXC arch} {ri : MemoryRegionInfo}
    (ht : thread ∈ env.target.threads.getD [])
    (hregs : thread.registers env.crash = some (gpr, exc))
    (hinc : thread.stackIncluded env.crash env.target.threadSelf = true)
    (hri : getRegionInfoForAddress env.target.memoryRegions gpr.stackPointer = some ri)
    (hwhole : ∀ s e, env.target.Run env.crash (env.target.threads.getD []) s e →
      s ≤ gpr.stackPointer → gpr.stackPointer < e →
      ∀ x, s ≤ x → x < e → env.target.space.Readable x)
    {t t' : WalkTarget} (hread : t.read = env.target.space.readMemory)
    (hread' : t'.read = readCoreMemory f'.content) {n : ℕ}
    (hchain : t.FrameChain gpr.basePointer n)
    (hstack : ∀ i ≤ n, gpr.stackPointer ≤ t.basePointers gpr.basePointer i
      ∧ (t.basePointers gpr.basePointer i).toNat + 16 ≤ (ri.vmaddr + ri.vmsize).toNat) :
    (∃ threads, readThreads arch f'.content = some threads ∧ (thread.tid, gpr, exc) ∈ threads)
      ∧ t'.FrameChain gpr.basePointer n
      ∧ t'.returnAddresses gpr.basePointer n = t.returnAddresses gpr.basePointer n := by
  have hops := runOps_of_writeDump hb h
  rw [hpos] at hops
  have hput := prepare_put hb
  refine ⟨⟨_, readThreads_eq hb (wellPlaced_of_runOps hput hfits hops),
    shownThreads_mem ht hregs⟩, WalkTarget.SameRecords.frameChain (fun i hi => ?_) hchain⟩
  -- the stack is not empty, for there is a record on it
  have hlt : gpr.stackPointer < ri.vmaddr + ri.vmsize := by
    obtain ⟨hle, hend⟩ := hstack 0 (Nat.zero_le n)
    have := UInt64.le_iff_toNat_le.1 hle
    exact UInt64.lt_iff_toNat_lt.2 (by omega)
  obtain ⟨s, e, hrun, hse, hend⟩ :=
    exists_run_of_stack (mem_stackRanges ht hregs hinc hri) hlt
  have hreadable := hwhole s e hrun hse (hlt.trans_le hend)
  have hsame : ∀ p : UInt64, gpr.stackPointer.toNat ≤ p.toNat →
      p.toNat + 8 ≤ (ri.vmaddr + ri.vmsize).toNat → t'.read p 8 = t.read p 8 := by
    intro p hp hp'
    have h8 : (8 : UInt64).toNat = 8 := rfl
    have hse' := UInt64.le_iff_toNat_le.1 hse
    have hend' := UInt64.le_iff_toNat_le.1 hend
    have he := e.toNat_lt
    rw [hread, hread', readCoreMemory_of_run hput hfits hops hrun hreadable (by decide)
      (UInt64.le_iff_toNat_le.2 (by omega)) (by omega)]
    refine (AddressSpace.readMemory_of_readable (by omega) fun j hj => ?_).symm
    have hx : (p + UInt64.ofNat j).toNat = p.toNat + j := toNat_add_ofNat (by omega)
    exact hreadable _ (UInt64.le_iff_toNat_le.2 (by omega)) (UInt64.lt_iff_toNat_lt.2 (by omega))
  obtain ⟨hle, hin⟩ := hstack i hi
  have hle' := UInt64.le_iff_toNat_le.1 hle
  have hadd : (t.basePointers gpr.basePointer i + 8).toNat
      = (t.basePointers gpr.basePointer i).toNat + 8 := by
    have hlt := (ri.vmaddr + ri.vmsize).toNat_lt
    exact toNat_add_ofNat (n := 8) (by omega)
  exact ⟨hsame _ hle' (by omega), hsame _ (by omega) (by omega)⟩

end Stack

/-- The last page of a stack, with a frame record at `0x1F00` that has the one at `0x1F20` and a
return address in the page of code. -/
def stackPage : AddressSpace where
  regions := [⟨0x1000, 0x1000, ⟨3, VM_MEMORY_STACK⟩⟩, ⟨0x4000, 0x1000, ⟨5, 0⟩⟩]
  byte a := if a = 0x1F00 then 0x20 else if a = 0x1F01 then 0x1F else if a = 0x1F09 then 0x48 else 0
  nonempty := by decide
  aligned := by decide
  fits := by decide
  ascending := by decide

/-- A thread in the function of the first record. -/
def twoFramesThread : TargetThread .arm64 where
  port := 2
  identifier := some 2
  ts := some ⟨(List.replicate 232 0 ++ le64 0x1F00 ++ le64 0 ++ le64 0x1F00
      ++ List.replicate 16 0).toArray, by
    simp only [List.size_toArray, List.length_append, List.length_replicate, length_le64,
      Arch.gprSize]⟩
  es := some (Vector.replicate 16 0)

def twoFrames : DumpEnv .arm64 where
  pidForTask := true
  suspended := true
  target :=
    { space := stackPage, uninitialized := ⟨0, 0⟩, threads := some [twoFramesThread]
      threadSelf := 1, walkStack := fun _ _ => [], modules := sampleModules
      nAddrableBits := some 47 }
  crash := none

/-- How a walk reads the memory of a target, or of a file. -/
def readsWith (read : UInt64 → UInt64 → Option (List UInt8)) : WalkTarget where
  read := read
  memoryRegions := []
  xpaci ptr := ptr
  lookupStackFrameForPC _ := .hasFrame

theorem succeeds_twoFrames : twoFrames.succeeds = true := by decide +kernel

theorem mergedRanges_twoFrames :
    twoFrames.target.mergedRanges none [twoFramesThread] = [(0x1F00, 0x2000)] := by
  decide +kernel

theorem exists_registers_twoFrames :
    ∃ gpr exc, twoFramesThread.registers none = some (gpr, exc) ∧ gpr.basePointer = 0x1F00
      ∧ gpr.stackPointer = 0x1F00 :=
  ⟨_, _, rfl, by decide +kernel, by decide +kernel⟩

theorem frameChain_stackPage {t : WalkTarget} (hread : t.read = stackPage.readMemory) :
    t.FrameChain 0x1F00 1 := by
  have hchain : (readsWith stackPage.readMemory).FrameChain 0x1F00 1 := by
    refine ⟨?_, ?_, ?_, ?_, by decide +kernel⟩
    all_goals
      intro i hi
      interval_cases i <;> decide +kernel
  exact (WalkTarget.SameRecords.frameChain (fun i _ => by rw [hread]; exact ⟨rfl, rfl⟩) hchain).1

/-- The chain of both records is found in the file. -/
theorem backtrace_writeDump_twoFrames :
    ∃ f' gpr exc, twoFrames.miniDumpWriteDumpImpl false FileStream.empty = .ok (true, f')
      ∧ twoFramesThread.registers none = some (gpr, exc)
      ∧ (readsWith (readCoreMemory f'.content)).FrameChain gpr.basePointer 1
      ∧ (readsWith (readCoreMemory f'.content)).returnAddresses gpr.basePointer 1
        = [0x4800, 0] := by
  obtain ⟨b, f', hb, hf, hfits⟩ := exists_of_succeeds succeeds_twoFrames
  obtain ⟨gpr, exc, hregs, hbp, hsp⟩ := exists_registers_twoFrames
  have hri : getRegionInfoForAddress twoFrames.target.memoryRegions gpr.stackPointer
      = some ⟨0x1000, 0x1000, 3, .stack⟩ := by
    rw [hsp]
    decide +kernel
  have hwhole : ∀ s e, twoFrames.target.Run none [twoFramesThread] s e → s ≤ gpr.stackPointer →
      gpr.stackPointer < e → ∀ x, s ≤ x → x < e → stackPage.Readable x := by
    intro s e hrun _ _ x hx hx'
    rw [Target.run_iff_mem, mergedRanges_twoFrames, List.mem_singleton, Prod.mk.injEq] at hrun
    obtain ⟨rfl, rfl⟩ := hrun
    exact ⟨_, List.mem_cons_self, ⟨le_trans (by decide) hx, hx'⟩, rfl⟩
  have hstack : ∀ i ≤ 1, gpr.stackPointer ≤ (readsWith stackPage.readMemory).basePointers
        gpr.basePointer i ∧ ((readsWith stackPage.readMemory).basePointers gpr.basePointer i).toNat
          + 16
          ≤ (0x1000 + 0x1000 : UInt64).toNat := by
    intro i hi
    rw [hbp, hsp]
    interval_cases i <;> decide +kernel
  obtain ⟨-, hchain', haddr⟩ := backtrace_writeDump hb hf rfl hfits List.mem_cons_self hregs rfl hri
    hwhole (rfl : (readsWith stackPage.readMemory).read = _)
    (rfl : (readsWith (readCoreMemory f'.content)).read = _) (hbp ▸ frameChain_stackPage rfl) hstack
  refine ⟨f', gpr, exc, hf, hregs, hchain', haddr.trans ?_⟩
  rw [hbp]
  decide +kernel

end MacMiniDump
