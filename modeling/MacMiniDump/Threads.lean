import MacMiniDump.AddressSpace
import MacMiniDump.DisjointIntervalSet
import MacMiniDump.MemoryRegions
import MacMiniDump.ModuleList
import MacMiniDump.Registers

/-!
# `AddThreadsToCore`

One command for each thread, and the memory around its call stack and of its stack, which is
collected first and added as segments when the ranges of all threads have been merged. The guard
against an overflow lets one address through whose range ends at `2 ^ 64`, and the ranges are
disjoint and cover what was asked for exactly when no call stack has it
(`memoryRanges_covering_iff`). With another address close below it they overlap, or one of the two
is lost (`overlap_or_lost`).
-/

namespace MacMiniDump

open MachOCoreDumpBuilder DisjointIntervalSet

variable {arch : Arch}

/-- A thread of the target, with what the kernel answers about it. -/
structure TargetThread (arch : Arch) where
  port : UInt32
  identifier : Option UInt64
  ts : Option (Vector UInt8 arch.gprSize)
  es : Option (Vector UInt8 arch.excSize)

structure CrashContext (arch : Arch) where
  crashedTID : UInt64
  ss : Vector UInt8 arch.gprSize
  es : Vector UInt8 arch.excSize

/-- The target as the library finds it. -/
structure Target (arch : Arch) where
  space : AddressSpace
  /-- what is in the info of the regions before the first call -/
  uninitialized : SubmapInfo
  /-- `task_threads` -/
  threads : Option (List (TargetThread arch))
  /-- `mach_thread_self` -/
  threadSelf : UInt32
  /-- what `WalkStack` returns for the registers of a thread -/
  walkStack : GPR arch → EXC arch → List UInt64
  /-- `ModuleList (taskPort)` -/
  modules : ModuleList
  /-- `sysctlbyname` -/
  nAddrableBits : Option UInt32

namespace TargetThread

variable (thread : TargetThread arch) (crash : Option (CrashContext arch))

/-- Zero when it could not be found out. -/
def tid : UInt64 := thread.identifier.getD 0

/-- The registers: those of the crash context for the thread that crashed, else those that the
kernel has, if it has both. -/
def registers : Option (GPR arch × EXC arch) :=
  let states :=
    match crash with
    | some context =>
      if thread.tid = context.crashedTID then some (context.ss, context.es)
      else thread.ts.bind fun ts => thread.es.map (ts, ·)
    | none => thread.ts.bind fun ts => thread.es.map (ts, ·)
  states.map fun (ts, es) =>
    (⟨arch.gprKind, UInt32.ofNat (arch.gprSize / 4), ts⟩,
      ⟨arch.excKind, UInt32.ofNat (arch.excSize / 4), es⟩)

/-- Is its stack to be dumped? -/
def stackIncluded (threadSelf : UInt32) : Bool := thread.port != threadSelf || crash.isSome

end TargetThread

def surroundingsRange : UInt64 := 256

/-- The guard against an underflow or overflow. -/
def surroundingsFit (ip : UInt64) : Bool :=
  ip ≥ surroundingsRange && ip ≤ 0xFFFFFFFFFFFFFFFF - surroundingsRange

def addSurroundings (ranges : List (UInt64 × UInt64)) (ip : UInt64) : List (UInt64 × UInt64) :=
  if surroundingsFit ip then
    insertAndMergeIfNeeded (ip - surroundingsRange) (2 * surroundingsRange + 1) ranges
  else ranges

def addStack (memoryRegions : MemoryRegions) (included : Bool) (sp : UInt64)
    (ranges : List (UInt64 × UInt64)) : List (UInt64 × UInt64) :=
  match getRegionInfoForAddress memoryRegions sp with
  | none => ranges
  | some regionInfo =>
    let stackStart := regionInfo.vmaddr + regionInfo.vmsize
    let lengthInBytes := stackStart - sp
    if included then insertAndMergeIfNeeded (stackStart - lengthInBytes) lengthInBytes ranges
    else ranges

/-- What the loop over the threads adds to. -/
structure Collected where
  builder : MachOCoreDumpBuilder
  modules : ModuleList
  threadIds : List UInt64
  memoryRangesToAdd : List (UInt64 × UInt64)

namespace Target

variable (target : Target arch) (crash : Option (CrashContext arch))

def memoryRegions : MemoryRegions := memoryRegionList target.space target.uninitialized

/-- The body of the loop over the threads. -/
def addThread (s : Collected) (thread : TargetThread arch) : Collected :=
  match thread.registers crash with
  | none => s
  | some (gpr, exc) =>
    let callStack := target.walkStack gpr exc
    { builder := (s.builder.addThreadCommand [gpr.threadState, exc.threadState]).2
      modules := callStack.foldl (fun m ip => (m.markAsExecuting ip).2) s.modules
      threadIds := s.threadIds ++ [thread.tid]
      memoryRangesToAdd := addStack target.memoryRegions
        (thread.stackIncluded crash target.threadSelf) gpr.stackPointer
        (callStack.foldl addSurroundings s.memoryRangesToAdd) }

def getMemoryProtection (addr : UInt64) : Option UInt8 :=
  (target.space.regionRecurse addr).map (·.info.protection.toUInt8)

def addSegmentCommandFromProcessMemory (startAddress lengthInBytes : UInt64)
    (b : MachOCoreDumpBuilder) : Bool × MachOCoreDumpBuilder :=
  match target.getMemoryProtection startAddress with
  | none => (false, b)
  | some prot =>
    b.addSegmentCommand startAddress prot.toUInt32
      (some (processMemoryDataProvider target.space.readMemory startAddress lengthInBytes))

/-- `none` when it returns `false`. -/
def addThreadsToCore (b : MachOCoreDumpBuilder) : Option Collected :=
  target.threads.map fun threads =>
    let s := threads.foldl (target.addThread crash) ⟨b, target.modules, [], []⟩
    { s with
      builder := (forEachArgs s.memoryRangesToAdd).foldl
        (fun b r => (target.addSegmentCommandFromProcessMemory r.1 r.2 b).2) s.builder }

/-- The addresses on the call stacks. -/
def callStackAddresses (threads : List (TargetThread arch)) : List UInt64 :=
  threads.flatMap fun thread =>
    match thread.registers crash with
    | none => []
    | some (gpr, exc) => target.walkStack gpr exc

/-- From the stack pointer to the end of the region it is in, for each stack that is included. -/
def stackRanges (threads : List (TargetThread arch)) : List (UInt64 × UInt64) :=
  threads.filterMap fun thread =>
    match thread.registers crash with
    | none => none
    | some (gpr, _) =>
      if thread.stackIncluded crash target.threadSelf then
        (getRegionInfoForAddress target.memoryRegions gpr.stackPointer).map fun ri =>
          (gpr.stackPointer, ri.vmaddr + ri.vmsize)
      else none

/-- The ranges that are added as segments. -/
def memoryRanges (threads : List (TargetThread arch)) : List (UInt64 × UInt64) :=
  (threads.foldl (target.addThread crash) ⟨new arch, target.modules, [], []⟩).memoryRangesToAdd

/-- What is inserted for one thread: a start and a length for each range. -/
def threadRequests (thread : TargetThread arch) : List (UInt64 × UInt64) :=
  match thread.registers crash with
  | none => []
  | some (gpr, exc) =>
    ((target.walkStack gpr exc).filter surroundingsFit).map
    (fun ip => (ip - surroundingsRange, 513))
      ++ if thread.stackIncluded crash target.threadSelf then
          ((getRegionInfoForAddress target.memoryRegions gpr.stackPointer).map fun ri =>
            (gpr.stackPointer, ri.vmaddr + ri.vmsize - gpr.stackPointer)).toList
        else []

def requests (threads : List (TargetThread arch)) : List (UInt64 × UInt64) :=
  threads.flatMap (target.threadRequests crash)

end Target

section Requests

theorem insertAll_append (ranges ranges' m : List (UInt64 × UInt64)) :
    insertAll (ranges ++ ranges') m = insertAll ranges' (insertAll ranges m) :=
  List.foldl_append

theorem foldl_addSurroundings :
    ∀ (callStack : List UInt64) (m : List (UInt64 × UInt64)),
      callStack.foldl addSurroundings m
        = insertAll ((callStack.filter surroundingsFit).map
          fun ip => (ip - surroundingsRange, 513)) m
  | [], _ => rfl
  | ip :: callStack, m => by
    rw [List.foldl_cons, foldl_addSurroundings callStack]
    unfold addSurroundings
    by_cases h : surroundingsFit ip
    · rw [if_pos h, List.filter_cons_of_pos h]
      rfl
    · rw [if_neg h, List.filter_cons_of_neg h]

theorem addStack_eq (memoryRegions : MemoryRegions) (included : Bool) (sp : UInt64)
    (m : List (UInt64 × UInt64)) :
    addStack memoryRegions included sp m = insertAll (if included then
      ((getRegionInfoForAddress memoryRegions sp).map fun ri =>
        (sp, ri.vmaddr + ri.vmsize - sp)).toList else []) m := by
  unfold addStack
  rcases getRegionInfoForAddress memoryRegions sp with _ | ri
  · cases included <;> rfl
  cases included with
  | false => rfl
  | true =>
    simp only [if_true, Option.map_some, Option.toList_some, sub_sub_cancel]
    rfl

variable (target : Target arch) (crash : Option (CrashContext arch))

theorem addThread_ranges (s : Collected) (thread : TargetThread arch) :
    (target.addThread crash s thread).memoryRangesToAdd
      = insertAll (target.threadRequests crash thread) s.memoryRangesToAdd := by
  unfold Target.addThread Target.threadRequests
  rcases thread.registers crash with _ | ⟨gpr, exc⟩
  · rfl
  · simp only [insertAll_append, foldl_addSurroundings, addStack_eq]

theorem foldl_addThread_ranges :
    ∀ (threads : List (TargetThread arch)) (s : Collected),
      (threads.foldl (target.addThread crash) s).memoryRangesToAdd
        = insertAll (target.requests crash threads) s.memoryRangesToAdd
  | [], _ => rfl
  | thread :: threads, s => by
    have hcons : target.requests crash (thread :: threads)
        = target.threadRequests crash thread ++ target.requests crash threads := List.flatMap_cons
    rw [List.foldl_cons, foldl_addThread_ranges threads, addThread_ranges, hcons, insertAll_append]

theorem memoryRanges_eq (threads : List (TargetThread arch)) :
    target.memoryRanges crash threads = insertAll (target.requests crash threads) [] :=
  foldl_addThread_ranges target crash threads _

/-- The ranges inserted are the surroundings that pass the guard, and the stacks. -/
theorem mem_requests {threads : List (TargetThread arch)} {r : UInt64 × UInt64} :
    r ∈ target.requests crash threads
      ↔ (∃ ip ∈ target.callStackAddresses crash threads, surroundingsFit ip = true
          ∧ r = (ip - surroundingsRange, 513))
        ∨ ∃ s ∈ target.stackRanges crash threads, r = (s.1, s.2 - s.1) := by
  simp only [Target.requests, Target.callStackAddresses, Target.stackRanges, List.mem_flatMap,
    List.mem_filterMap]
  constructor
  · rintro ⟨thread, ht, hr⟩
    unfold Target.threadRequests at hr
    rcases hreg : thread.registers crash with _ | ⟨gpr, exc⟩
    · simp [hreg] at hr
    simp only [hreg] at hr
    rcases List.mem_append.1 hr with hr | hr
    · obtain ⟨ip, hip, rfl⟩ := List.mem_map.1 hr
      obtain ⟨hip, hfit⟩ := List.mem_filter.1 hip
      exact .inl ⟨ip, ⟨thread, ht, by rw [hreg]; exact hip⟩, hfit, rfl⟩
    · split_ifs at hr with hinc
      · obtain ⟨ri, hri, rfl⟩ := Option.map_eq_some_iff.1 (Option.mem_toList.1 hr)
        refine .inr ⟨(gpr.stackPointer, ri.vmaddr + ri.vmsize), ⟨thread, ht, ?_⟩, rfl⟩
        rw [hreg]
        simp only [hinc, if_true, hri, Option.map_some]
      · simp at hr
  · rintro (⟨ip, ⟨thread, ht, hip⟩, hfit, rfl⟩ | ⟨s, ⟨thread, ht, hs⟩, rfl⟩)
    · refine ⟨thread, ht, ?_⟩
      unfold Target.threadRequests
      rcases hreg : thread.registers crash with _ | ⟨gpr, exc⟩
      · simp [hreg] at hip
      simp only [hreg] at hip
      exact List.mem_append_left _ (List.mem_map.2 ⟨ip, List.mem_filter.2 ⟨hip, hfit⟩, rfl⟩)
    · refine ⟨thread, ht, ?_⟩
      unfold Target.threadRequests
      rcases hreg : thread.registers crash with _ | ⟨gpr, exc⟩
      · simp [hreg] at hs
      simp only [hreg] at hs ⊢
      refine List.mem_append_right _ ?_
      split_ifs at hs ⊢ with hinc
      obtain ⟨ri, hri, rfl⟩ := Option.map_eq_some_iff.1 hs
      simp [hri]

/-- What passes the guard ends by `2 ^ 64`. -/
theorem surroundings_bounds {ip : UInt64} (h : surroundingsFit ip = true) :
    (ip - surroundingsRange).toNat + 256 = ip.toNat ∧ ip.toNat + 257 ≤ 2 ^ 64 := by
  unfold surroundingsFit at h
  simp only [Bool.and_eq_true, decide_eq_true_eq, ge_iff_le] at h
  obtain ⟨h1, h2⟩ := h
  have hs : surroundingsRange.toNat = 256 := rfl
  have hmax : (0xFFFFFFFFFFFFFFFF - surroundingsRange).toNat = 2 ^ 64 - 257 := rfl
  have h1' := UInt64.le_iff_toNat_le.1 h1
  have h2' := UInt64.le_iff_toNat_le.1 h2
  rw [UInt64.toNat_sub_of_le _ _ h1]
  omega

/-- A stack ends at the end of a page at or after its stack pointer. -/
theorem stackRanges_bounds {threads : List (TargetThread arch)} {s : UInt64 × UInt64}
    (h : s ∈ target.stackRanges crash threads) : s.1 ≤ s.2 ∧ 4096 ∣ s.2.toNat := by
  obtain ⟨thread, -, hs⟩ := List.mem_filterMap.1 h
  split at hs
  · simp at hs
  split_ifs at hs
  obtain ⟨ri, hri, rfl⟩ := Option.map_eq_some_iff.1 hs
  exact (getRegionInfoForAddress_bounds hri).2

/-- The greatest address that passes the guard. -/
def lastGuarded : UInt64 := 0xFFFFFFFFFFFFFFFF - 256

/-- Only for the greatest address does the end overflow. -/
theorem surroundings_lt {ip : UInt64} (h : surroundingsFit ip = true) (hne : ip ≠ lastGuarded) :
    ip - surroundingsRange < ip - surroundingsRange + 513
      ∧ ip - surroundingsRange < topStart := by
  obtain ⟨h1, h2⟩ := surroundings_bounds h
  have htop : topStart.toNat = 2 ^ 64 - 513 := rfl
  have hlast : lastGuarded.toNat = 2 ^ 64 - 257 := rfl
  have h513 : (513 : UInt64).toNat = 513 := rfl
  have hne' : ip.toNat ≠ lastGuarded.toNat := fun h => hne (UInt64.toNat_inj.1 h)
  constructor
  · rw [UInt64.lt_iff_toNat_lt, UInt64.toNat_add, h513, Nat.mod_eq_of_lt (by omega)]
    omega
  · rw [UInt64.lt_iff_toNat_lt]
    omega

theorem stackRanges_lt {threads : List (TargetThread arch)} {s : UInt64 × UInt64}
    (h : s ∈ target.stackRanges crash threads) : s.1 < topStart := by
  obtain ⟨hle, hdvd⟩ := stackRanges_bounds target crash h
  have htop : topStart.toNat = 2 ^ 64 - 513 := rfl
  have hlt := s.2.toNat_lt
  rw [UInt64.le_iff_toNat_le] at hle
  rw [UInt64.lt_iff_toNat_lt]
  omega

theorem stack_request {threads : List (TargetThread arch)} {s : UInt64 × UInt64}
    (h : s ∈ target.stackRanges crash threads) : s.2 - s.1 = 0 ∨ s.1 < s.1 + (s.2 - s.1) := by
  obtain ⟨hle, -⟩ := stackRanges_bounds target crash h
  rcases hle.lt_or_eq with hlt | heq
  · exact .inr (by simpa using hlt)
  · exact .inl (by simp [heq])

theorem guarded_requests {threads : List (TargetThread arch)} :
    ∀ r ∈ target.requests crash threads, Guarded r := by
  intro r hr
  rcases (mem_requests target crash).1 hr with ⟨ip, -, hfit, rfl⟩ | ⟨s, hs, rfl⟩
  · by_cases hlast : ip = lastGuarded
    · exact .inl (by rw [hlast]; rfl)
    · exact .inr (.inr (surroundings_lt hfit hlast))
  · rcases stack_request target crash hs with hz | hlt
    · exact .inr (.inl hz)
    · have hs' := stackRanges_lt target crash hs
      exact .inr (.inr ⟨hlt, hs'⟩)

end Requests

/-- The calls of `ForEach` are for disjoint ranges in ascending order, none of them empty or with an
end that overflows, and whatever was asked for is in exactly one. -/
structure Covering (args : List (UInt64 × UInt64)) (ips : List UInt64)
    (ranges : List (UInt64 × UInt64)) : Prop where
  nonempty : ∀ a ∈ args, 0 < a.2.toNat
  fits : ∀ a ∈ args, a.1.toNat + a.2.toNat < 2 ^ 64
  ascending : args.Pairwise fun a a' => a.1.toNat + a.2.toNat ≤ a'.1.toNat
  aroundIps : ∀ ip ∈ ips, surroundingsFit ip = true →
    ∃! a, a ∈ args ∧ a.1.toNat + 256 ≤ ip.toNat ∧ ip.toNat + 256 < a.1.toNat + a.2.toNat
  ofStacks : ∀ s ∈ ranges, s.1 < s.2 →
    ∃! a, a ∈ args ∧ a.1 ≤ s.1 ∧ s.2.toNat ≤ a.1.toNat + a.2.toNat

section Covering

theorem forEachArgs_stop {i : UInt64 × UInt64} (h : i.1 < i.2) :
    i.1.toNat + (i.2 - i.1).toNat = i.2.toNat := by
  have hle := UInt64.lt_iff_toNat_lt.1 h
  rw [UInt64.toNat_sub_of_le _ _ h.le]
  omega

/-- A stretch of covered points is in exactly one of the ranges. -/
theorem existsUnique_forEachArgs {m : List (UInt64 × UInt64)} (hm : Separated m) {a b : UInt64}
    (hab : a < b) (hc : ∀ x, a ≤ x → x < b → Covers m x) :
    ∃! r, r ∈ forEachArgs m ∧ r.1 ≤ a ∧ b.toNat ≤ r.1.toNat + r.2.toNat := by
  obtain ⟨i, hi, h1, h2⟩ := hm.exists_mem_of_covers hab hc
  refine ⟨(i.1, i.2 - i.1), ⟨List.mem_map.2 ⟨i, hi, rfl⟩, h1, ?_⟩, ?_⟩
  · rw [forEachArgs_stop (hm.lt i hi)]
    exact UInt64.le_iff_toNat_le.1 h2
  · rintro r ⟨hr, h3, h4⟩
    obtain ⟨j, hj, rfl⟩ := List.mem_map.1 hr
    rw [forEachArgs_stop (hm.lt j hj), ← UInt64.le_iff_toNat_le] at h4
    rcases hm.trichotomy hi hj with rfl | h | h
    · rfl
    · have hself : j.1 < j.1 :=
        calc j.1 ≤ a := h3
          _ < b := hab
          _ ≤ i.2 := h2
          _ < j.1 := h
      exact absurd hself (lt_irrefl _)
    · have hself : i.1 < i.1 :=
        calc i.1 ≤ a := h1
          _ < b := hab
          _ ≤ j.2 := h4
          _ < i.1 := h
      exact absurd hself (lt_irrefl _)

variable (target : Target arch) (crash : Option (CrashContext arch))

/-- The ranges are disjoint and cover what was asked for exactly when no call stack has the greatest
address that the guard lets through. -/
theorem memoryRanges_covering_iff (threads : List (TargetThread arch)) :
    Covering (forEachArgs (target.memoryRanges crash threads))
        (target.callStackAddresses crash threads) (target.stackRanges crash threads)
      ↔ lastGuarded ∉ target.callStackAddresses crash threads := by
  constructor
  · intro hc hip
    obtain ⟨a, ⟨ha, -, hstop⟩, -⟩ := hc.aroundIps _ hip (by decide)
    have hfits := hc.fits a ha
    have hlast : lastGuarded.toNat = 2 ^ 64 - 257 := rfl
    omega
  · intro hlast
    have hplain : ∀ r ∈ target.requests crash threads, r.2 = 0 ∨ r.1 < r.1 + r.2 := by
      intro r hr
      rcases (mem_requests target crash).1 hr with ⟨ip, hip, hfit, rfl⟩ | ⟨s, hs, rfl⟩
      · exact .inr (surroundings_lt hfit fun h => hlast (h ▸ hip)).1
      · exact stack_request target crash hs
    obtain ⟨hsep, hcov⟩ := insertAll_covers Separated.nil hplain
    rw [← memoryRanges_eq] at hsep hcov
    have hin : ∀ r ∈ target.requests crash threads, ∀ x, r.1 ≤ x → x < r.1 + r.2 →
        Covers (target.memoryRanges crash threads) x :=
      fun r hr x h1 h2 => (hcov x).2 (.inl ⟨r, hr, h1, h2⟩)
    refine ⟨?_, ?_, ?_, ?_, ?_⟩
    · intro a ha
      obtain ⟨i, hi, rfl⟩ := List.mem_map.1 ha
      have hstop := forEachArgs_stop (hsep.lt i hi)
      have hlt := UInt64.lt_iff_toNat_lt.1 (hsep.lt i hi)
      simp only
      omega
    · intro a ha
      obtain ⟨i, hi, rfl⟩ := List.mem_map.1 ha
      rw [forEachArgs_stop (hsep.lt i hi)]
      exact i.2.toNat_lt
    · rw [forEachArgs, List.pairwise_map]
      refine hsep.gap.imp_of_mem fun hi _ hij => ?_
      rw [forEachArgs_stop (hsep.lt _ hi)]
      exact (UInt64.lt_iff_toNat_lt.1 hij).le
    · intro ip hip hfit
      obtain ⟨h1, h2⟩ := surroundings_bounds hfit
      have hlt := (surroundings_lt hfit fun h => hlast (h ▸ hip)).1
      have hstop : (ip - surroundingsRange + 513).toNat = ip.toNat + 257 := by
        have h513 : (513 : UInt64).toNat = 513 := rfl
        rw [UInt64.lt_iff_toNat_lt, UInt64.toNat_add, h513] at hlt
        rw [UInt64.toNat_add, h513]
        omega
      obtain ⟨r, ⟨hr, h3, h4⟩, huniq⟩ := existsUnique_forEachArgs hsep hlt
        (hin _ ((mem_requests target crash).2 (.inl ⟨ip, hip, hfit, rfl⟩)))
      have hiff : ∀ r : UInt64 × UInt64, (r.1.toNat + 256 ≤ ip.toNat
          ∧ ip.toNat + 256 < r.1.toNat + r.2.toNat) ↔ r.1 ≤ ip - surroundingsRange
            ∧ (ip - surroundingsRange + 513).toNat ≤ r.1.toNat + r.2.toNat := by
        intro r
        rw [hstop, UInt64.le_iff_toNat_le]
        omega
      exact ⟨r, ⟨hr, (hiff r).2 ⟨h3, h4⟩⟩, fun r' hr' => huniq r' ⟨hr'.1, (hiff r').1 hr'.2⟩⟩
    · intro s hs hlt
      have hstop : s.1 + (s.2 - s.1) = s.2 := add_sub_cancel _ _
      exact existsUnique_forEachArgs hsep hlt fun x h1 h2 =>
        hin _ ((mem_requests target crash).2 (.inr ⟨s, hs, rfl⟩)) x h1 (by rwa [hstop])

/-- A range that reaches the end of the address space is the one around the greatest guarded
address. -/
theorem eq_topStart_of_forEachArgs {threads : List (TargetThread arch)} {a : UInt64 × UInt64}
    (ha : a ∈ forEachArgs (target.memoryRanges crash threads))
    (hstop : 2 ^ 64 ≤ a.1.toNat + a.2.toNat) : a.1 = topStart := by
  have hguarded : ∀ r ∈ target.requests crash threads, Guarded r := guarded_requests target crash
  obtain ⟨⟨t, ht, heq⟩, hsep, -⟩ := insertAll_withTop withTop_nil hguarded
  rw [memoryRanges_eq, heq] at ha
  obtain ⟨i, hi, rfl⟩ := List.mem_map.1 ha
  rcases List.mem_append.1 hi with hi | hi
  · rw [forEachArgs_stop (hsep.lt i hi)] at hstop
    exact absurd hstop (not_le.2 i.2.toNat_lt)
  · rcases ht with rfl | rfl
    · simp at hi
    · rw [List.mem_singleton.1 hi]

/-- When the call stacks have the greatest guarded address and another less than 513 below it, two
ranges overlap, or the memory around one of the addresses is in none. -/
theorem overlap_or_lost {threads : List (TargetThread arch)} {ip : UInt64}
    (hlast : lastGuarded ∈ target.callStackAddresses crash threads)
    (hip : ip ∈ target.callStackAddresses crash threads) (hlt : ip < lastGuarded)
    (hclose : lastGuarded.toNat < ip.toNat + 513) :
    ¬ (forEachArgs (target.memoryRanges crash threads)).Pairwise
        (fun a a' => a.1.toNat + a.2.toNat ≤ a'.1.toNat)
      ∨ ∃ ip' ∈ target.callStackAddresses crash threads, surroundingsFit ip' = true
        ∧ ∀ a ∈ forEachArgs (target.memoryRanges crash threads),
          ¬ (a.1.toNat + 256 ≤ ip'.toNat ∧ ip'.toNat + 256 < a.1.toNat + a.2.toNat) := by
  have hL : lastGuarded.toNat = 2 ^ 64 - 257 := rfl
  have hfit : surroundingsFit ip = true := by
    have hs : surroundingsRange.toNat = 256 := rfl
    unfold surroundingsFit
    rw [Bool.and_eq_true, decide_eq_true_eq, decide_eq_true_eq, ge_iff_le,
      UInt64.le_iff_toNat_le]
    exact ⟨by omega, hlt.le⟩
  rw [or_iff_not_imp_left, not_not]
  intro hasc
  by_contra hlost
  have hfound : ∀ ip' ∈ target.callStackAddresses crash threads, surroundingsFit ip' = true →
      ∃ a ∈ forEachArgs (target.memoryRanges crash threads),
        a.1.toNat + 256 ≤ ip'.toNat ∧ ip'.toNat + 256 < a.1.toNat + a.2.toNat := by
    intro ip' hip' hfit'
    by_contra hnone
    exact hlost ⟨ip', hip', hfit', fun a ha hin => hnone ⟨a, ha, hin⟩⟩
  obtain ⟨a, ha, hstart, hstop⟩ := hfound _ hlast (by decide)
  obtain ⟨a', ha', hstart', hstop'⟩ := hfound ip hip hfit
  have htop := congrArg UInt64.toNat (eq_topStart_of_forEachArgs target crash ha (by omega))
  have htopStart : topStart.toNat = 2 ^ 64 - 513 := rfl
  rw [UInt64.lt_iff_toNat_lt] at hlt
  obtain ⟨i, hi, rfl⟩ := List.getElem_of_mem ha
  obtain ⟨j, hj, rfl⟩ := List.getElem_of_mem ha'
  -- the one for the other address starts before the last 513 bytes, and ends in them
  rcases lt_trichotomy i j with hij | rfl | hji
  · have hle := List.pairwise_iff_getElem.1 hasc i j hi hj hij
    have hstart := ((forEachArgs (target.memoryRanges crash threads))[j]).1.toNat_lt
    omega
  · omega
  · have hle := List.pairwise_iff_getElem.1 hasc j i hj hi hji
    omega

end Covering

/-- A thread whose registers are all zero. -/
def zeroThread (port : UInt32) : TargetThread .arm64 where
  port := port
  identifier := some port.toUInt64
  ts := some (Vector.replicate 272 0)
  es := some (Vector.replicate 16 0)

def noModules : ModuleList where
  moduleInfos := []
  ordered := .nil
  keyed := by simp
  count := by decide

def noRegions : AddressSpace where
  regions := []
  byte _ := 0
  nonempty := by simp
  aligned := by simp
  fits := by simp
  ascending := .nil

/-- A thread with two call-stack addresses near the end of the address space. -/
def topOfMemory : Target .arm64 where
  space := noRegions
  uninitialized := ⟨0, 0⟩
  threads := some [zeroThread 2]
  threadSelf := 1
  walkStack _ _ := [0xFFFFFFFFFFFFFEFF, 0xFFFFFFFFFFFFFE70]
  modules := noModules
  nAddrableBits := some 47

/-- Their ranges are not merged, and overlap. -/
theorem not_covering_topOfMemory :
    ¬ Covering (forEachArgs (topOfMemory.memoryRanges none [zeroThread 2]))
      (topOfMemory.callStackAddresses none [zeroThread 2])
      (topOfMemory.stackRanges none [zeroThread 2]) := by
  have hargs : forEachArgs (topOfMemory.memoryRanges none [zeroThread 2])
      = [(0xFFFFFFFFFFFFFD70, 513), (0xFFFFFFFFFFFFFDFF, 513)] := by decide +kernel
  intro h
  have hasc := h.ascending
  rw [hargs] at hasc
  exact absurd (List.pairwise_pair.1 hasc) (by decide)

end MacMiniDump
