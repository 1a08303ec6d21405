import MacMiniDump.AddressSpace
import MacMiniDump.Lib.OrderedMap

/-!
# `MemoryRegionList`

The regions of the target as the constructor collects them. Its loop also inserts what it has after
the call that fails, so behind the last region there is another entry of the same size
(`memoryRegionList_eq`). An address is looked up among the entries with the end of each included.
-/

namespace MacMiniDump

inductive MemoryRegionType
  | unknown
  | stack
  | heap
  deriving DecidableEq, Repr

structure MemoryRegionInfo where
  vmaddr : UInt64
  vmsize : UInt64
  prot : UInt8
  type : MemoryRegionType
  deriving DecidableEq, Repr

def VM_MEMORY_MALLOC_SMALL : UInt32 := 2
def VM_MEMORY_MALLOC_LARGE : UInt32 := 3
def VM_MEMORY_MALLOC_HUGE : UInt32 := 4
def VM_MEMORY_SBRK : UInt32 := 5
def VM_MEMORY_REALLOC : UInt32 := 6
def VM_MEMORY_MALLOC_TINY : UInt32 := 7
def VM_MEMORY_MALLOC_LARGE_REUSABLE : UInt32 := 8
def VM_MEMORY_MALLOC_LARGE_REUSED : UInt32 := 9
def VM_MEMORY_MALLOC_NANO : UInt32 := 11
def VM_MEMORY_STACK : UInt32 := 30

def heapTags : List UInt32 :=
  [VM_MEMORY_MALLOC_NANO, VM_MEMORY_MALLOC_TINY, VM_MEMORY_MALLOC_SMALL, VM_MEMORY_MALLOC_LARGE,
    VM_MEMORY_MALLOC_LARGE_REUSED, VM_MEMORY_MALLOC_LARGE_REUSABLE, VM_MEMORY_MALLOC_HUGE,
    VM_MEMORY_REALLOC, VM_MEMORY_SBRK]

def SubmapInfo.regionType (info : SubmapInfo) : MemoryRegionType :=
  if info.userTag = VM_MEMORY_STACK then
    if info.protection ≠ 0 then .stack else .unknown
  else if info.userTag ∈ heapTags then .heap
  else .unknown

def regionInfo (address size : UInt64) (info : SubmapInfo) : MemoryRegionInfo where
  vmaddr := address
  vmsize := size
  prot := info.protection.toUInt8
  type := info.regionType

abbrev MemoryRegions := List (UInt64 × MemoryRegionInfo)

/-- The loop of the constructor over a kernel, with the variables it passes to
`vm_region_recurse_64`, which leaves them alone when it fails. -/
def collectRegions (recurse : UInt64 → Option Region) :
    ℕ → UInt64 → UInt64 → SubmapInfo → MemoryRegions → MemoryRegions
  | 0, _, _, _, m => m
  | n + 1, address, size, info, m =>
    match recurse address with
    | none => insertNew address (regionInfo address size info) m
    | some r =>
      collectRegions recurse n (r.base + r.size) r.size r.info
        (insertNew r.base (regionInfo r.base r.size r.info) m)

def memoryRegionLoop (space : AddressSpace) :
    ℕ → UInt64 → UInt64 → SubmapInfo → MemoryRegions → MemoryRegions :=
  collectRegions space.regionRecurse

/-- The list of a target. `info` is what is in the uninitialized one. -/
def memoryRegionList (space : AddressSpace) (info : SubmapInfo) : MemoryRegions :=
  memoryRegionLoop space (space.regions.length + 1) 0 0 info []

def getRegionInfoForAddress (m : MemoryRegions) (address : UInt64) : Option MemoryRegionInfo :=
  match candidate m address with
  | none => none
  | some it =>
    if address ≥ it.2.vmaddr && address ≤ it.2.vmaddr + it.2.vmsize then some it.2 else none

def Region.entry (r : Region) : UInt64 × MemoryRegionInfo :=
  (r.base, regionInfo r.base r.size r.info)

/-- The entry behind the regions. -/
def lastEntry (info : SubmapInfo) (regions : List Region) : UInt64 × MemoryRegionInfo :=
  match regions.getLast? with
  | none => (0, regionInfo 0 0 info)
  | some r => (r.base + r.size, regionInfo (r.base + r.size) r.size r.info)

section Loop

variable {space : AddressSpace} (info : SubmapInfo)

theorem base_lt_stop {r : Region} (hr : r ∈ space.regions) : r.base.toNat < r.stop :=
  Nat.lt_add_of_pos_right (space.nonempty r hr)

/-- Behind some of the regions is the end of the last of them, past which the others are. -/
theorem lastEntry_bounds {done rest : List Region} (hsplit : space.regions = done ++ rest) :
    (∀ r ∈ done, r.stop ≤ (lastEntry info done).1.toNat)
      ∧ ∀ r ∈ rest, (lastEntry info done).1.toNat ≤ r.base.toNat := by
  have hasc := space.ascending
  rw [hsplit] at hasc
  rcases List.eq_nil_or_concat' done with rfl | ⟨init, last, rfl⟩
  · exact ⟨by simp, fun r _ => Nat.zero_le _⟩
  have hlast : last ∈ space.regions := by
    rw [hsplit]
    simp
  have hstop : (lastEntry info (init ++ [last])).1.toNat = last.stop := by
    rw [lastEntry, List.getLast?_concat]
    exact AddressSpace.stop_base_add_size hlast
  obtain ⟨hdone, -, hcross⟩ := List.pairwise_append.1 hasc
  rw [hstop]
  refine ⟨fun r hr => ?_, fun r hr => hcross last (by simp) r hr⟩
  rcases List.mem_append.1 hr with hr | hr
  · have hle := (List.pairwise_append.1 hdone).2.2 r hr last List.mem_cons_self
    exact hle.trans (base_lt_stop hlast).le
  · rw [List.mem_singleton.1 hr]

/-- The loop when it has seen some of the regions: each call reports the next of the others. -/
theorem memoryRegionLoop_eq :
    ∀ (rest done : List Region) (n : ℕ), space.regions = done ++ rest → rest.length < n →
      memoryRegionLoop space n (lastEntry info done).1 (lastEntry info done).2.vmsize
          ((done.getLast?.map (·.info)).getD info) (done.map Region.entry)
        = space.regions.map Region.entry ++ [lastEntry info space.regions]
  | [], done, n + 1, hsplit, _ => by
    obtain ⟨hdone, -⟩ := lastEntry_bounds info hsplit
    rw [List.append_nil] at hsplit
    have hnone : space.regionRecurse (lastEntry info done).1 = none := by
      rw [AddressSpace.regionRecurse, hsplit, List.find?_eq_none]
      intro r hr
      simpa using hdone r hr
    have hlast : lastEntry info done = ((lastEntry info done).1, regionInfo (lastEntry info done).1
        (lastEntry info done).2.vmsize ((done.getLast?.map (·.info)).getD info)) := by
      unfold lastEntry
      rcases done.getLast? with _ | r <;> rfl
    have hkeys : ∀ i ∈ done.map Region.entry, i.1 < (lastEntry info done).1 := by
      intro i hi
      obtain ⟨r, hr, rfl⟩ := List.mem_map.1 hi
      have hlt := base_lt_stop (hsplit ▸ hr)
      exact UInt64.lt_iff_toNat_lt.2 (hlt.trans_le (hdone r hr))
    rw [memoryRegionLoop, collectRegions, hnone]
    simp only []
    rw [insertNew_append_end hkeys, ← hlast, hsplit]
  | r :: rest, done, n + 1, hsplit, hn => by
    obtain ⟨hdone, hrest⟩ := lastEntry_bounds info hsplit
    have hr : r ∈ space.regions := by
      rw [hsplit]
      simp
    have hsome : space.regionRecurse (lastEntry info done).1 = some r := by
      rw [AddressSpace.regionRecurse, hsplit, List.find?_append,
        List.find?_eq_none.2 fun r' hr' => by simpa using hdone r' hr', Option.none_or,
        List.find?_cons_of_pos]
      have hle := hrest r List.mem_cons_self
      simpa using hle.trans_lt (base_lt_stop hr)
    have hkeys : ∀ i ∈ done.map Region.entry, i.1 < r.base := by
      intro i hi
      obtain ⟨r', hr', rfl⟩ := List.mem_map.1 hi
      have hr'' : r' ∈ space.regions := by
        rw [hsplit]
        exact List.mem_append_left _ hr'
      have hle := hrest r List.mem_cons_self
      refine UInt64.lt_iff_toNat_lt.2 ?_
      calc r'.base.toNat < r'.stop := base_lt_stop hr''
        _ ≤ (r.base).toNat := (hdone r' hr').trans hle
    have ih := memoryRegionLoop_eq rest (done ++ [r]) n (by simpa using hsplit) (by simpa using hn)
    have hlast : lastEntry info (done ++ [r])
        = (r.base + r.size, regionInfo (r.base + r.size) r.size r.info) := by
      rw [lastEntry, List.getLast?_concat]
    rw [hlast, List.getLast?_concat, List.map_append] at ih
    rw [memoryRegionLoop, collectRegions, hsome]
    simp only []
    rw [insertNew_append_end hkeys]
    exact ih

end Loop

theorem memoryRegionList_eq (space : AddressSpace) (info : SubmapInfo) :
    memoryRegionList space info
      = space.regions.map Region.entry ++ [lastEntry info space.regions] :=
  memoryRegionLoop_eq info space.regions [] (space.regions.length + 1) rfl (Nat.lt_succ_self _)

/-- What is found for an address starts at or before it, and ends at or after it at the end of a
page. -/
theorem getRegionInfoForAddress_bounds {space : AddressSpace} {info : SubmapInfo} {a : UInt64}
    {ri : MemoryRegionInfo}
    (h : getRegionInfoForAddress (memoryRegionList space info) a = some ri) :
    ri.vmaddr ≤ a ∧ a ≤ ri.vmaddr + ri.vmsize ∧ 4096 ∣ (ri.vmaddr + ri.vmsize).toNat := by
  rw [getRegionInfoForAddress] at h
  split at h
  · simp at h
  rename_i it hit
  split_ifs at h with hin
  simp only [Option.some.injEq] at h
  subst h
  simp only [Bool.and_eq_true, decide_eq_true_eq] at hin
  refine ⟨hin.1, hin.2, ?_⟩
  have hdvd : 4096 ∣ it.2.vmaddr.toNat ∧ 4096 ∣ it.2.vmsize.toNat := by
    have hmem := mem_of_candidate hit
    rw [memoryRegionList_eq] at hmem
    rcases List.mem_append.1 hmem with hmem | hmem
    · obtain ⟨r, hr, rfl⟩ := List.mem_map.1 hmem
      exact space.aligned r hr
    · rw [List.mem_singleton.1 hmem]
      unfold lastEntry
      split
      · exact ⟨dvd_zero _, dvd_zero _⟩
      · rename_i r hlast
        have hr := List.mem_of_getLast? hlast
        obtain ⟨h1, h2⟩ := space.aligned r hr
        refine ⟨?_, h2⟩
        rw [regionInfo, AddressSpace.stop_base_add_size hr]
        exact dvd_add h1 h2
  rw [UInt64.toNat_add]
  exact (Nat.dvd_mod_iff (by decide)).2 (dvd_add hdvd.1 hdvd.2)

end MacMiniDump
