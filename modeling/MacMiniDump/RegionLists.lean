import Mathlib.Data.List.Find
import MacMiniDump.Lib.IntervalLookup
import MacMiniDump.MemoryRegions

/-!
# The region list

Two things keep the list from being the map of the target. The loop of the constructor looks at the
result of a call only after it has inserted what the call left in its variables, so there is always
an entry too many, and `IsValid` has its answer the wrong way round (`memoryRegionList_never`). And
a lookup takes the address behind a region to be in it, unless another region starts there
(`regionLookup_iff`).
-/

namespace MacMiniDump

namespace MemoryRegions

/-- `IsValid ()` -/
def isValid (m : MemoryRegions) : Bool := m.isEmpty

/-- `GetSize ()` -/
def getSize (m : MemoryRegions) : ℕ := m.length

end MemoryRegions

/-- The regions that successive calls report, from an address on. -/
def Reports (recurse : UInt64 → Option Region) : UInt64 → List Region → Prop
  | address, [] => recurse address = none
  | address, r :: rest => recurse address = some r ∧ Reports recurse (r.base + r.size) rest

/-- One entry for each region, and no other; as many as the list says, and valid when there are
any. -/
structure ListsRegions (regions : List Region) (m : MemoryRegions) : Prop where
  entries : m.map (fun i => (i.1, i.2.vmaddr, i.2.vmsize, i.2.prot))
    = regions.map fun r => (r.base, r.base, r.size, r.info.protection.toUInt8)
  size : m.getSize = regions.length
  valid : m.isValid = true ↔ regions ≠ []

section Collect

variable {recurse : UInt64 → Option Region}

theorem Region.toNat_base_add_size {r : Region} (hfit : r.stop < 2 ^ 64) :
    (r.base + r.size).toNat = r.stop := by
  rw [UInt64.toNat_add]
  exact Nat.mod_eq_of_lt hfit

/-- The loop appends the regions that are reported, and one entry more. -/
theorem collectRegions_append :
    ∀ (rest : List Region) (n : ℕ) (address size : UInt64) (info : SubmapInfo) (m : MemoryRegions),
      Reports recurse address rest → rest.length < n →
      (∀ r ∈ rest, 0 < r.size.toNat ∧ r.stop < 2 ^ 64) →
      (rest.Pairwise fun r r' => r.stop ≤ r'.base.toNat) →
      (∀ i ∈ m, i.1 < address ∧ ∀ r ∈ rest, i.1 < r.base) →
      ∃ e, collectRegions recurse n address size info m = m ++ rest.map Region.entry ++ [e]
  | [], n + 1, address, size, info, m, hr, _, _, _, hm => by
    have hnone : recurse address = none := hr
    rw [collectRegions, hnone]
    simp only
    rw [insertNew_append_end fun i hi => (hm i hi).1, List.map_nil, List.append_nil]
    exact ⟨_, rfl⟩
  | r :: rest, n + 1, address, size, info, m, ⟨hsome, hr⟩, hn, hfits, hasc, hm => by
    obtain ⟨hfirst, hasc'⟩ := List.pairwise_cons.1 hasc
    obtain ⟨hsize, hfit⟩ := hfits r List.mem_cons_self
    have hstop := Region.toNat_base_add_size hfit
    have hend : r.base < r.base + r.size := by
      rw [UInt64.lt_iff_toNat_lt, hstop]
      exact Nat.lt_add_of_pos_right hsize
    obtain ⟨e, he⟩ := collectRegions_append rest n (r.base + r.size) r.size r.info
      (m ++ [r.entry]) hr (by simpa using hn) (fun r' hr' => hfits r' (List.mem_cons_of_mem _ hr'))
      hasc' (fun i hi => by
        rcases List.mem_append.1 hi with hi | hi
        · have hbase := (hm i hi).2 r List.mem_cons_self
          exact ⟨hbase.trans hend, fun r' hr' => (hm i hi).2 r' (List.mem_cons_of_mem _ hr')⟩
        · rw [List.mem_singleton.1 hi]
          refine ⟨hend, fun r' hr' => hend.trans_le (UInt64.le_iff_toNat_le.2 ?_)⟩
          rw [hstop]
          exact hfirst r' hr')
    refine ⟨e, ?_⟩
    rw [collectRegions, hsome]
    simp only
    rw [insertNew_append_end fun i hi => (hm i hi).2 r List.mem_cons_self]
    calc collectRegions recurse n (r.base + r.size) r.size r.info (m ++ [r.entry])
        = m ++ [r.entry] ++ rest.map Region.entry ++ [e] := he
      _ = m ++ (r :: rest).map Region.entry ++ [e] := by
          rw [List.map_cons, List.append_assoc m [r.entry], List.singleton_append]

/-- When the last call fails where the first one succeeded, the last region is not at the end. -/
theorem stop_lt_of_reports :
    ∀ (rest : List Region) {address : UInt64}, Reports recurse address rest →
      (∀ r ∈ rest, 0 < r.size.toNat ∧ r.stop ≤ 2 ^ 64) →
      (rest.Pairwise fun r r' => r.stop ≤ r'.base.toNat) → recurse 0 ≠ none →
      ∀ r ∈ rest, r.stop < 2 ^ 64
  | r :: rest, address, ⟨_, hr⟩, hfits, hasc, hzero, r', hr' => by
    obtain ⟨hfirst, hasc'⟩ := List.pairwise_cons.1 hasc
    rcases List.mem_cons.1 hr' with rfl | hr'
    · by_contra hge
      have hstop : r'.stop = 2 ^ 64 :=
        Nat.le_antisymm (hfits r' List.mem_cons_self).2 (not_lt.1 hge)
      rcases rest with _ | ⟨next, rest⟩
      · have hend : r'.base + r'.size = 0 := by
          rw [← UInt64.toNat_inj, UInt64.toNat_add]
          show r'.stop % 2 ^ 64 = 0
          rw [hstop, Nat.mod_self]
        rw [hend] at hr
        exact hzero hr
      · have hle := hfirst next List.mem_cons_self
        have hlt := next.base.toNat_lt
        omega
    · exact stop_lt_of_reports rest hr (fun q hq => hfits q (List.mem_cons_of_mem _ hq)) hasc' hzero
        r' hr'

/-- Whatever is reported, the list does not come out right: there is an entry too many, and the list
is not valid. -/
theorem memoryRegionList_never {regions : List Region} (hr : Reports recurse 0 regions)
    (hfits : ∀ r ∈ regions, 0 < r.size.toNat ∧ r.stop ≤ 2 ^ 64)
    (hasc : regions.Pairwise fun r r' => r.stop ≤ r'.base.toNat) (info : SubmapInfo) {n : ℕ}
    (hn : regions.length < n) :
    ¬ ListsRegions regions (collectRegions recurse n 0 0 info [])
      ∧ (collectRegions recurse n 0 0 info []).getSize = regions.length + 1
      ∧ (collectRegions recurse n 0 0 info []).isValid = false := by
  have hstop : ∀ r ∈ regions, r.stop < 2 ^ 64 := by
    rcases regions with _ | ⟨r, rest⟩
    · simp
    · exact stop_lt_of_reports (r :: rest) hr hfits hasc (by rw [hr.1]; simp)
  obtain ⟨e, he⟩ := collectRegions_append regions n 0 0 info [] hr hn
    (fun r hmem => ⟨(hfits r hmem).1, hstop r hmem⟩) hasc (by simp)
  have hsize : (collectRegions recurse n 0 0 info []).getSize = regions.length + 1 := by
    rw [MemoryRegions.getSize, he]
    simp
  refine ⟨fun hlists => ?_, hsize, ?_⟩
  · have hlen := hlists.size
    omega
  · rw [MemoryRegions.isValid, he]
    simp

end Collect

/-- A kernel that has three regions, of which the last two touch. -/
def threeRegions (address : UInt64) : Option Region :=
  if address < 0x2000 then some ⟨0x1000, 0x1000, ⟨1, 0⟩⟩
  else if address < 0x5000 then some ⟨0x3000, 0x2000, ⟨3, 30⟩⟩
  else if address < 0x8000 then some ⟨0x5000, 0x3000, ⟨5, 0⟩⟩
  else none

theorem reports_threeRegions : Reports threeRegions 0
    [⟨0x1000, 0x1000, ⟨1, 0⟩⟩, ⟨0x3000, 0x2000, ⟨3, 30⟩⟩, ⟨0x5000, 0x3000, ⟨5, 0⟩⟩] :=
  ⟨rfl, rfl, rfl, rfl⟩

theorem memoryRegionList_never_threeRegions :
    ¬ ListsRegions [⟨0x1000, 0x1000, ⟨1, 0⟩⟩, ⟨0x3000, 0x2000, ⟨3, 30⟩⟩, ⟨0x5000, 0x3000, ⟨5, 0⟩⟩]
        (collectRegions threeRegions 4 0 0 ⟨0, 0⟩ [])
      ∧ (collectRegions threeRegions 4 0 0 ⟨0, 0⟩ []).getSize = 4
      ∧ (collectRegions threeRegions 4 0 0 ⟨0, 0⟩ []).isValid = false :=
  memoryRegionList_never reports_threeRegions (by decide) (by decide) ⟨0, 0⟩ (by decide)

/-- A kernel that has a single page. -/
def onlyPage (address : UInt64) : Option Region :=
  if address < 0x2000 then some ⟨0x1000, 0x1000, ⟨1, 0⟩⟩ else none

/-- The call that fails adds another entry for the page, behind it. -/
theorem not_listsRegions_onlyPage :
    Reports onlyPage 0 [⟨0x1000, 0x1000, ⟨1, 0⟩⟩]
      ∧ collectRegions onlyPage 2 0 0 ⟨0, 0⟩ []
        = [(0x1000, ⟨0x1000, 0x1000, 1, .unknown⟩), (0x2000, ⟨0x2000, 0x1000, 1, .unknown⟩)]
      ∧ ¬ ListsRegions [⟨0x1000, 0x1000, ⟨1, 0⟩⟩] (collectRegions onlyPage 2 0 0 ⟨0, 0⟩ []) := by
  refine ⟨⟨rfl, rfl⟩, rfl, fun h => ?_⟩
  exact absurd h.size (by decide)

/-! ## Looking up -/

/-- Is the address in the region? -/
def MemoryRegionInfo.Contains (ri : MemoryRegionInfo) (a : UInt64) : Prop :=
  ri.vmaddr ≤ a ∧ a.toNat < ri.vmaddr.toNat + ri.vmsize.toNat

instance (ri : MemoryRegionInfo) (a : UInt64) : Decidable (ri.Contains a) :=
  inferInstanceAs (Decidable (_ ∧ _))

/-- Disjoint regions, keyed by their base addresses. -/
structure RegionMap where
  regionInfos : MemoryRegions
  ordered : Ordered regionInfos
  keyed : ∀ i ∈ regionInfos, i.1 = i.2.vmaddr
  nonempty : ∀ i ∈ regionInfos, 0 < i.2.vmsize.toNat
  fits : ∀ i ∈ regionInfos, i.2.vmaddr.toNat + i.2.vmsize.toNat < 2 ^ 64
  disjoint : regionInfos.Pairwise fun i j => ∀ a, ¬ (i.2.Contains a ∧ j.2.Contains a)

namespace RegionMap

variable (m : RegionMap)

def infos : List MemoryRegionInfo := m.regionInfos.map Prod.snd

def hasAddress (address : UInt64) : Bool :=
  (getRegionInfoForAddress m.regionInfos address).isSome

/-- The first region that contains the address. -/
def linearScan (address : UInt64) : Option MemoryRegionInfo := m.infos.find? (·.Contains address)

/-- The end of the region of an entry. -/
def stop (i : UInt64 × MemoryRegionInfo) : UInt64 := i.2.vmaddr + i.2.vmsize

variable {m}

theorem contains_iff {i : UInt64 × MemoryRegionInfo} (hi : i ∈ m.regionInfos) {a : UInt64} :
    i.2.Contains a ↔ i.1 ≤ a ∧ a < stop i := by
  rw [MemoryRegionInfo.Contains, m.keyed i hi, stop, UInt64.lt_iff_toNat_lt, UInt64.toNat_add,
    Nat.mod_eq_of_lt (m.fits i hi)]

theorem separate : Separate m.regionInfos id stop where
  ordered := m.ordered
  mono := strictMono_id
  lt i hi := by
    have hfit := m.fits i hi
    have hsize := m.nonempty i hi
    rw [id, m.keyed i hi, stop, UInt64.lt_iff_toNat_lt, UInt64.toNat_add, Nat.mod_eq_of_lt hfit]
    omega
  disjoint := m.disjoint.imp_of_mem fun hi hj hij a hin =>
    hij a ⟨(contains_iff hi).2 hin.1, (contains_iff hj).2 hin.2⟩

theorem getRegionInfoForAddress_eq (a : UInt64) :
    getRegionInfoForAddress m.regionInfos a = (lookup m.regionInfos id stop a).map Prod.snd := by
  rw [getRegionInfoForAddress, lookup]
  rcases hc : candidate m.regionInfos a with _ | i
  · rfl
  · have hkey := m.keyed i (mem_of_candidate hc)
    have hstop : stop i = i.1 + i.2.vmsize := by rw [stop, hkey]
    by_cases hin : i.1 ≤ a ∧ a ≤ stop i
    · have hcond : (a ≥ i.2.vmaddr && a ≤ i.2.vmaddr + i.2.vmsize) = true := by
        rw [← hkey]
        simpa [hstop] using hin
      rw [Option.filter_some_pos (by simpa using hin), Option.map_some]
      exact if_pos hcond
    · have hcond : ¬ (a ≥ i.2.vmaddr && a ≤ i.2.vmaddr + i.2.vmsize) = true := by
        rw [← hkey]
        simpa [hstop] using hin
      rw [Option.filter_some_neg (by simpa using hin), Option.map_none]
      exact if_neg hcond

theorem linearScan_eq (a : UInt64) :
    m.linearScan a = (scan m.regionInfos id stop a).map Prod.snd := by
  have hsame :
      m.regionInfos.find? (fun i => decide (i.2.Contains a)) = scan m.regionInfos id stop a := by
    refine List.find?_congr fun i hi => ?_
    exact decide_eq_decide.2 (contains_iff hi)
  rw [linearScan, infos, List.find?_map, ← hsame]
  rfl

end RegionMap

/-- A lookup is a linear scan, but for the address behind a region where no other region starts. -/
theorem regionLookup_iff (m : RegionMap) (a : UInt64) :
    (getRegionInfoForAddress m.regionInfos a = m.linearScan a
        ∧ m.hasAddress a = (m.linearScan a).isSome)
      ↔ ¬ ∃ ri ∈ m.infos, ri.vmaddr + ri.vmsize = a ∧ ∀ ri' ∈ m.infos, ri'.vmaddr ≠ a := by
  have hends : (∃ ri ∈ m.infos, ri.vmaddr + ri.vmsize = a ∧ ∀ ri' ∈ m.infos, ri'.vmaddr ≠ a)
      ↔ ∃ i ∈ m.regionInfos, RegionMap.stop i = id a ∧ ∀ j ∈ m.regionInfos, j.1 ≠ a := by
    have hstarts : (∀ ri' ∈ m.infos, ri'.vmaddr ≠ a) ↔ ∀ j ∈ m.regionInfos, j.1 ≠ a := by
      rw [RegionMap.infos, List.forall_mem_map]
      exact forall₂_congr fun j hj => by rw [m.keyed j hj]
    rw [hstarts]
    constructor
    · rintro ⟨ri, hri, hend, hnone⟩
      obtain ⟨i, hi, rfl⟩ := List.mem_map.1 hri
      exact ⟨i, hi, hend, hnone⟩
    · rintro ⟨i, hi, hend, hnone⟩
      exact ⟨i.2, List.mem_map_of_mem hi, hend, hnone⟩
  rw [hends, ← map_lookup_eq_iff RegionMap.separate m.keyed, ← RegionMap.getRegionInfoForAddress_eq,
    ← RegionMap.linearScan_eq]
  exact and_iff_left_of_imp fun heq => congrArg Option.isSome heq

/-- Two pages with a hole between them. -/
def twoPages : RegionMap where
  regionInfos := [(0x1000, ⟨0x1000, 0x1000, 1, .unknown⟩), (0x3000, ⟨0x3000, 0x1000, 5, .unknown⟩)]
  ordered := List.pairwise_pair.2 (by decide)
  keyed := by simp
  nonempty := by simp
  fits := by simp
  disjoint := by
    refine List.pairwise_pair.2 fun a ⟨h, h'⟩ => ?_
    have hlt : a.toNat < 0x2000 := h.2
    have hle : 0x3000 ≤ a.toNat := h'.1
    omega

/-- The address behind the first page is said to be in it. -/
theorem regionLookup_behind :
    getRegionInfoForAddress twoPages.regionInfos 0x2000 = some ⟨0x1000, 0x1000, 1, .unknown⟩
      ∧ twoPages.hasAddress 0x2000 = true ∧ twoPages.linearScan 0x2000 = none := by
  decide

end MacMiniDump
