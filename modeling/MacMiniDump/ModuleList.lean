import MacMiniDump.Lib.OrderedMap
import MacMiniDump.Reader

/-!
# `ModuleList`

The images loaded into the target, in the order of their load addresses. An image is found by an
address in its `__TEXT` segment, and marking it as executing changes nothing else
(`markAsExecuting_infos`).
-/

namespace MacMiniDump

/-- A name in a field of 16 bytes. -/
def nameField (name : List UInt8) : Vector UInt8 16 :=
  Vector.ofFn fun i => (strncpy 16 name).getD i 0

structure SegmentInfo where
  segmentName : Vector UInt8 16
  address : UInt64
  size : UInt64
  deriving DecidableEq, Repr

/-- The path is copied from a C string, the segments are counted by a 32-bit `ncmds`, and the bytes
read start with a whole header. -/
structure ModuleInfo where
  loadAddress : UInt64
  uuid : Vector UInt8 16
  filePath : List UInt8
  segments : List SegmentInfo
  executing : Bool
  headerAndLoadCommandBytes : List UInt8
  noNul : 0 ∉ filePath
  segmentCount : segments.length < 2 ^ 32
  hasHeader : 32 ≤ headerAndLoadCommandBytes.length

namespace ModuleInfo

def getTextSegmentOfModule (moduleInfo : ModuleInfo) : Option SegmentInfo :=
  moduleInfo.segments.find? fun seg => cstr seg.segmentName.toList = ascii "__TEXT"

def isCodeInModule (addr : UInt64) (mi : ModuleInfo) : Bool :=
  match mi.getTextSegmentOfModule with
  | none => false
  | some si => addr ≥ si.address && addr ≤ si.address + si.size

def isMainExecutable (moduleInfo : ModuleInfo) : Bool :=
  (MachHeader64.decode (moduleInfo.headerAndLoadCommandBytes.take 32)).filetype = MH_EXECUTE

end ModuleInfo

/-- The map is keyed by the load addresses. One image comes from `dyld` itself, the others are
counted by the 32-bit `infoArrayCount`. -/
structure ModuleList where
  moduleInfos : List (UInt64 × ModuleInfo)
  ordered : Ordered moduleInfos
  keyed : ∀ i ∈ moduleInfos, i.1 = i.2.loadAddress
  count : moduleInfos.length ≤ 2 ^ 32

namespace ModuleList

def isValid (modules : ModuleList) : Bool := !modules.moduleInfos.isEmpty

def getSize (modules : ModuleList) : ℕ := modules.moduleInfos.length

/-- What iterating over the list visits. -/
def infos (modules : ModuleList) : List ModuleInfo := modules.moduleInfos.map Prod.snd

def getModuleInfoForAddress (modules : ModuleList) (address : UInt64) : Option ModuleInfo :=
  match candidate modules.moduleInfos address with
  | none => none
  | some it => if it.2.isCodeInModule address then some it.2 else none

/-- Set the flag of the entry at the key. -/
def setExecuting (key : UInt64) (i : UInt64 × ModuleInfo) : UInt64 × ModuleInfo :=
  if i.1 = key then (i.1, { i.2 with executing := true }) else i

@[simp] theorem setExecuting_fst (key : UInt64) (i : UInt64 × ModuleInfo) :
    (setExecuting key i).1 = i.1 := by
  unfold setExecuting
  split_ifs <;> rfl

@[simp] theorem setExecuting_loadAddress (key : UInt64) (i : UInt64 × ModuleInfo) :
    (setExecuting key i).2.loadAddress = i.2.loadAddress := by
  unfold setExecuting
  split_ifs <;> rfl

def markAsExecuting (modules : ModuleList) (codeAddress : UInt64) : Bool × ModuleList :=
  match modules.getModuleInfoForAddress codeAddress with
  | none => (false, modules)
  | some mi =>
    (true,
      { moduleInfos := modules.moduleInfos.map (setExecuting mi.loadAddress)
        ordered := by
          rw [Ordered, List.pairwise_map]
          simpa [Ordered] using modules.ordered
        keyed := by
          intro i hi
          obtain ⟨j, hj, rfl⟩ := List.mem_map.1 hi
          simpa using modules.keyed j hj
        count := by simpa using modules.count })

theorem infos_pairwise (modules : ModuleList) :
    modules.infos.Pairwise fun m m' => m.loadAddress < m'.loadAddress := by
  rw [infos, List.pairwise_map]
  refine modules.ordered.imp_of_mem fun hi hj hij => ?_
  rwa [← modules.keyed _ hi, ← modules.keyed _ hj]

/-- Marking touches no more than the flags. -/
theorem markAsExecuting_infos (modules : ModuleList) (codeAddress : UInt64) {β : Type*}
    (f : ModuleInfo → β) (hf : ∀ m : ModuleInfo, f { m with executing := true } = f m) :
    (modules.markAsExecuting codeAddress).2.infos.map f = modules.infos.map f := by
  unfold markAsExecuting
  split
  · rfl
  · rename_i mi _
    simp only [infos, List.map_map]
    refine List.map_congr_left fun i _ => ?_
    simp only [Function.comp, setExecuting]
    split_ifs
    · exact hf i.2
    · rfl

end ModuleList

end MacMiniDump
