import MacMiniDump.DataAccess
import MacMiniDump.ModuleList

/-!
# The small note payloads

The addressable bits, the thread ids as JSON, and the main binary with its slide, which is computed
from the load commands of the main executable as they were read from the target.
-/

namespace MacMiniDump

def addrableBitsOwner : List UInt8 := ascii "addrable bits"

def allImageInfosOwner : List UInt8 := ascii "all image infos"

def mainBinSpecOwner : List UInt8 := ascii "main bin spec"

def processMetadataOwner : List UInt8 := ascii "process metadata"

structure AddrableBitsInfo where
  version : UInt32
  nBits : UInt32
  unused : UInt64

def AddrableBitsInfo.bytes (info : AddrableBitsInfo) : List UInt8 :=
  le32 info.version ++ le32 info.nBits ++ le64 info.unused

/-- `std::to_string` -/
def decimal (n : UInt64) : List UInt8 :=
  (Nat.toDigits 10 n.toNat).map fun c => UInt8.ofNat c.toNat

def createProcessMetadataPayload (threadIds : List UInt64) : List UInt8 :=
  let ids := threadIds.map fun id => ascii "\x7b\"thread_id\":" ++ decimal id ++ ascii "\x7d"
  ascii "\x7b\"threads\":[" ++ (ids.intersperse (ascii ",")).flatten ++ ascii "]\x7d"

/-- Does the string at the memory start with these characters? It is read up to the first that
differs. -/
def startsWith : List UInt8 → List UInt8 → Except Fault Bool
  | [], _ => .ok true
  | _ :: _, [] => .error .overread
  | c :: cs, m :: ms => if c = m then startsWith cs ms else .ok false

/-- The loop of `GetPreferredTextAddress` over the commands left, from the position it is at. -/
def preferredTextAddress (raw : List UInt8) : ℕ → ℕ → Except Fault UInt64
  | 0, _ => .ok 0
  | n + 1, pos =>
    if raw.length < pos + 4 then .error .overread
    else
      let found :=
        if u32At raw pos = LC_SEGMENT_64 then
          startsWith (ascii "__TEXT" ++ [0]) (raw.drop (pos + 8))
        else .ok false
      match found with
      | .error e => .error e
      | .ok true => if raw.length < pos + 32 then .error .overread else .ok (u64At raw (pos + 24))
      | .ok false =>
        if raw.length < pos + 8 then .error .overread
        else preferredTextAddress raw n (pos + (u32At raw (pos + 4)).toNat)

/-- The unslid address of the `__TEXT` segment. -/
def getPreferredTextAddress (moduleInfo : ModuleInfo) : Except Fault UInt64 :=
  let raw := moduleInfo.headerAndLoadCommandBytes
  preferredTextAddress raw (MachHeader64.decode (raw.take 32)).ncmds.toNat 32

structure MainBinSpec where
  version : UInt32 := 2
  type : UInt32 := 0
  address : UInt64 := 0xFFFFFFFFFFFFFFFF
  slide : UInt64 := 0xFFFFFFFFFFFFFFFF
  uuid : Vector UInt8 16 := Vector.replicate 16 0
  log2_pagesize : UInt32 := 0
  platform : UInt32 := 0

def MainBinSpec.bytes (spec : MainBinSpec) : List UInt8 :=
  le32 spec.version ++ le32 spec.type ++ le64 spec.address ++ le64 spec.slide
    ++ spec.uuid.toList ++ le32 spec.log2_pagesize ++ le32 spec.platform

/-- The spec of the first main executable. A list without one fails the assertion, and without
assertions leaves the default. -/
def createMainBinSpecPayload (debug : Bool) (modules : ModuleList) : Except Fault MainBinSpec :=
  match modules.moduleInfos.find? (·.2.isMainExecutable) with
  | some (loadAddr, moduleInfo) =>
    (getPreferredTextAddress moduleInfo).map fun preferred =>
      { slide := loadAddr - preferred, uuid := moduleInfo.uuid }
  | none => if debug then .error .assertion else .ok {}

end MacMiniDump
