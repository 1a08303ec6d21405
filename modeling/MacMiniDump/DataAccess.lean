import MacMiniDump.Lib.Bytes

/-!
# Data providers and output streams

What a payload is read from (`IDataProvider`) and what the dump is written to
(`IRandomAccessBinaryOStream`). A pointer is the memory it points to, `none` for `nullptr`.
-/

namespace MacMiniDump

/-- What ends the program in the middle of a call. -/
inductive Fault
  | assertion
  | nullDereference
  | divisionByZero
  | emptyBack
  | uninitialized
  | overread
  | overwrite
  deriving DecidableEq, Repr

/-- `IDataProvider`, together with the `IDataPtr` it hands out. -/
structure DataProvider where
  /-- `GetSize ()` -/
  size : UInt64
  /-- `GetDataPtr ()->Get (offset, size)` -/
  get : UInt64 → UInt64 → Option (List UInt8)
  /-- `GetDataPtr ()->Get ()` -/
  getAll : Option (List UInt8)

/-- A `DataProvider` over a `CopiedDataPtr`. -/
def copiedDataProvider (data : List UInt8) : DataProvider where
  size := UInt64.ofNat data.length
  get offset _ := some (data.drop offset.toNat)
  getAll := some data

/-- A `DataProvider` over a `ProcessMemoryReaderDataPtr`, `read` being `ReadProcessMemory`. -/
def processMemoryDataProvider (read : UInt64 → UInt64 → Option (List UInt8))
    (startAddress maxSize : UInt64) : DataProvider where
  size := maxSize
  get offset size := if maxSize < offset + size then none else read (startAddress + offset) size
  getAll := none

/-- `IRandomAccessBinaryOStream`: each call with its result and the stream after it. A write is
given the bytes at its pointer, as many as its size says. -/
class OStream (σ : Type) where
  write : Option (List UInt8) → UInt64 → σ → Bool × σ
  getPosition : σ → UInt64
  setPosition : UInt64 → σ → σ
  setSize : UInt64 → σ → Bool × σ

/-- A file whose writes store every byte. -/
structure FileStream where
  content : List UInt8
  pos : ℕ
  deriving DecidableEq, Repr

namespace FileStream

/-- A write with no data fails, unless it is empty. -/
def write : Option (List UInt8) → UInt64 → FileStream → Bool × FileStream
  | some d, _, f => (true, ⟨writeAt f.content f.pos d, f.pos + d.length⟩)
  | none, size, f => (size = 0, f)

/-- `ftruncate`: the length changes, the position does not. -/
def setSize (size : UInt64) (f : FileStream) : Bool × FileStream :=
  (true, { f with
    content := f.content.take size.toNat
      ++ List.replicate (size.toNat - f.content.length) 0 })

instance : OStream FileStream where
  write := write
  getPosition f := UInt64.ofNat f.pos
  setPosition p f := { f with pos := p.toNat }
  setSize := setSize

@[simp] theorem write_some (d : List UInt8) (size : UInt64) (f : FileStream) :
    OStream.write (some d) size f = (true, ⟨writeAt f.content f.pos d, f.pos + d.length⟩) := rfl

/-- The empty file at its start. -/
def empty : FileStream := ⟨[], 0⟩

end FileStream

end MacMiniDump
