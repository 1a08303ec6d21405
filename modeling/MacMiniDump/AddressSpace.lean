import MacMiniDump.Lib.Bytes

/-!
# The address space of the target

The regions the kernel has mapped and the bytes in them, as far as the library asks the kernel about
them: `mach_vm_region_recurse` reports the first region that contains or follows an address, and
`vm_read_overwrite` reads all of a range or none of it.
-/

namespace MacMiniDump

def VM_PROT_READ : UInt32 := 1
def VM_PROT_EXECUTE : UInt32 := 4

/-- What the kernel says about a region, its place apart. -/
structure SubmapInfo where
  protection : UInt32
  userTag : UInt32
  deriving DecidableEq, Repr

structure Region where
  base : UInt64
  size : UInt64
  info : SubmapInfo
  deriving DecidableEq, Repr

namespace Region

/-- Where the region ends. -/
def stop (r : Region) : ℕ := r.base.toNat + r.size.toNat

def Contains (r : Region) (a : UInt64) : Prop := r.base ≤ a ∧ a.toNat < r.stop

instance (r : Region) (a : UInt64) : Decidable (r.Contains a) :=
  inferInstanceAs (Decidable (_ ∧ _))

def readable (r : Region) : Bool := r.info.protection &&& VM_PROT_READ != 0

def executable (r : Region) : Bool := r.info.protection &&& VM_PROT_EXECUTE != 0

end Region

/-- Regions are made of pages, and end before the last page there could be. -/
structure AddressSpace where
  regions : List Region
  byte : UInt64 → UInt8
  nonempty : ∀ r ∈ regions, 0 < r.size.toNat
  aligned : ∀ r ∈ regions, 4096 ∣ r.base.toNat ∧ 4096 ∣ r.size.toNat
  fits : ∀ r ∈ regions, r.stop < 2 ^ 64
  ascending : regions.Pairwise fun r r' => r.stop ≤ r'.base.toNat

namespace AddressSpace

def Readable (space : AddressSpace) (a : UInt64) : Prop :=
  ∃ r ∈ space.regions, r.Contains a ∧ r.readable = true

instance (space : AddressSpace) (a : UInt64) : Decidable (space.Readable a) :=
  inferInstanceAs (Decidable (∃ r ∈ space.regions, _))

/-- `mach_vm_region_recurse` -/
def regionRecurse (space : AddressSpace) (address : UInt64) : Option Region :=
  space.regions.find? fun r => address.toNat < r.stop

/-- The bytes from the address on. -/
def bytes (space : AddressSpace) (address : UInt64) (n : ℕ) : List UInt8 :=
  (List.range n).map fun i => space.byte (address + UInt64.ofNat i)

/-- `vm_read_overwrite` -/
def readMemory (space : AddressSpace) (address size : UInt64) : Option (List UInt8) :=
  if address.toNat + size.toNat ≤ 2 ^ 64
      ∧ ∀ i < size.toNat, space.Readable (address + UInt64.ofNat i) then
    some (space.bytes address size.toNat)
  else none

variable {space : AddressSpace} {a : UInt64} {r : Region}

theorem stop_base_add_size (hr : r ∈ space.regions) : (r.base + r.size).toNat = r.stop := by
  rw [UInt64.toNat_add]
  exact Nat.mod_eq_of_lt (space.fits r hr)

/-- The region that contains an address is the one reported for it. -/
theorem regionRecurse_of_contains (hr : r ∈ space.regions) (ha : r.Contains a) :
    space.regionRecurse a = some r := by
  obtain ⟨pre, post, hsplit⟩ := List.append_of_mem hr
  have hasc := space.ascending
  rw [hsplit] at hasc
  rw [regionRecurse, hsplit, List.find?_append, List.find?_eq_none.2 fun r' hr' => ?_,
    Option.none_or, List.find?_cons_of_pos (by simpa using ha.2)]
  have hle := (List.pairwise_append.1 hasc).2.2 r' hr' r List.mem_cons_self
  have hbase := UInt64.le_iff_toNat_le.1 ha.1
  simp only [decide_eq_true_eq]
  omega

@[simp] theorem length_bytes (a : UInt64) (n : ℕ) : (space.bytes a n).length = n := by
  simp [bytes]

theorem getElem?_bytes {a : UInt64} {n i : ℕ} (h : i < n) :
    (space.bytes a n)[i]? = some (space.byte (a + UInt64.ofNat i)) := by
  simp [bytes, h]

theorem bytes_add (a : UInt64) (m n : ℕ) :
    space.bytes a (m + n) = space.bytes a m ++ space.bytes (a + UInt64.ofNat m) n := by
  rw [bytes, List.range_add, List.map_append, List.map_map, bytes, bytes]
  congr 1
  refine List.map_congr_left fun i _ => ?_
  rw [Function.comp_apply, UInt64.ofNat_add, UInt64.add_assoc]

theorem take_bytes {m n : ℕ} (h : m ≤ n) : (space.bytes a n).take m = space.bytes a m := by
  obtain ⟨k, rfl⟩ := Nat.exists_eq_add_of_le h
  rw [bytes_add, List.take_left' (length_bytes a m)]

theorem readMemory_eq_some_iff {size : UInt64} {d : List UInt8} :
    space.readMemory a size = some d ↔ a.toNat + size.toNat ≤ 2 ^ 64
      ∧ (∀ i < size.toNat, space.Readable (a + UInt64.ofNat i)) ∧ d = space.bytes a size.toNat := by
  unfold readMemory
  split_ifs with hread
  · exact ⟨fun h => ⟨hread.1, hread.2, (Option.some.inj h).symm⟩, fun h => by rw [h.2.2]⟩
  · exact iff_of_false (by simp) fun h => hread ⟨h.1, h.2.1⟩

theorem readMemory_of_readable {size : UInt64} (hfit : a.toNat + size.toNat ≤ 2 ^ 64)
    (h : ∀ i < size.toNat, space.Readable (a + UInt64.ofNat i)) :
    space.readMemory a size = some (space.bytes a size.toNat) := if_pos ⟨hfit, h⟩

theorem eq_bytes_of_readMemory {size : UInt64} {d : List UInt8}
    (h : space.readMemory a size = some d) : d = space.bytes a size.toNat :=
  (readMemory_eq_some_iff.1 h).2.2

theorem length_readMemory {size : UInt64} {d : List UInt8}
    (h : space.readMemory a size = some d) : d.length = size.toNat := by
  rw [eq_bytes_of_readMemory h, length_bytes]

theorem readable_of_readMemory {size : UInt64} (h : (space.readMemory a size).isSome = true)
    (hsize : 0 < size.toNat) : space.Readable a := by
  obtain ⟨d, hd⟩ := Option.isSome_iff_exists.1 h
  simpa using (readMemory_eq_some_iff.1 hd).2.1 0 hsize

end AddressSpace

end MacMiniDump
