import MacMiniDump.AddressSpace

/-!
# Reading strings

`ReadProcessMemoryString` asks for the region of the address and, where less than a page of it is
left, for the one after it. What it reads is then readable to its end, and there it has either come
to its limit or to an address that is not (`endDistance_readable`, `not_readable_endDistance`). So
it finds a string exactly when there is one (`readProcessMemoryString_eq`).
-/

namespace MacMiniDump

def PageSize : UInt64 := 4096

/-- How far it is from the address to the end of its region, or of the one after it. -/
def getMemoryRegionEndDistance (space : AddressSpace) (address : UInt64) : Option UInt64 :=
  match space.regionRecurse address with
  | none => none
  | some region =>
    let result := region.base + region.size - address
    let regionSize :=
      if result < PageSize then
        match space.regionRecurse (region.base + region.size) with
        | none => region.size
        | some next =>
          if next.base = region.base + region.size ∧ next.readable = true then
            region.size + next.size
          else region.size
      else region.size
    some (region.base + regionSize - address)

/-- The result, and the string at the pointer after the call. -/
def readProcessMemoryString (space : AddressSpace) (address maxSize : UInt64)
    (string : List UInt8) : Bool × List UInt8 :=
  match getMemoryRegionEndDistance space address with
  | none => (false, string)
  | some distance =>
    let sizeToRead := if distance > maxSize then maxSize else distance
    match space.readMemory address sizeToRead with
    | none => (false, string)
    | some mem => if 0 ∈ mem then (true, cstr mem) else (false, string)

/-- A string of `n` bytes at the address, and all of it readable. -/
structure StringAt (space : AddressSpace) (address : UInt64) (n : ℕ) : Prop where
  readable : ∀ i ≤ n, space.Readable (address + UInt64.ofNat i)
  nonzero : ∀ i < n, space.byte (address + UInt64.ofNat i) ≠ 0
  zero : space.byte (address + UInt64.ofNat n) = 0

section Regions

variable {space : AddressSpace} {a : UInt64} {r q : Region}

theorem Region.Contains.add {i : ℕ} (hr : r ∈ space.regions) (ha : r.Contains a)
    (hi : a.toNat + i < r.stop) : r.Contains (a + UInt64.ofNat i) := by
  have hfit := space.fits r hr
  have hadd := toNat_add_ofNat (hi.trans hfit)
  refine ⟨?_, hadd ▸ hi⟩
  rw [UInt64.le_iff_toNat_le, hadd]
  exact (UInt64.le_iff_toNat_le.1 ha.1).trans (Nat.le_add_right _ _)

/-- A region that has the address behind another one starts there. -/
theorem base_eq_stop (hr : r ∈ space.regions) (hq : q ∈ space.regions)
    (hle : q.base.toNat ≤ r.stop) (hlt : r.stop < q.stop) : q.base.toNat = r.stop := by
  have hapart := List.Pairwise.forall_of_forall_of_flip
    (R := fun r q : Region => r = q ∨ r.stop ≤ q.base.toNat ∨ q.stop ≤ r.base.toNat)
    (fun _ _ => .inl rfl) (space.ascending.imp fun h => .inr (.inl h))
    (space.ascending.imp fun h => .inr (.inr h))
  have hbase : r.base.toNat ≤ r.stop := Nat.le_add_right _ _
  rcases hapart hr hq with rfl | hbehind | hbefore
  · omega
  · omega
  · omega

/-- Short of the end of its region, an address that can be read is followed by others. -/
theorem Readable.add {i : ℕ} (hr : r ∈ space.regions) (ha : r.Contains a)
    (hread : r.readable = true) (hi : a.toNat + i < r.stop) :
    space.Readable (a + UInt64.ofNat i) :=
  ⟨r, hr, ha.add hr hi, hread⟩

theorem not_readable_stop (hr : r ∈ space.regions)
    (hnext : ∀ next, space.regionRecurse (r.base + r.size) = some next →
      ¬ (next.base = r.base + r.size ∧ next.readable = true)) :
    ¬ space.Readable (r.base + r.size) := by
  rintro ⟨q, hq, hin, hread⟩
  have hstop := AddressSpace.stop_base_add_size hr
  refine hnext q (AddressSpace.regionRecurse_of_contains hq hin) ⟨?_, hread⟩
  rw [← UInt64.toNat_inj, hstop]
  exact base_eq_stop hr hq (hstop ▸ UInt64.le_iff_toNat_le.1 hin.1) (hstop ▸ hin.2)

/-- A distance over which everything can be read, and that ends, if it is shorter than a page, where
nothing can. -/
structure ReadableFor (space : AddressSpace) (a d : UInt64) : Prop where
  pos : 0 < d.toNat
  fits : a.toNat + d.toNat < 2 ^ 64
  readable : ∀ i < d.toNat, space.Readable (a + UInt64.ofNat i)
  stops : d.toNat < 4096 → ¬ space.Readable (a + d)

/-- The distance to the end of the region does, unless the next one has to be looked at. -/
theorem readableFor_region (hr : r ∈ space.regions) (ha : r.Contains a) (hread : r.readable = true)
    (hstops : r.base + r.size - a < PageSize → ¬ space.Readable (r.base + r.size)) :
    ReadableFor space a (r.base + r.size - a) := by
  have hlt := ha.2
  have hfit := space.fits r hr
  have hstop := AddressSpace.stop_base_add_size hr
  have hd : (r.base + r.size - a).toNat = r.stop - a.toNat := by
    rw [UInt64.toNat_sub_of_le _ _ (UInt64.le_iff_toNat_le.2 (hstop ▸ hlt.le)), hstop]
  refine ⟨by omega, by omega, fun i hi => Readable.add hr ha hread (by omega), fun hshort => ?_⟩
  rw [add_comm a, UInt64.sub_add_cancel]
  exact hstops hshort

/-- And so does the distance to the end of the next one, which is at least a page away. -/
theorem readableFor_next (hr : r ∈ space.regions) (ha : r.Contains a) (hread : r.readable = true)
    (hq : q ∈ space.regions) (hbase : q.base = r.base + r.size) (hread' : q.readable = true) :
    ReadableFor space a (r.base + (r.size + q.size) - a) := by
  have hlt := ha.2
  have hfit := space.fits q hq
  have hstop := AddressSpace.stop_base_add_size hr
  have hqstop := AddressSpace.stop_base_add_size hq
  rw [hbase, UInt64.add_assoc] at hqstop
  have hsum : q.stop = r.stop + q.size.toNat := by rw [Region.stop, hbase, hstop]
  have hpage : 4096 ≤ q.size.toNat :=
    Nat.le_of_dvd (space.nonempty q hq) (space.aligned q hq).2
  have hd : (r.base + (r.size + q.size) - a).toNat = q.stop - a.toNat := by
    rw [UInt64.toNat_sub_of_le _ _ (UInt64.le_iff_toNat_le.2 (by omega)), hqstop]
  refine ⟨by omega, by omega, fun i hi => ?_, fun hshort => by omega⟩
  by_cases hi' : a.toNat + i < r.stop
  · exact Readable.add hr ha hread hi'
  · have hadd : (a + UInt64.ofNat i).toNat = a.toNat + i := toNat_add_ofNat (by omega)
    refine ⟨q, hq, ⟨?_, by omega⟩, hread'⟩
    rw [UInt64.le_iff_toNat_le, hbase, hstop, hadd]
    omega

/-- What the distance is for an address that can be read. -/
theorem endDistance_readable (ha : space.Readable a) :
    ∃ d, getMemoryRegionEndDistance space a = some d ∧ ReadableFor space a d := by
  obtain ⟨r, hr, ha, hread⟩ := ha
  unfold getMemoryRegionEndDistance
  rw [AddressSpace.regionRecurse_of_contains hr ha]
  simp only
  refine ⟨_, rfl, ?_⟩
  split_ifs with hshort
  · rcases hnext : space.regionRecurse (r.base + r.size) with _ | next
    · exact readableFor_region hr ha hread fun _ => not_readable_stop hr (by simp [hnext])
    · simp only
      split_ifs with hadjacent
      · have hmem : next ∈ space.regions := List.mem_of_find?_eq_some hnext
        exact readableFor_next hr ha hread hmem hadjacent.1 hadjacent.2
      · refine readableFor_region hr ha hread fun _ => not_readable_stop hr fun q hq => ?_
        obtain rfl := Option.some.inj (hnext.symm.trans hq)
        exact hadjacent
  · exact readableFor_region hr ha hread fun h => absurd h hshort

theorem zero_mem_bytes {m : ℕ} :
    0 ∈ space.bytes a m ↔ ∃ n < m, space.byte (a + UInt64.ofNat n) = 0 := by
  simp [AddressSpace.bytes]

theorem cstr_bytes {n m : ℕ} (h : StringAt space a n) (hn : n < m) :
    cstr (space.bytes a m) = space.bytes a n := by
  obtain ⟨k, rfl⟩ := Nat.exists_eq_add_of_lt hn
  have hsplit : space.bytes a (n + k + 1) = space.bytes a n
      ++ 0 :: (List.range k).map fun i => space.byte (a + UInt64.ofNat (n + (i + 1))) :=
    calc space.bytes a (n + k + 1)
        = space.bytes a n
          ++ (List.range (k + 1)).map fun i => space.byte (a + UInt64.ofNat (n + i)) := by
          rw [AddressSpace.bytes, Nat.add_assoc, List.range_add, List.map_append, List.map_map]
          rfl
      _ = _ := by
          rw [List.range_succ_eq_map, List.map_cons, Nat.add_zero, h.zero, List.map_map]
          rfl
  rw [hsplit]
  refine cstr_append_zero (fun h0 => ?_) _
  obtain ⟨i, hi, hzero⟩ := zero_mem_bytes.1 h0
  exact h.nonzero i hi hzero

theorem StringAt.readable_start {n : ℕ} (h : StringAt space a n) : space.Readable a := by
  have hstart := h.readable 0 (Nat.zero_le n)
  rwa [show UInt64.ofNat 0 = 0 from rfl, UInt64.add_zero] at hstart

/-- A string that is short enough ends within the distance. -/
theorem StringAt.lt_distance {n : ℕ} {d : UInt64} (h : StringAt space a n) (hn : n < 4096)
    (hd : ReadableFor space a d) : n < d.toNat := by
  by_contra hle
  refine hd.stops (by omega) ?_
  have hread := h.readable d.toNat (not_lt.1 hle)
  rwa [UInt64.ofNat_toNat] at hread

/-- The first zero within the distance ends a string. -/
theorem exists_stringAt {d : UInt64} {m : ℕ} (hd : ReadableFor space a d) (hm : m ≤ d.toNat)
    (h0 : 0 ∈ space.bytes a m) : ∃ n < m, StringAt space a n := by
  have hzero := zero_mem_bytes.1 h0
  obtain ⟨hlt, hfirst⟩ := Nat.find_spec hzero
  refine ⟨Nat.find hzero, hlt, fun i hi => hd.readable i (by omega), fun i hi hzi => ?_, hfirst⟩
  exact Nat.find_min hzero hi ⟨hi.trans hlt, hzi⟩

theorem readString_of_not_readable (ha : ¬ space.Readable a) (maxSize : UInt64)
    (string : List UInt8) : readProcessMemoryString space a maxSize string = (false, string) := by
  have hmem : ∀ {size mem}, space.readMemory a size = some mem → mem = [] := by
    intro size mem h
    rcases Nat.eq_zero_or_pos size.toNat with hzero | hpos
    · exact List.length_eq_zero_iff.1 ((AddressSpace.length_readMemory h).trans hzero)
    · exact absurd (AddressSpace.readable_of_readMemory (by simp [h]) hpos) ha
  unfold readProcessMemoryString
  rcases getMemoryRegionEndDistance space a with _ | d
  · rfl
  · simp only
    rcases hread : space.readMemory a (if d > maxSize then maxSize else d) with _ | mem
    · rfl
    · simp only
      rw [hmem hread, if_neg List.not_mem_nil]

/-- What is read of an address that can be. -/
theorem readString_of_readable (ha : space.Readable a) (string : List UInt8) :
    ∃ d, ReadableFor space a d ∧ readProcessMemoryString space a 4096 string
      = if 0 ∈ space.bytes a (min d.toNat 4096) then
          (true, cstr (space.bytes a (min d.toNat 4096)))
        else (false, string) := by
  obtain ⟨d, hdist, hd⟩ := endDistance_readable ha
  refine ⟨d, hd, ?_⟩
  have hsize : (if d > 4096 then 4096 else d).toNat = min d.toNat 4096 := by
    split_ifs with hgt
    · exact (min_eq_right (UInt64.lt_iff_toNat_lt.1 hgt).le).symm
    · exact (min_eq_left (UInt64.le_iff_toNat_le.1 (not_lt.1 hgt))).symm
  unfold readProcessMemoryString
  rw [hdist]
  simp only
  have hfits := hd.fits
  rw [AddressSpace.readMemory_of_readable (by omega) fun i hi => hd.readable i (by omega), hsize]

end Regions

/-- A string of less than 4096 bytes is found and stored when there is one to read; without one the
call fails and leaves what is stored alone. -/
theorem readProcessMemoryString_exact (space : AddressSpace) (address : UInt64)
    (string : List UInt8) :
    ((readProcessMemoryString space address 4096 string).1 = true
        ↔ ∃ n < 4096, StringAt space address n)
      ∧ (∀ n < 4096, StringAt space address n →
        readProcessMemoryString space address 4096 string = (true, space.bytes address n))
      ∧ ((¬ ∃ n < 4096, StringAt space address n) →
        readProcessMemoryString space address 4096 string = (false, string)) := by
  have hfound : ∀ n < 4096, StringAt space address n →
      readProcessMemoryString space address 4096 string = (true, space.bytes address n) := by
    intro n hn hstring
    obtain ⟨d, hd, hread⟩ := readString_of_readable hstring.readable_start string
    have hlt : n < min d.toNat 4096 := lt_min (hstring.lt_distance hn hd) hn
    rw [hread, if_pos (zero_mem_bytes.2 ⟨n, hlt, hstring.zero⟩), cstr_bytes hstring hlt]
  have hnone : (¬ ∃ n < 4096, StringAt space address n) →
      readProcessMemoryString space address 4096 string = (false, string) := by
    intro hno
    by_cases ha : space.Readable address
    · obtain ⟨d, hd, hread⟩ := readString_of_readable ha string
      rw [hread]
      refine if_neg fun h0 => ?_
      obtain ⟨n, hn, hstring⟩ := exists_stringAt hd (min_le_left _ _) h0
      exact hno ⟨n, (lt_min_iff.1 hn).2, hstring⟩
    · exact readString_of_not_readable ha 4096 string
  refine ⟨⟨fun htrue => ?_, fun ⟨n, hn, hstring⟩ => ?_⟩, hfound, hnone⟩
  · by_contra hno
    rw [hnone hno] at htrue
    cases htrue
  · rw [hfound n hn hstring]

end MacMiniDump
