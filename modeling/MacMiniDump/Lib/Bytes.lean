import Mathlib

/-!
# Bytes

Fixed-width little-endian numbers, C strings in a piece of memory, and a file as the list of its
bytes. A write at or past the end of a file keeps what is there and fills the gap with zeros
(`writeAt_of_length_le`), so what was read before is read after it (`readAt_of_isPrefix`).
-/

namespace MacMiniDump

instance instLinearOrderUInt64 : LinearOrder UInt64 where
  le_refl := UInt64.le_refl
  le_trans _ _ _ := UInt64.le_trans
  le_antisymm _ _ := UInt64.le_antisymm
  le_total := UInt64.le_total
  lt_iff_le_not_ge a b := by
    rw [UInt64.lt_iff_toNat_lt, UInt64.le_iff_toNat_le, UInt64.le_iff_toNat_le]
    omega
  toDecidableLE := inferInstance
  toDecidableEq := inferInstance
  toDecidableLT := inferInstance

/-- The `w` little-endian bytes of `n`. -/
def leBytes : ℕ → ℕ → List UInt8
  | 0, _ => []
  | w + 1, n => UInt8.ofNat n :: leBytes w (n / 256)

/-- The number that little-endian bytes stand for. -/
def leNat : List UInt8 → ℕ
  | [] => 0
  | b :: bs => b.toNat + 256 * leNat bs

@[simp] theorem length_leBytes : ∀ w n : ℕ, (leBytes w n).length = w
  | 0, _ => rfl
  | w + 1, n => by simp [leBytes, length_leBytes w]

theorem leNat_leBytes : ∀ w n : ℕ, leNat (leBytes w n) = n % 256 ^ w
  | 0, n => by simp [leBytes, leNat, Nat.mod_one]
  | w + 1, n => by
    rw [leBytes, leNat, leNat_leBytes w, UInt8.toNat_ofNat', show 256 ^ (w + 1) = 256 * 256 ^ w from
      pow_succ' 256 w, Nat.mod_mul]

def le16 (x : UInt16) : List UInt8 := leBytes 2 x.toNat

def le32 (x : UInt32) : List UInt8 := leBytes 4 x.toNat

def le64 (x : UInt64) : List UInt8 := leBytes 8 x.toNat

def read16 (l : List UInt8) : UInt16 := UInt16.ofNat (leNat l)

def read32 (l : List UInt8) : UInt32 := UInt32.ofNat (leNat l)

def read64 (l : List UInt8) : UInt64 := UInt64.ofNat (leNat l)

@[simp] theorem length_le16 (x : UInt16) : (le16 x).length = 2 := length_leBytes _ _

@[simp] theorem length_le32 (x : UInt32) : (le32 x).length = 4 := length_leBytes _ _

@[simp] theorem length_le64 (x : UInt64) : (le64 x).length = 8 := length_leBytes _ _

@[simp] theorem read16_le16 (x : UInt16) : read16 (le16 x) = x := by
  have hx : x.toNat < 256 ^ 2 := x.toNat_lt
  rw [read16, le16, leNat_leBytes, Nat.mod_eq_of_lt hx, UInt16.ofNat_toNat]

@[simp] theorem read32_le32 (x : UInt32) : read32 (le32 x) = x := by
  have hx : x.toNat < 256 ^ 4 := x.toNat_lt
  rw [read32, le32, leNat_leBytes, Nat.mod_eq_of_lt hx, UInt32.ofNat_toNat]

@[simp] theorem read64_le64 (x : UInt64) : read64 (le64 x) = x := by
  have hx : x.toNat < 256 ^ 8 := x.toNat_lt
  rw [read64, le64, leNat_leBytes, Nat.mod_eq_of_lt hx, UInt64.ofNat_toNat]

theorem toNat_add_ofNat {a : UInt64} {n : ℕ} (h : a.toNat + n < 2 ^ 64) :
    (a + UInt64.ofNat n).toNat = a.toNat + n := by
  rw [UInt64.toNat_add, UInt64.toNat_ofNat', Nat.add_mod_mod, Nat.mod_eq_of_lt h]

/-- The characters of a literal. -/
def ascii (s : String) : List UInt8 := s.toList.map fun c => UInt8.ofNat c.toNat

/-- The C string that starts where the memory does. -/
def cstr (m : List UInt8) : List UInt8 := m.takeWhile (· ≠ 0)

/-- What `strncpy` leaves in a field of `n` bytes. -/
def strncpy (n : ℕ) (src : List UInt8) : List UInt8 :=
  (cstr src).take n ++ List.replicate (n - (cstr src).length) 0

@[simp] theorem length_strncpy (n : ℕ) (src : List UInt8) : (strncpy n src).length = n := by
  simp only [strncpy, List.length_append, List.length_take, List.length_replicate]
  omega

theorem cstr_of_zero_notMem {s : List UInt8} (h : 0 ∉ s) : cstr s = s := by
  refine List.takeWhile_eq_self_iff.2 fun b hb => ?_
  have : b ≠ 0 := fun h0 => h (h0 ▸ hb)
  simpa using this

theorem zero_notMem_nil : (0 : UInt8) ∉ ([] : List UInt8) := List.not_mem_nil

theorem zero_notMem_cstr (s : List UInt8) : 0 ∉ cstr s := by
  intro h
  simpa using List.mem_takeWhile_imp h

theorem cstr_append_of_zero_notMem {s : List UInt8} (h : 0 ∉ s) (t : List UInt8) :
    cstr (s ++ t) = s ++ cstr t := by
  unfold cstr
  rw [List.takeWhile_append_of_pos]
  intro b hb
  have : b ≠ 0 := fun h0 => h (h0 ▸ hb)
  simpa using this

theorem cstr_append_replicate {s : List UInt8} (h : 0 ∉ s) (n : ℕ) :
    cstr (s ++ List.replicate n 0) = s := by
  rw [cstr_append_of_zero_notMem h]
  cases n <;> simp [cstr, List.replicate_succ]

theorem cstr_strncpy (n : ℕ) (src : List UInt8) : cstr (strncpy n src) = (cstr src).take n :=
  cstr_append_replicate (fun h => zero_notMem_cstr src (List.mem_of_mem_take h)) _

theorem cstr_append_zero {s : List UInt8} (h : 0 ∉ s) (t : List UInt8) :
    cstr (s ++ 0 :: t) = s := by
  rw [cstr_append_of_zero_notMem h]
  simp [cstr]

/-- The file after the bytes `d` are stored at `p`. -/
def writeAt (f : List UInt8) (p : ℕ) (d : List UInt8) : List UInt8 :=
  if d = [] then f
  else f.take p ++ List.replicate (p - f.length) 0 ++ d ++ f.drop (p + d.length)

/-- The `n` bytes of the file at `p`. -/
def readAt (f : List UInt8) (p n : ℕ) : List UInt8 := (f.drop p).take n

@[simp] theorem writeAt_nil (f : List UInt8) (p : ℕ) : writeAt f p [] = f := by simp [writeAt]

theorem writeAt_of_length_le {f d : List UInt8} {p : ℕ} (h : f.length ≤ p) (hd : d ≠ []) :
    writeAt f p d = f ++ List.replicate (p - f.length) 0 ++ d := by
  rw [writeAt, if_neg hd, List.take_of_length_le h, List.drop_of_length_le (by omega),
    List.append_nil]

theorem writeAt_length {f d : List UInt8} : writeAt f f.length d = f ++ d := by
  by_cases hd : d = []
  · simp [hd]
  · rw [writeAt_of_length_le le_rfl hd]
    simp

theorem prefix_writeAt {f : List UInt8} {p : ℕ} (h : f.length ≤ p) (d : List UInt8) :
    f <+: writeAt f p d := by
  by_cases hd : d = []
  · simp [hd]
  · rw [writeAt_of_length_le h hd, List.append_assoc]
    exact List.prefix_append _ _

theorem length_writeAt {f d : List UInt8} {p : ℕ} (h : f.length ≤ p) (hd : d ≠ []) :
    (writeAt f p d).length = p + d.length := by
  rw [writeAt_of_length_le h hd]
  simp only [List.length_append, List.length_replicate]
  omega

theorem length_writeAt_eq {f d : List UInt8} {p : ℕ} (hd : d ≠ []) :
    (writeAt f p d).length = max f.length (p + d.length) := by
  rw [writeAt, if_neg hd]
  simp only [List.length_append, List.length_take, List.length_replicate, List.length_drop]
  omega

theorem length_writeAt_le {f : List UInt8} {p : ℕ} (h : f.length ≤ p) (d : List UInt8) :
    (writeAt f p d).length ≤ p + d.length := by
  by_cases hd : d = []
  · simpa [hd] using h
  · exact (length_writeAt h hd).le

theorem readAt_writeAt {f : List UInt8} {p : ℕ} (h : f.length ≤ p) (d : List UInt8) :
    readAt (writeAt f p d) p d.length = d := by
  by_cases hd : d = []
  · simp [hd, readAt]
  · have hl : (f ++ List.replicate (p - f.length) 0).length = p := by
      simp only [List.length_append, List.length_replicate]
      omega
    rw [writeAt_of_length_le h hd, readAt, List.drop_left' hl, List.take_length]

theorem readAt_of_isPrefix {f g : List UInt8} (hfg : f <+: g) {p n : ℕ} (h : p + n ≤ f.length) :
    readAt g p n = readAt f p n := by
  obtain ⟨t, rfl⟩ := hfg
  rw [readAt, readAt, List.drop_append_of_le_length (by omega), List.take_append_of_le_length]
  rw [List.length_drop]
  omega

theorem readAt_append_left {f g : List UInt8} {p n : ℕ} (h : p + n ≤ f.length) :
    readAt (f ++ g) p n = readAt f p n := readAt_of_isPrefix (List.prefix_append f g) h

theorem length_readAt {f : List UInt8} {p n : ℕ} (h : p + n ≤ f.length) :
    (readAt f p n).length = n := by
  rw [readAt, List.length_take, List.length_drop]
  omega

theorem getElem?_readAt {f : List UInt8} {p n i : ℕ} (h : i < n) :
    (readAt f p n)[i]? = f[p + i]? := by
  rw [readAt, List.getElem?_take_of_lt h, List.getElem?_drop]

theorem readAt_eq_map_range_iff {l : List UInt8} {p n : ℕ} {g : ℕ → UInt8} :
    readAt l p n = (List.range n).map g ↔ ∀ i < n, l[p + i]? = some (g i) := by
  constructor
  · intro h i hi
    rw [← getElem?_readAt hi, h]
    simp [hi]
  · intro h
    refine List.ext_getElem? fun i => ?_
    rcases Nat.lt_or_ge i n with hi | hi
    · rw [getElem?_readAt hi, h i hi]
      simp [hi]
    · rw [List.getElem?_eq_none (by simpa [readAt] using .inl hi),
        List.getElem?_eq_none (by simpa using hi)]

theorem readAt_add (f : List UInt8) (p m n : ℕ) :
    readAt f p (m + n) = readAt f p m ++ readAt f (p + m) n := by
  rw [readAt, readAt, readAt, List.take_add, List.drop_drop]

/-- Bytes of bytes that have been read. -/
theorem readAt_readAt (f : List UInt8) (p : ℕ) {n i k : ℕ} (h : i + k ≤ n) :
    readAt (readAt f p n) i k = readAt f (p + i) k := by
  rw [readAt, readAt, readAt, List.drop_take, List.drop_drop, List.take_take,
    min_eq_left (by omega)]

/-- The first `n` records of `w` bytes. -/
def records (w n : ℕ) (l : List UInt8) : List (List UInt8) :=
  (List.range n).map fun i => readAt l (i * w) w

theorem records_flatMap {α : Type*} {f : α → List UInt8} {w : ℕ} (hf : ∀ a, (f a).length = w) :
    ∀ (l : List α) (rest : List UInt8), records w l.length (l.flatMap f ++ rest) = l.map f
  | [], _ => rfl
  | a :: l, rest => by
    have ih := records_flatMap hf l rest
    rw [records, List.length_cons, List.range_succ_eq_map, List.map_cons, List.map_map]
    have hfirst : readAt ((a :: l).flatMap f ++ rest) (0 * w) w = f a := by
      rw [List.flatMap_cons, List.append_assoc, Nat.zero_mul, readAt, List.drop_zero,
        List.take_left' (hf a)]
    have hrest : (fun i => readAt ((a :: l).flatMap f ++ rest) (i * w) w) ∘ Nat.succ
        = fun i => readAt (l.flatMap f ++ rest) (i * w) w := by
      funext i
      rw [Function.comp, List.flatMap_cons, List.append_assoc, Nat.succ_mul, Nat.add_comm, readAt,
        readAt, ← List.drop_drop, List.drop_left' (hf a)]
    rw [hfirst, hrest]
    exact congrArg (f a :: ·) ih

/-- A byte between the end of the file and a later write is zero. -/
theorem getElem?_writeAt_gap {f d : List UInt8} {p i : ℕ} (hd : d ≠ []) (hf : f.length ≤ i)
    (hp : i < p) : (writeAt f p d)[i]? = some 0 := by
  rw [writeAt_of_length_le (by omega) hd, List.append_assoc, List.getElem?_append_right hf,
    List.getElem?_append_left (by rw [List.length_replicate]; omega),
    List.getElem?_replicate_of_lt (by omega)]

/-- The bytes before a write are those of the file, zeros past its end. -/
theorem getElem?_writeAt_of_lt {f d : List UInt8} {p i : ℕ} (hd : d ≠ []) (hp : i < p) :
    (writeAt f p d)[i]? = some (f[i]?.getD 0) := by
  by_cases hf : f.length ≤ i
  · rw [getElem?_writeAt_gap hd hf hp, List.getElem?_eq_none hf]
    rfl
  · push Not at hf
    have hl : i < (f.take p).length := by
      rw [List.length_take]
      omega
    rw [writeAt, if_neg hd, List.append_assoc, List.append_assoc,
      List.getElem?_append_left hl, List.getElem?_take_of_lt hp, List.getElem?_eq_getElem hf]
    rfl

end MacMiniDump
