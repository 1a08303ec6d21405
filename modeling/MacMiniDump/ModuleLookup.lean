import MacMiniDump.Lib.IntervalLookup
import MacMiniDump.ModuleMarks

/-!
# Looking up modules

A lookup is a linear scan over the text segments, but for two kinds of addresses
(`moduleLookup_iff`). The address behind a text segment is taken to be in it, unless another module
is loaded there, and an address in a text segment that reaches the end of the address space is not
found, because its end wraps. The flags of the modules follow the lookups, call after call
(`infos_markAll`).
-/

namespace MacMiniDump

namespace ModuleInfo

/-- Is the address in the text segment? -/
def InText (mi : ModuleInfo) (a : UInt64) : Prop :=
  ∃ si ∈ mi.getTextSegmentOfModule, si.address ≤ a ∧ a.toNat < si.address.toNat + si.size.toNat

instance (mi : ModuleInfo) (a : UInt64) : Decidable (mi.InText a) :=
  match h : mi.getTextSegmentOfModule with
  | none => isFalse fun ⟨_, hsi, _⟩ => by simp [h] at hsi
  | some si =>
    decidable_of_iff (si.address ≤ a ∧ a.toNat < si.address.toNat + si.size.toNat)
      ⟨fun hin => ⟨si, h, hin⟩, fun ⟨_, hsi, hin⟩ => Option.some.inj (h.symm.trans hsi) ▸ hin⟩

/-- The address behind the text segment, as a number. -/
def textEnd (mi : ModuleInfo) : ℕ :=
  match mi.getTextSegmentOfModule with
  | none => 0
  | some si => si.address.toNat + si.size.toNat

theorem lt_textEnd {mi : ModuleInfo} {a : UInt64} (h : mi.InText a) : a.toNat < mi.textEnd := by
  obtain ⟨si, hsi, -, hlt⟩ := h
  unfold textEnd
  rw [hsi]
  exact hlt

/-- Is the module loaded at its text segment, and the segment not empty? -/
def HasText (mi : ModuleInfo) : Prop :=
  ∃ si ∈ mi.getTextSegmentOfModule, si.address = mi.loadAddress ∧ 0 < si.size.toNat

/-- Two ways to set a flag differ only where it is not set yet. -/
theorem executing_or_inj {mi : ModuleInfo} {x y : Bool} :
    ({ mi with executing := mi.executing || x } : ModuleInfo)
        = { mi with executing := mi.executing || y } ↔ (mi.executing = false → x = y) := by
  rw [ModuleInfo.mk.injEq]
  cases mi.executing <;> simp

end ModuleInfo

/-- Modules that are loaded at their text segments, which are disjoint. -/
structure MappedModules extends ModuleList where
  text : ∀ m ∈ toModuleList.infos, m.HasText
  disjoint : toModuleList.infos.Pairwise fun m m' => ∀ a, ¬ (m.InText a ∧ m'.InText a)

namespace MappedModules

variable (m : MappedModules)

/-- The first module with the address in its text segment. -/
def linearScan (address : UInt64) : Option ModuleInfo := m.infos.find? (·.InText address)

/-- Is there a module that is loaded at the address? -/
def LoadedAt (address : UInt64) : Prop := ∃ mi ∈ m.infos, mi.loadAddress = address

/-- Does a lookup of the address find the module? -/
def Hit (mi : ModuleInfo) (address : UInt64) : Prop :=
  (mi.InText address ∧ mi.textEnd < 2 ^ 64) ∨ (mi.textEnd = address.toNat ∧ ¬ m.LoadedAt address)

/-- The end of the text segment of an entry. -/
def stop (i : UInt64 × ModuleInfo) : ℕ := i.2.textEnd

variable {m}

theorem mem_infos {i : UInt64 × ModuleInfo} (hi : i ∈ m.moduleInfos) : i.2 ∈ m.infos :=
  List.mem_map_of_mem hi

/-- What the entries have for text. -/
theorem text_of_mem {i : UInt64 × ModuleInfo} (hi : i ∈ m.moduleInfos) :
    ∃ si, i.2.getTextSegmentOfModule = some si ∧ si.address = i.1 ∧ 0 < si.size.toNat
      ∧ stop i = i.1.toNat + si.size.toNat := by
  obtain ⟨si, hsi, haddr, hsize⟩ := m.text i.2 (mem_infos hi)
  rw [Option.mem_def] at hsi
  have hkey : si.address = i.1 := haddr.trans (m.keyed i hi).symm
  refine ⟨si, hsi, hkey, hsize, ?_⟩
  unfold stop ModuleInfo.textEnd
  rw [hsi, ← hkey]

theorem inText_iff {i : UInt64 × ModuleInfo} (hi : i ∈ m.moduleInfos) {a : UInt64} :
    i.2.InText a ↔ i.1 ≤ a ∧ a.toNat < stop i := by
  obtain ⟨si, hsi, haddr, -, hstop⟩ := text_of_mem hi
  rw [hstop, ← haddr]
  constructor
  · rintro ⟨si', hsi', hin⟩
    obtain rfl : si = si' := Option.some.inj (hsi.symm.trans hsi')
    exact hin
  · exact fun hin => ⟨si, hsi, hin⟩

/-- The end that is computed wraps, and then nothing is in the module. -/
theorem isCodeInModule_iff {i : UInt64 × ModuleInfo} (hi : i ∈ m.moduleInfos) {a : UInt64} :
    i.2.isCodeInModule a = true ↔ (i.1 ≤ a ∧ a.toNat ≤ stop i) ∧ stop i < 2 ^ 64 := by
  obtain ⟨si, hsi, haddr, -, hstop⟩ := text_of_mem hi
  unfold ModuleInfo.isCodeInModule
  rw [hsi]
  simp only [Bool.and_eq_true, decide_eq_true_eq]
  rw [hstop, ← haddr, ge_iff_le, UInt64.le_iff_toNat_le, UInt64.le_iff_toNat_le, UInt64.toNat_add]
  have hlt := si.address.toNat_lt
  have hlt' := si.size.toNat_lt
  by_cases hwrap : si.address.toNat + si.size.toNat < 2 ^ 64
  · rw [Nat.mod_eq_of_lt hwrap]
    exact (and_iff_left hwrap).symm
  · have hmod : (si.address.toNat + si.size.toNat) % 2 ^ 64
        = si.address.toNat + si.size.toNat - 2 ^ 64 := by
      rw [Nat.mod_eq_sub_mod (not_lt.1 hwrap), Nat.mod_eq_of_lt (by omega)]
    rw [hmod]
    constructor
    · rintro ⟨hle, hle'⟩
      omega
    · exact fun h => absurd h.2 hwrap

theorem separate : Separate m.moduleInfos UInt64.toNat stop where
  ordered := m.ordered
  mono _ _ hlt := UInt64.lt_iff_toNat_lt.1 hlt
  lt i hi := by
    obtain ⟨si, -, -, hsize, hstop⟩ := text_of_mem hi
    rw [hstop]
    exact Nat.lt_add_of_pos_right hsize
  disjoint := (List.pairwise_map.1 m.disjoint).imp_of_mem fun hi hj hij a hin =>
    hij a ⟨(inText_iff hi).2 hin.1, (inText_iff hj).2 hin.2⟩

theorem not_loadedAt_iff {a : UInt64} : ¬ m.LoadedAt a ↔ ∀ j ∈ m.moduleInfos, j.1 ≠ a := by
  unfold LoadedAt ModuleList.infos
  constructor
  · rintro h j hj rfl
    exact h ⟨j.2, List.mem_map_of_mem hj, (m.keyed j hj).symm⟩
  · rintro h ⟨_, hmi, heq⟩
    obtain ⟨j, hj, rfl⟩ := List.mem_map.1 hmi
    exact h j hj ((m.keyed j hj).trans heq)

/-- What a lookup finds. -/
theorem getModuleInfoForAddress_eq_some_iff {a : UInt64} {mi : ModuleInfo} :
    m.getModuleInfoForAddress a = some mi ↔ mi ∈ m.infos ∧ m.Hit mi a := by
  have hlookup : m.getModuleInfoForAddress a = some mi
      ↔ ∃ i ∈ m.moduleInfos, i.2 = mi ∧ lookup m.moduleInfos UInt64.toNat stop a = some i
        ∧ stop i < 2 ^ 64 := by
    unfold ModuleList.getModuleInfoForAddress lookup
    rcases hc : candidate m.moduleInfos a with _ | i
    · simp
    · have hi := mem_of_candidate hc
      have hcode := isCodeInModule_iff hi (a := a)
      constructor
      · intro h
        simp only at h
        split_ifs at h with hin
        obtain ⟨hin, hfit⟩ := hcode.1 hin
        exact ⟨i, hi, Option.some.inj h, Option.filter_some_pos (by simpa using hin), hfit⟩
      · rintro ⟨j, hj, rfl, hf, hfit⟩
        obtain ⟨hij, hin⟩ := Option.filter_eq_some_iff.1 hf
        obtain rfl := Option.some.inj hij
        simp only
        rw [if_pos (hcode.2 ⟨by simpa using hin, hfit⟩)]
  rw [hlookup]
  constructor
  · rintro ⟨i, hi, rfl, hf, hfit⟩
    refine ⟨mem_infos hi, ?_⟩
    rcases (lookup_eq_some_iff_of_mem separate hi).1 hf with hin | ⟨hend, hnone⟩
    · exact .inl ⟨(inText_iff hi).2 hin, hfit⟩
    · exact .inr ⟨hend, not_loadedAt_iff.2 hnone⟩
  · rintro ⟨hmi, hhit⟩
    obtain ⟨i, hi, rfl⟩ := List.mem_map.1 hmi
    rcases hhit with ⟨hin, hfit⟩ | ⟨hend, hnone⟩
    · exact ⟨i, hi, rfl, (lookup_eq_some_iff_of_mem separate hi).2 (.inl ((inText_iff hi).1 hin)),
        hfit⟩
    · refine ⟨i, hi, rfl, ?_, hend.trans_lt a.toNat_lt⟩
      exact (lookup_eq_some_iff_of_mem separate hi).2 (.inr ⟨hend, not_loadedAt_iff.1 hnone⟩)

theorem linearScan_eq_some_iff {a : UInt64} {mi : ModuleInfo} :
    m.linearScan a = some mi ↔ mi ∈ m.infos ∧ mi.InText a := by
  constructor
  · intro h
    exact ⟨List.mem_of_find?_eq_some h, by simpa using List.find?_some h⟩
  · rintro ⟨hmi, hin⟩
    obtain ⟨i, hi, rfl⟩ := List.mem_map.1 hmi
    have hsame : m.moduleInfos.find? (fun i => decide (i.2.InText a))
        = scan m.moduleInfos UInt64.toNat stop a :=
      List.find?_congr fun j hj => decide_eq_decide.2 (inText_iff hj)
    have hscan := (scan_eq_some_iff separate).2 ⟨hi, (inText_iff hi).1 hin⟩
    rw [linearScan, ModuleList.infos, List.find?_map]
    exact congrArg (Option.map Prod.snd) (hsame.trans hscan)

/-- Only one module is found. -/
theorem Hit.eq {a : UInt64} {mi mi' : ModuleInfo} (hmi : mi ∈ m.infos) (hmi' : mi' ∈ m.infos)
    (h : m.Hit mi a) (h' : m.Hit mi' a) : mi = mi' :=
  Option.some.inj ((getModuleInfoForAddress_eq_some_iff.2 ⟨hmi, h⟩).symm.trans
    (getModuleInfoForAddress_eq_some_iff.2 ⟨hmi', h'⟩))

/-! ## Marking -/

variable (m)

/-- Marking leaves the modules where they are. -/
def markAsExecuting (codeAddress : UInt64) : MappedModules where
  toModuleList := (m.toModuleList.markAsExecuting codeAddress).2
  text := by
    intro mi hmi
    have hsame := m.markAsExecuting_infos codeAddress (fun mi => mi.HasText) fun _ => rfl
    have hmem := List.mem_map_of_mem (f := fun mi : ModuleInfo => mi.HasText) hmi
    rw [hsame] at hmem
    obtain ⟨mi', hmi', heq⟩ := List.mem_map.1 hmem
    exact heq ▸ m.text mi' hmi'
  disjoint := by
    have hsame := m.markAsExecuting_infos codeAddress (fun mi => mi.InText) fun _ => rfl
    have hmap : ∀ {l : List ModuleInfo}, (l.map fun mi => mi.InText).Pairwise
        (fun p p' : UInt64 → Prop => ∀ a, ¬ (p a ∧ p' a))
        ↔ l.Pairwise fun m m' => ∀ a, ¬ (m.InText a ∧ m'.InText a) := List.pairwise_map
    rw [← hmap, hsame, hmap]
    exact m.disjoint

/-- A sequence of calls. -/
def markAll (addresses : List UInt64) : MappedModules := addresses.foldl markAsExecuting m

/-- The marks that a linear scan of the text segments asks for. -/
def marked (addresses : List UInt64) : List ModuleInfo :=
  m.infos.map fun mi => { mi with executing := mi.executing || addresses.any (mi.InText ·) }

variable {m}

theorem toModuleList_markAll :
    ∀ (addresses : List UInt64) (m : MappedModules),
      (m.markAll addresses).toModuleList = m.toModuleList.markAll addresses
  | [], _ => rfl
  | a :: addresses, m => toModuleList_markAll addresses (m.markAsExecuting a)

theorem finds_iff {a : UInt64} {mi : ModuleInfo} (hmi : mi ∈ m.infos) :
    m.finds a mi = true ↔ m.Hit mi a := by
  unfold ModuleList.finds
  rw [beq_iff_eq, Option.map_eq_some_iff]
  constructor
  · rintro ⟨found, hfound, hkey⟩
    obtain ⟨hmem, hhit⟩ := getModuleInfoForAddress_eq_some_iff.1 hfound
    obtain ⟨i, hi, rfl⟩ := List.mem_map.1 hmi
    obtain ⟨j, hj, rfl⟩ := List.mem_map.1 hmem
    obtain rfl := m.ordered.eq_of_key hi hj
      (by rw [m.keyed i hi, m.keyed j hj, hkey])
    exact hhit
  · exact fun hhit => ⟨mi, getModuleInfoForAddress_eq_some_iff.2 ⟨hmi, hhit⟩, rfl⟩

open Classical in
/-- A sequence of calls sets the flags of the modules that the lookups find. -/
theorem infos_markAll (addresses : List UInt64) :
    (m.markAll addresses).infos = m.infos.map fun mi =>
      { mi with executing := mi.executing || addresses.any (m.Hit mi ·) } := by
  rw [toModuleList_markAll, ModuleList.infos_markAll]
  refine List.map_congr_left fun mi hmi => ?_
  have hany : addresses.any (m.finds · mi) = addresses.any (m.Hit mi ·) := by
    rw [Bool.eq_iff_iff, List.any_eq_true, List.any_eq_true]
    simp only [finds_iff hmi, decide_eq_true_eq]
  rw [hany]

/-- When the marks of some addresses are right for a module. -/
theorem exists_hit_iff {mi : ModuleInfo} {addresses : List UInt64} :
    ((∃ b ∈ addresses, m.Hit mi b) ↔ ∃ b ∈ addresses, mi.InText b)
      ↔ ((∃ b ∈ addresses, mi.textEnd = b.toNat ∧ ¬ m.LoadedAt b) → ∃ b ∈ addresses, mi.InText b)
        ∧ (2 ^ 64 ≤ mi.textEnd → ∀ b ∈ addresses, ¬ mi.InText b) := by
  constructor
  · refine fun h => ⟨fun ⟨b, hb, hend⟩ => h.1 ⟨b, hb, .inr hend⟩, fun hwrap b hb hin => ?_⟩
    obtain ⟨c, -, ⟨-, hfit⟩ | ⟨hend, -⟩⟩ := h.2 ⟨b, hb, hin⟩
    · exact absurd hwrap (not_le.2 hfit)
    · exact absurd hwrap (not_le.2 (hend.trans_lt c.toNat_lt))
  · rintro ⟨hends, hwraps⟩
    constructor
    · rintro ⟨b, hb, ⟨hin, -⟩ | hend⟩
      · exact ⟨b, hb, hin⟩
      · exact hends ⟨b, hb, hend⟩
    · rintro ⟨b, hb, hin⟩
      by_cases hfit : mi.textEnd < 2 ^ 64
      · exact ⟨b, hb, .inl ⟨hin, hfit⟩⟩
      · exact absurd hin (hwraps (not_lt.1 hfit) b hb)

end MappedModules

/-- Lookups and marks are those of a linear scan, but for the address behind a text segment where no
module is loaded, and for a text segment that reaches the end of the address space. -/
theorem moduleLookup_iff (m : MappedModules) (a : UInt64) (addresses : List UInt64) :
    (m.getModuleInfoForAddress a = m.linearScan a
        ↔ ¬ ∃ mi ∈ m.infos, (mi.textEnd = a.toNat ∧ ¬ m.LoadedAt a)
          ∨ (mi.InText a ∧ 2 ^ 64 ≤ mi.textEnd))
      ∧ ((m.markAll addresses).infos = m.marked addresses
        ↔ ∀ mi ∈ m.infos, mi.executing = false →
          ((∃ b ∈ addresses, mi.textEnd = b.toNat ∧ ¬ m.LoadedAt b) → ∃ b ∈ addresses, mi.InText b)
            ∧ (2 ^ 64 ≤ mi.textEnd → ∀ b ∈ addresses, ¬ mi.InText b)) := by
  classical
  constructor
  · have hlookup := fun mi => @MappedModules.getModuleInfoForAddress_eq_some_iff m a mi
    have hscan := fun mi => @MappedModules.linearScan_eq_some_iff m a mi
    constructor
    · rintro heq ⟨mi, hmi, ⟨hend, hnone⟩ | ⟨hin, hwrap⟩⟩
      · have hfound := (hscan mi).1 (heq ▸ (hlookup mi).2 ⟨hmi, .inr ⟨hend, hnone⟩⟩)
        exact absurd (ModuleInfo.lt_textEnd hfound.2) (hend ▸ lt_irrefl _)
      · rcases ((hlookup mi).1 (heq ▸ (hscan mi).2 ⟨hmi, hin⟩)).2 with ⟨-, hfit⟩ | ⟨hend, -⟩
        · exact absurd hwrap (not_le.2 hfit)
        · exact absurd (ModuleInfo.lt_textEnd hin) (hend ▸ lt_irrefl _)
    · intro hends
      refine Option.ext fun mi => ?_
      rw [hlookup, hscan]
      refine and_congr_right fun hmi => ⟨?_, fun hin => .inl ⟨hin, ?_⟩⟩
      · rintro (⟨hin, -⟩ | hend)
        · exact hin
        · exact absurd ⟨mi, hmi, .inl hend⟩ hends
      · by_contra hwrap
        exact hends ⟨mi, hmi, .inr ⟨hin, not_lt.1 hwrap⟩⟩
  · rw [MappedModules.infos_markAll, MappedModules.marked, List.map_inj_left]
    refine forall₂_congr fun mi hmi => ?_
    rw [ModuleInfo.executing_or_inj]
    refine imp_congr_right fun _ => ?_
    rw [Bool.eq_iff_iff]
    simp only [List.any_eq_true, decide_eq_true_eq]
    exact MappedModules.exists_hit_iff

/-- A module with a page of text. -/
def pageOfText : MappedModules where
  moduleInfos :=
    [(0x1000, ⟨0x1000, Vector.replicate 16 0, [],
      [⟨nameField (ascii "__TEXT"), 0x1000, 0x1000⟩], false, List.replicate 32 0, zero_notMem_nil,
      by simp, by simp⟩)]
  ordered := List.pairwise_singleton _ _
  keyed := by simp
  count := by simp
  text := by
    intro mi hmi
    obtain rfl := List.mem_singleton.1 hmi
    exact ⟨_, rfl, rfl, by simp⟩
  disjoint := List.pairwise_singleton _ _

/-- The address behind the page is said to be in it, and marks the module. -/
theorem moduleLookup_behind :
    pageOfText.getModuleInfoForAddress 0x2000 ≠ pageOfText.linearScan 0x2000
      ∧ (pageOfText.markAll [0x2000]).infos ≠ pageOfText.marked [0x2000] := by
  have hlookup : (pageOfText.getModuleInfoForAddress 0x2000).isSome = true := by decide +kernel
  have hscan : pageOfText.linearScan 0x2000 = none := by decide +kernel
  have hmark : (pageOfText.markAll [0x2000]).infos.map (·.executing) = [true] := by decide +kernel
  have hmarked : (pageOfText.marked [0x2000]).map (·.executing) = [false] := by decide +kernel
  constructor
  · intro h
    rw [h, hscan] at hlookup
    cases hlookup
  · intro h
    rw [h, hmarked] at hmark
    cases hmark

end MacMiniDump
