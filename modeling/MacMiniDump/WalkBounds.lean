import MacMiniDump.LoadCommands

/-!
# How far the walks read

The four walks over the load commands of an image take `ncmds`, every `cmdsize` and every `nsects`
from the bytes they walk over, and check none of them. So they stay inside the bytes exactly when
the bytes happen to say so (`walks_inBounds_iff`): each command that is come to starts there, a
segment has all that is read of it, and so have its sections and the first UUID.
-/

namespace MacMiniDump

/-- Nothing behind the bytes was read. -/
def Stays {α : Type} (x : Except Fault α) : Prop := ∃ a, x = .ok a

theorem not_stays_error {α : Type} (e : Fault) : ¬ Stays (.error e : Except Fault α) := by
  rintro ⟨a, ha⟩
  cases ha

section Names

/-- A comparison runs out of memory when all there is of it is the start of the string. -/
theorem stays_startsWith_iff :
    ∀ s m : List UInt8, Stays (startsWith s m) ↔ ¬ (m.length < s.length ∧ m <+: s)
  | [], m => by simp [Stays, startsWith]
  | c :: s, [] => by simp [Stays, startsWith]
  | c :: s, b :: m => by
    rw [startsWith]
    by_cases hcb : c = b
    · subst hcb
      rw [if_pos rfl, stays_startsWith_iff s m]
      simp [List.cons_prefix_cons]
    · rw [if_neg hcb]
      simp [Stays, List.cons_prefix_cons, Ne.symm hcb]

theorem startsWith_eq_true_iff :
    ∀ s m : List UInt8, startsWith s m = .ok true ↔ s <+: m
  | [], m => by simp [startsWith]
  | c :: s, [] => by simp [startsWith]
  | c :: s, b :: m => by
    rw [startsWith]
    by_cases hcb : c = b
    · subst hcb
      rw [if_pos rfl, startsWith_eq_true_iff s m]
      simp [List.cons_prefix_cons]
    · rw [if_neg hcb]
      simp [List.cons_prefix_cons, hcb]

end Names

variable {bytes : List UInt8}

/-- A loop over commands stays inside when every body does, and every `cmdsize` is there. -/
theorem stays_forCommands_iff {σ : Type} {body : ℕ → σ → Except Fault σ} {B : ℕ → Prop}
    (hbody : ∀ p s, Stays (body p s) ↔ B p) :
    ∀ (n p : ℕ) (s : σ), Stays (forCommands bytes body n p s)
      ↔ ∀ q ∈ commandOffsets bytes n p, q + 8 ≤ bytes.length ∧ B q
  | 0, p, s => by simp [Stays, forCommands, commandOffsets]
  | n + 1, p, s => by
    rw [forCommands, commandOffsets, List.forall_mem_cons]
    by_cases hp : bytes.length < p + 8
    · rw [if_pos hp]
      exact iff_of_false (not_stays_error _) fun h => absurd h.1.1 (not_le.2 hp)
    · rw [if_neg hp, and_iff_right (not_lt.1 hp), ← hbody p s]
      rcases body p s with e | s'
      · simp [Stays]
      · rw [and_iff_right ⟨s', rfl⟩]
        exact stays_forCommands_iff hbody n _ s'

theorem stays_pushSegment_iff (p : ℕ) (result : List SegmentInfo) :
    Stays (pushSegment bytes p result)
      ↔ (isSegment bytes p = true → p + 40 ≤ bytes.length) := by
  unfold pushSegment
  by_cases hseg : isSegment bytes p = true
  · by_cases hp : bytes.length < p + 40
    · rw [if_pos hseg, if_pos hp]
      simp [Stays, hseg, hp]
    · rw [if_pos hseg, if_neg hp]
      simp [Stays, not_lt.1 hp]
  · rw [if_neg hseg]
    simp [Stays, hseg]

def unwindInfoName : List UInt8 := ascii "__unwind_info" ++ [0]

/-- The comparison with the name ends inside the bytes, and so does the address if they are the
same. -/
structure SectionInside (bytes : List UInt8) (q : ℕ) : Prop where
  name : ¬ ((bytes.drop q).length < unwindInfoName.length ∧ bytes.drop q <+: unwindInfoName)
  addr : unwindInfoName <+: bytes.drop q → q + 40 ≤ bytes.length

theorem stays_searchSections_iff :
    ∀ (n q : ℕ) (a : UInt64), Stays (searchSections bytes n q a)
      ↔ ∀ j < n, SectionInside bytes (q + j * sectionSize)
  | 0, q, a => by simp [Stays, searchSections]
  | n + 1, q, a => by
    have hrest := fun a => stays_searchSections_iff n (q + sectionSize) a
    have hsplit : (∀ j < n + 1, SectionInside bytes (q + j * sectionSize))
        ↔ SectionInside bytes q
          ∧ ∀ j < n, SectionInside bytes (q + sectionSize + j * sectionSize) := by
      rw [Nat.forall_lt_succ_left]
      simp only [Nat.zero_mul, Nat.add_zero, Nat.succ_mul, Nat.add_assoc, Nat.add_comm sectionSize]
    have hname := stays_startsWith_iff unwindInfoName (bytes.drop q)
    have htrue := startsWith_eq_true_iff unwindInfoName (bytes.drop q)
    rw [hsplit, searchSections, namedAt, ← unwindInfoName]
    rcases hfound : startsWith unwindInfoName (bytes.drop q) with e | _ | _
    · simp only
      refine iff_of_false (not_stays_error _) fun h => ?_
      have hstays := hname.2 h.1.name
      rw [hfound] at hstays
      exact not_stays_error e hstays
    · simp only
      rw [hrest, and_iff_right]
      refine ⟨hname.1 ⟨_, hfound⟩, fun h => ?_⟩
      rw [← htrue, hfound] at h
      cases h
    · simp only
      by_cases hq : bytes.length < q + 40
      · rw [if_pos hq]
        exact iff_of_false (not_stays_error _) fun h =>
          absurd (h.1.addr (htrue.1 hfound)) (not_le.2 hq)
      · rw [if_neg hq, hrest, and_iff_right]
        exact ⟨hname.1 ⟨_, hfound⟩, fun _ => not_lt.1 hq⟩

/-- A segment has all that is read of it, its sections included. -/
def SegmentInside (bytes : List UInt8) (p : ℕ) : Prop :=
  isSegment bytes p = true →
    p + 68 ≤ bytes.length ∧ ∀ q ∈ sectionOffsets bytes p, SectionInside bytes q

theorem stays_searchCommand_iff (p : ℕ) (s : UnwindSearch) :
    Stays (searchCommand bytes p s) ↔ SegmentInside bytes p := by
  have hsections : (∀ q ∈ sectionOffsets bytes p, SectionInside bytes q)
      ↔ ∀ j < nsectsAt bytes p, SectionInside bytes (p + 72 + j * sectionSize) := by
    simp [sectionOffsets]
  unfold searchCommand SegmentInside
  by_cases hseg : isSegment bytes p = true
  · rw [if_pos hseg, imp_iff_right hseg]
    by_cases hp : bytes.length < p + 68
    · rw [if_pos hp]
      simp [Stays, hp]
    · rw [if_neg hp, and_iff_right (not_lt.1 hp), hsections]
      refine Iff.trans ?_ (stays_searchSections_iff (nsectsAt bytes p) (p + 72)
        (if isTextCommand bytes p then
          { s with textVmAddr := (segmentCommandAt bytes p).vmaddr, foundText := true }
        else s).unwindInfoAddr)
      simp only [nsectsAt]
      split
      · rename_i e he
        simp [Stays, he]
      · rename_i a ha
        simp [Stays, ha]
  · rw [if_neg hseg]
    simp [Stays, hseg]

theorem stays_findUUID_iff :
    ∀ (n p : ℕ), (∀ q ∈ commandOffsets bytes n p, q + 8 ≤ bytes.length) →
      (Stays (findUUID bytes n p)
        ↔ ∀ q, (commandOffsets bytes n p).find? (isUUID bytes) = some q → q + 24 ≤ bytes.length)
  | 0, p, _ => by simp [Stays, findUUID, commandOffsets]
  | n + 1, p, h => by
    obtain ⟨hp, hrest⟩ := List.forall_mem_cons.1 h
    rw [findUUID, if_neg (by omega), commandOffsets]
    by_cases huuid : isUUID bytes p = true
    · rw [if_pos huuid, List.find?_cons_of_pos huuid]
      by_cases hend : bytes.length < p + 24
      · rw [if_pos hend]
        simp [Stays, hend]
      · rw [if_neg hend]
        simp [Stays, not_lt.1 hend]
    · rw [if_neg huuid, if_neg (by omega), List.find?_cons_of_neg huuid]
      exact stays_findUUID_iff n _ hrest

theorem stays_preferredTextAddress :
    ∀ (n p : ℕ), (∀ q ∈ commandOffsets bytes n p, q + 8 ≤ bytes.length
        ∧ (isSegment bytes q = true → q + 68 ≤ bytes.length)) →
      Stays (preferredTextAddress bytes n p)
  | 0, p, _ => ⟨0, rfl⟩
  | n + 1, p, h => by
    obtain ⟨⟨hp, hsegment⟩, hrest⟩ := List.forall_mem_cons.1 h
    have hnext := stays_preferredTextAddress n _ hrest
    rw [preferredTextAddress, if_neg (by omega)]
    by_cases hseg : isSegment bytes p = true
    · have hsize := hsegment hseg
      rw [isSegment_iff] at hseg
      have hname : startsWith (ascii "__TEXT" ++ [0]) (bytes.drop (p + 8))
          = .ok (decide (cstr (bytes.drop (p + 8)) = ascii "__TEXT")) :=
        startsWith_eq _ _ (by decide) (by
          rw [List.length_drop]
          simp only [show (ascii "__TEXT").length = 6 from rfl]
          omega)
      simp only [if_pos hseg, hname]
      cases decide (cstr (bytes.drop (p + 8)) = ascii "__TEXT") with
      | true =>
        simp only
        rw [if_neg (by omega)]
        exact ⟨_, rfl⟩
      | false =>
        simp only
        rwa [if_neg (by omega)]
    · rw [isSegment_iff] at hseg
      simp only [if_neg hseg]
      rwa [if_neg (by omega)]

namespace ModuleInfo

/-- What the counts and the sizes in the bytes have to be. -/
structure InBounds (mi : ModuleInfo) : Prop where
  command : ∀ p ∈ mi.commands, p + 8 ≤ mi.headerAndLoadCommandBytes.length
  segment : ∀ p ∈ mi.commands, SegmentInside mi.headerAndLoadCommandBytes p
  uuid : ∀ p, mi.commands.find? (isUUID mi.headerAndLoadCommandBytes) = some p →
    p + 24 ≤ mi.headerAndLoadCommandBytes.length

/-- All four walks stay inside the bytes of the module. -/
structure WalksInside (mi : ModuleInfo) : Prop where
  segments : Stays (getSegmentsOfModule mi.headerAndLoadCommandBytes)
  uuid : Stays (getUUIDOfModule mi.headerAndLoadCommandBytes)
  text : Stays (getPreferredTextAddress mi)
  unwindInfo : Stays mi.searchUnwindInfo

end ModuleInfo

/-- The walks stay inside the bytes exactly when the counts and the sizes in them say so. -/
theorem walks_inBounds_iff (mi : ModuleInfo) : mi.WalksInside ↔ mi.InBounds := by
  have hsearch : Stays mi.searchUnwindInfo ↔ _ :=
    stays_forCommands_iff stays_searchCommand_iff (ncmdsOf mi.headerAndLoadCommandBytes) 32
      { unwindInfoAddr := 0, textVmAddr := 0, foundText := false }
  have hsegments : Stays (getSegmentsOfModule mi.headerAndLoadCommandBytes) ↔ _ :=
    stays_forCommands_iff stays_pushSegment_iff (ncmdsOf mi.headerAndLoadCommandBytes) 32 []
  have huuid := @stays_findUUID_iff mi.headerAndLoadCommandBytes
    (ncmdsOf mi.headerAndLoadCommandBytes) 32
  constructor
  · intro h
    have hcommands := hsearch.1 h.unwindInfo
    exact ⟨fun p hp => (hcommands p hp).1, fun p hp => (hcommands p hp).2,
      (huuid fun p hp => (hcommands p hp).1).1 h.uuid⟩
  · intro h
    refine ⟨hsegments.2 fun p hp => ⟨h.command p hp, fun hseg => ?_⟩, (huuid h.command).2 h.uuid,
      stays_preferredTextAddress _ _ fun p hp => ⟨h.command p hp, fun hseg => ?_⟩,
      hsearch.2 fun p hp => ⟨h.command p hp, h.segment p hp⟩⟩
    · have hsize := (h.segment p hp hseg).1
      omega
    · exact (h.segment p hp hseg).1

/-- A header that counts a command, and has no room for one. -/
def bareHeader : ModuleInfo where
  loadAddress := 0x1000
  uuid := Vector.replicate 16 0
  filePath := []
  segments := []
  executing := false
  headerAndLoadCommandBytes :=
    MachHeader64.bytes
      { magic := MH_MAGIC_64, cputype := 0, cpusubtype := 0, filetype := 6, ncmds := 1
        sizeofcmds := 0, flags := 0, reserved := 0 }
  noNul := zero_notMem_nil
  segmentCount := by simp
  hasHeader := by simp

/-- As many bytes as the header says, and every walk leaves them. -/
theorem walks_bareHeader :
    bareHeader.headerAndLoadCommandBytes.length
        = 32 + (MachHeader64.decode bareHeader.headerAndLoadCommandBytes).sizeofcmds.toNat
      ∧ getSegmentsOfModule bareHeader.headerAndLoadCommandBytes = .error .overread
      ∧ getUUIDOfModule bareHeader.headerAndLoadCommandBytes = .error .overread
      ∧ getPreferredTextAddress bareHeader = .error .overread
      ∧ bareHeader.searchUnwindInfo = .error .overread
      ∧ ¬ bareHeader.WalksInside := by
  have hsegments : getSegmentsOfModule bareHeader.headerAndLoadCommandBytes = .error .overread := by
    decide +kernel
  refine ⟨by decide +kernel, hsegments, by decide +kernel, by decide +kernel, by decide +kernel, ?_⟩
  intro h
  obtain ⟨segments, hstays⟩ := h.segments
  rw [hsegments] at hstays
  cases hstays

end MacMiniDump
