import MacMiniDump.Builder

/-!
# Packed thread states

`ThreadStatesPacked` nests each state before the rest of them, around an empty struct, and
`AddThreadCommand` takes 8 bytes off the size for what the empty one adds. It adds as much as the
alignment of all the states leaves room for (`threadStatesPacked_eq`), so 8 is right for some lists
of types, and wrong for the others (`addThreadCommand_packs_iff`).
-/

namespace MacMiniDump

open MachOCoreDumpBuilder

theorem padTo_of_dvd {align : ℕ} {l : List UInt8} (h : align ∣ l.length) : padTo align l = l := by
  have hm : l.length % align = 0 := Nat.mod_eq_zero_of_dvd h
  simp [padTo, hm]

theorem padTo_append_zeros (align k : ℕ) (l : List UInt8) :
    padTo align (l ++ List.replicate k 0)
      = l ++ List.replicate (k + (align - (l.length + k) % align) % align) 0 := by
  rw [padTo, List.length_append, List.length_replicate, List.append_assoc,
    List.replicate_append_replicate]

/-- The alignment is 4 or 8, and the size a multiple of it. -/
structure ThreadState.Whole (s : ThreadState) : Prop where
  align : s.align = 4 ∨ s.align = 8
  dvd : s.align ∣ s.bytes.length

theorem ThreadState.Whole.four_dvd {s : ThreadState} (h : s.Whole) : 4 ∣ s.bytes.length := by
  refine Dvd.dvd.trans ?_ h.dvd
  rcases h.align with h | h
  · rw [h]
  · rw [h]
    exact Dvd.intro 2 rfl

/-- The size of the states by themselves. -/
def statesSize (states : List ThreadState) : ℕ := (states.flatMap (·.bytes)).length

section Packed

variable {states : List ThreadState}

theorem packedAlign_cases :
    ∀ {states : List ThreadState}, (∀ s ∈ states, s.Whole) →
      (packedAlign states = 1 ∧ states = [])
        ∨ (packedAlign states = 4 ∧ states ≠ [] ∧ ∀ s ∈ states, s.align = 4)
        ∨ (packedAlign states = 8 ∧ ∃ s ∈ states, s.align = 8)
  | [], _ => .inl ⟨rfl, rfl⟩
  | s :: rest, h => by
    obtain ⟨hs, hrest⟩ := List.forall_mem_cons.1 h
    refine .inr ?_
    rw [packedAlign]
    rcases hs.align with hal | hal
    · rcases packedAlign_cases hrest with ⟨hr, rfl⟩ | ⟨hr, -, hall⟩ | ⟨hr, t, ht, ht8⟩
      · exact .inl ⟨by rw [hal, hr]; rfl, List.cons_ne_nil _ _, by simpa using hal⟩
      · exact .inl ⟨by rw [hal, hr]; rfl, List.cons_ne_nil _ _, List.forall_mem_cons.2 ⟨hal, hall⟩⟩
      · exact .inr ⟨by rw [hal, hr]; rfl, t, List.mem_cons_of_mem _ ht, ht8⟩
    · refine .inr ⟨?_, s, List.mem_cons_self, hal⟩
      rw [hal]
      rcases packedAlign_cases hrest with ⟨hr, -⟩ | ⟨hr, -⟩ | ⟨hr, -⟩ <;> rw [hr] <;> rfl

theorem four_dvd_statesSize (h : ∀ s ∈ states, s.Whole) : 4 ∣ statesSize states := by
  rw [statesSize, List.length_flatMap]
  refine List.dvd_sum fun n hn => ?_
  obtain ⟨s, hs, rfl⟩ := List.mem_map.1 hn
  exact (h s hs).four_dvd

/-- No state is padded for the sake of one behind it. -/
def Unpadded (states : List ThreadState) : Prop :=
  states.Pairwise fun s t => t.align = 8 → 8 ∣ s.bytes.length

theorem packedAlign_dvd_iff {s : ThreadState} (hs : s.Whole) (h : ∀ t ∈ states, t.Whole) :
    packedAlign states ∣ s.bytes.length ↔ ∀ t ∈ states, t.align = 8 → 8 ∣ s.bytes.length := by
  rcases packedAlign_cases h with ⟨hal, rfl⟩ | ⟨hal, -, hall⟩ | ⟨hal, t, ht, ht8⟩
  · rw [hal]
    simp
  · rw [hal]
    refine iff_of_true hs.four_dvd fun t ht ht8 => ?_
    rw [hall t ht] at ht8
    cases ht8
  · rw [hal]
    exact ⟨fun hdvd _ _ _ => hdvd, fun hall => hall t ht ht8⟩

theorem packedAlign_cons_cases {s : ThreadState} (hs : s.Whole) (h : ∀ t ∈ states, t.Whole) :
    (packedAlign states = 1 ∧ statesSize states = 0 ∨ packedAlign states = 4)
        ∧ packedAlign (s :: states) = 4
      ∨ (packedAlign states = 1 ∧ statesSize states = 0 ∨ packedAlign states = 4
        ∨ packedAlign states = 8) ∧ packedAlign (s :: states) = 8 := by
  rw [packedAlign]
  rcases packedAlign_cases h with ⟨hr, rfl⟩ | ⟨hr, -⟩ | ⟨hr, -⟩ <;> rcases hs.align with ha | ha <;>
    simp [hr, ha, statesSize]

/-- What the rest is followed by, and what is added behind it. -/
theorem tail_size {n m a a' : ℕ} (hm : 4 ∣ m) (hn : a' ∣ n)
    (ha : (a = 1 ∧ m = 0 ∨ a = 4) ∧ a' = 4 ∨ (a = 1 ∧ m = 0 ∨ a = 4 ∨ a = 8) ∧ a' = 8) :
    a - m % a + (a' - (n + m + (a - m % a)) % a') % a' = a' - (n + m) % a' := by
  rcases ha with ⟨⟨rfl, rfl⟩ | rfl, rfl⟩ | ⟨⟨rfl, rfl⟩ | rfl | rfl, rfl⟩ <;> omega

/-- The states one behind another, and as many bytes as are left up to their alignment, or as it
takes if none are. -/
theorem threadStatesPacked_eq :
    ∀ {states : List ThreadState}, (∀ s ∈ states, s.Whole) → Unpadded states →
      threadStatesPacked states = states.flatMap (·.bytes)
        ++ List.replicate (packedAlign states - statesSize states % packedAlign states) 0
  | [], _, _ => rfl
  | s :: rest, h, hu => by
    obtain ⟨hs, hrest⟩ := List.forall_mem_cons.1 h
    obtain ⟨hfirst, hu⟩ := List.pairwise_cons.1 hu
    have hdvd : packedAlign rest ∣ s.bytes.length := (packedAlign_dvd_iff hs hrest).2 hfirst
    have hsize : statesSize (s :: rest) = s.bytes.length + statesSize rest := by
      rw [statesSize, statesSize, List.flatMap_cons, List.length_append]
    have h4 := four_dvd_statesSize hrest
    have hwhole : packedAlign (s :: rest) ∣ s.bytes.length := by
      rw [packedAlign]
      rcases max_choice s.align (packedAlign rest) with hmax | hmax
      · rw [hmax]
        exact hs.dvd
      · rw [hmax]
        exact hdvd
    rw [threadStatesPacked, padTo_of_dvd hdvd, threadStatesPacked_eq hrest hu, ← List.append_assoc,
      padTo_append_zeros, List.flatMap_cons, List.length_append, ← statesSize, hsize]
    congr 2
    exact tail_size h4 hwhole (packedAlign_cons_cases hs hrest)

theorem statesSize_le :
    ∀ states : List ThreadState, statesSize states ≤ (threadStatesPacked states).length
  | [] => Nat.zero_le _
  | s :: rest => by
    have hrest := statesSize_le rest
    rw [statesSize, List.flatMap_cons, List.length_append, ← statesSize, threadStatesPacked]
    simp only [padTo, List.length_append]
    omega

/-- When the states come first, and none of their bytes is zero, there is no padding before one. -/
theorem unpadded_of_prefix :
    ∀ {states : List ThreadState}, (∀ s ∈ states, s.Whole) →
      (∀ s ∈ states, s.bytes ≠ [] ∧ 0 ∉ s.bytes) →
      states.flatMap (·.bytes) <+: threadStatesPacked states → Unpadded states
  | [], _, _, _ => List.Pairwise.nil
  | s :: rest, h, hne, hpre => by
    obtain ⟨hs, hrest⟩ := List.forall_mem_cons.1 h
    obtain ⟨-, hne⟩ := List.forall_mem_cons.1 hne
    obtain ⟨k, hk⟩ : ∃ k, k = (packedAlign rest - s.bytes.length % packedAlign rest)
      % packedAlign rest := ⟨_, rfl⟩
    rw [threadStatesPacked, padTo, padTo, ← hk, List.flatMap_cons, List.append_assoc,
      List.append_assoc, List.prefix_append_right_inj] at hpre
    rcases k with _ | k
    · have hpack : rest.flatMap (·.bytes) <+: threadStatesPacked rest :=
        List.prefix_of_prefix_length_le hpre (List.prefix_append _ _) (statesSize_le rest)
      refine List.pairwise_cons.2 ⟨(packedAlign_dvd_iff hs hrest).1 ?_,
        unpadded_of_prefix hrest hne hpack⟩
      have h4 := hs.four_dvd
      rcases packedAlign_cases hrest with ⟨hr, -⟩ | ⟨hr, -⟩ | ⟨hr, -⟩ <;> rw [hr] at hk ⊢ <;> omega
    · rcases rest with _ | ⟨t, rest⟩
      · rw [packedAlign, Nat.mod_one] at hk
        cases hk
      · obtain ⟨htne, ht⟩ := hne t List.mem_cons_self
        obtain ⟨x, l, hx⟩ := List.exists_cons_of_ne_nil htne
        rw [List.flatMap_cons, hx, List.replicate_succ, List.cons_append, List.cons_append,
          List.cons_prefix_cons] at hpre
        rw [hx, hpre.1] at ht
        exact absurd List.mem_cons_self ht

theorem dvd_length_padTo {align : ℕ} (h : 0 < align) (l : List UInt8) :
    align ∣ (padTo align l).length := by
  have hlt := Nat.mod_lt l.length h
  rw [padTo, List.length_append, List.length_replicate, Nat.dvd_iff_mod_eq_zero, Nat.add_mod,
    Nat.mod_mod]
  rcases Nat.eq_zero_or_pos (l.length % align) with hz | hpos
  · simp [hz]
  · rw [Nat.mod_eq_of_lt (a := align - l.length % align) (by omega), Nat.add_sub_cancel' hlt.le,
      Nat.mod_self]

theorem threadCommand_of_ne_nil (h : ∀ s ∈ states, s.Whole) (hn : states ≠ []) :
    threadCommandSize states = 8 + (threadStatesPacked states).length
      ∧ threadCommandStates states
        = (threadStatesPacked states).take ((threadStatesPacked states).length - 8) := by
  have hal : packedAlign states = 4 ∨ packedAlign states = 8 := by
    rcases packedAlign_cases h with ⟨-, hnil⟩ | ⟨hr, -⟩ | ⟨hr, -⟩
    · exact absurd hnil hn
    · exact .inl hr
    · exact .inr hr
  have hmax : max 4 (packedAlign states) = packedAlign states := by omega
  have height : packedAlign states ∣ 8 := by
    rcases hal with hal | hal <;> rw [hal]
    exact Dvd.intro 2 rfl
  have hpacked : packedAlign states ∣ (threadStatesPacked states).length := by
    obtain ⟨s, rest, rfl⟩ := List.exists_cons_of_ne_nil hn
    rw [threadStatesPacked]
    exact dvd_length_padTo (by omega) _
  have hraw : padTo (max 4 (packedAlign states)) (padTo (packedAlign states) (List.replicate 8 0)
      ++ threadStatesPacked states) = List.replicate 8 0 ++ threadStatesPacked states := by
    rw [hmax, padTo_of_dvd (l := List.replicate 8 0) (by rwa [List.length_replicate])]
    refine padTo_of_dvd ?_
    rw [List.length_append, List.length_replicate]
    exact dvd_add height hpacked
  have hsize : threadCommandSize states = 8 + (threadStatesPacked states).length := by
    rw [threadCommandSize, hraw, List.length_append, List.length_replicate]
  refine ⟨hsize, ?_⟩
  rw [threadCommandStates, hsize, hraw, Nat.add_sub_cancel_left, List.drop_take,
    List.drop_left' (List.length_replicate)]

/-- What is taken off is what the empty struct adds. -/
theorem threadCommand_of_unpadded (h : ∀ s ∈ states, s.Whole) (hu : Unpadded states)
    (hal : packedAlign states = 8) (hdvd : 8 ∣ statesSize states) :
    threadCommandSize states = 16 + statesSize states
      ∧ threadCommandStates states = states.flatMap (·.bytes) := by
  have hn : states ≠ [] := by
    rintro rfl
    cases hal
  have hpacked := threadStatesPacked_eq h hu
  rw [hal, Nat.mod_eq_zero_of_dvd hdvd, Nat.sub_zero] at hpacked
  have hlen : (threadStatesPacked states).length = statesSize states + 8 := by
    rw [hpacked, List.length_append, List.length_replicate, statesSize]
  obtain ⟨hsize, hstates⟩ := threadCommand_of_ne_nil h hn
  refine ⟨by omega, ?_⟩
  rw [hstates, hlen, Nat.add_sub_cancel, hpacked, statesSize, List.take_left]

/-- What goes in is a command of the size and the states of the list. -/
theorem addThreadCommand_of_ne_nil {b : MachOCoreDumpBuilder} (h : ∀ s ∈ states, s.Whole)
    (hn : states ≠ []) :
    (addThreadCommand states b).2.threadCmds = b.threadCmds ++ [
      { cmd := LC_THREAD, cmdsize := UInt32.ofNat (threadStatesPacked states).length
        states := (threadStatesPacked states).take ((threadStatesPacked states).length - 8) }] := by
  obtain ⟨hsize, hstates⟩ := threadCommand_of_ne_nil h hn
  rw [addThreadCommand, hsize, hstates, Nat.add_sub_cancel_left]

end Packed

/-- A type of thread states: its `sizeof` and its `alignof`. -/
structure StateType where
  size : ℕ
  align : ℕ
  pos : 0 < size
  aligned : align = 4 ∨ align = 8
  dvd : align ∣ size

/-- The states are values of the types. -/
def OfTypes (states : List ThreadState) (types : List StateType) : Prop :=
  states.map (fun s => (s.bytes.length, s.align)) = types.map fun t => (t.size, t.align)

def typesSize (types : List StateType) : ℕ := (types.map (·.size)).sum

theorem typesSize_cons (t : StateType) (types : List StateType) :
    typesSize (t :: types) = t.size + typesSize types := by
  rw [typesSize, List.map_cons, List.sum_cons, ← typesSize]

/-- A reader that steps by the size of each state: the states, and where it ends. -/
def readStates (bytes : List UInt8) : ℕ → List StateType → List (List UInt8) × ℕ
  | pos, [] => ([], pos)
  | pos, t :: types =>
    let rest := readStates bytes (pos + t.size) types
    (readAt bytes pos t.size :: rest.1, rest.2)

/-- The command is its header and the states, and a reader finds them again. -/
structure ThreadCommand.Packs (tc : ThreadCommand) (types : List StateType)
    (states : List ThreadState) : Prop where
  size : tc.cmdsize.toNat = 8 + typesSize types
  bytes : tc.bytes = le32 LC_THREAD ++ le32 tc.cmdsize ++ states.flatMap (·.bytes)
  read : readStates tc.bytes 8 types = (states.map (·.bytes), tc.cmdsize.toNat)

/-- Whatever the values, `AddThreadCommand` appends a command that packs them. -/
def PacksAll (types : List StateType) : Prop :=
  ∀ (b : MachOCoreDumpBuilder) (states : List ThreadState), OfTypes states types →
    ∃ tc, addThreadCommand states b = (true, { b with threadCmds := b.threadCmds ++ [tc] })
      ∧ tc.Packs types states

section Types

variable {states : List ThreadState} {types : List StateType}

theorem OfTypes.whole (h : OfTypes states types) : ∀ s ∈ states, s.Whole := by
  intro s hs
  have hmem : (s.bytes.length, s.align) ∈ types.map fun t => (t.size, t.align) :=
    h ▸ List.mem_map_of_mem hs
  obtain ⟨t, -, ht⟩ := List.mem_map.1 hmem
  obtain ⟨hsize, halign⟩ := Prod.mk.inj ht
  exact ⟨halign ▸ t.aligned, by rw [← hsize, ← halign]; exact t.dvd⟩

theorem OfTypes.statesSize_eq (h : OfTypes states types) : statesSize states = typesSize types := by
  have hfst := congrArg (fun l => (l.map Prod.fst).sum) h
  simp only [List.map_map, Function.comp_def] at hfst
  rw [statesSize, List.length_flatMap, typesSize, hfst]

theorem OfTypes.unpadded_iff (h : OfTypes states types) :
    Unpadded states ↔ types.Pairwise fun t t' => t'.align = 8 → 8 ∣ t.size := by
  have hstates := List.pairwise_map (R := fun a b : ℕ × ℕ => b.2 = 8 → 8 ∣ a.1)
    (f := fun s : ThreadState => (s.bytes.length, s.align)) (l := states)
  have htypes := List.pairwise_map (R := fun a b : ℕ × ℕ => b.2 = 8 → 8 ∣ a.1)
    (f := fun t : StateType => (t.size, t.align)) (l := types)
  rw [← h] at htypes
  exact hstates.symm.trans htypes

theorem OfTypes.packedAlign_iff (h : OfTypes states types) :
    packedAlign states = 8 ↔ ∃ t ∈ types, t.align = 8 := by
  have hstates : (∃ s ∈ states, s.align = 8) ↔ ∃ t ∈ types, t.align = 8 := by
    have hsnd : states.map (·.align) = types.map (·.align) := by
      simpa only [List.map_map, Function.comp_def] using congrArg (List.map Prod.snd) h
    have hmem : 8 ∈ states.map (·.align) ↔ 8 ∈ types.map (·.align) := by rw [hsnd]
    simpa only [List.mem_map] using hmem
  rw [← hstates]
  rcases packedAlign_cases h.whole with ⟨hr, rfl⟩ | ⟨hr, -, hall⟩ | ⟨hr, hex⟩
  · simp [hr]
  · rw [hr]
    refine iff_of_false (by decide) ?_
    rintro ⟨s, hs, h8⟩
    rw [hall s hs] at h8
    cases h8
  · exact iff_of_true hr hex

theorem OfTypes.readStates_append :
    ∀ {states : List ThreadState} {types : List StateType}, OfTypes states types →
      ∀ front : List UInt8, readStates (front ++ states.flatMap (·.bytes)) front.length types
        = (states.map (·.bytes), front.length + typesSize types)
  | [], [], _, _ => rfl
  | [], _ :: _, h, _ => by cases h
  | _ :: _, [], h, _ => by cases h
  | s :: states, t :: types, h, front => by
    obtain ⟨hs, hrest⟩ := List.cons.inj h
    obtain ⟨hsize, -⟩ := Prod.mk.inj hs
    have ih := OfTypes.readStates_append hrest (front ++ s.bytes)
    rw [List.length_append, List.append_assoc, ← List.flatMap_cons, hsize] at ih
    have hread : readAt (front ++ (s :: states).flatMap (·.bytes)) front.length t.size
        = s.bytes := by
      rw [readAt, List.drop_left, List.flatMap_cons, ← hsize, List.take_left]
    rw [readStates, ih, hread, typesSize_cons, List.map_cons, Nat.add_assoc]

/-- The states of the types of which every byte is one. -/
def onesOf (types : List StateType) : List ThreadState :=
  types.map fun t => ⟨List.replicate t.size 1, t.align⟩

theorem ofTypes_onesOf (types : List StateType) : OfTypes (onesOf types) types := by
  simp [OfTypes, onesOf, Function.comp_def]

theorem nonzero_onesOf (types : List StateType) :
    ∀ s ∈ onesOf types, s.bytes ≠ [] ∧ 0 ∉ s.bytes := by
  intro s hs
  obtain ⟨t, -, rfl⟩ := List.mem_map.1 hs
  refine ⟨?_, fun h => ?_⟩
  · rw [ne_eq, List.replicate_eq_nil_iff]
    exact t.pos.ne'
  · cases List.eq_of_mem_replicate h

end Types

/-- The states are packed, whatever their values, exactly when their types take 8 bytes for the
empty struct and none for padding, and the size fits the field. -/
theorem addThreadCommand_packs_iff (types : List StateType) :
    PacksAll types
      ↔ (∃ t ∈ types, t.align = 8) ∧ types.Pairwise (fun t t' => t'.align = 8 → 8 ∣ t.size)
        ∧ 8 ∣ typesSize types ∧ 8 + typesSize types < 2 ^ 32 := by
  constructor
  · intro hall
    have htypes := ofTypes_onesOf types
    have hwhole := htypes.whole
    obtain ⟨tc, hadd, hpacks⟩ := hall (new .arm64) (onesOf types) htypes
    have hn : onesOf types ≠ [] := by
      rintro hnil
      obtain rfl : types = [] := List.map_eq_nil_iff.1 hnil
      obtain rfl := List.singleton_inj.1 (congrArg (fun r => r.2.threadCmds) hadd)
      cases hpacks.size
    have htc := (addThreadCommand_of_ne_nil (b := new .arm64) hwhole hn).symm.trans
      (congrArg (fun r => r.2.threadCmds) hadd)
    obtain rfl := List.singleton_inj.1 (List.append_cancel_left htc)
    have hbytes : (threadStatesPacked (onesOf types)).take
        ((threadStatesPacked (onesOf types)).length - 8) = (onesOf types).flatMap (·.bytes) :=
      List.append_cancel_left hpacks.bytes
    have hu := unpadded_of_prefix hwhole (nonzero_onesOf types)
      (hbytes ▸ List.take_prefix _ _)
    have hlen := congrArg List.length hbytes
    have hsize := hpacks.size
    have hpacked := congrArg List.length (threadStatesPacked_eq hwhole hu)
    rw [List.length_append, List.length_replicate, ← statesSize, htypes.statesSize_eq] at hpacked
    rw [List.length_take, ← statesSize, htypes.statesSize_eq] at hlen
    simp only [UInt32.toNat_ofNat'] at hsize
    have height : packedAlign (onesOf types) - typesSize types % packedAlign (onesOf types)
        = 8 := by
      omega
    have hal : packedAlign (onesOf types) = 8 := by
      rcases packedAlign_cases hwhole with ⟨hr, -⟩ | ⟨hr, -⟩ | ⟨hr, -⟩ <;>
        rw [hr] at height ⊢ <;> omega
    rw [hal] at height
    exact ⟨htypes.packedAlign_iff.1 hal, htypes.unpadded_iff.1 hu, by omega, by omega⟩
  · rintro ⟨hal, hu, hdvd, hlt⟩ b states htypes
    have hwhole := htypes.whole
    obtain ⟨hsize, hstates⟩ := threadCommand_of_unpadded hwhole (htypes.unpadded_iff.2 hu)
      (htypes.packedAlign_iff.2 hal) (htypes.statesSize_eq ▸ hdvd)
    rw [htypes.statesSize_eq] at hsize
    have hcmdsize : (UInt32.ofNat (threadCommandSize states - 8)).toNat = 8 + typesSize types := by
      rw [hsize, UInt32.toNat_ofNat']
      omega
    have hbytes : ∀ c : UInt32, (le32 LC_THREAD ++ le32 c).length = 8 := by simp
    refine ⟨_, rfl, hcmdsize, ?_, ?_⟩
    · rw [ThreadCommand.bytes, hstates]
    · have hread := htypes.readStates_append
        (le32 LC_THREAD ++ le32 (UInt32.ofNat (threadCommandSize states - 8)))
      rw [hbytes] at hread
      rw [hcmdsize, ThreadCommand.bytes, hstates, hread]

/-- A state of a single word: of what is taken off, half is the state. -/
theorem not_packsAll_word :
    (addThreadCommand [⟨[1, 2, 3, 4], 4⟩] (new .arm64)).2.threadCmds = [⟨LC_THREAD, 8, []⟩]
      ∧ ¬ PacksAll [⟨4, 4, by decide, .inl rfl, dvd_refl 4⟩] := by
  refine ⟨rfl, fun h => ?_⟩
  obtain ⟨tc, hadd, hpacks⟩ := h (new .arm64) [⟨[1, 2, 3, 4], 4⟩] rfl
  obtain rfl := List.singleton_inj.1 (congrArg (fun r => r.2.threadCmds) hadd)
  cases hpacks.size

end MacMiniDump
