import MacMiniDump.Lib.Wraparound
import MacMiniDump.Defined
import MacMiniDump.Extents
import MacMiniDump.OffsetQueries

/-!
# Who shares payload space

An offset is looked up by an owner's name or by an address, and the first command that compares
equal decides, so payloads of one key go to one place; a name of 16 characters runs on into the
offset stored behind it, by which `strcmp` may still tell two of them apart. Otherwise the payloads
are laid out one after another, and share nothing as long as they do not come around
(`build_apart_iff`).
-/

namespace MacMiniDump

open MachOCoreDumpBuilder

/-- The name of the note as `strcmp` reads it. -/
def Note.seen (n : Note) : List UInt8 := cstr n.cmd.ownerMemory

theorem Note.seen_of_lt (n : Note) (h : n.cmd.dataOwner.chars.length < 16) :
    n.seen = n.cmd.dataOwner.chars :=
  NoteCommand.cstr_ownerMemory_of_lt h

/-- A name of 16 characters runs on into the offset. -/
theorem Note.seen_of_full (n : Note) (h : n.cmd.dataOwner.chars.length = 16) :
    n.seen = n.cmd.dataOwner.chars ++ cstr (le64 n.cmd.offset ++ le64 n.cmd.size) := by
  rw [Note.seen, NoteCommand.ownerMemory, OwnerName.field, h, Nat.sub_self, List.replicate_zero,
    List.append_nil, cstr_append_of_zero_notMem n.cmd.dataOwner.noNul]

theorem Note.dataOwner_of_seen (n m : Note) (h : n.seen = m.seen) :
    n.cmd.dataOwner = m.cmd.dataOwner :=
  NoteCommand.dataOwner_of_cstr_eq h

namespace MachOCoreDumpBuilder

/-- No note, once its offset is stored, compares equal to a later one, whether the offset of that
one is stored yet or not. -/
def OwnersTold (b : MachOCoreDumpBuilder) : Prop :=
  ∀ (i k : ℕ) (n m : Note), i < k → b.noteCmds[i]? = some n → b.noteCmds[k]? = some m →
    (n.withOffset (b.noteOffset i)).seen ≠ (m.withOffset 0).seen
      ∧ (n.withOffset (b.noteOffset i)).seen ≠ (m.withOffset (b.noteOffset k)).seen

def noteSizes (b : MachOCoreDumpBuilder) : List UInt64 := b.noteCmds.map (·.cmd.size)

def segmentSizes (b : MachOCoreDumpBuilder) : List UInt64 := b.segmentCmds.map (·.cmd.filesize)

/-- Where the payloads of the notes and of the segments start, as numbers. -/
def notesFrom (b : MachOCoreDumpBuilder) : ℕ := b.firstPayloadOffset.toNat

def segmentsFrom (b : MachOCoreDumpBuilder) : ℕ :=
  alignUp (b.notesFrom + total b.noteSizes) 0x1000

/-- The payloads and the gap between them do not come around to where the first one starts. -/
def Roomy (b : MachOCoreDumpBuilder) : Prop :=
  total b.noteSizes ≤ 2 ^ 64 ∧ (b.segmentSizes ≠ [] →
    b.segmentsFrom + total b.segmentSizes ≤ b.notesFrom + 2 ^ 64)

end MachOCoreDumpBuilder

/-- `idxOf` is the first place of all. -/
theorem idxOf_first {α : Type*} [BEq α] [LawfulBEq α] {l : List α} {a : α} {i : ℕ}
    (h : l[i]? = some a) :
    l.idxOf a ≤ i ∧ l[l.idxOf a]? = some a ∧ ∀ j < l.idxOf a, l[j]? ≠ some a := by
  obtain ⟨hi, hget⟩ := List.getElem?_eq_some_iff.1 h
  have hlt : l.idxOf a < l.length := List.idxOf_lt_length_of_mem (hget ▸ List.getElem_mem hi)
  have hne : ∀ j < l.idxOf a, l[j]? ≠ some a := by
    intro j hj heq
    obtain ⟨hjl, hja⟩ := List.getElem?_eq_some_iff.1 heq
    have hfalse : (l[j] == a) = false := List.not_of_lt_findIdx hj
    simp [hja] at hfalse
  refine ⟨?_, ?_, hne⟩
  · by_contra hgt
    exact hne i (not_le.1 hgt) h
  · rw [List.getElem?_eq_getElem hlt, List.getElem_idxOf hlt]

section Lookup

variable {debug : Bool} {r : Option UInt64}

theorem notePayloadOffset_idxOf {owner : List UInt8} :
    ∀ (notes : List Note) (start : UInt64), cstr owner ∈ notes.map Note.seen →
      notePayloadOffset debug owner start notes = .ok r →
      r = some (offsetAfter start
        ((notes.take ((notes.map Note.seen).idxOf (cstr owner))).map (·.cmd.size)))
  | [], _, hmem, _ => by simp at hmem
  | n :: notes, start, hmem, h => by
    rw [List.map_cons, List.idxOf_cons]
    by_cases heq : cstr owner = cstr n.cmd.ownerMemory
    · rw [notePayloadOffset, if_pos heq] at h
      simpa [heq, Note.seen] using h.symm
    · rw [notePayloadOffset, if_neg heq] at h
      split_ifs at h
      rw [List.map_cons, List.mem_cons] at hmem
      have hne : (n.seen == cstr owner) = false := beq_eq_false_iff_ne.2 (Ne.symm heq)
      rw [hne, cond_false, List.take_succ_cons, List.map_cons, offsetAfter_cons]
      exact notePayloadOffset_idxOf notes _ (hmem.resolve_left heq) h

theorem segmentPayloadOffset_idxOf {vmaddr : UInt64} :
    ∀ (segments : List Segment) (start : UInt64), vmaddr ∈ segments.map (·.cmd.vmaddr) →
      segmentPayloadOffset debug vmaddr start segments = .ok r →
      r = some (offsetAfter start
        ((segments.take ((segments.map (·.cmd.vmaddr)).idxOf vmaddr)).map (·.cmd.filesize)))
  | [], _, hmem, _ => by simp at hmem
  | s :: segments, start, hmem, h => by
    rw [List.map_cons, List.idxOf_cons]
    by_cases heq : vmaddr = s.cmd.vmaddr
    · rw [segmentPayloadOffset, if_pos heq] at h
      simpa [heq] using h.symm
    · rw [segmentPayloadOffset, if_neg heq] at h
      split_ifs at h
      rw [List.map_cons, List.mem_cons] at hmem
      have hne : (s.cmd.vmaddr == vmaddr) = false := by simpa using Ne.symm heq
      rw [hne, cond_false, List.take_succ_cons, List.map_cons, offsetAfter_cons]
      exact segmentPayloadOffset_idxOf segments _ (hmem.resolve_left heq) h

variable {c : MachOCoreDumpBuilder} {k : ℕ}

/-- The payload of a note goes to where that of the first note of its name goes. -/
theorem getOffset_idxOf (hf : c.loadCommandsFinalized = true) {n : Note}
    (hk : c.noteCmds[k]? = some n)
    (h : c.getOffsetForNoteCommandPayload debug n.cmd.ownerMemory = .ok r) :
    r = some (c.noteOffset ((c.noteCmds.map Note.seen).idxOf n.seen)) := by
  rw [getOffsetForNoteCommandPayload, if_pos hf] at h
  exact notePayloadOffset_idxOf _ _ (List.mem_map_of_mem (List.mem_of_getElem? hk)) h

/-- With names that differ, the segments start behind the last note. -/
theorem getSegmentOffset_idxOf (hf : c.loadCommandsFinalized = true)
    (hnames : (c.noteCmds.map Note.seen).Nodup) {s : Segment} (hk : c.segmentCmds[k]? = some s)
    (h : c.getOffsetForSegmentCommandPayload debug s.cmd.vmaddr = .ok r) :
    r = some (c.segmentOffset ((c.segmentCmds.map (·.cmd.vmaddr)).idxOf s.cmd.vmaddr)) := by
  rw [getOffsetForSegmentCommandPayload, if_pos hf] at h
  split at h
  · simp at h
  rename_i last hl
  split at h
  · simp at h
  rename_i lastOffset ho
  obtain ⟨init, hi⟩ := List.getLast?_eq_some_iff.1 hl
  have hlast : c.noteCmds[init.length]? = some last := by simp [hi]
  have hidx : (c.noteCmds.map Note.seen).idxOf last.seen = init.length := by
    have hlt : init.length < (c.noteCmds.map Note.seen).length := by simp [hi]
    have hget : (c.noteCmds.map Note.seen)[init.length] = last.seen := by simp [hi]
    rw [← hget]
    exact hnames.idxOf_getElem _ hlt
  have hend : lastOffset.getD 0 + last.cmd.size = c.noteOffset c.noteCmds.length :=
    calc lastOffset.getD 0 + last.cmd.size = c.noteOffset init.length + last.cmd.size := by
          rw [getOffset_idxOf hf hlast ho, hidx, Option.getD_some]
      _ = c.noteOffset c.noteCmds.length := by
          rw [noteOffset, noteOffset, hi, List.take_left, List.take_length, List.map_append,
            offsetAfter_append]
          rfl
  rw [hend] at h
  exact segmentPayloadOffset_idxOf _ _
    (List.mem_map_of_mem (f := fun s : Segment => s.cmd.vmaddr) (List.mem_of_getElem? hk)) h

end Lookup

section Storing

variable {σ : Type} [OStream σ] {debug : Bool} {b c : MachOCoreDumpBuilder}

/-- A note that is not placed yet and compares equal to one at some offset still does when it is
placed there as well. -/
theorem seen_withOffset_of_seen {n m : Note} {off : UInt64} (hn : n.cmd.offset = 0)
    (h : n.seen = (m.withOffset off).seen) : (n.withOffset off).seen = (m.withOffset off).seen := by
  have hchars : n.seen = n.cmd.dataOwner.chars := NoteCommand.cstr_ownerMemory hn
  rw [← h, hchars]
  have howner : n.cmd.dataOwner = m.cmd.dataOwner := n.dataOwner_of_seen (m.withOffset off) h
  rcases n.cmd.dataOwner.fits.lt_or_eq with hlt | heq
  · exact (n.withOffset off).seen_of_lt hlt
  -- what follows the 16 characters is the offset, whose first byte ends the other name
  have hmem : (m.withOffset off).seen = m.cmd.dataOwner.chars
      ++ cstr (le64 off ++ le64 m.cmd.size) :=
    (m.withOffset off).seen_of_full (howner ▸ heq)
  have hown : (n.withOffset off).seen = n.cmd.dataOwner.chars
      ++ cstr (le64 off ++ le64 n.cmd.size) :=
    (n.withOffset off).seen_of_full heq
  rw [← h, hchars, howner, List.self_eq_append_right] at hmem
  obtain ⟨x, rest, hx⟩ : ∃ x rest, le64 off = x :: rest :=
    List.exists_cons_of_length_pos (by simp)
  rw [hown, hx]
  rw [hx] at hmem
  have hzero : x = 0 := by
    by_contra hne
    simp [cstr, hne] at hmem
  simp [cstr, hzero]

/-- After the first `k` notes: where they have been put, and what their names compared equal to. -/
structure Storing (b : MachOCoreDumpBuilder) (k : ℕ) (c : MachOCoreDumpBuilder) : Prop where
  unplaced : c.unplaced = b.unplaced
  rest : ∀ i, k ≤ i → c.noteCmds[i]? = b.noteCmds[i]?
  stored : ∀ i < k, ∀ n, b.noteCmds[i]? = some n →
    ∃ j ≤ i, c.noteCmds[i]? = some (n.withOffset (b.noteOffset j))
      ∧ (j < i → ∃ m, c.noteCmds[j]? = some m ∧ n.seen = m.seen)
      ∧ ∀ j' < j, ∀ m, c.noteCmds[j']? = some m → n.seen ≠ m.seen

theorem Storing.step {k : ℕ} {st st' : BuildState σ} (hf : b.loadCommandsFinalized = true)
    (hs : Storing b k st.builder) (h : writeNoteCommand debug k st = .ok (true, st')) :
    Storing b (k + 1) st'.builder := by
  rcases hk : st.builder.noteCmds[k]? with _ | nc
  · rw [writeNoteCommand_of_none hk] at h
    simp only [Except.ok.injEq, Prod.mk.injEq, true_and] at h
    subst h
    refine ⟨hs.unplaced, fun i hi => hs.rest i (by omega), fun i hi n hn => ?_⟩
    rcases Nat.lt_succ_iff_lt_or_eq.1 hi with hlt | rfl
    · exact hs.stored i hlt n hn
    · rw [← hs.rest i le_rfl, hk] at hn
      simp at hn
  obtain ⟨found, ho, ⟨ranges, hb'⟩, -⟩ := writeNoteCommand_eq hk h
  have hfound := getOffset_idxOf ((eq_of_unplaced hs.unplaced).1.trans hf) hk ho
  rw [hfound, Option.getD_some, noteOffset_of_unplaced hs.unplaced] at hb'
  have hnotes : st'.builder.noteCmds = st.builder.noteCmds.modify k
      (·.withOffset (b.noteOffset ((st.builder.noteCmds.map Note.seen).idxOf nc.seen))) := by
    rw [hb']
    rfl
  have hsame : ∀ i, i ≠ k → st'.builder.noteCmds[i]? = st.builder.noteCmds[i]? := by
    intro i hi
    simp [hnotes, Ne.symm hi]
  refine ⟨?_, fun i hi => ?_, fun i hi n hn => ?_⟩
  · rw [hb']
    exact (unplaced_setNoteOffset _ _ _).trans hs.unplaced
  · rw [hsame i (by omega), hs.rest i (by omega)]
  rcases Nat.lt_succ_iff_lt_or_eq.1 hi with hik | rfl
  · obtain ⟨j, hj, hc, heq, hne⟩ := hs.stored i hik n hn
    refine ⟨j, hj, by rw [hsame i (by omega), hc], fun hji => ?_, fun j' hj' m hm => ?_⟩
    · rw [hsame j (by omega)]
      exact heq hji
    · rw [hsame j' (by omega)] at hm
      exact hne j' hj' m hm
  · obtain rfl : nc = n := by
      rw [← hs.rest i le_rfl, hk] at hn
      exact Option.some.inj hn
    have hname : (st.builder.noteCmds.map Note.seen)[i]? = some nc.seen := by
      rw [List.getElem?_map, hk, Option.map_some]
    obtain ⟨hle, hfirst, hne⟩ := idxOf_first hname
    refine ⟨_, hle, by simp [hnotes, hk], fun hji => ?_,
      fun j hj m hm heq => ?_⟩
    · rw [List.getElem?_map, Option.map_eq_some_iff] at hfirst
      obtain ⟨m, hm, hseen⟩ := hfirst
      exact ⟨m, by rw [hsame _ hji.ne, hm], hseen.symm⟩
    · rw [hsame j (by omega)] at hm
      exact hne j hj (by rw [List.getElem?_map, hm, Option.map_some, heq])

variable (hs : Storing b b.noteCmds.length c)

include hs

/-- When no note is put to where an earlier one is, each goes behind the one before it. -/
theorem Storing.placed (hno : ∀ (i j : ℕ) (n m : Note), j < i → b.noteCmds[i]? = some n →
      b.noteCmds[j]? = some m → c.noteCmds[j]? = some (m.withOffset (b.noteOffset j)) →
      c.noteCmds[i]? = some (n.withOffset (b.noteOffset j)) →
      n.seen ≠ (m.withOffset (b.noteOffset j)).seen) :
    ∀ (i : ℕ) (n : Note), b.noteCmds[i]? = some n →
      c.noteCmds[i]? = some (n.withOffset (b.noteOffset i))
        ∧ ∀ j < i, ∀ m, c.noteCmds[j]? = some m → n.seen ≠ m.seen := by
  intro i
  induction i using Nat.strong_induction_on with
  | _ i ih =>
    intro n hn
    have hi : i < b.noteCmds.length := (List.getElem?_eq_some_iff.1 hn).1
    obtain ⟨j, hj, hc, heq, hne⟩ := hs.stored i hi n hn
    rcases hj.lt_or_eq with hlt | rfl
    · obtain ⟨m, hm, hseen⟩ := heq hlt
      have hbj := List.getElem?_eq_getElem (hlt.trans hi)
      have hcj := (ih j hlt _ hbj).1
      rw [hm, Option.some.injEq] at hcj
      exact absurd (hcj ▸ hseen) (hno i j n _ hlt hn hbj (hcj ▸ hm) hc)
    · exact ⟨hc, hne⟩

theorem Storing.length : c.noteCmds.length = b.noteCmds.length :=
  length_notes_of_unplaced hs.unplaced

/-- The names that the payloads are looked up by differ exactly when the owners can be told
apart. -/
theorem Storing.nodup_iff (hz : ∀ n ∈ b.noteCmds, n.cmd.offset = 0) :
    (c.noteCmds.map Note.seen).Nodup ↔ b.OwnersTold := by
  have hunplaced : ∀ n ∈ b.noteCmds, n.withOffset 0 = n := by
    rintro ⟨⟨cmd, cmdsize, owner, offset, size⟩, p⟩ hn
    obtain rfl : offset = 0 := hz _ hn
    rfl
  constructor
  · intro hnd
    have hinj : ∀ (i j : ℕ) (n m : Note), j < i → c.noteCmds[i]? = some n →
        c.noteCmds[j]? = some m → m.seen ≠ n.seen := by
      intro i j n m hji hn hm heq
      obtain ⟨hi, rfl⟩ := List.getElem?_eq_some_iff.1 hn
      obtain ⟨hj, rfl⟩ := List.getElem?_eq_some_iff.1 hm
      exact List.pairwise_iff_getElem.1 hnd j i (by simpa) (by simpa) hji (by simpa using heq)
    have hplaced := hs.placed fun i j n m hji hn hm hcm hcn heq =>
      hinj i j _ _ hji hcn hcm
        (seen_withOffset_of_seen (hz n (List.mem_of_getElem? hn)) heq).symm
    intro i k n m hik hn hm
    obtain ⟨hck, hne⟩ := hplaced k m hm
    obtain ⟨hci, -⟩ := hplaced i n hn
    rw [hunplaced m (List.mem_of_getElem? hm)]
    exact ⟨(hne i hik _ hci).symm, hinj k i _ _ hik hck hci⟩
  · intro htold
    have hplaced := hs.placed fun i j n m hji hn hm _ _ heq => by
      refine (htold j i m n hji hm hn).1 ?_
      rw [hunplaced n (List.mem_of_getElem? hn), heq]
    refine List.pairwise_iff_getElem.2 fun i k hi hk hik => ?_
    rw [List.length_map, hs.length] at hi hk
    have hbi := List.getElem?_eq_getElem hi
    have hbk := List.getElem?_eq_getElem hk
    have hci := (List.getElem?_eq_some_iff.1 (hplaced i _ hbi).1).2
    have hck := (List.getElem?_eq_some_iff.1 (hplaced k _ hbk).1).2
    rw [List.getElem_map, List.getElem_map, hci, hck]
    exact (htold i k _ _ hik hbi hbk).2

end Storing

/-! ## Where a build puts the payloads -/

/-- What was done of a list of seeks: all of it unless the statement left the function. -/
def Sought (r : Bool) (qs full : List UInt64) : Prop := qs <+: full ∧ (r = true → qs = full)

theorem Sought.nil {r : Bool} {full : List UInt64} (hr : r = false) : Sought r [] full :=
  ⟨List.nil_prefix, fun ht => by simp [hr] at ht⟩

theorem Sought.append {r : Bool} {ps qs full : List UInt64} (h : Sought r qs full) :
    Sought r (ps ++ qs) (ps ++ full) :=
  ⟨List.prefix_append_right_inj ps |>.2 h.1, fun hr => by rw [h.2 hr]⟩

theorem Sought.append_of_false {r : Bool} {qs full full' : List UInt64} (h : Sought r qs full)
    (hr : r = false) : Sought r qs (full ++ full') :=
  ⟨h.1.trans (List.prefix_append _ _), fun ht => by simp [hr] at ht⟩

/-- A loop whose bodies do some seeks each. -/
theorem forEach_sought {ι ε τ : Type*} {body : ι → τ → Except ε (Bool × τ)}
    {P : List UInt64 → τ → Prop} {f : ι → List UInt64}
    (step : ∀ i ps s r s', P ps s → body i s = .ok (r, s') →
      ∃ qs, Sought r qs (f i) ∧ P (ps ++ qs) s') :
    ∀ (is : List ι) (ps : List UInt64) (s : τ) (r : Bool) (s' : τ), P ps s →
      forEach body is s = .ok (r, s') → ∃ qs, Sought r qs (is.flatMap f) ∧ P (ps ++ qs) s'
  | [], ps, s, r, s', hP, h => by
    simp only [forEach, Except.ok.injEq, Prod.mk.injEq] at h
    obtain ⟨rfl, rfl⟩ := h
    exact ⟨[], ⟨List.nil_prefix, fun _ => rfl⟩, by rwa [List.append_nil]⟩
  | i :: is, ps, s, r, s', hP, h => by
    unfold forEach at h
    split at h
    · rename_i s₁ hs
      obtain ⟨qs, hq, hP₁⟩ := step i ps s true s₁ hP hs
      obtain ⟨qs', hq', hP'⟩ := forEach_sought step is (ps ++ qs) s₁ r s' hP₁ h
      refine ⟨qs ++ qs', ?_, by rwa [← List.append_assoc]⟩
      rw [List.flatMap_cons, hq.2 rfl]
      exact hq'.append
    · rename_i hr
      obtain ⟨qs, hq, hP'⟩ := step i ps s r s' hP h
      have hf : r = false := Bool.eq_false_iff.2 fun ht => hr s' (ht ▸ h)
      exact ⟨qs, hq.append_of_false hf, hP'⟩

theorem flatMap_range_toList {α β : Type*} (f : α → β) (l : List α) :
    (List.range l.length).flatMap (fun k => (l[k]?.map f).toList) = l.map f := by
  have hid : l.mapIdx (fun _ a => f a) = l.map f := List.mapIdx_eq_iff.2 fun i => by simp
  rw [flatMap_range (fun _ a => f a) (fun x => [x]) _ l fun k a hk => by rw [hk]; rfl, hid,
    List.flatMap_singleton']

section Positions

variable {σ : Type} [OStream σ] {debug r : Bool} {b c : MachOCoreDumpBuilder}
  {ps : List UInt64} {st st' : BuildState (Recorded σ)}

/-- A build of `b` whose notes are those of `c`, and that has done these seeks. -/
structure Later (b c : MachOCoreDumpBuilder) (ps : List UInt64)
    (st : BuildState (Recorded σ)) : Prop where
  building : Building b st
  notes : st.builder.noteCmds = c.noteCmds
  log : seeks st.stream.log = ps

theorem seeks_of_runOps {ops : List StreamOp} {s s' : Recorded σ}
    (h : (r, s') = runOps ops s) :
    ∃ qs, Sought r qs (seeks ops) ∧ seeks s'.log = seeks s.log ++ qs := by
  obtain ⟨done, hpre, hlog, htrue⟩ := runOps_log ops s
  rw [← h] at hlog htrue
  exact ⟨seeks done, ⟨seeks_isPrefix hpre, fun hr => by rw [htrue hr]⟩, by rw [hlog, seeks_append]⟩

theorem seeks_of_write {data : Option (List UInt8)} {n : UInt64} {s s' : Recorded σ}
    (h : (r, s') = runOps [.write data n] s) : seeks s'.log = seeks s.log := by
  obtain ⟨qs, hq, hlog⟩ := seeks_of_runOps h
  rw [hlog, List.prefix_nil.1 hq.1, List.append_nil]

theorem Later.of_runOps (h : Later b c ps st) {ops : List StreamOp}
    (hs : SameButRanges st.builder st'.builder) (hr : (r, st'.stream) = runOps ops st.stream) :
    ∃ qs, Sought r qs (seeks ops) ∧ Later b c (ps ++ qs) st' := by
  obtain ⟨qs, hq, hlog⟩ := seeks_of_runOps hr
  refine ⟨qs, hq, hs.unplaced.trans h.building, ?_, by rw [hlog, h.log]⟩
  obtain ⟨ranges, hb⟩ := hs
  rw [hb]
  exact h.notes

theorem Later.threadCommand (h : Later b c ps st) {k : ℕ}
    (hw : writeThreadCommand debug k st = .ok (r, st')) : Later b c ps st' := by
  rcases hk : st.builder.threadCmds[k]? with _ | tc
  · rw [writeThreadCommand_of_none hk] at hw
    simp only [Except.ok.injEq, Prod.mk.injEq] at hw
    exact hw.2 ▸ h
  · rw [writeThreadCommand_of_some hk] at hw
    obtain ⟨qs, hq, hl⟩ := h.of_runOps (sameButRanges_write hw) (runOps_of_write hw)
    rwa [List.prefix_nil.1 hq.1, List.append_nil] at hl

theorem Later.segmentCommand (h : Later b c ps st) {k : ℕ}
    (hw : writeSegmentCommand debug k st = .ok (r, st')) : Later b c ps st' := by
  rcases hk : st.builder.segmentCmds[k]? with _ | sc
  · rw [writeSegmentCommand_of_none hk] at hw
    simp only [Except.ok.injEq, Prod.mk.injEq] at hw
    exact hw.2 ▸ h
  · obtain ⟨found, -, hsame, hr⟩ := writeSegmentCommand_eq hk hw
    refine ⟨hsame.unplaced.trans ((unplaced_setSegmentFileoff _ _ _).trans h.building), ?_, ?_⟩
    · obtain ⟨ranges, hb⟩ := hsame
      rw [hb]
      exact h.notes
    · rw [seeks_of_write hr, h.log]

/-- Where the payload of a note goes, when the names are those in `c`. -/
def notePosition (b c : MachOCoreDumpBuilder) (n : Note) : UInt64 :=
  b.noteOffset ((c.noteCmds.map Note.seen).idxOf n.seen)

def segmentPosition (b : MachOCoreDumpBuilder) (s : Segment) : UInt64 :=
  b.segmentOffset ((b.segmentCmds.map (·.cmd.vmaddr)).idxOf s.cmd.vmaddr)

variable (hf : b.loadCommandsFinalized = true)

include hf

/-- The notes are stored before anything is sought. -/
theorem storing_noteCommands (hs : Storing b 0 st.builder) (hlog : seeks st.stream.log = [])
    (h : forEach (writeNoteCommand debug) (List.range b.noteCmds.length) st = .ok (r, st')) :
    (r = true → Storing b b.noteCmds.length st'.builder) ∧ seeks st'.stream.log = [] := by
  have hloop := forEach_range_ends
    (fun k st => Storing b k st.builder ∧ seeks st.stream.log = [])
    (fun st => seeks st.stream.log = []) (fun k st r st' _ hI hw => ?_) ⟨hs, hlog⟩ h
  · rcases r with _ | _
    · exact ⟨by simp, hloop.2 rfl⟩
    · exact ⟨fun _ => (hloop.1 rfl).1, (hloop.1 rfl).2⟩
  · have hseeks : seeks st'.stream.log = [] := by
      rcases hk : st.builder.noteCmds[k]? with _ | nc
      · rw [writeNoteCommand_of_none hk] at hw
        simp only [Except.ok.injEq, Prod.mk.injEq] at hw
        exact hw.2 ▸ hI.2
      · obtain ⟨found, -, -, hr⟩ := writeNoteCommand_eq hk hw
        rw [seeks_of_write hr, hI.2]
    exact ⟨fun hr => ⟨hI.1.step hf (hr ▸ hw), hseeks⟩, fun _ => hseeks⟩

theorem Later.notePayload {k : ℕ} (h : Later b c ps st)
    (hw : writeNotePayload debug k st = .ok (r, st')) :
    ∃ qs, Sought r qs (c.noteCmds[k]?.map (notePosition b c)).toList
      ∧ Later b c (ps ++ qs) st' := by
  rcases hk : st.builder.noteCmds[k]? with _ | n
  · rw [writeNotePayload_of_none hk] at hw
    simp only [Except.ok.injEq, Prod.mk.injEq] at hw
    rw [← h.notes, hk]
    exact ⟨[], ⟨List.nil_prefix, fun _ => rfl⟩, by rw [List.append_nil]; exact hw.2 ▸ h⟩
  obtain ⟨offset, p, ho, -, hsame, hr⟩ := writeNotePayload_eq hk hw
  have hoff := getOffset_idxOf ((eq_of_unplaced h.building).1.trans hf) hk ho
  rw [noteOffset_of_unplaced h.building, h.notes, Option.some.injEq] at hoff
  subst hoff
  rw [← h.notes, hk]
  exact h.of_runOps hsame hr

theorem Later.notePayloads (h : Later b c [] st) (hlen : c.noteCmds.length = b.noteCmds.length)
    (hw : forEach (writeNotePayload debug) (List.range b.noteCmds.length) st = .ok (r, st')) :
    ∃ qs, Sought r qs (c.noteCmds.map (notePosition b c)) ∧ Later b c qs st' := by
  have hloop := forEach_sought (P := Later b c) (fun _ _ _ _ _ hl hw => hl.notePayload hf hw)
    _ _ _ _ _ h hw
  rwa [← hlen, flatMap_range_toList] at hloop

theorem Later.segmentPayload (hnd : (c.noteCmds.map Note.seen).Nodup) {k : ℕ}
    (h : Later b c ps st) (hw : writeSegmentPayload debug k st = .ok (r, st')) :
    ∃ qs, Sought r qs (b.segmentCmds[k]?.map (segmentPosition b)).toList
      ∧ Later b c (ps ++ qs) st' := by
  rcases hk : st.builder.segmentCmds[k]? with _ | sc
  · rw [writeSegmentPayload_of_none hk] at hw
    simp only [Except.ok.injEq, Prod.mk.injEq] at hw
    rw [(getElem?_eq_none_of_unplaced h.building).2.1 hk]
    exact ⟨[], ⟨List.nil_prefix, fun _ => rfl⟩, by rw [List.append_nil]; exact hw.2 ▸ h⟩
  obtain ⟨offset, p, ho, -, hsame, hr⟩ := writeSegmentPayload_eq hk hw
  have hoff := getSegmentOffset_idxOf ((eq_of_unplaced h.building).1.trans hf) (by rwa [h.notes])
    hk ho
  rw [segmentOffset_of_unplaced h.building, map_segments_of_unplaced h.building
    (·.cmd.vmaddr) fun _ => rfl, Option.some.injEq] at hoff
  have hv := congrArg (·[k]?) (map_segments_of_unplaced h.building
    (fun s => segmentPosition b s) fun _ => rfl)
  simp only [List.getElem?_map, hk, Option.map_some] at hv
  have hseeks : seeks (.setPosition offset :: segmentDataOps p) = [offset] := by
    rw [← List.singleton_append, seeks_append, seeks_segmentDataOps]
    rfl
  obtain ⟨qs, hq, hl⟩ := h.of_runOps hsame hr
  rw [hseeks, hoff] at hq
  rw [← hv]
  exact ⟨qs, hq, hl⟩

omit hf in
theorem Later.segmentPayload_keeps {k : ℕ} (h : Later b c ps st)
    (hw : writeSegmentPayload debug k st = .ok (r, st')) : ∃ qs, Later b c (ps ++ qs) st' := by
  rcases hk : st.builder.segmentCmds[k]? with _ | sc
  · rw [writeSegmentPayload_of_none hk] at hw
    simp only [Except.ok.injEq, Prod.mk.injEq] at hw
    exact ⟨[], by rw [List.append_nil]; exact hw.2 ▸ h⟩
  · obtain ⟨offset, p, -, -, hsame, hr⟩ := writeSegmentPayload_eq hk hw
    obtain ⟨qs, -, hl⟩ := h.of_runOps hsame hr
    exact ⟨qs, hl⟩

/-- What is sought, when the owners can be told apart and when they cannot. -/
theorem writeOut_sought (hz : ∀ n ∈ b.noteCmds, n.cmd.offset = 0) (hs : Storing b 0 st.builder)
    (hlog : seeks st.stream.log = []) (h : writeOut debug b st = .ok (r, st')) :
    (b.OwnersTold → Sought r (seeks st'.stream.log)
        ((List.range b.noteCmds.length).map b.noteOffset ++ b.segmentCmds.map (segmentPosition b)))
      ∧ (r = true → ∃ c qs, Storing b b.noteCmds.length c
        ∧ seeks st'.stream.log = c.noteCmds.map (notePosition b c) ++ qs) := by
  have hearly : r = false → seeks st'.stream.log = [] → (b.OwnersTold →
      Sought r (seeks st'.stream.log) ((List.range b.noteCmds.length).map b.noteOffset
        ++ b.segmentCmds.map (segmentPosition b))) ∧ (r = true → ∃ c qs,
      Storing b b.noteCmds.length c
        ∧ seeks st'.stream.log = c.noteCmds.map (notePosition b c) ++ qs) :=
    fun hr hnil => ⟨fun _ => hnil ▸ .nil hr, fun ht => by simp [hr] at ht⟩
  rcases seq_cases h with ⟨hr, h₁⟩ | ⟨st₁, h₁, h⟩
  · exact hearly hr ((seeks_of_write (runOps_of_write h₁)).trans hlog)
  have hlog₁ := (seeks_of_write (runOps_of_write h₁)).trans hlog
  have hs₁ : Storing b 0 st₁.builder := by
    obtain ⟨ranges, hsame⟩ := sameButRanges_write h₁
    rw [hsame]
    exact ⟨hs.unplaced, hs.rest, hs.stored⟩
  rcases seq_cases h with ⟨hr, h₂⟩ | ⟨st₂, h₂, h⟩
  · exact hearly hr (storing_noteCommands hf hs₁ hlog₁ h₂).2
  obtain ⟨hs₂, hlog₂⟩ := storing_noteCommands hf hs₁ hlog₁ h₂
  have hs₂ := hs₂ rfl
  have hl₂ : Later b st₂.builder [] st₂ := ⟨hs₂.unplaced, rfl, hlog₂⟩
  rcases seq_cases h with ⟨hr, h₃⟩ | ⟨st₃, h₃, h⟩
  · exact hearly hr (forEach_keeps _ (fun _ _ _ _ hl hw => Later.threadCommand hl hw)
      _ _ _ _ hl₂ h₃).log
  have hl₃ := forEach_keeps _ (fun _ _ _ _ hl hw => Later.threadCommand hl hw) _ _ _ _ hl₂ h₃
  rcases seq_cases h with ⟨hr, h₄⟩ | ⟨st₄, h₄, h⟩
  · exact hearly hr (forEach_keeps _ (fun _ _ _ _ hl hw => Later.segmentCommand hl hw)
      _ _ _ _ hl₃ h₄).log
  have hl₄ := forEach_keeps _ (fun _ _ _ _ hl hw => Later.segmentCommand hl hw) _ _ _ _ hl₃ h₄
  have hpositions : b.OwnersTold → st₂.builder.noteCmds.map (notePosition b st₂.builder)
      = (List.range b.noteCmds.length).map b.noteOffset := by
    intro htold
    have hnd := (hs₂.nodup_iff hz).2 htold
    refine List.ext_getElem (by simp [hs₂.length]) fun i hi _ => ?_
    rw [List.length_map] at hi
    have hidx := hnd.idxOf_getElem i (by simpa using hi)
    rw [List.getElem_map] at hidx
    rw [List.getElem_map, List.getElem_map, List.getElem_range, notePosition, hidx]
  rcases seq_cases h with ⟨hr, h₅⟩ | ⟨st₅, h₅, h⟩
  · obtain ⟨qs, hq, hl⟩ := hl₄.notePayloads hf hs₂.length h₅
    refine ⟨fun htold => ?_, fun ht => by simp [hr] at ht⟩
    rw [hl.log, ← hpositions htold, hr]
    exact hq.append_of_false rfl
  obtain ⟨qs, hq, hl₅⟩ := hl₄.notePayloads hf hs₂.length h₅
  obtain rfl := hq.2 rfl
  refine ⟨fun htold => ?_, fun _ => ?_⟩
  · have hnd := (hs₂.nodup_iff hz).2 htold
    obtain ⟨qs, hq, hl⟩ := forEach_sought (P := Later b st₂.builder)
      (fun _ _ _ _ _ hl hw => hl.segmentPayload hf hnd hw) _ _ _ _ _ hl₅ h
    rw [flatMap_range_toList] at hq
    rw [hl.log, ← hpositions htold]
    exact hq.append
  · obtain ⟨qs, hl⟩ := forEach_keeps
      (fun st => ∃ qs, Later b st₂.builder
        (st₂.builder.noteCmds.map (notePosition b st₂.builder) ++ qs) st)
      (fun _ _ _ _ ⟨qs, hl⟩ hw => by
        obtain ⟨qs', hl'⟩ := hl.segmentPayload_keeps hw
        exact ⟨qs ++ qs', by rwa [← List.append_assoc]⟩) _ _ _ _
      ⟨[], by rwa [List.append_nil]⟩ h
    exact ⟨st₂.builder, qs, hs₂, hl.log⟩

end Positions

/-! ## Layouts -/

theorem ofNat_add_eq (n : ℕ) (x : UInt64) : UInt64.ofNat n + x = UInt64.ofNat (n + x.toNat) := by
  rw [UInt64.ofNat_add, UInt64.ofNat_toNat]

theorem offsetAfter_ofNat (sizes : List UInt64) (start : ℕ) :
    offsetAfter (UInt64.ofNat start) sizes = UInt64.ofNat (start + total sizes) := by
  induction sizes generalizing start with
  | nil => rfl
  | cons s sizes ih =>
    rw [offsetAfter_cons, ofNat_add_eq, ih, total_cons, Nat.add_assoc]

theorem zip_offsets (sizes : List UInt64) (start : ℕ) :
    ((List.range sizes.length).map fun k => offsetAfter (UInt64.ofNat start) (sizes.take k)).zip
        sizes = (layout start sizes).map fun x => (UInt64.ofNat x.1, x.2) := by
  induction sizes generalizing start with
  | nil => rfl
  | cons s sizes ih =>
    rw [List.length_cons, List.range_succ_eq_map, List.map_cons, List.map_map, List.zip_cons_cons,
      layout, List.map_cons, ← ih]
    simp only [Function.comp_def, List.take_zero, offsetAfter_nil, List.take_succ_cons,
      offsetAfter_cons, ofNat_add_eq]

theorem roundUp_ofNat (n : ℕ) :
    roundUp (UInt64.ofNat n) 0x1000 = UInt64.ofNat (alignUp n 0x1000) := by
  have hm : (0x1000 : UInt64).toNat = 0x1000 := rfl
  have hzero : UInt64.ofNat n % 0x1000 = 0 ↔ n % 0x1000 = 0 := by
    rw [← UInt64.toNat_inj, UInt64.toNat_mod, UInt64.toNat_zero, UInt64.toNat_ofNat', hm]
    omega
  unfold roundUp alignUp
  simp only [hzero]
  split_ifs
  · rfl
  · rw [← UInt64.toNat_inj, UInt64.toNat_mul, UInt64.toNat_add, UInt64.toNat_div,
      UInt64.toNat_ofNat', UInt64.toNat_ofNat', UInt64.toNat_one, hm]
    omega

section Apart

variable {b : MachOCoreDumpBuilder}

namespace MachOCoreDumpBuilder

/-- The ranges a build puts the payloads in, by the seeks it has done. -/
def payloadRanges (b : MachOCoreDumpBuilder) (log : List StreamOp) : List (UInt64 × UInt64) :=
  (seeks log).zip (b.noteSizes ++ b.segmentSizes)

end MachOCoreDumpBuilder

theorem noteOffset_eq_ofNat (k : ℕ) :
    b.noteOffset k = offsetAfter (UInt64.ofNat b.notesFrom) (b.noteSizes.take k) := by
  rw [noteOffset, noteSizes, notesFrom, UInt64.ofNat_toNat, List.map_take]

theorem segmentOffset_eq_ofNat (k : ℕ) :
    b.segmentOffset k = offsetAfter (UInt64.ofNat b.segmentsFrom) (b.segmentSizes.take k) := by
  have hall : b.noteSizes.take b.noteCmds.length = b.noteSizes :=
    List.take_of_length_le (by simp [noteSizes])
  rw [segmentOffset, firstSegmentOffset, noteOffset_eq_ofNat, hall, offsetAfter_ofNat,
    roundUp_ofNat, segmentSizes, List.map_take]
  rfl

theorem zip_layouts :
    ((List.range b.noteCmds.length).map b.noteOffset
        ++ (List.range b.segmentCmds.length).map b.segmentOffset).zip
        (b.noteSizes ++ b.segmentSizes)
      = (layout b.notesFrom b.noteSizes ++ layout b.segmentsFrom b.segmentSizes).map
        fun x => (UInt64.ofNat x.1, x.2) := by
  have hn : b.noteCmds.length = b.noteSizes.length := by simp [noteSizes]
  have hs : b.segmentCmds.length = b.segmentSizes.length := by simp [segmentSizes]
  rw [List.zip_append (by simp [hn]), List.map_append, ← zip_offsets, ← zip_offsets, hn, hs]
  simp only [← noteOffset_eq_ofNat, ← segmentOffset_eq_ofNat]

theorem noteSizes_finalizeLoadCommands : b.finalizeLoadCommands.noteSizes = b.noteSizes := by
  rw [noteSizes, noteSizes, noteCmds_finalizeLoadCommands]

theorem segmentSizes_finalizeLoadCommands :
    b.finalizeLoadCommands.segmentSizes = b.segmentSizes := by
  rw [segmentSizes, segmentSizes, segmentCmds_finalizeLoadCommands]

namespace MachOCoreDumpBuilder

/-- Every key finds its own command, and there is room for all. -/
structure SharesNothing (b : MachOCoreDumpBuilder) : Prop where
  owners : b.OwnersTold
  vmaddrs : b.DistinctVmaddrs
  room : b.Roomy

/-- Every command with a provider that has something. -/
structure NonEmpty (b : MachOCoreDumpBuilder) : Prop where
  notes : ∀ n ∈ b.noteCmds, ∃ p, n.provider = some p ∧ p.size ≠ 0
  segments : ∀ s ∈ b.segmentCmds, ∃ p, s.provider = some p ∧ p.size ≠ 0

end MachOCoreDumpBuilder

/-- Owners that differ can be told apart. -/
theorem ownersTold_of_distinctOwners (h : b.DistinctOwners) : b.OwnersTold := by
  intro i k n m hik hn hm
  have hne : n.cmd.dataOwner ≠ m.cmd.dataOwner :=
    h.ne_of_mem_take hm n (List.mem_iff_getElem?.2 ⟨i, by rw [List.getElem?_take_of_lt hik, hn]⟩)
  have howner : ∀ off off', (n.withOffset off).seen ≠ (m.withOffset off').seen :=
    fun off off' heq =>
    hne ((n.withOffset off).dataOwner_of_seen (m.withOffset off') heq)
  exact ⟨howner _ _, howner _ _⟩

/-- Those that leave room for a terminator only then. -/
theorem ownersTold_iff (h : ∀ n ∈ b.noteCmds, n.cmd.dataOwner.chars.length < 16) :
    b.OwnersTold ↔ b.DistinctOwners := by
  refine ⟨fun htold => ?_, ownersTold_of_distinctOwners⟩
  refine List.pairwise_iff_getElem.2 fun i k hi hk hik heq => ?_
  refine (htold i k _ _ hik (List.getElem?_eq_getElem hi) (List.getElem?_eq_getElem hk)).1 ?_
  have hseen : ∀ n ∈ b.noteCmds, ∀ off, (n.withOffset off).seen = n.cmd.dataOwner.chars :=
    fun n hn off => (n.withOffset off).seen_of_lt (h n hn)
  rw [hseen _ (List.getElem_mem hi), hseen _ (List.getElem_mem hk), heq]

theorem segmentPositions (h : b.DistinctVmaddrs) :
    b.segmentCmds.map (segmentPosition b)
      = (List.range b.segmentCmds.length).map b.segmentOffset := by
  have hnd : (b.segmentCmds.map (·.cmd.vmaddr)).Nodup := List.pairwise_map.2 h
  refine List.ext_getElem (by simp) fun i hi _ => ?_
  rw [List.length_map] at hi
  have hidx := hnd.idxOf_getElem i (by simpa using hi)
  rw [List.getElem_map] at hidx
  rw [List.getElem_map, List.getElem_map, List.getElem_range, segmentPosition, hidx]

/-- Two payloads at one place are not apart. -/
theorem not_pairwise_of_eq {ps sizes : List UInt64} {i j : ℕ} {p : UInt64} (hij : i < j)
    (hi : ps[i]? = some p) (hj : ps[j]? = some p) (hlen : j < sizes.length)
    (hs : ∀ s ∈ sizes, s ≠ 0) : ¬ (ps.zip sizes).Pairwise Apart := by
  intro h
  obtain ⟨hil, rfl⟩ := List.getElem?_eq_some_iff.1 hi
  obtain ⟨hjl, hpj⟩ := List.getElem?_eq_some_iff.1 hj
  have hap := List.pairwise_iff_getElem.1 h i j (by simp; omega) (by simp; omega) hij
  rw [List.getElem_zip, List.getElem_zip, hpj] at hap
  exact not_apart_self (hs _ (List.getElem_mem _)) (hs _ (List.getElem_mem _)) hap

theorem zip_isPrefix {α β : Type*} : ∀ {l l' : List α} (m : List β), l <+: l' →
    l.zip m <+: l'.zip m
  | [], _, _, _ => List.nil_prefix
  | a :: l, l', [], h => by simp
  | a :: l, [], m, h => by simp at h
  | a :: l, a' :: l', b :: m, h => by
    obtain ⟨rfl, hl⟩ := List.cons_prefix_cons.1 h
    exact List.cons_prefix_cons.2 ⟨rfl, zip_isPrefix m hl⟩

/-- Of owners that cannot be told apart, two have their payloads at one place. -/
theorem exists_shared {c : MachOCoreDumpBuilder} (hlen : c.noteCmds.length = b.noteCmds.length)
    (h : ¬ (c.noteCmds.map Note.seen).Nodup) :
    ∃ i j p, i < j ∧ j < b.noteCmds.length ∧ (c.noteCmds.map (notePosition b c))[i]? = some p
      ∧ (c.noteCmds.map (notePosition b c))[j]? = some p := by
  rw [List.Nodup, List.pairwise_iff_getElem] at h
  simp only [not_forall, not_not] at h
  obtain ⟨i, j, hi, hj, hij, heq⟩ := h
  rw [List.length_map] at hi hj
  rw [List.getElem_map, List.getElem_map] at heq
  refine ⟨i, j, notePosition b c c.noteCmds[i], hij, hlen ▸ hj, ?_, ?_⟩
  · rw [List.getElem?_map, List.getElem?_eq_getElem hi, Option.map_some]
  · rw [List.getElem?_map, List.getElem?_eq_getElem hj, Option.map_some, notePosition, notePosition,
      heq]

theorem exists_shared_segments (h : ¬ b.DistinctVmaddrs) :
    ∃ i j p, i < j ∧ j < b.segmentCmds.length
      ∧ (b.segmentCmds.map (segmentPosition b))[i]? = some p
      ∧ (b.segmentCmds.map (segmentPosition b))[j]? = some p := by
  rw [DistinctVmaddrs, List.pairwise_iff_getElem] at h
  simp only [not_forall, not_not] at h
  obtain ⟨i, j, hi, hj, hij, heq⟩ := h
  refine ⟨i, j, segmentPosition b b.segmentCmds[i], hij, hj, ?_, ?_⟩
  · rw [List.getElem?_map, List.getElem?_eq_getElem hi, Option.map_some]
  · rw [List.getElem?_map, List.getElem?_eq_getElem hj, Option.map_some, segmentPosition,
      segmentPosition, heq]

/-- With every key at its own place, the ranges are those of the two layouts. -/
theorem payloadRanges_isPrefix {r : Bool} {log : List StreamOp} (hv : b.DistinctVmaddrs)
    (h : Sought r (seeks log) ((List.range b.noteCmds.length).map b.noteOffset
      ++ b.segmentCmds.map (segmentPosition b))) :
    b.payloadRanges log <+: (layout b.notesFrom b.noteSizes
        ++ layout b.segmentsFrom b.segmentSizes).map (fun x => (UInt64.ofNat x.1, x.2))
      ∧ (r = true → b.payloadRanges log = (layout b.notesFrom b.noteSizes
        ++ layout b.segmentsFrom b.segmentSizes).map fun x => (UInt64.ofNat x.1, x.2)) := by
  rw [segmentPositions hv] at h
  rw [← zip_layouts]
  exact ⟨zip_isPrefix _ h.1, fun hr => by rw [payloadRanges, h.2 hr]⟩

theorem layouts_bounds :
    b.notesFrom + total b.noteSizes ≤ b.segmentsFrom
      ∧ b.segmentsFrom < b.notesFrom + total b.noteSizes + 2 ^ 64 := by
  have h := alignUp_bounds (b.notesFrom + total b.noteSizes) (show 0 < 0x1000 by omega)
  refine ⟨h.1, ?_⟩
  calc b.segmentsFrom < b.notesFrom + total b.noteSizes + 0x1000 := h.2
    _ < b.notesFrom + total b.noteSizes + 2 ^ 64 := by omega

theorem pairwise_of_sharesNothing {r : Bool} {log : List StreamOp} (h : b.SharesNothing)
    (hlog : Sought r (seeks log) ((List.range b.noteCmds.length).map b.noteOffset
      ++ b.segmentCmds.map (segmentPosition b))) : (b.payloadRanges log).Pairwise Apart := by
  obtain ⟨t, ht⟩ := (payloadRanges_isPrefix h.vmaddrs hlog).1
  have hlaid : LaidApart (layout b.notesFrom b.noteSizes ++ layout b.segmentsFrom b.segmentSizes) :=
    laidApart_append layouts_bounds.1 h.room.1 h.room.2
  have hall : (b.payloadRanges log ++ t).Pairwise Apart := by
    rw [ht]
    exact List.pairwise_map.2 hlaid
  exact (List.pairwise_append.1 hall).1

/-- When there is a note in front of the segments, and no payload is empty, nothing else will do. -/
theorem sharesNothing_of_pairwise {log : List StreamOp}
    (hn : ∀ s ∈ b.noteSizes, s ≠ 0) (hs : ∀ s ∈ b.segmentSizes, s ≠ 0)
    (hfirst : b.segmentCmds ≠ [] → b.noteCmds ≠ []) (hz : ∀ n ∈ b.noteCmds, n.cmd.offset = 0)
    (hlog : b.OwnersTold → Sought true (seeks log)
      ((List.range b.noteCmds.length).map b.noteOffset ++ b.segmentCmds.map (segmentPosition b)))
    (hshared : ∃ c qs, Storing b b.noteCmds.length c
      ∧ seeks log = c.noteCmds.map (notePosition b c) ++ qs)
    (h : (b.payloadRanges log).Pairwise Apart) : b.SharesNothing := by
  have hsizes : ∀ s ∈ b.noteSizes ++ b.segmentSizes, s ≠ 0 := fun s hmem =>
    (List.mem_append.1 hmem).elim (hn s) (hs s)
  have hlen : (b.noteSizes ++ b.segmentSizes).length
      = b.noteCmds.length + b.segmentCmds.length := by simp [noteSizes, segmentSizes]
  have htold : b.OwnersTold := by
    by_contra hnot
    obtain ⟨c, qs, hc, hseeks⟩ := hshared
    obtain ⟨i, j, p, hij, hj, hpi, hpj⟩ :=
      exists_shared hc.length fun hnd => hnot ((hc.nodup_iff hz).1 hnd)
    have hat : ∀ k : ℕ, (c.noteCmds.map (notePosition b c))[k]? = some p →
        (seeks log)[k]? = some p := by
      intro k hk
      rw [hseeks, List.getElem?_append_left (List.getElem?_eq_some_iff.1 hk).1, hk]
    exact not_pairwise_of_eq hij (hat i hpi) (hat j hpj) (by omega) hsizes h
  have hv : b.DistinctVmaddrs := by
    by_contra hnot
    obtain ⟨i, j, p, hij, hj, hpi, hpj⟩ := exists_shared_segments hnot
    have hat : ∀ k : ℕ, (b.segmentCmds.map (segmentPosition b))[k]? = some p →
        (seeks log)[b.noteCmds.length + k]? = some p := by
      intro k hk
      rw [(hlog htold).2 rfl, List.getElem?_append_right (by simp), List.length_map,
        List.length_range, Nat.add_sub_cancel_left, hk]
    exact not_pairwise_of_eq (Nat.add_lt_add_left hij _) (hat i hpi) (hat j hpj) (by omega)
      hsizes h
  refine ⟨htold, hv, ?_⟩
  rcases eq_or_ne b.noteCmds [] with hnil | hne
  · have hnone : b.segmentCmds = [] := by
      by_contra hsome
      exact hfirst hsome hnil
    exact ⟨by simp [noteSizes, hnil], fun hne => absurd (by simp [segmentSizes, hnone]) hne⟩
  · rw [(payloadRanges_isPrefix hv (hlog htold)).2 rfl] at h
    have hlaid : LaidApart
        (layout b.notesFrom b.noteSizes ++ layout b.segmentsFrom b.segmentSizes) :=
      List.pairwise_map.1 h
    exact (laidApart_iff (by simpa [noteSizes] using hne) hn hs layouts_bounds.1
      layouts_bounds.2).1 hlaid

/-- A stream about which nothing is known. -/
theorem takes_any {σ : Type} [OStream σ] : Takes σ (fun _ _ => False) (fun _ _ => True) :=
  ⟨fun _ _ _ h => h.elim, fun _ _ _ _ => trivial⟩

end Apart

/-- A build puts every payload in a range of its own when no key is taken twice and there is room,
and one that succeeds only then. -/
theorem build_apart_iff {σ : Type} [OStream σ] {debug r : Bool} {arch : Arch}
    {b : MachOCoreDumpBuilder} {s : σ} {st' : BuildState (Recorded σ)} (h : Accepted debug arch b)
    (hb : b.NonEmpty) (hbuild : build debug ⟨b, ⟨s, []⟩⟩ = .ok (r, st')) :
    (b.finalizeLoadCommands.SharesNothing →
        (b.finalizeLoadCommands.payloadRanges st'.stream.log).Pairwise Apart)
      ∧ (r = true → ((b.finalizeLoadCommands.payloadRanges st'.stream.log).Pairwise Apart
        ↔ b.finalizeLoadCommands.SharesNothing)) := by
  have hnotes : ∀ s ∈ b.finalizeLoadCommands.noteSizes, s ≠ 0 := by
    rw [noteSizes_finalizeLoadCommands]
    intro s hs
    obtain ⟨n, hn, rfl⟩ := List.mem_map.1 hs
    obtain ⟨p, hp, hne⟩ := hb.notes n hn
    rw [(h.fresh.notes n hn).size, hp]
    exact hne
  have hsegments : ∀ s ∈ b.finalizeLoadCommands.segmentSizes, s ≠ 0 := by
    rw [segmentSizes_finalizeLoadCommands]
    intro s hs
    obtain ⟨sc, hsc, rfl⟩ := List.mem_map.1 hs
    obtain ⟨p, hp, hne⟩ := hb.segments sc hsc
    rw [(h.fresh.segments sc hsc).filesize, hp]
    exact hne
  have hz : ∀ n ∈ b.finalizeLoadCommands.noteCmds, n.cmd.offset = 0 := by
    rw [noteCmds_finalizeLoadCommands]
    exact fun n hn => (h.fresh.notes n hn).offset
  have hstart : Storing b.finalizeLoadCommands 0 (startOfBuild debug b) := by
    refine ⟨unplaced_startOfBuild debug b, fun i _ => ?_, fun i hi => absurd hi (Nat.not_lt_zero i)⟩
    unfold startOfBuild
    split_ifs <;> simp
  have hnoted : Noted b := h.fresh.noted fun n hn hnone => by
    obtain ⟨p, hp, -⟩ := hb.notes n hn
    simp [hnone] at hp
  have hfed := ((build_outcome debug takes_any hnoted (⟨s, []⟩ : Recorded σ)).2 r st' hbuild).2
  rw [build_eq] at hbuild
  obtain ⟨htold, hsucc⟩ := writeOut_sought (finalized_finalizeLoadCommands b) hz hstart rfl hbuild
  refine ⟨fun hnothing => pairwise_of_sharesNothing hnothing (htold hnothing.owners), fun hr => ?_⟩
  have hfirst : b.finalizeLoadCommands.segmentCmds ≠ [] → b.finalizeLoadCommands.noteCmds ≠ [] := by
    rw [noteCmds_finalizeLoadCommands, segmentCmds_finalizeLoadCommands]
    exact (hfed hr).1.someNote
  subst hr
  exact ⟨sharesNothing_of_pairwise hnotes hsegments hfirst hz htold (hsucc rfl),
    fun hnothing => pairwise_of_sharesNothing hnothing (htold hnothing.owners)⟩

/-- Two notes of one owner. -/
def ownerTwice : MachOCoreDumpBuilder :=
  (((new .arm64).addNoteCommand [110] (some (copiedDataProvider [1]))).2.addNoteCommand
    [110] (some (copiedDataProvider [2]))).2

theorem accepted_ownerTwice : Accepted false .arm64 ownerTwice := by
  have hnote : (new .arm64).addNoteCommand [110] (some (copiedDataProvider [1])) = (true, _) := rfl
  have hagain : ((new .arm64).addNoteCommand [110] (some (copiedDataProvider [1]))).2.addNoteCommand
      [110] (some (copiedDataProvider [2])) = (true, ownerTwice) := rfl
  exact (Relation.ReflTransGen.single (AddCall.note hnote)).tail (.note hagain)

theorem nonEmpty_ownerTwice : ownerTwice.NonEmpty := by
  refine ⟨fun n hn => ?_, fun s hs => absurd hs List.not_mem_nil⟩
  rcases List.mem_cons.1 hn with rfl | hn
  · exact ⟨_, rfl, by decide⟩
  · obtain rfl := List.mem_singleton.1 hn
    exact ⟨_, rfl, by decide⟩

/-- Both payloads are written at 112. -/
theorem build_ownerTwice :
    ∃ st', build false ⟨ownerTwice, (⟨FileStream.empty, []⟩ : Recorded FileStream)⟩
        = .ok (true, st') ∧ seeks st'.stream.log = [112, 112] :=
  exists_of_toOption (by decide +kernel)

theorem build_apart_iff_ownerTwice :
    ∃ st', build false ⟨ownerTwice, (⟨FileStream.empty, []⟩ : Recorded FileStream)⟩
        = .ok (true, st')
      ∧ ((ownerTwice.finalizeLoadCommands.payloadRanges st'.stream.log).Pairwise Apart
        ↔ ownerTwice.finalizeLoadCommands.SharesNothing) := by
  obtain ⟨st', hb, -⟩ := build_ownerTwice
  exact ⟨st', hb, (build_apart_iff accepted_ownerTwice nonEmpty_ownerTwice hb).2 rfl⟩

theorem not_apart_ownerTwice :
    Accepted false .arm64 ownerTwice ∧ ownerTwice.NonEmpty
      ∧ ∃ st', build false ⟨ownerTwice, (⟨FileStream.empty, []⟩ : Recorded FileStream)⟩
          = .ok (true, st')
        ∧ ¬ (ownerTwice.finalizeLoadCommands.payloadRanges st'.stream.log).Pairwise Apart := by
  obtain ⟨st', hb, hseeks⟩ := build_ownerTwice
  refine ⟨accepted_ownerTwice, nonEmpty_ownerTwice, st', hb, fun h => ?_⟩
  have hranges : ownerTwice.finalizeLoadCommands.payloadRanges st'.stream.log
      = [(112, 1), (112, 1)] := by
    rw [payloadRanges, hseeks]
    rfl
  rw [hranges, List.pairwise_pair] at h
  exact not_apart_self (by decide) (by decide) h

end MacMiniDump
