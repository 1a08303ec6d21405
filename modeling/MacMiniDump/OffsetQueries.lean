import MacMiniDump.Calls
import MacMiniDump.Layout

/-!
# Offsets asked for early

The payload of a note goes behind those of the notes before it, so its offset is known as soon as
theirs are: no provider that is attached to it or to a later note can move it. `Build` stores that
offset in the command and seeks to it (`earlyOffsets_final`), and so it does with the offsets that
`AddPayloadsAndWrite` has stored in the segment commands.
-/

namespace MacMiniDump

open MachOCoreDumpBuilder

/-- A call that attaches a provider to none of the given notes. -/
def Call.AttachesPast {σ : Type} (pre : List Note) (c : Call σ) : Prop :=
  ∃ name p, c = .addDataProviderForNoteCommand name p
    ∧ ∀ n ∈ pre, cstr n.cmd.ownerMemory ≠ cstr name

/-- All but the providers and the sizes of the notes from the `k`-th on. -/
structure SameBefore (k : ℕ) (b b' : MachOCoreDumpBuilder) : Prop where
  finalized : b'.loadCommandsFinalized = b.loadCommandsFinalized
  header : b'.header = b.header
  take : b'.noteCmds.take k = b.noteCmds.take k
  owners : b'.noteCmds.map (·.cmd.dataOwner) = b.noteCmds.map (·.cmd.dataOwner)
  threads : b'.threadCmds = b.threadCmds
  segments : b'.segmentCmds = b.segmentCmds

section SameBefore

variable {σ : Type} [OStream σ] {debug : Bool} {k : ℕ} {b b' : MachOCoreDumpBuilder}

theorem SameBefore.noteOffset (h : SameBefore k b b') : b'.noteOffset k = b.noteOffset k := by
  simp only [MachOCoreDumpBuilder.noteOffset, firstPayloadOffset, h.header, h.take]

theorem SameBefore.distinctOwners (h : SameBefore k b b') (hd : b.DistinctOwners) :
    b'.DistinctOwners := by
  rw [DistinctOwners, ← List.pairwise_map (f := fun n : Note => n.cmd.dataOwner)] at hd ⊢
  rwa [h.owners]

theorem SameBefore.distinctVmaddrs (h : SameBefore k b b') (hv : b.DistinctVmaddrs) :
    b'.DistinctVmaddrs := by
  rwa [DistinctVmaddrs, h.segments]

theorem run_attachesPast {c : Call σ} (hc : c.AttachesPast (b.noteCmds.take k))
    (h : c.run debug b = .ok b') : SameBefore k b b' := by
  obtain ⟨name, p, rfl, hpast⟩ := hc
  rw [Call.run] at h
  rcases hr : b.addDataProviderForNoteCommand debug name p with e | ⟨r, b₁⟩
  · simp [hr, Except.map] at h
  simp only [hr, Except.map, Except.ok.injEq] at h
  subst h
  rcases addDataProvider_eq hr with rfl | ⟨notes', hn, rfl⟩
  · exact ⟨rfl, rfl, rfl, rfl, rfl, rfl⟩
  obtain ⟨pre, nc, post, q, -, hsplit, -, hnc, rfl⟩ := attachDataProvider_eq hn
  -- the note that matched is not among the first `k`
  have hk : k ≤ pre.length := by
    by_contra hlt
    refine hpast nc ?_ hnc
    rw [hsplit, List.take_append, List.mem_append]
    obtain ⟨m, hm⟩ : ∃ m, k - pre.length = m + 1 := ⟨k - pre.length - 1, by omega⟩
    exact .inr (by rw [hm, List.take_succ_cons]; exact List.mem_cons_self)
  refine ⟨rfl, rfl, ?_, ?_, rfl, rfl⟩
  · simp only [hsplit, List.take_append_of_le_length hk]
  · simp only [hsplit, List.map_append, List.map_cons]

theorem runCalls_attachesPast {cs : List (Call σ)}
    (hcs : ∀ c ∈ cs, c.AttachesPast (b.noteCmds.take k)) (h : runCalls debug cs b = .ok b') :
    SameBefore k b b' := by
  refine runCalls_keeps (P := SameBefore k b) (fun c b₁ b₂ hc hP hr => ?_) hcs
    ⟨rfl, rfl, rfl, rfl, rfl, rfl⟩ h
  have hs := run_attachesPast (k := k) (by rwa [hP.take]) hr
  exact ⟨hs.finalized.trans hP.finalized, hs.header.trans hP.header, hs.take.trans hP.take,
    hs.owners.trans hP.owners, hs.threads.trans hP.threads, hs.segments.trans hP.segments⟩

end SameBefore

section Seeks

variable {b : MachOCoreDumpBuilder}

theorem seeks_flatMap {α : Type*} (f : α → List StreamOp) (l : List α) :
    seeks (l.flatMap f) = l.flatMap fun a => seeks (f a) := by
  induction l with
  | nil => rfl
  | cons a l ih => rw [List.flatMap_cons, List.flatMap_cons, seeks_append, ih]

theorem seeks_eq_nil {ops : List StreamOp} (h : ∀ op ∈ ops, ∃ d n, op = .write d n) :
    seeks ops = [] := by
  rw [seeks, List.filterMap_eq_nil_iff]
  intro op hop
  obtain ⟨d, n, rfl⟩ := h op hop
  rfl

theorem seeks_commandOps (b : MachOCoreDumpBuilder) : seeks b.commandOps = [] := by
  refine seeks_eq_nil fun op hop => ?_
  simp only [commandOps, List.mem_cons, List.mem_append, List.mem_flatMap] at hop
  rcases hop with rfl | (⟨k, -, h⟩ | ⟨k, -, h⟩) | ⟨k, -, h⟩
  · exact ⟨_, _, rfl⟩
  · unfold noteCommandOps at h
    split at h
    · simp at h
    · exact ⟨_, _, List.mem_singleton.1 h⟩
  · unfold threadCommandOps at h
    split at h
    · simp at h
    · exact ⟨_, _, List.mem_singleton.1 h⟩
  · unfold segmentCommandOps at h
    split at h
    · simp at h
    · exact ⟨_, _, List.mem_singleton.1 h⟩

theorem seeks_segmentDataOps (p : DataProvider) : seeks (segmentDataOps p) = [] := by
  refine seeks_eq_nil fun op hop => ?_
  simp only [segmentDataOps, List.mem_append, List.mem_map, List.mem_singleton] at hop
  rcases hop with ⟨d, -, rfl⟩ | rfl
  · exact ⟨_, _, rfl⟩
  · exact ⟨_, _, rfl⟩

theorem seeks_notePayloadOps {k : ℕ} (hk : k < b.noteCmds.length) :
    seeks (b.notePayloadOps k) = [b.noteOffset k] := by
  rw [notePayloadOps, List.getElem?_eq_getElem hk]
  rfl

theorem seeks_segmentPayloadOps {k : ℕ} (hk : k < b.segmentCmds.length) :
    seeks (b.segmentPayloadOps k) = [b.segmentOffset k] := by
  obtain ⟨sc, hsc⟩ : ∃ sc, b.segmentCmds[k]? = some sc := ⟨_, List.getElem?_eq_getElem hk⟩
  rw [segmentPayloadOps, hsc]
  rcases hp : sc.provider with _ | p
  · simp [seeks, hp]
  · simpa [seeks, hp] using seeks_segmentDataOps p

/-- A build seeks once for each payload, to where it belongs. -/
theorem seeks_script (b : MachOCoreDumpBuilder) :
    seeks b.script = (List.range b.noteCmds.length).map b.noteOffset
      ++ (List.range b.segmentCmds.length).map b.segmentOffset := by
  rw [script, seeks_append, seeks_append, seeks_commandOps, seeks_flatMap, seeks_flatMap,
    List.nil_append, List.map_eq_flatMap, List.map_eq_flatMap]
  congr 1
  · exact List.flatMap_congr fun k hk => seeks_notePayloadOps (List.mem_range.1 hk)
  · exact List.flatMap_congr fun k hk => seeks_segmentPayloadOps (List.mem_range.1 hk)

end Seeks

section Query

variable {debug : Bool} {b : MachOCoreDumpBuilder} {k : ℕ} {nc : Note} {name : List UInt8}

theorem notePayloadOffset_none {r : Option UInt64} :
    ∀ (notes : List Note) (start : UInt64),
      (∀ n ∈ notes, cstr name ≠ cstr n.cmd.ownerMemory) →
      notePayloadOffset debug name start notes = .ok r → r = none
  | [], start, _, h => by simpa [notePayloadOffset] using h.symm
  | n :: notes, start, hne, h => by
    rw [notePayloadOffset, if_neg (hne n List.mem_cons_self)] at h
    split_ifs at h
    exact notePayloadOffset_none notes _ (fun m hm => hne m (List.mem_cons_of_mem _ hm)) h

/-- What a query by the name of a note returns is where the note's payload goes. -/
theorem getOffset_of_chars_eq (hf : b.loadCommandsFinalized = true) (hd : b.DistinctOwners)
    (hk : b.noteCmds[k]? = some nc) (hname : cstr name = nc.cmd.dataOwner.chars) {off : UInt64}
    (h : b.getOffsetForNoteCommandPayload debug name = .ok (some off)) : off = b.noteOffset k := by
  by_cases hown : cstr name = cstr nc.cmd.ownerMemory
  · simpa using getOffset_of_cstr_eq hf hd hk hown h
  -- a name of 16 bytes is not found once `Build` has put an offset behind it
  · have hne : ∀ n ∈ b.noteCmds, cstr name ≠ cstr n.cmd.ownerMemory := by
      intro n hn heq
      have howner : nc.cmd.dataOwner = n.cmd.dataOwner :=
        NoteCommand.chars_of_cstr_eq (hname.symm.trans heq)
      obtain ⟨j, hj⟩ := List.getElem?_of_mem hn
      rcases Nat.lt_trichotomy j k with hlt | rfl | hlt
      · exact hd.ne_of_mem_take hk n (List.mem_iff_getElem?.2
          ⟨j, by rw [List.getElem?_take_of_lt hlt, hj]⟩) howner.symm
      · rw [hk, Option.some.injEq] at hj
        subst hj
        exact hown heq
      · exact hd.ne_of_mem_take hj nc (List.mem_iff_getElem?.2
          ⟨k, by rw [List.getElem?_take_of_lt hlt, hk]⟩) howner
    rw [getOffsetForNoteCommandPayload, if_pos hf] at h
    simpa using notePayloadOffset_none _ _ hne h

/-- Before a build, and for a name that leaves room for its terminator, the query does return. -/
theorem getOffset_early (hf : b.loadCommandsFinalized = true) (hd : b.DistinctOwners)
    (hk : b.noteCmds[k]? = some nc) (hp : ∀ n ∈ b.noteCmds.take k, n.provider ≠ none)
    (hname : cstr name = nc.cmd.dataOwner.chars)
    (hz : nc.cmd.offset = 0 ∨ nc.cmd.dataOwner.chars.length < 16) :
    b.getOffsetForNoteCommandPayload debug name = .ok (some (b.noteOffset k)) := by
  have hown : cstr name = cstr nc.cmd.ownerMemory := by
    rcases hz with hz | hz
    · rw [hname, NoteCommand.cstr_ownerMemory hz]
    · rw [hname, NoteCommand.cstr_ownerMemory_of_lt hz]
  obtain ⟨r, hr⟩ : ∃ r, b.getOffsetForNoteCommandPayload debug name = .ok r :=
    getOffset_ok hf hk hown fun _ => hp
  rw [hr, getOffset_of_cstr_eq hf hd hk hown hr]

end Query

/-- The loop of `AddPayloadsAndWrite` over the segment commands. -/
def storeFileoff (debug : Bool) (k : ℕ) (b : MachOCoreDumpBuilder) :
    Except Fault (Bool × MachOCoreDumpBuilder) :=
  match b.segmentCmds[k]? with
  | none => .ok (true, b)
  | some sc =>
    match b.getOffsetForSegmentCommandPayload debug sc.cmd.vmaddr with
    | .error e => .error e
    | .ok found => .ok (true, b.setSegmentFileoff k (found.getD sc.cmd.fileoff))

def storeFileoffs (debug : Bool) (b : MachOCoreDumpBuilder) :
    Except Fault (Bool × MachOCoreDumpBuilder) :=
  forEach (storeFileoff debug) (List.range b.segmentCmds.length) b

section Store

variable {debug : Bool} {b : MachOCoreDumpBuilder}

/-- The offsets stored so far are those of the layout. -/
structure Stored (b : MachOCoreDumpBuilder) (done : List ℕ) (c : MachOCoreDumpBuilder) : Prop where
  unplaced : c.unplaced = b.unplaced
  fileoff : ∀ i ∈ done, ∀ sc, c.segmentCmds[i]? = some sc → sc.cmd.fileoff = b.segmentOffset i

theorem storeFileoff_stored (hf : b.loadCommandsFinalized = true) (hd : b.DistinctOwners)
    (hv : b.DistinctVmaddrs) {done : List ℕ} {k : ℕ} {c c' : MachOCoreDumpBuilder} {r : Bool}
    (hs : Stored b done c) (h : storeFileoff debug k c = .ok (r, c')) :
    r = true ∧ Stored b (done ++ [k]) c' := by
  unfold storeFileoff at h
  split at h
  · rename_i hk
    simp only [Except.ok.injEq, Prod.mk.injEq] at h
    obtain ⟨rfl, rfl⟩ := h
    refine ⟨rfl, hs.unplaced, fun i hi sc hsc => ?_⟩
    rcases List.mem_append.1 hi with hi | hi
    · exact hs.fileoff i hi sc hsc
    · rw [List.mem_singleton.1 hi, hk] at hsc
      simp at hsc
  rename_i sc hk
  split at h
  · simp at h
  rename_i found ho
  have hfound := getSegmentOffset_eq ((eq_of_unplaced hs.unplaced).1.trans hf)
    (distinctOwners_of_unplaced hs.unplaced hd) (distinctVmaddrs_of_unplaced hs.unplaced hv) hk ho
  simp only [hfound, Option.getD_some, segmentOffset_of_unplaced hs.unplaced k, Except.ok.injEq,
    Prod.mk.injEq] at h
  obtain ⟨rfl, rfl⟩ := h
  refine ⟨rfl, (unplaced_setSegmentFileoff _ _ _).trans hs.unplaced, fun i hi sc' hsc' => ?_⟩
  rw [setSegmentFileoff, List.getElem?_modify] at hsc'
  by_cases hik : k = i
  · subst hik
    rw [hk] at hsc'
    simp only [if_true, Option.map_eq_map, Option.map_some, Option.some.injEq] at hsc'
    rw [← hsc']
    rfl
  · rcases List.mem_append.1 hi with hi | hi
    · simp only [hik, if_false, Option.map_eq_map, Option.map_id'] at hsc'
      exact hs.fileoff i hi sc' hsc'
    · exact absurd (List.mem_singleton.1 hi).symm hik

theorem storeFileoffs_stored (hf : b.loadCommandsFinalized = true) (hd : b.DistinctOwners)
    (hv : b.DistinctVmaddrs) {c : MachOCoreDumpBuilder} {r : Bool}
    (h : storeFileoffs debug b = .ok (r, c)) :
    r = true ∧ Stored b (List.range b.segmentCmds.length) c :=
  forEach_invariant (Stored b) (fun _ _ _ _ _ hs h => storeFileoff_stored hf hd hv hs h)
    (List.range b.segmentCmds.length) [] b r c ⟨rfl, by simp⟩ h

theorem storeFileoff_ok (hf : b.loadCommandsFinalized = true) (hn : b.noteCmds ≠ [])
    (hnp : ∀ n ∈ b.noteCmds, n.provider ≠ none) (hsp : ∀ s ∈ b.segmentCmds, s.provider ≠ none)
    {c : MachOCoreDumpBuilder} {k : ℕ} (hu : c.unplaced = b.unplaced) :
    ∃ c', storeFileoff debug k c = .ok (true, c') ∧ c'.unplaced = b.unplaced := by
  unfold storeFileoff
  split
  · exact ⟨c, rfl, hu⟩
  rename_i sc hk
  obtain ⟨r, hr⟩ : ∃ r, c.getOffsetForSegmentCommandPayload debug sc.cmd.vmaddr = .ok r :=
    getSegmentOffset_ok ((eq_of_unplaced hu).1.trans hf) hk (notes_ne_nil_of_unplaced hu hn)
      (fun _ => forall_notes_of_unplaced hu (f := (·.provider)) (fun _ => rfl)
        (P := (· ≠ none)) hnp)
      fun _ => forall_segments_of_unplaced hu (f := (·.provider)) (fun _ => rfl)
        (P := (· ≠ none)) hsp
  rw [hr]
  exact ⟨_, rfl, (unplaced_setSegmentFileoff _ _ _).trans hu⟩

/-- With all the providers there, the loop comes to its end. -/
theorem storeFileoffs_ok (hf : b.loadCommandsFinalized = true) (hn : b.noteCmds ≠ [])
    (hnp : ∀ n ∈ b.noteCmds, n.provider ≠ none) (hsp : ∀ s ∈ b.segmentCmds, s.provider ≠ none) :
    ∃ c, storeFileoffs debug b = .ok (true, c) := by
  obtain ⟨c, hc, -⟩ := forEach_finishes (fun _ c => c.unplaced = b.unplaced)
    (fun _ _ _ _ _ hu => storeFileoff_ok hf hn hnp hsp hu) (List.range b.segmentCmds.length)
    [] b rfl rfl
  exact ⟨c, hc⟩

end Store

/-- The `ci`-th operation done stores a command, and the `si`-th seek is to `off`, as far as the
build came; one that succeeds comes to both. -/
structure Places (ci si : ℕ) (isCommand : List UInt8 → Prop) (off : UInt64) (r : Bool)
    (done : List StreamOp) : Prop where
  command : ∀ op, done[ci]? = some op → ∃ bytes n, op = .write (some bytes) n ∧ isCommand bytes
  position : ∀ p, (seeks done)[si]? = some p → p = off
  whole : r = true → ci < done.length ∧ si < (seeks done).length

section Places

variable {σ : Type} [OStream σ] {debug : Bool} {b : MachOCoreDumpBuilder}

theorem build_log (hf : b.loadCommandsFinalized = true) (hd : b.DistinctOwners)
    (hv : b.DistinctVmaddrs) {s : Recorded σ} {st' : BuildState (Recorded σ)} {r : Bool}
    (h : build debug ⟨b, s⟩ = .ok (r, st')) :
    ∃ done, st'.stream.log = s.log ++ done ∧ done <+: b.script ∧ (r = true → done = b.script) := by
  have hfin : b.finalizeLoadCommands = b := by rw [finalizeLoadCommands, if_pos hf]
  obtain ⟨-, hr⟩ := build_script (by rwa [hfin]) (by rwa [hfin]) h
  simp only [hfin] at hr
  obtain ⟨done, hpre, hlog, htrue⟩ := runOps_log b.script s
  rw [← hr] at hlog htrue
  exact ⟨done, hlog, hpre, htrue⟩

theorem places_of_script {ci si : ℕ} {isCommand : List UInt8 → Prop} {off : UInt64} {r : Bool}
    {done : List StreamOp} {bytes : List UInt8} {n : UInt64} (hpre : done <+: b.script)
    (htrue : r = true → done = b.script) (hop : b.script[ci]? = some (.write (some bytes) n))
    (hbytes : isCommand bytes) (hseek : (seeks b.script)[si]? = some off) :
    Places ci si isCommand off r done := by
  have hget : ∀ {α : Type} {l l' : List α} {i : ℕ} {a : α}, l <+: l' → l[i]? = some a →
      l'[i]? = some a := by
    rintro α l l' i a ⟨t, rfl⟩ hi
    rw [List.getElem?_append_left (List.getElem?_eq_some_iff.1 hi).1, hi]
  refine ⟨fun op h => ?_, fun p h => ?_, fun h => ?_⟩
  · have := hget hpre h
    rw [hop, Option.some.injEq] at this
    exact ⟨bytes, n, this.symm, hbytes⟩
  · have := hget (seeks_isPrefix hpre) h
    rw [hseek, Option.some.injEq] at this
    exact this.symm
  · rw [htrue h]
    exact ⟨(List.getElem?_eq_some_iff.1 hop).1, (List.getElem?_eq_some_iff.1 hseek).1⟩

theorem places_note (hf : b.loadCommandsFinalized = true) (hd : b.DistinctOwners)
    (hv : b.DistinctVmaddrs) {k : ℕ} {nc : Note} (hk : b.noteCmds[k]? = some nc)
    {s : Recorded σ} {st' : BuildState (Recorded σ)} {r : Bool}
    (h : build debug ⟨b, s⟩ = .ok (r, st')) :
    ∃ done, st'.stream.log = s.log ++ done
      ∧ Places (1 + k) k (fun bytes => ∃ c : NoteCommand, bytes = c.bytes
          ∧ c.dataOwner = nc.cmd.dataOwner ∧ c.offset = b.noteOffset k)
            (b.noteOffset k) r done := by
  obtain ⟨done, hlog, hpre, htrue⟩ := build_log hf hd hv h
  have hlen : k < b.noteCmds.length := (List.getElem?_eq_some_iff.1 hk).1
  have hplaced : b.placedNotes[k]? = some (nc.cmd.withOffset (b.noteOffset k)) := by
    simp [placedNotes, hk]
  refine ⟨done, hlog, places_of_script hpre htrue (n := NoteCommand.sizeOf.toUInt64) ?_
    ⟨nc.cmd.withOffset (b.noteOffset k), rfl, rfl, rfl⟩ ?_⟩
  · have hlen' : k < b.placedNotes.length := (List.getElem?_eq_some_iff.1 hplaced).1
    rw [script, commandOps_eq, Nat.add_comm, List.cons_append, List.getElem?_cons_succ,
      List.append_assoc, List.append_assoc, List.getElem?_append_left (by simpa using hlen'),
      List.getElem?_map, hplaced]
    rfl
  · rw [seeks_script, List.getElem?_append_left (by simpa using hlen)]
    simp [hlen]

theorem places_segment (hf : b.loadCommandsFinalized = true) (hd : b.DistinctOwners)
    (hv : b.DistinctVmaddrs) {k : ℕ} {sc : Segment} (hk : b.segmentCmds[k]? = some sc)
    {s : Recorded σ} {st' : BuildState (Recorded σ)} {r : Bool}
    (h : build debug ⟨b, s⟩ = .ok (r, st')) :
    ∃ done, st'.stream.log = s.log ++ done
      ∧ Places (1 + b.noteCmds.length + b.threadCmds.length + k) (b.noteCmds.length + k)
        (fun bytes => ∃ c : SegmentCommand64, bytes = c.bytes
          ∧ c.vmaddr = sc.cmd.vmaddr ∧ c.fileoff = b.segmentOffset k) (b.segmentOffset k) r
        done := by
  obtain ⟨done, hlog, hpre, htrue⟩ := build_log hf hd hv h
  have hlen : k < b.segmentCmds.length := (List.getElem?_eq_some_iff.1 hk).1
  have hplaced : b.placedSegments[k]? = some (sc.cmd.withFileoff (b.segmentOffset k)) := by
    simp [placedSegments, hk]
  have hnotes : b.placedNotes.length = b.noteCmds.length := by simp [placedNotes]
  refine ⟨done, hlog, places_of_script hpre htrue (n := SegmentCommand64.sizeOf.toUInt64) ?_
    ⟨sc.cmd.withFileoff (b.segmentOffset k), rfl, rfl, rfl⟩ ?_⟩
  · have hlen' : k < b.placedSegments.length := (List.getElem?_eq_some_iff.1 hplaced).1
    have hidx : 1 + b.noteCmds.length + b.threadCmds.length + k
        = b.noteCmds.length + b.threadCmds.length + k + 1 := by omega
    rw [script, commandOps_eq, hidx, List.cons_append, List.getElem?_cons_succ,
      List.getElem?_append_left (by simp; omega), List.getElem?_append_right (by simp [hnotes])]
    simp only [List.length_append, List.length_map, hnotes, Nat.add_sub_cancel_left,
      List.getElem?_map, hplaced, Option.map_some]
  · rw [seeks_script, List.getElem?_append_right (by simp)]
    simp [hlen]

/-- Until its payload is written, the offset of a note asked for is the one `Build` stores and seeks
to, whatever is attached to it and to the notes after it; and the offsets that
`AddPayloadsAndWrite` stores in the segments are those `Build` stores and seeks to. -/
theorem earlyOffsets_final (hf : b.loadCommandsFinalized = true) (hd : b.DistinctOwners)
    (hv : b.DistinctVmaddrs) :
    (∀ (k : ℕ) (nc : Note) (name : List UInt8), b.noteCmds[k]? = some nc →
      (∀ n ∈ b.noteCmds.take k, n.provider ≠ none) → cstr name = nc.cmd.dataOwner.chars →
      ((nc.cmd.offset = 0 ∨ nc.cmd.dataOwner.chars.length < 16) →
        ∃ off, b.getOffsetForNoteCommandPayload debug name = .ok (some off))
      ∧ ∀ off, b.getOffsetForNoteCommandPayload debug name = .ok (some off) →
        ∀ (calls : List (Call σ)) (b' : MachOCoreDumpBuilder),
          (∀ c ∈ calls, c.AttachesPast (b.noteCmds.take k)) → runCalls debug calls b = .ok b' →
          ∀ (s : Recorded σ) (r : Bool) (st' : BuildState (Recorded σ)),
            build debug ⟨b', s⟩ = .ok (r, st') → ∃ done, st'.stream.log = s.log ++ done
              ∧ Places (1 + k) k (fun bytes => ∃ c : NoteCommand, bytes = c.bytes
                ∧ c.dataOwner = nc.cmd.dataOwner ∧ c.offset = off) off r done)
    ∧ (b.noteCmds ≠ [] → (∀ n ∈ b.noteCmds, n.provider ≠ none) →
        (∀ s ∈ b.segmentCmds, s.provider ≠ none) → ∃ b', storeFileoffs debug b = .ok (true, b'))
    ∧ ∀ (r₀ : Bool) (b' : MachOCoreDumpBuilder), storeFileoffs debug b = .ok (r₀, b') →
      ∀ (k : ℕ) (sc : Segment), b'.segmentCmds[k]? = some sc →
        ∀ (s : Recorded σ) (r : Bool) (st' : BuildState (Recorded σ)),
          build debug ⟨b', s⟩ = .ok (r, st') → ∃ done, st'.stream.log = s.log ++ done
            ∧ Places (1 + b.noteCmds.length + b.threadCmds.length + k) (b.noteCmds.length + k)
              (fun bytes => ∃ c : SegmentCommand64, bytes = c.bytes
                ∧ c.vmaddr = sc.cmd.vmaddr ∧ c.fileoff = sc.cmd.fileoff) sc.cmd.fileoff r done := by
  refine ⟨fun k nc name hk hp hname => ⟨fun hz => ⟨_, getOffset_early hf hd hk hp hname hz⟩, ?_⟩,
    ?_, ?_⟩
  · intro off hoff calls b' hcalls hrun s r st' hb
    have hoff' := getOffset_of_chars_eq hf hd hk hname hoff
    have hsame := runCalls_attachesPast hcalls hrun
    obtain ⟨nc', hk', howner⟩ : ∃ nc', b'.noteCmds[k]? = some nc'
        ∧ nc'.cmd.dataOwner = nc.cmd.dataOwner := by
      have h := congrArg (·[k]?) hsame.owners
      simp only [List.getElem?_map, hk, Option.map_some] at h
      exact Option.map_eq_some_iff.1 h
    have hplaces := places_note (hsame.finalized.trans hf) (hsame.distinctOwners hd)
      (hsame.distinctVmaddrs hv) hk' hb
    rwa [hsame.noteOffset, howner, ← hoff'] at hplaces
  · exact storeFileoffs_ok hf
  · intro r₀ b' hst k sc hk s r st' hb
    obtain ⟨-, hstored⟩ := storeFileoffs_stored hf hd hv hst
    have hu := hstored.unplaced
    have hlen : b'.segmentCmds.length = b.segmentCmds.length := by
      simpa using congrArg List.length (map_segments_of_unplaced hu (fun _ => ()) fun _ => rfl)
    have hlt : k < b.segmentCmds.length := hlen ▸ (List.getElem?_eq_some_iff.1 hk).1
    have hplaces := places_segment ((eq_of_unplaced hu).1.trans hf)
      (distinctOwners_of_unplaced hu hd) (distinctVmaddrs_of_unplaced hu hv) hk hb
    rwa [segmentOffset_of_unplaced hu, length_notes_of_unplaced hu, (eq_of_unplaced hu).2.2.1,
      ← hstored.fileoff k (List.mem_range.2 hlt) sc hk] at hplaces

end Places

/-- Two notes, the second without its provider yet, and a segment. -/
def earlySample : MachOCoreDumpBuilder :=
  (((new .arm64).addNoteCommand [0x61] (some (copiedDataProvider [1, 2, 3]))).2.addNoteCommand
    [0x62] none).2.addSegmentCommand 0x1000 1 (some (copiedDataProvider [4, 5]))
    |>.2.finalizeLoadCommands

theorem earlyOffsets_final_sample :
    ∃ off, earlySample.getOffsetForNoteCommandPayload true [0x62] = .ok (some off)
      ∧ ∀ (b' : MachOCoreDumpBuilder),
        runCalls true [(.addDataProviderForNoteCommand [0x62] (some (copiedDataProvider [6])) :
          Call FileStream)] earlySample = .ok b' →
        ∀ (s : Recorded FileStream) (r : Bool) (st' : BuildState (Recorded FileStream)),
          build true ⟨b', s⟩ = .ok (r, st') → ∃ done, st'.stream.log = s.log ++ done
            ∧ Places 2 1 (fun bytes => ∃ c : NoteCommand, bytes = c.bytes
              ∧ c.dataOwner = ⟨[0x62], by decide, by decide⟩ ∧ c.offset = off) off r done := by
  have hd : earlySample.DistinctOwners := by
    refine List.pairwise_pair.2 fun h => ?_
    exact absurd (congrArg OwnerName.chars h) (by decide)
  have hv : earlySample.DistinctVmaddrs := List.pairwise_singleton _ _
  obtain ⟨hreturns, hfinal⟩ := (@earlyOffsets_final FileStream _ true earlySample rfl hd hv).1 1
    ⟨⟨LC_NOTE, NoteCommand.sizeOf, ⟨[0x62], by decide, by decide⟩, 0, 0⟩, none⟩ [0x62] rfl
    (by intro n hn; obtain rfl := List.mem_singleton.1 hn; simp) rfl
  obtain ⟨off, hoff⟩ := hreturns (.inl rfl)
  refine ⟨off, hoff, fun b' hrun s r st' hb => hfinal off hoff _ b'
    (fun c hc => ?_) hrun s r st' hb⟩
  obtain rfl := List.mem_singleton.1 hc
  refine ⟨_, _, rfl, fun n hn => ?_⟩
  obtain rfl := List.mem_singleton.1 hn
  decide

end MacMiniDump
