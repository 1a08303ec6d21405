import MacMiniDump.Layout

/-!
# A build that completes

On a file, a builder with a provider on every note and every segment runs its whole script
(`build_completes`): the positions of the script never go back and never pass the end of the
offsets, so the check of a debug build finds nothing to complain about, and every lookup and every
read it relies on succeeds.
-/

namespace MacMiniDump

open MachOCoreDumpBuilder

/-- From the position `pos` on the script never seeks back and never passes `2 ^ 64`, and has the
bytes of every write. -/
def Ascending : List StreamOp → ℕ → Prop
  | [], _ => True
  | .setPosition p :: ops, pos => pos ≤ p.toNat ∧ Ascending ops p.toNat
  | .write data size :: ops, pos =>
    (∃ d, data = some d ∧ d.length = size.toNat) ∧ pos + size.toNat < 2 ^ 64
      ∧ Ascending ops (pos + size.toNat)

/-- Where a script leaves the position. -/
def endPos : List StreamOp → ℕ → ℕ
  | [], pos => pos
  | .setPosition p :: ops, _ => endPos ops p.toNat
  | .write _ size :: ops, pos => endPos ops (pos + size.toNat)

theorem ascending_append :
    ∀ (ops ops' : List StreamOp) (pos : ℕ),
      Ascending (ops ++ ops') pos ↔ Ascending ops pos ∧ Ascending ops' (endPos ops pos)
  | [], _, _ => by simp [Ascending, endPos]
  | .setPosition p :: ops, ops', pos => by
    simp [Ascending, endPos, ascending_append ops, and_assoc]
  | .write data size :: ops, ops', pos => by
    simp [Ascending, endPos, ascending_append ops, and_assoc]

/-- On a file an ascending script succeeds. -/
theorem runOps_ascending :
    ∀ {ops : List StreamOp} {f : FileStream}, Ascending ops f.pos →
      (runOps ops f).1 = true ∧ (runOps ops f).2.pos = endPos ops f.pos
  | [], f, _ => ⟨rfl, rfl⟩
  | .setPosition p :: ops, f, h => by
    obtain ⟨h₁, h₂⟩ := runOps_ascending (f := { f with pos := p.toNat }) h.2
    exact ⟨h₁, h₂⟩
  | .write data size :: ops, f, h => by
    obtain ⟨⟨d, rfl, hd⟩, -, hrest⟩ := h
    obtain ⟨h₁, h₂⟩ := runOps_ascending
      (f := ⟨writeAt f.content f.pos d, f.pos + d.length⟩) (by rwa [hd])
    rw [runOps, FileStream.write_some, if_pos rfl]
    exact ⟨h₁, by rw [h₂, hd, endPos]⟩

/-- As far as a debug build knows, nothing was written at or past the position. -/
structure Clear (debug : Bool) (st : BuildState FileStream) : Prop where
  pos : st.stream.pos < 2 ^ 64
  written : debug = true → ∀ r ∈ st.builder.writtenRanges, r.2.toNat ≤ st.stream.pos

/-- In a build of `b` the statement does not fault, given that its script is ascending. -/
def Completes (debug : Bool) (b : MachOCoreDumpBuilder)
    (f : BuildState FileStream → Except Fault (Bool × BuildState FileStream))
    (ops : List StreamOp) : Prop :=
  ∀ st, Building b st → Clear debug st → Ascending ops st.stream.pos →
    ∃ r st', f st = .ok (r, st') ∧ Clear debug st'

section Completes

variable {b : MachOCoreDumpBuilder} {debug : Bool}

theorem Clear.setPosition {st : BuildState FileStream} (h : Clear debug st) {p : UInt64}
    (hp : st.stream.pos ≤ p.toNat) :
    Clear debug { st with stream := OStream.setPosition p st.stream } :=
  ⟨p.toNat_lt, fun hdbg r hr => (h.written hdbg r hr).trans hp⟩

/-- Where nothing was written yet, a write overwrites nothing. -/
theorem overwrites_of_clear {ranges : List (UInt64 × UInt64)} {start stop : UInt64}
    (h : ∀ r ∈ ranges, r.2 ≤ start) (hs : start ≤ stop) : overwrites ranges start stop = false := by
  rw [overwrites, List.any_eq_false]
  intro r hr
  have h₁ : ¬ start < r.2 := not_lt.2 (h r hr)
  have h₂ : ¬ stop < r.2 := not_lt.2 ((h r hr).trans hs)
  simp [h₁, h₂]

theorem completes_write (data : Option (List UInt8)) (size : UInt64) :
    Completes debug b (writeToOStream debug data size)
      [.write (data.map (·.take size.toNat)) size] := by
  intro st _ hc ⟨⟨d, hd, hlen⟩, hfit, _⟩
  obtain ⟨d', rfl, rfl⟩ := Option.map_eq_some_iff.1 hd
  have hpos : (UInt64.ofNat st.stream.pos).toNat = st.stream.pos := by
    rw [UInt64.toNat_ofNat', Nat.mod_eq_of_lt hc.pos]
  have hstop : (UInt64.ofNat st.stream.pos + size).toNat = st.stream.pos + size.toNat := by
    rw [UInt64.toNat_add, hpos, Nat.mod_eq_of_lt hfit]
  have hw : (debug && overwrites st.builder.writtenRanges (UInt64.ofNat st.stream.pos)
      (UInt64.ofNat st.stream.pos + size)) = false := by
    rcases hdbg : debug with _ | _
    · rfl
    refine overwrites_of_clear (fun r hr => ?_) ?_
    · rw [UInt64.le_iff_toNat_le, hpos]
      exact hc.written hdbg r hr
    · rw [UInt64.le_iff_toNat_le, hpos, hstop]
      omega
  have hread : ¬ d'.length < size.toNat := by
    rw [List.length_take] at hlen
    omega
  refine ⟨true, _, by
    simp only [writeToOStream, Option.isNone_some, Bool.and_false, Bool.false_and,
      Bool.false_eq_true,
      if_false, Option.any_some, decide_eq_true_eq, hread, OStream.getPosition, hw]
    rfl, ?_⟩
  simp only [Option.map_some, FileStream.write_some]
  refine ⟨by simpa [hlen] using hfit, fun hdbg r hr => ?_⟩
  have hr' : r ∈ st.builder.writtenRanges ∨ r.2.toNat = st.stream.pos + size.toNat := by
    simp only [hdbg] at hr
    rcases List.mem_append.1 hr with hr | hr
    · exact .inl hr
    · rw [List.mem_singleton.1 hr]
      exact .inr hstop
  simp only [hlen]
  rcases hr' with hr' | hr'
  · have := hc.written hdbg r hr'
    omega
  · exact hr'.le

theorem completes_write_some {d : List UInt8} {size : UInt64} (hlen : d.length ≤ size.toNat) :
    Completes debug b (writeToOStream debug (some d) size) [.write (some d) size] := by
  have h : Completes debug b (writeToOStream debug (some d) size) _ := completes_write (some d) size
  rwa [Option.map_some, List.take_of_length_le hlen] at h

theorem Completes.seq {f g : BuildState FileStream → Except Fault (Bool × BuildState FileStream)}
    {ops ops' : List StreamOp} (hf : Completes debug b f ops)
    (hs : Scripted (Building b) (fun st : BuildState FileStream => st.stream) f ops)
    (hg : Completes debug b g ops') : Completes debug b (MacMiniDump.seq f g) (ops ++ ops') := by
  intro st hb hc ha
  obtain ⟨ha₁, ha₂⟩ := (ascending_append _ _ _).1 ha
  obtain ⟨r, st₁, h₁, hc₁⟩ := hf st hb hc ha₁
  obtain ⟨hb₁, hr⟩ := hs st r st₁ hb h₁
  obtain ⟨htrue, hpos⟩ := runOps_ascending ha₁
  rw [← hr] at htrue hpos
  simp only at htrue hpos
  subst htrue
  rw [← hpos] at ha₂
  obtain ⟨r', st₂, h₂, hc₂⟩ := hg st₁ hb₁ hc₁ ha₂
  exact ⟨r', st₂, by rw [seq_of_ok h₁, h₂], hc₂⟩

theorem Completes.forEach {ι : Type*}
    {body : ι → BuildState FileStream → Except Fault (Bool × BuildState FileStream)}
    {ops : ι → List StreamOp} (hb : ∀ i, Completes debug b (body i) (ops i))
    (hs : ∀ i, Scripted (Building b) (fun st : BuildState FileStream => st.stream) (body i)
      (ops i)) :
    ∀ is : List ι, Completes debug b (MacMiniDump.forEach body is) (is.flatMap ops)
  | [] => fun st _ hc _ => ⟨true, st, rfl, hc⟩
  | i :: is => by
    have hseq := (hb i).seq (hs i) (Completes.forEach hb hs is)
    intro st hP hc ha
    obtain ⟨r, st', h, hc'⟩ := hseq st hP hc ha
    exact ⟨r, st', by rw [← h, MacMiniDump.forEach, MacMiniDump.seq], hc'⟩

end Completes

/-- Every note has a provider, every segment one of its own size that is not empty. -/
structure Provided (b : MachOCoreDumpBuilder) : Prop where
  someNote : b.noteCmds ≠ []
  notes : ∀ n ∈ b.noteCmds, n.provider ≠ none
  segments : ∀ s ∈ b.segmentCmds, ∃ p, s.provider = some p ∧ p.size = s.cmd.filesize ∧ p.size ≠ 0

section Loops

variable {b : MachOCoreDumpBuilder} {debug : Bool}

theorem Provided.of_unplaced {c : MachOCoreDumpBuilder} (hp : Provided b)
    (h : c.unplaced = b.unplaced) : Provided c := by
  refine ⟨notes_ne_nil_of_unplaced h hp.someNote,
    forall_notes_of_unplaced h (f := (·.provider)) (fun _ => rfl) (P := (· ≠ none)) hp.notes, ?_⟩
  exact forall_segments_of_unplaced h (f := fun s => (s.provider, s.cmd.filesize)) (fun _ => rfl)
    (P := fun x => ∃ p, x.1 = some p ∧ p.size = x.2 ∧ p.size ≠ 0) hp.segments

theorem completes_threadCommand (k : ℕ) :
    Completes debug b (writeThreadCommand debug k) (b.threadCommandOps k) := by
  intro st hP hc ha
  rw [threadCommandOps, ← (eq_of_unplaced hP).2.2.1] at ha
  rcases hk : st.builder.threadCmds[k]? with _ | tc
  · exact ⟨true, st, writeThreadCommand_of_none hk, hc⟩
  rw [hk] at ha
  rw [writeThreadCommand_of_some hk]
  exact completes_write (some tc.bytes) _ st hP hc ha

variable (hf : b.loadCommandsFinalized = true) (hd : b.DistinctOwners) (hp : Provided b)

include hf hd hp

theorem getOffset_ok_of_unplaced {c : MachOCoreDumpBuilder} (hP : c.unplaced = b.unplaced) {k : ℕ}
    {nc : Note} (hk : c.noteCmds[k]? = some nc) :
    c.getOffsetForNoteCommandPayload debug nc.cmd.ownerMemory = .ok (some (b.noteOffset k)) := by
  have hc : c.loadCommandsFinalized = true := (eq_of_unplaced hP).1.trans hf
  obtain ⟨found, ho⟩ : ∃ r, c.getOffsetForNoteCommandPayload debug nc.cmd.ownerMemory = .ok r :=
    getOffset_ok hc hk rfl fun _ n hn => (hp.of_unplaced hP).notes n (List.mem_of_mem_take hn)
  rw [ho, getOffset_of_cstr_eq hc (distinctOwners_of_unplaced hP hd) hk rfl ho,
    noteOffset_of_unplaced hP k]

theorem completes_noteCommand (k : ℕ) :
    Completes debug b (writeNoteCommand debug k) (b.noteCommandOps k) := by
  intro st hP hc ha
  rcases hk : st.builder.noteCmds[k]? with _ | nc
  · exact ⟨true, st, writeNoteCommand_of_none hk, hc⟩
  obtain ⟨n, hb, -, -, hcmd⟩ := note_of_unplaced hP hk
  simp only [writeNoteCommand_of_some hk, getOffset_ok_of_unplaced hf hd hp hP hk, ok_bind,
    Option.getD_some, hcmd]
  rw [noteCommandOps, hb] at ha
  exact completes_write_some (b := b) (by simp [NoteCommand.sizeOf])
    { st with builder := st.builder.setNoteOffset k (b.noteOffset k) }
    ((unplaced_setNoteOffset _ _ _).trans hP) ⟨hc.pos, hc.written⟩ ha

theorem completes_notePayload (k : ℕ) :
    Completes debug b (writeNotePayload debug k) (b.notePayloadOps k) := by
  intro st hP hc ha
  rcases hk : st.builder.noteCmds[k]? with _ | nc
  · exact ⟨true, st, writeNotePayload_of_none hk, hc⟩
  obtain ⟨n, hb, hprov, hsize, -⟩ := note_of_unplaced hP hk
  obtain ⟨p, hpn⟩ := Option.ne_none_iff_exists'.1
    ((hp.of_unplaced hP).notes nc (List.mem_of_getElem? hk))
  simp only [writeNotePayload_of_some hk, getOffset_ok_of_unplaced hf hd hp hP hk, ok_bind,
    Option.elim_some, hpn]
  rw [notePayloadOps, hb] at ha
  simp only [hprov, hpn, hsize, Option.bind_some] at ha
  exact completes_write (b := b) p.getAll _ _ hP (hc.setPosition ha.1) ha.2

variable (hv : b.DistinctVmaddrs)

include hv

theorem getSegmentOffset_ok_of_unplaced {c : MachOCoreDumpBuilder}
    (hP : c.unplaced = b.unplaced) {k : ℕ} {sc : Segment} (hk : c.segmentCmds[k]? = some sc) :
    c.getOffsetForSegmentCommandPayload debug sc.cmd.vmaddr = .ok (some (b.segmentOffset k)) := by
  have hc : c.loadCommandsFinalized = true := (eq_of_unplaced hP).1.trans hf
  have hpc := hp.of_unplaced hP
  obtain ⟨found, ho⟩ : ∃ r, c.getOffsetForSegmentCommandPayload debug sc.cmd.vmaddr = .ok r :=
    getSegmentOffset_ok hc hk hpc.someNote
    (fun _ => hpc.notes) fun _ s hs => by
      obtain ⟨p, hprov, -⟩ := hpc.segments s hs
      simp [hprov]
  rw [ho, getSegmentOffset_eq hc (distinctOwners_of_unplaced hP hd)
    (distinctVmaddrs_of_unplaced hP hv) hk ho, segmentOffset_of_unplaced hP k]

theorem completes_segmentCommand (k : ℕ) :
    Completes debug b (writeSegmentCommand debug k) (b.segmentCommandOps k) := by
  intro st hP hc ha
  rcases hk : st.builder.segmentCmds[k]? with _ | sc
  · exact ⟨true, st, writeSegmentCommand_of_none hk, hc⟩
  obtain ⟨s, hb, -, hcmd⟩ := segment_of_unplaced hP hk
  simp only [writeSegmentCommand_of_some hk, getSegmentOffset_ok_of_unplaced hf hd hp hv hP hk,
    ok_bind, Option.getD_some, hcmd]
  rw [segmentCommandOps, hb] at ha
  exact completes_write_some (b := b) (by simp [SegmentCommand64.sizeOf])
    { st with builder := st.builder.setSegmentFileoff k (b.segmentOffset k) }
    ((unplaced_setSegmentFileoff _ _ _).trans hP) ⟨hc.pos, hc.written⟩ ha

omit hf hd hp hv in
theorem completes_writeChunks (p : DataProvider) (chunkSize : UInt64) :
    ∀ (n : ℕ) (offset : UInt64) (st : BuildState FileStream), Building b st → Clear debug st →
      Ascending ((readChunks p chunkSize n offset).1.map fun d => .write (some d) chunkSize)
        st.stream.pos →
      ∃ r offset' st', writeChunks debug p chunkSize n offset st = .ok (r, offset', st')
        ∧ Clear debug st'
  | 0, offset, st, _, hc, _ => ⟨true, offset, st, rfl, hc⟩
  | n + 1, offset, st, hP, hc, ha => by
    unfold writeChunks
    unfold readChunks at ha
    split
    · exact ⟨true, offset, st, rfl, hc⟩
    rename_i data hg
    simp only [hg, List.map_cons] at ha
    have ha' : Ascending ([.write (some (data.take chunkSize.toNat)) chunkSize]
        ++ (readChunks p chunkSize n (offset + chunkSize)).1.map
          fun d => .write (some d) chunkSize) st.stream.pos := ha
    obtain ⟨ha₁, ha₂⟩ := (ascending_append _ _ _).1 ha'
    obtain ⟨r, st₁, hw, hc₁⟩ := completes_write (some data) chunkSize st hP hc ha₁
    obtain ⟨hP₁, hr⟩ := scripted_write _ _ st r st₁ hP hw
    obtain ⟨htrue, hpos⟩ := runOps_ascending ha₁
    simp only [Option.map_some] at hr
    rw [← hr] at htrue hpos
    simp only at htrue hpos
    subst htrue
    rw [← hpos] at ha₂
    simp only [hw]
    exact completes_writeChunks p chunkSize n _ st₁ hP₁ hc₁ ha₂

omit hf hd hp hv in
theorem completes_segmentData (p : DataProvider) :
    Completes debug b (writeSegmentData debug p) (segmentDataOps p) := by
  intro st hP hc ha
  rw [segmentDataOps] at ha
  obtain ⟨ha₁, ha₂⟩ := (ascending_append _ _ _).1 ha
  obtain ⟨r, offset', st₁, hw, hc₁⟩ := completes_writeChunks (b := b) p
    (min p.size maxChunkSize) (p.size / min p.size maxChunkSize).toNat 0 st hP hc ha₁
  obtain ⟨hs₁, hoff, hr⟩ := writeChunks_eq p _ _ _ _ st _ _ hw
  obtain ⟨htrue, hpos⟩ := runOps_ascending ha₁
  rw [← hr] at htrue hpos
  simp only at htrue hpos
  subst htrue
  simp only [writeSegmentData, hw]
  rw [hoff rfl]
  refine completes_write (b := b) _ _ st₁ (hs₁.unplaced.trans hP) hc₁ ?_
  rw [hpos]
  exact ha₂

theorem completes_segmentPayload (k : ℕ) :
    Completes debug b (writeSegmentPayload debug k) (b.segmentPayloadOps k) := by
  intro st hP hc ha
  rcases hk : st.builder.segmentCmds[k]? with _ | sc
  · exact ⟨true, st, writeSegmentPayload_of_none hk, hc⟩
  obtain ⟨s, hb, hprov, -⟩ := segment_of_unplaced hP hk
  obtain ⟨p, hsp, hsize, hne⟩ := (hp.of_unplaced hP).segments sc (List.mem_of_getElem? hk)
  have hassert : ¬ (debug && p.size != sc.cmd.filesize) = true := by simp [hsize]
  have hchunk : ¬ min p.size maxChunkSize = 0 := chunkSize_eq_zero_iff.not.2 hne
  simp only [writeSegmentPayload_of_some hk, hsp, Option.elim_some, if_neg hassert,
    getSegmentOffset_ok_of_unplaced hf hd hp hv hP hk, ok_bind, if_neg hchunk]
  rw [segmentPayloadOps, hb] at ha
  simp only [hprov, hsp, Option.map_some, Option.getD_some] at ha
  exact completes_segmentData p _ hP (hc.setPosition ha.1) ha.2

theorem completes_writeOut : Completes debug b (writeOut debug b) b.script := by
  have hall : Completes debug b (writeOut debug b) _ :=
    (completes_write_some (by simp [MachHeader64.sizeOf])).seq scripted_header
    ((Completes.forEach (completes_noteCommand hf hd hp) (scripted_noteCommand hf hd)
      (List.range b.noteCmds.length)).seq
      (Scripted.forEach (scripted_noteCommand hf hd) (List.range b.noteCmds.length))
    ((Completes.forEach completes_threadCommand scripted_threadCommand
      (List.range b.threadCmds.length)).seq
      (Scripted.forEach scripted_threadCommand (List.range b.threadCmds.length))
    ((Completes.forEach (completes_segmentCommand hf hd hp hv) (scripted_segmentCommand hf hd hv)
      (List.range b.segmentCmds.length)).seq
      (Scripted.forEach (scripted_segmentCommand hf hd hv) (List.range b.segmentCmds.length))
    ((Completes.forEach (completes_notePayload hf hd hp) (scripted_notePayload hf hd)
      (List.range b.noteCmds.length)).seq
      (Scripted.forEach (scripted_notePayload hf hd) (List.range b.noteCmds.length))
    (Completes.forEach (completes_segmentPayload hf hd hp hv) (scripted_segmentPayload hf hd hv)
      (List.range b.segmentCmds.length))))))
  rw [script, commandOps, ← List.singleton_append]
  simpa only [List.append_assoc] using hall

end Loops

theorem writtenRanges_finalizeLoadCommands (b : MachOCoreDumpBuilder) :
    b.finalizeLoadCommands.writtenRanges = b.writtenRanges := by
  unfold finalizeLoadCommands
  split_ifs <;> rfl

/-- A build whose script is ascending ends, and has run the script. -/
theorem build_completes {debug : Bool} {b : MachOCoreDumpBuilder} {f : FileStream}
    (hd : b.finalizeLoadCommands.DistinctOwners) (hv : b.finalizeLoadCommands.DistinctVmaddrs)
    (hp : Provided b.finalizeLoadCommands) (hpos : f.pos < 2 ^ 64)
    (ha : Ascending b.finalizeLoadCommands.script f.pos) :
    ∃ st', build debug ⟨b, f⟩ = .ok (true, st')
      ∧ runOps b.finalizeLoadCommands.script f = (true, st'.stream) := by
  have hf := finalized_finalizeLoadCommands b
  have hu := unplaced_startOfBuild debug b
  have hclear : Clear debug { builder := startOfBuild debug b, stream := f } := by
    refine ⟨hpos, fun hdbg r hr => ?_⟩
    rw [hdbg, startOfBuild, if_pos rfl, writtenRanges_finalizeLoadCommands] at hr
    simp at hr
  obtain ⟨r, st', h, -⟩ := completes_writeOut hf hd hp hv
    { builder := startOfBuild debug b, stream := f } hu hclear ha
  have hb : build debug ⟨b, f⟩ = .ok (r, st') := by rw [build_eq, h]
  obtain ⟨-, hr⟩ := build_script hd hv hb
  have htrue : r = true := by
    rw [← (runOps_ascending ha).1, ← hr]
  subst htrue
  exact ⟨st', hb, hr.symm⟩

end MacMiniDump
