import MacMiniDump.Defined
import MacMiniDump.Extents
import MacMiniDump.OffsetQueries

/-!
# Memory that cannot be read

A chunk that cannot be read ends the loop over the chunks of its segment, and what is left over is
then read from there. What is written is the target's memory, byte by byte, however much of it that
is; but when what is left over cannot be read either, a null pointer is written with its size.
-/

namespace MacMiniDump

open MachOCoreDumpBuilder

section Follows

variable {σ : Type} {b : MachOCoreDumpBuilder}

/-- In a build of `b` the statement, when it ends, has run one of the scripts. -/
def Follows [OStream σ] (b : MachOCoreDumpBuilder)
    (f : BuildState σ → Except Fault (Bool × BuildState σ)) (S : List StreamOp → Prop) : Prop :=
  (∃ ops, S ops) ∧ ∀ st r st', Building b st → f st = .ok (r, st') →
    Building b st' ∧ ∃ ops, S ops ∧ (r, st'.stream) = runOps ops st.stream

/-- One script after another. -/
def Then (S S' : List StreamOp → Prop) (ops : List StreamOp) : Prop :=
  ∃ ops₁ ops₂, S ops₁ ∧ S' ops₂ ∧ ops = ops₁ ++ ops₂

/-- One script for each. -/
def Each {ι : Type*} (S : ι → List StreamOp → Prop) (is : List ι) (ops : List StreamOp) : Prop :=
  ∃ parts, List.Forall₂ S is parts ∧ ops = parts.flatten

theorem mem_each {ι : Type*} {S : ι → List StreamOp → Prop} {is : List ι} {ops : List StreamOp}
    (h : Each S is ops) {op : StreamOp} (hop : op ∈ ops) :
    ∃ i ∈ is, ∃ part, S i part ∧ op ∈ part := by
  obtain ⟨parts, hparts, rfl⟩ := h
  induction hparts with
  | nil => simp at hop
  | @cons i part is parts hpart _ ih =>
    rcases List.mem_append.1 hop with hop | hop
    · exact ⟨i, List.mem_cons_self, part, hpart, hop⟩
    · obtain ⟨j, hj, h⟩ := ih hop
      exact ⟨j, List.mem_cons_of_mem _ hj, h⟩

/-- Nothing but writes, all of them of data. -/
def Plain (ops : List StreamOp) : Prop := ∀ op ∈ ops, ∃ d n, op = .write (some d) n

variable [OStream σ] {debug : Bool}

theorem Follows.seq {f g : BuildState σ → Except Fault (Bool × BuildState σ)}
    {S S' : List StreamOp → Prop} (hf : Follows b f S) (hg : Follows b g S') :
    Follows b (MacMiniDump.seq f g) (Then S S') := by
  obtain ⟨⟨o₁, h₁⟩, hf⟩ := hf
  obtain ⟨⟨o₂, h₂⟩, hg⟩ := hg
  refine ⟨⟨_, o₁, o₂, h₁, h₂, rfl⟩, fun st r st' hP h => ?_⟩
  unfold MacMiniDump.seq at h
  split at h
  · rename_i st₁ hs
    obtain ⟨hP₁, ops₁, hS, hr⟩ := hf st true st₁ hP hs
    obtain ⟨hP₂, ops₂, hS', hr'⟩ := hg st₁ r st' hP₁ h
    exact ⟨hP₂, _, ⟨ops₁, ops₂, hS, hS', rfl⟩, by rw [runOps_append_of_true _ _ hr.symm, hr']⟩
  · rename_i hno
    obtain ⟨hP₁, ops₁, hS, hr⟩ := hf st r st' hP h
    rcases r with _ | _
    · exact ⟨hP₁, _, ⟨ops₁, o₂, hS, h₂, rfl⟩, by rw [runOps_append_of_false _ _ hr.symm]⟩
    · exact absurd h (hno st')

theorem Follows.forEach {ι : Type*}
    {body : ι → BuildState σ → Except Fault (Bool × BuildState σ)} {S : ι → List StreamOp → Prop}
    (hb : ∀ i, Follows b (body i) (S i)) :
    ∀ is : List ι, Follows b (MacMiniDump.forEach body is) (Each S is)
  | [] => by
    refine ⟨⟨[], [], .nil, rfl⟩, fun st r st' hP h => ?_⟩
    simp only [MacMiniDump.forEach, Except.ok.injEq, Prod.mk.injEq] at h
    obtain ⟨rfl, rfl⟩ := h
    exact ⟨hP, [], ⟨[], .nil, rfl⟩, rfl⟩
  | i :: is => by
    have heach : ∀ ops, Then (S i) (Each S is) ops → Each S (i :: is) ops := by
      rintro ops ⟨ops₁, ops₂, hS, ⟨parts, hparts, rfl⟩, rfl⟩
      exact ⟨ops₁ :: parts, .cons hS hparts, rfl⟩
    obtain ⟨⟨ops, hops⟩, hseq⟩ := (hb i).seq (Follows.forEach hb is)
    refine ⟨⟨ops, heach ops hops⟩, fun st r st' hP h => ?_⟩
    obtain ⟨hP', ops', hS, hr⟩ := hseq st r st' hP h
    exact ⟨hP', ops', heach ops' hS, hr⟩

theorem Scripted.follows {f : BuildState σ → Except Fault (Bool × BuildState σ)}
    {ops : List StreamOp} {S : List StreamOp → Prop}
    (h : Scripted (Building b) (fun st : BuildState σ => st.stream) f ops) (hS : S ops) :
    Follows b f S :=
  ⟨⟨ops, hS⟩, fun st r st' hP hr => ⟨(h st r st' hP hr).1, ops, hS, (h st r st' hP hr).2⟩⟩

/-- A loop over the commands of a builder does nothing past the last one. -/
theorem follows_of_none {S : List StreamOp → Prop}
    {f : BuildState σ → Except Fault (Bool × BuildState σ)} {st : BuildState σ} {r : Bool}
    {st' : BuildState σ} (hP : Building b st) (hf : f st = .ok (true, st)) (hS : S [])
    (h : f st = .ok (r, st')) :
    Building b st' ∧ ∃ ops, S ops ∧ (r, st'.stream) = runOps ops st.stream := by
  rw [hf] at h
  simp only [Except.ok.injEq, Prod.mk.injEq] at h
  obtain ⟨rfl, rfl⟩ := h
  exact ⟨hP, [], hS, rfl⟩

theorem plain_nil : Plain [] := by simp [Plain]

theorem plain_write (d : List UInt8) (n : UInt64) : Plain [.write (some d) n] := by
  intro op hop
  exact ⟨d, n, List.mem_singleton.1 hop⟩

theorem follows_noteCommand (k : ℕ) : Follows (σ := σ) b (writeNoteCommand debug k) Plain := by
  refine ⟨⟨[], plain_nil⟩, fun st r st' hP h => ?_⟩
  rcases hk : st.builder.noteCmds[k]? with _ | nc
  · exact follows_of_none hP (writeNoteCommand_of_none hk) plain_nil h
  · obtain ⟨found, -, hs, hr⟩ := writeNoteCommand_eq hk h
    exact ⟨hs.unplaced.trans ((unplaced_setNoteOffset _ _ _).trans hP), _, plain_write _ _, hr⟩

theorem follows_segmentCommand (k : ℕ) :
    Follows (σ := σ) b (writeSegmentCommand debug k) Plain := by
  refine ⟨⟨[], plain_nil⟩, fun st r st' hP h => ?_⟩
  rcases hk : st.builder.segmentCmds[k]? with _ | sc
  · exact follows_of_none hP (writeSegmentCommand_of_none hk) plain_nil h
  · obtain ⟨found, -, hs, hr⟩ := writeSegmentCommand_eq hk h
    exact ⟨hs.unplaced.trans ((unplaced_setSegmentFileoff _ _ _).trans hP), _, plain_write _ _, hr⟩

/-- The payload of a note, wherever it is. -/
def NotePart (b : MachOCoreDumpBuilder) (k : ℕ) (ops : List StreamOp) : Prop :=
  ∀ n, b.noteCmds[k]? = some n → ∃ pos, ops = [.setPosition pos,
    .write ((n.provider.bind (·.getAll)).map (·.take n.cmd.size.toNat)) n.cmd.size]

/-- The payload of a segment, wherever it is. -/
def SegmentPart (b : MachOCoreDumpBuilder) (k : ℕ) (ops : List StreamOp) : Prop :=
  ∀ s, b.segmentCmds[k]? = some s →
    ∃ pos, ops = .setPosition pos :: (s.provider.map segmentDataOps).getD []

theorem follows_notePayload (k : ℕ) :
    Follows (σ := σ) b (writeNotePayload debug k) (NotePart b k) := by
  refine ⟨?_, fun st r st' hP h => ?_⟩
  · rcases hb : b.noteCmds[k]? with _ | n
    · exact ⟨[], fun n hn => by simp [hb] at hn⟩
    · exact ⟨_, fun m hm => ⟨0, by rw [← Option.some.inj (hb.symm.trans hm)]⟩⟩
  rcases hk : st.builder.noteCmds[k]? with _ | nc
  · refine follows_of_none hP (writeNotePayload_of_none hk) (fun n hn => ?_) h
    rw [(getElem?_eq_none_of_unplaced hP).1.1 hk] at hn
    simp at hn
  · obtain ⟨offset, p, -, hprov, hs, hr⟩ := writeNotePayload_eq hk h
    obtain ⟨n, hb, hp, hsize, -⟩ := note_of_unplaced hP hk
    refine ⟨hs.unplaced.trans hP, _, fun m hm => ⟨offset, ?_⟩, hr⟩
    obtain rfl : n = m := Option.some.inj (hb.symm.trans hm)
    rw [hp, hprov, hsize, Option.bind_some]

theorem follows_segmentPayload (k : ℕ) :
    Follows (σ := σ) b (writeSegmentPayload debug k) (SegmentPart b k) := by
  refine ⟨?_, fun st r st' hP h => ?_⟩
  · rcases hb : b.segmentCmds[k]? with _ | s
    · exact ⟨[], fun s hs => by simp [hb] at hs⟩
    · exact ⟨_, fun m hm => ⟨0, by rw [← Option.some.inj (hb.symm.trans hm)]⟩⟩
  rcases hk : st.builder.segmentCmds[k]? with _ | sc
  · refine follows_of_none hP (writeSegmentPayload_of_none hk) (fun s hs => ?_) h
    rw [(getElem?_eq_none_of_unplaced hP).2.1 hk] at hs
    simp at hs
  · obtain ⟨offset, p, -, hprov, hs, hr⟩ := writeSegmentPayload_eq hk h
    obtain ⟨s, hb, hp, -⟩ := segment_of_unplaced hP hk
    refine ⟨hs.unplaced.trans hP, _, fun m hm => ⟨offset, ?_⟩, hr⟩
    obtain rfl : s = m := Option.some.inj (hb.symm.trans hm)
    rw [hp, hprov, Option.map_some, Option.getD_some]

theorem plain_append {ops ops' : List StreamOp} (h : Plain ops) (h' : Plain ops') :
    Plain (ops ++ ops') := by
  intro op hop
  rcases List.mem_append.1 hop with hop | hop
  · exact h op hop
  · exact h' op hop

theorem plain_each {ι : Type*} {is : List ι} {ops : List StreamOp}
    (h : Each (fun _ => Plain) is ops) : Plain ops := by
  obtain ⟨parts, hparts, rfl⟩ := h
  induction hparts with
  | nil => exact plain_nil
  | cons hpart _ ih => exact plain_append hpart ih

theorem plain_threadCommandOps (k : ℕ) : Plain (b.threadCommandOps k) := by
  unfold threadCommandOps
  split
  · exact plain_nil
  · exact plain_write _ _

/-- The scripts of a build: the header and the commands, the payloads of the notes, and those of the
segments. -/
def BuildScript (b : MachOCoreDumpBuilder) : List StreamOp → Prop :=
  Then Plain (Then (Each (NotePart b) (List.range b.noteCmds.length))
    (Each (SegmentPart b) (List.range b.segmentCmds.length)))

theorem follows_writeOut : Follows (σ := σ) b (writeOut debug b) (BuildScript b) := by
  have hthreads : ∀ k, Follows (σ := σ) b (writeThreadCommand debug k) Plain := fun k =>
    (scripted_threadCommand k).follows (plain_threadCommandOps k)
  have hheader : Follows (σ := σ) b
      (writeToOStream debug (some b.header.bytes) MachHeader64.sizeOf) Plain :=
    scripted_header.follows (plain_write _ _)
  have hall : Follows (σ := σ) b (writeOut debug b) _ :=
    hheader.seq
    ((Follows.forEach follows_noteCommand (List.range b.noteCmds.length)).seq
    ((Follows.forEach hthreads (List.range b.threadCmds.length)).seq
    ((Follows.forEach follows_segmentCommand (List.range b.segmentCmds.length)).seq
    ((Follows.forEach follows_notePayload (List.range b.noteCmds.length)).seq
      (Follows.forEach follows_segmentPayload (List.range b.segmentCmds.length))))))
  -- the parts before the payloads are plain together
  have hmerge : ∀ ops, Then Plain (Then (Each (fun _ => Plain) (List.range b.noteCmds.length))
      (Then (Each (fun _ => Plain) (List.range b.threadCmds.length))
      (Then (Each (fun _ => Plain) (List.range b.segmentCmds.length))
      (Then (Each (NotePart b) (List.range b.noteCmds.length))
        (Each (SegmentPart b) (List.range b.segmentCmds.length)))))) ops → BuildScript b ops := by
    rintro ops ⟨o₁, _, h₁, ⟨o₂, _, h₂, ⟨o₃, _, h₃, ⟨o₄, o₅, h₄, h₅, rfl⟩, rfl⟩, rfl⟩, rfl⟩
    exact ⟨o₁ ++ (o₂ ++ (o₃ ++ o₄)), o₅, plain_append h₁ (plain_append (plain_each h₂)
      (plain_append (plain_each h₃) (plain_each h₄))), h₅, by simp only [List.append_assoc]⟩
  obtain ⟨⟨ops, hops⟩, hrun⟩ := hall
  refine ⟨⟨ops, hmerge ops hops⟩, fun st r st' hP h => ?_⟩
  obtain ⟨hP', ops', hS, hr⟩ := hrun st r st' hP h
  exact ⟨hP', ops', hmerge ops' hS, hr⟩

/-- Whatever the owners and the addresses are, a build that ends has run one of its scripts. -/
theorem build_follows {st st' : BuildState σ} {r : Bool} (h : build debug st = .ok (r, st')) :
    ∃ ops, BuildScript st.builder.finalizeLoadCommands ops
      ∧ (r, st'.stream) = runOps ops st.stream := by
  rw [build_eq] at h
  exact (follows_writeOut.2 { builder := startOfBuild debug st.builder, stream := st.stream } r st'
    (unplaced_startOfBuild debug st.builder) h).2

end Follows

section Written

theorem seeks_of_plain {ops : List StreamOp} (h : Plain ops) : seeks ops = [] :=
  seeks_eq_nil fun op hop => by
    obtain ⟨d, n, rfl⟩ := h op hop
    exact ⟨_, _, rfl⟩

/-- Parts that each start with their only seek. -/
theorem written_each {ι : Type*} {S : ι → List StreamOp → Prop} (content : ι → List UInt8) :
    ∀ {is : List ι} {ops : List StreamOp}, Each S is ops →
      (∀ i ∈ is, ∀ part, S i part → ∃ pos ws, part = .setPosition pos :: ws ∧ seeks ws = []
        ∧ dataUntilSeek ws = content i) →
      dataUntilSeek ops = [] ∧ (written ops).map Prod.snd = is.map content
  | [], ops, ⟨parts, hparts, hops⟩, _ => by
    obtain rfl : parts = [] := List.forall₂_nil_left_iff.1 hparts
    subst hops
    exact ⟨rfl, rfl⟩
  | i :: is, ops, ⟨parts, hparts, hops⟩, hS => by
    obtain ⟨part, parts, hpart, hrest, rfl⟩ := List.forall₂_cons_left_iff.1 hparts
    obtain ⟨pos, ws, rfl, hseeks, hcontent⟩ := hS i List.mem_cons_self part hpart
    have heach : Each S is parts.flatten := ⟨parts, hrest, rfl⟩
    obtain ⟨hd, hw⟩ := written_each content heach fun j hj => hS j (List.mem_cons_of_mem _ hj)
    obtain ⟨hw', hd'⟩ := written_append_of_seeks_eq_nil parts.flatten hseeks
    subst hops
    rw [List.flatten_cons, List.cons_append, written, hw', hd', hd, List.append_nil, hcontent,
      List.map_cons, List.map_cons, hw]
    exact ⟨rfl, rfl⟩

end Written

/-! ## Reading the memory of the target -/

/-- A read fails, or gives the bytes of the memory. -/
def Faithful (read : UInt64 → UInt64 → Option (List UInt8)) (byte : UInt64 → UInt8) : Prop :=
  ∀ a n d, read a n = some d → d = (List.range n.toNat).map fun i => byte (a + UInt64.ofNat i)

section Reads

variable {read : UInt64 → UInt64 → Option (List UInt8)} {byte : UInt64 → UInt8}
  {start size : UInt64}

theorem processMemory_get (h : Faithful read byte) {offset n : UInt64} {d : List UInt8}
    (hd : (processMemoryDataProvider read start size).get offset n = some d) :
    d = (List.range n.toNat).map fun i => byte (start + offset + UInt64.ofNat i) := by
  simp only [processMemoryDataProvider] at hd
  split_ifs at hd
  exact h _ _ _ hd

theorem processMemory_honest (h : Faithful read byte) :
    (processMemoryDataProvider read start size).Honest := by
  intro offset n d _ hd
  rw [processMemory_get h hd, List.length_map, List.length_range]

/-- The chunks are the memory, as far as they come, and stop where they end. -/
theorem readChunks_bytes (h : Faithful read byte) (chunkSize : UInt64) :
    ∀ (n : ℕ) (offset : UInt64),
      let chunks := readChunks (processMemoryDataProvider read start size) chunkSize n offset
      chunks.2 = offset + UInt64.ofNat chunks.1.flatten.length
        ∧ ∀ i v, chunks.1.flatten[i]? = some v → v = byte (start + offset + UInt64.ofNat i)
  | 0, offset => by simp [readChunks]
  | n + 1, offset => by
    unfold readChunks
    rcases hg : (processMemoryDataProvider read start size).get offset chunkSize with _ | d
    · simp
    obtain ⟨hstop, hbytes⟩ := readChunks_bytes h chunkSize n (offset + chunkSize)
    have hd := processMemory_get h hg
    have hlen : d.length = chunkSize.toNat := by rw [hd, List.length_map, List.length_range]
    have htake : d.take chunkSize.toNat = d := List.take_of_length_le hlen.le
    simp only [htake, List.flatten_cons, List.length_append, hlen]
    refine ⟨?_, fun i v hv => ?_⟩
    · rw [hstop, UInt64.ofNat_add, UInt64.ofNat_toNat, UInt64.add_assoc]
    · rcases Nat.lt_or_ge i chunkSize.toNat with hi | hi
      · rw [List.getElem?_append_left (by omega), hd, List.getElem?_map,
          List.getElem?_range hi] at hv
        simpa using hv.symm
      · rw [List.getElem?_append_right (by omega), hlen] at hv
        have hsplit : UInt64.ofNat i = chunkSize + UInt64.ofNat (i - chunkSize.toNat) := by
          rw [← UInt64.ofNat_toNat (x := chunkSize), ← UInt64.ofNat_add,
            UInt64.toNat_ofNat_of_lt' chunkSize.toNat_lt]
          congr 1
          omega
        rw [hbytes _ v hv, hsplit, UInt64.add_assoc, UInt64.add_assoc, UInt64.add_assoc]

/-- What is written of a segment is the memory from its address on. -/
theorem segmentData_bytes (h : Faithful read byte) {i : ℕ} {v : UInt8}
    (hv : (dataUntilSeek
      (segmentDataOps (processMemoryDataProvider read start size)))[i]? = some v) :
    v = byte (start + UInt64.ofNat i) := by
  set p := processMemoryDataProvider read start size with hp
  set c := min p.size maxChunkSize with hc
  set chunks := readChunks p c (p.size / c).toNat 0 with hchunks
  obtain ⟨hstop, hbytes⟩ : chunks.2 = 0 + UInt64.ofNat chunks.1.flatten.length
      ∧ ∀ i v, chunks.1.flatten[i]? = some v → v = byte (start + 0 + UInt64.ofNat i) :=
    readChunks_bytes h c (p.size / c).toNat 0
  have hops : segmentDataOps p = chunks.1.map (fun d => .write (some d) c)
      ++ [.write ((p.get chunks.2 (p.size % c)).map (·.take (p.size % c).toNat)) (p.size % c)] :=
        rfl
  rw [hops, dataUntilSeek_writes, List.flatMap_id'] at hv
  rcases Nat.lt_or_ge i chunks.1.flatten.length with hi | hi
  · rw [List.getElem?_append_left hi] at hv
    rw [hbytes i v hv, UInt64.add_zero]
  -- what is left over was read from where the chunks stop
  · rw [List.getElem?_append_right hi] at hv
    rcases hg : p.get chunks.2 (p.size % c) with _ | d
    · simp [hg, dataUntilSeek] at hv
    have hd := processMemory_get h hg
    have hlen : d.length = (p.size % c).toNat := by rw [hd, List.length_map, List.length_range]
    have hnil : dataUntilSeek [] = [] := rfl
    rw [hg, Option.map_some, List.take_of_length_le hlen.le, dataUntilSeek, Option.getD_some,
      hnil, List.append_nil] at hv
    have hj : i - chunks.1.flatten.length < (p.size % c).toNat := by
      rw [← hlen]
      exact (List.getElem?_eq_some_iff.1 hv).1
    rw [hd, List.getElem?_map, List.getElem?_range hj, Option.map_some, Option.some.injEq, hstop,
      UInt64.zero_add, UInt64.add_assoc, ← UInt64.ofNat_add, Nat.add_sub_cancel' hi] at hv
    exact hv.symm

end Reads

/-- Streams that store all data they are given. -/
structure StoresData (σ : Type) [OStream σ] : Prop where
  data : ∀ d n (s : σ), (OStream.write (some d) n s).1 = true
  empty : ∀ s : σ, (OStream.write none 0 s).1 = true

/-- Reads that fail neither fail a build nor crash it, and what is written of a segment, from the
seek to its place on, is the memory. -/
structure Tolerates (byte : UInt64 → UInt8) (b : MachOCoreDumpBuilder) : Prop where
  noNull : ∀ (debug : Bool) (σ : Type) [OStream σ] (s : σ) (r : Bool)
    (st' : BuildState (Recorded σ)), build debug ⟨b, ⟨s, []⟩⟩ = .ok (r, st') →
    ∀ n, .write none n ∈ st'.stream.log → n = 0
  succeeds : ∀ (σ : Type) [OStream σ], StoresData σ → ∀ s : σ,
    ∃ st', build false ⟨b, s⟩ = .ok (true, st')
  bytes : ∀ (debug : Bool) (σ : Type) [OStream σ] (s : σ) (r : Bool)
    (st' : BuildState (Recorded σ)), build debug ⟨b, ⟨s, []⟩⟩ = .ok (r, st') →
    ∀ k sc w, b.segmentCmds[k]? = some sc →
      (written st'.stream.log)[b.noteCmds.length + k]? = some w →
      ∀ i v, w.2[i]? = some v → v = byte (sc.cmd.vmaddr + UInt64.ofNat i)

/-- What is left over after the whole chunks of a segment is nothing, or can be read from where the
chunks stopped. -/
structure Tolerable (b : MachOCoreDumpBuilder) : Prop where
  fed : Fed b
  leftover : ∀ s ∈ b.segmentCmds, ∀ p, s.provider = some p →
    leftoverSize p = 0 ∨ leftover p ≠ none

/-- Notes that can be read, and segments of the target's memory. -/
structure OverMemory (read : UInt64 → UInt64 → Option (List UInt8)) (b : MachOCoreDumpBuilder) :
    Prop where
  notes : ∀ n ∈ b.noteCmds, ∃ p data, n.provider = some p ∧ p.ReadsAll data
  segments : ∀ s ∈ b.segmentCmds,
    s.provider = some (processMemoryDataProvider read s.cmd.vmaddr s.cmd.filesize)

section Tolerates

variable {read : UInt64 → UInt64 → Option (List UInt8)} {byte : UInt64 → UInt8}
  {b : MachOCoreDumpBuilder} {ops : List StreamOp}

theorem OverMemory.note (h : OverMemory read b) {n : Note} (hn : n ∈ b.noteCmds) :
    ∃ d, n.provider.bind (·.getAll) = some d := by
  obtain ⟨p, data, hp, hr⟩ := h.notes n hn
  exact ⟨data, by rw [hp, Option.bind_some, hr.getAll]⟩

theorem OverMemory.allHonest (h : OverMemory read b) (hread : Faithful read byte) :
    AllHonest b where
  notes n hn p d hp hd := by
    obtain ⟨q, data, hq, hr⟩ := h.notes n hn
    obtain rfl : p = q := Option.some.inj (hp.symm.trans hq)
    obtain rfl : d = data := Option.some.inj (hd.symm.trans hr.getAll)
    exact hr.size.le
  segments s hs p hp := by
    obtain rfl := Option.some.inj ((h.segments s hs).symm.trans hp)
    exact processMemory_honest hread

/-- The log of a build is the start of one of its scripts. -/
theorem log_isPrefix {σ : Type} [OStream σ] {debug r : Bool} {s : σ}
    {st' : BuildState (Recorded σ)} (h : build debug ⟨b, ⟨s, []⟩⟩ = .ok (r, st')) :
    ∃ ops, BuildScript b.finalizeLoadCommands ops ∧ st'.stream.log <+: ops := by
  obtain ⟨ops, hS, hr⟩ := build_follows h
  obtain ⟨done, hdone, hlog, -⟩ := runOps_log ops (⟨s, []⟩ : Recorded σ)
  refine ⟨ops, hS, ?_⟩
  have hstream : st'.stream = (runOps ops (⟨s, []⟩ : Recorded σ)).2 := congrArg Prod.snd hr
  rw [hstream, hlog, List.nil_append]
  exact hdone

theorem null_of_mem_segmentDataOps {p : DataProvider} {n : UInt64}
    (h : StreamOp.write none n ∈ segmentDataOps p) : leftover p = none ∧ n = leftoverSize p := by
  rw [segmentDataOps, List.mem_append, List.mem_map, List.mem_singleton] at h
  rcases h with ⟨d, -, hd⟩ | h
  · simp at hd
  · simp only [StreamOp.write.injEq] at h
    exact ⟨Option.map_eq_none_iff.1 h.1.symm, h.2⟩

/-- The only null pointers are those of bytes left over that could not be read. -/
theorem null_of_mem_script (hb : OverMemory read b) (hS : BuildScript b.finalizeLoadCommands ops)
    {n : UInt64} (hn : StreamOp.write none n ∈ ops) :
    ∃ s ∈ b.segmentCmds, ∃ p, s.provider = some p ∧ leftover p = none ∧ n = leftoverSize p := by
  obtain ⟨cmds, _, hplain, ⟨notes, segments, hnotes, hsegments, rfl⟩, rfl⟩ := hS
  rw [noteCmds_finalizeLoadCommands] at hnotes
  rw [segmentCmds_finalizeLoadCommands] at hsegments
  rcases List.mem_append.1 hn with hn | hn
  · obtain ⟨d, m, hd⟩ := hplain _ hn
    simp at hd
  rcases List.mem_append.1 hn with hn | hn
  · obtain ⟨k, hk, part, hpart, hmem⟩ := mem_each hnotes hn
    have hget := List.getElem?_eq_getElem (List.mem_range.1 hk)
    obtain ⟨pos, rfl⟩ := hpart _ (by rw [noteCmds_finalizeLoadCommands]; exact hget)
    obtain ⟨d, hd⟩ := hb.note (List.mem_of_getElem? hget)
    simp [hd] at hmem
  · obtain ⟨k, hk, part, hpart, hmem⟩ := mem_each hsegments hn
    have hget := List.getElem?_eq_getElem (List.mem_range.1 hk)
    obtain ⟨pos, rfl⟩ := hpart _ (by rw [segmentCmds_finalizeLoadCommands]; exact hget)
    have hs := List.mem_of_getElem? hget
    have hp := hb.segments _ hs
    rw [hp, Option.map_some, Option.getD_some, List.mem_cons] at hmem
    rcases hmem with hmem | hmem
    · simp at hmem
    · obtain ⟨hnone, hsize⟩ := null_of_mem_segmentDataOps hmem
      exact ⟨_, hs, _, hp, hnone, hsize⟩

/-- What a build writes after the seeks for its segments. -/
theorem written_script (hb : OverMemory read b) (hS : BuildScript b.finalizeLoadCommands ops)
    {k : ℕ} {s : Segment} (hk : b.segmentCmds[k]? = some s) {w : UInt64 × List UInt8}
    (hw : (written ops)[b.noteCmds.length + k]? = some w) :
    w.2 = dataUntilSeek
      (segmentDataOps (processMemoryDataProvider read s.cmd.vmaddr s.cmd.filesize)) := by
  obtain ⟨cmds, _, hplain, ⟨notes, segments, hnotes, hsegments, rfl⟩, rfl⟩ := hS
  obtain ⟨hdseg, hwseg⟩ := written_each
    (fun k => (b.segmentCmds[k]?.map fun s =>
      dataUntilSeek (segmentDataOps
        (processMemoryDataProvider read s.cmd.vmaddr s.cmd.filesize))).getD []) hsegments
    fun k hk part hpart => by
      rw [segmentCmds_finalizeLoadCommands] at hk
      have hget := List.getElem?_eq_getElem (List.mem_range.1 hk)
      obtain ⟨pos, rfl⟩ := hpart _ (by rw [segmentCmds_finalizeLoadCommands]; exact hget)
      have hp := hb.segments _ (List.mem_of_getElem? hget)
      refine ⟨pos, _, rfl, ?_, ?_⟩
      · rw [hp]
        exact seeks_segmentDataOps _
      · rw [hp, hget]
        rfl
  obtain ⟨-, hwnote⟩ := written_each
    (fun k => (b.noteCmds[k]?.map fun n =>
      ((n.provider.bind (·.getAll)).map (·.take n.cmd.size.toNat)).getD []).getD []) hnotes
    fun k hk part hpart => by
      rw [noteCmds_finalizeLoadCommands] at hk
      have hget := List.getElem?_eq_getElem (List.mem_range.1 hk)
      obtain ⟨pos, rfl⟩ := hpart _ (by rw [noteCmds_finalizeLoadCommands]; exact hget)
      refine ⟨pos, _, rfl, rfl, ?_⟩
      rw [hget, dataUntilSeek, Option.map_some, Option.getD_some]
      exact List.append_nil _
  have hlen : (written notes).length = b.noteCmds.length := by
    have := congrArg List.length hwnote
    simpa using this
  rw [(written_append_of_seeks_eq_nil _ (seeks_of_plain hplain)).1, (written_append hdseg notes).1,
    List.getElem?_append_right (by omega), hlen, Nat.add_sub_cancel_left] at hw
  have hsnd := congrArg (·[k]?) hwseg
  have hlt : k < b.segmentCmds.length := (List.getElem?_eq_some_iff.1 hk).1
  simp only [List.getElem?_map, hw, Option.map_some, segmentCmds_finalizeLoadCommands,
    List.getElem?_range hlt, hk, Option.getD_some, Option.some.injEq] at hsnd
  exact hsnd

/-- A file refuses a null pointer unless it is empty. -/
theorem takes_fileStream :
    Takes FileStream (fun _ _ => False) (fun data n => data = true ∨ n = 0) := by
  refine ⟨fun _ _ _ hfalse => hfalse.elim, fun data n f hw => ?_⟩
  rcases data with _ | d
  · exact .inr (by simpa [OStream.write, FileStream.write] using hw)
  · exact .inl rfl

/-- A build tolerates reads that fail exactly when, of every segment, nothing is left over after the
whole chunks or what is left over can be read. -/
theorem build_tolerates_iff {debug : Bool} {arch : Arch} (h : Accepted debug arch b)
    (hb : OverMemory read b) (hread : Faithful read byte) : Tolerates byte b ↔ Tolerable b := by
  have hnoted : Noted b := h.fresh.noted fun n hn => by
    obtain ⟨p, data, hp, -⟩ := hb.notes n hn
    simp [hp]
  constructor
  · intro ht
    obtain ⟨st', hst'⟩ := ht.succeeds FileStream ⟨fun _ _ _ => rfl, fun _ => rfl⟩ FileStream.empty
    obtain ⟨hfed, hleft⟩ :=
      ((build_outcome false takes_fileStream hnoted FileStream.empty).2 true st' hst').2 rfl
    refine ⟨hfed, fun s hs p hp => ?_⟩
    rcases hleft s hs p hp with h | h
    · exact .inr (Option.isSome_iff_ne_none.1 h)
    · exact .inl h
  · rintro ⟨hfed, hleft⟩
    refine ⟨fun debug' σ _ s r st' hst' n hn => ?_, fun σ _ hσ s => ?_,
      fun debug' σ _ s r st' hst' k sc w hk hw i v hv => ?_⟩
    · obtain ⟨ops, hS, hpre⟩ := log_isPrefix hst'
      obtain ⟨sc, hsc, p, hp, hnone, rfl⟩ := null_of_mem_script hb hS (hpre.subset hn)
      exact (hleft sc hsc p hp).resolve_right fun hsome => hsome hnone
    · have hyes : Takes σ (fun data n => data = true ∨ n = 0) (fun _ _ => True) := by
        refine ⟨fun data n s hw => ?_, fun _ _ _ _ => trivial⟩
        rcases data with _ | d
        · obtain rfl : n = 0 := by simpa using hw
          exact hσ.empty s
        · exact hσ.data d n s
      obtain ⟨hfault, hok⟩ := build_outcome false hyes hnoted s
      rcases hr : build false ⟨b, s⟩ with e | ⟨r, st'⟩
      · rcases hfault e hr with ⟨-, hdbg⟩ | ⟨-, hnot⟩ | ⟨-, hnot⟩
        · simp at hdbg
        · exact absurd (hb.allHonest hread) hnot
        · exact absurd hfed hnot
      · have htrue : r = true := by
          refine (hok r st' hr).1 ⟨fun _ => .inl rfl, fun n hn => .inl ?_, fun sc hsc p hp => ?_⟩
          · obtain ⟨d, hd⟩ := hb.note hn
            rw [hd]
            rfl
          · rcases hleft sc hsc p hp with h | h
            · exact .inr h
            · exact .inl (Option.isSome_iff_ne_none.2 h)
        exact ⟨st', by rw [htrue]⟩
    · obtain ⟨ops, hS, hpre⟩ := log_isPrefix hst'
      obtain ⟨w', hw', t, ht⟩ := written_isPrefix hpre hw
      have hcontent := written_script hb hS hk hw'
      have hv' : (dataUntilSeek (segmentDataOps (processMemoryDataProvider read sc.cmd.vmaddr
          sc.cmd.filesize)))[i]? = some v := by
        rw [← hcontent, ← ht, List.getElem?_append_left (List.getElem?_eq_some_iff.1 hv).1, hv]
      exact segmentData_bytes hread hv'

end Tolerates

/-- One byte more than a chunk, none of which can be read. -/
def unreadableSegment : MachOCoreDumpBuilder :=
  (((new .arm64).addNoteCommand [110] (some (copiedDataProvider [1]))).2.addSegmentCommand
    0x1000 3 (some (processMemoryDataProvider (fun _ _ => none) 0x1000 0x400001))).2

theorem accepted_unreadableSegment : Accepted false .arm64 unreadableSegment :=
  accepted_noteAndSegment (by decide) _ _ _ _

theorem overMemory_unreadableSegment : OverMemory (fun _ _ => none) unreadableSegment := by
  refine ⟨fun n hn => ?_, fun s hs => ?_⟩
  · obtain rfl := List.mem_singleton.1 hn
    exact ⟨_, [1], rfl, copiedDataProvider_readsAll (by simp)⟩
  · obtain rfl := List.mem_singleton.1 hs
    rfl

theorem build_tolerates_iff_unreadableSegment :
    Tolerates (fun _ => 0) unreadableSegment ↔ Tolerable unreadableSegment :=
  build_tolerates_iff accepted_unreadableSegment overMemory_unreadableSegment fun _ _ _ h => by
    simp at h

/-- Its build hands on a null pointer, with a size of one. -/
theorem not_tolerates_unreadableSegment :
    Accepted false .arm64 unreadableSegment
      ∧ OverMemory (fun _ _ => none) unreadableSegment
      ∧ ¬ Tolerates (fun _ => 0) unreadableSegment := by
  refine ⟨accepted_unreadableSegment, overMemory_unreadableSegment, fun h => ?_⟩
  have hnoted : Noted unreadableSegment :=
    accepted_unreadableSegment.fresh.noted fun n hn => by
      obtain rfl := List.mem_singleton.1 hn
      simp
  obtain ⟨st', hst'⟩ := h.succeeds FileStream ⟨fun _ _ _ => rfl, fun _ => rfl⟩ FileStream.empty
  have hleft := ((build_outcome false takes_fileStream hnoted FileStream.empty).2 true st' hst').2
    rfl
  have hzero := hleft.2 _ (List.mem_singleton.2 rfl) _ rfl
  revert hzero
  decide +kernel

end MacMiniDump
