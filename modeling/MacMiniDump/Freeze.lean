import MacMiniDump.Calls
import MacMiniDump.Layout

/-!
# Finalized load commands

Finalizing counts the commands, and no call may add one after that: the counts in the header would
be wrong, and the payloads would go where the new command is. `AddNoteCommand` and
`AddSegmentCommand` refuse, `AddThreadCommand` does not. So the commands are frozen along exactly
the runs that add no thread to a finalized builder, and whose commands fit the header's counts
(`frozenAlong_iff`).
-/

namespace MacMiniDump

open MachOCoreDumpBuilder

namespace MachOCoreDumpBuilder

/-- The commands in their order, each with its `cmdsize`. -/
def commandList (b : MachOCoreDumpBuilder) :
    List (OwnerName × UInt32) × List ThreadCommand × List (UInt64 × UInt32 × UInt32) :=
  (b.noteCmds.map fun n => (n.cmd.dataOwner, n.cmd.cmdsize), b.threadCmds,
    b.segmentCmds.map fun s => (s.cmd.vmaddr, s.cmd.initprot, s.cmd.cmdsize))

/-- How many commands `Build` writes. -/
def commandsWritten (b : MachOCoreDumpBuilder) : ℕ :=
  b.noteCmds.length + b.threadCmds.length + b.segmentCmds.length

/-- How many bytes of commands `Build` writes. -/
def commandBytesWritten (b : MachOCoreDumpBuilder) : ℕ :=
  b.noteCmds.length * NoteCommand.sizeOf.toNat + (b.threadCmds.map (·.cmdsize.toNat)).sum
    + b.segmentCmds.length * SegmentCommand64.sizeOf.toNat

/-- The header of a finalized builder counts what is written. -/
def Counted (b : MachOCoreDumpBuilder) : Prop :=
  b.loadCommandsFinalized = true →
    b.header.ncmds.toNat = b.commandsWritten ∧ b.header.sizeofcmds.toNat = b.commandBytesWritten

/-- The header has room for the counts. -/
def CountsFit (b : MachOCoreDumpBuilder) : Prop :=
  b.commandsWritten < 2 ^ 32 ∧ b.commandBytesWritten < 2 ^ 32

/-- Notes and segments have the sizes of their structures. -/
structure Sized (b : MachOCoreDumpBuilder) : Prop where
  notes : ∀ n ∈ b.noteCmds, n.cmd.cmdsize = NoteCommand.sizeOf
  segments : ∀ s ∈ b.segmentCmds, s.cmd.cmdsize = SegmentCommand64.sizeOf

end MachOCoreDumpBuilder

section Runs

variable {σ : Type} [OStream σ] (debug : Bool)

/-- Along the calls the commands of a finalized builder stay, and its header counts them. -/
def FrozenAlong : List (Call σ) → MachOCoreDumpBuilder → Prop
  | [], b => b.Counted
  | c :: cs, b => b.Counted ∧ ∀ b', c.run debug b = .ok b' →
    (b.loadCommandsFinalized = true → b'.commandList = b.commandList) ∧ FrozenAlong cs b'

/-- The call adds a thread to a finalized builder. -/
def Call.AddsThreadLate (b : MachOCoreDumpBuilder) (c : Call σ) : Prop :=
  b.loadCommandsFinalized = true ∧ ∃ states, c = .addThreadCommand states

/-- The call finalizes the builder. -/
def Call.Finalizes (b : MachOCoreDumpBuilder) (c : Call σ) : Prop :=
  b.loadCommandsFinalized = false ∧ (c = .finalizeLoadCommands ∨ ∃ stream, c = .build stream)

/-- No call adds a thread to a finalized builder, and a call that finalizes has counts that fit. -/
def ThreadsInTime : List (Call σ) → MachOCoreDumpBuilder → Prop
  | [], _ => True
  | c :: cs, b => ∀ b', c.run debug b = .ok b' →
    ¬ c.AddsThreadLate b ∧ (c.Finalizes b → b.CountsFit) ∧ ThreadsInTime cs b'

end Runs

section Build

variable {σ : Type} [OStream σ] {debug : Bool} {b : MachOCoreDumpBuilder}

theorem writeNoteCommand_building {k : ℕ} {st st' : BuildState σ} {r : Bool} (hP : Building b st)
    (h : writeNoteCommand debug k st = .ok (r, st')) : Building b st' := by
  rcases hk : st.builder.noteCmds[k]? with _ | nc
  · rw [writeNoteCommand_of_none hk] at h
    simp only [Except.ok.injEq, Prod.mk.injEq] at h
    exact h.2 ▸ hP
  · obtain ⟨found, -, hs, -⟩ := writeNoteCommand_eq hk h
    exact hs.unplaced.trans ((unplaced_setNoteOffset _ _ _).trans hP)

theorem writeThreadCommand_building {k : ℕ} {st st' : BuildState σ} {r : Bool}
    (hP : Building b st) (h : writeThreadCommand debug k st = .ok (r, st')) : Building b st' := by
  rcases hk : st.builder.threadCmds[k]? with _ | tc
  · rw [writeThreadCommand_of_none hk] at h
    simp only [Except.ok.injEq, Prod.mk.injEq] at h
    exact h.2 ▸ hP
  · rw [writeThreadCommand_of_some hk] at h
    exact (sameButRanges_write h).unplaced.trans hP

theorem writeSegmentCommand_building {k : ℕ} {st st' : BuildState σ} {r : Bool}
    (hP : Building b st) (h : writeSegmentCommand debug k st = .ok (r, st')) : Building b st' := by
  rcases hk : st.builder.segmentCmds[k]? with _ | sc
  · rw [writeSegmentCommand_of_none hk] at h
    simp only [Except.ok.injEq, Prod.mk.injEq] at h
    exact h.2 ▸ hP
  · obtain ⟨found, -, hs, -⟩ := writeSegmentCommand_eq hk h
    exact hs.unplaced.trans ((unplaced_setSegmentFileoff _ _ _).trans hP)

theorem writeNotePayload_building {k : ℕ} {st st' : BuildState σ} {r : Bool}
    (hP : Building b st) (h : writeNotePayload debug k st = .ok (r, st')) : Building b st' := by
  rcases hk : st.builder.noteCmds[k]? with _ | nc
  · rw [writeNotePayload_of_none hk] at h
    simp only [Except.ok.injEq, Prod.mk.injEq] at h
    exact h.2 ▸ hP
  · obtain ⟨offset, p, -, -, hs, -⟩ := writeNotePayload_eq hk h
    exact hs.unplaced.trans hP

theorem writeSegmentPayload_building {k : ℕ} {st st' : BuildState σ} {r : Bool}
    (hP : Building b st) (h : writeSegmentPayload debug k st = .ok (r, st')) : Building b st' := by
  rcases hk : st.builder.segmentCmds[k]? with _ | sc
  · rw [writeSegmentPayload_of_none hk] at h
    simp only [Except.ok.injEq, Prod.mk.injEq] at h
    exact h.2 ▸ hP
  · obtain ⟨offset, p, -, -, hs, -⟩ := writeSegmentPayload_eq hk h
    exact hs.unplaced.trans hP

/-- Whatever the owners and the addresses are, a build changes nothing but the offsets. -/
theorem build_unplaced {st st' : BuildState σ} {r : Bool} (h : build debug st = .ok (r, st')) :
    st'.builder.unplaced = st.builder.finalizeLoadCommands.unplaced := by
  set b := st.builder.finalizeLoadCommands with hb
  rw [build_eq, writeOut] at h
  have hstart : Building b { builder := startOfBuild debug st.builder, stream := st.stream } :=
    unplaced_startOfBuild debug st.builder
  refine seq_keeps (Building b) (fun _ _ _ hP h => (sameButRanges_write h).unplaced.trans hP)
    (fun _ _ _ hP h => ?_) hstart h
  refine seq_keeps (Building b) (forEach_keeps _ (fun _ _ _ _ hP h =>
    writeNoteCommand_building hP h) _) (fun _ _ _ hP h => ?_) hP h
  refine seq_keeps (Building b) (forEach_keeps _ (fun _ _ _ _ hP h =>
    writeThreadCommand_building hP h) _) (fun _ _ _ hP h => ?_) hP h
  refine seq_keeps (Building b) (forEach_keeps _ (fun _ _ _ _ hP h =>
    writeSegmentCommand_building hP h) _) (fun _ _ _ hP h => ?_) hP h
  exact seq_keeps (Building b) (forEach_keeps _ (fun _ _ _ _ hP h =>
    writeNotePayload_building hP h) _) (forEach_keeps _ (fun _ _ _ _ hP h =>
    writeSegmentPayload_building hP h) _) hP h

end Build

section Step

variable {σ : Type} [OStream σ] {debug : Bool} {b b' : MachOCoreDumpBuilder}

/-- Builders that differ in what a build or an attached provider changes only. -/
structure SameCommands (b b' : MachOCoreDumpBuilder) : Prop where
  finalized : b'.loadCommandsFinalized = b.loadCommandsFinalized
  header : b'.header = b.header
  notes : b'.noteCmds.map (fun n => (n.cmd.dataOwner, n.cmd.cmdsize))
    = b.noteCmds.map fun n => (n.cmd.dataOwner, n.cmd.cmdsize)
  threads : b'.threadCmds = b.threadCmds
  segments : b'.segmentCmds.map (fun s => (s.cmd.vmaddr, s.cmd.initprot, s.cmd.cmdsize))
    = b.segmentCmds.map fun s => (s.cmd.vmaddr, s.cmd.initprot, s.cmd.cmdsize)

theorem SameCommands.refl (b : MachOCoreDumpBuilder) : SameCommands b b := ⟨rfl, rfl, rfl, rfl, rfl⟩

theorem sameCommands_of_unplaced (h : b'.unplaced = b.unplaced) : SameCommands b b' :=
  ⟨(eq_of_unplaced h).1, (eq_of_unplaced h).2.1, map_notes_of_unplaced h _ fun _ => rfl,
    (eq_of_unplaced h).2.2.1, map_segments_of_unplaced h _ fun _ => rfl⟩

theorem SameCommands.commandList (h : SameCommands b b') : b'.commandList = b.commandList := by
  rw [MachOCoreDumpBuilder.commandList, h.notes, h.threads, h.segments]
  rfl

theorem SameCommands.written (h : SameCommands b b') :
    b'.commandsWritten = b.commandsWritten ∧ b'.commandBytesWritten = b.commandBytesWritten := by
  have hn : b'.noteCmds.length = b.noteCmds.length := by
    simpa using congrArg List.length h.notes
  have hs : b'.segmentCmds.length = b.segmentCmds.length := by
    simpa using congrArg List.length h.segments
  simp only [commandsWritten, commandBytesWritten, hn, hs, h.threads, and_self]

theorem SameCommands.counted (h : SameCommands b b') (hc : b.Counted) : b'.Counted := by
  intro hf
  rw [h.header, h.written.1, h.written.2]
  exact hc (h.finalized ▸ hf)

theorem SameCommands.sized (h : SameCommands b b') (hs : b.Sized) : b'.Sized := by
  refine ⟨fun n hn => ?_, fun s hmem => ?_⟩
  · have hmem : (n.cmd.dataOwner, n.cmd.cmdsize)
        ∈ b.noteCmds.map fun n => (n.cmd.dataOwner, n.cmd.cmdsize) :=
      h.notes ▸ List.mem_map_of_mem hn
    obtain ⟨m, hm, heq⟩ := List.mem_map.1 hmem
    simp only [Prod.mk.injEq] at heq
    rw [← heq.2]
    exact hs.notes m hm
  · have hmem' : (s.cmd.vmaddr, s.cmd.initprot, s.cmd.cmdsize)
        ∈ b.segmentCmds.map fun s => (s.cmd.vmaddr, s.cmd.initprot, s.cmd.cmdsize) :=
      h.segments ▸ List.mem_map_of_mem hmem
    obtain ⟨m, hm, heq⟩ := List.mem_map.1 hmem'
    simp only [Prod.mk.injEq] at heq
    rw [← heq.2.2]
    exact hs.segments m hm

theorem MachOCoreDumpBuilder.Sized.commandsSize (h : b.Sized) :
    b.commandsSize = b.commandBytesWritten := by
  have hn : b.noteCmds.map (·.cmd.cmdsize.toNat)
      = b.noteCmds.map fun _ => NoteCommand.sizeOf.toNat :=
    List.map_congr_left fun n hn => by rw [h.notes n hn]
  have hs : b.segmentCmds.map (·.cmd.cmdsize.toNat)
      = b.segmentCmds.map fun _ => SegmentCommand64.sizeOf.toNat :=
    List.map_congr_left fun s hs => by rw [h.segments s hs]
  rw [MachOCoreDumpBuilder.commandsSize, hn, hs, List.map_const', List.map_const',
    List.sum_replicate_nat, List.sum_replicate_nat, commandBytesWritten]

theorem MachOCoreDumpBuilder.Sized.finalizeLoadCommands (h : b.Sized) :
    b.finalizeLoadCommands.Sized := by
  unfold MachOCoreDumpBuilder.finalizeLoadCommands
  split_ifs
  · exact h
  · exact ⟨h.notes, h.segments⟩

/-- Finalizing counts the commands, when the counts fit. -/
theorem counted_finalizeLoadCommands (hs : b.Sized) (hf : b.loadCommandsFinalized = false) :
    b.finalizeLoadCommands.Counted ↔ b.CountsFit := by
  rw [MachOCoreDumpBuilder.finalizeLoadCommands, if_neg (by simp [hf])]
  have hmod : ∀ n : ℕ, (UInt32.ofNat n).toNat = n ↔ n < 2 ^ 32 := by
    intro n
    rw [UInt32.toNat_ofNat']
    exact ⟨fun h => h ▸ Nat.mod_lt _ (by decide), Nat.mod_eq_of_lt⟩
  have hb : (UInt32.ofNat b.commandsSize).toNat = b.commandBytesWritten
      ↔ b.commandBytesWritten < 2 ^ 32 := by
    rw [hs.commandsSize]
    exact hmod _
  simp only [Counted, CountsFit, forall_const]
  exact and_congr (hmod b.commandsWritten) hb

theorem SameCommands.symm (h : SameCommands b b') : SameCommands b' b :=
  ⟨h.finalized.symm, h.header.symm, h.notes.symm, h.threads.symm, h.segments.symm⟩

theorem finalizeLoadCommands_of_finalized (h : b.loadCommandsFinalized = true) :
    b.finalizeLoadCommands = b := by
  rw [MachOCoreDumpBuilder.finalizeLoadCommands, if_pos h]

theorem sameCommands_attach {owner : List UInt8} {p : Option DataProvider}
    (h : (Call.addDataProviderForNoteCommand owner p : Call σ).run debug b = .ok b') :
    SameCommands b b' := by
  rw [Call.run] at h
  rcases hr : b.addDataProviderForNoteCommand debug owner p with e | ⟨r, b₁⟩
  · simp [hr, Except.map] at h
  simp only [hr, Except.map, Except.ok.injEq] at h
  subst h
  rcases addDataProvider_eq hr with rfl | ⟨notes', hn, rfl⟩
  · exact .refl _
  obtain ⟨pre, nc, post, q, -, hsplit, -, -, rfl⟩ := attachDataProvider_eq hn
  exact ⟨rfl, rfl, by simp [hsplit], rfl, rfl⟩

theorem sameCommands_build {stream : σ}
    (h : (Call.build stream).run debug b = .ok b') : SameCommands b.finalizeLoadCommands b' := by
  rw [Call.run] at h
  rcases hr : build debug ⟨b, stream⟩ with e | ⟨r, st'⟩
  · simp [hr, Except.map] at h
  simp only [hr, Except.map, Except.ok.injEq] at h
  subst h
  exact sameCommands_of_unplaced (build_unplaced hr)

theorem eq_of_query {α : Type} {q : Except Fault α} (h : q.map (fun _ => b) = .ok b') : b' = b := by
  cases q with
  | error e => simp [Except.map] at h
  | ok r => simpa [Except.map] using h.symm

/-- A call that adds a note or a segment does nothing to a finalized builder. -/
theorem addNoteCommand_cases (owner : List UInt8) (p : Option DataProvider)
    (h : (b.addNoteCommand owner p).2 = b') :
    b' = b ∨ b.loadCommandsFinalized = false ∧ b'.loadCommandsFinalized = false
      ∧ ∃ n, n.cmd.cmdsize = NoteCommand.sizeOf
        ∧ b' = { b with noteCmds := b.noteCmds ++ [n] } := by
  subst h
  unfold MachOCoreDumpBuilder.addNoteCommand
  split_ifs with hf hl
  · exact .inl rfl
  · exact .inr ⟨by simpa using hf, by simpa using hf, _, rfl, rfl⟩
  · exact .inl rfl

theorem addSegmentCommand_cases (vmaddr : UInt64) (prot : UInt32) (p : Option DataProvider)
    (h : (b.addSegmentCommand vmaddr prot p).2 = b') :
    b' = b ∨ b.loadCommandsFinalized = false ∧ b'.loadCommandsFinalized = false
      ∧ ∃ s, s.cmd.cmdsize = SegmentCommand64.sizeOf
        ∧ b' = { b with segmentCmds := b.segmentCmds ++ [s] } := by
  subst h
  unfold MachOCoreDumpBuilder.addSegmentCommand
  split_ifs with hf
  · exact .inl rfl
  · exact .inr ⟨by simpa using hf, by simpa using hf, _, rfl, rfl⟩

theorem run_sized {c : Call σ} (hs : b.Sized) (h : c.run debug b = .ok b') : b'.Sized := by
  rcases c with ⟨owner, p⟩ | states | ⟨vmaddr, prot, p⟩ | ⟨owner, p⟩ | _ | owner | vmaddr | stream
  · rcases addNoteCommand_cases owner p (Except.ok.inj h) with rfl | ⟨-, -, n, hn, rfl⟩
    · exact hs
    · refine ⟨fun m hm => ?_, hs.segments⟩
      rcases List.mem_append.1 hm with hm | hm
      · exact hs.notes m hm
      · exact (List.mem_singleton.1 hm) ▸ hn
  · obtain rfl := Except.ok.inj h
    exact ⟨hs.notes, hs.segments⟩
  · rcases addSegmentCommand_cases vmaddr prot p (Except.ok.inj h) with rfl | ⟨-, -, s, hsize, rfl⟩
    · exact hs
    · refine ⟨hs.notes, fun m hm => ?_⟩
      rcases List.mem_append.1 hm with hm | hm
      · exact hs.segments m hm
      · exact (List.mem_singleton.1 hm) ▸ hsize
  · exact (sameCommands_attach h).sized hs
  · obtain rfl := Except.ok.inj h
    exact hs.finalizeLoadCommands
  · exact eq_of_query h ▸ hs
  · exact eq_of_query h ▸ hs
  · exact (sameCommands_build h).sized hs.finalizeLoadCommands

/-- A call that neither adds a thread late nor finalizes leaves the commands of a finalized builder
alone. -/
theorem run_cases {c : Call σ} (h : c.run debug b = .ok b')
    (hfin : ¬ c.Finalizes b) (hlate : ¬ c.AddsThreadLate b) :
    SameCommands b b' ∨ b.loadCommandsFinalized = false ∧ b'.loadCommandsFinalized = false := by
  rcases c with ⟨owner, p⟩ | states | ⟨vmaddr, prot, p⟩ | ⟨owner, p⟩ | _ | owner | vmaddr | stream
  · rcases addNoteCommand_cases owner p (Except.ok.inj h) with rfl | ⟨hf, hf', -⟩
    · exact .inl (.refl _)
    · exact .inr ⟨hf, hf'⟩
  · have hf : b.loadCommandsFinalized = false := by
      by_contra hf
      exact hlate ⟨by simpa using hf, states, rfl⟩
    obtain rfl := Except.ok.inj h
    exact .inr ⟨hf, hf⟩
  · rcases addSegmentCommand_cases vmaddr prot p (Except.ok.inj h) with rfl | ⟨hf, hf', -⟩
    · exact .inl (.refl _)
    · exact .inr ⟨hf, hf'⟩
  · exact .inl (sameCommands_attach h)
  · have hf : b.loadCommandsFinalized = true := by
      by_contra hf
      exact hfin ⟨by simpa using hf, .inl rfl⟩
    obtain rfl := Except.ok.inj h
    rw [finalizeLoadCommands_of_finalized hf]
    exact .inl (.refl b)
  · exact .inl (eq_of_query h ▸ .refl _)
  · exact .inl (eq_of_query h ▸ .refl _)
  · have hf : b.loadCommandsFinalized = true := by
      by_contra hf
      exact hfin ⟨by simpa using hf, .inr ⟨stream, rfl⟩⟩
    have hsame := sameCommands_build h
    rw [finalizeLoadCommands_of_finalized hf] at hsame
    exact .inl hsame

theorem run_finalizes {c : Call σ} (h : c.run debug b = .ok b') (hfin : c.Finalizes b) :
    SameCommands b.finalizeLoadCommands b' := by
  obtain ⟨-, rfl | ⟨stream, rfl⟩⟩ := hfin
  · obtain rfl := Except.ok.inj h
    exact .refl _
  · exact sameCommands_build h

end Step

section Frozen

variable {σ : Type} [OStream σ] {debug : Bool}

theorem FrozenAlong.counted {calls : List (Call σ)} {b : MachOCoreDumpBuilder}
    (h : FrozenAlong debug calls b) : b.Counted := by
  cases calls with
  | nil => exact h
  | cons c cs => exact h.1

/-- The commands are frozen along the runs that add threads in time only. -/
theorem frozenAlong_iff_of_counted :
    ∀ {calls : List (Call σ)} {b : MachOCoreDumpBuilder}, b.Sized → b.Counted →
      (FrozenAlong debug calls b ↔ ThreadsInTime debug calls b)
  | [], b, _, hc => by simp [FrozenAlong, ThreadsInTime, hc]
  | c :: cs, b, hs, hc => by
    simp only [FrozenAlong, ThreadsInTime, hc, true_and]
    refine forall_congr' fun b' => imp_congr_right fun h => ?_
    have hs' := run_sized hs h
    by_cases hlate : c.AddsThreadLate b
    · obtain ⟨hf, states, rfl⟩ := hlate
      simp only [Call.run, Except.ok.injEq] at h
      have hne : b'.commandList ≠ b.commandList := by
        intro heq
        have hlen := congrArg (fun l => l.2.1.length) heq
        simp [commandList, ← h, MachOCoreDumpBuilder.addThreadCommand] at hlen
      simp [hf, hne, Call.AddsThreadLate]
    by_cases hfin : c.Finalizes b
    · have hsame := run_finalizes h hfin
      have hcount : b'.Counted ↔ b.CountsFit := by
        rw [← counted_finalizeLoadCommands hs hfin.1]
        exact ⟨hsame.symm.counted, hsame.counted⟩
      by_cases hfit : b.CountsFit
      · simp [hfin.1, hlate, hfit, frozenAlong_iff_of_counted hs' (hcount.2 hfit)]
      · have hnot : ¬ FrozenAlong debug cs b' := fun hf => hfit (hcount.1 hf.counted)
        simp [hnot, hfit, hfin]
    · have hsame := run_cases h hfin hlate
      have hc' : b'.Counted := by
        rcases hsame with hsame | hopen
        · exact hsame.counted hc
        · intro hf
          simp [hopen.2] at hf
      have hlist : b.loadCommandsFinalized = true → b'.commandList = b.commandList := by
        intro hf
        rcases hsame with hsame | hopen
        · exact hsame.commandList
        · simp [hopen.1] at hf
      simp only [hlate, hfin, not_false_iff, true_and, false_imp_iff,
        frozenAlong_iff_of_counted hs' hc']
      exact and_iff_right hlist

/-- From the constructor on, the commands of a finalized builder stay and are counted in every state
the calls reach if and only if no thread is added to a finalized builder and the counts fit. -/
theorem frozenAlong_iff {arch : Arch} {calls : List (Call σ)} :
    FrozenAlong debug calls (new arch) ↔ ThreadsInTime debug calls (new arch) := by
  refine frozenAlong_iff_of_counted ⟨by simp [new], by simp [new]⟩ ?_
  intro hf
  simp [new] at hf

/-- A thread added after finalizing is not counted. -/
theorem not_frozenAlong_thread_after_finalize :
    ¬ FrozenAlong false [(.finalizeLoadCommands : Call FileStream),
      .addThreadCommand [(⟨6, 68, Vector.replicate 272 0⟩ : GPR .arm64).threadState,
        (⟨7, 4, Vector.replicate 16 0⟩ : EXC .arm64).threadState]] (new .arm64) := by
  intro h
  have h₁ := (h.2 _ rfl).2
  have h₂ := (h₁.2 _ rfl).1 rfl
  have hlen := congrArg (fun l => l.2.1.length) h₂
  exact absurd hlen (by decide)

end Frozen

end MacMiniDump
