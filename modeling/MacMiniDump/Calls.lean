import MacMiniDump.Registers

/-!
# The public calls of a builder

A builder is reached from its constructor by a sequence of public calls. Until its load commands
are finalized, the calls that add commands keep every command well formed, each with the size of its
provider, and keep the order in which they came (`runCalls_formed`).
-/

namespace MacMiniDump

open MachOCoreDumpBuilder

inductive Call (σ : Type)
  | addNoteCommand (owner : List UInt8) (dataProvider : Option DataProvider)
  | addThreadCommand (threadStates : List ThreadState)
  | addSegmentCommand (vmaddr : UInt64) (prot : UInt32) (dataProvider : Option DataProvider)
  | addDataProviderForNoteCommand (ownerName : List UInt8) (dataProvider : Option DataProvider)
  | finalizeLoadCommands
  | getOffsetForNoteCommandPayload (ownerName : List UInt8)
  | getOffsetForSegmentCommandPayload (vmaddr : UInt64)
  | build (stream : σ)

section Run

variable {σ : Type} [OStream σ] (debug : Bool)

/-- The builder after a call. -/
def Call.run : Call σ → MachOCoreDumpBuilder → Except Fault MachOCoreDumpBuilder
  | .addNoteCommand owner p, b => .ok (b.addNoteCommand owner p).2
  | .addThreadCommand states, b => .ok (b.addThreadCommand states).2
  | .addSegmentCommand vmaddr prot p, b => .ok (b.addSegmentCommand vmaddr prot p).2
  | .addDataProviderForNoteCommand owner p, b =>
    (b.addDataProviderForNoteCommand debug owner p).map Prod.snd
  | .finalizeLoadCommands, b => .ok b.finalizeLoadCommands
  | .getOffsetForNoteCommandPayload owner, b =>
    (b.getOffsetForNoteCommandPayload debug owner).map fun _ => b
  | .getOffsetForSegmentCommandPayload vmaddr, b =>
    (b.getOffsetForSegmentCommandPayload debug vmaddr).map fun _ => b
  | .build stream, b => (MacMiniDump.build debug ⟨b, stream⟩).map fun r => r.2.builder

def runCalls : List (Call σ) → MachOCoreDumpBuilder → Except Fault MachOCoreDumpBuilder
  | [], b => .ok b
  | c :: cs, b =>
    match c.run debug b with
    | .error e => .error e
    | .ok b' => runCalls cs b'

variable {debug}

theorem runCalls_cons {c : Call σ} {cs : List (Call σ)} {b b' : MachOCoreDumpBuilder}
    (h : runCalls debug (c :: cs) b = .ok b') :
    ∃ b₁, c.run debug b = .ok b₁ ∧ runCalls debug cs b₁ = .ok b' := by
  rw [runCalls] at h
  split at h
  · simp at h
  · rename_i b₁ hc
    exact ⟨b₁, hc, h⟩

/-- What every call of a kind keeps, a sequence of such calls keeps. -/
theorem runCalls_keeps {P : MachOCoreDumpBuilder → Prop} {K : Call σ → Prop}
    (step : ∀ c b b', K c → P b → c.run debug b = .ok b' → P b') :
    ∀ {cs : List (Call σ)} {b b' : MachOCoreDumpBuilder}, (∀ c ∈ cs, K c) → P b →
      runCalls debug cs b = .ok b' → P b'
  | [], b, b', _, hP, h => by
    simp only [runCalls, Except.ok.injEq] at h
    exact h ▸ hP
  | c :: cs, b, b', hK, hP, h => by
    obtain ⟨b₁, hc, hrest⟩ := runCalls_cons h
    exact runCalls_keeps step (fun c' hc' => hK c' (List.mem_cons_of_mem _ hc'))
      (step c b b₁ (hK c List.mem_cons_self) hP hc) hrest

end Run

/-- The calls a dump is put together with. -/
inductive Call.Adds {σ : Type} (arch : Arch) : Call σ → Prop
  | note (owner : List UInt8) (p : Option DataProvider) : Adds arch (.addNoteCommand owner p)
  | thread (gpr : GPR arch) (exc : EXC arch) :
    Adds arch (.addThreadCommand [gpr.threadState, exc.threadState])
  | segment (vmaddr : UInt64) (prot : UInt32) (p : Option DataProvider) :
    Adds arch (.addSegmentCommand vmaddr prot p)
  | noteData (owner : List UInt8) (p : Option DataProvider) :
    Adds arch (.addDataProviderForNoteCommand owner p)

/-- `GetSize ()`, none for a null provider. -/
def sizeOfProvider (p : Option DataProvider) : UInt64 := (p.map (·.size)).getD 0

structure Note.Formed (n : Note) : Prop where
  cmd : n.cmd.cmd = LC_NOTE
  cmdsize : n.cmd.cmdsize = NoteCommand.sizeOf
  size : n.cmd.size = sizeOfProvider n.provider

structure ThreadCommand.Formed (t : ThreadCommand) : Prop where
  cmd : t.cmd = LC_THREAD
  cmdsize : t.cmdsize.toNat = 8 + t.states.length

structure Segment.Formed (s : Segment) : Prop where
  cmd : s.cmd.cmd = LC_SEGMENT_64
  cmdsize : s.cmd.cmdsize = SegmentCommand64.sizeOf
  filesize : s.cmd.filesize = sizeOfProvider s.provider
  vmsize : s.cmd.vmsize = s.cmd.filesize

/-- A builder that commands have only been added to. -/
structure MachOCoreDumpBuilder.Formed (arch : Arch) (b : MachOCoreDumpBuilder) : Prop where
  notFinalized : b.loadCommandsFinalized = false
  header : b.header = (new arch).header
  notes : ∀ n ∈ b.noteCmds, n.Formed
  threads : ∀ t ∈ b.threadCmds, t.Formed
  segments : ∀ s ∈ b.segmentCmds, s.Formed

/-- The owner of the note a call adds. -/
def Call.noteOwner {σ : Type} : Call σ → Option (List UInt8)
  | .addNoteCommand owner _ => if (cstr owner).length ≤ 16 then some (cstr owner) else none
  | _ => none

/-- The states of the thread a call adds. -/
def Call.threadStates {σ : Type} : Call σ → Option (List UInt8)
  | .addThreadCommand states => some (threadCommandStates states)
  | _ => none

/-- The segment a call adds: its address, its protection and its provider. -/
def Call.segment {σ : Type} : Call σ → Option (UInt64 × UInt32 × Option DataProvider)
  | .addSegmentCommand vmaddr prot p => some (vmaddr, prot, p)
  | _ => none

/-- The commands of a builder in the terms of the calls that add them. -/
def MachOCoreDumpBuilder.Holds (b : MachOCoreDumpBuilder) (owners states : List (List UInt8))
    (segments : List (UInt64 × UInt32 × Option DataProvider)) : Prop :=
  b.noteCmds.map (·.cmd.dataOwner.chars) = owners ∧ b.threadCmds.map (·.states) = states
    ∧ b.segmentCmds.map (fun s => (s.cmd.vmaddr, s.cmd.initprot, s.provider)) = segments

section Adding

variable {σ : Type} [OStream σ] {debug : Bool} {arch : Arch} {b b' : MachOCoreDumpBuilder}

/-- Attaching a provider to a note changes its size, and leaves the other notes alone. -/
theorem attachDataProvider_eq {owner : List UInt8} {p : Option DataProvider} :
    ∀ {notes notes' : List Note}, attachDataProvider debug owner p notes = .ok (some notes') →
      ∃ pre nc post q, p = some q ∧ notes = pre ++ nc :: post
        ∧ (∀ n ∈ pre, cstr n.cmd.ownerMemory ≠ cstr owner)
        ∧ cstr nc.cmd.ownerMemory = cstr owner
        ∧ notes' = pre ++ ⟨{ nc.cmd with size := q.size }, some q⟩ :: post
  | [], notes', h => by simp [attachDataProvider] at h
  | nc :: rest, notes', h => by
    unfold attachDataProvider at h
    split_ifs at h with ho
    · split at h
      · simp at h
      · rename_i q
        simp only [Except.ok.injEq, Option.some.injEq] at h
        exact ⟨[], nc, rest, q, rfl, rfl, by simp, ho, h.symm⟩
    · split at h
      · rename_i rest' hr
        simp only [Except.ok.injEq, Option.some.injEq] at h
        obtain ⟨pre, m, post, q, hq, hrest, hpre, hm, hr'⟩ := attachDataProvider_eq hr
        refine ⟨nc :: pre, m, post, q, hq, by rw [hrest]; rfl, ?_, hm, by rw [← h, hr']; rfl⟩
        intro n hn
        rcases List.mem_cons.1 hn with rfl | hn
        · exact ho
        · exact hpre n hn
      · rename_i hno
        exact absurd h (hno notes')

theorem addDataProvider_eq {owner : List UInt8} {p : Option DataProvider} {r : Bool}
    (h : b.addDataProviderForNoteCommand debug owner p = .ok (r, b')) :
    b' = b ∨ ∃ notes', attachDataProvider debug owner p b.noteCmds = .ok (some notes')
      ∧ b' = { b with noteCmds := notes' } := by
  rw [addDataProviderForNoteCommand] at h
  split at h
  · rename_i notes' hn
    simp only [Except.ok.injEq, Prod.mk.injEq] at h
    exact .inr ⟨notes', hn, h.2.symm⟩
  · simp only [Except.ok.injEq, Prod.mk.injEq] at h
    exact .inl h.2.symm
  · simp at h

theorem MachOCoreDumpBuilder.Formed.addNoteCommand (hb : b.Formed arch) (owner : List UInt8)
    (p : Option DataProvider) :
    (b.addNoteCommand owner p).2.Formed arch := by
  unfold MachOCoreDumpBuilder.addNoteCommand
  rw [if_neg (by simp [hb.notFinalized])]
  split_ifs with hl
  · refine { hb with notes := ?_ }
    intro n hn
    rcases List.mem_append.1 hn with hn | hn
    · exact hb.notes n hn
    · rw [List.mem_singleton.1 hn]
      exact ⟨rfl, rfl, rfl⟩
  · exact hb

theorem MachOCoreDumpBuilder.Formed.addThreadCommand (hb : b.Formed arch) (gpr : GPR arch)
    (exc : EXC arch) :
    (b.addThreadCommand [gpr.threadState, exc.threadState]).2.Formed arch := by
  refine { hb with threads := ?_ }
  intro t ht
  rcases List.mem_append.1 ht with ht | ht
  · exact hb.threads t ht
  · rw [List.mem_singleton.1 ht]
    obtain ⟨hs, hst⟩ := threadCommand_gpr_exc gpr exc
    refine ⟨rfl, ?_⟩
    simp only [hs, hst, List.length_append, GPR.length_bytes, EXC.length_bytes]
    cases arch <;> rfl

theorem MachOCoreDumpBuilder.Formed.addSegmentCommand (hb : b.Formed arch) (vmaddr : UInt64)
    (prot : UInt32)
    (p : Option DataProvider) : (b.addSegmentCommand vmaddr prot p).2.Formed arch := by
  unfold MachOCoreDumpBuilder.addSegmentCommand
  rw [if_neg (by simp [hb.notFinalized])]
  refine { hb with segments := ?_ }
  intro s hs
  rcases List.mem_append.1 hs with hs | hs
  · exact hb.segments s hs
  · rw [List.mem_singleton.1 hs]
    exact ⟨rfl, rfl, rfl, rfl⟩

theorem MachOCoreDumpBuilder.Formed.addDataProvider (hb : b.Formed arch) {owner : List UInt8}
    {p : Option DataProvider} {r : Bool}
    (h : b.addDataProviderForNoteCommand debug owner p = .ok (r, b')) : b'.Formed arch := by
  rcases addDataProvider_eq h with rfl | ⟨notes', hn, rfl⟩
  · exact hb
  obtain ⟨pre, nc, post, q, -, hsplit, -, -, rfl⟩ := attachDataProvider_eq hn
  refine { hb with notes := ?_ }
  intro n hmem
  rcases List.mem_append.1 hmem with hm | hm
  · exact hb.notes n (hsplit ▸ List.mem_append_left _ hm)
  rcases List.mem_cons.1 hm with rfl | hm
  · have hnc : nc.Formed := hb.notes nc (hsplit ▸ List.mem_append_right _ List.mem_cons_self)
    exact ⟨hnc.cmd, hnc.cmdsize, rfl⟩
  · exact hb.notes n (hsplit ▸ List.mem_append_right _ (List.mem_cons_of_mem _ hm))

theorem formed_new (arch : Arch) : (new arch).Formed arch where
  notFinalized := rfl
  header := rfl
  notes := by simp [new]
  threads := by simp [new]
  segments := by simp [new]

/-- A call that adds keeps the builder formed, and puts what it adds after what was there. -/
theorem run_formed {c : Call σ} (hc : c.Adds arch) (hb : b.Formed arch)
    (h : c.run debug b = .ok b') {owners states : List (List UInt8)}
    {segments : List (UInt64 × UInt32 × Option DataProvider)}
    (hl : b.Holds owners states segments) :
    b'.Formed arch ∧ b'.Holds (owners ++ c.noteOwner.toList) (states ++ c.threadStates.toList)
      (segments ++ c.segment.toList) := by
  obtain ⟨rfl, rfl, rfl⟩ := hl
  rcases hc with ⟨owner, p⟩ | ⟨gpr, exc⟩ | ⟨vmaddr, prot, p⟩ | ⟨owner, p⟩
  · simp only [Call.run, Except.ok.injEq] at h
    subst h
    refine ⟨hb.addNoteCommand owner p, ?_⟩
    unfold MachOCoreDumpBuilder.addNoteCommand
    rw [if_neg (by simp [hb.notFinalized])]
    split_ifs with hlen
    · simp [Holds, Call.noteOwner, Call.threadStates, Call.segment, hlen]
    · simp [Holds, Call.noteOwner, Call.threadStates, Call.segment, hlen]
  · simp only [Call.run, Except.ok.injEq] at h
    subst h
    refine ⟨hb.addThreadCommand gpr exc, ?_⟩
    simp [Holds, Call.noteOwner, Call.threadStates, Call.segment,
      MachOCoreDumpBuilder.addThreadCommand]
  · simp only [Call.run, Except.ok.injEq] at h
    subst h
    refine ⟨hb.addSegmentCommand vmaddr prot p, ?_⟩
    unfold MachOCoreDumpBuilder.addSegmentCommand
    rw [if_neg (by simp [hb.notFinalized])]
    simp [Holds, Call.noteOwner, Call.threadStates, Call.segment]
  · rw [Call.run] at h
    rcases hr : b.addDataProviderForNoteCommand debug owner p with e | ⟨r, b₁⟩
    · simp [hr, Except.map] at h
    simp only [hr, Except.map, Except.ok.injEq] at h
    subst h
    refine ⟨hb.addDataProvider hr, ?_⟩
    simp only [Call.noteOwner, Call.threadStates, Call.segment, Option.toList_none,
      List.append_nil]
    rcases addDataProvider_eq hr with rfl | ⟨notes', hn, rfl⟩
    · exact ⟨rfl, rfl, rfl⟩
    obtain ⟨pre, nc, post, q, -, hsplit, -, -, rfl⟩ := attachDataProvider_eq hn
    refine ⟨?_, rfl, rfl⟩
    rw [hsplit]
    simp

/-- A builder that commands have been added to holds them in the order of the calls. -/
theorem runCalls_formed :
    ∀ {cs : List (Call σ)} {b b' : MachOCoreDumpBuilder} {owners states : List (List UInt8)}
      {segments : List (UInt64 × UInt32 × Option DataProvider)},
      (∀ c ∈ cs, c.Adds arch) → b.Formed arch → b.Holds owners states segments →
      runCalls debug cs b = .ok b' →
      b'.Formed arch ∧ b'.Holds (owners ++ cs.filterMap Call.noteOwner)
        (states ++ cs.filterMap Call.threadStates) (segments ++ cs.filterMap Call.segment)
  | [], b, b', owners, states, segments, _, hb, hl, h => by
    simp only [runCalls, Except.ok.injEq] at h
    subst h
    simpa using And.intro hb hl
  | c :: cs, b, b', owners, states, segments, hadds, hb, hl, h => by
    obtain ⟨b₁, hc, hrest⟩ := runCalls_cons h
    obtain ⟨hb₁, hl₁⟩ := run_formed (hadds c List.mem_cons_self) hb hc hl
    obtain ⟨hb', hl'⟩ :=
      runCalls_formed (fun c' hc' => hadds c' (List.mem_cons_of_mem _ hc')) hb₁ hl₁ hrest
    exact ⟨hb', by simpa only [filterMap_cons_toList, List.append_assoc] using hl'⟩

end Adding

end MacMiniDump
