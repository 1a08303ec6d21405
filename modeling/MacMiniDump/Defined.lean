import MacMiniDump.Accepted

/-!
# What a build relies on

`Build` divides by the size of a segment's chunks, takes the last of the notes and uses the provider
of every segment without asking whether it may. A step lemma for each statement says which faults it
can end in, when it lets the build go on, and what is known if it does (`Does`); together they say
what `Build` needs to be free of undefined operations (`build_defined_iff`).
-/

namespace MacMiniDump

open MachOCoreDumpBuilder

/-- A division by zero, the last element of no notes, a provider that is not there. -/
def Fault.Undefined (e : Fault) : Prop :=
  e = .divisionByZero ∨ e = .emptyBack ∨ e = .nullDereference

/-- A range within the provider, when it can be read, is there as far as it was asked for. -/
def DataProvider.Honest (p : DataProvider) : Prop :=
  ∀ offset n d, offset.toNat + n.toNat ≤ p.size.toNat → p.get offset n = some d →
    n.toNat ≤ d.length

/-- Notes have providers; what is written for a note is no more than it has. -/
structure Noted (b : MachOCoreDumpBuilder) : Prop where
  provided : ∀ n ∈ b.noteCmds, n.provider ≠ none
  sized : ∀ n ∈ b.noteCmds, n.cmd.size = sizeOfProvider n.provider
  threads : ∀ t ∈ b.threadCmds, t.cmdsize.toNat ≤ t.bytes.length

/-- What is read for a note or a segment is as long as it was asked for. -/
@[mk_iff] structure AllHonest (b : MachOCoreDumpBuilder) : Prop where
  notes : ∀ n ∈ b.noteCmds, ∀ p d, n.provider = some p → p.getAll = some d →
    p.size.toNat ≤ d.length
  segments : ∀ s ∈ b.segmentCmds, ∀ p, s.provider = some p → p.Honest

/-- Every segment has a provider with some data, and where there are segments, there is a note. -/
@[mk_iff] structure Fed (b : MachOCoreDumpBuilder) : Prop where
  someNote : b.segmentCmds ≠ [] → b.noteCmds ≠ []
  segments : ∀ s ∈ b.segmentCmds, ∃ p, s.provider = some p ∧ p.size ≠ 0

/-- The number of bytes after the whole chunks. -/
def leftoverSize (p : DataProvider) : UInt64 := p.size % min p.size maxChunkSize

/-- The read of these bytes, from where the chunks stopped. -/
def leftover (p : DataProvider) : Option (List UInt8) :=
  let chunkSize := min p.size maxChunkSize
  p.get (readChunks p chunkSize (p.size / chunkSize).toNat 0).2 (leftoverSize p)

/-- When the writes of a stream succeed, by whether there is data and by their size: those of which
`Yes` holds do, and those that do have `No`. -/
structure Takes (σ : Type) [OStream σ] (Yes No : Bool → UInt64 → Prop) : Prop where
  yes : ∀ data n (s : σ), Yes data.isSome n → (OStream.write data n s).1 = true
  no : ∀ data n (s : σ), (OStream.write data n s).1 = true → No data.isSome n

section Does

variable {σ : Type} {debug : Bool} {b : MachOCoreDumpBuilder}

/-- The faults of a build of `b`. -/
def Allowed (debug : Bool) (b : MachOCoreDumpBuilder) (e : Fault) : Prop :=
  (e = .assertion ∧ debug = true) ∨ (e = .overread ∧ ¬ AllHonest b) ∨ (e.Undefined ∧ ¬ Fed b)

/-- In a build of `b` the statement ends in no other faults; under `A` the build goes on, and when
it does, `C` holds. -/
def Does (debug : Bool) (b : MachOCoreDumpBuilder)
    (f : BuildState σ → Except Fault (Bool × BuildState σ)) (A C : Prop) : Prop :=
  ∀ st, Building b st → (∀ e, f st = .error e → Allowed debug b e)
    ∧ ∀ r st', f st = .ok (r, st') → Building b st' ∧ (A → r = true) ∧ (r = true → C)

/-- A statement with no command to write goes on. -/
theorem does_nothing {st : BuildState σ} {A C : Prop} (hP : Building b st) (hC : C) :
    (∀ e, (.ok (true, st) : Except Fault (Bool × BuildState σ)) = .error e → Allowed debug b e)
      ∧ ∀ r st', .ok (true, st) = (.ok (r, st') : Except Fault (Bool × BuildState σ)) →
        Building b st' ∧ (A → r = true) ∧ (r = true → C) := by
  refine ⟨fun e he => by simp at he, fun r st' h => ?_⟩
  obtain ⟨rfl, rfl⟩ := Prod.mk.inj (Except.ok.inj h)
  exact ⟨hP, fun _ => rfl, fun _ => hC⟩

/-- A statement ends in a fault that is allowed. -/
theorem does_fault {e : Fault} {A C : Prop} (h : Allowed debug b e) :
    (∀ e', (.error e : Except Fault (Bool × BuildState σ)) = .error e' → Allowed debug b e')
      ∧ ∀ r st', .error e = (.ok (r, st') : Except Fault (Bool × BuildState σ)) →
        Building b st' ∧ (A → r = true) ∧ (r = true → C) := by
  refine ⟨fun e' he => ?_, fun r st' h => by simp at h⟩
  rwa [← Except.error.inj he]

theorem Does.mono {f : BuildState σ → Except Fault (Bool × BuildState σ)} {A A' C C' : Prop}
    (h : Does debug b f A C) (hA : A' → A) (hC : C → C') : Does debug b f A' C' := by
  intro st hP
  obtain ⟨hfault, hok⟩ := h st hP
  refine ⟨hfault, fun r st' hr => ?_⟩
  obtain ⟨hP', hyes, hno⟩ := hok r st' hr
  exact ⟨hP', fun hA' => hyes (hA hA'), fun hr' => hC (hno hr')⟩

theorem Does.seq {f g : BuildState σ → Except Fault (Bool × BuildState σ)} {A A' C C' : Prop}
    (hf : Does debug b f A C) (hg : Does debug b g A' C') :
    Does debug b (MacMiniDump.seq f g) (A ∧ A') (C ∧ C') := by
  intro st hP
  obtain ⟨hfault, hok⟩ := hf st hP
  unfold MacMiniDump.seq
  rcases hr : f st with e | ⟨_ | _, st₁⟩
  · exact ⟨fun e' he => hfault e' (hr ▸ he), fun r st' h => by simp at h⟩
  · obtain ⟨hP₁, hyes, -⟩ := hok false st₁ hr
    refine ⟨fun e he => by simp at he, fun r st' h => ?_⟩
    simp only [Except.ok.injEq, Prod.mk.injEq] at h
    obtain ⟨rfl, rfl⟩ := h
    exact ⟨hP₁, fun hA => absurd (hyes hA.1) (by simp), fun h => absurd h (by simp)⟩
  · obtain ⟨hP₁, -, hno⟩ := hok true st₁ hr
    obtain ⟨hfault', hok'⟩ := hg st₁ hP₁
    refine ⟨hfault', fun r st' h => ?_⟩
    obtain ⟨hP', hyes', hno'⟩ := hok' r st' h
    exact ⟨hP', fun hA => hyes' hA.2, fun hr' => ⟨hno rfl, hno' hr'⟩⟩

theorem Does.forEach {ι : Type*}
    {body : ι → BuildState σ → Except Fault (Bool × BuildState σ)} {A C : ι → Prop}
    (hb : ∀ i, Does debug b (body i) (A i) (C i)) :
    ∀ is : List ι, Does debug b (MacMiniDump.forEach body is) (∀ i ∈ is, A i) (∀ i ∈ is, C i)
  | [] => by
    intro st hP
    refine ⟨fun e he => by simp [MacMiniDump.forEach] at he, fun r st' h => ?_⟩
    simp only [MacMiniDump.forEach, Except.ok.injEq, Prod.mk.injEq] at h
    obtain ⟨rfl, rfl⟩ := h
    exact ⟨hP, fun _ => rfl, fun _ i hi => absurd hi List.not_mem_nil⟩
  | i :: is => by
    have hseq := (hb i).seq (Does.forEach hb is)
    have heq : MacMiniDump.forEach body (i :: is)
        = MacMiniDump.seq (body i) (MacMiniDump.forEach body is) := rfl
    rw [heq]
    exact hseq.mono (fun h => ⟨h i List.mem_cons_self, fun j hj => h j (List.mem_cons_of_mem _ hj)⟩)
      fun h => List.forall_mem_cons.2 h

theorem notePayloadOffset_fault {owner : List UInt8} {e : Fault} :
    ∀ (notes : List Note) (start : UInt64), notePayloadOffset debug owner start notes = .error e →
      e = .assertion ∧ debug = true
  | [], _, h => by simp [notePayloadOffset] at h
  | n :: notes, start, h => by
    rw [notePayloadOffset] at h
    split_ifs at h with ho hd
    · simp only [Except.error.injEq] at h
      simp only [Bool.and_eq_true] at hd
      exact ⟨h.symm, hd.1⟩
    · exact notePayloadOffset_fault notes _ h

theorem segmentPayloadOffset_fault {vmaddr : UInt64} {e : Fault} :
    ∀ (segments : List Segment) (start : UInt64),
      segmentPayloadOffset debug vmaddr start segments = .error e → e = .assertion ∧ debug = true
  | [], _, h => by simp [segmentPayloadOffset] at h
  | s :: segments, start, h => by
    rw [segmentPayloadOffset] at h
    split_ifs at h with ho hd
    · simp only [Except.error.injEq] at h
      simp only [Bool.and_eq_true] at hd
      exact ⟨h.symm, hd.1⟩
    · exact segmentPayloadOffset_fault segments _ h

/-- A note is found by its own name, or one before it is. -/
theorem notePayloadOffset_ne_none {n : Note} :
    ∀ {notes : List Note} (start : UInt64), n ∈ notes →
      notePayloadOffset debug n.cmd.ownerMemory start notes ≠ .ok none
  | [], _, hn => absurd hn List.not_mem_nil
  | m :: notes, start, hn => by
    rw [notePayloadOffset]
    split_ifs with hm
    · simp
    · simp
    · rcases List.mem_cons.1 hn with rfl | hn
      · exact absurd rfl hm
      · exact notePayloadOffset_ne_none _ hn

theorem segmentPayloadOffset_ne_none {s : Segment} :
    ∀ {segments : List Segment} (start : UInt64), s ∈ segments →
      segmentPayloadOffset debug s.cmd.vmaddr start segments ≠ .ok none
  | [], _, hs => absurd hs List.not_mem_nil
  | m :: segments, start, hs => by
    rw [segmentPayloadOffset]
    split_ifs with hm
    · simp
    · simp
    · rcases List.mem_cons.1 hs with rfl | hs
      · exact absurd rfl hm
      · exact segmentPayloadOffset_ne_none _ hs

/-- The lookup of a note faults in a debug build only, and finds something. -/
theorem getOffset_outcome (hf : b.loadCommandsFinalized = true) {n : Note} (hn : n ∈ b.noteCmds)
    {r : Except Fault (Option UInt64)}
    (h : b.getOffsetForNoteCommandPayload debug n.cmd.ownerMemory = r) :
    (∀ e, r = .error e → e = .assertion ∧ debug = true) ∧ r ≠ .ok none := by
  subst h
  rw [getOffsetForNoteCommandPayload, if_pos hf]
  exact ⟨fun e he => notePayloadOffset_fault _ _ he, notePayloadOffset_ne_none _ hn⟩

/-- The lookup of a segment also takes the last of the notes. -/
theorem getSegmentOffset_outcome (hf : b.loadCommandsFinalized = true) {s : Segment}
    (hs : s ∈ b.segmentCmds) {r : Except Fault (Option UInt64)}
    (h : b.getOffsetForSegmentCommandPayload debug s.cmd.vmaddr = r) :
    (∀ e, r = .error e → (e = .assertion ∧ debug = true) ∨ (e = .emptyBack ∧ b.noteCmds = []))
      ∧ r ≠ .ok none ∧ (∀ o, r = .ok o → b.noteCmds ≠ []) := by
  subst h
  rw [getOffsetForSegmentCommandPayload, if_pos hf]
  split
  · rename_i hl
    rw [List.getLast?_eq_none_iff] at hl
    exact ⟨fun e he => .inr ⟨by simpa using he.symm, hl⟩, by simp, fun o ho => by simp at ho⟩
  rename_i last hl
  have hne : b.noteCmds ≠ [] := by
    rintro hnil
    simp [hnil] at hl
  split
  · rename_i e he
    refine ⟨fun e' he' => .inl ?_, by simp, fun _ _ => hne⟩
    obtain rfl : e = e' := by simpa using he'
    exact (getOffset_outcome hf (List.mem_of_getLast? hl) he).1 e rfl
  · exact ⟨fun e he => .inl (segmentPayloadOffset_fault _ _ he), segmentPayloadOffset_ne_none _ hs,
      fun _ _ => hne⟩

/-- In a build of `b` the lookup of a segment faults in a debug build, or when there is no note. -/
theorem allowed_of_getSegmentOffset (hf : b.loadCommandsFinalized = true) {c : MachOCoreDumpBuilder}
    (hP : c.unplaced = b.unplaced) {k : ℕ} {sc : Segment} (hk : c.segmentCmds[k]? = some sc)
    {e : Fault}
    (h : c.getOffsetForSegmentCommandPayload debug sc.cmd.vmaddr = .error e) :
    Allowed debug b e := by
  have hc : c.loadCommandsFinalized = true := (eq_of_unplaced hP).1.trans hf
  obtain ⟨s, hb, -⟩ := segment_of_unplaced hP hk
  rcases (getSegmentOffset_outcome hc (List.mem_of_getElem? hk) h).1 e rfl
      with hassert | ⟨hback, hnil⟩
  · exact .inl hassert
  · refine .inr (.inr ⟨.inr (.inl hback), fun hfed => ?_⟩)
    have hlen := length_notes_of_unplaced hP
    rw [hnil] at hlen
    exact hfed.someNote (List.ne_nil_of_mem (List.mem_of_getElem? hb))
      (List.eq_nil_of_length_eq_zero hlen.symm)

/-! ## The statements -/

variable [OStream σ] {Yes No : Bool → UInt64 → Prop} (ht : Takes σ Yes No)

include ht

theorem does_write {data : Option (List UInt8)} {size : UInt64}
    (hlen : AllHonest b → ∀ d, data = some d → size.toNat ≤ d.length) :
    Does debug b (writeToOStream (σ := σ) debug data size) (Yes data.isSome size)
      (No data.isSome size) := by
  intro st hP
  refine ⟨fun e he => ?_, fun r st' h => ?_⟩
  · unfold writeToOStream at he
    simp only [] at he
    split_ifs at he with hnull hshort hover
    · simp only [Bool.and_eq_true] at hnull
      exact .inl ⟨by simpa using he.symm, hnull.1.1⟩
    · refine .inr (.inl ⟨by simpa using he.symm, fun hh => ?_⟩)
      rcases data with _ | d
      · simp at hshort
      · have := hlen hh d rfl
        simp only [Option.any_some, decide_eq_true_eq] at hshort
        omega
    · simp only [Bool.and_eq_true] at hover
      exact .inl ⟨by simpa using he.symm, hover.1⟩
  · obtain ⟨hu, hw⟩ := writeToOStream_eq h
    have hr : r = (OStream.write (data.map (·.take size.toNat)) size st.stream).1 :=
      congrArg Prod.fst hw
    have hsome : (data.map (·.take size.toNat)).isSome = data.isSome := Option.isSome_map
    refine ⟨hu.trans hP, fun hA => ?_, fun hr' => ?_⟩
    · rw [hr]
      exact ht.yes _ _ _ (hsome ▸ hA)
    · rw [hr] at hr'
      exact hsome ▸ ht.no _ _ _ hr'

theorem does_threadCommand (hn : Noted b) (k : ℕ) :
    Does debug b (writeThreadCommand (σ := σ) debug k)
      (∀ t ∈ b.threadCmds, Yes true t.cmdsize.toUInt64) True := by
  intro st hP
  rcases hk : st.builder.threadCmds[k]? with _ | t
  · rw [writeThreadCommand_of_none hk]
    exact does_nothing hP trivial
  rw [writeThreadCommand_of_some hk]
  rw [(eq_of_unplaced hP).2.2.1] at hk
  have hmem := List.mem_of_getElem? hk
  have hlen : AllHonest b → ∀ d, some t.bytes = some d → t.cmdsize.toUInt64.toNat ≤ d.length := by
    rintro - d hd
    rw [← Option.some.inj hd, UInt32.toNat_toUInt64]
    exact hn.threads t hmem
  exact (does_write (b := b) ht hlen).mono (fun h => h t hmem) (fun _ => trivial) st hP

variable (hf : b.loadCommandsFinalized = true)

include hf

theorem does_noteCommand (k : ℕ) :
    Does debug b (writeNoteCommand (σ := σ) debug k)
      (Yes true NoteCommand.sizeOf.toUInt64) True := by
  intro st hP
  have hst : st.builder.loadCommandsFinalized = true := (eq_of_unplaced hP).1.trans hf
  rcases hk : st.builder.noteCmds[k]? with _ | nc
  · rw [writeNoteCommand_of_none hk]
    exact does_nothing hP trivial
  rw [writeNoteCommand_of_some hk]
  rcases ho : st.builder.getOffsetForNoteCommandPayload debug nc.cmd.ownerMemory with e | found
  · exact does_fault (.inl ((getOffset_outcome hst (List.mem_of_getElem? hk) ho).1 e rfl))
  · refine (does_write (b := b) ht (fun _ d hd => ?_)).mono id (fun _ => trivial)
      { st with builder := st.builder.setNoteOffset k (found.getD nc.cmd.offset) }
      ((unplaced_setNoteOffset _ _ _).trans hP)
    rw [← Option.some.inj hd, NoteCommand.length_bytes]
    exact le_rfl

theorem does_notePayload (hn : Noted b) (k : ℕ) :
    Does debug b (writeNotePayload (σ := σ) debug k)
      (∀ n ∈ b.noteCmds, Yes (n.provider.bind (·.getAll)).isSome n.cmd.size) True := by
  intro st hP
  have hst : st.builder.loadCommandsFinalized = true := (eq_of_unplaced hP).1.trans hf
  rcases hk : st.builder.noteCmds[k]? with _ | nc
  · rw [writeNotePayload_of_none hk]
    exact does_nothing hP trivial
  rw [writeNotePayload_of_some hk]
  obtain ⟨n, hb, hprov, hsize, -⟩ := note_of_unplaced hP hk
  have hmem := List.mem_of_getElem? hb
  rcases ho : st.builder.getOffsetForNoteCommandPayload debug nc.cmd.ownerMemory
    with e | _ | offset
  · exact does_fault (.inl ((getOffset_outcome hst (List.mem_of_getElem? hk) ho).1 e rfl))
  · exact absurd rfl (getOffset_outcome hst (List.mem_of_getElem? hk) ho).2
  rcases hp : nc.provider with _ | p
  · exact absurd (hprov.trans hp) (hn.provided n hmem)
  simp only [ok_bind, Option.elim_some]
  have hlen : AllHonest b → ∀ d, p.getAll = some d → nc.cmd.size.toNat ≤ d.length := by
    intro hh d hd
    rw [← hsize, hn.sized n hmem, hprov, hp]
    exact hh.notes n hmem p d (hprov.trans hp) hd
  refine (does_write (b := b) ht hlen).mono (fun h => ?_) (fun _ => trivial)
    { st with stream := OStream.setPosition offset st.stream } hP
  have := h n hmem
  rwa [hprov, hp, Option.bind_some, hsize] at this

theorem does_segmentCommand (k : ℕ) :
    Does debug b (writeSegmentCommand (σ := σ) debug k)
      (Yes true SegmentCommand64.sizeOf.toUInt64)
      (∀ s, b.segmentCmds[k]? = some s → b.noteCmds ≠ []) := by
  intro st hP
  have hst : st.builder.loadCommandsFinalized = true := (eq_of_unplaced hP).1.trans hf
  rcases hk : st.builder.segmentCmds[k]? with _ | sc
  · rw [writeSegmentCommand_of_none hk]
    have hnone := (getElem?_eq_none_of_unplaced hP).2.1 hk
    exact does_nothing hP fun s hs => by simp [hnone] at hs
  rw [writeSegmentCommand_of_some hk]
  obtain ⟨s, hb, -⟩ := segment_of_unplaced hP hk
  have hlen := length_notes_of_unplaced hP
  rcases ho : st.builder.getOffsetForSegmentCommandPayload debug sc.cmd.vmaddr with e | found
  · exact does_fault (allowed_of_getSegmentOffset hf hP hk ho)
  · have hne := (getSegmentOffset_outcome hst (List.mem_of_getElem? hk) ho).2.2 found rfl
    refine (does_write (b := b) ht (fun _ d hd => ?_)).mono id
      (fun _ _ _ hnil => hne ?_)
      { st with builder := st.builder.setSegmentFileoff k (found.getD sc.cmd.fileoff) }
      ((unplaced_setSegmentFileoff _ _ _).trans hP)
    · rw [← Option.some.inj hd, SegmentCommand64.length_bytes]
      exact le_rfl
    · rw [hnil] at hlen
      exact List.eq_nil_of_length_eq_zero hlen

omit hf in
/-- The chunks stay within the provider. -/
theorem writeChunks_outcome (debug : Bool) {p : DataProvider} (hp : AllHonest b → p.Honest)
    (chunkSize : UInt64) :
    ∀ (n : ℕ) (offset : UInt64) (st : BuildState σ), Building b st →
      offset.toNat + n * chunkSize.toNat ≤ p.size.toNat →
      (∀ e, writeChunks debug p chunkSize n offset st = .error e → Allowed debug b e)
        ∧ ∀ r offset' st', writeChunks debug p chunkSize n offset st = .ok (r, offset', st') →
          (Yes true chunkSize → r = true)
            ∧ offset'.toNat ≤ offset.toNat + n * chunkSize.toNat
  | 0, offset, st, hP, _ => by
    refine ⟨fun e he => by simp [writeChunks] at he, fun r offset' st' h => ?_⟩
    simp only [writeChunks, Except.ok.injEq, Prod.mk.injEq] at h
    obtain ⟨rfl, rfl, -⟩ := h
    exact ⟨fun _ => rfl, Nat.le_add_right _ _⟩
  | n + 1, offset, st, hP, hfit => by
    have hsucc : (n + 1) * chunkSize.toNat = chunkSize.toNat + n * chunkSize.toNat := by
      rw [Nat.succ_mul, Nat.add_comm]
    have hlt := p.size.toNat_lt
    have hadd : (offset + chunkSize).toNat = offset.toNat + chunkSize.toNat := by
      rw [UInt64.toNat_add, Nat.mod_eq_of_lt (by omega)]
    unfold writeChunks
    split
    · refine ⟨fun e he => by simp at he, fun r offset' st' h => ?_⟩
      simp only [Except.ok.injEq, Prod.mk.injEq] at h
      obtain ⟨rfl, rfl, -⟩ := h
      exact ⟨fun _ => rfl, Nat.le_add_right _ _⟩
    rename_i data hg
    have hlen : AllHonest b → ∀ d, some data = some d → chunkSize.toNat ≤ d.length := by
      intro hh d hd
      rw [← Option.some.inj hd]
      exact hp hh offset chunkSize data (by omega) hg
    have hwrite : Does debug b (writeToOStream debug (some data) chunkSize) _ _ :=
      does_write ht hlen
    obtain ⟨hfault, hok⟩ := hwrite st hP
    split
    · rename_i e he
      exact ⟨fun e' he' => by
        obtain rfl : e = e' := by simpa using he'
        exact hfault e he, fun r offset' st' h => by simp at h⟩
    · rename_i st₁ hw
      refine ⟨fun e he => by simp at he, fun r offset' st' h => ?_⟩
      simp only [Except.ok.injEq, Prod.mk.injEq] at h
      obtain ⟨rfl, rfl, -⟩ := h
      exact ⟨fun hyes => absurd ((hok false st₁ hw).2.1 hyes) (by simp), Nat.le_add_right _ _⟩
    · rename_i st₁ hw
      obtain ⟨hP₁, -⟩ := hok true st₁ hw
      obtain ⟨hfault', hok'⟩ :=
        writeChunks_outcome debug hp chunkSize n (offset + chunkSize) st₁ hP₁ (by omega)
      refine ⟨hfault', fun r offset' st' h => ?_⟩
      obtain ⟨hyes, hle⟩ := hok' r offset' st' h
      exact ⟨hyes, by omega⟩

omit hf in
/-- An honest provider has as many bytes as are written, in the chunks and after them. -/
theorem does_segmentData {p : DataProvider} (hp : AllHonest b → p.Honest) :
    Does debug b (writeSegmentData (σ := σ) debug p)
      (Yes true (min p.size maxChunkSize) ∧ Yes (leftover p).isSome (leftoverSize p))
      (No (leftover p).isSome (leftoverSize p)) := by
  intro st hP
  have hdiv : (p.size / min p.size maxChunkSize).toNat * (min p.size maxChunkSize).toNat
      + (leftoverSize p).toNat = p.size.toNat := chunks_add_left p.size (min p.size maxChunkSize)
  obtain ⟨hfault, hok⟩ := writeChunks_outcome (b := b) ht debug hp (min p.size maxChunkSize)
    (p.size / min p.size maxChunkSize).toNat 0 st hP (by rw [UInt64.toNat_zero]; omega)
  unfold writeSegmentData
  simp only []
  split
  · rename_i e he
    exact does_fault (hfault e he)
  · rename_i offset st₁ hw
    obtain ⟨hs₁, -⟩ := writeChunks_eq p _ _ _ _ _ _ _ hw
    refine ⟨fun e he => by simp at he, fun r st' h => ?_⟩
    simp only [Except.ok.injEq, Prod.mk.injEq] at h
    obtain ⟨rfl, rfl⟩ := h
    exact ⟨hs₁.unplaced.trans hP, fun hA => absurd ((hok _ _ _ hw).1 hA.1) (by simp),
      fun h => absurd h (by simp)⟩
  · rename_i offset st₁ hw
    obtain ⟨hs₁, hstop, -⟩ := writeChunks_eq p _ _ _ _ _ _ _ hw
    have hleft : p.get offset (p.size % min p.size maxChunkSize) = leftover p := by
      rw [hstop rfl]
      rfl
    have hle := (hok _ _ _ hw).2
    rw [UInt64.toNat_zero, Nat.zero_add] at hle
    have hlast : AllHonest b → ∀ d, leftover p = some d → (leftoverSize p).toNat ≤ d.length := by
      intro hh d hd
      exact hp hh offset (leftoverSize p) d (by omega) (hleft.trans hd)
    rw [hleft]
    exact (does_write (b := b) ht hlast).mono And.right id st₁ (hs₁.unplaced.trans hP)

omit ht hf [OStream σ] in
/-- A null provider, or an empty one, does not belong to a builder that is fed. -/
theorem allowed_of_segment {s : Segment} (hs : s ∈ b.segmentCmds) {e : Fault} (he : e.Undefined)
    (h : ∀ p, s.provider = some p → p.size = 0) : Allowed debug b e := by
  refine .inr (.inr ⟨he, fun hfed => ?_⟩)
  obtain ⟨p, hp, hne⟩ := hfed.segments s hs
  exact hne (h p hp)

theorem does_segmentPayload (k : ℕ) :
    Does debug b (writeSegmentPayload (σ := σ) debug k)
      (∀ s ∈ b.segmentCmds, ∀ p, s.provider = some p →
        Yes true (min p.size maxChunkSize) ∧ Yes (leftover p).isSome (leftoverSize p))
      (∀ s, b.segmentCmds[k]? = some s →
        ∃ p, s.provider = some p ∧ p.size ≠ 0 ∧ No (leftover p).isSome (leftoverSize p)) := by
  intro st hP
  have hst : st.builder.loadCommandsFinalized = true := (eq_of_unplaced hP).1.trans hf
  rcases hk : st.builder.segmentCmds[k]? with _ | sc
  · rw [writeSegmentPayload_of_none hk]
    have hnone := (getElem?_eq_none_of_unplaced hP).2.1 hk
    exact does_nothing hP fun s hs => by simp [hnone] at hs
  rw [writeSegmentPayload_of_some hk]
  obtain ⟨s, hb, hprov, -⟩ := segment_of_unplaced hP hk
  have hmem := List.mem_of_getElem? hb
  rcases hsp : sc.provider with _ | p
  · exact does_fault (allowed_of_segment hmem (.inr (.inr rfl)) fun p hp => by
      simp [hprov, hsp] at hp)
  have hp : s.provider = some p := hprov.trans hsp
  rw [Option.elim_some]
  split
  · rename_i hassert
    simp only [Bool.and_eq_true] at hassert
    exact does_fault (.inl ⟨rfl, hassert.1⟩)
  rcases ho : st.builder.getOffsetForSegmentCommandPayload debug sc.cmd.vmaddr
    with e | _ | startOffset
  · exact does_fault (allowed_of_getSegmentOffset hf hP hk ho)
  · exact absurd rfl (getSegmentOffset_outcome hst (List.mem_of_getElem? hk) ho).2.1
  simp only [ok_bind, Option.elim_some]
  split
  · rename_i hzero
    exact does_fault (allowed_of_segment hmem (.inl rfl) fun q hq =>
      Option.some.inj (hp.symm.trans hq) ▸ chunkSize_eq_zero_iff.1 hzero)
  rename_i hchunk
  have hdata : Does debug b (writeSegmentData (σ := σ) debug p) _ _ :=
    does_segmentData ht fun hh => hh.segments s hmem p hp
  refine hdata.mono (fun hA => hA s hmem p hp) (fun hno s' hs' => ?_) _ hP
  obtain rfl : s = s' := by simpa [hb] using hs'
  exact ⟨p, hp, fun h => hchunk (chunkSize_eq_zero_iff.2 h), hno⟩

theorem does_writeOut (hn : Noted b) :
    Does debug b (writeOut (σ := σ) debug b)
      ((∀ n, Yes true n) ∧ (∀ n ∈ b.noteCmds, Yes (n.provider.bind (·.getAll)).isSome n.cmd.size)
        ∧ ∀ s ∈ b.segmentCmds, ∀ p, s.provider = some p →
          Yes (leftover p).isSome (leftoverSize p))
      (Fed b ∧ ∀ s ∈ b.segmentCmds, ∀ p, s.provider = some p →
        No (leftover p).isSome (leftoverSize p)) := by
  have hhead : b.header.bytes.length = 32 := MachHeader64.length_bytes _
  have hheader : Does debug b (writeToOStream (σ := σ) debug (some b.header.bytes)
      MachHeader64.sizeOf) (Yes true MachHeader64.sizeOf) (No true MachHeader64.sizeOf) :=
    does_write ht fun _ d hd => by rw [← Option.some.inj hd, hhead]; exact le_rfl
  have hall : Does debug b (writeOut (σ := σ) debug b) _ _ :=
    hheader.seq
    ((Does.forEach (does_noteCommand ht hf) (List.range b.noteCmds.length)).seq
    ((Does.forEach (does_threadCommand ht hn) (List.range b.threadCmds.length)).seq
    ((Does.forEach (does_segmentCommand ht hf) (List.range b.segmentCmds.length)).seq
    ((Does.forEach (does_notePayload ht hf hn) (List.range b.noteCmds.length)).seq
      (Does.forEach (does_segmentPayload ht hf) (List.range b.segmentCmds.length))))))
  refine hall.mono ?_ ?_
  · rintro ⟨hyes, hnotes, hsegments⟩
    exact ⟨hyes _, fun _ _ => hyes _, fun _ _ _ _ => hyes _, fun _ _ => hyes _,
      fun _ _ => hnotes, fun _ _ s hs p hp => ⟨hyes _, hsegments s hs p hp⟩⟩
  · rintro ⟨-, -, -, hsome, -, hsegments⟩
    have hat : ∀ s ∈ b.segmentCmds, ∃ k ∈ List.range b.segmentCmds.length,
        b.segmentCmds[k]? = some s := by
      intro s hs
      obtain ⟨k, hk⟩ := List.getElem?_of_mem hs
      exact ⟨k, List.mem_range.2 (List.getElem?_eq_some_iff.1 hk).1, hk⟩
    refine ⟨⟨fun hne => ?_, fun s hs => ?_⟩, fun s hs p hp => ?_⟩
    · obtain ⟨s, hs⟩ := List.exists_mem_of_ne_nil _ hne
      obtain ⟨k, hk, hks⟩ := hat s hs
      exact hsome k hk s hks
    · obtain ⟨k, hk, hks⟩ := hat s hs
      obtain ⟨p, hp, hne, -⟩ := hsegments k hk s hks
      exact ⟨p, hp, hne⟩
    · obtain ⟨k, hk, hks⟩ := hat s hs
      obtain ⟨q, hq, -, hno⟩ := hsegments k hk s hks
      obtain rfl : p = q := by simpa [hp] using hq
      exact hno

end Does

section Build

variable {σ : Type} [OStream σ] {b : MachOCoreDumpBuilder}

theorem fed_finalizeLoadCommands : Fed b.finalizeLoadCommands ↔ Fed b := by
  simp [fed_iff]

theorem allHonest_finalizeLoadCommands : AllHonest b.finalizeLoadCommands ↔ AllHonest b := by
  simp [allHonest_iff]

theorem Noted.finalizeLoadCommands (h : Noted b) : Noted b.finalizeLoadCommands where
  provided := by simpa using h.provided
  sized := by simpa using h.sized
  threads := by simpa using h.threads

theorem MachOCoreDumpBuilder.Fresh.noted (h : b.Fresh) (hn : ∀ n ∈ b.noteCmds, n.provider ≠ none) :
    Noted b :=
  ⟨hn, fun n hmem => (h.notes n hmem).size, h.threads⟩

/-- How a build can end: in which faults, when it succeeds, and what is known if it does. -/
theorem build_outcome (debug : Bool) {Yes No : Bool → UInt64 → Prop} (ht : Takes σ Yes No)
    (hn : Noted b) (s : σ) :
    (∀ e, build debug ⟨b, s⟩ = .error e → Allowed debug b e)
      ∧ ∀ r st', build debug ⟨b, s⟩ = .ok (r, st') →
        ((∀ n, Yes true n)
          ∧ (∀ n ∈ b.noteCmds, Yes (n.provider.bind (·.getAll)).isSome n.cmd.size)
          ∧ (∀ s ∈ b.segmentCmds, ∀ p, s.provider = some p →
            Yes (leftover p).isSome (leftoverSize p)) → r = true)
        ∧ (r = true → Fed b ∧ ∀ s ∈ b.segmentCmds, ∀ p, s.provider = some p →
          No (leftover p).isSome (leftoverSize p)) := by
  have hall : Does debug b.finalizeLoadCommands (writeOut debug b.finalizeLoadCommands) _ _ :=
    does_writeOut ht (finalized_finalizeLoadCommands b) hn.finalizeLoadCommands
  have hdoes := hall { builder := startOfBuild debug b, stream := s }
    (unplaced_startOfBuild debug b)
  rw [build_eq]
  simp only [noteCmds_finalizeLoadCommands, segmentCmds_finalizeLoadCommands, Allowed,
    fed_finalizeLoadCommands, allHonest_finalizeLoadCommands] at hdoes
  exact ⟨hdoes.1, fun r st' h => (hdoes.2 r st' h).2⟩

end Build

/-- A stream that takes everything. -/
structure Sink where

instance : OStream Sink where
  write _ _ s := (true, s)
  getPosition _ := 0
  setPosition _ s := s
  setSize _ s := (true, s)

/-- No build of `b` divides by zero, takes the last of no notes or uses a missing provider. -/
def Defined (b : MachOCoreDumpBuilder) : Prop :=
  ∀ (debug : Bool) (σ : Type) [OStream σ] (s : σ) (e : Fault),
    build debug ⟨b, s⟩ = .error e → ¬ e.Undefined

theorem defined_of_fed {b : MachOCoreDumpBuilder} (hn : Noted b) (h : Fed b) : Defined b := by
  intro debug σ _ s e he
  have ht : Takes σ (fun _ _ => False) (fun _ _ => True) :=
    ⟨fun _ _ _ hfalse => hfalse.elim, fun _ _ _ _ => trivial⟩
  rcases (build_outcome debug ht hn s).1 e he with ⟨rfl, -⟩ | ⟨rfl, -⟩ | ⟨-, hnot⟩
  · simp [Fault.Undefined]
  · simp [Fault.Undefined]
  · exact absurd h hnot

/-- A release build that writes to a stream that takes everything comes to every operation. -/
theorem fed_of_defined {b : MachOCoreDumpBuilder} (hn : Noted b) (hh : AllHonest b)
    (h : Defined b) : Fed b := by
  have ht : Takes Sink (fun _ _ => True) (fun _ _ => True) :=
    ⟨fun _ _ _ _ => rfl, fun _ _ _ _ => trivial⟩
  obtain ⟨hfault, hok⟩ := build_outcome false ht hn ⟨⟩
  rcases hb : build false ⟨b, (⟨⟩ : Sink)⟩ with e | ⟨r, st'⟩
  · rcases hfault e hb with ⟨-, hdbg⟩ | ⟨-, hnot⟩ | ⟨hu, -⟩
    · simp at hdbg
    · exact absurd hh hnot
    · exact absurd hu (h false Sink ⟨⟩ e hb)
  · obtain ⟨hyes, hno⟩ := hok r st' hb
    have htrue : r = true :=
      hyes ⟨fun _ => trivial, fun _ _ => trivial, fun _ _ _ _ => trivial⟩
    exact (hno htrue).1

/-- Builds of what accepted calls have put together are free of undefined operations exactly when
every segment has some data and there is a note wherever there are segments. -/
theorem build_defined_iff {debug : Bool} {arch : Arch} {b : MachOCoreDumpBuilder}
    (h : Accepted debug arch b) (hn : ∀ n ∈ b.noteCmds, n.provider ≠ none) :
    (Fed b → Defined b) ∧ (AllHonest b → (Defined b ↔ Fed b)) := by
  have hnoted := h.fresh.noted hn
  exact ⟨defined_of_fed hnoted, fun hh => ⟨fed_of_defined hnoted hh, defined_of_fed hnoted⟩⟩

/-- A note of one byte, and a segment whose provider was left out. -/
def segmentWithoutData : MachOCoreDumpBuilder :=
  (((new .arm64).addNoteCommand [110] (some (copiedDataProvider [1]))).2.addSegmentCommand
    0x1000 3 none).2

theorem accepted_segmentWithoutData : Accepted false .arm64 segmentWithoutData :=
  accepted_noteAndSegment (by decide) _ _ _ _

theorem provided_segmentWithoutData :
    ∀ n ∈ segmentWithoutData.noteCmds, n.provider = some (copiedDataProvider [1]) := by
  intro n hn
  obtain rfl := List.mem_singleton.1 hn
  rfl

theorem build_defined_iff_segmentWithoutData :
    (Fed segmentWithoutData → Defined segmentWithoutData)
      ∧ (AllHonest segmentWithoutData → (Defined segmentWithoutData ↔ Fed segmentWithoutData)) :=
  build_defined_iff accepted_segmentWithoutData fun n hn => by
    simp [provided_segmentWithoutData n hn]

/-- A build of it uses the provider that is not there. -/
theorem not_defined_segmentWithoutData :
    Accepted false .arm64 segmentWithoutData
      ∧ (∀ n ∈ segmentWithoutData.noteCmds, n.provider ≠ none)
      ∧ ¬ Defined segmentWithoutData := by
  have hn : ∀ n ∈ segmentWithoutData.noteCmds, n.provider ≠ none := fun n hmem => by
    simp [provided_segmentWithoutData n hmem]
  refine ⟨accepted_segmentWithoutData, hn, fun h => ?_⟩
  have hhonest : AllHonest segmentWithoutData := by
    refine ⟨fun n hmem p d hp hd => ?_, fun s hs p hp => ?_⟩
    · rw [provided_segmentWithoutData n hmem] at hp
      obtain rfl := Option.some.inj hp
      obtain rfl := Option.some.inj hd
      exact le_rfl
    · obtain rfl := List.mem_singleton.1 hs
      simp at hp
  have hfed := fed_of_defined (accepted_segmentWithoutData.fresh.noted hn) hhonest h
  obtain ⟨p, hp, -⟩ := hfed.segments _ (List.mem_singleton.2 rfl)
  simp at hp

end MacMiniDump
