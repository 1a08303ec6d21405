import MacMiniDump.DebugBuild
import MacMiniDump.Outcome

/-!
# Which assertions fail

In a debug build of a dump to a new file, with the modules and the call stacks given, two things
make an assertion fail: that there is no main executable, and that what is left over of a run of
requested addresses cannot be read. With neither, it is the release build (`debug_writeDump_iff`).
No write overwrites what was written, and where a release build returns `false` while it writes, an
assertion fails before (`unfailing_build`).
-/

namespace MacMiniDump

open MachOCoreDumpBuilder

section Payloads

variable {b : MachOCoreDumpBuilder} {modules : ModuleList} {threadIds : List UInt64} {e : Fault}

theorem storeAll_fault :
    ∀ {ps : List (ℕ × List UInt8)} {r : List UInt8}, storeAll ps r = .error e → e = .overwrite
  | [], _, h => by cases h
  | (offset, d) :: ps, r, h => by
    rw [storeAll] at h
    split at h
    · rename_i hs
      obtain rfl := Except.error.inj h
      unfold store at hs
      split_ifs at hs
      exact (Except.error.inj hs).symm
    · exact storeAll_fault h

/-- There is a main executable, or the check for it fails. -/
theorem createMainBinSpecPayload_assertion_iff :
    createMainBinSpecPayload true modules = .error .assertion
      ↔ modules.infos.countP (·.isMainExecutable) = 0 := by
  have hnone : modules.infos.countP (·.isMainExecutable) = 0
      ↔ modules.moduleInfos.find? (·.2.isMainExecutable) = none := by
    rw [ModuleList.infos, List.countP_map, List.countP_eq_zero, List.find?_eq_none]
    rfl
  rw [hnone]
  unfold createMainBinSpecPayload
  rcases hmain : modules.moduleInfos.find? (·.2.isMainExecutable) with _ | ⟨loadAddr, mi⟩
  · simp [hmain]
  · rcases hp : getPreferredTextAddress mi with e | preferred
    · obtain rfl := preferredTextAddress_fault hp
      simp [hmain, hp, Except.map]
    · simp [hmain, hp, Except.map]

/-- Of the assertions on the payloads, only the one of the main executable can fail. -/
theorem addPayloads_assertion_iff (nBits : UInt32) (threadIds : List UInt64)
    (hn : b.noteCmds = dumpNotes none none none none)
    (hs : ∀ s ∈ b.segmentCmds, s.provider ≠ none) (hvalid : modules.isValid = true) :
    addPayloads true (some nBits) modules threadIds b = .error .assertion
      ↔ modules.Describable ∧ modules.infos.countP (·.isMainExecutable) = 0 := by
  obtain ⟨offset, put, hrun⟩ := addPayloads_run true nBits modules threadIds hn hs
  have himages := createAllImageInfosPayload_ok_iff offset hvalid
  rw [hrun]
  rcases hpayload : createAllImageInfosPayload offset modules with e | payload
  · have he : e = .overwrite := by
      rw [createAllImageInfosPayload_stores offset hvalid] at hpayload
      exact storeAll_fault hpayload
    subst he
    refine iff_of_false (fun h => by cases h) fun h => ?_
    obtain ⟨payload, hok⟩ := himages.2 h.1.images
    rw [hpayload] at hok
    cases hok
  have hroom := himages.1 ⟨payload, hpayload⟩
  rw [ok_bind, if_neg (payload_ne_nil hvalid hpayload)]
  have hdescribable : modules.infos.countP (·.isMainExecutable) = 0 → modules.Describable := by
    intro hnone
    refine ⟨hroom, fun mi hmi => ?_⟩
    have hmain := List.countP_eq_zero.1 hnone mi (List.mem_of_find?_eq_some hmi)
    exact absurd (List.find?_some hmi) hmain
  rw [and_iff_right_of_imp hdescribable, ← createMainBinSpecPayload_assertion_iff]
  rcases createMainBinSpecPayload true modules with e | spec
  · exact ⟨fun h => congrArg _ (Except.error.inj h), fun h => congrArg _ (Except.error.inj h)⟩
  · exact iff_of_false (fun h => by cases h) fun h => by cases h

end Payloads

/-- Where it ends, it returns `true`. -/
def Unfailing (f : BuildState FileStream → Except Fault (Bool × BuildState FileStream)) : Prop :=
  ∀ st r st', f st = .ok (r, st') → r = true

section Unfailing

theorem unfailing_write (data : Option (List UInt8)) (size : UInt64) :
    Unfailing (writeToOStream true data size) := by
  intro st r st' h
  simp only [writeToOStream] at h
  split_ifs at h with hnull
  obtain ⟨rfl, -⟩ := Prod.mk.inj (Except.ok.inj h)
  rcases data with _ | d
  · have hzero : size = 0 := by simpa [UInt64.pos_iff_ne_zero] using hnull
    simp [OStream.write, FileStream.write, hzero]
  · rfl

variable {f g : BuildState FileStream → Except Fault (Bool × BuildState FileStream)}

theorem Unfailing.seq (hf : Unfailing f) (hg : Unfailing g) : Unfailing (MacMiniDump.seq f g) := by
  intro st r st' h
  rcases seq_cases h with ⟨rfl, hleft⟩ | ⟨st₁, -, hright⟩
  · exact hf _ _ _ hleft
  · exact hg _ _ _ hright

theorem Unfailing.forEach {ι : Type*}
    {body : ι → BuildState FileStream → Except Fault (Bool × BuildState FileStream)}
    (hbody : ∀ i, Unfailing (body i)) (is : List ι) : Unfailing (MacMiniDump.forEach body is) :=
  fun st r st' h => (forEach_invariant (fun _ _ => True)
    (fun _ i s b s' _ hi => ⟨hbody i s b s' hi, trivial⟩) is [] st r st' trivial h).1

theorem unfailing_noteCommand (k : ℕ) : Unfailing (writeNoteCommand true k) := by
  intro st r st' h
  rcases hk : st.builder.noteCmds[k]? with _ | nc
  · rw [writeNoteCommand_of_none hk] at h
    exact (Prod.mk.inj (Except.ok.inj h)).1.symm
  rw [writeNoteCommand_of_some hk] at h
  obtain ⟨found, -, h⟩ := exists_of_bind_ok h
  exact unfailing_write _ _ _ _ _ h

theorem unfailing_threadCommand (k : ℕ) : Unfailing (writeThreadCommand true k) := by
  intro st r st' h
  rcases hk : st.builder.threadCmds[k]? with _ | tc
  · rw [writeThreadCommand_of_none hk] at h
    exact (Prod.mk.inj (Except.ok.inj h)).1.symm
  rw [writeThreadCommand_of_some hk] at h
  exact unfailing_write _ _ _ _ _ h

theorem unfailing_segmentCommand (k : ℕ) : Unfailing (writeSegmentCommand true k) := by
  intro st r st' h
  rcases hk : st.builder.segmentCmds[k]? with _ | sc
  · rw [writeSegmentCommand_of_none hk] at h
    exact (Prod.mk.inj (Except.ok.inj h)).1.symm
  rw [writeSegmentCommand_of_some hk] at h
  obtain ⟨found, -, h⟩ := exists_of_bind_ok h
  exact unfailing_write _ _ _ _ _ h

theorem unfailing_notePayload (k : ℕ) : Unfailing (writeNotePayload true k) := by
  intro st r st' h
  rcases hk : st.builder.noteCmds[k]? with _ | nc
  · rw [writeNotePayload_of_none hk] at h
    exact (Prod.mk.inj (Except.ok.inj h)).1.symm
  obtain ⟨offset, p, -, -, h⟩ := exists_noteData hk h
  exact unfailing_write _ _ _ _ _ h

theorem writeChunks_unfailing (p : DataProvider) (chunkSize : UInt64) :
    ∀ (n : ℕ) (offset : UInt64) (st : BuildState FileStream) (r : Bool) (offset' : UInt64)
      (st' : BuildState FileStream),
      writeChunks true p chunkSize n offset st = .ok (r, offset', st') → r = true
  | 0, offset, st, r, offset', st', h => (Prod.mk.inj (Except.ok.inj h)).1.symm
  | n + 1, offset, st, r, offset', st', h => by
    unfold writeChunks at h
    split at h
    · exact (Prod.mk.inj (Except.ok.inj h)).1.symm
    split at h
    · cases h
    · rename_i hwrite
      exact absurd (unfailing_write _ _ _ _ _ hwrite) Bool.false_ne_true
    · exact writeChunks_unfailing p chunkSize n _ _ _ _ _ h

theorem unfailing_segmentData (p : DataProvider) : Unfailing (writeSegmentData true p) := by
  intro st r st' h
  unfold writeSegmentData at h
  simp only [] at h
  split at h
  · cases h
  · rename_i hchunks
    exact absurd (writeChunks_unfailing _ _ _ _ _ _ _ _ hchunks) Bool.false_ne_true
  · exact unfailing_write _ _ _ _ _ h

theorem unfailing_segmentPayload (k : ℕ) : Unfailing (writeSegmentPayload true k) := by
  intro st r st' h
  rcases hk : st.builder.segmentCmds[k]? with _ | sc
  · rw [writeSegmentPayload_of_none hk] at h
    exact (Prod.mk.inj (Except.ok.inj h)).1.symm
  obtain ⟨startOffset, p, -, -, h⟩ := exists_segmentData hk h
  exact unfailing_segmentData p _ _ _ h

/-- What a release build fails of, a debug build asserts. -/
theorem unfailing_build : Unfailing (build true) := by
  intro st r st' h
  rw [build_eq] at h
  obtain ⟨c, hc⟩ : ∃ c, c = st.builder.finalizeLoadCommands := ⟨_, rfl⟩
  rw [← hc] at h
  have hall : Unfailing (writeOut true c) :=
    (unfailing_write (some c.header.bytes) MachHeader64.sizeOf).seq
      ((Unfailing.forEach unfailing_noteCommand (List.range c.noteCmds.length)).seq
      ((Unfailing.forEach unfailing_threadCommand (List.range c.threadCmds.length)).seq
      ((Unfailing.forEach unfailing_segmentCommand (List.range c.segmentCmds.length)).seq
      ((Unfailing.forEach unfailing_notePayload (List.range c.noteCmds.length)).seq
      (Unfailing.forEach unfailing_segmentPayload (List.range c.segmentCmds.length))))))
  exact hall _ _ _ h

end Unfailing

section File

variable {arch : Arch} {env : DumpEnv arch} {b : MachOCoreDumpBuilder}

theorem prepare_assertion_iff (env : DumpEnv arch) :
    env.prepare true = .error .assertion
      ↔ env.target.Ready ∧ env.target.modules.Describable
        ∧ env.target.modules.infos.countP (·.isMainExecutable) = 0 := by
  by_cases hthreads : env.target.threads = none
  · have hnone : env.prepare true = .ok none := by
      rw [DumpEnv.prepare, Target.addThreadsToCore, hthreads]
      rfl
    rw [hnone]
    exact iff_of_false (fun h => by cases h) fun h => h.1.threads hthreads
  obtain ⟨c, addresses, threadIds, hrun, hcn, hcs⟩ := prepare_run env true hthreads
  rw [hrun]
  rcases hbits : env.target.nAddrableBits with _ | nBits
  · exact iff_of_false (fun h => by cases h) fun h => h.1.nAddrableBits hbits
  have hmarked : (env.target.modules.markAll addresses).isValid = env.target.modules.isValid :=
    isValid_markAll _
  rcases hvalid : env.target.modules.isValid with _ | _
  · rw [addPayloads_invalid true nBits threadIds hcn hcs (hmarked.trans hvalid)]
    refine iff_of_false (fun h => by cases h) fun h => ?_
    rw [h.1.modules] at hvalid
    cases hvalid
  · rw [addPayloads_assertion_iff nBits threadIds hcn hcs (hmarked.trans hvalid),
      describable_markAll, countP_markAll]
    exact (and_iff_right ⟨hthreads, by simp [hbits], hvalid⟩).symm

/-- What was put together is written without a failed assertion when no leftover is lost, and only
then. -/
theorem build_assertion_iff (hput : DumpPut env b) (hfits : Fits b) :
    build true ⟨b, FileStream.empty⟩ = .error .assertion
      ↔ ¬ env.target.LeftoversReadable env.crash := by
  obtain ⟨r, st', hbuild, hr⟩ := build_put_outcome hput FileStream.empty
  have hchecked : Asserting (SameAnswer SameBuild) _ _ := asserting_build b FileStream.empty
  rw [← hr]
  cases r with
  | false =>
    refine iff_of_true ?_ Bool.false_ne_true
    rw [hbuild] at hchecked
    generalize hdebug : build true ⟨b, FileStream.empty⟩ = x at hchecked
    cases hchecked with
    | check h => rw [h]
    | @ok a _ h => exact absurd (h.1.symm.trans (unfailing_build _ _ _ hdebug)) Bool.false_ne_true
  | true =>
    have hfin : b.finalizeLoadCommands = b := by rw [finalizeLoadCommands, if_pos hput.finalized]
    have hscript := (build_script (by rw [hfin]; exact hput.distinctOwners)
      (by rw [hfin]; exact hput.distinctVmaddrs) hbuild).2
    simp only [hfin] at hscript
    have hw := streams_of_runOps hput hfits hscript.symm
    obtain ⟨hpair, hlt⟩ := extents_ascend hw hfits.toExact
    have hasc := ascending_extents b.extents 0 (fun _ _ => Nat.zero_le _) hpair hlt
    rw [← script_eq hw] at hasc
    obtain ⟨hnoted, -, hfed⟩ := hput.sound
    have hprovided : Provided b := by
      refine ⟨?_, hnoted.provided, fun s hs => ?_⟩
      · obtain ⟨d₁, d₂, d₃, d₄, hnotes⟩ := hput.notes
        simp [hnotes, dumpNotes]
      · obtain ⟨-, r, -, -, hsize, hprov⟩ := hput.segment hs
        obtain ⟨p, hp, hne⟩ := hfed.segments s hs
        obtain rfl := Option.some.inj (hprov.symm.trans hp)
        exact ⟨_, hprov, hsize.symm, hne⟩
    have hcompletes : ∃ st₁, build true ⟨b, FileStream.empty⟩ = .ok (true, st₁) ∧ _ :=
      build_completes (by rw [hfin]; exact hput.distinctOwners)
        (by rw [hfin]; exact hput.distinctVmaddrs) (by rwa [hfin]) (Nat.two_pow_pos 64)
        (by rw [hfin]; exact hasc.2)
    obtain ⟨st₁, hdebug, -⟩ := hcompletes
    rw [hdebug]
    exact iff_of_false (fun h => by cases h) fun h => h rfl

theorem asserting_prepare (env : DumpEnv arch) :
    Asserting Eq (env.prepare true) (env.prepare false) := by
  unfold DumpEnv.prepare
  rcases env.target.addThreadsToCore env.crash (new arch) with _ | c
  · exact .refl _
  · exact asserting_addPayloads _ _ _

/-- The dump gets as far as to an assertion that fails: there is no main executable, or something
left over of a run of requested addresses cannot be read. -/
def DumpEnv.Asserts (env : DumpEnv arch) : Prop :=
  env.pidForTask = true ∧ env.suspended = true ∧ env.target.Ready
    ∧ env.target.modules.Describable
    ∧ (env.target.modules.infos.countP (·.isMainExecutable) = 0
      ∨ ¬ env.target.LeftoversReadable env.crash)

/-- A debug build of a dump to a new file asserts, or it is the release build. -/
theorem debug_writeDump_iff (env : DumpEnv arch) (f : FileStream) (hpos : f.pos = 0)
    (hfits : ∀ b, env.prepare false = .ok (some b) → Fits b) :
    (env.miniDumpWriteDumpImpl true f = .error .assertion ↔ env.Asserts)
      ∧ (¬ env.Asserts →
        env.miniDumpWriteDumpImpl true f = env.miniDumpWriteDumpImpl false f) := by
  have hassert := prepare_assertion_iff env
  obtain ⟨hyes, hno, hnone⟩ := prepare_outcome env
  have hsetSize : OStream.setSize 0 f = (true, FileStream.empty) := by
    simp [OStream.setSize, FileStream.setSize, FileStream.empty, hpos]
  unfold DumpEnv.miniDumpWriteDumpImpl DumpEnv.Asserts
  rcases env.pidForTask with _ | _
  · simp
  rcases env.suspended with _ | _
  · simp [hsetSize]
  simp only [hsetSize, Bool.not_true, Bool.false_eq_true, if_false, true_and]
  rcases (asserting_prepare env).cases with hfails | hsame
  · rw [hfails]
    obtain ⟨hready, hdescribable, hmain⟩ := hassert.1 hfails
    exact ⟨iff_of_true rfl ⟨hready, hdescribable, .inl hmain⟩,
      fun hnot => absurd ⟨hready, hdescribable, .inl hmain⟩ hnot⟩
  rw [hsame] at hassert ⊢
  by_cases hready : env.target.Ready
  · by_cases hdescribable : env.target.modules.Describable
    · obtain ⟨b, hb⟩ := hyes hready hdescribable
      have hbuild := build_assertion_iff (prepare_put hb) (hfits b hb)
      have hmain : env.target.modules.infos.countP (·.isMainExecutable) ≠ 0 := by
        intro hzero
        rw [hassert.2 ⟨hready, hdescribable, hzero⟩] at hb
        cases hb
      rw [hb]
      simp only [or_iff_right hmain, and_iff_right hready, and_iff_right hdescribable, ← hbuild]
      have hmap : (build true ⟨b, FileStream.empty⟩).map (fun r => (r.1, r.2.stream))
            = .error .assertion
          ↔ build true ⟨b, FileStream.empty⟩ = .error .assertion := by
        rcases build true ⟨b, FileStream.empty⟩ with e | ⟨r, st⟩
        · exact ⟨fun h => congrArg _ (Except.error.inj h), fun h => congrArg _ (Except.error.inj h)⟩
        · exact iff_of_false (fun h => by cases h) fun h => by cases h
      exact ⟨hmap, fun hnot =>
        (asserting_buildStream b FileStream.empty).cases.resolve_left fun h => hnot (hmap.1 h)⟩
    · obtain ⟨e, he⟩ := hno hready hdescribable
      rw [he]
      refine ⟨iff_of_false (fun h => hdescribable ?_) fun h => hdescribable h.2.1, fun _ => rfl⟩
      exact (hassert.1 (he.trans (congrArg _ (Except.error.inj h)))).2.1
  · rw [hnone hready]
    exact ⟨iff_of_false (fun h => by cases h) fun h => hready h.1, fun _ => rfl⟩

end File

/-- The dump of the one page while all there is of images is `dyld`. -/
def dyldDump : DumpEnv .arm64 :=
  { withCallStack [0x1200] with
    target := { (withCallStack [0x1200]).target with modules := onlyDyld } }

theorem asserts_dyldDump {b : MachOCoreDumpBuilder} (hb : dyldDump.prepare false = .ok (some b)) :
    dyldDump.Asserts := by
  have hready : dyldDump.target.Ready := ⟨by decide, by decide, rfl⟩
  refine ⟨rfl, rfl, hready, ?_, .inl (by decide +kernel)⟩
  by_contra hnot
  obtain ⟨e, he⟩ := (prepare_outcome dyldDump).2.1 hready hnot
  rw [hb] at he
  cases he

/-- The dump of the one page, with its main executable and nothing lost, asserts nothing. With
`dyld` alone it asserts, where a release build succeeds. -/
theorem debug_writeDump_withCallStack :
    (¬ (withCallStack [0x1200]).Asserts
        ∧ (withCallStack [0x1200]).miniDumpWriteDumpImpl true FileStream.empty
          = (withCallStack [0x1200]).miniDumpWriteDumpImpl false FileStream.empty)
      ∧ dyldDump.miniDumpWriteDumpImpl true FileStream.empty = .error .assertion
      ∧ ∃ f, dyldDump.miniDumpWriteDumpImpl false FileStream.empty = .ok (true, f) := by
  obtain ⟨b, -, hb, -, hfits⟩ := exists_of_succeeds succeeds_withCallStack.1
  have hsucceeds : dyldDump.succeeds = true := by decide +kernel
  obtain ⟨b', f, hb', hf, hfits'⟩ := exists_of_succeeds hsucceeds
  have hends : ((withCallStack [0x1200]).miniDumpWriteDumpImpl true
      FileStream.empty).toOption.isSome = true := by decide +kernel
  obtain ⟨hasserts, hsame⟩ := debug_writeDump_iff (withCallStack [0x1200]) FileStream.empty rfl
    fun c hc => by
      rw [hb, Except.ok.injEq, Option.some.injEq] at hc
      exact hc ▸ hfits
  obtain ⟨hasserts', -⟩ := debug_writeDump_iff dyldDump FileStream.empty rfl fun c hc => by
    rw [hb', Except.ok.injEq, Option.some.injEq] at hc
    exact hc ▸ hfits'
  have hnot : ¬ (withCallStack [0x1200]).Asserts := by
    intro h
    rw [hasserts.2 h] at hends
    cases hends
  exact ⟨⟨hnot, hsame hnot⟩, hasserts'.2 (asserts_dyldDump hb'), f, hf⟩

end MacMiniDump
