import MacMiniDump.Layout

/-!
# `FileOStream`

The stream over a descriptor, and the system behind it, which may fail a call or store no more than
a part of what it is given. A call does what a stream should exactly when it is not a write that is
cut short and not a `Flush` (`meetsSpec_iff`): `Write` takes any number but `-1` for success, and
`Flush` has the result of `fsync` the wrong way round. So it is for sequences of calls and for
`Build` (`fileOStream_iff`).
-/

namespace MacMiniDump

/-- What the system makes of a call. It may do less of a write than it was asked for. -/
inductive Answer
  | fails
  | does (n : ℕ)
  deriving DecidableEq

inductive Whence
  | SEEK_SET
  | SEEK_CUR
  | SEEK_END
  deriving DecidableEq

/-- The file behind the descriptor, whose offset is an `off_t`, and what the system will answer. -/
structure FileOStream where
  file : FileStream
  answers : ℕ → Answer
  offset : file.pos < 2 ^ 63

namespace FileOStream

variable (s : FileOStream)

/-- The system after one more answer. -/
def answered : FileOStream := { s with answers := fun i => s.answers (i + 1) }

/-- How many of `size` bytes the answer stores: no byte goes behind the last offset. -/
def stored (size n : ℕ) : ℕ := min n (min size (2 ^ 63 - 1 - s.file.pos))

/-- `write`, `none` being -1. There is nothing to read at a null pointer. -/
def posixWrite (data : Option (List UInt8)) (size : UInt64) : Option ℕ × FileOStream :=
  match data, s.answers 0 with
  | none, _ => (if size = 0 then some 0 else none, s.answered)
  | some _, .fails => (none, s.answered)
  | some d, .does n =>
    (some (s.stored d.length n),
      { answers := s.answered.answers
        file := ⟨writeAt s.file.content s.file.pos (d.take (s.stored d.length n)),
          s.file.pos + s.stored d.length n⟩
        offset := by
          have hpos := s.offset
          have hle : s.stored d.length n ≤ 2 ^ 63 - 1 - s.file.pos :=
            (min_le_right _ _).trans (min_le_right _ _)
          show s.file.pos + s.stored d.length n < 2 ^ 63
          omega })

/-- `fsync` -/
def fsync : Option ℕ × FileOStream :=
  match s.answers 0 with
  | .fails => (none, s.answered)
  | .does _ => (some 0, s.answered)

/-- `ftruncate`. A length is an `off_t`, too. -/
def ftruncate (length : UInt64) : Option ℕ × FileOStream :=
  match s.answers 0 with
  | .fails => (none, s.answered)
  | .does _ =>
    if length.toNat < 2 ^ 63 then
      (some 0, { s.answered with file := (FileStream.setSize length s.file).2, offset := s.offset })
    else (none, s.answered)

/-- Where `lseek` goes, if that is an `off_t` of a file. From 2^63 on an offset is negative; those
are only ever set. -/
def seekTarget (offset : UInt64) (whence : Whence) : Option {t : ℕ // t < 2 ^ 63} :=
  let start := match whence with
    | .SEEK_SET => 0
    | .SEEK_CUR => s.file.pos
    | .SEEK_END => s.file.content.length
  if h : start + offset.toNat < 2 ^ 63 then some ⟨start + offset.toNat, h⟩ else none

/-- The stream at an offset, if there is one. -/
def seekTo : Option {t : ℕ // t < 2 ^ 63} → FileOStream
  | none => s
  | some t => { s with file := { s.file with pos := t }, offset := t.2 }

/-- `lseek`, with its result as the code has it, in a `size_t`. -/
def lseek (offset : UInt64) (whence : Whence) : UInt64 × FileOStream :=
  (match s.seekTarget offset whence with
    | none => UInt64.ofNat (2 ^ 64 - 1)
    | some t => UInt64.ofNat t,
    s.seekTo (s.seekTarget offset whence))

def write (data : Option (List UInt8)) (size : UInt64) : Bool × FileOStream :=
  ((s.posixWrite data size).1 ≠ none, (s.posixWrite data size).2)

/-- The result of `fsync` is converted to a `bool`. -/
def flush : Bool × FileOStream := (s.fsync.1 ≠ some 0, s.fsync.2)

def getPosition : UInt64 := (s.lseek 0 .SEEK_CUR).1

def setPosition (newPos : UInt64) : FileOStream := (s.lseek newPos .SEEK_SET).2

def getSize : UInt64 × FileOStream :=
  let prevPos := s.getPosition
  let (size, s) := s.lseek 0 .SEEK_END
  (size, (s.lseek prevPos .SEEK_SET).2)

def setSize (newSize : UInt64) : Bool × FileOStream :=
  ((s.ftruncate newSize).1 ≠ none, (s.ftruncate newSize).2)

instance : OStream FileOStream where
  write data size s := s.write data size
  getPosition s := s.getPosition
  setPosition p s := s.setPosition p
  setSize n s := s.setSize n

/-! ## Calls -/

/-- A call of a method. -/
inductive Call
  | op (o : StreamOp)
  | getPosition
  | setSize (newSize : UInt64)
  | getSize
  | flush

/-- The stream after a call. -/
def call : Call → FileOStream
  | .op (.write data size) => (s.write data size).2
  | .op (.setPosition p) => s.setPosition p
  | .getPosition => s
  | .setSize n => (s.setSize n).2
  | .getSize => s.getSize.2
  | .flush => s.flush.2

/-- All calls of a sequence meet `P`, each on the stream it is made on. -/
def Always (P : FileOStream → Call → Prop) : List Call → FileOStream → Prop
  | [], _ => True
  | c :: calls, s => P s c ∧ Always P calls (s.call c)

/-- A write that stores all it is given, where the stream is. -/
def StoresAll (data : Option (List UInt8)) (size : UInt64) : Prop :=
  (s.write data size).2.file
    = ⟨writeAt s.file.content s.file.pos (data.getD []), s.file.pos + (data.getD []).length⟩

/-- What a stream should do. -/
def MeetsSpec : Call → Prop
  | .op (.write data size) => (s.write data size).1 = true → s.StoresAll data size
  | .op (.setPosition p) => p.toNat < 2 ^ 63 → (s.setPosition p).file
      = { s.file with pos := p.toNat }
  | .getPosition => s.getPosition.toNat = s.file.pos
  | .setSize n => ((s.setSize n).1 = true ↔ (s.ftruncate n).1 = some 0)
    ∧ ((s.setSize n).1 = true → (s.setSize n).2.file = (FileStream.setSize n s.file).2)
  | .getSize => s.getSize.2.file = s.file
  | .flush => s.flush.1 = true ↔ s.fsync.1 = some 0

/-- Is the call neither a write that is cut short nor a `Flush`? -/
def Sound : Call → Prop
  | .op (.write (some d) _) => ∀ n, s.answers 0 = .does n → s.stored d.length n = d.length
  | .flush => False
  | _ => True

/-- After the call everything it was given to write is in the file. -/
def StoredBy : Call → Prop
  | .op (.write data size) => s.StoresAll data size
  | _ => True

variable {s}

theorem seekTarget_set {p : UInt64} (hp : p.toNat < 2 ^ 63) :
    s.seekTarget p .SEEK_SET = some ⟨p.toNat, hp⟩ := by
  unfold seekTarget
  simp only [Nat.zero_add]
  rw [dif_pos hp]

theorem seekTarget_cur : s.seekTarget 0 .SEEK_CUR = some ⟨s.file.pos, s.offset⟩ := by
  unfold seekTarget
  simp only [UInt64.toNat_zero, Nat.add_zero]
  rw [dif_pos s.offset]

/-- Seeking to an offset there can be. -/
theorem lseek_set {p : UInt64} (hp : p.toNat < 2 ^ 63) :
    (s.lseek p .SEEK_SET).2.file = { s.file with pos := p.toNat } := by
  unfold lseek
  rw [seekTarget_set hp]
  rfl

theorem toNat_getPosition : s.getPosition.toNat = s.file.pos := by
  have hpos := s.offset
  unfold getPosition lseek
  rw [seekTarget_cur]
  simp only
  rw [UInt64.toNat_ofNat', Nat.mod_eq_of_lt (by omega)]

/-- Going to the end and back. -/
theorem file_getSize : s.getSize.2.file = s.file := by
  have hpos := s.offset
  have hback : s.getPosition.toNat < 2 ^ 63 := toNat_getPosition ▸ hpos
  have hend : ∀ t, (s.seekTo t).file.content = s.file.content := by
    rintro (_ | t)
    · rfl
    · rfl
  unfold getSize
  simp only
  rw [lseek_set hback, toNat_getPosition]
  exact congrArg (FileStream.mk · s.file.pos) (hend _)

theorem write_eq_true_iff {d : List UInt8} {size : UInt64} :
    (s.write (some d) size).1 = true ↔ ∃ n, s.answers 0 = .does n := by
  unfold write posixWrite
  rcases s.answers 0 with _ | n <;> simp

/-- A write that succeeds stores everything when it is not cut short, and only then. -/
theorem storesAll_iff {d : List UInt8} {size : UInt64} {n : ℕ} (h : s.answers 0 = .does n) :
    s.StoresAll (some d) size ↔ s.stored d.length n = d.length := by
  unfold StoresAll write posixWrite
  rw [h]
  simp only [Option.getD_some]
  constructor
  · intro heq
    have hpos := congrArg FileStream.pos heq
    exact Nat.add_left_cancel hpos
  · intro hall
    rw [hall, List.take_length]

theorem meetsSpec_iff (c : Call) : s.MeetsSpec c ↔ s.Sound c := by
  rcases c with (p | ⟨_ | d, size⟩) | _ | n | _ | _
  · exact iff_of_true lseek_set trivial
  · refine iff_of_true (fun _ => ?_) trivial
    show s.file = _
    rw [Option.getD_none, writeAt_nil]
    rfl
  · show ((s.write (some d) size).1 = true → s.StoresAll (some d) size) ↔ ∀ n, _
    rw [write_eq_true_iff]
    constructor
    · intro h n hn
      exact (storesAll_iff hn).1 (h ⟨n, hn⟩)
    · rintro h ⟨n, hn⟩
      exact (storesAll_iff hn).2 (h n hn)
  · exact iff_of_true toNat_getPosition trivial
  · refine iff_of_true ?_ trivial
    unfold MeetsSpec setSize ftruncate
    rcases s.answers 0 with _ | _
    · simp
    · simp only
      split_ifs <;> simp
  · exact iff_of_true file_getSize trivial
  · refine iff_of_false ?_ id
    unfold MeetsSpec flush fsync
    rcases s.answers 0 with _ | n <;> simp

theorem always_congr {P Q : FileOStream → Call → Prop} (h : ∀ s c, P s c ↔ Q s c) :
    ∀ (calls : List Call) (s : FileOStream), Always P calls s ↔ Always Q calls s
  | [], _ => Iff.rfl
  | c :: calls, s => and_congr (h s c) (always_congr h calls _)

end FileOStream

/-- Whatever `f` does to its stream is a script of seeks and writes. -/
def Runs {σ : Type} [OStream σ] (f : BuildState σ → Except Fault (Bool × BuildState σ)) : Prop :=
  ∀ st r st', f st = .ok (r, st') → ∃ ops, (r, st'.stream) = runOps ops st.stream

section Runs

variable {σ : Type} [OStream σ] {debug : Bool}

theorem Runs.seq {f g : BuildState σ → Except Fault (Bool × BuildState σ)} (hf : Runs f)
    (hg : Runs g) : Runs (MacMiniDump.seq f g) := by
  intro st r st' h
  rcases seq_cases h with ⟨rfl, h₁⟩ | ⟨st₁, h₁, h₂⟩
  · exact hf st false st' h₁
  · obtain ⟨ops, h₁⟩ := hf st true st₁ h₁
    obtain ⟨ops', h₂⟩ := hg st₁ r st' h₂
    exact ⟨ops ++ ops', by rw [runOps_append_of_true _ _ h₁.symm, h₂]⟩

theorem Runs.forEach {body : ℕ → BuildState σ → Except Fault (Bool × BuildState σ)}
    (hb : ∀ k, Runs (body k)) : ∀ ks : List ℕ, Runs (MacMiniDump.forEach body ks)
  | [] => fun st r st' h => by
    simp only [MacMiniDump.forEach, Except.ok.injEq, Prod.mk.injEq] at h
    obtain ⟨rfl, rfl⟩ := h
    exact ⟨[], rfl⟩
  | k :: ks => (hb k).seq (Runs.forEach hb ks)

theorem runs_writeToOStream (data : Option (List UInt8)) (size : UInt64) :
    Runs (writeToOStream (σ := σ) debug data size) := fun _ _ _ h => ⟨_, runOps_of_write h⟩

theorem runs_of_none {f : BuildState σ → Except Fault (Bool × BuildState σ)} {st st' : BuildState σ}
    {r : Bool} (hf : f st = .ok (true, st)) (h : f st = .ok (r, st')) :
    ∃ ops, (r, st'.stream) = runOps ops st.stream := by
  rw [hf] at h
  simp only [Except.ok.injEq, Prod.mk.injEq] at h
  obtain ⟨rfl, rfl⟩ := h
  exact ⟨[], rfl⟩

theorem runs_noteCommand (k : ℕ) : Runs (writeNoteCommand (σ := σ) debug k) := by
  intro st r st' h
  rcases hk : st.builder.noteCmds[k]? with _ | nc
  · exact runs_of_none (writeNoteCommand_of_none hk) h
  · obtain ⟨_, _, _, hr⟩ := writeNoteCommand_eq hk h
    exact ⟨_, hr⟩

theorem runs_threadCommand (k : ℕ) : Runs (writeThreadCommand (σ := σ) debug k) := by
  intro st r st' h
  rcases hk : st.builder.threadCmds[k]? with _ | tc
  · exact runs_of_none (writeThreadCommand_of_none hk) h
  · rw [writeThreadCommand_of_some hk] at h
    exact runs_writeToOStream _ _ st r st' h

theorem runs_segmentCommand (k : ℕ) : Runs (writeSegmentCommand (σ := σ) debug k) := by
  intro st r st' h
  rcases hk : st.builder.segmentCmds[k]? with _ | sc
  · exact runs_of_none (writeSegmentCommand_of_none hk) h
  · obtain ⟨_, _, _, hr⟩ := writeSegmentCommand_eq hk h
    exact ⟨_, hr⟩

theorem runs_notePayload (k : ℕ) : Runs (writeNotePayload (σ := σ) debug k) := by
  intro st r st' h
  rcases hk : st.builder.noteCmds[k]? with _ | nc
  · exact runs_of_none (writeNotePayload_of_none hk) h
  · obtain ⟨_, _, _, _, _, hr⟩ := writeNotePayload_eq hk h
    exact ⟨_, hr⟩

theorem runs_segmentPayload (k : ℕ) : Runs (writeSegmentPayload (σ := σ) debug k) := by
  intro st r st' h
  rcases hk : st.builder.segmentCmds[k]? with _ | sc
  · exact runs_of_none (writeSegmentPayload_of_none hk) h
  · obtain ⟨_, _, _, _, _, hr⟩ := writeSegmentPayload_eq hk h
    exact ⟨_, hr⟩

/-- Any build does, whatever is in the builder. -/
theorem runs_build : Runs (build (σ := σ) debug) := by
  intro st r st' h
  rw [build_eq] at h
  have hall : Runs (writeOut (σ := σ) debug st.builder.finalizeLoadCommands) :=
    (runs_writeToOStream _ _).seq ((Runs.forEach runs_noteCommand _).seq
      ((Runs.forEach runs_threadCommand _).seq ((Runs.forEach runs_segmentCommand _).seq
        ((Runs.forEach runs_notePayload _).seq (Runs.forEach runs_segmentPayload _)))))
  exact hall { builder := startOfBuild debug st.builder, stream := st.stream } r st' h

end Runs

namespace FileOStream

variable {s : FileOStream}

/-- A script that succeeds stores everything when none of its writes is cut short, and only then. -/
theorem always_storesAll_iff :
    ∀ (ops : List StreamOp) (s s' : FileOStream), runOps ops s = (true, s') →
      (Always StoredBy (ops.map .op) s ↔ Always Sound (ops.map .op) s)
  | [], _, _, _ => Iff.rfl
  | .setPosition p :: ops, s, s', h => and_congr_right fun _ => always_storesAll_iff ops _ s' h
  | .write data size :: ops, s, s', h => by
    rw [runOps] at h
    split_ifs at h with hw
    · refine and_congr ?_ (always_storesAll_iff ops _ s' h)
      rw [← meetsSpec_iff]
      exact ⟨fun hall _ => hall, fun hspec => hspec hw⟩
    · simp at h

/-- A script on a recorded stream runs on the stream itself. -/
theorem runOps_inner {σ : Type} [OStream σ] :
    ∀ (ops : List StreamOp) (t : Recorded σ),
      ((runOps ops t).1, (runOps ops t).2.inner) = runOps ops t.inner
  | [], _ => rfl
  | .setPosition p :: ops, t => runOps_inner ops (OStream.setPosition p t)
  | .write data size :: ops, t => by
    have hrest := runOps_inner ops (OStream.write data size t).2
    have hwrite : (OStream.write data size t).1 = (OStream.write data size t.inner).1 := rfl
    simp only [runOps]
    rw [hwrite]
    split_ifs
    · exact hrest
    · rfl

/-- What a build that succeeds has done to the stream is in the log. -/
theorem runOps_log_of_build {σ : Type} [OStream σ] {debug : Bool} {b : MachOCoreDumpBuilder} {s : σ}
    {st' : BuildState (Recorded σ)} (h : build debug ⟨b, ⟨s, []⟩⟩ = .ok (true, st')) :
    runOps st'.stream.log s = (true, st'.stream.inner) := by
  obtain ⟨ops, hops⟩ := runs_build _ _ _ h
  obtain ⟨done, -, hlog, hall⟩ := runOps_log ops (⟨s, []⟩ : Recorded σ)
  have hinner := runOps_inner ops (⟨s, []⟩ : Recorded σ)
  rw [← hops] at hlog hall hinner
  rw [hlog, List.nil_append, hall rfl]
  exact hinner.symm

end FileOStream

open FileOStream

/-- A sequence of calls, or a build that succeeds, does all it should exactly when no write is cut
short, and there is no `Flush`. -/
theorem fileOStream_iff (s : FileOStream) :
    (∀ calls, Always MeetsSpec calls s ↔ Always Sound calls s)
      ∧ ∀ debug b (st' : BuildState (Recorded FileOStream)),
        build debug ⟨b, ⟨s, []⟩⟩ = .ok (true, st') →
        runOps st'.stream.log s = (true, st'.stream.inner)
          ∧ (Always StoredBy (st'.stream.log.map .op) s
            ↔ Always Sound (st'.stream.log.map .op) s) := by
  refine ⟨fun calls => always_congr (fun _ c => meetsSpec_iff c) calls s, fun debug b st' h => ?_⟩
  have hlog := runOps_log_of_build h
  exact ⟨hlog, always_storesAll_iff _ s _ hlog⟩

/-- A file on a disk with room for a byte with each call. -/
def fullDisk : FileOStream where
  file := FileStream.empty
  answers _ := .does 1
  offset := by simp [FileStream.empty]

/-- A write loses all but a byte, a flush that succeeds says it has not, and a build that succeeds
has written a byte of the header. -/
theorem fileOStream_fullDisk :
    ((fullDisk.write (some [1, 2]) 2).1 = true
        ∧ (fullDisk.write (some [1, 2]) 2).2.file = ⟨[1], 1⟩)
      ∧ (fullDisk.fsync.1 = some 0 ∧ fullDisk.flush.1 = false)
      ∧ ∃ st', build false ⟨MachOCoreDumpBuilder.new .arm64, fullDisk⟩ = .ok (true, st')
        ∧ st'.stream.file.content.length = 1 := by
  refine ⟨⟨rfl, rfl⟩, ⟨rfl, rfl⟩, _, rfl, rfl⟩

end MacMiniDump
