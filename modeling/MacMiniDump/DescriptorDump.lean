import MacMiniDump.FileOStream
import MacMiniDump.Outcome

/-!
# A dump to a descriptor

A release build of a dump to any stream runs the script of what was put together (`writeDump_run`).
So a dump to a descriptor is the one to a plain file, as long as the system cuts no write short: it
succeeds when that does and the system fails no call, and then the file is the same
(`writeDump_descriptor_iff`).
-/

namespace MacMiniDump

open MachOCoreDumpBuilder FileOStream

variable {arch : Arch} {env : DumpEnv arch} {b : MachOCoreDumpBuilder}

/-- Once something was put together, what is left is its script. -/
theorem writeDump_run (hb : env.prepare false = .ok (some b)) (hpid : env.pidForTask = true)
    (hsuspended : env.suspended = true) {σ : Type} [OStream σ] {s : σ}
    (hsize : (OStream.setSize 0 s).1 = true) :
    env.miniDumpWriteDumpImpl false s = .ok (runOps b.script (OStream.setSize 0 s).2) := by
  have hput := prepare_put hb
  obtain ⟨hnoted, hhonest, hfed⟩ := hput.sound
  have hany : Takes σ (fun _ _ => False) (fun _ _ => True) :=
    ⟨fun _ _ _ h => h.elim, fun _ _ _ _ => trivial⟩
  have hfin : b.finalizeLoadCommands = b := by rw [finalizeLoadCommands, if_pos hput.finalized]
  have hset : OStream.setSize 0 s = (true, (OStream.setSize 0 s).2) := Prod.ext hsize rfl
  unfold DumpEnv.miniDumpWriteDumpImpl
  rw [hset]
  simp only [hpid, hsuspended, hb, Bool.not_true, Bool.false_eq_true, if_false]
  rcases hr : build false ⟨b, (OStream.setSize 0 s).2⟩ with e | ⟨r, st'⟩
  · rcases (build_outcome false hany hnoted _).1 e hr with ⟨-, hdebug⟩ | ⟨-, hnot⟩ | ⟨-, hnot⟩
    · cases hdebug
    · exact absurd hhonest hnot
    · exact absurd hfed hnot
  · obtain ⟨-, hscript⟩ := build_script (by rw [hfin]; exact hput.distinctOwners)
      (by rw [hfin]; exact hput.distinctVmaddrs) hr
    simp only [hfin] at hscript
    rw [← hscript]
    rfl

/-- A dump that succeeds has come so far. -/
theorem started_of_writeDump {debug : Bool} {σ : Type} [OStream σ] {s s' : σ}
    (h : env.miniDumpWriteDumpImpl debug s = .ok (true, s')) :
    env.pidForTask = true ∧ env.suspended = true ∧ (OStream.setSize 0 s).1 = true := by
  unfold DumpEnv.miniDumpWriteDumpImpl at h
  split at h
  · simp at h
  rename_i hpid
  split at h
  · simp at h
  rename_i hsize
  split at h
  · simp at h
  rename_i hsuspended
  rw [hsize]
  exact ⟨by simpa using hpid, by simpa using hsuspended, rfl⟩

namespace FileOStream

/-- The system does not fail the call. -/
def Succeeds (s : FileOStream) : Call → Prop
  | .op (.write (some _) _) => s.answers 0 ≠ .fails
  | _ => True

/-- A write that is not cut short is that of a plain file, unless the system fails it. -/
theorem write_of_sound {s : FileOStream} {data : Option (List UInt8)} {size : UInt64}
    (h : s.Sound (.op (.write data size))) :
    ((s.write data size).1 = true
        ↔ (FileStream.write data size s.file).1 = true ∧ s.Succeeds (.op (.write data size)))
      ∧ ((s.write data size).1 = true →
        (s.write data size).2.file = (FileStream.write data size s.file).2) := by
  rcases data with _ | d
  · refine ⟨?_, fun _ => rfl⟩
    by_cases hsize : size = 0 <;> simp [write, posixWrite, FileStream.write, Succeeds, hsize]
  rw [write_eq_true_iff]
  rcases hanswer : s.answers 0 with _ | n
  · simp [FileStream.write, Succeeds, hanswer]
  · have hstores : s.StoresAll (some d) size := (storesAll_iff hanswer).2 (h n hanswer)
    exact ⟨by simp [FileStream.write, Succeeds, hanswer], fun _ => hstores⟩

/-- So is a script. -/
theorem runOps_of_sound :
    ∀ (ops : List StreamOp) (s : FileOStream), (∀ p ∈ seeks ops, p.toNat < 2 ^ 63) →
      Always Sound (ops.map .op) s →
      ((runOps ops s).1 = true
          ↔ (runOps ops s.file).1 = true ∧ Always Succeeds (ops.map .op) s)
        ∧ ((runOps ops s).1 = true → (runOps ops s).2.file = (runOps ops s.file).2)
  | [], s, _, _ => by simp [runOps, Always]
  | .setPosition p :: ops, s, hseeks, hsound => by
    have hp : p.toNat < 2 ^ 63 := hseeks p List.mem_cons_self
    have hrest : ∀ q ∈ seeks ops, q.toNat < 2 ^ 63 :=
      fun q hq => hseeks q (List.mem_cons_of_mem _ hq)
    have hfile : (s.setPosition p).file = OStream.setPosition p s.file := lseek_set hp
    obtain ⟨hiff, hsame⟩ := runOps_of_sound ops (s.setPosition p) hrest hsound.2
    rw [hfile] at hiff hsame
    exact ⟨hiff.trans (and_congr_right fun _ => (and_iff_right trivial).symm), hsame⟩
  | .write data size :: ops, s, hseeks, hsound => by
    have hrest : ∀ q ∈ seeks ops, q.toNat < 2 ^ 63 := hseeks
    obtain ⟨hwrite, hstored⟩ := write_of_sound hsound.1
    obtain ⟨hiff, hsame⟩ := runOps_of_sound ops (s.write data size).2 hrest hsound.2
    have hstep : (OStream.write data size s) = s.write data size := rfl
    have hplain : (OStream.write data size s.file) = FileStream.write data size s.file := rfl
    simp only [runOps, hstep, hplain]
    by_cases hw : (s.write data size).1 = true
    · obtain ⟨hplain', hsucceeds⟩ := hwrite.1 hw
      rw [hstored hw] at hiff hsame
      simp only [if_pos hw, if_pos hplain']
      exact ⟨hiff.trans (and_congr_right fun _ => (and_iff_right hsucceeds).symm), hsame⟩
    · simp only [if_neg hw, Bool.false_eq_true, false_iff, false_implies, and_true, not_and]
      intro hrun halways
      split_ifs at hrun with hplain'
      exact hw (hwrite.2 ⟨hplain', halways.1⟩)

end FileOStream

/-- A dump to a descriptor of which the system cuts no write short succeeds when the one to a plain
file does and the system fails no call, and leaves the same file. -/
theorem writeDump_descriptor_iff {s : FileOStream} (hb : env.prepare false = .ok (some b))
    (hoffsets : ∀ p ∈ seeks b.script, p.toNat < 2 ^ 63)
    (hwhole : Always Sound (b.script.map .op) (s.setSize 0).2) (f' : FileStream) :
    (∃ s', env.miniDumpWriteDumpImpl false s = .ok (true, s') ∧ s'.file = f')
      ↔ env.miniDumpWriteDumpImpl false s.file = .ok (true, f') ∧ (s.setSize 0).1 = true
        ∧ Always Succeeds (b.script.map .op) (s.setSize 0).2 := by
  have hplain : (OStream.setSize 0 s.file).1 = true := rfl
  have hset : OStream.setSize 0 s = s.setSize 0 := rfl
  have hfile : (s.setSize 0).1 = true → (s.setSize 0).2.file = (OStream.setSize 0 s.file).2 :=
    ((meetsSpec_iff (s := s) (.setSize 0)).2 trivial).2
  obtain ⟨hiff, hsame⟩ := runOps_of_sound b.script (s.setSize 0).2 hoffsets hwhole
  constructor
  · rintro ⟨s', h, rfl⟩
    obtain ⟨hpid, hsuspended, hsize⟩ := started_of_writeDump h
    rw [hset] at hsize
    rw [writeDump_run hb hpid hsuspended hsize, Except.ok.injEq, hset] at h
    rw [h, hfile hsize] at hiff hsame
    obtain ⟨hrun, hsucceeds⟩ := hiff.1 rfl
    rw [writeDump_run hb hpid hsuspended hplain]
    exact ⟨congrArg Except.ok (Prod.ext hrun (hsame rfl).symm), hsize, hsucceeds⟩
  · rintro ⟨h, hsize, hsucceeds⟩
    obtain ⟨hpid, hsuspended, -⟩ := started_of_writeDump h
    rw [writeDump_run hb hpid hsuspended hplain, Except.ok.injEq] at h
    rw [hfile hsize, h] at hiff hsame
    have hrun := hiff.2 ⟨rfl, hsucceeds⟩
    refine ⟨_, ?_, hsame hrun⟩
    rw [writeDump_run hb hpid hsuspended hsize, hset]
    exact congrArg Except.ok (Prod.ext hrun rfl)

namespace FileOStream

/-- How much the script has to store. -/
def given (ops : List StreamOp) : ℕ :=
  (ops.map fun | .write (some d) _ => d.length | _ => 0).sum

/-- A system that takes writes of up to `n` bytes takes every script with room for its data behind
each offset. -/
theorem always_of_room {n : ℕ} (hn : n < 2 ^ 63) :
    ∀ (ops : List StreamOp) (s : FileOStream), (∀ i, s.answers i = .does n) →
      s.file.pos + given ops ≤ n → (∀ p ∈ seeks ops, p.toNat + given ops ≤ n) →
      Always Sound (ops.map .op) s ∧ Always Succeeds (ops.map .op) s
  | [], _, _, _, _ => ⟨trivial, trivial⟩
  | .setPosition p :: ops, s, hanswers, _, hseeks => by
    have hroom : p.toNat + given ops ≤ n := by
      simpa [given] using hseeks p List.mem_cons_self
    have hfile : (s.setPosition p).file = { s.file with pos := p.toNat } := lseek_set (by omega)
    have hkeeps : (s.setPosition p).answers = s.answers := by
      rw [setPosition, lseek]
      rcases s.seekTarget p .SEEK_SET with _ | t <;> rfl
    obtain ⟨hsound, hsucceeds⟩ := always_of_room hn ops (s.setPosition p)
      (by rwa [hkeeps]) (by rwa [hfile])
      (fun q hq => by simpa [given] using hseeks q (List.mem_cons_of_mem _ hq))
    exact ⟨⟨trivial, hsound⟩, ⟨trivial, hsucceeds⟩⟩
  | .write none size :: ops, s, hanswers, hpos, hseeks => by
    obtain ⟨hsound, hsucceeds⟩ := always_of_room hn ops s.answered (fun i => hanswers _)
      (by simpa [given, answered] using hpos) (fun q hq => by simpa [given] using hseeks q hq)
    exact ⟨⟨trivial, hsound⟩, ⟨trivial, hsucceeds⟩⟩
  | .write (some d) size :: ops, s, hanswers, hpos, hseeks => by
    have hgiven : given (.write (some d) size :: ops) = d.length + given ops := by simp [given]
    rw [hgiven] at hpos
    have hstored : s.stored d.length n = d.length := by
      unfold stored
      omega
    have hfile : (s.write (some d) size).2.file.pos = s.file.pos + d.length := by
      simp [write, posixWrite, hanswers, hstored]
    have hkeeps : ∀ i, (s.write (some d) size).2.answers i = .does n := fun i => by
      simp [write, posixWrite, hanswers, answered]
    obtain ⟨hsound, hsucceeds⟩ := always_of_room hn ops (s.write (some d) size).2 hkeeps
      (by rw [hfile]; omega) (fun q hq => by
        have hroom := hseeks q hq
        rw [hgiven] at hroom
        omega)
    refine ⟨⟨fun m hm => ?_, hsound⟩, ⟨?_, hsucceeds⟩⟩
    · rw [hanswers, Answer.does.injEq] at hm
      rw [← hm, hstored]
    · show s.answers 0 ≠ .fails
      simp [hanswers]

def roomy : FileOStream where
  file := FileStream.empty
  answers _ := .does 0x20000
  offset := Nat.two_pow_pos 63

end FileOStream

/-- Is what is put together at most `n` bytes, none of them at an offset from `n` on? -/
def DumpEnv.within (env : DumpEnv arch) (n : ℕ) : Bool :=
  match env.prepare false with
  | .ok (some b) => (seeks b.script).all (fun p => p.toNat < n) && given b.script ≤ n
  | _ => false

theorem within_withCallStack : (withCallStack [0x1200]).within 0x10000 = true := by
  decide +kernel

theorem writeDump_descriptor_iff_roomy :
    ∃ s' f', (withCallStack [0x1200]).miniDumpWriteDumpImpl false roomy = .ok (true, s')
      ∧ (withCallStack [0x1200]).miniDumpWriteDumpImpl false FileStream.empty = .ok (true, f')
      ∧ s'.file = f' := by
  obtain ⟨b, f', hb, hf, -⟩ := exists_of_succeeds succeeds_withCallStack.1
  have hwithin := within_withCallStack
  rw [DumpEnv.within, hb] at hwithin
  simp only [Bool.and_eq_true, List.all_eq_true, decide_eq_true_eq] at hwithin
  obtain ⟨hseeks, hgiven⟩ := hwithin
  have hstart : (roomy.setSize 0).2.file.pos = 0 := rfl
  obtain ⟨hsound, hsucceeds⟩ := always_of_room (n := 0x20000) (by norm_num) b.script
    (roomy.setSize 0).2 (fun _ => rfl) (by rw [hstart]; omega)
    (fun p hp => by
      have := hseeks p hp
      omega)
  have hoffsets : ∀ p ∈ seeks b.script, p.toNat < 2 ^ 63 := fun p hp => by
    have := hseeks p hp
    omega
  obtain ⟨s', hs', hfile⟩ :=
    (writeDump_descriptor_iff hb hoffsets hsound f').2 ⟨hf, rfl, hsucceeds⟩
  exact ⟨s', f', hs', hf, hfile⟩

end MacMiniDump
