import Mathlib.Logic.Relation
import MacMiniDump.Calls
import MacMiniDump.Layout

/-!
# Accepted calls

A builder is `Accepted` when it comes from its constructor by calls that add something to it and
that all returned `true`, whatever they were given. What such calls leave behind is `Fresh`: no
offset is stored yet, and each command has the size of its provider, if there is one.
-/

namespace MacMiniDump

open MachOCoreDumpBuilder

/-- A call that adds to the builder and returns `true`. -/
inductive AddCall (debug : Bool) : MachOCoreDumpBuilder → MachOCoreDumpBuilder → Prop
  | note {owner : List UInt8} {p : Option DataProvider} {b b' : MachOCoreDumpBuilder}
    (h : b.addNoteCommand owner p = (true, b')) : AddCall debug b b'
  | thread {states : List ThreadState} {b b' : MachOCoreDumpBuilder}
    (h : b.addThreadCommand states = (true, b')) : AddCall debug b b'
  | segment {vmaddr : UInt64} {prot : UInt32} {p : Option DataProvider}
    {b b' : MachOCoreDumpBuilder} (h : b.addSegmentCommand vmaddr prot p = (true, b')) :
    AddCall debug b b'
  | noteData {owner : List UInt8} {p : Option DataProvider} {b b' : MachOCoreDumpBuilder}
    (h : b.addDataProviderForNoteCommand debug owner p = .ok (true, b')) : AddCall debug b b'

/-- What a client may build: it comes from the constructor by calls of `Add...` that succeed. -/
def Accepted (debug : Bool) (arch : Arch) (b : MachOCoreDumpBuilder) : Prop :=
  Relation.ReflTransGen (AddCall debug) (new arch) b

structure Note.Fresh (n : Note) : Prop where
  cmdsize : n.cmd.cmdsize = NoteCommand.sizeOf
  offset : n.cmd.offset = 0
  size : n.cmd.size = sizeOfProvider n.provider

structure Segment.Fresh (s : Segment) : Prop where
  cmdsize : s.cmd.cmdsize = SegmentCommand64.sizeOf
  filesize : s.cmd.filesize = sizeOfProvider s.provider

structure MachOCoreDumpBuilder.Fresh (b : MachOCoreDumpBuilder) : Prop where
  notFinalized : b.loadCommandsFinalized = false
  notes : ∀ n ∈ b.noteCmds, n.Fresh
  threads : ∀ t ∈ b.threadCmds, t.cmdsize.toNat ≤ t.bytes.length
  segments : ∀ s ∈ b.segmentCmds, s.Fresh

section Accepted

variable {debug : Bool} {arch : Arch} {b b' : MachOCoreDumpBuilder}

theorem fresh_new (arch : Arch) : (new arch).Fresh where
  notFinalized := rfl
  notes := by simp [new]
  threads := by simp [new]
  segments := by simp [new]

/-- A thread command says no more than was copied into it. -/
theorem threadCommand_fits (states : List ThreadState) :
    (UInt32.ofNat (threadCommandSize states - 8)).toNat
      ≤ 8 + (threadCommandStates states).length := by
  have hlen : (threadCommandStates states).length = threadCommandSize states - 8 - 8 := by
    unfold threadCommandStates
    rw [List.length_drop, List.length_take, threadCommandSize, min_eq_left (Nat.sub_le _ _)]
  have hmod := Nat.mod_le (threadCommandSize states - 8) (2 ^ 32)
  rw [UInt32.toNat_ofNat', hlen]
  omega

theorem AddCall.fresh (h : AddCall debug b b') (hb : b.Fresh) : b'.Fresh := by
  cases h with
  | @note owner p _ _ h =>
    unfold addNoteCommand at h
    split_ifs at h with hf hl
    · simp at h
    · simp only [Prod.mk.injEq, true_and] at h
      subst h
      refine { hb with notes := fun n hn => ?_ }
      rcases List.mem_append.1 hn with hn | hn
      · exact hb.notes n hn
      · rw [List.mem_singleton.1 hn]
        exact ⟨rfl, rfl, rfl⟩
    · simp at h
  | @thread states _ _ h =>
    simp only [addThreadCommand, Prod.mk.injEq, true_and] at h
    subst h
    refine { hb with threads := fun t ht => ?_ }
    rcases List.mem_append.1 ht with ht | ht
    · exact hb.threads t ht
    · rw [List.mem_singleton.1 ht, ThreadCommand.length_bytes]
      exact threadCommand_fits states
  | @segment vmaddr prot p _ _ h =>
    unfold addSegmentCommand at h
    split_ifs at h with hf
    · simp at h
    · simp only [Prod.mk.injEq, true_and] at h
      subst h
      refine { hb with segments := fun s hs => ?_ }
      rcases List.mem_append.1 hs with hs | hs
      · exact hb.segments s hs
      · rw [List.mem_singleton.1 hs]
        exact ⟨rfl, rfl⟩
  | @noteData owner p _ _ h =>
    rcases addDataProvider_eq h with rfl | ⟨notes', hn, rfl⟩
    · exact hb
    obtain ⟨pre, nc, post, q, -, hsplit, -, -, rfl⟩ := attachDataProvider_eq hn
    refine { hb with notes := fun n hmem => ?_ }
    rcases List.mem_append.1 hmem with hm | hm
    · exact hb.notes n (hsplit ▸ List.mem_append_left _ hm)
    rcases List.mem_cons.1 hm with rfl | hm
    · have hnc : nc.Fresh := hb.notes nc (hsplit ▸ List.mem_append_right _ List.mem_cons_self)
      exact ⟨hnc.cmdsize, hnc.offset, rfl⟩
    · exact hb.notes n (hsplit ▸ List.mem_append_right _ (List.mem_cons_of_mem _ hm))

theorem Accepted.fresh (h : Accepted debug arch b) : b.Fresh := by
  induction h with
  | refl => exact fresh_new arch
  | tail _ hstep ih => exact hstep.fresh ih

/-- A note, then a segment. -/
theorem accepted_noteAndSegment {owner : List UInt8} (h : (cstr owner).length ≤ 16)
    (p q : Option DataProvider) (vmaddr : UInt64) (prot : UInt32) :
    Accepted debug arch
      (((new arch).addNoteCommand owner p).2.addSegmentCommand vmaddr prot q).2 := by
  have hnote : (new arch).addNoteCommand owner p
      = (true, ((new arch).addNoteCommand owner p).2) := by
    unfold addNoteCommand
    rw [if_neg (by simp [new]), dif_pos h]
  have hsegment : (((new arch).addNoteCommand owner p).2.addSegmentCommand vmaddr prot q).1
      = true := by
    unfold addNoteCommand
    rw [if_neg (by simp [new]), dif_pos h]
    rfl
  exact (Relation.ReflTransGen.single (AddCall.note hnote)).tail
    (.segment (Prod.ext hsegment rfl))

end Accepted

end MacMiniDump
