import MacMiniDump.Freeze
import MacMiniDump.OffsetQueries

/-!
# Looking up notes

A note is looked up by comparing C strings, and the field of an owner of 16 bytes has no room for a
terminator: the comparison goes on in the offset behind it. Until `Build` stores one that does no
harm. After that the note is found by its name only if the lowest byte of the offset happens to be
zero (`lookupsExact_iff`), and otherwise by a name that no note was added with.
-/

namespace MacMiniDump

open MachOCoreDumpBuilder

section Owner

/-- Does the C string at the field of the owner go on behind it? -/
def NoteCommand.Spills (nc : NoteCommand) : Prop :=
  nc.dataOwner.chars.length = 16 ∧ nc.offset.toNat % 256 ≠ 0

instance (nc : NoteCommand) : Decidable nc.Spills := inferInstanceAs (Decidable (_ ∧ _))

theorem le64_eq_cons (x : UInt64) : ∃ rest, le64 x = UInt8.ofNat x.toNat :: rest := ⟨_, rfl⟩

theorem toUInt8_eq_zero_iff {n : ℕ} : UInt8.ofNat n = 0 ↔ n % 256 = 0 := by
  rw [← UInt8.toNat_inj, UInt8.toNat_ofNat']
  rfl

/-- Unless it goes on, it is the name. -/
theorem NoteCommand.cstr_of_not_spills {nc : NoteCommand} (h : ¬ nc.Spills) :
    cstr nc.ownerMemory = nc.dataOwner.chars := by
  rcases nc.dataOwner.fits.lt_or_eq with hlt | heq
  · exact cstr_ownerMemory_of_lt hlt
  · have hzero : nc.offset.toNat % 256 = 0 := by
      by_contra hne
      exact h ⟨heq, hne⟩
    obtain ⟨rest, hrest⟩ := le64_eq_cons nc.offset
    rw [ownerMemory, hrest, toUInt8_eq_zero_iff.2 hzero]
    exact nc.dataOwner.cstr_field_zero _

/-- If it does, it is longer than any name. -/
theorem NoteCommand.length_of_spills {nc : NoteCommand} (h : nc.Spills) :
    16 < (cstr nc.ownerMemory).length := by
  obtain ⟨hlen, hne⟩ := h
  obtain ⟨rest, hrest⟩ := le64_eq_cons nc.offset
  have hfield : nc.dataOwner.field = nc.dataOwner.chars := by
    rw [OwnerName.field, hlen, Nat.sub_self, List.replicate_zero, List.append_nil]
  have hbyte : UInt8.ofNat nc.offset.toNat ≠ 0 := fun h0 => hne (toUInt8_eq_zero_iff.1 h0)
  rw [ownerMemory, hfield, cstr_append_of_zero_notMem nc.dataOwner.noNul, hrest, List.cons_append,
    List.length_append, hlen, cstr, List.takeWhile_cons_of_pos (by simpa using hbyte),
    List.length_cons]
  omega

end Owner

section Added

variable {σ : Type} [OStream σ] (debug : Bool)

/-- The name that a call has added to the builder. -/
def Call.addedOwner (b : MachOCoreDumpBuilder) : Call σ → Option (List UInt8)
  | .addNoteCommand owner p => if (b.addNoteCommand owner p).1 then some (cstr owner) else none
  | _ => none

/-- The names that the calls of a run have added. -/
def addedOwners : List (Call σ) → MachOCoreDumpBuilder → List (List UInt8)
  | [], _ => []
  | c :: cs, b =>
    match c.run debug b with
    | .error _ => []
    | .ok b' => (c.addedOwner b).toList ++ addedOwners cs b'

variable {debug} {b b' : MachOCoreDumpBuilder}

theorem SameCommands.owners (h : SameCommands b b') :
    b'.noteCmds.map (·.cmd.dataOwner.chars) = b.noteCmds.map (·.cmd.dataOwner.chars) := by
  have hnotes := congrArg (List.map fun x : OwnerName × UInt32 => x.1.chars) h.notes
  simpa only [List.map_map, Function.comp_def] using hnotes

/-- A note is added with its name, or nothing is. -/
theorem addNoteCommand_owners (owner : List UInt8) (p : Option DataProvider) :
    b.addNoteCommand owner p = (false, b)
      ∨ ∃ b', b.addNoteCommand owner p = (true, b')
        ∧ b'.noteCmds.map (·.cmd.dataOwner.chars)
          = b.noteCmds.map (·.cmd.dataOwner.chars) ++ [cstr owner] := by
  unfold MachOCoreDumpBuilder.addNoteCommand
  split_ifs
  · exact .inl rfl
  · exact .inr ⟨_, rfl, by simp⟩
  · exact .inl rfl

/-- A call adds the name it says, and no other. -/
theorem run_owners {c : Call σ} (h : c.run debug b = .ok b') :
    b'.noteCmds.map (·.cmd.dataOwner.chars)
      = b.noteCmds.map (·.cmd.dataOwner.chars) ++ (c.addedOwner b).toList := by
  have hsame : SameCommands b b' → c.addedOwner b = none →
      b'.noteCmds.map (·.cmd.dataOwner.chars)
        = b.noteCmds.map (·.cmd.dataOwner.chars) ++ (c.addedOwner b).toList := by
    intro hs hnone
    rw [hs.owners, hnone, Option.toList_none, List.append_nil]
  rcases c with ⟨owner, p⟩ | states | ⟨vmaddr, prot, p⟩ | ⟨owner, p⟩ | _ | owner | vmaddr | stream
  · obtain rfl := Except.ok.inj h
    rcases addNoteCommand_owners (b := b) owner p with hadd | ⟨b₁, hadd, howners⟩
    · simp [Call.addedOwner, hadd]
    · simp [Call.addedOwner, hadd, howners]
  · obtain rfl := Except.ok.inj h
    simp [Call.addedOwner, MachOCoreDumpBuilder.addThreadCommand]
  · rcases addSegmentCommand_cases vmaddr prot p (Except.ok.inj h) with rfl | ⟨-, -, s, -, rfl⟩
    · simp [Call.addedOwner]
    · simp [Call.addedOwner]
  · exact hsame (sameCommands_attach h) rfl
  · obtain rfl := Except.ok.inj h
    simp [Call.addedOwner]
  · exact hsame (eq_of_query h ▸ .refl _) rfl
  · exact hsame (eq_of_query h ▸ .refl _) rfl
  · have hs := (sameCommands_build h).owners
    rw [noteCmds_finalizeLoadCommands] at hs
    rw [hs]
    simp [Call.addedOwner]

/-- The notes of a builder have the names that were added to it, in their order. -/
theorem runCalls_owners :
    ∀ {cs : List (Call σ)} {b b' : MachOCoreDumpBuilder}, runCalls debug cs b = .ok b' →
      b'.noteCmds.map (·.cmd.dataOwner.chars)
        = b.noteCmds.map (·.cmd.dataOwner.chars) ++ addedOwners debug cs b
  | [], b, b', h => by
    obtain rfl := Except.ok.inj h
    simp [addedOwners]
  | c :: cs, b, b', h => by
    obtain ⟨b₁, hc, hrest⟩ := runCalls_cons h
    rw [runCalls_owners hrest, run_owners hc, addedOwners, hc, List.append_assoc]

end Added

/-- The notes are found by their names, when those before them have providers, and nothing else is.
A release build does without the providers. -/
structure LookupsExact (debug : Bool) (owners : List (List UInt8)) (b : MachOCoreDumpBuilder) :
    Prop where
  added : ∀ k name, owners[k]? = some (cstr name) → b.loadCommandsFinalized = true →
    (debug = true → ∀ n ∈ b.noteCmds.take k, n.provider ≠ none) →
    b.getOffsetForNoteCommandPayload debug name = .ok (some (b.noteOffset k))
  never : ∀ name, cstr name ∉ owners → (debug = true → ∀ n ∈ b.noteCmds, n.provider ≠ none) →
    b.getOffsetForNoteCommandPayload debug name = .ok none
  neverAttached : ∀ name p, cstr name ∉ owners →
    b.addDataProviderForNoteCommand debug name p = .ok (false, b)

section Lookups

variable {debug : Bool} {name : List UInt8}

theorem attachDataProvider_none {p : Option DataProvider} :
    ∀ {notes : List Note}, (∀ n ∈ notes, cstr n.cmd.ownerMemory ≠ cstr name) →
      attachDataProvider debug name p notes = .ok none
  | [], _ => rfl
  | nc :: rest, h => by
    unfold attachDataProvider
    rw [if_neg (h nc List.mem_cons_self),
      attachDataProvider_none fun n hn => h n (List.mem_cons_of_mem _ hn)]

theorem attachDataProvider_ne_none {p : Option DataProvider} :
    ∀ {notes : List Note}, (∃ n ∈ notes, cstr n.cmd.ownerMemory = cstr name) →
      attachDataProvider debug name p notes ≠ .ok none
  | nc :: rest, ⟨n, hn, heq⟩ => by
    unfold attachDataProvider
    by_cases hnc : cstr nc.cmd.ownerMemory = cstr name
    · rw [if_pos hnc]
      split_ifs
      · simp
      · cases p <;> simp
    · rw [if_neg hnc]
      rcases List.mem_cons.1 hn with rfl | hn
      · exact absurd heq hnc
      · have hrest := attachDataProvider_ne_none (p := p) ⟨n, hn, heq⟩
        split
        · simp
        · exact hrest

theorem notePayloadOffset_ok_none :
    ∀ (notes : List Note) (start : UInt64), (∀ n ∈ notes, cstr name ≠ cstr n.cmd.ownerMemory) →
      (debug = true → ∀ n ∈ notes, n.provider ≠ none) →
      notePayloadOffset debug name start notes = .ok none
  | [], _, _, _ => rfl
  | n :: notes, start, hne, hp => by
    have hprov : ¬ (debug && n.provider.isNone) = true := by
      intro hcond
      rw [Bool.and_eq_true, Option.isNone_iff_eq_none] at hcond
      exact hp hcond.1 n List.mem_cons_self hcond.2
    rw [notePayloadOffset, if_neg (hne n List.mem_cons_self), if_neg hprov]
    exact notePayloadOffset_ok_none notes _ (fun m hm => hne m (List.mem_cons_of_mem _ hm))
      fun hd m hm => hp hd m (List.mem_cons_of_mem _ hm)

/-- Lookups are exact as long as no owner goes on behind its field. -/
theorem lookupsExact_iff_of_owners {b : MachOCoreDumpBuilder} {owners : List (List UInt8)}
    (howners : b.noteCmds.map (·.cmd.dataOwner.chars) = owners) (hd : b.DistinctOwners) :
    LookupsExact debug owners b ↔ ∀ n ∈ b.noteCmds, ¬ n.cmd.Spills := by
  subst howners
  constructor
  · intro h n hn hspills
    -- what is at the field is a name that no note has
    have hself : cstr (cstr n.cmd.ownerMemory) = cstr n.cmd.ownerMemory :=
      cstr_of_zero_notMem (zero_notMem_cstr _)
    have hnever : cstr (cstr n.cmd.ownerMemory) ∉ b.noteCmds.map (·.cmd.dataOwner.chars) := by
      intro hmem
      obtain ⟨m, -, hm⟩ := List.mem_map.1 hmem
      have hlong := NoteCommand.length_of_spills hspills
      have hfits := m.cmd.dataOwner.fits
      rw [hself] at hm
      rw [← hm] at hlong
      omega
    have hattach := h.neverAttached _ none hnever
    rw [addDataProviderForNoteCommand] at hattach
    have hsome : attachDataProvider debug _ none b.noteCmds ≠ .ok none :=
      attachDataProvider_ne_none ⟨n, hn, hself.symm⟩
    split at hattach
    · simp at hattach
    · rename_i hnone
      exact hsome hnone
    · simp at hattach
  · intro hno
    have hchars : ∀ n ∈ b.noteCmds, cstr n.cmd.ownerMemory = n.cmd.dataOwner.chars := fun n hn =>
      NoteCommand.cstr_of_not_spills (hno n hn)
    have hne : ∀ {name}, cstr name ∉ b.noteCmds.map (·.cmd.dataOwner.chars) →
        ∀ n ∈ b.noteCmds, cstr n.cmd.ownerMemory ≠ cstr name := by
      intro name hnever n hn heq
      exact hnever (heq ▸ hchars n hn ▸ List.mem_map_of_mem hn)
    refine ⟨fun k name hk hf hp => ?_, fun name hnever hp => ?_, fun name p hnever => ?_⟩
    · rw [List.getElem?_map, Option.map_eq_some_iff] at hk
      obtain ⟨nc, hnc, hname⟩ := hk
      have hown : cstr name = cstr nc.cmd.ownerMemory := by
        rw [hchars nc (List.mem_of_getElem? hnc), hname]
      obtain ⟨r, hr⟩ : ∃ r, b.getOffsetForNoteCommandPayload debug name = .ok r :=
        getOffset_ok hf hnc hown hp
      rw [hr, getOffset_of_cstr_eq hf hd hnc hown hr]
    · rw [getOffsetForNoteCommandPayload]
      split_ifs
      · exact notePayloadOffset_ok_none _ _ (fun n hn heq => hne hnever n hn heq.symm) hp
      · rfl
    · rw [addDataProviderForNoteCommand, attachDataProvider_none (hne hnever)]

end Lookups

section Runs

variable {σ : Type} [OStream σ] {debug : Bool} {arch : Arch}

/-- After any calls with distinct names, lookups are exact if and only if no name of 16 bytes has an
offset behind it that starts with a byte that is not zero. -/
theorem lookupsExact_iff {calls : List (Call σ)} {b : MachOCoreDumpBuilder}
    (hrun : runCalls debug calls (new arch) = .ok b)
    (hd : (addedOwners debug calls (new arch)).Nodup) :
    LookupsExact debug (addedOwners debug calls (new arch)) b
      ↔ ∀ n ∈ b.noteCmds, ¬ n.cmd.Spills := by
  have howners : b.noteCmds.map (·.cmd.dataOwner.chars) = addedOwners debug calls (new arch) :=
    runCalls_owners hrun
  refine lookupsExact_iff_of_owners howners ?_
  rw [← howners, List.nodup_iff_pairwise_ne, List.pairwise_map] at hd
  exact hd.imp fun hne heq => hne (congrArg OwnerName.chars heq)

end Runs

/-- A builder with one note, of an owner of 16 bytes. -/
def metadataCalls : List (Call FileStream) :=
  [.addNoteCommand (ascii "process metadata") (some (copiedDataProvider [1, 2, 3]))]

theorem lookupsExact_iff_metadata :
    ∃ b, runCalls false metadataCalls (new .arm64) = .ok b
      ∧ (LookupsExact false [ascii "process metadata"] b ↔ ∀ n ∈ b.noteCmds, ¬ n.cmd.Spills) :=
  ⟨_, rfl, lookupsExact_iff (show runCalls false metadataCalls (new .arm64) = _ from rfl)
    (by decide)⟩

/-- The builder after a build, with the offset of the payload. -/
def metadataBuilt : MachOCoreDumpBuilder :=
  { new .arm64 with
    loadCommandsFinalized := true
    header := { (new .arm64).header with ncmds := 1, sizeofcmds := 40 }
    noteCmds :=
      [⟨{ cmd := LC_NOTE, cmdsize := NoteCommand.sizeOf
          dataOwner := ⟨ascii "process metadata", by decide, by decide⟩
          offset := 80, size := 3 }, some (copiedDataProvider [1, 2, 3])⟩] }

theorem metadataBuilt_built :
    runCalls false (metadataCalls ++ [.build FileStream.empty]) (new .arm64) = .ok metadataBuilt :=
  rfl

/-- The note is not found any more, though it has its provider. -/
theorem not_lookupsExact_metadataBuilt :
    runCalls false (metadataCalls ++ [.build FileStream.empty]) (new .arm64) = .ok metadataBuilt
      ∧ metadataBuilt.getOffsetForNoteCommandPayload false (ascii "process metadata") = .ok none
      ∧ ¬ LookupsExact false (addedOwners false (metadataCalls ++ [.build FileStream.empty])
        (new .arm64)) metadataBuilt := by
  refine ⟨metadataBuilt_built, rfl, fun h => ?_⟩
  have hfound := h.added 0 (ascii "process metadata") rfl rfl (by simp)
  cases hfound

end MacMiniDump
