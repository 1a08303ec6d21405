import MacMiniDump.Lib.Json
import MacMiniDump.Payloads

/-!
# The process metadata

The payload is JSON that means the thread ids: an object whose one member is the list of threads,
with the id of each, in order (`createProcessMetadataPayload_encodes`).
-/

namespace MacMiniDump

open Json

/-- The object of a thread. -/
def threadObject (id : UInt64) : Json :=
  .object [(units "thread_id".toList, .number id.toNat)]

def threadsObject (threadIds : List UInt64) : Json :=
  .object [(units "threads".toList, .array (threadIds.map threadObject))]

def threadText (id : UInt64) : List Char :=
  '\x7b' :: '"' :: "thread_id".toList ++ '"' :: ':' :: Nat.toDigits 10 id.toNat ++ ['\x7d']

def threadsText (threadIds : List UInt64) : List Char :=
  '\x7b' :: '"' :: "threads".toList
    ++ '"' :: ':' :: ('[' :: ((threadIds.map threadText).intersperse [',']).flatten ++ [']'])
    ++ ['\x7d']

theorem derives_threadText (id : UInt64) : Derives (.value (threadObject id)) (threadText id) :=
  .oneMember (isChars_units (by simp)) (.number (isNumber_toDigits id.toNat))

theorem isText_threadsText (threadIds : List UInt64) :
    IsText (threadsText threadIds) (threadsObject threadIds) := by
  refine ⟨[], _, [], blank_nil, ?_, blank_nil, (List.append_nil _).symm⟩
  exact .oneMember (isChars_units (by simp)) (.list derives_threadText threadIds)

def Ascii (t : List Char) : Prop := ∀ c ∈ t, c.toNat < 0x80

theorem ascii_toDigits (n : ℕ) : Ascii (Nat.toDigits 10 n) := by
  intro c hc
  have hdigit := Nat.isDigit_of_mem_toDigits (by decide) (by decide) hc
  exact (Char.isDigit_iff_toNat.1 hdigit).2.trans_lt (by decide)

theorem ascii_threadText (id : UInt64) : Ascii (threadText id) := by
  have hid := ascii_toDigits id.toNat
  unfold Ascii threadText at *
  simpa [or_imp, forall_and] using hid

theorem ascii_separated :
    ∀ {ts : List (List Char)}, (∀ t ∈ ts, Ascii t) → Ascii (ts.intersperse [',']).flatten
  | [], _ => by simp [Ascii]
  | [t], h => by simpa using h
  | t :: t' :: ts, h => by
    obtain ⟨ht, hts⟩ := List.forall_mem_cons.1 h
    have ih := ascii_separated hts
    intro c hc
    rw [List.intersperse_cons_cons, List.flatten_cons, List.flatten_cons, List.mem_append,
      List.mem_append, List.mem_singleton] at hc
    rcases hc with hc | rfl | hc
    · exact ht c hc
    · decide
    · exact ih c hc

theorem ascii_threadsText (threadIds : List UInt64) : Ascii (threadsText threadIds) := by
  have hids : Ascii ((threadIds.map threadText).intersperse [',']).flatten := by
    refine ascii_separated fun t ht => ?_
    obtain ⟨id, -, rfl⟩ := List.mem_map.1 ht
    exact ascii_threadText id
  unfold Ascii threadsText at *
  simpa [or_imp, forall_and] using hids

/-- The bytes of texts are separated as the texts are. -/
theorem map_separated (f : Char → UInt8) :
    ∀ ts : List (List Char), (ts.intersperse [',']).flatten.map f
      = ((ts.map (List.map f)).intersperse [f ',']).flatten
  | [] => rfl
  | [t] => by simp
  | t :: t' :: ts => by
    have ih := map_separated f (t' :: ts)
    rw [List.map_cons] at ih
    simp [ih]

/-- The payload is the text. -/
theorem createProcessMetadataPayload_eq (threadIds : List UInt64) :
    createProcessMetadataPayload threadIds
      = (threadsText threadIds).map fun c => UInt8.ofNat c.toNat := by
  have hid : ∀ id, ascii "\x7b\"thread_id\":" ++ decimal id ++ ascii "\x7d"
      = (threadText id).map fun c => UInt8.ofNat c.toNat := by
    intro id
    simp [threadText, decimal, ascii]
  have hids := map_separated (fun c => UInt8.ofNat c.toNat) (threadIds.map threadText)
  unfold createProcessMetadataPayload threadsText
  simp only [List.map_cons, List.map_append, hids, hid]
  simp [ascii, Function.comp_def]

/-- An id is in the object as it is. -/
theorem threadObject_injective : Function.Injective threadObject := by
  intro id id' h
  simp only [threadObject, object.injEq, List.cons.injEq, Prod.mk.injEq, number.injEq,
    Nat.cast_inj, true_and, and_true] at h
  exact UInt64.toNat_inj.1 h

theorem threadsObject_injective : Function.Injective threadsObject := by
  intro ids ids' h
  simp only [threadsObject, object.injEq, List.cons.injEq, Prod.mk.injEq, array.injEq,
    true_and, and_true] at h
  exact threadObject_injective.list_map h

/-- For any ids the payload is JSON, it has that one meaning, and no other ids have the payload. -/
theorem createProcessMetadataPayload_encodes (threadIds : List UInt64) :
    (∀ v, Encodes (createProcessMetadataPayload threadIds) v ↔ v = threadsObject threadIds)
      ∧ ∀ threadIds', createProcessMetadataPayload threadIds'
          = createProcessMetadataPayload threadIds → threadIds' = threadIds := by
  have hencodes : ∀ ids, Encodes (createProcessMetadataPayload ids) (threadsObject ids) := by
    intro ids
    rw [createProcessMetadataPayload_eq]
    exact encodes_ascii (isText_threadsText ids) (ascii_threadsText ids)
  refine ⟨fun v => ⟨fun h => h.unique (hencodes threadIds), ?_⟩, fun ids' heq => ?_⟩
  · rintro rfl
    exact hencodes threadIds
  · have h := hencodes ids'
    rw [heq] at h
    exact threadsObject_injective (h.unique (hencodes threadIds))

end MacMiniDump
