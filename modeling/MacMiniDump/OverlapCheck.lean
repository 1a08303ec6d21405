import MacMiniDump.Builder
import MacMiniDump.Lib.Wraparound

/-!
# The overlap check

In a debug build `WriteToOStream` records the range of every write, and rejects a write that has an
end strictly inside a recorded range. So one over the whole of a recorded range is accepted, and an
empty one inside of it is not; the other writes are judged right (`always_judgedRight_iff`).
-/

namespace MacMiniDump

/-- Is an end of the range strictly inside the other? -/
def EndInside (w r : UInt64 × UInt64) : Prop :=
  (r.1 < w.1 ∧ w.1 < r.2) ∨ (r.1 < w.2 ∧ w.2 < r.2)

/-- There is a byte that is in both ranges, which may go round the end of the address space. -/
def SharesByte (w r : UInt64 × UInt64) : Prop :=
  ∃ a, Inside (upTo w.1 w.2) a ∧ Inside (upTo r.1 r.2) a

/-- The range has all bytes of the other, which is not empty. -/
def CoversRange (w r : UInt64 × UInt64) : Prop :=
  r.1 ≠ r.2 ∧ ∀ a, Inside (upTo r.1 r.2) a → Inside (upTo w.1 w.2) a

theorem overwrites_iff {ranges : List (UInt64 × UInt64)} {start stop : UInt64} :
    overwrites ranges start stop = true ↔ ∃ r ∈ ranges, EndInside (start, stop) r := by
  unfold overwrites EndInside
  simp only [List.any_eq_true, Bool.or_eq_true, Bool.and_eq_true, decide_eq_true_eq, gt_iff_lt]
  simp only [and_comm]

section Ranges

variable {w r : UInt64 × UInt64}

theorem SharesByte.symm (h : SharesByte w r) : SharesByte r w := by
  obtain ⟨a, hw, hr⟩ := h
  exact ⟨a, hr, hw⟩

theorem not_sharesByte_of_empty (h : w.1 = w.2) : ¬ SharesByte w r := by
  rintro ⟨a, hw, -⟩
  rw [h] at hw
  exact not_inside_upTo_self hw

theorem CoversRange.sharesByte (h : CoversRange w r) : SharesByte w r :=
  ⟨r.1, h.2 r.1 (inside_upTo_start h.1), inside_upTo_start h.1⟩

/-- The start of one of the two ranges is in both. -/
theorem EndInside.sharesByte (h : EndInside w r) (hw : w.1 ≠ w.2) : SharesByte w r := by
  have hle : r.1 ≤ r.2 := by
    rcases h with ⟨hlt, hgt⟩ | ⟨hlt, hgt⟩
    · exact (hlt.trans hgt).le
    · exact (hlt.trans hgt).le
  rcases h with ⟨hlt, hgt⟩ | ⟨hlt, hgt⟩
  · exact ⟨w.1, inside_upTo_start hw, (inside_upTo_of_le hle).2 ⟨hlt.le, hgt⟩⟩
  have hr : Inside (upTo r.1 r.2) r.1 := inside_upTo_start (hlt.trans hgt).ne
  rcases le_or_gt w.1 w.2 with hup | hdown
  · rcases le_or_gt w.1 r.1 with hbefore | hbehind
    · exact ⟨r.1, (inside_upTo_of_le hup).2 ⟨hbefore, hlt⟩, hr⟩
    · exact ⟨w.1, inside_upTo_start hw,
        (inside_upTo_of_le hle).2 ⟨hbehind.le, hup.trans_lt hgt⟩⟩
  · exact ⟨r.1, (inside_upTo_of_lt hdown).2 (.inr hlt), hr⟩

/-- Of a range that goes up, one with no end strictly inside has every byte or none. -/
theorem coversRange_of_sharesByte (h : SharesByte w r) (hr : r.1 ≤ r.2) (hend : ¬ EndInside w r) :
    CoversRange w r := by
  obtain ⟨a, haw, har⟩ := h
  obtain ⟨hra, har⟩ := (inside_upTo_of_le hr).1 har
  simp only [EndInside, not_or, not_and, not_lt] at hend
  obtain ⟨hstart, hstop⟩ := hend
  -- where the shared byte puts an end of the range beyond the end of the other
  have hbefore : w.1 ≤ a → w.1 ≤ r.1 := fun hwa =>
    le_of_not_gt fun hlt => (hstart hlt).not_gt (hwa.trans_lt har)
  have hbehind : a < w.2 → r.2 ≤ w.2 := fun haw => hstop (hra.trans_lt haw)
  refine ⟨(hra.trans_lt har).ne, fun x hx => ?_⟩
  obtain ⟨hrx, hxr⟩ := (inside_upTo_of_le hr).1 hx
  rcases le_or_gt w.1 w.2 with hup | hdown
  · obtain ⟨hwa, haw⟩ := (inside_upTo_of_le hup).1 haw
    have hwx : w.1 ≤ x :=
      calc w.1 ≤ r.1 := hbefore hwa
        _ ≤ x := hrx
    have hxw : x < w.2 :=
      calc x < r.2 := hxr
        _ ≤ w.2 := hbehind haw
    exact (inside_upTo_of_le hup).2 ⟨hwx, hxw⟩
  · rcases (inside_upTo_of_lt hdown).1 haw with hwa | haw
    · exact (inside_upTo_of_lt hdown).2 (.inl ((hbefore hwa).trans hrx))
    · exact (inside_upTo_of_lt hdown).2 (.inr (hxr.trans_le (hbehind haw)))

end Ranges

/-! ## Calls -/

/-- A call of `WriteToOStream`, on whatever the stream is then. -/
structure WriteCall (σ : Type) where
  stream : σ
  data : Option (List UInt8)
  size : UInt64
  enough : ∀ d ∈ data, size.toNat ≤ d.length

namespace WriteCall

variable {σ : Type} [OStream σ]

def range (c : WriteCall σ) : UInt64 × UInt64 :=
  (OStream.getPosition c.stream, OStream.getPosition c.stream + c.size)

def write (c : WriteCall σ) (b : MachOCoreDumpBuilder) : Except Fault (Bool × BuildState σ) :=
  writeToOStream true c.data c.size { builder := b, stream := c.stream }

/-- The builder once the range is recorded. -/
def record (c : WriteCall σ) (b : MachOCoreDumpBuilder) : MachOCoreDumpBuilder :=
  { b with writtenRanges := b.writtenRanges ++ [c.range] }

/-- The result of a call that is let through to the stream. -/
def accepted (c : WriteCall σ) (b : MachOCoreDumpBuilder) : Bool × BuildState σ :=
  ((OStream.write (c.data.map (·.take c.size.toNat)) c.size c.stream).1,
    { builder := c.record b
      stream := (OStream.write (c.data.map (·.take c.size.toNat)) c.size c.stream).2 })

/-- What the assertion at the top asks for, before the check. -/
def Provided (c : WriteCall σ) : Prop := c.size ≠ 0 → c.data ≠ none

/-- What the check has to make of a call. -/
def JudgedRight (b : MachOCoreDumpBuilder) (c : WriteCall σ) : Prop :=
  ((∃ r ∈ b.writtenRanges, SharesByte c.range r) → c.write b = .error .assertion)
    ∧ (c.Provided → (∀ r ∈ b.writtenRanges, ¬ SharesByte c.range r) →
      c.write b = .ok (c.accepted b))

/-- An empty write is not strictly inside a recorded range; another one that covers a recorded
range, or has bytes of one that goes on at position 0, has an end strictly inside a recorded
range. -/
def Clear (b : MachOCoreDumpBuilder) (c : WriteCall σ) : Prop :=
  c.Provided →
  if c.size = 0 then ∀ r ∈ b.writtenRanges, ¬ EndInside c.range r
  else (∃ r ∈ b.writtenRanges, CoversRange c.range r ∨ (r.2 < r.1 ∧ SharesByte c.range r)) →
    ∃ r ∈ b.writtenRanges, EndInside c.range r

/-- All calls of a sequence meet `P`, each with the ranges that are recorded then. A call that is
rejected is the last. -/
def Always (P : MachOCoreDumpBuilder → WriteCall σ → Prop) :
    List (WriteCall σ) → MachOCoreDumpBuilder → Prop
  | [], _ => True
  | c :: calls, b => P b c ∧ ∀ r st, c.write b = .ok (r, st) → Always P calls st.builder

variable {c : WriteCall σ} {b : MachOCoreDumpBuilder}

theorem range_empty_iff : c.range.1 = c.range.2 ↔ c.size = 0 := by
  unfold range
  simp only
  rw [eq_comm, add_eq_left]

/-- Behind the assertion the check alone decides. -/
theorem write_of_provided (h : c.Provided) (b : MachOCoreDumpBuilder) :
    c.write b = if overwrites b.writtenRanges c.range.1 c.range.2 = true then .error .assertion
      else .ok (c.accepted b) := by
  have hnull : (c.data.isNone && decide (c.size > 0)) = false := by
    by_cases hsize : c.size = 0
    · simp [hsize]
    · simp [h hsize]
  have hread : (c.data.any fun d => d.length < c.size.toNat) = false := by
    rcases hd : c.data with _ | d
    · rfl
    · simpa using c.enough d hd
  unfold write writeToOStream
  simp only [Bool.true_and, hnull, hread, Bool.false_eq_true, if_false, if_true]
  rfl

theorem write_of_not_provided (h : ¬ c.Provided) (b : MachOCoreDumpBuilder) :
    c.write b = .error .assertion := by
  simp only [Provided, Classical.not_imp, not_not] at h
  obtain ⟨hsize, hdata⟩ := h
  have hpos : 0 < c.size := UInt64.pos_iff_ne_zero.2 hsize
  unfold write writeToOStream
  simp [hdata, hpos]

theorem write_cases (c : WriteCall σ) (b : MachOCoreDumpBuilder) :
    (¬ c.Provided ∧ c.write b = .error .assertion)
      ∨ ((∃ r ∈ b.writtenRanges, EndInside c.range r) ∧ c.write b = .error .assertion)
      ∨ ((∀ r ∈ b.writtenRanges, ¬ EndInside c.range r) ∧ c.write b = .ok (c.accepted b)) := by
  by_cases hp : c.Provided
  · refine .inr ?_
    rw [write_of_provided hp]
    by_cases hover : overwrites b.writtenRanges c.range.1 c.range.2 = true
    · exact .inl ⟨overwrites_iff.1 hover, if_pos hover⟩
    · refine .inr ⟨fun r hr hend => hover (overwrites_iff.2 ⟨r, hr, hend⟩), if_neg hover⟩
  · exact .inl ⟨hp, write_of_not_provided hp b⟩

/-- An empty write shares no byte, so only its acceptance matters. -/
theorem judgedRight_iff_of_empty (h : c.size = 0) :
    c.JudgedRight b ↔ ∀ r ∈ b.writtenRanges, ¬ EndInside c.range r := by
  have hp : c.Provided := fun hne => absurd h hne
  have hnone : ∀ r, ¬ SharesByte c.range r := fun r =>
    not_sharesByte_of_empty (range_empty_iff.2 h)
  constructor
  · rintro ⟨-, haccept⟩ r hr hend
    rcases c.write_cases b with ⟨hnot, -⟩ | ⟨-, hw⟩ | ⟨hout, -⟩
    · exact hnot hp
    · rw [haccept hp fun r _ => hnone r] at hw
      cases hw
    · exact hout r hr hend
  · intro hout
    refine ⟨fun ⟨r, _, hshare⟩ => absurd hshare (hnone r), fun _ _ => ?_⟩
    rcases c.write_cases b with ⟨hnot, -⟩ | ⟨⟨r, hr, hend⟩, -⟩ | ⟨-, hw⟩
    · exact absurd hp hnot
    · exact absurd hend (hout r hr)
    · exact hw

/-- Another write is never rejected without need: an end inside is a shared byte. -/
theorem judgedRight_iff_of_ne (hp : c.Provided) (h : c.size ≠ 0) :
    c.JudgedRight b ↔ ((∃ r ∈ b.writtenRanges, SharesByte c.range r) →
      ∃ r ∈ b.writtenRanges, EndInside c.range r) := by
  have hne : c.range.1 ≠ c.range.2 := range_empty_iff.not.2 h
  constructor
  · rintro ⟨hreject, -⟩ hshare
    rcases c.write_cases b with ⟨hnot, -⟩ | ⟨hend, -⟩ | ⟨-, hw⟩
    · exact absurd hp hnot
    · exact hend
    · rw [hreject hshare] at hw
      cases hw
  · intro hend
    rcases c.write_cases b with ⟨hnot, -⟩ | ⟨⟨r, hr, hin⟩, hw⟩ | ⟨hout, hw⟩
    · exact absurd hp hnot
    · exact ⟨fun _ => hw, fun _ hnone => absurd (hin.sharesByte hne) (hnone r hr)⟩
    · refine ⟨fun hshare => ?_, fun _ _ => hw⟩
      obtain ⟨r, hr, hin⟩ := hend hshare
      exact absurd hin (hout r hr)

theorem judgedRight_iff (b : MachOCoreDumpBuilder) (c : WriteCall σ) :
    c.JudgedRight b ↔ c.Clear b := by
  unfold Clear
  by_cases hp : c.Provided
  · rw [forall_prop_of_true hp]
    split_ifs with h
    · exact judgedRight_iff_of_empty h
    rw [judgedRight_iff_of_ne hp h]
    constructor
    · rintro hend ⟨r, hr, hcovers | ⟨-, hshare⟩⟩
      · exact hend ⟨r, hr, hcovers.sharesByte⟩
      · exact hend ⟨r, hr, hshare⟩
    · rintro hend ⟨r, hr, hshare⟩
      by_cases hin : EndInside c.range r
      · exact ⟨r, hr, hin⟩
      · rcases le_or_gt r.1 r.2 with hup | hdown
        · exact hend ⟨r, hr, .inl (coversRange_of_sharesByte hshare hup hin)⟩
        · exact hend ⟨r, hr, .inr ⟨hdown, hshare⟩⟩
  · exact iff_of_true ⟨fun _ => write_of_not_provided hp b, fun h => absurd h hp⟩
      fun h => absurd h hp

theorem always_congr {P Q : MachOCoreDumpBuilder → WriteCall σ → Prop} (h : ∀ b c, P b c ↔ Q b c) :
    ∀ (calls : List (WriteCall σ)) (b : MachOCoreDumpBuilder), Always P calls b ↔ Always Q calls b
  | [], _ => Iff.rfl
  | c :: calls, b =>
    and_congr (h b c) (forall_congr' fun _ => forall₂_congr fun st _ =>
      always_congr h calls st.builder)

/-- The calls one after another, up to the first that is rejected. -/
def writeAll : List (WriteCall σ) → MachOCoreDumpBuilder → Except Fault MachOCoreDumpBuilder
  | [], b => .ok b
  | c :: calls, b =>
    match c.write b with
    | .error e => .error e
    | .ok (_, st) => writeAll calls st.builder

/-- Where the check judges every call right, no byte is written twice. -/
theorem apart_of_writeAll :
    ∀ {calls : List (WriteCall σ)} {b b' : MachOCoreDumpBuilder},
      Always (fun b c => c.JudgedRight b) calls b →
      b.writtenRanges.Pairwise (¬ SharesByte · ·) → writeAll calls b = .ok b' →
      b'.writtenRanges.Pairwise (¬ SharesByte · ·)
  | [], b, b', _, hb, hrun => by
    cases hrun
    exact hb
  | c :: calls, b, b', ⟨⟨hreject, _⟩, hnext⟩, hb, hrun => by
    rcases c.write_cases b with ⟨-, hw⟩ | ⟨-, hw⟩ | ⟨-, hw⟩
    · rw [writeAll, hw] at hrun
      cases hrun
    · rw [writeAll, hw] at hrun
      cases hrun
    have hclear : ∀ r ∈ b.writtenRanges, ¬ SharesByte c.range r := by
      intro r hr hshare
      rw [hreject ⟨r, hr, hshare⟩] at hw
      cases hw
    rw [writeAll, hw] at hrun
    refine apart_of_writeAll (hnext _ _ hw) (List.pairwise_append.2 ⟨hb, by simp, ?_⟩) hrun
    rintro r hr _ hc hshare
    rw [List.mem_singleton.1 hc] at hshare
    exact hclear r hr hshare.symm

end WriteCall

/-- The check judges the calls of a sequence right exactly when none is an empty write strictly
inside a recorded range, or one over the whole of a recorded range that has no end strictly inside
some other. -/
theorem always_judgedRight_iff {σ : Type} [OStream σ] (calls : List (WriteCall σ))
    (b : MachOCoreDumpBuilder) :
    WriteCall.Always (fun b c => c.JudgedRight b) calls b
      ↔ WriteCall.Always (fun b c => c.Clear b) calls b :=
  WriteCall.always_congr WriteCall.judgedRight_iff calls b

/-- Two bytes at the start of the file. -/
def firstBytes : WriteCall FileStream where
  stream := ⟨[], 0⟩
  data := some [1, 2]
  size := 2
  enough := by simp

/-- Writing them again goes unnoticed. -/
theorem not_always_judgedRight_again :
    ¬ WriteCall.Always (fun b c => c.JudgedRight b) [firstBytes, firstBytes]
      (MachOCoreDumpBuilder.new .arm64) := by
  rintro ⟨-, hnext⟩
  obtain ⟨⟨hreject, -⟩, -⟩ := hnext true
    { builder := firstBytes.record (.new .arm64), stream := ⟨[1, 2], 2⟩ } rfl
  have hshare : SharesByte firstBytes.range (0, 2) := ⟨0, by decide, by decide⟩
  have hw := hreject ⟨(0, 2), by decide, hshare⟩
  cases hw

end MacMiniDump
