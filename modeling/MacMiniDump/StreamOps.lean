import MacMiniDump.Lib.Loop
import MacMiniDump.DataAccess

/-!
# Scripts of stream operations

What a writer does to its stream as a list of seeks and writes, which stops at the first write that
fails. On a file, a script whose seeks never go back leaves every byte it has written in place
(`runOps_extents`).
-/

namespace MacMiniDump

inductive StreamOp
  | setPosition (p : UInt64)
  | write (data : Option (List UInt8)) (size : UInt64)

section Run

variable {σ : Type} [OStream σ]

/-- The script on the stream, up to the first write that fails. -/
def runOps : List StreamOp → σ → Bool × σ
  | [], s => (true, s)
  | .setPosition p :: ops, s => runOps ops (OStream.setPosition p s)
  | .write data size :: ops, s =>
    if (OStream.write data size s).1 then runOps ops (OStream.write data size s).2
    else (false, (OStream.write data size s).2)

@[simp] theorem runOps_setPosition (p : UInt64) (s : σ) :
    runOps [.setPosition p] s = (true, OStream.setPosition p s) := rfl

theorem runOps_write (data : Option (List UInt8)) (size : UInt64) (s : σ) :
    runOps [.write data size] s = OStream.write data size s := by
  simp only [runOps]
  split
  · rename_i h
    rw [← h]
  · rename_i h
    simp only [Bool.not_eq_true] at h
    rw [← h]

theorem runOps_append_of_true :
    ∀ (ops ops' : List StreamOp) {s s' : σ}, runOps ops s = (true, s') →
      runOps (ops ++ ops') s = runOps ops' s'
  | [], _, s, s', h => by
    simp only [runOps, Prod.mk.injEq, true_and] at h
    rw [List.nil_append, h]
  | .setPosition _ :: ops, ops', s, s', h => runOps_append_of_true ops ops' h
  | .write _ _ :: ops, ops', s, s', h => by
    simp only [runOps] at h
    simp only [List.cons_append, runOps]
    split_ifs at h ⊢
    · exact runOps_append_of_true ops ops' h
    · simp at h

theorem runOps_append_of_false :
    ∀ (ops ops' : List StreamOp) {s s' : σ}, runOps ops s = (false, s') →
      runOps (ops ++ ops') s = (false, s')
  | [], _, s, s', h => by simp [runOps] at h
  | .setPosition _ :: ops, ops', s, s', h => runOps_append_of_false ops ops' h
  | .write _ _ :: ops, ops', s, s', h => by
    simp only [runOps] at h
    simp only [List.cons_append, runOps]
    split_ifs at h ⊢
    · exact runOps_append_of_false ops ops' h
    · exact h

/-- Whenever `f` ends from a state that meets `P`, it has run the script on the stream of the state,
and the state still meets `P`. -/
def Scripted {τ ε : Type*} (P : τ → Prop) (stream : τ → σ) (f : τ → Except ε (Bool × τ))
    (ops : List StreamOp) : Prop :=
  ∀ s r s', P s → f s = .ok (r, s') → P s' ∧ (r, stream s') = runOps ops (stream s)

section Scripted

variable {τ ε ι : Type*} {P : τ → Prop} {stream : τ → σ}

theorem Scripted.seq {f g : τ → Except ε (Bool × τ)} {ops ops' : List StreamOp}
    (hf : Scripted P stream f ops) (hg : Scripted P stream g ops') :
    Scripted P stream (MacMiniDump.seq f g) (ops ++ ops') := by
  intro s r s' hP h
  unfold MacMiniDump.seq at h
  split at h
  · rename_i s₁ hs
    obtain ⟨hP₁, h₁⟩ := hf s true s₁ hP hs
    obtain ⟨hP₂, h₂⟩ := hg s₁ r s' hP₁ h
    exact ⟨hP₂, by rw [runOps_append_of_true _ _ h₁.symm, h₂]⟩
  · rename_i hr
    obtain ⟨hP₁, h₁⟩ := hf s r s' hP h
    rcases r with _ | _
    · exact ⟨hP₁, by rw [runOps_append_of_false _ _ h₁.symm]⟩
    · exact absurd h (hr s')

theorem Scripted.forEach {body : ι → τ → Except ε (Bool × τ)} {ops : ι → List StreamOp}
    (hb : ∀ i, Scripted P stream (body i) (ops i)) :
    ∀ is : List ι, Scripted P stream (MacMiniDump.forEach body is) (is.flatMap ops)
  | [] => by
    intro s r s' hP h
    simp only [MacMiniDump.forEach, Except.ok.injEq, Prod.mk.injEq] at h
    obtain ⟨rfl, rfl⟩ := h
    exact ⟨hP, rfl⟩
  | i :: is => by
    have hseq := (hb i).seq (Scripted.forEach hb is)
    intro s r s' hP h
    refine hseq s r s' hP ?_
    rw [← h, MacMiniDump.forEach, MacMiniDump.seq]

end Scripted

end Run

/-- A stream together with what has been done to it. -/
structure Recorded (σ : Type) where
  inner : σ
  log : List StreamOp

instance {σ : Type} [OStream σ] : OStream (Recorded σ) where
  write data size s :=
    ((OStream.write data size s.inner).1,
      ⟨(OStream.write data size s.inner).2, s.log ++ [.write data size]⟩)
  getPosition s := OStream.getPosition s.inner
  setPosition p s := ⟨OStream.setPosition p s.inner, s.log ++ [.setPosition p]⟩
  setSize n s := ((OStream.setSize n s.inner).1, ⟨(OStream.setSize n s.inner).2, s.log⟩)

/-- The log of a script is as much of it as was run. -/
theorem runOps_log {σ : Type} [OStream σ] :
    ∀ (ops : List StreamOp) (s : Recorded σ),
      ∃ done, done <+: ops ∧ (runOps ops s).2.log = s.log ++ done
        ∧ ((runOps ops s).1 = true → done = ops)
  | [], s => ⟨[], List.prefix_rfl, by simp [runOps], fun _ => rfl⟩
  | .setPosition p :: ops, s => by
    obtain ⟨done, hd, hl, ht⟩ := runOps_log ops (OStream.setPosition p s)
    refine ⟨.setPosition p :: done, ?_, ?_, fun h => by rw [ht h]⟩
    · simpa using hd
    · rw [runOps, hl]
      simp [OStream.setPosition]
  | .write data size :: ops, s => by
    obtain ⟨done, hd, hl, ht⟩ := runOps_log ops (OStream.write data size s).2
    simp only [runOps]
    split_ifs with hw
    · refine ⟨.write data size :: done, ?_, ?_, fun h => by rw [ht h]⟩
      · simpa using hd
      · rw [hl]
        simp [OStream.write]
    · refine ⟨[.write data size], ?_, ?_, fun h => by simp at h⟩
      · simp
      · simp [OStream.write]

/-- The positions a script seeks to. -/
def seeks (ops : List StreamOp) : List UInt64 :=
  ops.filterMap fun
    | .setPosition p => some p
    | .write _ _ => none

@[simp] theorem seeks_append (ops ops' : List StreamOp) :
    seeks (ops ++ ops') = seeks ops ++ seeks ops' := by
  simp [seeks]

theorem seeks_isPrefix {ops ops' : List StreamOp} (h : ops <+: ops') :
    seeks ops <+: seeks ops' := by
  obtain ⟨t, rfl⟩ := h
  rw [seeks_append]
  exact List.prefix_append _ _

/-- What is written before the next seek. -/
def dataUntilSeek : List StreamOp → List UInt8
  | .write d _ :: ops => d.getD [] ++ dataUntilSeek ops
  | _ => []

/-- For each seek, where it goes and what is then written there. -/
def written : List StreamOp → List (UInt64 × List UInt8)
  | [] => []
  | .setPosition p :: ops => (p, dataUntilSeek ops) :: written ops
  | .write _ _ :: ops => written ops

theorem dataUntilSeek_isPrefix :
    ∀ {ops ops' : List StreamOp}, ops <+: ops' → dataUntilSeek ops <+: dataUntilSeek ops'
  | [], _, _ => List.nil_prefix
  | .setPosition _ :: _, _, _ => List.nil_prefix
  | .write d n :: ops, ops', h => by
    obtain ⟨rest, rfl⟩ := h
    rw [List.cons_append, dataUntilSeek, dataUntilSeek, List.prefix_append_right_inj]
    exact dataUntilSeek_isPrefix (List.prefix_append _ _)

theorem written_isPrefix :
    ∀ {ops ops' : List StreamOp} {k : ℕ} {w : UInt64 × List UInt8}, ops <+: ops' →
      (written ops)[k]? = some w → ∃ w', (written ops')[k]? = some w' ∧ w.2 <+: w'.2
  | [], _, _, _, _, hw => by simp [written] at hw
  | .setPosition p :: ops, ops', k, w, h, hw => by
    obtain ⟨rest, rfl⟩ := h
    rw [written] at hw
    rw [List.cons_append, written]
    cases k with
    | zero =>
      obtain rfl : _ = w := Option.some.inj hw
      exact ⟨_, rfl, dataUntilSeek_isPrefix (List.prefix_append _ _)⟩
    | succ k => exact written_isPrefix (List.prefix_append _ _) hw
  | .write d n :: ops, ops', k, w, h, hw => by
    obtain ⟨rest, rfl⟩ := h
    rw [written] at hw
    rw [List.cons_append, written]
    exact written_isPrefix (List.prefix_append _ _) hw

theorem written_append_of_seeks_eq_nil :
    ∀ {ops : List StreamOp} (rest : List StreamOp), seeks ops = [] →
      written (ops ++ rest) = written rest
        ∧ dataUntilSeek (ops ++ rest) = dataUntilSeek ops ++ dataUntilSeek rest
  | [], rest, _ => ⟨rfl, by simp [dataUntilSeek]⟩
  | .setPosition p :: ops, rest, h => by simp [seeks] at h
  | .write d n :: ops, rest, h => by
    obtain ⟨hw, hd⟩ := written_append_of_seeks_eq_nil rest (show seeks ops = [] from h)
    rw [List.cons_append, written, hw, dataUntilSeek, hd, dataUntilSeek, List.append_assoc]
    exact ⟨rfl, rfl⟩

theorem written_append {rest : List StreamOp} (h : dataUntilSeek rest = []) :
    ∀ ops : List StreamOp, written (ops ++ rest) = written ops ++ written rest
      ∧ dataUntilSeek (ops ++ rest) = dataUntilSeek ops
  | [] => ⟨rfl, h⟩
  | .setPosition p :: ops => by
    obtain ⟨hw, hd⟩ := written_append h ops
    rw [List.cons_append, written, hw, hd, written]
    exact ⟨rfl, rfl⟩
  | .write d n :: ops => by
    obtain ⟨hw, hd⟩ := written_append h ops
    rw [List.cons_append, written, hw, dataUntilSeek, hd, dataUntilSeek, written]
    exact ⟨rfl, rfl⟩

theorem dataUntilSeek_writes {α : Type*} (f : α → List UInt8) (g : α → UInt64)
    (rest : List StreamOp) :
    ∀ l : List α, dataUntilSeek (l.map (fun a => .write (some (f a)) (g a)) ++ rest)
      = l.flatMap f ++ dataUntilSeek rest
  | [] => rfl
  | a :: l => by
    rw [List.map_cons, List.cons_append, dataUntilSeek, dataUntilSeek_writes f g rest l,
      Option.getD_some, List.flatMap_cons, List.append_assoc]

/-- Parts that each start with their only seek. -/
theorem written_flatMap {α : Type*} (pos : α → UInt64) (ws : α → List StreamOp) :
    ∀ l : List α, (∀ a ∈ l, seeks (ws a) = []) →
      dataUntilSeek (l.flatMap fun a => .setPosition (pos a) :: ws a) = []
        ∧ written (l.flatMap fun a => .setPosition (pos a) :: ws a)
          = l.map fun a => (pos a, dataUntilSeek (ws a))
  | [], _ => ⟨rfl, rfl⟩
  | a :: l, h => by
    obtain ⟨hd, hw⟩ := written_flatMap pos ws l fun b hb => h b (List.mem_cons_of_mem _ hb)
    obtain ⟨hw', hd'⟩ := written_append_of_seeks_eq_nil
      (l.flatMap fun a => .setPosition (pos a) :: ws a) (h a List.mem_cons_self)
    rw [List.flatMap_cons, List.cons_append, written, hw', hw, hd', hd, List.append_nil,
      List.map_cons]
    exact ⟨rfl, rfl⟩

/-- The writes that store the given pieces one after another. -/
def writePieces (pieces : List (List UInt8)) : List StreamOp :=
  pieces.map fun d => .write (some d) (UInt64.ofNat d.length)

/-- The script that stores the pieces from the position `p` on. -/
def extentOps (x : UInt64 × List (List UInt8)) : List StreamOp :=
  .setPosition x.1 :: writePieces x.2

theorem runOps_writePieces :
    ∀ (pieces : List (List UInt8)) (f : FileStream), f.content.length ≤ f.pos →
      ∃ c, runOps (writePieces pieces) f = (true, ⟨c, f.pos + pieces.flatten.length⟩)
        ∧ c = writeAt f.content f.pos pieces.flatten
  | [], f, _ => ⟨f.content, by simp [writePieces, runOps], by simp⟩
  | d :: pieces, f, hf => by
    obtain ⟨c, hc, hw⟩ := runOps_writePieces pieces ⟨writeAt f.content f.pos d, f.pos + d.length⟩
      (length_writeAt_le hf d)
    refine ⟨c, ?_, ?_⟩
    · simp only [writePieces, List.map_cons, runOps]
      rw [if_pos (by rfl)]
      simp only [List.flatten_cons, List.length_append, ← Nat.add_assoc]
      exact hc
    · rw [hw, List.flatten_cons]
      by_cases hd : d = []
      · simp [hd]
      · have hl : (writeAt f.content f.pos d).length = f.pos + d.length := length_writeAt hf hd
        rw [← hl, writeAt_length, writeAt_of_length_le hf hd,
          writeAt_of_length_le hf (by simp [hd]), List.append_assoc]

/-- Extents one after another, none before the end of the file, are all in the file at the end;
what was in it before still is, and a gap between them is filled with zeros. -/
theorem runOps_extents :
    ∀ (xs : List (UInt64 × List (List UInt8))) (f : FileStream) (lo : ℕ), f.content.length ≤ lo →
      (∀ x ∈ xs, lo ≤ x.1.toNat) →
      (xs.Pairwise fun x y => x.1.toNat + x.2.flatten.length ≤ y.1.toNat) →
      ∃ f', runOps (xs.flatMap extentOps) f = (true, f') ∧ f.content <+: f'.content
        ∧ (∀ x ∈ xs, readAt f'.content x.1.toNat x.2.flatten.length = x.2.flatten)
        ∧ ∀ i, f.content.length ≤ i →
          (∀ x ∈ xs, i < x.1.toNat ∨ x.1.toNat + x.2.flatten.length ≤ i) →
          ∀ v, f'.content[i]? = some v
            ↔ v = 0 ∧ ∃ x ∈ xs, i < x.1.toNat ∧ x.2.flatten ≠ []
  | [], f, lo, _, _, _ =>
    ⟨f, rfl, List.prefix_rfl, by simp, fun i hi _ v => by simp [List.getElem?_eq_none hi]⟩
  | x :: xs, f, lo, hf, hlo, hp => by
    obtain ⟨hx, hxs⟩ := List.pairwise_cons.1 hp
    have hfx : f.content.length ≤ x.1.toNat := hf.trans (hlo x List.mem_cons_self)
    obtain ⟨g, hg, hw⟩ := runOps_writePieces x.2 ⟨f.content, x.1.toNat⟩ hfx
    have hgl : g.length ≤ x.1.toNat + x.2.flatten.length := hw ▸ length_writeAt_le hfx _
    obtain ⟨f', hr, hpre, hread, hgap⟩ :=
      runOps_extents xs ⟨g, x.1.toNat + x.2.flatten.length⟩ _ hgl
      (fun y hy => hx y hy) hxs
    have hfirst : runOps (extentOps x) f = (true, ⟨g, x.1.toNat + x.2.flatten.length⟩) := by
      rw [extentOps, runOps]
      exact hg
    refine ⟨f', ?_, ?_, ?_, ?_⟩
    · rw [List.flatMap_cons, runOps_append_of_true _ _ hfirst]
      exact hr
    · exact (hw ▸ prefix_writeAt hfx _).trans hpre
    · intro y hy
      rcases List.mem_cons.1 hy with rfl | hy
      · by_cases hn : y.2.flatten = []
        · simp [hn, readAt]
        · have hlen : g.length = y.1.toNat + y.2.flatten.length := hw ▸ length_writeAt hfx hn
          rw [readAt_of_isPrefix hpre hlen.ge, hw]
          exact readAt_writeAt hfx _
      · exact hread y hy
    · intro i hi hout v
      have hout' : ∀ y ∈ xs, i < y.1.toNat ∨ y.1.toNat + y.2.flatten.length ≤ i :=
        fun y hy => hout y (List.mem_cons_of_mem _ hy)
      by_cases hn : x.2.flatten = []
      · -- nothing was written
        have hgf : g = f.content := by rw [hw, hn, writeAt_nil]
        rw [hgap i (by rw [hgf]; exact hi) hout' v, List.exists_mem_cons_iff,
          or_iff_right fun h => h.2 hn]
      have hlen : g.length = x.1.toNat + x.2.flatten.length := hw ▸ length_writeAt hfx hn
      rcases hout x List.mem_cons_self with hlt | hge
      · have hzero : g[i]? = some 0 := by
          rw [hw]
          exact getElem?_writeAt_gap hn hi hlt
        obtain ⟨hig, -⟩ := List.getElem?_eq_some_iff.1 hzero
        have hzero' : f'.content[i]? = some 0 := by
          obtain ⟨t, ht⟩ := hpre
          rw [← ht, List.getElem?_append_left hig, hzero]
        rw [hzero', Option.some.injEq]
        exact ⟨fun h => ⟨h.symm, x, List.mem_cons_self, hlt, hn⟩, fun h => h.1.symm⟩
      · have hx' : ¬ i < x.1.toNat := by omega
        rw [hgap i (by rw [hlen]; exact hge) hout' v, List.exists_mem_cons_iff,
          or_iff_right fun h => hx' h.1]

/-- A file ends where the furthest write to it does, unless it was longer before. -/
theorem le_length_runOps_iff {e : ℕ} :
    ∀ {ops : List StreamOp} {f f' : FileStream}, runOps ops f = (true, f') →
      (e ≤ f'.content.length ↔ e ≤ f.content.length
        ∨ (dataUntilSeek ops ≠ [] ∧ e ≤ f.pos + (dataUntilSeek ops).length)
        ∨ ∃ w ∈ written ops, w.2 ≠ [] ∧ e ≤ w.1.toNat + w.2.length)
  | [], f, f', h => by
    obtain rfl : f = f' := congrArg Prod.snd h
    simp [dataUntilSeek, written]
  | .setPosition p :: ops, f, f', h => by
    have hops : runOps ops { f with pos := p.toNat } = (true, f') := h
    rw [le_length_runOps_iff hops]
    simp [dataUntilSeek, written]
  | .write data size :: ops, f, f', h => by
    rw [runOps] at h
    split_ifs at h with hw
    · rw [dataUntilSeek, written]
      rcases data with _ | d
      · have hops : runOps ops f = (true, f') := h
        rw [le_length_runOps_iff hops]
        simp
      · have hops : runOps ops ⟨writeAt f.content f.pos d, f.pos + d.length⟩ = (true, f') := h
        rw [le_length_runOps_iff hops]
        rcases eq_or_ne d [] with rfl | hd
        · simp
        rw [length_writeAt_eq hd, Option.getD_some, List.length_append]
        simp only [ne_eq, List.append_eq_nil_iff, hd, false_and, not_false_eq_true, true_and]
        rcases eq_or_ne (dataUntilSeek ops) [] with hnil | hne
        · simp [hnil, or_assoc]
        · simp only [hne, not_false_eq_true, true_and]
          constructor
          · rintro (hle | hle | hle)
            · rcases le_max_iff.1 hle with hle | hle
              · exact .inl hle
              · exact .inr (.inl (by omega))
            · exact .inr (.inl (by omega))
            · exact .inr (.inr hle)
          · rintro (hle | hle | hle)
            · exact .inl (le_max_of_le_left hle)
            · exact .inr (.inl (by omega))
            · exact .inr (.inr hle)
    · simp at h

end MacMiniDump
