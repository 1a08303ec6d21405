import MacMiniDump.ThreadStates

/-!
# Register sets

The general purpose registers and the exception state of a thread, as they go into an `LC_THREAD`
command: the kind of the set, its size in words, and the registers as the kernel hands them out.
-/

namespace MacMiniDump

namespace Arch

/-- `sizeof (x86_thread_state64_t)` and `sizeof (arm_thread_state64_t)` -/
def gprSize : Arch → ℕ
  | .x86_64 => 168
  | .arm64 => 272

/-- `sizeof (x86_exception_state64_t)` and `sizeof (arm_exception_state64_t)` -/
def excSize : Arch → ℕ
  | .x86_64 => 16
  | .arm64 => 16

/-- `RegSetKind::GPR` -/
def gprKind : Arch → UInt32
  | .x86_64 => 4
  | .arm64 => 6

/-- `RegSetKind::EXC` -/
def excKind : Arch → UInt32
  | .x86_64 => 6
  | .arm64 => 7

/-- Where `__rbp`, or `__fp`, is. -/
def basePointerOffset : Arch → ℕ
  | .x86_64 => 48
  | .arm64 => 232

/-- Where `__rsp`, or `__sp`, is. -/
def stackPointerOffset : Arch → ℕ
  | .x86_64 => 56
  | .arm64 => 248

/-- Where `__rip`, or `__pc`, is. -/
def instructionPointerOffset : Arch → ℕ
  | .x86_64 => 128
  | .arm64 => 256

end Arch

structure GPR (arch : Arch) where
  kind : UInt32
  nWordCount : UInt32
  gpr : Vector UInt8 arch.gprSize

structure EXC (arch : Arch) where
  kind : UInt32
  nWordCount : UInt32
  exc : Vector UInt8 arch.excSize

variable {arch : Arch}

namespace GPR

def bytes (gpr : GPR arch) : List UInt8 := le32 gpr.kind ++ le32 gpr.nWordCount ++ gpr.gpr.toList

@[simp] theorem length_bytes (gpr : GPR arch) : gpr.bytes.length = 8 + arch.gprSize := by
  simp only [bytes, List.length_append, length_le32, Vector.length_toList]

theorem dvd_length_bytes (gpr : GPR arch) : 8 ∣ gpr.bytes.length := by
  rw [length_bytes]
  cases arch <;> decide

/-- The argument it is to `AddThreadCommand`. -/
def threadState (gpr : GPR arch) : ThreadState := ⟨gpr.bytes, 8⟩

def basePointer (gpr : GPR arch) : UInt64 :=
  read64 (readAt gpr.gpr.toList arch.basePointerOffset 8)

def stackPointer (gpr : GPR arch) : UInt64 :=
  read64 (readAt gpr.gpr.toList arch.stackPointerOffset 8)

def instructionPointer (gpr : GPR arch) : UInt64 :=
  read64 (readAt gpr.gpr.toList arch.instructionPointerOffset 8)

end GPR

namespace EXC

def bytes (exc : EXC arch) : List UInt8 := le32 exc.kind ++ le32 exc.nWordCount ++ exc.exc.toList

@[simp] theorem length_bytes (exc : EXC arch) : exc.bytes.length = 8 + arch.excSize := by
  simp only [bytes, List.length_append, length_le32, Vector.length_toList]

theorem dvd_length_bytes (exc : EXC arch) : 8 ∣ exc.bytes.length := by
  rw [length_bytes]
  cases arch <;> decide

def threadState (exc : EXC arch) : ThreadState := ⟨exc.bytes, 8⟩

end EXC

/-- The size and the states of the command of a thread. -/
theorem threadCommand_gpr_exc (gpr : GPR arch) (exc : EXC arch) :
    threadCommandSize [gpr.threadState, exc.threadState] - 8 = 24 + arch.gprSize + arch.excSize
      ∧ threadCommandStates [gpr.threadState, exc.threadState] = gpr.bytes ++ exc.bytes := by
  have hwhole : ∀ s ∈ [gpr.threadState, exc.threadState], s.Whole := by
    intro s hs
    rcases List.mem_pair.1 hs with rfl | rfl
    · exact ⟨.inr rfl, gpr.dvd_length_bytes⟩
    · exact ⟨.inr rfl, exc.dvd_length_bytes⟩
  have hu : Unpadded [gpr.threadState, exc.threadState] :=
    List.pairwise_pair.2 fun _ => gpr.dvd_length_bytes
  have hsize : statesSize [gpr.threadState, exc.threadState]
      = (8 + arch.gprSize) + (8 + arch.excSize) := by
    simp [statesSize, GPR.threadState, EXC.threadState]
  have hdvd : 8 ∣ statesSize [gpr.threadState, exc.threadState] := by
    rw [hsize, ← gpr.length_bytes, ← exc.length_bytes]
    exact dvd_add gpr.dvd_length_bytes exc.dvd_length_bytes
  obtain ⟨hs, hb⟩ := threadCommand_of_unpadded hwhole hu rfl hdvd
  refine ⟨by omega, ?_⟩
  rw [hb, List.flatMap_cons, List.flatMap_singleton]
  rfl

end MacMiniDump
