import AuthorityKernel.Library.Bytes
import AuthorityKernel.Types

/-! The bounds-checked cursor that modules are read with. -/
namespace AuthorityKernel.Wasm
open Library

/-- A cursor's bytes and where it ends; its position is passed along. -/
structure Rd where
  data : Bytes
  len : Nat

def rdByte (r : Rd) (pos : Nat) : Option (UInt8 × Nat) :=
  if pos < r.len then some (r.data.getD pos 0,pos + 1) else none

def rdSkip (r : Rd) (n pos : Nat) : Option Nat :=
  if r.len < n ∨ r.len - n < pos then none else some (pos + n)

/-- The groups of seven bits do not overlap, and the check on the fifth byte keeps the
sum within 32 bits. -/
def rdU32Loop (r : Rd) : (left shift result pos : Nat) → Option (Nat × Nat)
  | 0, _, _, _ => none
  | left + 1, shift, result, pos =>
      match rdByte r pos with
      | none => none
      | some (byte,pos) =>
          if left = 0 ∧ byte &&& 0x70 ≠ 0 then none
          else
            let result := result + (byte &&& 0x7f).toNat * 2 ^ shift
            if byte &&& 0x80 = 0 then some (result,pos) else rdU32Loop r left (shift + 7) result pos

def rdU32 (r : Rd) (pos : Nat) : Option (Nat × Nat) := rdU32Loop r 5 0 0 pos

/-- The bits of a signed number of a width; a sign bit in the last byte fills the bits
above it. -/
def rdSignedLoop (width : Nat) (r : Rd) : (left shift result pos : Nat) → Option (Nat × Nat)
  | 0, _, _, _ => none
  | left + 1, shift, result, pos =>
      match rdByte r pos with
      | none => none
      | some (byte,pos) =>
          let result := result + (byte &&& 0x7f).toNat * 2 ^ shift
          let shift := shift + 7
          if byte &&& 0x80 = 0 then
            let sign := if shift < width ∧ byte &&& 0x40 ≠ 0 then 2 ^ width - 2 ^ shift else 0
            some ((result + sign) % 2 ^ width,pos)
          else rdSignedLoop width r left shift result pos

def rdS32 (r : Rd) (pos : Nat) : Option (Nat × Nat) := rdSignedLoop 32 r 5 0 0 pos

def rdS64 (r : Rd) (pos : Nat) : Option (Nat × Nat) := rdSignedLoop 64 r 10 0 0 pos

def rdU32RawLe (r : Rd) (pos : Nat) : Option (Nat × Nat) :=
  if r.len < pos + 4 then none else some (fieldAt r.data pos 4,pos + 4)

def vtI32 : UInt8 := 0x7F
def vtI64 : UInt8 := 0x7E
def vtF32 : UInt8 := 0x7D
def vtF64 : UInt8 := 0x7C

def orInvalid {α : Type} : Option α → Except Int α
  | none => .error akEWasmInvalidModule
  | some value => .ok value

def rdValtype (r : Rd) (pos : Nat) : Except Int (UInt8 × Nat) := do
  let read ← orInvalid (rdByte r pos)
  if read.1 = vtI32 ∨ read.1 = vtI64 then return read
  else if read.1 = vtF32 ∨ read.1 = vtF64 then throw akEWasmUnsupported
  else throw akEWasmInvalidModule

theorem orInvalid_ok {α : Type} {read : Option α} {value : α} : orInvalid read = .ok value ↔ read = some value := by
  cases read <;> simp [orInvalid]

variable (width : Nat) (r : Rd) (left shift result pos value next : Nat)

theorem rdByte_moves (byte : UInt8) (next : Nat) (read : rdByte r pos = some (byte,next)) :
    next = pos + 1 ∧ next ≤ r.len ∧ byte = r.data.getD pos 0 := by
  unfold rdByte at read
  split at read
  · cases read
    exact ⟨rfl,by omega,rfl⟩
  · contradiction

theorem rdU32Loop_moves
    (read : rdU32Loop r left shift result pos = some (value,next)) : pos < next ∧ next ≤ r.len := by
  induction left generalizing shift result pos with
  | zero => simp [rdU32Loop] at read
  | succ left ih =>
    unfold rdU32Loop at read
    split at read
    · contradiction
    rename_i byte after got
    obtain ⟨step,inside,_⟩ := rdByte_moves r pos byte after got
    split at read
    · contradiction
    dsimp only at read
    split at read
    · cases read
      exact ⟨by omega,inside⟩
    · have later := ih _ _ _ read
      exact ⟨by omega,later.2⟩

theorem rdU32_moves (read : rdU32 r pos = some (value,next)) : pos < next ∧ next ≤ r.len :=
  rdU32Loop_moves r 5 0 0 pos value next read

theorem rdSignedLoop_moves
    (read : rdSignedLoop width r left shift result pos = some (value,next)) : pos < next ∧ next ≤ r.len := by
  induction left generalizing shift result pos with
  | zero => simp [rdSignedLoop] at read
  | succ left ih =>
    unfold rdSignedLoop at read
    split at read
    · contradiction
    rename_i byte after got
    obtain ⟨step,inside,_⟩ := rdByte_moves r pos byte after got
    split at read
    · cases read
      exact ⟨by omega,inside⟩
    · have later := ih _ _ _ read
      exact ⟨by omega,later.2⟩

end AuthorityKernel.Wasm
