import AuthorityKernel.Library.Reads
import AuthorityKernel.Wasm.Reader

/-! The check of a function body: one pass over its instructions that decodes their
immediates, matches every `if` with its `else` and `end` and records where these stand. -/
namespace AuthorityKernel.Wasm
open Library

def inMaxLocals : Nat := 256
def inMaxIfs : Nat := 512

inductive OpKind
  | unreachable
  | nop
  | ret
  | drop
  | i32Const
  | i64Const
  | localGet
  | localSet
  | localTee
  | call
  | ifOp
  | elseOp
  | endOp
  | other
deriving DecidableEq

def opKind (op : UInt8) : OpKind :=
  if op = 0x00 then .unreachable
  else if op = 0x01 then .nop
  else if op = 0x0F then .ret
  else if op = 0x1A then .drop
  else if op = 0x41 then .i32Const
  else if op = 0x42 then .i64Const
  else if op = 0x20 then .localGet
  else if op = 0x21 then .localSet
  else if op = 0x22 then .localTee
  else if op = 0x10 then .call
  else if op = 0x04 then .ifOp
  else if op = 0x05 then .elseOp
  else if op = 0x0B then .endOp
  else .other

def isSupportedNumeric (op : UInt8) : Bool :=
  op ∈ ([0x45,0x46,0x47,0x48,0x49,0x4A,0x4B,0x50,0x51,0x52,0x54,0x55,0x56,0x57,0x6A,0x6B,0x6C,0x6E,0x71,0x72,0x73,
    0x74,0x76,0x7C,0x7D,0x7E,0x80,0x83,0x84,0x85,0x86,0x88] : List UInt8)

def readBlocktype (r : Rd) (pos : Nat) : Except Int Nat := do
  let bt ← orInvalid (rdByte r pos)
  if bt.1 = 0x40 ∨ bt.1 = vtI32 ∨ bt.1 = vtI64 then return bt.2 else throw akEWasmUnsupported

/-- An `else` at 0 is none. -/
structure IfRec where
  ifOff : Nat
  elseOff : Nat
  endOff : Nat
deriving DecidableEq

/-- `ctrl` holds the records of the open ifs, the innermost first. `offsets` is kept for
the proofs: where instructions have been decoded, the last one first. -/
structure Scan where
  pos : Nat
  ctrl : List Nat
  recs : List IfRec
  offsets : List Nat

structure Validated where
  instrStart : Nat
  totalLocals : Nat
  funcEnd : Nat
  recs : List IfRec
  offsets : List Nat

inductive ScanTurn
  | more (s : Scan)
  | finished (funcEnd : Nat) (s : Scan)

section Check

variable (r : Rd) (numImports totalLocals : Nat)

def scanImmediate (op : UInt8) (pos : Nat) : Except Int Nat :=
  match opKind op with
  | .i32Const => do
      let v ← orInvalid (rdS32 r pos)
      return v.2
  | .i64Const => do
      let v ← orInvalid (rdS64 r pos)
      return v.2
  | .localGet | .localSet | .localTee => do
      let idx ← orInvalid (rdU32 r pos)
      if totalLocals ≤ idx.1 then throw akEWasmInvalidModule else return idx.2
  | .call => do
      let idx ← orInvalid (rdU32 r pos)
      if numImports ≤ idx.1 then throw akEWasmUnsupported else return idx.2
  | .ifOp => readBlocktype r pos
  | .unreachable | .nop | .ret | .drop | .elseOp | .endOp => return pos
  | .other => if isSupportedNumeric op then return pos else throw akEWasmUnsupported

def scanControl (kind : OpKind) (off pos : Nat) (s : Scan) : Except Int ScanTurn :=
  match kind, s.ctrl with
  | .ifOp, _ =>
      if inMaxIfs ≤ s.ctrl.length ∨ inMaxIfs ≤ s.recs.length then throw akEWasmUnsupported
      else return .more { s with ctrl := s.recs.length :: s.ctrl, recs := s.recs ++ [⟨off,0,0⟩] }
  | .elseOp, [] => throw akEWasmInvalidModule
  | .elseOp, top :: _ =>
      if (s.recs[top]?).any (fun rec => rec.elseOff != 0) then throw akEWasmInvalidModule
      else return .more { s with recs := s.recs.modify top fun rec => { rec with elseOff := off } }
  | .endOp, [] => if pos ≠ r.len then throw akEWasmInvalidModule else return .finished off s
  | .endOp, top :: ctrl =>
      return .more { s with ctrl, recs := s.recs.modify top fun rec => { rec with endOff := off } }
  | _, _ => return .more s

def scanStep (s : Scan) : Except Int ScanTurn := do
  let op ← orInvalid (rdByte r s.pos)
  let pos ← scanImmediate r numImports totalLocals op.1 op.2
  scanControl r (opKind op.1) s.pos pos { s with pos, offsets := s.pos :: s.offsets }

def scanLoop : (fuel : Nat) → Scan → Except Int (Nat × Scan)
  | 0, _ => throw akEWasmInvalidModule
  | fuel + 1, s => do
      match ← scanStep r numImports totalLocals s with
      | .more next => scanLoop fuel next
      | .finished funcEnd final => return (funcEnd,final)

end Check

def readLocals (r : Rd) : (count total pos : Nat) → Except Int (Nat × Nat)
  | 0, total, pos => return (total,pos)
  | count + 1, total, pos => do
      let n ← orInvalid (rdU32 r pos)
      let vt ← rdValtype r n.2
      if inMaxLocals < total + n.1 then throw akEWasmUnsupported else readLocals r count (total + n.1) vt.2

def validateBody (r : Rd) (numImports paramCount bodyStart : Nat) : Except Int Validated := do
  let declCount ← orInvalid (rdU32 r bodyStart)
  let declared ← readLocals r declCount.1 paramCount declCount.2
  let final ← scanLoop r numImports declared.1 (r.len + 1) ⟨declared.2,[],[],[]⟩
  return ⟨declared.2,declared.1,final.1,final.2.recs,final.2.offsets⟩

end AuthorityKernel.Wasm
