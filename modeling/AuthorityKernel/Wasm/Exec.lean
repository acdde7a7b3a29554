import AuthorityKernel.Wasm.Body
import AuthorityKernel.Wasm.Module

/-! Running a body that has been checked: a loop over the instructions with a stack of
64-bit slots, charged one unit of gas each. -/
namespace AuthorityKernel.Wasm
open Library

def inStackMax : Nat := 1024
def inDefaultGas : Nat := 10 * 1000 * 1000

/-- Why a run ends. Several reasons share one error code. -/
inductive Stop
  | done
  | timeout
  | unreachable
  | underflow
  | overflow
  | badImmediate
  | noRecord
  | divideByZero
  | unknownNumeric
  | unresolvedHost
  | hostError
deriving DecidableEq

def Stop.code : Stop → Int
  | .done => 0
  | .timeout => akEWasmTimeout
  | .unresolvedHost | .hostError => akEWasmHostError
  | .unreachable | .underflow | .overflow | .badImmediate | .noRecord | .divideByZero | .unknownNumeric => akEWasmTrap

/-- `calls` counts the calls of host functions so far. -/
structure ExecState where
  pc : Nat
  gas : Nat
  stack : List UInt64
  locals : List UInt64
  calls : Nat

/-- What the host answers to its n-th call: no function of that name any more, or the
code that the function returns. -/
abbrev Host := Nat → CString → Option Int

structure ExecEnv where
  r : Rd
  m : WMod
  body : Validated
  gasLimit : Nat
  host : Host

inductive ExecTurn
  | next (s : ExecState)
  | stop (reason : Stop) (s : ExecState)

def opPush (stack : List UInt64) (v : UInt64) : Except Stop (List UInt64) :=
  if inStackMax ≤ stack.length then .error .overflow else .ok (v :: stack)

def opPop : List UInt64 → Except Stop (UInt64 × List UInt64)
  | [] => .error .underflow
  | v :: rest => .ok (v,rest)

def sext32 (v : UInt64) : Int64 := v.toUInt32.toInt32.toInt64

def ofBool (b : Bool) : UInt64 := if b then 1 else 0

def binary (op : UInt8) (a b : UInt64) : Except Stop UInt64 :=
  match op.toNat with
  | 0x6A => .ok (a + b).toUInt32.toUInt64
  | 0x6B => .ok (a - b).toUInt32.toUInt64
  | 0x6C => .ok (a * b).toUInt32.toUInt64
  | 0x6E => if b.toUInt32 = 0 then .error .divideByZero else .ok (a.toUInt32 / b.toUInt32).toUInt64
  | 0x71 => .ok (a &&& b).toUInt32.toUInt64
  | 0x72 => .ok (a ||| b).toUInt32.toUInt64
  | 0x73 => .ok (a ^^^ b).toUInt32.toUInt64
  | 0x74 => .ok (a.toUInt32 <<< (b.toUInt32 &&& 31)).toUInt64
  | 0x76 => .ok (a.toUInt32 >>> (b.toUInt32 &&& 31)).toUInt64
  | 0x46 => .ok (ofBool (a.toUInt32 == b.toUInt32))
  | 0x47 => .ok (ofBool (a.toUInt32 != b.toUInt32))
  | 0x48 => .ok (ofBool (sext32 a < sext32 b))
  | 0x49 => .ok (ofBool (a.toUInt32 < b.toUInt32))
  | 0x4A => .ok (ofBool (sext32 a > sext32 b))
  | 0x4B => .ok (ofBool (a.toUInt32 > b.toUInt32))
  | 0x7C => .ok (a + b)
  | 0x7D => .ok (a - b)
  | 0x7E => .ok (a * b)
  | 0x80 => if b = 0 then .error .divideByZero else .ok (a / b)
  | 0x83 => .ok (a &&& b)
  | 0x84 => .ok (a ||| b)
  | 0x85 => .ok (a ^^^ b)
  | 0x86 => .ok (a <<< (b &&& 63))
  | 0x88 => .ok (a >>> (b &&& 63))
  | 0x51 => .ok (ofBool (a == b))
  | 0x52 => .ok (ofBool (a != b))
  | 0x54 => .ok (ofBool (a.toInt64 < b.toInt64))
  | 0x55 => .ok (ofBool (a < b))
  | 0x56 => .ok (ofBool (a.toInt64 > b.toInt64))
  | 0x57 => .ok (ofBool (a > b))
  | _ => .error .unknownNumeric

def numeric (op : UInt8) (stack : List UInt64) : Except Stop (List UInt64) :=
  if op = 0x45 then do
    let a ← opPop stack
    opPush a.2 (ofBool (a.1.toUInt32 == 0))
  else if op = 0x50 then do
    let a ← opPop stack
    opPush a.2 (ofBool (a.1 == 0))
  else do
    let b ← opPop stack
    let a ← opPop b.2
    let res ← binary op a.1 b.1
    opPush a.2 res

def findRecByIf (recs : List IfRec) (off : Nat) : Option IfRec := recs.find? fun rec => rec.ifOff == off

def findRecByElse (recs : List IfRec) (off : Nat) : Option IfRec := recs.find? fun rec => rec.elseOff == off

def orTrap {α : Type} (reason : Stop) : Option α → Except Stop α
  | none => .error reason
  | some value => .ok value

section Step

variable (env : ExecEnv)

def localIndex (s : ExecState) : Except Stop (Nat × Nat) := do
  let idx ← orTrap .badImmediate (rdU32 env.r (s.pc + 1))
  if env.body.totalLocals ≤ idx.1 then throw .badImmediate else return idx

/-- Calling an imported function. Its code is the result, if it has one. -/
def callHost (s : ExecState) : Except Stop ExecState := do
  let idx ← orTrap .badImmediate (rdU32 env.r (s.pc + 1))
  let function ← orTrap .badImmediate env.m.imports[idx.1]?
  let rc ← orTrap .unresolvedHost (env.host s.calls function.name)
  let s := { s with pc := idx.2, calls := s.calls + 1 }
  if rc < 0 then throw .hostError
  else if (env.m.types[function.type]?).any (fun type => type.results == 1) then do
    let stack ← opPush s.stack (UInt64.ofInt rc)
    return { s with stack }
  else return s

def execInstr (op : UInt8) (s : ExecState) : Except Stop ExecState :=
  match opKind op with
  | .unreachable => throw .unreachable
  | .nop | .endOp => return { s with pc := s.pc + 1 }
  | .ret => throw .done
  | .drop => do
      let t ← opPop s.stack
      return { s with pc := s.pc + 1, stack := t.2 }
  | .i32Const => do
      let v ← orTrap .badImmediate (rdS32 env.r (s.pc + 1))
      let stack ← opPush s.stack (UInt64.ofNat v.1)
      return { s with pc := v.2, stack }
  | .i64Const => do
      let v ← orTrap .badImmediate (rdS64 env.r (s.pc + 1))
      let stack ← opPush s.stack (UInt64.ofNat v.1)
      return { s with pc := v.2, stack }
  | .localGet => do
      let idx ← localIndex env s
      let stack ← opPush s.stack (s.locals.getD idx.1 0)
      return { s with pc := idx.2, stack }
  | .localSet => do
      let idx ← localIndex env s
      let v ← opPop s.stack
      return { s with pc := idx.2, stack := v.2, locals := s.locals.set idx.1 v.1 }
  | .localTee => do
      let idx ← localIndex env s
      let v ← opPop s.stack
      return { s with pc := idx.2, locals := s.locals.set idx.1 v.1 }
  | .call => callHost env s
  | .ifOp => do
      let cond ← opPop s.stack
      if cond.1.toUInt32 ≠ 0 then return { s with pc := s.pc + 2, stack := cond.2 }
      else do
        let rec ← orTrap .noRecord (findRecByIf env.body.recs s.pc)
        let target := if rec.elseOff ≠ 0 then rec.elseOff else rec.endOff
        return { s with pc := target + 1, stack := cond.2 }
  | .elseOp => do
      let rec ← orTrap .noRecord (findRecByElse env.body.recs s.pc)
      return { s with pc := rec.endOff + 1 }
  | .other => do
      let stack ← numeric op s.stack
      return { s with pc := s.pc + 1, stack }

def execStep (s : ExecState) : ExecTurn :=
  if env.r.len ≤ s.pc ∨ s.pc = env.body.funcEnd then .stop .done s
  else
    let s := { s with gas := s.gas + 1 }
    if env.gasLimit < s.gas then .stop .timeout s
    else
      match execInstr env (env.r.data.getD s.pc 0) s with
      | .error reason => .stop reason s
      | .ok s => .next s

def execLoop : (fuel : Nat) → ExecState → Option (Stop × ExecState)
  | 0, _ => none
  | fuel + 1, s =>
      match execStep env s with
      | .stop reason s => some (reason,s)
      | .next s => execLoop fuel s

end Step

end AuthorityKernel.Wasm
