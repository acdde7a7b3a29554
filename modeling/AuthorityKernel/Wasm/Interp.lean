import AuthorityKernel.Wasm.Entry
import AuthorityKernel.Wasm.Safety

/-! The interpreter from end to end: read the module, check the body of the exported
function, run it on parameters taken from the input, and put the result into eight
bytes. -/
namespace AuthorityKernel.Wasm
open Library

/-- Which of the allocations succeed: the module record, the table of ifs, the local
variables, the stack and the output buffer. -/
structure InterpMemory where
  wmod : Bool
  recs : Bool
  locals : Bool
  stack : Bool
  out : Bool

def paramsOf (count : Nat) (input : Option Bytes) : List UInt64 :=
  (List.range count).map fun i => UInt64.ofNat (leNat (((input.getD []).drop (8 * i)).take 8))

def execResult (resultCount : Nat) (stack : List UInt64) : Except Int UInt64 :=
  if resultCount = 1 then
    match stack with
    | [] => .error akEWasmTrap
    | top :: _ => .ok top
  else .ok 0

/-- The code or the value of a body, with the gas it used. There are fewer instructions
than bytes, so the turns never run out. -/
def execBody (env : ExecEnv) (resultCount : Nat) (locals : List UInt64) : Nat × Except Int UInt64 :=
  match execLoop env env.body.offsets.length ⟨env.body.instrStart,0,[],locals,0⟩ with
  | none => (0,.error akEWasmTrap)
  | some (reason,final) => (final.gas,if reason = .done then execResult resultCount final.stack else .error reason.code)

structure InterpRun where
  gasUsed : Nat
  outcome : Except Int (Bytes × UInt64)

def emitted (memory : Bool) (resultCount : Nat) (value : UInt64) : Except Int (Bytes × UInt64) :=
  if !memory then .error akEWasmOom
  else .ok (if resultCount = 1 then leBytes 8 value.toNat else [],value)

def akWasmInterpRun (memory : InterpMemory) (registry : Registry) (host : Host) (bytecode : Bytes)
    (exportName : CString) (input : Option Bytes) (gasLimit : Nat) : InterpRun :=
  if bytecode.length < 8 then ⟨0,.error akEWasmInvalidModule⟩
  else if !memory.wmod then ⟨0,.error akEWasmOom⟩
  else match parseModule registry (some exportName) bytecode with
    | .error code => ⟨0,.error code⟩
    | .ok m =>
      match m.entryType,m.body with
      | some type,some entry =>
        if !memory.recs then ⟨0,.error akEWasmOom⟩
        else match validateBody ⟨bytecode,entry.body.stop⟩ m.imports.length type.params entry.body.start with
          | .error code => ⟨0,.error code⟩
          | .ok body =>
            if !memory.locals || !memory.stack then ⟨0,.error akEWasmOom⟩
            else
              let params := paramsOf type.params input
              let limit := if gasLimit = 0 then inDefaultGas else gasLimit
              let done := execBody ⟨⟨bytecode,entry.body.stop⟩,m,body,limit,host⟩ type.results
                (params ++ List.replicate (body.totalLocals - params.length) 0)
              ⟨done.1,done.2.bind (emitted memory.out type.results)⟩
      -- a module is only read to its end with an entry whose type is declared
      | _,_ => ⟨0,.error akEWasmInvalidModule⟩

end AuthorityKernel.Wasm
