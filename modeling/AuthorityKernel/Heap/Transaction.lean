import AuthorityKernel.Heap.Objects

/-! Heap transactions: operations are queued, then all validated against the heap as it
is, then applied one by one. -/
namespace AuthorityKernel.Heap
open Library Capability

inductive TxnOp
  | alloc (ptr typeHash : UInt64) (value : Option Bytes) (runId : TokenId) (taint : Taint)
  | write (ptr : UInt64) (patch : Option Bytes) (expectedVersion : UInt64)
  | delete (ptr expectedVersion : UInt64)

structure HeapTxn where
  ops : List TxnOp
  active : Bool

def akHeapTxnBegin (alloc : Bool) (s : HeapState) : Option HeapTxn :=
  if !s.initialized then none
  else if !alloc then none
  else some ⟨[],true⟩

structure QueueEnv where
  opAlloc : Bool
  valueAlloc : Bool

def cloned (env : QueueEnv) (value : Bytes) : Option Bytes := if env.valueAlloc then some value else none

def akHeapTxnAlloc (env : QueueEnv) (typeHash : UInt64) (value : Bytes) (runId : TokenId) (taint : Taint)
    (s : HeapState) (txn : HeapTxn) : HeapTxn × UInt64 :=
  if !txn.active || !env.opAlloc then (txn,0)
  else
    let ptr := s.nextPtr + UInt64.ofNat txn.ops.length
    ({ txn with ops := txn.ops ++ [.alloc ptr typeHash (cloned env value) runId taint] },ptr)

def akHeapTxnWrite (env : QueueEnv) (ptr : UInt64) (patch : Bytes) (expectedVersion : UInt64) (txn : HeapTxn) :
    HeapTxn × Int :=
  if !txn.active then (txn,-eInval)
  else if !env.opAlloc then (txn,-eNomem)
  else ({ txn with ops := txn.ops ++ [.write ptr (cloned env patch) expectedVersion] },0)

def akHeapTxnDelete (env : QueueEnv) (ptr expectedVersion : UInt64) (txn : HeapTxn) : HeapTxn × Int :=
  if !txn.active then (txn,-eInval)
  else if !env.opAlloc then (txn,-eNomem)
  else ({ txn with ops := txn.ops ++ [.delete ptr expectedVersion] },0)

def txnOpError (s : HeapState) : TxnOp → Int
  | .alloc _ typeHash value _ _ => if akHeapValidateSchema s typeHash value then 0 else akESchemaInvalid
  | .write ptr _ expectedVersion =>
      match casObject s ptr expectedVersion with
      | .error code => code
      | .ok _ => 0
  | .delete ptr expectedVersion =>
      match casObject s ptr expectedVersion with
      | .error code => code
      | .ok _ => 0

def txnValidate (s : HeapState) : List TxnOp → Int
  | [] => 0
  | op :: rest => if txnOpError s op ≠ 0 then txnOpError s op else txnValidate s rest

structure ApplyEnv where
  alloc : AllocEnv
  write : WriteEnv
  delete : DeleteEnv

/-- Results are ignored: an operation that fails here is skipped. -/
def txnApplyOp (env : ApplyEnv) (s : HeapState) : TxnOp → HeapState
  | .alloc _ typeHash value runId taint => (akHeapAlloc env.alloc typeHash value runId taint s).1
  | .write ptr patch expectedVersion => (akHeapWrite env.write ptr patch expectedVersion s).1
  | .delete ptr expectedVersion => (akHeapDelete env.delete ptr expectedVersion s).1

def txnApply (env : Nat → ApplyEnv) (index : Nat) (s : HeapState) : List TxnOp → HeapState
  | [] => s
  | op :: rest => txnApply env (index + 1) (txnApplyOp (env index) s op) rest

def akHeapTxnCommit (env : Nat → ApplyEnv) (txn : HeapTxn) (s : HeapState) : HeapState × Int :=
  if !txn.active then (s,-eInval)
  else if txnValidate s txn.ops ≠ 0 then (s,txnValidate s txn.ops)
  else (txnApply env 0 s txn.ops,0)

def TxnOp.target : TxnOp → Option UInt64
  | .alloc _ _ _ _ _ => none
  | .write ptr _ _ => some ptr
  | .delete ptr _ => some ptr

theorem saveVersion_frame (env : SaveEnv) (ptr version : UInt64) (value : Bytes) (s : HeapState) :
    saveVersion env ptr version value s =
      { s with
        history := (saveVersion env ptr version value s).history
        bytesVersions := (saveVersion env ptr version value s).bytesVersions
        versionCount := (saveVersion env ptr version value s).versionCount } := by
  unfold saveVersion
  split
  · rfl
  · dsimp only
    split <;> rfl

end AuthorityKernel.Heap
