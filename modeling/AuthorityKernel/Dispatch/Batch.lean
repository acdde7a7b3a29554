import AuthorityKernel.Heap.Atomicity
import AuthorityKernel.Heap.Interleaving
import AuthorityKernel.Dispatch.Grant

/-! The BATCH operation on top of heap transactions: the handler queues at most `maxOps`
elements of the request's array, one operation each, and commits the queue. -/
namespace AuthorityKernel.Dispatch
open Library Capability Heap Json

def elementOp (queue : QueueEnv) (runId : TokenId) (taint : Taint) (provisional : UInt64) (element : Bytes) :
    Option TxnOp :=
  (akJsonExtractString (some element) "op" 16).bind fun opType =>
    if cstr opType = ascii "alloc" then
      some (.alloc provisional (akJsonExtractU64 (some element) "type") (cloned queue element) runId taint)
    else if cstr opType = ascii "write" then
      some (.write (akJsonExtractU64 (some element) "ptr") (cloned queue element)
        (akJsonExtractU64 (some element) "version"))
    else if cstr opType = ascii "delete" then
      some (.delete (akJsonExtractU64 (some element) "ptr") (akJsonExtractU64 (some element) "version"))
    else none

variable {answer : AkResponse} {ops : Bytes} {heap : HeapState} {txn : HeapTxn} {queue : QueueEnv} {taint : Taint}
  {runId : TokenId} {ptr version : UInt64}

theorem txnAlloc_ok {typeHash : UInt64} {value : Bytes}
    (ok : (akHeapTxnAlloc queue typeHash value runId taint heap txn).2 ≠ 0) :
    (akHeapTxnAlloc queue typeHash value runId taint heap txn).1 =
      { txn with ops := txn.ops ++ [.alloc (heap.nextPtr + UInt64.ofNat txn.ops.length) typeHash (cloned queue value)
          runId taint] } := by
  unfold akHeapTxnAlloc at ok ⊢
  split at ok
  · exact absurd rfl ok
  · rename_i queues
    rw [if_neg queues]

theorem txnWrite_ok {patch : Bytes} (ok : (akHeapTxnWrite queue ptr patch version txn).2 = 0) :
    (akHeapTxnWrite queue ptr patch version txn).1 =
      { txn with ops := txn.ops ++ [.write ptr (cloned queue patch) version] } := by
  unfold akHeapTxnWrite at ok ⊢
  split at ok
  · exact absurd ok (show -eInval ≠ 0 by decide)
  split at ok
  · exact absurd ok (show -eNomem ≠ 0 by decide)
  rename_i active queues
  rw [if_neg active,if_neg queues]

theorem txnDelete_ok (ok : (akHeapTxnDelete queue ptr version txn).2 = 0) :
    (akHeapTxnDelete queue ptr version txn).1 = { txn with ops := txn.ops ++ [.delete ptr version] } := by
  unfold akHeapTxnDelete at ok ⊢
  split at ok
  · exact absurd ok (show -eInval ≠ 0 by decide)
  split at ok
  · exact absurd ok (show -eNomem ≠ 0 by decide)
  rename_i active queues
  rw [if_neg active,if_neg queues]

theorem batchOp_queues {element : Bytes} {queued : HeapTxn × UInt64}
    (ok : batchOp queue runId taint heap element txn = .ok queued) :
    queued.1.active = txn.active ∧
      ∃ op, elementOp queue runId taint (heap.nextPtr + UInt64.ofNat txn.ops.length) element = some op ∧
        queued.1.ops = txn.ops ++ [op] := by
  unfold batchOp at ok
  unfold elementOp
  split at ok
  · simp at ok
  rename_i opType named
  simp only [named,Option.bind_some]
  split at ok
  · rename_i isAlloc
    rw [if_pos isAlloc]
    obtain ⟨given,ok⟩ := Guards.passed ok nofun
    rw [Except.ok.injEq] at ok
    rw [← ok,txnAlloc_ok given]
    exact ⟨rfl,_,rfl,rfl⟩
  rename_i notAlloc
  split at ok
  · rename_i isWrite
    rw [if_neg notAlloc,if_pos isWrite]
    obtain ⟨given,ok⟩ := Guards.passed ok nofun
    rw [Except.ok.injEq] at ok
    rw [← ok,txnWrite_ok (not_not.mp given)]
    exact ⟨rfl,_,rfl,rfl⟩
  rename_i notWrite
  obtain ⟨isDelete,ok⟩ := Guards.entered ok nofun
  rw [if_neg notAlloc,if_neg notWrite,if_pos isDelete]
  obtain ⟨given,ok⟩ := Guards.passed ok nofun
  rw [Except.ok.injEq] at ok
  rw [← ok,txnDelete_ok (not_not.mp given)]
  exact ⟨rfl,_,rfl,rfl⟩

structure Queued (queue : Nat → QueueEnv) (runId : TokenId) (taint : Taint) (heap : HeapState) (ops : Bytes)
    (limit : Nat) (txn : HeapTxn) : Prop where
  elements : ∀ place op, txn.ops[place]? = some op → ∃ element, akJsonArrayElement ops place = some element ∧
    elementOp (queue place) runId taint (heap.nextPtr + UInt64.ofNat place) element = some op
  within : txn.ops.length ≤ limit
  stops : txn.ops.length = limit ∨ akJsonArrayElement ops txn.ops.length = none

theorem batchLoop_queued (queue : Nat → QueueEnv) (runId : TokenId) (taint : Taint) (heap : HeapState) (ops : Bytes)
    (turns : Nat) (txn : HeapTxn) (results : List UInt64) (done : HeapTxn × List UInt64)
    (ended : batchLoop queue runId taint heap ops txn.ops.length txn results turns = .ok done)
    (earlier : ∀ place op, txn.ops[place]? = some op → ∃ element, akJsonArrayElement ops place = some element ∧
      elementOp (queue place) runId taint (heap.nextPtr + UInt64.ofNat place) element = some op) :
    done.1.active = txn.active ∧ Queued queue runId taint heap ops (txn.ops.length + turns) done.1 := by
  induction turns generalizing txn results with
  | zero =>
    rw [batchLoop,Except.ok.injEq] at ended
    subst ended
    exact ⟨rfl,earlier,Nat.le_refl _,Or.inl rfl⟩
  | succ turns ih =>
    rw [batchLoop] at ended
    split at ended
    · rename_i missing
      rw [Except.ok.injEq] at ended
      subst ended
      exact ⟨rfl,earlier,Nat.le_add_right _ _,Or.inr missing⟩
    rename_i element present
    split at ended
    · simp at ended
    rename_i queued ok
    obtain ⟨active,op,asked,longer⟩ := batchOp_queues ok
    have count : queued.1.ops.length = txn.ops.length + 1 := by simp [longer]
    rw [← count] at ended
    have known : ∀ place listed, queued.1.ops[place]? = some listed →
        ∃ element, akJsonArrayElement ops place = some element ∧
          elementOp (queue place) runId taint (heap.nextPtr + UInt64.ofNat place) element = some listed := by
      intro place listed found
      rw [longer,List.getElem?_append] at found
      split at found
      · exact earlier place listed found
      rename_i atLeast
      obtain ⟨offset,bound⟩ := List.getElem?_eq_some_iff.mp found
      have last : place = txn.ops.length := by
        simp only [List.length_singleton] at offset
        omega
      subst last
      simp only [Nat.sub_self,List.getElem_cons_zero] at bound
      exact ⟨element,present,bound ▸ asked⟩
    obtain ⟨sameActive,final⟩ := ih queued.1 _ ended known
    rw [show txn.ops.length + (turns + 1) = queued.1.ops.length + turns by omega]
    exact ⟨sameActive.trans active,final⟩

theorem elementAt_none_succ (index : Nat) (elements : Bytes) (missing : elementAt elements index = none) :
    elementAt elements (index + 1) = none := by
  induction index generalizing elements with
  | zero | succ =>
    unfold elementAt at missing ⊢
    repeat' split at missing
    all_goals simp_all

theorem akJsonArrayElement_none_of_le {first later : Nat} (missing : akJsonArrayElement ops first = none)
    (after : first ≤ later) : akJsonArrayElement ops later = none := by
  induction later, after using Nat.le_induction with
  | base => exact missing
  | succ later after ih =>
    unfold akJsonArrayElement at ih ⊢
    split at ih
    · rfl
    · exact elementAt_none_succ later _ ih

section Handler

variable (env : HandlerEnv) (k : Kernel) (index : Nat) (ctx : AgentContext) (req : AkRequest)

def batchQueue (ops : Bytes) : Except Int (HeapTxn × List UInt64) :=
  batchLoop env.batch.queue ctx.runId req.taint k.heap ops 0 ⟨[],true⟩ [] maxOps

structure BatchAnswers : Prop where
  ready : k.heap.initialized = true
  txnAlloc : env.batch.txnAlloc = true
  resultsAlloc : env.batch.resultsAlloc = true
  resultAlloc : env.resultAlloc = true
  responseAlloc : env.responseAlloc = true

/-- A success response stands for every element: each one was queued, and the whole queue
took effect. -/
def BatchApplied : Prop :=
  ∀ answer, (akHandleBatch env k index ctx req).2 = some answer → answer.status = .ok →
    ∃ ops queued, req.args.bind opsArray = some ops ∧ batchQueue env k ctx req ops = .ok queued ∧
      AppliedInOrder env.batch.apply (akHandleBatch env k index ctx req).1.heap 0 k.heap queued.1.ops ∧
      ∀ place element, akJsonArrayElement ops place = some element → ∃ op, queued.1.ops[place]? = some op ∧
        elementOp (env.batch.queue place) ctx.runId req.taint (k.heap.nextPtr + UInt64.ofNat place) element = some op

theorem fail_not_ok {code : Int} (given : (fail env k req code).2 = some answer) :
    answer.status = .error := by
  obtain ⟨-,given⟩ := Guards.entered given nofun
  cases given
  rfl

theorem akHandleBatch_ok (given : (akHandleBatch env k index ctx req).2 = some answer) (ok : answer.status = .ok) :
    BatchAnswers env k ∧ ∃ ops queued, req.args.bind opsArray = some ops ∧
      batchQueue env k ctx req ops = .ok queued ∧ txnValidate k.heap queued.1.ops = 0 := by
  have refused : ∀ kernel code, (fail env kernel req code).2 = some answer → False := by
    intro kernel code failed
    rw [fail_not_ok env kernel req failed] at ok
    exact absurd ok (by decide)
  unfold akHandleBatch at given
  split at given
  · exact absurd given (refused k _)
  rename_i args present
  split at given
  · exact absurd given (refused k _)
  rename_i txn began
  have opened : txn = ⟨[],true⟩ ∧ k.heap.initialized = true ∧ env.batch.txnAlloc = true := by
    unfold akHeapTxnBegin at began
    grind
  obtain ⟨rfl,ready,txnAlloc⟩ := opened
  split at given
  · exact absurd given (refused k _)
  rename_i ops listed
  split at given
  · exact absurd given (refused k _)
  rename_i resultsAlloc
  split at given
  · exact absurd given (refused k _)
  rename_i queued looped
  dsimp only at given
  split at given
  · exact absurd given (refused _ _)
  rename_i committed
  have reported : env.resultAlloc = true ∧ env.responseAlloc = true := by
    unfold reply at given
    split at given
    · rename_i resultAlloc
      refine ⟨resultAlloc,?_⟩
      simp only [succeed,akResponseSuccess] at given
      split at given
      · assumption
      · simp at given
    · exact absurd given (refused _ _)
  refine ⟨⟨ready,txnAlloc,by simpa using resultsAlloc,reported.1,reported.2⟩,ops,queued,?_,looped,?_⟩
  · rw [present,Option.bind_some,listed]
  · exact ((akHeapTxnCommit_eq_zero _ _ _).mp (not_not.mp committed)).2

theorem akHandleBatch_commits {queued : HeapTxn × List UInt64} (answers : BatchAnswers env k)
    (listed : req.args.bind opsArray = some ops) (looped : batchQueue env k ctx req ops = .ok queued)
    (active : queued.1.active = true) (valid : txnValidate k.heap queued.1.ops = 0) :
    (akHandleBatch env k index ctx req).1.heap = txnApply env.batch.apply 0 k.heap queued.1.ops ∧
      ∃ answer, (akHandleBatch env k index ctx req).2 = some answer ∧ answer.status = .ok := by
  obtain ⟨ready,txnAlloc,resultsAlloc,resultAlloc,responseAlloc⟩ := answers
  obtain ⟨args,present,listed⟩ := Option.bind_eq_some_iff.mp listed
  have began : akHeapTxnBegin env.batch.txnAlloc k.heap = some ⟨[],true⟩ := by
    simp [akHeapTxnBegin,ready,txnAlloc]
  have committed : akHeapTxnCommit env.batch.apply queued.1 k.heap =
      (txnApply env.batch.apply 0 k.heap queued.1.ops,0) := by
    simp [akHeapTxnCommit,active,valid]
  unfold batchQueue at looped
  constructor
  · simp only [akHandleBatch,present,began,listed,resultsAlloc,looped,committed,Bool.not_true,Bool.false_eq_true,
      if_false,ne_eq,not_true,reply_kernel]
    split <;> rfl
  · simp only [akHandleBatch,present,began,listed,resultsAlloc,looped,committed,Bool.not_true,Bool.false_eq_true,
      if_false,ne_eq,not_true,reply,resultAlloc,if_true,succeed,akResponseSuccess,responseAlloc]
    exact ⟨_,rfl,rfl⟩

theorem batchApplied_iff : BatchApplied env k index ctx req ↔
    (BatchAnswers env k → ∀ ops queued, req.args.bind opsArray = some ops → batchQueue env k ctx req ops = .ok queued →
      txnValidate k.heap queued.1.ops = 0 →
        Independent env.batch.apply k.heap queued.1.ops ∧ akJsonArrayElement ops maxOps = none) := by
  have looped : ∀ ops queued, batchQueue env k ctx req ops = .ok queued → queued.1.active = true ∧
      Queued env.batch.queue ctx.runId req.taint k.heap ops maxOps queued.1 := by
    intro ops queued made
    have final := batchLoop_queued env.batch.queue ctx.runId req.taint k.heap ops maxOps ⟨[],true⟩ [] queued made
      (by simp)
    rwa [List.length_nil,Nat.zero_add] at final
  constructor
  · intro promise answers ops queued listed made valid
    obtain ⟨active,whole⟩ := looped ops queued made
    obtain ⟨heap,answer,given,ok⟩ := akHandleBatch_commits env k index ctx req answers listed made active valid
    obtain ⟨ops',queued',listed',made',applied,every⟩ := promise answer given ok
    rw [listed,Option.some.injEq] at listed'
    subst listed'
    rw [made,Except.ok.injEq] at made'
    subst made'
    rw [heap,appliedInOrder_iff_independent _ valid] at applied
    refine ⟨applied,?_⟩
    cases further : akJsonArrayElement ops maxOps with
    | none => rfl
    | some element =>
      obtain ⟨op,found,-⟩ := every maxOps element further
      have longer := (List.getElem?_eq_some_iff.mp found).1
      exact absurd longer (Nat.not_lt.mpr whole.within)
  · intro harmless answer given ok
    obtain ⟨answers,ops,queued,listed,made,valid⟩ := akHandleBatch_ok env k index ctx req given ok
    obtain ⟨active,whole⟩ := looped ops queued made
    obtain ⟨independent,last⟩ := harmless answers ops queued listed made valid
    have heap := (akHandleBatch_commits env k index ctx req answers listed made active valid).1
    refine ⟨ops,queued,listed,made,?_,?_⟩
    · rw [heap,appliedInOrder_iff_independent _ valid]
      exact independent
    · intro place element present
      have within : place < queued.1.ops.length := by
        by_contra beyond
        have gone : akJsonArrayElement ops place = none := by
          rcases whole.stops with limit | missing
          · exact akJsonArrayElement_none_of_le last (by omega)
          · exact akJsonArrayElement_none_of_le missing (by omega)
        simp [gone] at present
      have found := List.getElem?_eq_getElem within
      obtain ⟨element',present',asked⟩ := whole.elements place _ found
      rw [present,Option.some.injEq] at present'
      exact ⟨_,found,present' ▸ asked⟩

end Handler

/-- Commits and batches are all or nothing exactly on independent queues. -/
theorem transactions_atomic_iff (apply : Nat → ApplyEnv) (txn : HeapTxn) (s : HeapState) (env : HandlerEnv)
    (k : Kernel) (index : Nat) (ctx : AgentContext) (req : AkRequest) :
    (Atomic apply txn s ↔ (txn.active = true → txnValidate s txn.ops = 0 → Independent apply s txn.ops)) ∧
      (BatchApplied env k index ctx req ↔ (BatchAnswers env k → ∀ ops queued, req.args.bind opsArray = some ops →
        batchQueue env k ctx req ops = .ok queued → txnValidate k.heap queued.1.ops = 0 →
          Independent env.batch.apply k.heap queued.1.ops ∧ akJsonArrayElement ops maxOps = none)) :=
  ⟨atomic_iff_independent apply txn s,batchApplied_iff env k index ctx req⟩

def oneObject : HeapState := callStep akHeapInit blankAlloc

def deletedTwice : HeapTxn := ⟨[.delete 1 1,.delete 1 1],true⟩

/-- Both deletes pass the check, the second one fails unnoticed. -/
theorem double_delete_commits : (akHeapTxnCommit (fun _ => plainApply) deletedTwice oneObject).2 = 0 ∧
    ¬Atomic (fun _ => plainApply) deletedTwice oneObject := by
  have valid : txnValidate oneObject deletedTwice.ops = 0 := by decide +kernel
  refine ⟨(akHeapTxnCommit_eq_zero _ _ _).mpr ⟨rfl,valid⟩,?_⟩
  rw [atomic_iff_independent]
  intro independent
  have distinct := (independent rfl valid).targets
  exact absurd distinct (by decide)

end AuthorityKernel.Dispatch
