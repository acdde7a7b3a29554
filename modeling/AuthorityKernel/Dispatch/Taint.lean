import AuthorityKernel.Heap.Patch
import AuthorityKernel.Heap.Provenance
import AuthorityKernel.Dispatch.Batch
import AuthorityKernel.Dispatch.PolicyBudget

/-! The taint of requests and of what they leave in the heap. What a request does to the heap
is a list of heap operations; an allocation hands the taint of the request on to its object, a
write does not. -/
namespace AuthorityKernel.Dispatch
open Library Library.Run Capability Policy Heap Json

structure Applied where
  env : Nat → ApplyEnv
  ops : List TxnOp

def Applied.heap (applied : Applied) (s : HeapState) : HeapState := txnApply applied.env 0 s applied.ops

def batchOps (env : BatchEnv) (runId : TokenId) (heap : HeapState) (req : AkRequest) : List TxnOp :=
  match req.args.bind opsArray with
  | none => []
  | some ops =>
      match batchLoop env.queue runId req.taint heap ops 0 ⟨[],true⟩ [] maxOps with
      | .error _ => []
      | .ok queued =>
          if heap.initialized && env.txnAlloc && env.resultsAlloc && txnValidate heap queued.1.ops == 0 then
            queued.1.ops
          else []

def handlerOps (env : HandlerEnv) (runId : TokenId) (heap : HeapState) (req : AkRequest) : SysOp → List TxnOp
  | .alloc =>
      match req.args with
      | none => []
      | some value => [.alloc heap.nextPtr (akJsonExtractU64 req.args "type") (some value) runId req.taint]
  | .write =>
      if req.args.isNone then []
      else [.write (akJsonExtractU64 req.args "ptr") req.args (akJsonExtractU64 req.args "version")]
  | .delete =>
      if req.args.isNone ∨ akJsonExtractU64 req.args "ptr" = 0 ∨ akJsonExtractU64 req.args "version" = 0 then []
      else [.delete (akJsonExtractU64 req.args "ptr") (akJsonExtractU64 req.args "version")]
  | .batch => batchOps env.batch runId heap req
  | _ => []

def handlerEnvs (env : HandlerEnv) : SysOp → Nat → ApplyEnv
  | .batch => env.batch.apply
  | _ => fun _ => ⟨env.alloc,env.write,env.delete⟩

def changesValues (op : SysOp) : Bool := op == .alloc || op == .write || op == .batch || op == .delete

section Handlers

variable (env : HandlerEnv) (k : Kernel) (index : Nat) (ctx : AgentContext) (req : AkRequest)

theorem akHandleBatch_heap :
    (akHandleBatch env k index ctx req).1.heap =
      txnApply env.batch.apply 0 k.heap (batchOps env.batch ctx.runId k.heap req) := by
  unfold akHandleBatch batchOps
  cases req.args with
  | none => rfl
  | some args =>
    dsimp only [Option.bind_some]
    cases listed : opsArray args with
    | none =>
      split
      · rfl
      · rfl
    | some ops =>
      dsimp only
      cases looped : batchLoop env.batch.queue ctx.runId req.taint k.heap ops 0 ⟨[],true⟩ [] maxOps with
      | error code =>
        split
        · rfl
        rename_i txn began
        have opened : txn = ⟨[],true⟩ := by
          unfold akHeapTxnBegin at began
          grind
        rw [opened,looped]
        split <;> rfl
      | ok queued =>
        have active := (batchLoop_queued env.batch.queue ctx.runId req.taint k.heap ops maxOps ⟨[],true⟩ [] queued looped
          (by simp)).1
        by_cases memory : k.heap.initialized = true ∧ env.batch.txnAlloc = true
        · have began : akHeapTxnBegin env.batch.txnAlloc k.heap = some ⟨[],true⟩ := by
            simp [akHeapTxnBegin,memory.1,memory.2]
          rw [began]
          simp only [looped,memory.1,memory.2,Bool.true_and]
          cases env.batch.resultsAlloc with
          | false => rfl
          | true =>
            simp only [akHeapTxnCommit,active]
            by_cases valid : txnValidate k.heap queued.1.ops = 0
            · simp only [valid,Bool.not_true,Bool.false_eq_true,if_false,ne_eq,not_true_eq_false,reply_kernel,
                Bool.true_and,beq_self_eq_true,if_true]
              split <;> rfl
            · simp [valid,txnApply]
        · have refused : akHeapTxnBegin env.batch.txnAlloc k.heap = none := by
            unfold akHeapTxnBegin
            grind
          have short : ¬(k.heap.initialized && env.batch.txnAlloc && env.batch.resultsAlloc &&
              txnValidate k.heap queued.1.ops == 0) = true := by
            simp only [Bool.and_eq_true]
            exact fun all => memory all.1.1
          rw [refused]
          dsimp only
          rw [if_neg short]
          rfl

theorem handle_heap (op : SysOp) (changes : changesValues op = true) :
    (handle env k index ctx req op).1.heap =
      txnApply (handlerEnvs env op) 0 k.heap (handlerOps env ctx.runId k.heap req op) := by
  cases op with
  | alloc | write =>
    simp only [handle,akHandleAlloc,akHandleWrite,handlerOps]
    cases req.args with
    | none => rfl
    | some value =>
      dsimp only
      split
      · rfl
      · rw [reply_kernel]
        rfl
  | delete =>
    simp only [handle,akHandleDelete,handlerOps]
    cases req.args with
    | none => rfl
    | some args =>
      simp only [Option.isNone_some,Bool.false_eq_true,false_or]
      split
      · rfl
      split
      · rfl
      rw [reply_kernel]
      rfl
  | batch => exact akHandleBatch_heap env k index ctx req
  | _ => simp [changesValues] at changes

theorem handlerOps_carry (op : SysOp) :
    ∀ queued ∈ handlerOps env ctx.runId k.heap req op, queued.carries req.taint := by
  intro queued member
  cases op with
  | alloc =>
    simp only [handlerOps] at member
    split at member
    · simp at member
    · rw [List.mem_singleton.mp member]
      rfl
  | write | delete =>
    simp only [handlerOps] at member
    split at member
    · simp at member
    · rw [List.mem_singleton.mp member]
      trivial
  | batch =>
    simp only [handlerOps,batchOps] at member
    split at member
    · simp at member
    rename_i ops _
    split at member
    · simp at member
    rename_i made looped
    split at member
    · obtain ⟨place,inside,there⟩ := List.mem_iff_getElem.mp member
      have whole := (batchLoop_queued env.batch.queue ctx.runId req.taint k.heap ops maxOps ⟨[],true⟩ [] made looped
        (by simp)).2
      obtain ⟨element,-,asked⟩ := whole.elements place queued (there ▸ List.getElem?_eq_getElem inside)
      obtain ⟨opType,-,chosen⟩ := Option.bind_eq_some_iff.mp asked
      split at chosen
      · cases chosen
        rfl
      split at chosen
      · cases chosen
        trivial
      split at chosen
      · cases chosen
        trivial
      · simp at chosen
    · simp at member
  | _ => simp [handlerOps] at member

end Handlers

def dispatchOps (env : DispatchEnv) (k : Kernel) (context : Option Nat) (request : Option AkRequest) : Applied :=
  match k.initialized, context.bind fun index => k.contexts[index]?, request with
  | true, some ctx, some req =>
      match refusal env k ctx req, SysOp.ofCode req.op with
      | none, some op => ⟨handlerEnvs env.handler op,handlerOps env.handler ctx.runId k.heap req op⟩
      | _, _ => ⟨env.handler.batch.apply,[]⟩
  | _, _, _ => ⟨env.handler.batch.apply,[]⟩

structure ValueCall extends Call where
  changes : ∀ req op, request = some req → SysOp.ofCode req.op = some op → changesValues op = true

section Dispatch

variable {env : DispatchEnv} {k : Kernel} {context : Option Nat} {request : Option AkRequest} {index : Nat}
  {ctx : AgentContext} {req : AkRequest}

theorem dispatchOps_live (live : Live k context request index ctx req) (admissible : Admissible env k ctx req)
    {op : SysOp} (known : SysOp.ofCode req.op = some op) :
    dispatchOps env k context request =
      ⟨handlerEnvs env.handler op,handlerOps env.handler ctx.runId k.heap req op⟩ := by
  obtain ⟨ready,rfl,found,rfl⟩ := live
  simp only [dispatchOps,ready,Option.bind_some,found,refusal_none_iff.mpr admissible,known]

theorem dispatchOps_refused (live : Live k context request index ctx req)
    (inadmissible : ¬Admissible env k ctx req) : (dispatchOps env k context request).ops = [] := by
  obtain ⟨ready,rfl,found,rfl⟩ := live
  obtain ⟨_,refused⟩ := refusal_some inadmissible
  simp only [dispatchOps,ready,Option.bind_some,found,refused]

theorem dispatchOps_dead (dead : ¬∃ index ctx req, Live k context request index ctx req) :
    (dispatchOps env k context request).ops = [] := by
  unfold dispatchOps
  split
  · rename_i ctx req ready located
    obtain ⟨index,named,found⟩ := Option.bind_eq_some_iff.mp located
    exact absurd ⟨index,ctx,req,ready,named,found,rfl⟩ dead
  · rfl

theorem akDispatch_heap (changes : ∀ req op, request = some req → SysOp.ofCode req.op = some op → changesValues op = true) :
    (akDispatch env k context request).kernel.heap = (dispatchOps env k context request).heap k.heap := by
  by_cases alive : ∃ index ctx req, Live k context request index ctx req
  · obtain ⟨index,ctx,req,live⟩ := alive
    rw [akDispatch_live live]
    rw [(akLogOperation_untouched _ _ _ _ _).heap]
    by_cases admissible : Admissible env k ctx req
    · obtain ⟨op,known,-⟩ := @executed_admitted _ _ index _ _ admissible
      rw [executed_run admissible known,dispatchOps_live live admissible known]
      rw [handle_heap _ _ _ _ _ op (changes req op live.request known),(checked_untouched live.found).heap]
      obtain ⟨tracker,replayed⟩ := akCheckReplay_kept ctx req
      rw [replayed]
      cases op <;> rfl
    · rw [(executed_refused live.found admissible).2.1.heap,Applied.heap,dispatchOps_refused live admissible]
      rfl
  · rw [akDispatch_dead alive,Applied.heap,dispatchOps_dead alive]
    rfl

theorem dispatchOps_carry (req : AkRequest) (given : request = some req) :
    ∀ op ∈ (dispatchOps env k context request).ops, op.carries req.taint := by
  intro op member
  unfold dispatchOps at member
  split at member
  · rename_i ctx req' ready located
    split at member
    · rw [← Option.some.inj given]
      exact handlerOps_carry env.handler k ctx req' _ op member
    · simp at member
  · simp at member

end Dispatch

structure Traced where
  kernel : Kernel
  origins : Origins

inductive TracedCall
  | request (call : ValueCall)
  | sanitize (clock ptr : UInt64) (newTaint : Taint) (expectedVersion : UInt64)

def tracedStep (t : Traced) : TracedCall → Traced
  | .request call =>
      let applied := dispatchOps call.env t.kernel call.context call.request
      ⟨dispatchStep t.kernel call.toCall,
        match call.request with
        | none => t.origins
        | some req => traceOps applied.env req.taint 0 t.kernel.heap t.origins applied.ops⟩
  | .sanitize clock ptr newTaint expectedVersion =>
      ⟨{ t.kernel with heap := (akHeapSetTaintSanitized clock ptr newTaint expectedVersion t.kernel.heap).1 },
        noteSanitized clock ptr newTaint expectedVersion t.kernel.heap t.origins⟩

theorem tracedStep_admissible {t : Traced} {call : ValueCall} {index : Nat} {ctx : AgentContext} {req : AkRequest}
    (live : Live t.kernel call.context call.request index ctx req) (admissible : Admissible call.env t.kernel ctx req)
    (op : SysOp) (known : SysOp.ofCode req.op = some op) :
    (tracedStep t (.request call)).kernel.heap = txnApply (handlerEnvs call.env.handler op) 0 t.kernel.heap
        (handlerOps call.env.handler ctx.runId t.kernel.heap req op) ∧
      (tracedStep t (.request call)).origins = traceOps (handlerEnvs call.env.handler op) req.taint 0 t.kernel.heap
        t.origins (handlerOps call.env.handler ctx.runId t.kernel.heap req op) := by
  have asked := dispatchOps_live live admissible known
  constructor
  · rw [tracedStep,dispatchStep,akDispatch_heap call.changes,asked,Applied.heap]
  · simp only [tracedStep,asked]
    rw [live.request]

/-- What a request with untrusted taint produced is untrusted until it is sanitised. -/
def TaintPropagated (t : Traced) : Prop := TaintsKept t.kernel.heap t.origins

/-- A request with untrusted taint writes to objects that are untrusted already. -/
def CarriesTaint (t : Traced) : TracedCall → Prop
  | .request call => ∀ req, call.request = some req → req.taint = .untrusted →
      ∀ op ∈ (dispatchOps call.env t.kernel call.context call.request).ops, WritesUntrusted t.kernel.heap op
  | .sanitize _ _ _ _ => True

theorem tracedStep_propagated (t : Traced) (call : TracedCall) (carries : CarriesTaint t call)
    (propagated : TaintPropagated t) : TaintPropagated (tracedStep t call) := by
  cases call with
  | request call =>
    unfold TaintPropagated tracedStep dispatchStep
    dsimp only
    rw [akDispatch_heap call.changes]
    cases given : call.request with
    | none =>
      have nothing : (dispatchOps call.env t.kernel call.context none).ops = [] := by
        unfold dispatchOps
        split
        · rename_i found
          cases found
        · rfl
      rw [Applied.heap,nothing]
      exact propagated
    | some req =>
      have kept := txnApply_taintsKept (dispatchOps call.env t.kernel call.context call.request).env req.taint _ 0
        t.kernel.heap t.origins (dispatchOps_carry req given) (carries req given) propagated
      rw [given] at kept
      exact kept
  | sanitize clock ptr newTaint expectedVersion =>
    exact akHeapSetTaintSanitized_taintsKept clock ptr newTaint expectedVersion propagated

/-- Taint is propagated in every state of a run in which untrusted requests write only to
untrusted objects. -/
theorem taint_propagated_run (start : Kernel) (calls : List TracedCall)
    (carries : Guarded tracedStep CarriesTaint ⟨start,fun _ => none⟩ calls) :
    Throughout tracedStep TaintPropagated ⟨start,fun _ => none⟩ calls := by
  apply throughout_of_guarded tracedStep_propagated _ calls carries
  intro ptr object found marked
  cases marked

def patchingDispatch : DispatchEnv :=
  { plainDispatch with
    handler := { plainHandler with write := { plainApply.write with patch := akJsonPatchApply fun _ => true } } }

def writeRequest : AkRequest :=
  { askRequest .write (ascii ("\x7b\"ptr\": 1, \"version\": 1, \"patch\": " ++
      "[\x7b\"op\": \"replace\", \"path\": \"\", \"value\": 7\x7d]\x7d")) 2 with taint := .untrusted }

def writeCall : ValueCall where
  env := patchingDispatch
  context := some 0
  request := some writeRequest
  changes req op given known := by
    cases given
    cases known
    rfl

section Write

variable (trusted : Bool)

def allocRequest : AkRequest :=
  { askRequest .alloc (ascii "\x7b\x7d") 1 with taint := if trusted then .trusted else .untrusted }

def allocCall : ValueCall where
  env := patchingDispatch
  context := some 0
  request := some (allocRequest trusted)
  changes req op given known := by
    cases given
    cases known
    rfl

theorem alloc_keepsCaps (env : HandlerEnv) : KeepsCaps env .alloc := by
  intro k index ctx req
  simp only [handle,akHandleAlloc]
  split
  · exact ⟨rfl,rfl⟩
  split
  · exact ⟨rfl,rfl⟩
  rw [reply_kernel]
  exact ⟨rfl,rfl⟩

def allocOps : List TxnOp :=
  handlerOps patchingDispatch.handler (Block.zero 16) akHeapInit (allocRequest trusted) .alloc

def allocated : HeapState := txnApply (handlerEnvs patchingDispatch.handler .alloc) 0 akHeapInit (allocOps trusted)

def writeOps : List TxnOp :=
  handlerOps patchingDispatch.handler (Block.zero 16) (allocated trusted) writeRequest .write

theorem writeOps_eq : writeOps trusted = [.write 1 writeRequest.args 1] := by
  have target : akJsonExtractU64 writeRequest.args "ptr" = 1 := by decide +kernel
  have version : akJsonExtractU64 writeRequest.args "version" = 1 := by decide +kernel
  have given : writeRequest.args.isNone = false := rfl
  simp only [writeOps,handlerOps,given,Bool.false_eq_true,if_false,target,version]

theorem written_marked (origins : Origins) :
    traceOps (handlerEnvs patchingDispatch.handler .write) .untrusted 0 (allocated trusted) origins (writeOps trusted) 1 =
      some .untrusted := by
  have succeeds : (akHeapWrite patchingDispatch.handler.write 1 writeRequest.args 1 (allocated trusted)).2.isOk = true := by
    cases trusted <;> decide +kernel
  rw [writeOps_eq]
  simp only [traceOps,noteOrigin,handlerEnvs,succeeds,if_true,Function.update_self]

theorem allocCall_ready :
    dispatchOps patchingDispatch (opened (some emptyPolicy)) (some 0) (some (allocRequest trusted)) =
        ⟨handlerEnvs patchingDispatch.handler .alloc,allocOps trusted⟩ ∧
      Ready emptyPolicy 1 (dispatchStep (opened (some emptyPolicy)) (allocCall trusted).toCall) ∧
      (dispatchStep (opened (some emptyPolicy)) (allocCall trusted).toCall).heap = allocated trusted := by
  have heap : (opened (some emptyPolicy)).heap = akHeapInit := by
    rw [opened_eq]
    rfl
  have ready := opened_ready emptyPolicy
  have passes : Asked emptyPolicy 0 (opened (some emptyPolicy)) patchingDispatch (allocRequest trusted) .alloc := by
    refine ⟨rfl,⟨rfl,rfl⟩,rfl,SysOp.ofCode_code .alloc,⟨_,_,_,rfl⟩,fun ctx found _ => ?_⟩
    rw [opened_eq] at found
    cases found
    cases trusted <;> decide +kernel
  obtain ⟨ctx,live,_,_,run,_,_,admissible,_⟩ := ready.admissible passes Nat.one_pos
  have asked : dispatchOps patchingDispatch (opened (some emptyPolicy)) (some 0) (some (allocRequest trusted)) =
      ⟨handlerEnvs patchingDispatch.handler .alloc,allocOps trusted⟩ := by
    rw [dispatchOps_live live admissible (SysOp.ofCode_code .alloc),run,heap]
    rfl
  refine ⟨asked,(ready.step passes rfl (alloc_keepsCaps _)).2,?_⟩
  rw [dispatchStep]
  refine (akDispatch_heap (allocCall trusted).changes).trans ?_
  rw [allocCall,asked,heap]
  rfl

/-- The write behind the allocation leaves the taint of its object as it is. -/
theorem writeCall_step :
    let t := tracedStep ⟨opened (some emptyPolicy),fun _ => none⟩ (.request (allocCall trusted))
    t.kernel.heap = allocated trusted ∧
      (dispatchOps patchingDispatch t.kernel (some 0) (some writeRequest)).ops = writeOps trusted ∧
      (tracedStep t (.request writeCall)).kernel.heap =
        txnApply (handlerEnvs patchingDispatch.handler .write) 0 (allocated trusted) (writeOps trusted) ∧
      (tracedStep t (.request writeCall)).origins 1 = some .untrusted := by
  intro t
  obtain ⟨_,ready,heap⟩ := allocCall_ready trusted
  have same : t.kernel.heap = allocated trusted := heap
  have passes : Asked emptyPolicy 1 t.kernel patchingDispatch writeRequest .write := by
    refine ⟨rfl,⟨rfl,rfl⟩,rfl,SysOp.ofCode_code .write,⟨_,_,_,rfl⟩,fun ctx _ underway => ?_⟩
    obtain ⟨tracker,held,_⟩ := underway.counters
    rw [held]
    rfl
  obtain ⟨ctx,live,_,_,run,_,_,admissible,_⟩ := ready.admissible passes (by decide)
  have asked := dispatchOps_live live admissible (SysOp.ofCode_code .write)
  obtain ⟨heapAfter,originsAfter⟩ := @tracedStep_admissible t writeCall 0 ctx _ live admissible .write
    (SysOp.ofCode_code .write)
  rw [run,same] at heapAfter originsAfter
  refine ⟨same,?_,heapAfter,?_⟩
  · rw [show dispatchOps _ t.kernel _ _ = _ from asked,run,heap]
    rfl
  · rw [originsAfter]
    exact written_marked trusted _

end Write

/-- An untrusted request writes to the object another one allocated. -/
theorem untrusted_write_carries_taint :
    let start : Traced := ⟨opened (some emptyPolicy),fun _ => none⟩
    let calls := [.request (allocCall false),.request writeCall]
    Guarded tracedStep CarriesTaint start calls ∧ (run tracedStep start calls).origins 1 = some .untrusted ∧
      Throughout tracedStep TaintPropagated start calls := by
  intro start calls
  obtain ⟨heap,asked,_,marked⟩ := writeCall_step false
  have carries : Guarded tracedStep CarriesTaint start calls := by
    refine ⟨?_,?_,trivial⟩
    · rintro req ⟨⟩ _ op member
      have ops : (dispatchOps patchingDispatch start.kernel (some 0) (some (allocRequest false))).ops = allocOps false :=
        congrArg Applied.ops (allocCall_ready false).1
      have alloc : op ∈ allocOps false := ops ▸ member
      rw [List.mem_singleton.mp alloc]
      trivial
    · rintro req ⟨⟩ _ op member
      have write : op ∈ writeOps false := asked ▸ member
      rw [writeOps_eq] at write
      rw [List.mem_singleton.mp write,heap]
      have all : (findObject (allocated false) 1).all (fun object => object.taint == .untrusted) = true := by
        decide +kernel
      intro object found
      rw [found] at all
      exact eq_of_beq all
  exact ⟨carries,marked,taint_propagated_run _ _ carries⟩

/-- An untrusted request replaces the value of a trusted object, which stays trusted. -/
theorem untrusted_write_leaves_trust :
    ¬Throughout tracedStep TaintPropagated ⟨opened (some emptyPolicy),fun _ => none⟩
      [.request (allocCall true),.request writeCall] := by
  obtain ⟨_,_,heap,marked⟩ := writeCall_step true
  have stays : (findObject (txnApply (handlerEnvs patchingDispatch.handler .write) 0 (allocated true) (writeOps true)) 1).any
      (fun object => object.taint == .trusted) = true := by
    decide +kernel
  obtain ⟨object,found,taint⟩ := (Option.any_eq_true _ _).mp stays
  rintro ⟨_,_,propagated⟩
  rw [← heap] at found
  rw [propagated 1 object found marked] at taint
  cases taint

end AuthorityKernel.Dispatch
