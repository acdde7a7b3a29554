import AuthorityKernel.Dispatch.Gate

/-! What requests cost. Every handler charges the budget of its own context only, and the
charges of each operation are known from its arguments and surroundings; a new agent
starts with a fresh budget. The invariants of the counters follow from this one fact. -/
namespace AuthorityKernel.Dispatch
open Library Capability Budget Policy Heap Json

def elementCount (ops : Bytes) (index : Nat) : Nat → Nat
  | 0 => 0
  | turns + 1 => if (akJsonArrayElement ops index).isSome then elementCount ops (index + 1) turns + 1 else 0

def batchCount (args : Option Bytes) : Nat :=
  match args.bind opsArray with
  | none => 0
  | some ops => elementCount ops 0 maxOps

def chargeAll (charges : List (Resource × UInt64)) (tracker : BudgetTracker) : BudgetTracker :=
  charges.foldl (fun tracker charge => akBudgetCommit tracker charge.1 charge.2) tracker

/-- The charges an operation can make. Only calls and spawns are checked by their handler
against the counter they charge. -/
inductive Charge (env : HandlerEnv) (budget : Option BudgetTracker) (args : Option Bytes) :
    SysOp → List (Resource × UInt64) → Prop
  | nothing (op : SysOp) : Charge env budget args op []
  | alloc : Charge env budget args .alloc [(.heapObjects,1)]
  | batch : Charge env budget args .batch [(.heapObjects,UInt64.ofNat (batchCount args))]
  | call (fits : akBudgetCheck budget .toolCalls 1 = true) : Charge env budget args .call [(.toolCalls,1)]
  | spawn (fits : akBudgetCheck budget .heapObjects 1 = true) : Charge env budget args .spawn [(.heapObjects,1)]
  | inference (answer : InferenceResponse) (success : answer.success = true)
      (answered : env.inference.backend (inferenceModel args) (inferenceMaxTokens args) args = some answer) :
      Charge env budget args .inference
        [(.llmTokensIn,answer.promptTokens.toUInt64),(.llmTokensOut,answer.completionTokens.toUInt64)]

def AgentContext.charged (charges : List (Resource × UInt64)) (flight : Option Bool) (ctx : AgentContext) : AgentContext :=
  { ctx with budget := ctx.budget.map (chargeAll charges), inferHandle := flight.getD ctx.inferHandle }

@[simp] theorem map_chargeAll_nil (budget : Option BudgetTracker) : budget.map (chargeAll []) = budget := by
  cases budget <;> rfl

theorem AgentContext.charged_nothing (ctx : AgentContext) : ctx.charged [] none = ctx := by
  simp [charged]

def Newborn (child : AgentContext) : Prop := ∃ pid runId policy, child = newContext pid runId policy none

/-- What the handler of an operation leaves: its own context charged, others as they were, children added. -/
def Spends (env : HandlerEnv) (index : Nat) (ctx : AgentContext) (req : AkRequest) (op : SysOp)
    (before after : Kernel) : Prop :=
  ∃ charges flight newborn, Charge env ctx.budget req.args op charges ∧
    after.contexts = before.contexts.modify index (AgentContext.charged charges flight) ++ newborn ∧
    ∀ child ∈ newborn, Newborn child

variable {before after : Kernel} {index : Nat} {op : SysOp} {α : Type*}

section Spent
variable {env : HandlerEnv} {ctx : AgentContext} {req : AkRequest}

theorem Spends.childless {charges : List (Resource × UInt64)} (flight : Option Bool)
    (made : Charge env ctx.budget req.args op charges)
    (same : after.contexts = before.contexts.modify index (AgentContext.charged charges flight)) :
    Spends env index ctx req op before after :=
  ⟨charges,flight,[],made,by rw [same,List.append_nil],by simp⟩

theorem Spends.nothing (same : after.contexts = before.contexts) : Spends env index ctx req op before after := by
  have idle : AgentContext.charged [] none = id := funext AgentContext.charged_nothing
  exact .childless none (.nothing op) (by rw [same,idle,List.modify_id])

theorem Spends.flight (handle : Bool)
    (same : after.contexts = before.contexts.modify index fun ctx => { ctx with inferHandle := handle }) :
    Spends env index ctx req op before after := by
  have only : AgentContext.charged [] (some handle) = fun ctx => { ctx with inferHandle := handle } := by
    funext ctx
    simp [AgentContext.charged]
  exact .childless (some handle) (.nothing op) (by rw [same,only])

theorem commitBudget_contexts (k : Kernel) (index : Nat) (resource : Resource) (amount : UInt64) :
    (k.commitBudget index resource amount).contexts =
      k.contexts.modify index (AgentContext.charged [(resource,amount)] none) := rfl

theorem Spends.commit {resource : Resource} {amount : UInt64}
    (made : Charge env ctx.budget req.args op [(resource,amount)])
    (same : after.contexts = (before.commitBudget index resource amount).contexts) :
    Spends env index ctx req op before after :=
  .childless none made (same.trans (commitBudget_contexts ..))

end Spent

section Handlers
variable (env : HandlerEnv) (k : Kernel) (index : Nat) (ctx : AgentContext) (req : AkRequest)

/-- The other operations leave every context as it is. -/
theorem handle_contexts
    (other : op ∉ [.alloc,.batch,.call,.spawn,.inference,.inferIssue,.inferPoll]) :
    (handle env k index ctx req op).1.contexts = k.contexts := by
  cases op with
  | alloc | batch | call | spawn | inference | inferIssue | inferPoll => simp at other
  | query | commit | assert => exact congrArg _ (reply_kernel env k req _)
  | _ =>
    simp only [handle,akHandleRead,akHandleWrite,akHandleDelete,akHandleSend,akHandleRecv,akHandleRespond,
      akHandleBudgetStatus,akHandleBudgetHistory,akHandleBudgetBreakdown,budgetReport]
    repeat' split
    all_goals simp [Kernel.updateInbox]

theorem akHandleInferIssue_spends : Spends env index ctx req .inferIssue k (akHandleInferIssue env k index ctx req).1 := by
  unfold akHandleInferIssue
  dsimp only
  repeat' split
  all_goals first | exact .nothing rfl | exact .flight true rfl

theorem akHandleInferPoll_spends : Spends env index ctx req .inferPoll k (akHandleInferPoll env k index ctx req).1 := by
  unfold akHandleInferPoll
  repeat' split
  all_goals first | exact .nothing rfl | exact .flight false rfl

theorem akHandleAlloc_spends :
    Spends env index ctx req .alloc k (akHandleAlloc env k index ctx req).1 := by
  unfold akHandleAlloc
  dsimp only
  split
  · exact .nothing rfl
  split
  · exact .nothing rfl
  rw [reply_kernel]
  exact .commit .alloc rfl

theorem akHandleCall_spends :
    Spends env index ctx req .call k (akHandleCall env k index ctx req).1 := by
  unfold akHandleCall
  cases budget : ctx.budget with
  | none => exact .nothing rfl
  | some tracker =>
    dsimp only
    repeat' split
    any_goals exact .nothing rfl
    rename_i fits _ _ _
    exact .commit (.call (by simpa [budget] using fits)) rfl

theorem batchLoop_results (queue : Nat → QueueEnv) (runId : TokenId) (taint : Taint) (heap : HeapState) (ops : Bytes)
    (turns place : Nat) (txn : HeapTxn) (results : List UInt64) (done : HeapTxn × List UInt64)
    (ended : batchLoop queue runId taint heap ops place txn results turns = .ok done) :
    done.2.length = results.length + elementCount ops place turns := by
  induction turns generalizing place txn results with
  | zero =>
    rw [batchLoop,Except.ok.injEq] at ended
    simp [← ended,elementCount]
  | succ turns ih =>
    rw [batchLoop] at ended
    split at ended
    · rename_i missing
      rw [Except.ok.injEq] at ended
      simp [← ended,elementCount,missing]
    rename_i element present
    split at ended
    · contradiction
    · rw [ih _ _ _ ended,elementCount,present,List.length_append]
      simp only [List.length_cons,List.length_nil,Option.isSome_some,if_true]
      omega

theorem akHandleBatch_spends :
    Spends env index ctx req .batch k (akHandleBatch env k index ctx req).1 := by
  unfold akHandleBatch
  split
  · exact .nothing rfl
  rename_i args given
  split
  · exact .nothing rfl
  split
  · exact .nothing rfl
  rename_i ops listed
  split
  · exact .nothing rfl
  split
  · exact .nothing rfl
  rename_i queued ended
  have count : queued.2.length = batchCount req.args := by
    rw [batchLoop_results _ _ _ _ _ _ _ _ _ _ ended,batchCount,given,Option.bind_some,listed]
    simp
  dsimp only
  split
  · exact .nothing rfl
  rw [reply_kernel]
  split
  · refine .commit .batch ?_
    rw [count]
    rfl
  · exact .nothing rfl

theorem akInferenceComplete_spends :
    Spends env index ctx req .inference k (akInferenceComplete env k index ctx req).1 := by
  unfold akInferenceComplete
  split
  · exact .nothing rfl
  dsimp only
  split
  · exact .nothing rfl
  split
  · exact .nothing rfl
  split
  · exact .nothing rfl
  rename_i answer answered
  split
  · rename_i success
    refine .childless none (.inference answer success answered) ?_
    rw [commitBudget_contexts,commitBudget_contexts,List.modify_modify_eq]
    congr 1
    funext ctx
    cases budget : ctx.budget <;> simp [AgentContext.charged,chargeAll,budget]
  · exact .nothing rfl

theorem akHandleInference_spends :
    Spends env index ctx req .inference k (akHandleInference env k index ctx req).1 := by
  have completed := akInferenceComplete_spends env k index ctx req
  unfold akHandleInference
  dsimp only
  split
  · exact .nothing rfl
  split
  · exact completed
  split <;> exact completed

theorem modify_append_left (first second : List α) (place : Nat) (change : α → α)
    (inside : place < first.length) : (first ++ second).modify place change = first.modify place change ++ second := by
  induction first generalizing place with
  | nil => simp at inside
  | cons head tail ih =>
    cases place with
    | zero => rfl
    | succ place => simp [ih place (by simpa using inside)]

@[simp] theorem akAuditLogLifecycle_contexts (appended : Bool) (pid runId : TokenId) (event : UInt8) :
    (akAuditLogLifecycle k appended pid runId event).contexts = k.contexts := by
  unfold akAuditLogLifecycle akAuditAppend
  split <;> rfl

theorem akAgentRegistryAdd_contexts (context : Nat) : (akAgentRegistryAdd k context).1.contexts = k.contexts := by
  unfold akAgentRegistryAdd
  repeat' split
  all_goals rfl

theorem akAgentRegistryRemove_contexts (agentId : TokenId) :
    (akAgentRegistryRemove k agentId).contexts = k.contexts := by
  unfold akAgentRegistryRemove
  split <;> rfl

theorem spawned_contexts (child : AgentContext) (inside : index < k.contexts.length) :
    ((akAgentRegistryAdd { k with contexts := k.contexts ++ [child] } k.contexts.length).1.commitBudget index
      .heapObjects 1).contexts = (k.commitBudget index .heapObjects 1).contexts ++ [child] := by
  rw [Kernel.commitBudget,Kernel.updateContext]
  rw [akAgentRegistryAdd_contexts]
  exact modify_append_left _ _ _ _ inside

theorem registerChild_spends {child : AgentContext} (inside : index < k.contexts.length)
    (fits : akBudgetCheck ctx.budget .heapObjects 1 = true) (fresh : Newborn child) :
    Spends env index ctx req .spawn k (registerChild env k index req child).1 := by
  have born := spawned_contexts k index child inside
  unfold registerChild
  dsimp only
  split
  · exact .nothing rfl
  split
  · refine ⟨_,none,[child],.spawn fits,?_,by simpa using fresh⟩
    rw [succeed_kernel,akAuditLogLifecycle_contexts,born,commitBudget_contexts]
  apply Spends.commit (.spawn fits)
  rw [fail_kernel]
  dsimp only [akContextDestroy]
  rw [akAuditLogLifecycle_contexts]
  rw [akAgentRegistryRemove_contexts,akAuditLogLifecycle_contexts,born,List.dropLast_concat]

theorem akHandleSpawn_spends (found : k.contexts[index]? = some ctx) :
    Spends env index ctx req .spawn k (akHandleSpawn env k index ctx req).1 := by
  have inside : index < k.contexts.length := (List.getElem?_eq_some_iff.mp found).1
  unfold akHandleSpawn
  split
  · exact .nothing rfl
  split
  · exact .nothing rfl
  rename_i fits
  repeat' split
  any_goals exact .nothing rfl
  exact registerChild_spends env k index ctx req inside (by simpa using fits) ⟨_,_,_,rfl⟩

theorem handle_spends (op : SysOp) (found : k.contexts[index]? = some ctx) :
    Spends env index ctx req op k (handle env k index ctx req op).1 := by
  cases op with
  | alloc => exact akHandleAlloc_spends env k index ctx req
  | batch => exact akHandleBatch_spends env k index ctx req
  | call => exact akHandleCall_spends env k index ctx req
  | spawn => exact akHandleSpawn_spends env k index ctx req found
  | inference => exact akHandleInference_spends env k index ctx req
  | inferIssue => exact akHandleInferIssue_spends env k index ctx req
  | inferPoll => exact akHandleInferPoll_spends env k index ctx req
  | _ => exact .nothing (handle_contexts env k index ctx req (by decide))

end Handlers

section Dispatches
variable {env : DispatchEnv} {k : Kernel} {index : Nat} {ctx : AgentContext} {req : AkRequest}
variable {context : Option Nat} {request : Option AkRequest}

inductive Next (env : DispatchEnv) (k : Kernel) (ctx : AgentContext) (req : AkRequest) : AgentContext → Prop
  | invalid (refused : ¬Admissible env k ctx req) : Next env k ctx req ctx
  | refused (refused : ¬Admissible env k ctx req) : Next env k ctx req (akCheckReplay ctx req).1
  | ran (op : SysOp) (charges : List (Resource × UInt64)) (flight : Option Bool) (admissible : Admissible env k ctx req)
      (known : SysOp.ofCode req.op = some op) (made : Charge env.handler ctx.budget req.args op charges) :
      Next env k ctx req ((akCheckReplay ctx req).1.charged charges flight)

theorem akLogOperation_kept (env : DispatchEnv) (ctx : AgentContext) (req : AkRequest) (res : Option AkResponse)
    (k : Kernel) : (akLogOperation env ctx req res k).contexts = k.contexts ∧
      (akLogOperation env ctx req res k).caps = k.caps ∧ (akLogOperation env ctx req res k).initialized = k.initialized := by
  unfold akLogOperation akAuditAppend
  split <;> exact ⟨rfl,rfl,rfl⟩

theorem checked_contexts_valid (valid : akValidateRequest ctx req = 0) :
    (checked env k index ctx req).contexts = k.contexts.modify index fun _ => (akCheckReplay ctx req).1 := by
  unfold checked
  rw [if_neg (not_not.mpr valid)]
  split <;> rfl

theorem modify_const (list : List α) (place : Nat) (value : α) :
    (list.modify place fun _ => value) = list.set place value := by
  induction list generalizing place with
  | nil => simp
  | cons head tail ih =>
    cases place with
    | zero => rfl
    | succ place => simp [ih]

theorem akDispatch_contexts (live : Live k context request index ctx req) (admissible : Admissible env k ctx req)
    {op : SysOp} (known : SysOp.ofCode req.op = some op) :
    (akDispatch env k context request).kernel.contexts =
      (handle env.handler (checked env k index ctx req) index (akCheckReplay ctx req).1 (authorized env k ctx req)
        op).1.contexts := by
  rw [akDispatch_live live,(akLogOperation_kept ..).1,executed_run admissible known]

theorem akDispatch_next (live : Live k context request index ctx req) :
    ∃ next newborn, Next env k ctx req next ∧ (∀ child ∈ newborn, Newborn child) ∧
      (akDispatch env k context request).kernel.contexts = k.contexts.set index next ++ newborn := by
  by_cases admissible : Admissible env k ctx req
  · obtain ⟨op,known⟩ := akValidateRequest_op admissible.request
    obtain ⟨charges,flight,newborn,made,whole,fresh⟩ := handle_spends env.handler (checked env k index ctx req) index
      (akCheckReplay ctx req).1 (authorized env k ctx req) op (checked_found live.found admissible.request)
    rw [(akCheckReplay_fields ctx req).2] at made
    refine ⟨_,newborn,.ran op charges flight admissible known made,fresh,?_⟩
    rw [akDispatch_contexts live admissible known,whole,checked_contexts_valid admissible.request,
      List.modify_modify_eq]
    congr 1
    exact modify_const _ _ _
  · obtain ⟨_,_,refused⟩ := @executed_refuse _ _ index _ _ admissible
    rw [akDispatch_live live,(akLogOperation_kept ..).1,refused,refuse]
    by_cases valid : akValidateRequest ctx req = 0
    · refine ⟨_,[],.refused admissible,by simp,?_⟩
      rw [checked_contexts_valid valid,modify_const,List.append_nil]
    · obtain ⟨inside,same⟩ := List.getElem?_eq_some_iff.mp live.found
      refine ⟨_,[],.invalid admissible,by simp,?_⟩
      rw [checked,if_pos valid,List.append_nil,← same,List.set_getElem_self]

end Dispatches

end AuthorityKernel.Dispatch
