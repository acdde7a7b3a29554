import AuthorityKernel.Dispatch.Messaging
import AuthorityKernel.Dispatch.Spending
import AuthorityKernel.Dispatch.Targets
import AuthorityKernel.Wasm.Execute

/-! Tool calls against the budget. The handler charges a call whenever the runtime hands
back a response, and the runtime reports its failures in a response. -/
namespace AuthorityKernel.Dispatch
open Library Library.Run Capability Budget Policy Json Wasm.Tools

structure ToolCall where
  env : DispatchEnv
  execute : ExecuteEnv
  wasm : WasmState
  request : { req : AkRequest // req.op = SysOp.call.code }

def ToolCall.dispatch (call : ToolCall) (runId : TokenId) : DispatchEnv :=
  { call.env with handler := { call.env.handler with tool := akWasmExecuteTool call.execute call.wasm runId } }

def runIdAt (k : Kernel) (index : Nat) : TokenId := (k.contexts[index]?.map AgentContext.runId).getD (Block.zero 16)

/-- The kernel, and how many of the calls so far were answered with success. -/
structure Ledger where
  kernel : Kernel
  successes : Nat

def callStep (index : Nat) (ledger : Ledger) (call : ToolCall) : Ledger :=
  let outcome := akDispatch (call.dispatch (runIdAt ledger.kernel index)) ledger.kernel (some index) (some call.request.1)
  ⟨outcome.kernel,ledger.successes + (succeeded outcome.response).toNat⟩

def toolCalls (k : Kernel) (index : Nat) : Nat :=
  (k.budgets[index]?.join.map fun tracker => (tracker.used .toolCalls).toNat).getD 0

def toolReached (ctx : AgentContext) (req : AkRequest) : Option (CString × Bytes) := do
  let budget ← ctx.budget
  let args ← req.args
  let toolName ← callTool req.args
  let policy ← ctx.policy
  if akPolicyCheckTool policy toolName && akBudgetCheck (some budget) .toolCalls 1 then some (toolName,args) else none

/-- A call that enters the runtime completes there, or finds no memory for a response. -/
def CompletesIfRun (index : Nat) (ledger : Ledger) (call : ToolCall) : Prop :=
  let k := ledger.kernel
  ∀ ctx toolName args, k.initialized = true → k.contexts[index]? = some ctx →
    let env := call.dispatch ctx.runId
    Admissible env k ctx call.request.1 → toolReached ctx call.request.1 = some (toolName,args) →
      call.execute.responseAlloc = false ∨
      Completes call.execute call.wasm ctx.runId toolName args (authorization env k ctx call.request.1).cap
        (authorization env k ctx call.request.1).caps

def ChargedOnSuccess (before index : Nat) (ledger : Ledger) : Prop :=
  toolCalls ledger.kernel index = before + ledger.successes

variable {ctx : AgentContext} {req : AkRequest}

theorem akHandleCall_unreached (env : HandlerEnv) (k : Kernel) (index : Nat)
    (stopped : toolReached ctx req = none) : ∃ code, akHandleCall env k index ctx req = fail env k req code := by
  unfold akHandleCall
  unfold toolReached at stopped
  cases budget : ctx.budget with
  | none => exact ⟨_,rfl⟩
  | some tracker =>
    cases args : req.args with
    | none => exact ⟨_,rfl⟩
    | some text =>
      cases named : callTool (some text) with
      | none => exact ⟨_,rfl⟩
      | some toolName =>
        cases rules : ctx.policy with
        | none => exact ⟨_,rfl⟩
        | some policy =>
          simp only [budget,args,named,rules,Option.bind_eq_bind,Option.bind_some,ite_eq_right_iff,reduceCtorEq,
            imp_false,Bool.and_eq_true,not_and,Bool.not_eq_true] at stopped
          dsimp only
          split
          · exact ⟨_,rfl⟩
          rename_i allowed
          rw [if_pos]
          · exact ⟨_,rfl⟩
          · rw [stopped (by simpa using allowed)]
            rfl

variable {args : Bytes}

theorem akHandleCall_reached (env : HandlerEnv) (k : Kernel) (index : Nat)
    {toolName : CString} (reached : toolReached ctx req = some (toolName,args)) :
    akHandleCall env k index ctx req =
      let ran := env.tool toolName args req.cap k.heap k.caps
      let k := { k with heap := ran.heap, caps := ran.caps }
      match ran.response with
      | some answer => (k.commitBudget index .toolCalls 1,some answer)
      | none => if env.resultAlloc then fail env k req akEToolFail else fail env k req (-eNomem) := by
  unfold toolReached at reached
  simp only [Option.bind_eq_bind,Option.bind_eq_some_iff,Option.ite_none_right_eq_some,Option.some.injEq,Prod.mk.injEq,
    Bool.and_eq_true] at reached
  obtain ⟨tracker,budget,text,given,name,named,policy,rules,⟨allowed,fits⟩,rfl,rfl⟩ := reached
  unfold akHandleCall
  simp only [budget,given,rules]
  rw [given] at named
  simp only [named,allowed,fits]
  rfl

theorem akHandleCall_reached_caps (env : HandlerEnv) (k : Kernel) (index : Nat)
    {toolName : CString} (reached : toolReached ctx req = some (toolName,args)) :
    (akHandleCall env k index ctx req).1.caps = (env.tool toolName args req.cap k.heap k.caps).caps := by
  rw [akHandleCall_reached env k index reached]
  dsimp only
  split
  · rfl
  · split <;> rfl

variable {ctx : AgentContext} {tracker : BudgetTracker} {k : Kernel} {ledger : Ledger} {index : Nat} {call : ToolCall}

theorem toolCalls_of_found (found : k.contexts[index]? = some ctx) (budget : ctx.budget = some tracker) :
    toolCalls k index = (tracker.used .toolCalls).toNat := by
  simp [toolCalls,Kernel.budgets,found,budget]

theorem toolCalls_commit (found : k.contexts[index]? = some ctx) (budget : ctx.budget = some tracker)
    (fits : akBudgetCheck (some tracker) .toolCalls 1 = true) :
    toolCalls (k.commitBudget index .toolCalls 1) index = toolCalls k index + 1 := by
  have charged : (k.commitBudget index .toolCalls 1).contexts[index]? =
      some { ctx with budget := some (akBudgetCommit tracker .toolCalls 1) } := by
    rw [Kernel.commitBudget,Kernel.updateContext,List.getElem?_modify_eq,found]
    simp [budget]
  have below := (akBudgetFits_iff _ _ _).mp fits
  have top := (tracker.limits .toolCalls).toNat_lt
  rw [toolCalls_of_found charged rfl,toolCalls_of_found found budget]
  simp only [akBudgetCommit,Function.update_self,committed_toNat]
  have one : (1 : UInt64).toNat = 1 := rfl
  have most : akBudgetUnlimited.toNat = 18446744073709551615 := rfl
  omega

theorem succeeded_error (alloc : Bool) (req : Option AkRequest) (code : Int) :
    succeeded (akResponseError alloc req code) = false := by
  cases alloc <;> rfl

theorem akHandleCall_charges (env : HandlerEnv) {k : Kernel} {index : Nat} {ctx : AgentContext}
    {toolName : CString} (found : k.contexts[index]? = some ctx)
    (reached : toolReached ctx req = some (toolName,args)) :
    let answer := (env.tool toolName args req.cap k.heap k.caps).response
    toolCalls (akHandleCall env k index ctx req).1 index = toolCalls k index + answer.isSome.toNat ∧
      succeeded (akHandleCall env k index ctx req).2 = succeeded answer := by
  rw [akHandleCall_reached env k index reached]
  dsimp only
  cases answered : (env.tool toolName args req.cap k.heap k.caps).response with
  | none =>
    dsimp only
    split
    · exact ⟨rfl,succeeded_error _ _ _⟩
    · exact ⟨rfl,succeeded_error _ _ _⟩
  | some answer =>
    simp only [toolReached,Option.bind_eq_bind,Option.bind_eq_some_iff,Option.ite_none_right_eq_some,Option.some.injEq,
      Bool.and_eq_true] at reached
    obtain ⟨tracker,budget,_,_,_,_,_,_,⟨_,fits⟩,_⟩ := reached
    have charged := @toolCalls_commit ctx tracker { k with
      heap := (env.tool toolName args req.cap k.heap k.caps).heap
      caps := (env.tool toolName args req.cap k.heap k.caps).caps } index found budget fits
    exact ⟨charged,rfl⟩

theorem toolReached_authorized (env : DispatchEnv) (k : Kernel) (ctx : AgentContext) (req : AkRequest) :
    toolReached (akCheckReplay ctx req).1 (authorized env k ctx req) = toolReached ctx req := by
  unfold toolReached authorized
  rw [(akCheckReplay_fields ctx req).1,(akCheckReplay_fields ctx req).2]

theorem ToolCall.known (call : ToolCall) : SysOp.ofCode call.request.1.op = some .call := by
  rw [call.request.2]
  exact SysOp.ofCode_code .call

theorem callStep_live (ready : ledger.kernel.initialized = true) (found : ledger.kernel.contexts[index]? = some ctx) :
    let outcome := executed (call.dispatch ctx.runId) ledger.kernel index ctx call.request.1
    toolCalls (callStep index ledger call).kernel index = toolCalls outcome.kernel index ∧
      (callStep index ledger call).successes = ledger.successes + (succeeded outcome.response).toNat := by
  have runId : runIdAt ledger.kernel index = ctx.runId := by rw [runIdAt,found]; rfl
  simp only [callStep,runId]
  rw [akDispatch_live ⟨ready,rfl,found,rfl⟩]
  exact ⟨by simp only [toolCalls,(akLogOperation_untouched ..).budgets],rfl⟩

theorem callStep_idle (idle : ∀ ctx, ledger.kernel.initialized = true → ledger.kernel.contexts[index]? = some ctx →
      Admissible (call.dispatch ctx.runId) ledger.kernel ctx call.request.1 → toolReached ctx call.request.1 = none) :
    toolCalls (callStep index ledger call).kernel index = toolCalls ledger.kernel index ∧
      (callStep index ledger call).successes = ledger.successes := by
  by_cases alive : ∃ place ctx req, Live ledger.kernel (some index) (some call.request.1) place ctx req
  · obtain ⟨place,ctx,req,ready,named,found,_⟩ := alive
    obtain rfl : index = place := Option.some.inj named
    have same := (@checked_untouched (call.dispatch ctx.runId) _ _ _ call.request.1 found).budgets
    obtain ⟨counted,successes⟩ := @callStep_live _ _ _ call ready found
    rw [counted,successes]
    by_cases admissible : Admissible (call.dispatch ctx.runId) ledger.kernel ctx call.request.1
    · have stopped := idle ctx ready found admissible
      rw [← toolReached_authorized (call.dispatch ctx.runId) ledger.kernel] at stopped
      obtain ⟨code,failed⟩ := akHandleCall_unreached (call.dispatch ctx.runId).handler
        (checked (call.dispatch ctx.runId) ledger.kernel index ctx call.request.1) index stopped
      rw [executed_run admissible call.known,handle,failed]
      simp only [toolCalls,fail,same,succeeded_error]
      exact ⟨trivial,rfl⟩
    · obtain ⟨code,_,refused⟩ := @executed_refuse _ _ index _ _ admissible
      rw [refused]
      simp only [toolCalls,refuse,same,succeeded_error]
      exact ⟨trivial,rfl⟩
  · rw [callStep,akDispatch_dead alive]
    simp only [succeeded_error]
    exact ⟨trivial,rfl⟩

theorem callStep_run {toolName : CString} (ready : ledger.kernel.initialized = true)
    (found : ledger.kernel.contexts[index]? = some ctx)
    (admissible : Admissible (call.dispatch ctx.runId) ledger.kernel ctx call.request.1)
    (reached : toolReached ctx call.request.1 = some (toolName,args)) :
    let authority := authorization (call.dispatch ctx.runId) ledger.kernel ctx call.request.1
    ∃ heap, let answer := (akWasmExecuteTool call.execute call.wasm ctx.runId toolName args authority.cap heap
        authority.caps).response
      toolCalls (callStep index ledger call).kernel index = toolCalls ledger.kernel index + answer.isSome.toNat ∧
        (callStep index ledger call).successes = ledger.successes + (succeeded answer).toNat := by
  have same := (@checked_untouched (call.dispatch ctx.runId) _ _ _ call.request.1 found).budgets
  rw [← toolReached_authorized (call.dispatch ctx.runId) ledger.kernel] at reached
  obtain ⟨charged,answered⟩ := akHandleCall_charges (call.dispatch ctx.runId).handler
    (checked_found found admissible.request) reached
  rw [(@checked_caps (call.dispatch ctx.runId) _ _ _ _ admissible.request admissible.replay).1] at charged answered
  obtain ⟨counted,successes⟩ := @callStep_live _ _ _ call ready found
  refine ⟨(checked (call.dispatch ctx.runId) ledger.kernel index ctx call.request.1).heap,?_,?_⟩
  · rw [counted,executed_run admissible call.known]
    simp only [toolCalls,same] at charged ⊢
    exact charged
  · rw [successes,executed_run admissible call.known]
    exact congrArg (ledger.successes + ·.toNat) answered

theorem callStep_charged_iff (before index : Nat) (ledger : Ledger) (call : ToolCall)
    (held : ChargedOnSuccess before index ledger) :
    ChargedOnSuccess before index (callStep index ledger call) ↔ CompletesIfRun index ledger call := by
  by_cases runs : ∃ ctx toolName args, ledger.kernel.initialized = true ∧ ledger.kernel.contexts[index]? = some ctx ∧
      Admissible (call.dispatch ctx.runId) ledger.kernel ctx call.request.1 ∧
      toolReached ctx call.request.1 = some (toolName,args)
  · obtain ⟨ctx,toolName,args,ready,found,admissible,reached⟩ := runs
    have only : CompletesIfRun index ledger call ↔ call.execute.responseAlloc = false ∨
        Completes call.execute call.wasm ctx.runId toolName args
          (authorization (call.dispatch ctx.runId) ledger.kernel ctx call.request.1).cap
          (authorization (call.dispatch ctx.runId) ledger.kernel ctx call.request.1).caps := by
      constructor
      · exact fun completes => completes ctx toolName args ready found admissible reached
      · intro completes ctx' toolName' args' _ found' env _ reached'
        obtain rfl := Option.some.inj (found.symm.trans found')
        obtain ⟨rfl,rfl⟩ := Prod.mk.inj (Option.some.inj (reached.symm.trans reached'))
        exact completes
    obtain ⟨heap,counted,successes⟩ := callStep_run ready found admissible reached
    rw [only]
    unfold ChargedOnSuccess at held ⊢
    rw [counted,successes,held]
    generalize authorization (call.dispatch ctx.runId) ledger.kernel ctx call.request.1 = authority
    have answers := akWasmExecuteTool_answers call.execute call.wasm ctx.runId toolName args authority.cap heap
      authority.caps
    have status := akWasmExecuteTool_success_iff call.execute call.wasm ctx.runId toolName args authority.cap heap
      authority.caps
    cases answered : (akWasmExecuteTool call.execute call.wasm ctx.runId toolName args authority.cap heap
        authority.caps).response with
    | none =>
      rw [answered] at answers
      exact iff_of_true rfl (.inl answers.symm)
    | some answer =>
      rw [answered] at answers
      rw [← status answer answered,← answers]
      cases told : answer.status with
      | ok => simp [succeeded,told,Nat.add_assoc]
      | error =>
        have wrong : succeeded (some answer) = false := by rw [succeeded,Option.any_some,told]; rfl
        simp [wrong]
  · have idle := callStep_idle fun ctx ready found admissible => by
      by_contra reached
      obtain ⟨⟨toolName,args⟩,reached⟩ := Option.ne_none_iff_exists'.mp reached
      exact runs ⟨ctx,toolName,args,ready,found,admissible,reached⟩
    refine iff_of_true ?_ fun ctx toolName args ready found admissible reached =>
      absurd ⟨ctx,toolName,args,ready,found,admissible,reached⟩ runs
    unfold ChargedOnSuccess at held ⊢
    rw [idle.1,idle.2,held]

/-- Tool calls are charged exactly on success in the runs where every call that enters the
runtime completes there: the runtime's errors are answers too, and are charged. -/
theorem tool_calls_charged_iff (k : Kernel) (index : Nat) (calls : List ToolCall) :
    Throughout (callStep index) (ChargedOnSuccess (toolCalls k index) index) ⟨k,0⟩ calls ↔
      Guarded (callStep index) (CompletesIfRun index) ⟨k,0⟩ calls :=
  @throughout_iff_guarded _ _ _ _ _ (fun _ => True) (fun _ _ _ => trivial)
    (fun ledger call _ => callStep_charged_iff (toolCalls k index) index ledger call) ⟨k,0⟩ calls trivial rfl

def unknownTool : ToolCall where
  env := plainDispatch
  execute := ⟨plainValidate 0,true,true,⟨true,true,true,true,true⟩,fun _ => none,⟨fun _ _ => none,[],id⟩⟩
  wasm := akWasmInit
  request := ⟨toolCall shortName,rfl⟩

theorem failed_call_charged :
    ∃ policy, akPolicyLoad plainLoad none anyToolDocument = some policy ∧
      ¬ ChargedOnSuccess (toolCalls (opened (some policy)) 0) 0 (callStep 0 ⟨opened (some policy),0⟩ unknownTool) := by
  obtain ⟨policy,loaded,admitted,enters⟩ := @loads_of_decide anyToolDocument (fun policy =>
    rulesAdmit policy (openContext (some policy)).budget (toolCall shortName) = true ∧
      (toolReached (openContext (some policy)) (toolCall shortName)).isSome = true) _ (by decide +kernel)
  obtain ⟨⟨toolName,args⟩,reached⟩ := Option.isSome_iff_exists.mp enters
  have named : presentField (akJsonExtractString (toolCall shortName).args "tool" akMaxResource) = some (text "fetch") := by
    decide +kernel
  have needed : requirement (some .call) (toolCall shortName).args = .needs .tool (text "fetch") "invoke" := by
    simp only [requirement,namedResource,named]
  have admissible := opened_admissible policy .call ⟨rfl,rfl⟩ (SysOp.ofCode_code .call)
    (show ¬(1 : UInt64) ≤ 0 by decide) rfl ⟨_,_,_,needed⟩ admitted
  have live := opened_live (some policy) (toolCall shortName)
  refine ⟨policy,loaded,?_⟩
  have start : ChargedOnSuccess (toolCalls (opened (some policy)) 0) 0 ⟨opened (some policy),0⟩ :=
    (Nat.add_zero _).symm
  rw [callStep_charged_iff _ _ _ _ start]
  intro completes
  rcases completes (openContext (some policy)) toolName args live.ready live.found
    ⟨admissible.request,admissible.replay,admissible.capability,admissible.rules⟩ reached with full | ⟨_,_,found,_⟩
  · exact Bool.noConfusion full
  · exact Option.some_ne_none _ (found.symm.trans (rfl : akToolGet toolName akWasmInit = none))

end AuthorityKernel.Dispatch
