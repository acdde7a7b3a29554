import AuthorityKernel.Dispatch.Handlers

/-! The dispatcher: four stages, the handler of the operation, the audit record. -/
namespace AuthorityKernel.Dispatch
open Library Policy Heap

/-- `policyStack` is what the audit record holds for the hash of a missing policy. -/
structure DispatchEnv where
  authority : AuthorityEnv
  handler : HandlerEnv
  policyStack : Block 32
  appended : Bool

structure Outcome where
  kernel : Kernel
  response : Option AkResponse
  ran : Option SysOp

def handle (env : HandlerEnv) (k : Kernel) (index : Nat) (ctx : AgentContext) (req : AkRequest) :
    SysOp → Kernel × Option AkResponse
  | .read => akHandleRead env k req
  | .alloc => akHandleAlloc env k index ctx req
  | .write => akHandleWrite env k req
  | .delete => akHandleDelete env k req
  | .query => akHandleQuery env k req
  | .batch => akHandleBatch env k index ctx req
  | .commit => akHandleCommit env k req
  | .call => akHandleCall env k index ctx req
  | .spawn => akHandleSpawn env k index ctx req
  | .send => akHandleSend env k ctx req
  | .recv => akHandleRecv env k ctx req
  | .respond => akHandleRespond env k req
  | .assert => akHandleAssert env k req
  | .inference => akHandleInference env k index ctx req
  | .inferIssue => akHandleInferIssue env k index ctx req
  | .inferPoll => akHandleInferPoll env k index ctx req
  | .budgetStatus => akHandleBudgetStatus env k ctx req
  | .budgetHistory => akHandleBudgetHistory env k ctx req
  | .budgetBreakdown => akHandleBudgetBreakdown env k ctx req

/-- The result of the append is dropped. -/
def akLogOperation (env : DispatchEnv) (ctx : AgentContext) (req : AkRequest) (res : Option AkResponse) (k : Kernel) :
    Kernel :=
  akAuditAppend k env.appended
    ⟨ctx.pid,ctx.runId,req.op,hashOf req.args,hashOf (res.bind AkResponse.result),
      (ctx.policy.map AkPolicy.policyHash).getD env.policyStack⟩

def refuse (env : DispatchEnv) (k : Kernel) (req : AkRequest) (code : Int) : Outcome :=
  ⟨k,akResponseError env.handler.responseAlloc (some req) code,none⟩

def executed (env : DispatchEnv) (k : Kernel) (index : Nat) (ctx : AgentContext) (req : AkRequest) : Outcome :=
  if akValidateRequest ctx req ≠ 0 then refuse env k req (akValidateRequest ctx req)
  else
    let replay := akCheckReplay ctx req
    let k := k.updateContext index fun _ => replay.1
    -- A gap in the numbers, or a missing tracker, does not stop the request.
    if replay.2 = akEReplay then refuse env k req akEReplay
    else
      let authorization := akValidateCapability env.authority replay.1 req k.caps
      let k := { k with caps := authorization.caps }
      if authorization.code ≠ 0 then refuse env k req authorization.code
      else
        let req := { req with cap := authorization.cap }
        let verdict := akCheckPolicy replay.1 req
        if verdict = akEPolicyDenied then refuse env k req akEPolicyDenied
        else if verdict = akEBudgetExceeded then refuse env k req akEBudgetExceeded
        else
          match SysOp.ofCode req.op with
          | none => refuse env k req (-eNosys)
          | some op =>
              let done := handle env.handler k index replay.1 req op
              ⟨done.1,done.2,some op⟩

/-- A missing context or request is a null pointer. -/
def akDispatch (env : DispatchEnv) (k : Kernel) (context : Option Nat) (req : Option AkRequest) : Outcome :=
  if !k.initialized then ⟨k,akResponseError env.handler.responseAlloc req (-eInval),none⟩
  else
    match context.bind (fun index => k.contexts[index]?.map (index,·)), req with
    | some (index,ctx), some req =>
        let outcome := executed env k index ctx req
        { outcome with kernel := akLogOperation env ctx req outcome.response outcome.kernel }
    | _, _ => ⟨k,akResponseError env.handler.responseAlloc req (-eInval),none⟩

section Stages
variable (env : DispatchEnv) (k : Kernel) (index : Nat) (ctx : AgentContext) (req : AkRequest)

def authorization : Authorization := akValidateCapability env.authority (akCheckReplay ctx req).1 req k.caps

def authorized : AkRequest := { req with cap := (authorization env k ctx req).cap }

def policyVerdict : Int := akCheckPolicy (akCheckReplay ctx req).1 (authorized env k ctx req)

/-- The code of the stage the dispatcher stops at. -/
def refusal : Option Int :=
  if akValidateRequest ctx req ≠ 0 then some (akValidateRequest ctx req)
  else if (akCheckReplay ctx req).2 = akEReplay then some akEReplay
  else if (authorization env k ctx req).code ≠ 0 then some (authorization env k ctx req).code
  else if policyVerdict env k ctx req = akEPolicyDenied then some akEPolicyDenied
  else if policyVerdict env k ctx req = akEBudgetExceeded then some akEBudgetExceeded
  else none

def checked : Kernel :=
  if akValidateRequest ctx req ≠ 0 then k
  else
    let noted := k.updateContext index fun _ => (akCheckReplay ctx req).1
    if (akCheckReplay ctx req).2 = akEReplay then noted else { noted with caps := (authorization env k ctx req).caps }

theorem executed_eq :
    executed env k index ctx req =
      match refusal env k ctx req, SysOp.ofCode req.op with
      | some code, _ => refuse env (checked env k index ctx req) req code
      | none, none => refuse env (checked env k index ctx req) req (-eNosys)
      | none, some op =>
          ⟨(handle env.handler (checked env k index ctx req) index (akCheckReplay ctx req).1
              (authorized env k ctx req) op).1,
            (handle env.handler (checked env k index ctx req) index (akCheckReplay ctx req).1
              (authorized env k ctx req) op).2,some op⟩ := by
  unfold executed refusal checked
  by_cases invalid : akValidateRequest ctx req ≠ 0
  · simp only [if_pos invalid]
  simp only [if_neg invalid]
  by_cases replayed : (akCheckReplay ctx req).2 = akEReplay
  · simp only [if_pos replayed]
  simp only [if_neg replayed]
  change (if (authorization env k ctx req).code ≠ 0 then _ else _) = _
  by_cases unauthorized : (authorization env k ctx req).code ≠ 0
  · simp only [if_pos unauthorized]
    rfl
  simp only [if_neg unauthorized]
  change (if policyVerdict env k ctx req = akEPolicyDenied then _
    else if policyVerdict env k ctx req = akEBudgetExceeded then _ else _) = _
  by_cases denied : policyVerdict env k ctx req = akEPolicyDenied
  · simp only [if_pos denied]
    rfl
  simp only [if_neg denied]
  by_cases exceeded : policyVerdict env k ctx req = akEBudgetExceeded
  · simp only [if_pos exceeded]
    rfl
  · simp only [if_neg exceeded]
    cases SysOp.ofCode req.op <;> rfl

end Stages

end AuthorityKernel.Dispatch
