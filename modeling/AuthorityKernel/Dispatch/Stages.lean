import AuthorityKernel.Dispatch.State

/-! The stages a request passes before its handler: identity and range, replay,
capability, policy. -/
namespace AuthorityKernel.Dispatch
open Library Capability Policy Json

def akValidateRequest (ctx : AgentContext) (req : AkRequest) : Int :=
  if !akTokenIdEqual req.pid ctx.pid then -ePerm
  else if !akTokenIdEqual req.runId ctx.runId then akECapRunMismatch
  else if req.op < SysOp.read.code ∨ req.op > SysOp.inferPoll.code then -eInval
  else 0

def akCheckReplay (ctx : AgentContext) (req : AkRequest) : AgentContext × Int :=
  match ctx.seqTracker with
  | none => (ctx,-eInval)
  | some tracker =>
      let checked := akSeqTrackerCheck tracker req.seq
      ({ ctx with seqTracker := some checked.1 },checked.2)

def akOpToString (op : Option SysOp) : String :=
  match op with
  | some .read => "READ"
  | some .alloc => "ALLOC"
  | some .write => "WRITE"
  | some .delete => "DELETE"
  | some .query => "QUERY"
  | some .batch => "BATCH"
  | some .commit => "COMMIT"
  | some .call => "CALL"
  | some .spawn => "SPAWN"
  | some .send => "SEND"
  | some .recv => "RECV"
  | some .respond => "RESPOND"
  | some .assert => "ASSERT"
  | some .inference => "INFERENCE"
  | _ => "UNKNOWN"

def text (string : String) : CString := .ofBuffer (ascii string)

def akMaxResource : Nat := 80

inductive Requirement
  | exempt
  | refused
  | needs (type : CapType) (resource : CString) (method : String)

def namedResource (type : CapType) (args : Option Bytes) (key method : String) : Requirement :=
  match presentField (akJsonExtractString args key akMaxResource) with
  | none => .refused
  | some resource => .needs type resource method

def pointerText (args : Option Bytes) (key : String) : CString := .ofBuffer (akU64ToDec (akJsonExtractU64 args key))

def requirement (op : Option SysOp) (args : Option Bytes) : Requirement :=
  match op with
  | some .budgetStatus => .exempt
  | some .budgetHistory => .exempt
  | some .budgetBreakdown => .exempt
  | some .inferPoll => .exempt
  | some .read => .needs .heap (pointerText args "ptr") (akOpToString op)
  | some .write => .needs .heap (pointerText args "ptr") (akOpToString op)
  | some .delete => .needs .heap (pointerText args "ptr") (akOpToString op)
  | some .alloc => .needs .heap (pointerText args "type") (akOpToString op)
  | some .batch => .needs .heap (text "*") (akOpToString op)
  | some .call => namedResource .tool args "tool" "invoke"
  | some .inference => namedResource .inference args "model" "inference"
  | some .inferIssue => namedResource .inference args "model" "inference"
  | some .spawn =>
      match presentField (akJsonExtractString args "program" akMaxResource) with
      | none => .needs .spawn (text "*") "spawn"
      | some program => .needs .spawn program "spawn"
  | some .send => namedResource .ipc args "to" (akOpToString op)
  | some .recv => .needs .ipc (text "*") (akOpToString op)
  | some .query => .needs .any (text "audit_log") (akOpToString op)
  | _ => .needs .any (text "*") (akOpToString op)

structure AuthorityEnv where
  validate : ValidateEnv
  grant : Nat → ValidateEnv

/-- The first grant that covers the request; every check charges the rate limits. -/
def firstGrant (env : Nat → ValidateEnv) (request : Capability.Request) (index : Nat) (caps : CapState) :
    List AkCapability → CapState × Option AkCapability
  | [] => (caps,none)
  | cap :: rest =>
      let answer := akCapabilityValidate (env index) (some cap) request caps
      if answer.2 = 0 then (answer.1,some cap) else firstGrant env request (index + 1) answer.1 rest

structure Authorization where
  caps : CapState
  code : Int
  cap : Option AkCapability

def authorize (env : AuthorityEnv) (ctx : AgentContext) (presented : Option AkCapability)
    (request : Capability.Request) (caps : CapState) : Authorization :=
  match presented with
  | some token =>
      let answer := akCapabilityValidate env.validate (some token) request caps
      ⟨answer.1,answer.2,presented⟩
  | none =>
      match ctx.rootCap with
      | some root =>
          let answer := akCapabilityValidate env.validate (some root) request caps
          ⟨answer.1,answer.2,if answer.2 = 0 then some root else none⟩
      | none =>
          match ctx.delegatedCaps with
          | some (grant :: grants) =>
              let answer := firstGrant env.grant request 0 caps (grant :: grants)
              ⟨answer.1,if answer.2.isSome then 0 else akECapScope,answer.2⟩
          | _ => ⟨caps,akECapMissing,none⟩

def akValidateCapability (env : AuthorityEnv) (ctx : AgentContext) (req : AkRequest) (caps : CapState) :
    Authorization :=
  match requirement (SysOp.ofCode req.op) req.args with
  | .exempt => ⟨caps,0,req.cap⟩
  | .refused => ⟨caps,akECapScope,req.cap⟩
  | .needs type resource method =>
      authorize env ctx req.cap ⟨type,resource,some (text method),some ctx.runId⟩ caps

def akCheckPolicy (ctx : AgentContext) (req : AkRequest) : Int := akPolicyEvaluate ctx.policy ctx.budget req

theorem akCheckReplay_kept (ctx : AgentContext) (req : AkRequest) :
    ∃ tracker, (akCheckReplay ctx req).1 = { ctx with seqTracker := tracker } := by
  unfold akCheckReplay
  split
  · exact ⟨ctx.seqTracker,rfl⟩
  · exact ⟨_,rfl⟩

variable {ctx : AgentContext} {req : AkRequest}

theorem akValidateRequest_op (valid : akValidateRequest ctx req = 0) :
    ∃ op, SysOp.ofCode req.op = some op := by
  unfold akValidateRequest at valid
  split at valid
  · simp [ePerm] at valid
  split at valid
  · simp [akECapRunMismatch] at valid
  split at valid
  · simp [eInval] at valid
  rename_i inRange
  rw [not_or,UInt16.not_lt,GT.gt,UInt16.not_lt] at inRange
  exact (SysOp.inRange_iff req.op).mp inRange

theorem akValidateRequest_eq_zero {op : SysOp} (pid : req.pid = ctx.pid)
    (run : req.runId = ctx.runId) (known : SysOp.ofCode req.op = some op) : akValidateRequest ctx req = 0 := by
  have samePid := (akTokenIdEqual_iff req.pid ctx.pid).mpr pid
  have sameRun := (akTokenIdEqual_iff req.runId ctx.runId).mpr run
  obtain ⟨low,high⟩ := (SysOp.inRange_iff req.op).mpr ⟨op,known⟩
  have inRange : ¬(req.op < SysOp.read.code ∨ req.op > SysOp.inferPoll.code) := by
    rw [not_or,UInt16.not_lt,GT.gt,UInt16.not_lt]
    exact ⟨low,high⟩
  simp [akValidateRequest,samePid,sameRun,inRange]

theorem firstGrant_spec {env : Nat → ValidateEnv} {request : Capability.Request} {place : Nat} {caps : CapState}
    {grants : List AkCapability} {cap : AkCapability} (found : (firstGrant env request place caps grants).2 = some cap) :
    cap ∈ grants ∧ ∃ check s, (akCapabilityValidate check (some cap) request s).2 = 0 := by
  induction grants generalizing place caps with
  | nil => contradiction
  | cons grant rest ih =>
    rw [firstGrant] at found
    split at found
    · rename_i valid
      cases found
      exact ⟨List.mem_cons_self,_,_,valid⟩
    · obtain ⟨member,valid⟩ := ih found
      exact ⟨List.mem_cons_of_mem grant member,valid⟩

theorem authorize_granted {env : AuthorityEnv} {presented : Option AkCapability} {request : Capability.Request}
    {caps : CapState} (granted : (authorize env ctx presented request caps).code = 0) :
    ∃ cap check s, (authorize env ctx presented request caps).cap = some cap ∧
      (akCapabilityValidate check (some cap) request s).2 = 0 ∧
      (presented = some cap ∨ ctx.rootCap = some cap ∨ ∃ grants, ctx.delegatedCaps = some grants ∧ cap ∈ grants) := by
  unfold authorize at granted ⊢
  cases presented with
  | some token => exact ⟨token,env.validate,caps,rfl,granted,Or.inl rfl⟩
  | none =>
    cases held : ctx.rootCap with
    | some root =>
      simp only [held] at granted ⊢
      exact ⟨root,env.validate,caps,if_pos granted,granted,Or.inr (Or.inl rfl)⟩
    | none =>
      simp only [held] at granted ⊢
      split at granted
      · rename_i grant grants delegated
        cases found : (firstGrant env.grant request 0 caps (grant :: grants)).2 with
        | none => simp [found,akECapScope] at granted
        | some cap =>
          obtain ⟨member,check,s,valid⟩ := firstGrant_spec found
          exact ⟨cap,check,s,rfl,valid,Or.inr (Or.inr ⟨_,delegated,member⟩)⟩
      · simp [akECapMissing] at granted

theorem requirement_exempt {op : SysOp} {args : Option Bytes} (exempt : requirement (some op) args = .exempt) :
    op = .inferPoll ∨ op = .budgetStatus ∨ op = .budgetHistory ∨ op = .budgetBreakdown := by
  have named : ∀ type key method, namedResource type args key method ≠ .exempt := by
    intro type key method
    unfold namedResource
    split <;> simp
  cases op with
  | budgetStatus | budgetHistory | budgetBreakdown | inferPoll => simp
  | call | inference | inferIssue | send => exact absurd exempt (named _ _ _)
  | spawn =>
    simp only [requirement] at exempt
    split at exempt <;> simp at exempt
  | _ => simp [requirement] at exempt

end AuthorityKernel.Dispatch
