import AuthorityKernel.Dispatch.Grant
import AuthorityKernel.Policy.Load

/-! What the dispatcher guards: a handler should run only behind four accepting stages,
and a refused request should change nothing an agent can see. -/
namespace AuthorityKernel.Dispatch
open Library Capability Policy Json

structure Untouched (before after : Kernel) : Prop where
  heap : after.heap = before.heap
  budgets : after.budgets = before.budgets
  inboxes : after.inboxes = before.inboxes

theorem Untouched.refl (k : Kernel) : Untouched k k := ⟨rfl,rfl,rfl⟩

theorem Untouched.trans {first second third : Kernel} (left : Untouched first second)
    (right : Untouched second third) : Untouched first third :=
  ⟨right.heap.trans left.heap,right.budgets.trans left.budgets,right.inboxes.trans left.inboxes⟩

def IsError (response : Option AkResponse) : Prop :=
  ∃ res, response = some res ∧ res.status = .error ∧ res.errorCode ≠ 0

section Stages
variable (env : DispatchEnv) (k : Kernel) (index : Nat) (ctx : AgentContext) (req : AkRequest)

structure Accepted : Prop where
  request : akValidateRequest ctx req = 0
  replay : (akCheckReplay ctx req).2 = 0 ∨ (akCheckReplay ctx req).2 = akESeqGap
  capability : (authorization env k ctx req).code = 0
  policy : policyVerdict env k ctx req = 0

/-- What the dispatcher checks of it: well formed, not seen before, authorised, and
within the tool, domain and budget rules if there are any. -/
structure Admissible : Prop where
  request : akValidateRequest ctx req = 0
  replay : (akCheckReplay ctx req).2 ≠ akEReplay
  capability : (authorization env k ctx req).code = 0
  rules : ∀ rules, ctx.policy = some rules → rulesAdmit rules ctx.budget req = true

/-- What it does not: a tracker, a policy, and taint rules that permit the flow. -/
structure Covered : Prop where
  tracker : ctx.seqTracker.isSome = true
  flow : ∃ rules, ctx.policy = some rules ∧ flowPermitted rules req = true

end Stages

variable {env : DispatchEnv} {k : Kernel} {index : Nat} {ctx : AgentContext} {req : AkRequest}

theorem akCheckReplay_fields (ctx : AgentContext) (req : AkRequest) :
    (akCheckReplay ctx req).1.policy = ctx.policy ∧ (akCheckReplay ctx req).1.budget = ctx.budget := by
  obtain ⟨tracker,kept⟩ := akCheckReplay_kept ctx req
  rw [kept]
  exact ⟨rfl,rfl⟩

theorem policyVerdict_eq : policyVerdict env k ctx req = akPolicyEvaluate ctx.policy ctx.budget req := by
  rw [policyVerdict,akCheckPolicy,(akCheckReplay_fields ctx req).1,(akCheckReplay_fields ctx req).2]
  rfl

theorem akCheckReplay_passes_iff (ctx : AgentContext) (req : AkRequest) :
    ((akCheckReplay ctx req).2 = 0 ∨ (akCheckReplay ctx req).2 = akESeqGap) ↔
      (akCheckReplay ctx req).2 ≠ akEReplay ∧ ctx.seqTracker.isSome = true := by
  unfold akCheckReplay
  cases ctx.seqTracker with
  | none => simp [eInval,akESeqGap]
  | some tracker =>
    dsimp only
    constructor
    · rintro (zero | gap)
      · simp [zero,akEReplay]
      · simp [gap,akESeqGap,akEReplay]
    · rintro ⟨fresh,_⟩
      rw [ne_eq,akSeqTrackerCheck_replay_iff] at fresh
      exact (akSeqTrackerCheck_fresh tracker req.seq fresh).1

theorem verdict_refuses_iff (env : DispatchEnv) (k : Kernel) :
    (policyVerdict env k ctx req = akEPolicyDenied ∨ policyVerdict env k ctx req = akEBudgetExceeded) ↔
      ∃ rules, ctx.policy = some rules ∧ rulesAdmit rules ctx.budget req = false := by
  rw [policyVerdict_eq]
  exact akPolicyEvaluate_refuses_iff ctx.policy ctx.budget req

theorem refusal_none_iff : refusal env k ctx req = none ↔ Admissible env k ctx req := by
  unfold refusal
  constructor
  · intro passed
    split at passed
    · contradiction
    split at passed
    · contradiction
    split at passed
    · contradiction
    split at passed
    · contradiction
    split at passed
    · contradiction
    rename_i valid fresh capable notDenied notExceeded
    refine ⟨not_not.mp valid,fresh,not_not.mp capable,?_⟩
    intro rules policy
    by_contra refused
    have stopped := (verdict_refuses_iff env k).mpr ⟨rules,policy,by simpa using refused⟩
    exact stopped.elim notDenied notExceeded
  · intro admissible
    have passes :
        ¬(policyVerdict env k ctx req = akEPolicyDenied ∨ policyVerdict env k ctx req = akEBudgetExceeded) := by
      rw [verdict_refuses_iff]
      rintro ⟨rules,policy,refused⟩
      rw [admissible.rules rules policy] at refused
      contradiction
    rw [not_or] at passes
    rw [if_neg (not_not.mpr admissible.request),if_neg admissible.replay,if_neg (not_not.mpr admissible.capability),
      if_neg passes.1,if_neg passes.2]

theorem accepted_iff : Accepted env k ctx req ↔ Admissible env k ctx req ∧ Covered ctx req := by
  constructor
  · intro accepted
    obtain ⟨fresh,tracked⟩ := (akCheckReplay_passes_iff ctx req).mp accepted.replay
    have zero := accepted.policy
    rw [policyVerdict_eq,akPolicyEvaluate_zero_iff] at zero
    obtain ⟨rules,policy,admitted,permitted⟩ := zero
    refine ⟨⟨accepted.request,fresh,accepted.capability,?_⟩,tracked,rules,policy,permitted⟩
    intro rules' policy'
    rw [policy,Option.some.injEq] at policy'
    rw [← policy',admitted]
  · rintro ⟨admissible,tracked,rules,policy,permitted⟩
    refine ⟨admissible.request,(akCheckReplay_passes_iff ctx req).mpr ⟨admissible.replay,tracked⟩,
      admissible.capability,?_⟩
    rw [policyVerdict_eq,akPolicyEvaluate_zero_iff]
    exact ⟨rules,policy,admissible.rules rules policy,permitted⟩

theorem akCapabilityValidate_nonpos (env : ValidateEnv) (cap : Option AkCapability) (request : Capability.Request)
    (s : CapState) : (akCapabilityValidate env cap request s).2 ≤ 0 := by
  unfold akCapabilityValidate
  split
  · change akECapMissing ≤ 0
    decide
  rename_i token
  dsimp only
  split
  · exact akCapabilityVerify_nonpos env.verify (some token) s
  split
  · change akECapRevoked ≤ 0
    decide
  unfold akCapabilityCheckScope
  dsimp only
  repeat' split
  all_goals simp [akECapScope,akECapRunMismatch,akECapRate]

theorem akValidateCapability_nonpos (env : AuthorityEnv) (ctx : AgentContext) (req : AkRequest) (caps : CapState) :
    (akValidateCapability env ctx req caps).code ≤ 0 := by
  unfold akValidateCapability
  split
  · exact Int.le_refl 0
  · change akECapScope ≤ 0
    decide
  unfold authorize
  split
  · exact akCapabilityValidate_nonpos _ _ _ _
  split
  · exact akCapabilityValidate_nonpos _ _ _ _
  split
  · dsimp only
    split <;> decide
  · change akECapMissing ≤ 0
    decide

theorem akValidateRequest_nonpos (ctx : AgentContext) (req : AkRequest) : akValidateRequest ctx req ≤ 0 := by
  unfold akValidateRequest
  repeat' split
  all_goals decide

theorem refusal_neg {code : Int} (refused : refusal env k ctx req = some code) : code < 0 := by
  unfold refusal at refused
  split at refused
  · rename_i invalid
    cases refused
    exact lt_of_le_of_ne (akValidateRequest_nonpos ctx req) invalid
  split at refused
  · cases refused
    decide
  split at refused
  · rename_i unauthorized
    cases refused
    exact lt_of_le_of_ne (akValidateCapability_nonpos _ _ _ _) unauthorized
  split at refused
  · cases refused
    decide
  split at refused
  · cases refused
    decide
  · contradiction

theorem budgets_updateContext (k : Kernel) (index : Nat) (change : AgentContext → AgentContext)
    (same : ∀ ctx, k.contexts[index]? = some ctx → (change ctx).budget = ctx.budget) :
    (k.updateContext index change).budgets = k.budgets := by
  apply List.ext_getElem?
  intro place
  rw [Kernel.budgets,Kernel.budgets,Kernel.updateContext,List.getElem?_map,List.getElem?_map,List.getElem?_modify]
  by_cases here : index = place
  · subst here
    cases found : k.contexts[index]? with
    | none => simp
    | some ctx => simp [same ctx found]
  · simp [here]

theorem checked_untouched (found : k.contexts[index]? = some ctx) : Untouched k (checked env k index ctx req) := by
  have noted : (k.updateContext index fun _ => (akCheckReplay ctx req).1).budgets = k.budgets := by
    apply budgets_updateContext
    intro other there
    rw [(akCheckReplay_fields ctx req).2,Option.some.inj (found.symm.trans there)]
  unfold checked
  split
  · exact .refl k
  split
  · exact ⟨rfl,noted,rfl⟩
  exact ⟨rfl,noted,rfl⟩

theorem checked_found (found : k.contexts[index]? = some ctx) (valid : akValidateRequest ctx req = 0) :
    (checked env k index ctx req).contexts[index]? = some (akCheckReplay ctx req).1 := by
  have noted : (k.updateContext index fun _ => (akCheckReplay ctx req).1).contexts[index]? =
      some (akCheckReplay ctx req).1 := by
    rw [Kernel.updateContext,List.getElem?_modify_eq,found]
    rfl
  unfold checked
  rw [if_neg (not_not.mpr valid)]
  split
  · exact noted
  · exact noted

theorem akLogOperation_untouched (env : DispatchEnv) (ctx : AgentContext) (req : AkRequest) (res : Option AkResponse)
    (k : Kernel) : Untouched k (akLogOperation env ctx req res k) := by
  unfold akLogOperation akAuditAppend
  split
  · exact ⟨rfl,rfl,rfl⟩
  · exact .refl k

theorem checked_caps (valid : akValidateRequest ctx req = 0) (fresh : (akCheckReplay ctx req).2 ≠ akEReplay) :
    (checked env k index ctx req).caps = (authorization env k ctx req).caps ∧
      (checked env k index ctx req).initialized = k.initialized := by
  unfold checked
  rw [if_neg (not_not.mpr valid)]
  rw [if_neg fresh]
  exact ⟨rfl,rfl⟩

structure Live (k : Kernel) (context : Option Nat) (request : Option AkRequest) (index : Nat) (ctx : AgentContext)
    (req : AkRequest) : Prop where
  ready : k.initialized = true
  context : context = some index
  found : k.contexts[index]? = some ctx
  request : request = some req

variable {context : Option Nat} {request : Option AkRequest}

theorem akDispatch_live (live : Live k context request index ctx req) :
    akDispatch env k context request =
      { executed env k index ctx req with
        kernel := akLogOperation env ctx req (executed env k index ctx req).response
          (executed env k index ctx req).kernel } := by
  obtain ⟨ready,rfl,found,rfl⟩ := live
  simp [akDispatch,ready,found]

theorem akDispatch_ran (live : Live k context request index ctx req) :
    (akDispatch env k context request).ran = (executed env k index ctx req).ran := by
  rw [akDispatch_live live]

theorem akDispatch_dead (dead : ¬∃ index ctx req, Live k context request index ctx req) :
    akDispatch env k context request = ⟨k,akResponseError env.handler.responseAlloc request (-eInval),none⟩ := by
  unfold akDispatch
  split
  · rfl
  rename_i ready
  split
  · rename_i index ctx req located
    obtain ⟨place,named,there⟩ := Option.bind_eq_some_iff.mp located
    obtain ⟨ctx',found,same⟩ := Option.map_eq_some_iff.mp there
    rw [Prod.mk.injEq] at same
    obtain ⟨rfl,rfl⟩ := same
    exact absurd ⟨place,ctx',req,by simpa using ready,named,found,rfl⟩ dead
  · rfl

theorem akResponseError_isError (alloc : Bool) (code : Int) (nonzero : code ≠ 0) :
    IsError (akResponseError alloc request code) ↔ alloc = true := by
  cases alloc with
  | false => simp [IsError,akResponseError]
  | true => simp [IsError,akResponseError,response,nonzero]

theorem refusal_some (inadmissible : ¬Admissible env k ctx req) : ∃ code, refusal env k ctx req = some code :=
  Option.ne_none_iff_exists'.mp (mt refusal_none_iff.mp inadmissible)

theorem executed_refuse (inadmissible : ¬Admissible env k ctx req) :
    ∃ code, code < 0 ∧ executed env k index ctx req = refuse env (checked env k index ctx req) req code := by
  obtain ⟨code,refused⟩ := refusal_some inadmissible
  exact ⟨code,refusal_neg refused,by rw [executed_eq,refused]⟩

theorem executed_refused (found : k.contexts[index]? = some ctx) (inadmissible : ¬Admissible env k ctx req) :
    (executed env k index ctx req).ran = none ∧ Untouched k (executed env k index ctx req).kernel ∧
      (IsError (executed env k index ctx req).response ↔ env.handler.responseAlloc = true) := by
  obtain ⟨code,negative,refused⟩ := @executed_refuse _ _ index _ _ inadmissible
  rw [refused]
  exact ⟨rfl,checked_untouched found,akResponseError_isError _ code negative.ne⟩

theorem executed_run (admissible : Admissible env k ctx req) {op : SysOp} (known : SysOp.ofCode req.op = some op) :
    executed env k index ctx req =
      ⟨(handle env.handler (checked env k index ctx req) index (akCheckReplay ctx req).1 (authorized env k ctx req) op).1,
        (handle env.handler (checked env k index ctx req) index (akCheckReplay ctx req).1 (authorized env k ctx req) op).2,
        some op⟩ := by
  rw [executed_eq,refusal_none_iff.mpr admissible,known]

theorem executed_admitted (admissible : Admissible env k ctx req) :
    ∃ op, SysOp.ofCode req.op = some op ∧ (executed env k index ctx req).ran = some op := by
  obtain ⟨op,known⟩ := akValidateRequest_op admissible.request
  exact ⟨op,known,by rw [executed_run admissible known]⟩

def AllAccepted (env : DispatchEnv) (k : Kernel) (context : Option Nat) (request : Option AkRequest) : Prop :=
  ∃ index ctx req, Live k context request index ctx req ∧ Accepted env k ctx req

/-- Complete mediation of one dispatch. -/
structure Mediated (env : DispatchEnv) (k : Kernel) (context : Option Nat) (request : Option AkRequest) : Prop where
  gated : ∀ op, (akDispatch env k context request).ran = some op → AllAccepted env k context request
  refused : ¬AllAccepted env k context request →
    IsError (akDispatch env k context request).response ∧ Untouched k (akDispatch env k context request).kernel

theorem Live.unique {index' : Nat} {ctx' : AgentContext} {req' : AkRequest}
    (first : Live k context request index ctx req) (second : Live k context request index' ctx' req') :
    ctx' = ctx ∧ req' = req := by
  have place : index = index' := Option.some.inj (first.context.symm.trans second.context)
  subst place
  exact ⟨Option.some.inj (second.found.symm.trans first.found),
    Option.some.inj (second.request.symm.trans first.request)⟩

theorem allAccepted_iff (live : Live k context request index ctx req) :
    AllAccepted env k context request ↔ Accepted env k ctx req := by
  constructor
  · rintro ⟨index',ctx',req',live',accepted⟩
    obtain ⟨rfl,rfl⟩ := live.unique live'
    exact accepted
  · intro accepted
    exact ⟨index,ctx,req,live,accepted⟩

theorem mediated_live (live : Live k context request index ctx req) :
    Mediated env k context request ↔
      (Admissible env k ctx req → Covered ctx req) ∧
        (¬Admissible env k ctx req → env.handler.responseAlloc = true) := by
  have dispatched := @akDispatch_live env _ _ _ _ _ _ live
  by_cases admissible : Admissible env k ctx req
  · obtain ⟨op,_,ran⟩ := @executed_admitted env k index ctx req admissible
    constructor
    · intro mediated
      have accepted := mediated.gated op (by rw [dispatched]; exact ran)
      rw [allAccepted_iff live,accepted_iff] at accepted
      exact ⟨fun _ => accepted.2,absurd admissible⟩
    · rintro ⟨covered,_⟩
      have accepted : AllAccepted env k context request := by
        rw [allAccepted_iff live,accepted_iff]
        exact ⟨admissible,covered admissible⟩
      exact ⟨fun _ _ => accepted,absurd accepted⟩
  · obtain ⟨idle,untouched,answered⟩ := @executed_refused env k index ctx req live.found admissible
    have rejected : ¬AllAccepted env k context request := by
      rw [allAccepted_iff live,accepted_iff]
      exact fun both => admissible both.1
    constructor
    · intro mediated
      have error := (mediated.refused rejected).1
      rw [dispatched] at error
      exact ⟨fun admitted => absurd admitted admissible,fun _ => answered.mp error⟩
    · rintro ⟨_,alloc⟩
      constructor
      · intro op ran
        rw [dispatched] at ran
        simp [idle] at ran
      · intro _
        rw [dispatched]
        exact ⟨answered.mpr (alloc admissible),untouched.trans (akLogOperation_untouched _ _ _ _ _)⟩

theorem mediated_dead (dead : ¬∃ index ctx req, Live k context request index ctx req) :
    Mediated env k context request ↔ env.handler.responseAlloc = true := by
  have rejected : ¬AllAccepted env k context request := by
    rintro ⟨index,ctx,req,live,_⟩
    exact dead ⟨index,ctx,req,live⟩
  have answered := @akResponseError_isError request env.handler.responseAlloc (-eInval) (by decide)
  constructor
  · intro mediated
    have error := (mediated.refused rejected).1
    rw [akDispatch_dead dead] at error
    exact answered.mp error
  · intro alloc
    constructor
    · intro op ran
      rw [akDispatch_dead dead] at ran
      contradiction
    · intro _
      rw [akDispatch_dead dead]
      exact ⟨answered.mpr alloc,.refl k⟩

/-- Mediation fails exactly on a request that the dispatcher's own checks pass and that
no tracker, no policy or the taint rules should have stopped, and on a refusal that
finds no memory for its answer. -/
theorem akDispatch_mediated_iff (env : DispatchEnv) (k : Kernel) (context : Option Nat) (request : Option AkRequest) :
    Mediated env k context request ↔
      (∀ index ctx req, Live k context request index ctx req → Admissible env k ctx req → Covered ctx req) ∧
        ((∀ index ctx req, Live k context request index ctx req → ¬Admissible env k ctx req) →
          env.handler.responseAlloc = true) := by
  by_cases alive : ∃ index ctx req, Live k context request index ctx req
  · obtain ⟨index,ctx,req,live⟩ := alive
    rw [mediated_live live]
    constructor
    · rintro ⟨covers,answers⟩
      refine ⟨?_,fun none => answers (none index ctx req live)⟩
      intro index' ctx' req' live' admissible
      obtain ⟨rfl,rfl⟩ := live.unique live'
      exact covers admissible
    · rintro ⟨covers,answers⟩
      refine ⟨covers index ctx req live,fun inadmissible => answers ?_⟩
      intro index' ctx' req' live' admissible
      obtain ⟨rfl,rfl⟩ := live.unique live'
      exact inadmissible admissible
  · rw [mediated_dead alive]
    constructor
    · intro alloc
      exact ⟨fun index ctx req live _ => absurd ⟨index,ctx,req,live⟩ alive,fun _ => alloc⟩
    · rintro ⟨_,answers⟩
      exact answers fun index ctx req live => absurd ⟨index,ctx,req,live⟩ alive

def Needs (op : SysOp) (args : Option Bytes) : Prop :=
  ∃ type resource method, requirement (some op) args = .needs type resource method

theorem Entrusted.admissible {cap : AkCapability} (entrusted : Entrusted env.authority ctx cap k.caps) (op : SysOp)
    (own : req.pid = ctx.pid ∧ req.runId = ctx.runId) (known : SysOp.ofCode req.op = some op)
    (fresh : (akCheckReplay ctx req).2 ≠ akEReplay) (bare : req.cap = none) (needed : Needs op req.args)
    (rules : ∀ rules, ctx.policy = some rules → rulesAdmit rules ctx.budget req = true) :
    Admissible env k ctx req ∧ authorization env k ctx req = ⟨k.caps,0,some cap⟩ := by
  obtain ⟨type,resource,method,needed⟩ := needed
  have authorizes := (entrusted.replayed req).authorizes req type resource method bare (by rw [known,needed])
  have valid := akValidateRequest_eq_zero own.1 own.2 known
  exact ⟨⟨valid,fresh,by rw [authorization,authorizes],rules⟩,authorizes⟩

theorem opened_live (policy : Option AkPolicy) (req : AkRequest) :
    Live (opened policy) (some 0) (some req) 0 (openContext policy) req := by
  rw [opened_eq]
  exact ⟨rfl,rfl,rfl,rfl⟩

theorem opened_admissible (policy : AkPolicy) (op : SysOp) (own : req.pid = Block.zero 16 ∧ req.runId = Block.zero 16)
    (known : SysOp.ofCode req.op = some op) (first : ¬req.seq ≤ 0) (bare : req.cap = none) (needed : Needs op req.args)
    (admitted : rulesAdmit policy (openContext (some policy)).budget req = true) :
    Admissible plainDispatch (opened (some policy)) (openContext (some policy)) req := by
  have entrusted :
      Entrusted plainDispatch.authority (openContext (some policy)) openToken (opened (some policy)).caps := by
    rw [opened_eq]
    exact ⟨rfl,rfl,rfl,openToken_unrestricted,openToken_good⟩
  refine (entrusted.admissible op own known ?_ bare needed ?_).1
  · change (akSeqTrackerCheck akSeqTrackerCreate req.seq).2 ≠ akEReplay
    rw [ne_eq,akSeqTrackerCheck_replay_iff]
    exact first
  · intro rules same
    rw [← Option.some.inj same]
    exact admitted

def plainLoad : Policy.LoadEnv := ⟨true,fun _ => true,true,true⟩

theorem loads_of_decide {document : Bytes} (holds : AkPolicy → Prop) [DecidablePred holds]
    (loads : (akPolicyLoad plainLoad none document).any (fun policy => decide (holds policy)) = true) :
    ∃ policy, akPolicyLoad plainLoad none document = some policy ∧ holds policy := by
  obtain ⟨policy,loaded,checks⟩ := (Option.any_eq_true _ _).mp loads
  exact ⟨policy,loaded,of_decide_eq_true checks⟩

def sinkDocument : Bytes :=
  ascii "\x7b\"tools\": \x7b\"allow\": [\"shell_exec\"]\x7d, \"taint\": \x7b\"sinks\": [\"shell_exec\"]\x7d\x7d"

def taintedCall : AkRequest :=
  ⟨Block.zero 16,Block.zero 16,1,SysOp.call.code,some (ascii "\x7b\"tool\": \"shell_exec\"\x7d"),none,.untrusted⟩

theorem sinkDocument_loads :
    ∃ policy, akPolicyLoad plainLoad none sinkDocument = some policy ∧ flowPermitted policy taintedCall = false ∧
      rulesAdmit policy (openContext (some policy)).budget taintedCall = true :=
  loads_of_decide _ (by decide +kernel)

theorem taintedCall_needs :
    requirement (some .call) taintedCall.args = .needs .tool (text "shell_exec") "invoke" := by
  have named : presentField (akJsonExtractString taintedCall.args "tool" akMaxResource) = some (text "shell_exec") := by
    decide +kernel
  simp only [requirement,namedResource,named]

theorem tainted_call_reaches_its_handler :
    ∃ policy, akPolicyLoad plainLoad none sinkDocument = some policy ∧
      policyVerdict plainDispatch (opened (some policy)) (openContext (some policy)) taintedCall = akETaint ∧
      (akDispatch plainDispatch (opened (some policy)) (some 0) (some taintedCall)).ran = some .call ∧
      ¬Mediated plainDispatch (opened (some policy)) (some 0) (some taintedCall) := by
  obtain ⟨policy,loaded,forbidden,admitted⟩ := sinkDocument_loads
  have live := opened_live (some policy) taintedCall
  have admissible := opened_admissible policy .call ⟨rfl,rfl⟩ (SysOp.ofCode_code .call) (by decide) rfl
    ⟨_,_,_,taintedCall_needs⟩ admitted
  refine ⟨policy,loaded,?_,?_,?_⟩
  · rw [policyVerdict_eq]
    rcases akPolicyEvaluate_some policy (openContext (some policy)).budget taintedCall with
      ⟨refused,_⟩ | ⟨_,answer⟩
    · exact absurd (admitted.symm.trans refused) (by decide)
    · rw [forbidden,if_neg Bool.false_ne_true] at answer
      exact answer
  · obtain ⟨op,known,ran⟩ := @executed_admitted _ _ 0 _ _ admissible
    rw [akDispatch_ran live,ran,← known]
    exact SysOp.ofCode_code .call
  · intro mediated
    obtain ⟨rules,same,permitted⟩ := (((mediated_live live).mp mediated).1 admissible).flow
    have rule : policy = rules := Option.some.inj same
    rw [← rule,forbidden] at permitted
    exact Bool.false_ne_true permitted

end AuthorityKernel.Dispatch
