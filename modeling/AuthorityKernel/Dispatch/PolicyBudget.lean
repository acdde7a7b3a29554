import AuthorityKernel.Dispatch.BudgetInvariant

/-! What a policy's budgets for calls and tokens bound. The policy stage compares them with
counters that no handler advances, so a budget is either never met or never spent. -/
namespace AuthorityKernel.Dispatch
open Library Library.Run Capability Budget Policy Json

def passes (ops : List SysOp) (k : Kernel) (call : Call) : Bool :=
  (akDispatch call.env k call.context call.request).ran.any (ops.contains ·)

def tally (ops : List SysOp) : Kernel → List Call → Nat
  | _, [] => 0
  | k, call :: rest => (if passes ops k call then 1 else 0) + tally ops (dispatchStep k call) rest

/-- A context as `ak_context_create` makes it, whatever capabilities it was given. -/
structure CreatedUnder (policy : AkPolicy) (ctx : AgentContext) : Prop where
  rules : ctx.policy = some policy
  budget : ctx.budget = some (akBudgetCreate (some policy.budgets))
  tracker : ctx.seqTracker = some akSeqTrackerCreate

/-- The budgets of a policy bound what any run on a context created with it can do. -/
def BudgetsBound (policy : AkPolicy) : Prop :=
  ∀ k index ctx calls, k.contexts[index]? = some ctx → CreatedUnder policy ctx →
    (∀ call ∈ calls, call.context = some index) →
      tally [.call] k calls ≤ policy.budgets.calls.toNat ∧
        1000 * tally [.inference,.inferIssue] k calls ≤ policy.budgets.tokens.toNat

structure Underway (policy : AkPolicy) (seen : Nat) (ctx : AgentContext) : Prop where
  rules : ctx.policy = some policy
  counters : ∃ tracker, ctx.budget = some tracker ∧ tracker.used .calls = 0 ∧ tracker.used .tokens = 0 ∧
    tracker.limits .calls = policy.budgets.calls ∧ tracker.limits .tokens = policy.budgets.tokens
  tracker : ∃ tracker, ctx.seqTracker = some tracker ∧ tracker.highestSeen.toNat = seen

variable (ops : List SysOp) (calls : List Call)

variable {policy : AkPolicy} {ctx : AgentContext}

theorem CreatedUnder.underway (created : CreatedUnder policy ctx) :
    Underway policy 0 ctx :=
  ⟨created.rules,⟨_,created.budget,rfl,rfl,rfl,rfl⟩,⟨_,created.tracker,rfl⟩⟩

variable {charges : List (Resource × UInt64)} {index : Nat} {budget : Option BudgetTracker} {args : Option Bytes}
  {op : SysOp}

theorem Charge.spares {env : HandlerEnv} (made : Charge env budget args op charges) (tracker : BudgetTracker) :
    (chargeAll charges tracker).used .calls = tracker.used .calls ∧
      (chargeAll charges tracker).used .tokens = tracker.used .tokens ∧
      (chargeAll charges tracker).limits = tracker.limits := by
  cases made <;> exact ⟨rfl,rfl,rfl⟩

section Steps
variable {env : DispatchEnv} {k : Kernel} {ctx after : AgentContext} {req : AkRequest} {policy : AkPolicy} {seen : Nat}

theorem Underway.replayed (underway : Underway policy seen ctx) (req : AkRequest) :
    ((akCheckReplay ctx req).2 = akEReplay ∧ Underway policy seen (akCheckReplay ctx req).1) ∨
      (seen < req.seq.toNat ∧ Underway policy req.seq.toNat (akCheckReplay ctx req).1) := by
  obtain ⟨rules,counters,tracker,held,highest⟩ := underway
  unfold akCheckReplay
  rw [held]
  by_cases replay : req.seq ≤ tracker.highestSeen
  · refine Or.inl ⟨(akSeqTrackerCheck_replay_iff _ _).mpr replay,rules,counters,_,rfl,?_⟩
    rw [akSeqTrackerCheck_seen tracker req.seq replay,highest]
  refine Or.inr ⟨?_,rules,counters,_,rfl,?_⟩
  · rw [UInt64.not_le,UInt64.lt_iff_toNat_lt,highest] at replay
    exact replay
  · rw [(akSeqTrackerCheck_fresh tracker req.seq replay).2]

theorem Underway.charged (underway : Underway policy seen ctx) {handler : HandlerEnv} (flight : Option Bool)
    (made : Charge handler budget args op charges) : Underway policy seen (ctx.charged charges flight) := by
  obtain ⟨rules,⟨tracker,held,calls,tokens,callLimit,tokenLimit⟩,highest⟩ := underway
  obtain ⟨sameCalls,sameTokens,sameLimits⟩ := made.spares tracker
  refine ⟨rules,⟨chargeAll charges tracker,?_,?_,?_,?_,?_⟩,highest⟩
  · rw [AgentContext.charged,held]
    rfl
  · rw [sameCalls,calls]
  · rw [sameTokens,tokens]
  · rw [sameLimits,callLimit]
  · rw [sameLimits,tokenLimit]

theorem Underway.next (underway : Underway policy seen ctx) (moved : Next env k ctx req after) :
    ∃ seen', Underway policy seen' after ∧ seen ≤ seen' ∧
      (Admissible env k ctx req → seen' = req.seq.toNat ∧ seen < seen') := by
  cases moved with
  | invalid refused => exact ⟨seen,underway,le_rfl,fun admissible => absurd admissible refused⟩
  | refused refused =>
    rcases underway.replayed req with ⟨_,same⟩ | ⟨later,noted⟩
    · exact ⟨seen,same,le_rfl,fun admissible => absurd admissible refused⟩
    · exact ⟨_,noted,later.le,fun admissible => absurd admissible refused⟩
  | ran op charges flight admissible known made =>
    rcases underway.replayed req with ⟨replay,_⟩ | ⟨later,noted⟩
    · exact absurd replay admissible.replay
    · exact ⟨_,noted.charged flight made,later.le,fun _ => ⟨rfl,later⟩⟩

/-- The operations whose estimated cost a budget that was never charged can cover, and
whose rules can be met. -/
def Spendable (policy : AkPolicy) (op : SysOp) : Prop :=
  match op with
  | .call => policy.budgets.calls ≠ 0 ∧ ∃ args, callPermitted policy args = true
  | .inference => 1000 ≤ policy.budgets.tokens.toNat
  | .inferIssue => 1000 ≤ policy.budgets.tokens.toNat
  | _ => True

theorem Underway.spendable (underway : Underway policy seen ctx) (admissible : Admissible env k ctx req) (op : SysOp)
    (known : SysOp.ofCode req.op = some op) : Spendable policy op := by
  obtain ⟨rules,⟨tracker,held,calls,tokens,callLimit,tokenLimit⟩,_⟩ := underway
  have admits := admissible.rules policy rules
  rw [rulesAdmit,held,known,Bool.and_eq_true] at admits
  obtain ⟨budget,permitted⟩ := admits
  have room : (estimatedCost (some op)).2 = 0 ∨ (tracker.used (estimatedCost (some op)).1).toNat +
      (estimatedCost (some op)).2.toNat ≤ (tracker.limits (estimatedCost (some op)).1).toNat := by
    rw [← akBudgetFits_iff]
    simpa [budgetAdmits,akBudgetCheck] using budget
  cases op with
  | call =>
    simp only [estimatedCost,calls,callLimit] at room
    refine ⟨?_,req.args,by simpa using permitted⟩
    intro zero
    rw [zero] at room
    exact absurd room (by decide)
  | inference | inferIssue => simpa [Spendable,estimatedCost,tokens,tokenLimit] using room
  | _ => trivial

theorem dispatchStep_underway (found : k.contexts[index]? = some ctx) (underway : Underway policy seen ctx)
    (call : Call) (own : call.context = some index) :
    ∃ ctx' seen', (dispatchStep k call).contexts[index]? = some ctx' ∧ Underway policy seen' ctx' ∧ seen ≤ seen' ∧
      ∀ op, (akDispatch call.env k call.context call.request).ran = some op → seen < seen' ∧ Spendable policy op := by
  by_cases alive : ∃ index ctx req, Live k call.context call.request index ctx req
  · obtain ⟨place,ctx',req,live⟩ := alive
    obtain rfl : index = place := Option.some.inj (own.symm.trans live.context)
    obtain rfl : ctx = ctx' := Option.some.inj (found.symm.trans live.found)
    obtain ⟨after,newborn,moved,_,contexts⟩ := @akDispatch_next call.env _ _ _ _ _ _ live
    obtain ⟨seen',kept,later,admitted⟩ := underway.next moved
    have inside : index < k.contexts.length := (List.getElem?_eq_some_iff.mp found).1
    refine ⟨after,seen',?_,kept,later,?_⟩
    · rw [dispatchStep,contexts,List.getElem?_append_left (by simpa using inside),List.getElem?_set_self inside]
    · intro op ran
      rw [akDispatch_ran live] at ran
      by_cases admissible : Admissible call.env k ctx req
      · obtain ⟨op',known,ran'⟩ := @executed_admitted call.env k index ctx req admissible
        obtain rfl : op' = op := Option.some.inj (ran'.symm.trans ran)
        exact ⟨(admitted admissible).2,underway.spendable admissible op' known⟩
      · rw [(executed_refused live.found admissible).1] at ran
        contradiction
  · rw [dispatchStep,akDispatch_dead alive]
    exact ⟨ctx,seen,found,underway,le_rfl,fun op ran => by contradiction⟩

theorem tally_le (k : Kernel) (ctx : AgentContext) (seen : Nat) (found : k.contexts[index]? = some ctx)
    (underway : Underway policy seen ctx) (own : ∀ call ∈ calls, call.context = some index)
    : seen + tally ops k calls ≤ 18446744073709551615 := by
  induction calls generalizing k ctx seen with
  | nil =>
    obtain ⟨tracker,_,highest⟩ := underway.tracker
    have range := tracker.highestSeen.toNat_lt
    rw [tally]
    omega
  | cons call rest ih =>
    obtain ⟨ctx',seen',found',underway',later,ran⟩ := dispatchStep_underway found underway call (own call (by simp))
    have tail := ih _ ctx' seen' found' underway' (fun call member => own call (by simp [member]))
    rw [tally]
    split
    · rename_i passed
      obtain ⟨op,some,_⟩ := (Option.any_eq_true _ _).mp passed
      have strict := (ran op some).1
      omega
    · omega

theorem tally_eq_zero (k : Kernel) (ctx : AgentContext) (seen : Nat) (found : k.contexts[index]? = some ctx)
    (underway : Underway policy seen ctx) (own : ∀ call ∈ calls, call.context = some index)
    (stopped : ∀ op ∈ ops, ¬Spendable policy op) : tally ops k calls = 0 := by
  induction calls generalizing k ctx seen with
  | nil => rfl
  | cons call rest ih =>
    obtain ⟨ctx',seen',found',underway',_,ran⟩ := dispatchStep_underway found underway call (own call (by simp))
    rw [tally,ih _ ctx' seen' found' underway' (fun call member => own call (by simp [member]))]
    split
    · rename_i passed
      obtain ⟨op,some,listed⟩ := (Option.any_eq_true _ _).mp passed
      exact absurd (ran op some).2 (stopped op (by simpa using listed))
    · rfl

end Steps

theorem budgetsBound_of
    (calls : policy.budgets.calls = 0 ∨ policy.budgets.calls = akBudgetUnlimited ∨
      ∀ args, callPermitted policy args = false)
    (tokens : policy.budgets.tokens < 1000) : BudgetsBound policy := by
  intro k index ctx run found created own
  have unaffordable : ¬1000 ≤ policy.budgets.tokens.toNat := by
    rw [not_le]
    exact UInt64.lt_iff_toNat_lt.mp tokens
  constructor
  · have stopped : (∀ op ∈ [SysOp.call], ¬Spendable policy op) → tally [.call] k run ≤ policy.budgets.calls.toNat := by
      intro stopped
      rw [tally_eq_zero _ run k ctx 0 found created.underway own stopped]
      exact Nat.zero_le _
    rcases calls with zero | unlimited | forbidden
    · apply stopped
      simp [Spendable,zero]
    · rw [unlimited]
      have bound := tally_le [.call] run k ctx 0 found created.underway own
      exact (Nat.zero_add _).symm.le.trans bound
    · apply stopped
      simp [Spendable,forbidden]
  · rw [tally_eq_zero _ run k ctx 0 found created.underway own (by simpa [Spendable] using unaffordable)]
    exact Nat.zero_le _

theorem Next.authority {env : DispatchEnv} {k : Kernel} {after : AgentContext} {req : AkRequest}
    (moved : Next env k ctx req after) : after.pid = ctx.pid ∧ after.runId = ctx.runId ∧ after.rootCap = ctx.rootCap ∧
      after.delegatedCaps = ctx.delegatedCaps := by
  obtain ⟨tracker,kept⟩ := akCheckReplay_kept ctx req
  cases moved with
  | invalid => exact ⟨rfl,rfl,rfl,rfl⟩
  | refused | ran =>
    rw [kept]
    exact ⟨rfl,rfl,rfl,rfl⟩

structure Ready (policy : AkPolicy) (seen : Nat) (k : Kernel) : Prop where
  initialized : k.initialized = true
  caps : k.caps = akKeysInit 0 (Block.zero 32) .static
  agent : ∃ ctx, k.contexts[0]? = some ctx ∧ Underway policy seen ctx ∧ ctx.pid = Block.zero 16 ∧
    ctx.runId = Block.zero 16 ∧ ctx.rootCap = none ∧ ctx.delegatedCaps = some [openToken]

theorem opened_ready (policy : AkPolicy) : Ready policy 0 (opened (some policy)) := by
  rw [opened_eq]
  exact ⟨rfl,rfl,openContext (some policy),rfl,CreatedUnder.underway ⟨rfl,rfl,rfl⟩,rfl,rfl,rfl,rfl⟩

def askRequest (op : SysOp) (args : Bytes) (seq : UInt64) : AkRequest :=
  ⟨Block.zero 16,Block.zero 16,seq,op.code,some args,none,.trusted⟩

def ask (op : SysOp) (args : Bytes) (seq : Nat) : Call :=
  ⟨plainDispatch,some 0,some (askRequest op args (UInt64.ofNat seq))⟩

def asks (op : SysOp) (args : Bytes) (first : Nat) : Nat → List Call
  | 0 => []
  | count + 1 => ask op args first :: asks op args (first + 1) count

def KeepsCaps (env : HandlerEnv) (op : SysOp) : Prop :=
  ∀ k index ctx req, (handle env k index ctx req op).1.caps = k.caps ∧
    (handle env k index ctx req op).1.initialized = k.initialized

theorem call_keepsCaps : KeepsCaps plainHandler .call := by
  intro k index ctx req
  simp only [handle,akHandleCall]
  repeat' split
  all_goals exact ⟨rfl,rfl⟩

theorem inferIssue_keepsCaps : KeepsCaps plainHandler .inferIssue := by
  intro k index ctx req
  simp only [handle,akHandleInferIssue]
  repeat' split
  all_goals exact ⟨rfl,rfl⟩

theorem Underway.admits {seen : Nat} (underway : Underway policy seen ctx)
    (op : SysOp) (args : Bytes) (seq : UInt64)
    (spendable : (op = .call ∧ policy.budgets.calls ≠ 0 ∧ callPermitted policy (some args) = true) ∨
      (op = .inferIssue ∧ 1000 ≤ policy.budgets.tokens.toNat)) :
    rulesAdmit policy ctx.budget (askRequest op args seq) = true := by
  obtain ⟨_,⟨tracker,held,calls,tokens,callLimit,tokenLimit⟩,_⟩ := underway
  rw [rulesAdmit,held,askRequest,SysOp.ofCode_code]
  rcases spendable with ⟨rfl,positive,permitted⟩ | ⟨rfl,enough⟩
  · have room : akBudgetFits (tracker.used .calls) (tracker.limits .calls) 1 = true := by
      rw [akBudgetFits_iff,calls,callLimit]
      have nonzero : policy.budgets.calls.toNat ≠ 0 := fun zero => positive (UInt64.toNat_inj.mp zero)
      change 0 + 1 ≤ _
      omega
    simp [budgetAdmits,estimatedCost,akBudgetCheck,room,permitted]
  · have room : akBudgetFits (tracker.used .tokens) (tracker.limits .tokens) 1000 = true := by
      rw [akBudgetFits_iff,tokens,tokenLimit]
      change 0 + 1000 ≤ _
      omega
    simp [budgetAdmits,estimatedCost,akBudgetCheck,room]

theorem Underway.fresh {seen : Nat} (underway : Underway policy seen ctx)
    (req : AkRequest) (later : seen < req.seq.toNat) : (akCheckReplay ctx req).2 ≠ akEReplay := by
  obtain ⟨tracker,held,highest⟩ := underway.tracker
  unfold akCheckReplay
  rw [held]
  rw [ne_eq,akSeqTrackerCheck_replay_iff,UInt64.not_le,UInt64.lt_iff_toNat_lt,highest]
  exact later

section Ready

variable {policy : AkPolicy} {seen : Nat} {k : Kernel} {env : DispatchEnv} {req : AkRequest} {op : SysOp}

/-- A request of the one agent that its token and the rules of its policy let through. -/
structure Asked (policy : AkPolicy) (seen : Nat) (k : Kernel) (env : DispatchEnv) (req : AkRequest) (op : SysOp) : Prop where
  authority : env.authority = plainDispatch.authority
  own : req.pid = Block.zero 16 ∧ req.runId = Block.zero 16
  bare : req.cap = none
  known : SysOp.ofCode req.op = some op
  needed : Needs op req.args
  admits : ∀ ctx, k.contexts[0]? = some ctx → Underway policy seen ctx → rulesAdmit policy ctx.budget req = true

theorem Ready.admissible (ready : Ready policy seen k) (asked : Asked policy seen k env req op)
    (later : seen < req.seq.toNat) :
    ∃ ctx, Live k (some 0) (some req) 0 ctx req ∧ Underway policy seen ctx ∧ ctx.pid = Block.zero 16 ∧
      ctx.runId = Block.zero 16 ∧ ctx.rootCap = none ∧ ctx.delegatedCaps = some [openToken] ∧
      Admissible env k ctx req ∧ authorization env k ctx req = ⟨k.caps,0,some openToken⟩ := by
  obtain ⟨initialized,caps,ctx,found,underway,pid,run,root,grants⟩ := ready
  have entrusted : Entrusted env.authority ctx openToken k.caps := by
    rw [asked.authority]
    exact ⟨root,grants,run.symm,openToken_unrestricted,caps ▸ openToken_good⟩
  have rules : ∀ rules, ctx.policy = some rules → rulesAdmit rules ctx.budget req = true := by
    intro rules same
    rw [← Option.some.inj (underway.rules.symm.trans same)]
    exact asked.admits ctx found underway
  obtain ⟨admissible,authorizes⟩ := @Entrusted.admissible env k ctx req openToken entrusted op
    (by rw [pid,run]; exact asked.own) asked.known (underway.fresh req later) asked.bare asked.needed rules
  exact ⟨ctx,⟨initialized,rfl,found,rfl⟩,underway,pid,run,root,grants,admissible,authorizes⟩

theorem Ready.step (ready : Ready policy seen k) (asked : Asked policy seen k env req op)
    (number : req.seq.toNat = seen + 1) (keeps : KeepsCaps env.handler op) :
    (akDispatch env k (some 0) (some req)).ran = some op ∧
      Ready policy (seen + 1) (akDispatch env k (some 0) (some req)).kernel := by
  obtain ⟨ctx,live,underway,pid,run,root,grants,admissible,authorizes⟩ := ready.admissible asked (by omega)
  have known := asked.known
  obtain ⟨after,newborn,moved,_,contexts⟩ := @akDispatch_next env _ _ _ _ _ _ live
  obtain ⟨seen',kept,_,noted⟩ := underway.next moved
  obtain ⟨samePid,sameRun,sameRoot,sameGrants⟩ := moved.authority
  have inside : 0 < k.contexts.length := (List.getElem?_eq_some_iff.mp live.found).1
  obtain ⟨handledCaps,handledReady⟩ := keeps (checked env k 0 ctx req) 0 (akCheckReplay ctx req).1
    (authorized env k ctx req)
  obtain ⟨stageCaps,stageReady⟩ := @checked_caps env k 0 ctx req admissible.request admissible.replay
  have kernel := @akDispatch_live env _ _ _ _ _ _ live
  refine ⟨by rw [akDispatch_ran live,executed_run admissible known],?_,?_,after,?_,?_,?_,?_,?_,?_⟩
  · rw [kernel,(akLogOperation_kept ..).2.2,executed_run admissible known]
    exact handledReady.trans (stageReady.trans ready.initialized)
  · rw [kernel,(akLogOperation_kept ..).2.1,executed_run admissible known]
    exact handledCaps.trans (stageCaps.trans (by rw [authorizes]; exact ready.caps))
  · rw [contexts,List.getElem?_append_left (by simpa using inside),List.getElem?_set_self inside]
  · rw [← number,← (noted admissible).1]
    exact kept
  · rw [samePid,pid]
  · rw [sameRun,run]
  · rw [sameRoot,root]
  · rw [sameGrants,grants]

end Ready

theorem tally_asks (policy : AkPolicy) (ops : List SysOp) (op : SysOp) (args : Bytes) (listed : op ∈ ops)
    (keeps : KeepsCaps plainHandler op) (needed : Needs op (some args))
    (spendable : (op = .call ∧ policy.budgets.calls ≠ 0 ∧ callPermitted policy (some args) = true) ∨
      (op = .inferIssue ∧ 1000 ≤ policy.budgets.tokens.toNat))
    (count seen : Nat) (k : Kernel) (ready : Ready policy seen k) (fits : seen + count < 18446744073709551616) :
    tally ops k (asks op args (seen + 1) count) = count := by
  induction count generalizing seen k with
  | zero => rfl
  | succ count ih =>
    have small : seen + 1 < UInt64.size := by
      change _ < 18446744073709551616
      omega
    have asked : Asked policy seen k plainDispatch (askRequest op args (UInt64.ofNat (seen + 1))) op :=
      ⟨rfl,⟨rfl,rfl⟩,rfl,SysOp.ofCode_code op,needed,fun ctx _ underway => underway.admits op args _ spendable⟩
    obtain ⟨ran,next⟩ := ready.step asked (UInt64.toNat_ofNat_of_lt' small) keeps
    have passed : passes ops k (ask op args (seen + 1)) = true := by
      rw [passes,ask,ran]
      simpa using listed
    rw [asks,tally,passed,if_pos rfl,dispatchStep,ask,ih (seen + 1) _ next (by omega)]
    omega

theorem asks_context (op : SysOp) (args : Bytes) (first count : Nat) :
    ∀ call ∈ asks op args first count, call.context = some 0 := by
  induction count generalizing first with
  | zero => simp [asks]
  | succ count ih =>
    rw [asks]
    intro call member
    rcases List.mem_cons.mp member with rfl | later
    · rfl
    · exact ih (first + 1) call later

theorem callPermitted_needs (policy : AkPolicy) (args : Bytes) (permitted : callPermitted policy (some args) = true) :
    Needs .call (some args) := by
  unfold callPermitted jsonGetStringField akJsonExtractString at permitted
  simp only [Needs,requirement,namedResource,akJsonExtractString]
  cases named : stringValue "tool" args with
  | none => simp [named,presentField] at permitted
  | some value =>
    cases value with
    | nil => simp [named,presentField] at permitted
    | cons byte rest => exact ⟨.tool,.ofBuffer ((byte :: rest).take (akMaxResource - 1)),"invoke",rfl⟩

def modelArgs : Bytes := ascii "\x7b\"model\": \"m\"\x7d"

theorem modelArgs_needs : Needs .inferIssue (some modelArgs) := by
  refine ⟨.inference,text "m","inference",?_⟩
  have named : presentField (akJsonExtractString (some modelArgs) "model" akMaxResource) = some (text "m") := by
    decide +kernel
  simp only [requirement,namedResource,named]

/-- Exactly the policies that let nothing through, or that set no limit on calls, bound
the runs under them. -/
theorem policy_budgets_bound_iff (policy : AkPolicy) :
    BudgetsBound policy ↔
      (policy.budgets.calls = 0 ∨ policy.budgets.calls = akBudgetUnlimited ∨
        ∀ args, callPermitted policy args = false) ∧ policy.budgets.tokens < 1000 := by
  constructor
  · intro bound
    have runs := fun calls => bound (opened (some policy)) 0 (openContext (some policy)) calls
      (opened_live (some policy) taintedCall).found ⟨rfl,rfl,rfl⟩
    constructor
    · by_contra spends
      simp only [not_or,not_forall,Bool.not_eq_false] at spends
      obtain ⟨positive,limited,args,permitted⟩ := spends
      cases args with
      | none => simp [callPermitted,jsonGetStringField,akJsonExtractString,presentField] at permitted
      | some args =>
        have room : policy.budgets.calls.toNat + 1 < 18446744073709551616 := by
          have range := policy.budgets.calls.toNat_lt
          have below : policy.budgets.calls.toNat ≠ akBudgetUnlimited.toNat :=
            fun same => limited (UInt64.toNat_inj.mp same)
          change _ ≠ 18446744073709551615 at below
          omega
        have count := tally_asks policy [.call] .call args (by simp) call_keepsCaps
          (callPermitted_needs policy args permitted) (Or.inl ⟨rfl,positive,permitted⟩) (policy.budgets.calls.toNat + 1) 0 _
          (opened_ready policy) (by omega)
        have bounded := (runs _ (asks_context .call args 1 (policy.budgets.calls.toNat + 1))).1
        rw [count] at bounded
        omega
    · by_contra enough
      rw [UInt64.not_lt,UInt64.le_iff_toNat_le] at enough
      have range := policy.budgets.tokens.toNat_lt
      have count := tally_asks policy [.inference,.inferIssue] .inferIssue modelArgs (by simp) inferIssue_keepsCaps
        modelArgs_needs (Or.inr ⟨rfl,enough⟩) (policy.budgets.tokens.toNat / 1000 + 1) 0 _ (opened_ready policy) (by omega)
      have bounded := (runs _ (asks_context .inferIssue modelArgs 1 (policy.budgets.tokens.toNat / 1000 + 1))).2
      rw [count] at bounded
      omega
  · rintro ⟨calls,tokens⟩
    exact budgetsBound_of calls tokens

def oneCallDocument : Bytes :=
  ascii "\x7b\"budgets\": \x7b\"tokens\": 1000, \"calls\": 1\x7d, \"tools\": \x7b\"allow\": [\"*\"]\x7d\x7d"

def fetchArgs : Bytes := ascii "\x7b\"tool\": \"fetch\"\x7d"

theorem oneCallDocument_loads :
    ∃ policy, akPolicyLoad plainLoad none oneCallDocument = some policy ∧ policy.budgets.calls = 1 ∧
      policy.budgets.tokens = 1000 ∧ callPermitted policy (some fetchArgs) = true :=
  loads_of_decide _ (by decide +kernel)

theorem budgets_are_never_spent :
    ∃ policy, akPolicyLoad plainLoad none oneCallDocument = some policy ∧
      policy.budgets.calls = 1 ∧ tally [.call] (opened (some policy)) (asks .call fetchArgs 1 2) = 2 ∧
      policy.budgets.tokens = 1000 ∧
      tally [.inference,.inferIssue] (opened (some policy)) (asks .inferIssue modelArgs 1 2) = 2 ∧
      ¬BudgetsBound policy := by
  obtain ⟨policy,loaded,calls,tokens,permitted⟩ := oneCallDocument_loads
  have twice := tally_asks policy [.call] .call fetchArgs (by simp) call_keepsCaps
    (callPermitted_needs policy fetchArgs permitted) (Or.inl ⟨rfl,by rw [calls]; decide,permitted⟩) 2 0 _
    (opened_ready policy) (by decide)
  have again := tally_asks policy [.inference,.inferIssue] .inferIssue modelArgs (by simp) inferIssue_keepsCaps
    modelArgs_needs (Or.inr ⟨rfl,by rw [tokens]; decide⟩) 2 0 _ (opened_ready policy) (by decide)
  refine ⟨policy,loaded,calls,twice,tokens,again,?_⟩
  intro bound
  have bounded := (bound _ 0 _ _ (opened_live (some policy) taintedCall).found ⟨rfl,rfl,rfl⟩
    (asks_context .call fetchArgs 1 2)).1
  rw [twice,calls] at bounded
  exact absurd bounded (by decide)

end AuthorityKernel.Dispatch
