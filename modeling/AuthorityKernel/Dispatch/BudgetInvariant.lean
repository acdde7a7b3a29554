import AuthorityKernel.Dispatch.Spending

/-! The budget invariant: no counter passes its limit. The policy stage checks an estimate
and the handlers commit what they find, so the invariant holds along the runs whose batches
and model answers stay inside the budget. -/
namespace AuthorityKernel.Dispatch
open Library Library.Run Budget Policy

structure Call where
  env : DispatchEnv
  context : Option Nat
  request : Option AkRequest

def dispatchStep (k : Kernel) (call : Call) : Kernel := (akDispatch call.env k call.context call.request).kernel

def BudgetsWithin (k : Kernel) : Prop := ∀ ctx ∈ k.contexts, ∀ tracker, ctx.budget = some tracker → tracker.Within

/-- What a request must leave room for in the budget it is charged to: an allocation
without a policy to check it, every operation of a batch, the tokens a model reports. -/
def RoomFor (env : HandlerEnv) (tracker : BudgetTracker) (policy : Option AkPolicy) (req : AkRequest) : Prop :=
  match SysOp.ofCode req.op with
  | some .alloc => policy.isSome = true ∨ tracker.Affords .heapObjects 1
  | some .batch => tracker.Affords .heapObjects (UInt64.ofNat (batchCount req.args))
  | some .inference =>
      ∀ answer, env.inference.backend (inferenceModel req.args) (inferenceMaxTokens req.args) req.args =
          some answer → answer.success = true →
        tracker.Affords .llmTokensIn answer.promptTokens.toUInt64 ∧
          tracker.Affords .llmTokensOut answer.completionTokens.toUInt64
  | _ => True

def Affordable (k : Kernel) (call : Call) : Prop :=
  ∀ index ctx req tracker, Live k call.context call.request index ctx req → ctx.budget = some tracker →
    RoomFor call.env.handler tracker ctx.policy req

variable {ctx : AgentContext} {req : AkRequest} {env : DispatchEnv} {k : Kernel}

theorem Charge.within {op : SysOp} {tracker : BudgetTracker} {charges : List (Resource × UInt64)}
    (admissible : Admissible env k ctx req) (known : SysOp.ofCode req.op = some op) (held : ctx.budget = some tracker)
    (within : tracker.Within) (room : RoomFor env.handler tracker ctx.policy req)
    (made : Charge env.handler ctx.budget req.args op charges) : (chargeAll charges tracker).Within := by
  unfold RoomFor at room
  rw [known] at room
  cases made with
  | nothing => exact within
  | alloc =>
    refine (akBudgetCommit_within_iff _ _ within).mpr ?_
    rcases room with present | affords
    · obtain ⟨rules,policy⟩ := Option.isSome_iff_exists.mp present
      have admits := admissible.rules rules policy
      rw [rulesAdmit,held,known,Bool.and_eq_true] at admits
      exact affords_of_check (by simpa [budgetAdmits,estimatedCost] using admits.1)
    · exact affords
  | batch => exact (akBudgetCommit_within_iff _ _ within).mpr room
  | call fits | spawn fits => exact (akBudgetCommit_within_iff _ _ within).mpr (affords_of_check (held ▸ fits))
  | inference answer success answered =>
    obtain ⟨tokensIn,tokensOut⟩ := room answer answered success
    have first := (akBudgetCommit_within_iff _ _ within).mpr tokensIn
    refine (akBudgetCommit_within_iff _ _ first).mpr ?_
    rw [BudgetTracker.Affords,akBudgetCommit_used_other tracker _ (show Resource.llmTokensOut ≠ .llmTokensIn by decide)]
    exact tokensOut

theorem Next.within {next : AgentContext} (moved : Next env k ctx req next)
    (within : ∀ tracker, ctx.budget = some tracker → tracker.Within)
    (room : ∀ tracker, ctx.budget = some tracker → RoomFor env.handler tracker ctx.policy req)
    (tracker : BudgetTracker) (held : next.budget = some tracker) : tracker.Within := by
  cases moved with
  | invalid => exact within tracker held
  | refused =>
    rw [(akCheckReplay_fields ctx req).2] at held
    exact within tracker held
  | ran op charges flight admissible known made =>
    rw [AgentContext.charged,(akCheckReplay_fields ctx req).2] at held
    obtain ⟨before,had,rfl⟩ := Option.map_eq_some_iff.mp held
    exact made.within admissible known had (within before had) (room before had)

theorem dispatchStep_within (k : Kernel) (call : Call) (affordable : Affordable k call) (within : BudgetsWithin k) :
    BudgetsWithin (dispatchStep k call) := by
  by_cases alive : ∃ index ctx req, Live k call.context call.request index ctx req
  · obtain ⟨index,ctx,req,live⟩ := alive
    obtain ⟨next,newborn,moved,fresh,contexts⟩ := @akDispatch_next call.env _ _ _ _ _ _ live
    intro ctx' member tracker held
    rw [dispatchStep,contexts,List.mem_append] at member
    rcases member with old | new
    · rcases List.mem_or_eq_of_mem_set old with other | rfl
      · exact within ctx' other tracker held
      · exact moved.within (within ctx (List.mem_of_getElem? live.found))
          (fun tracker held => affordable index ctx req tracker live held) tracker held
    · obtain ⟨pid,runId,policy,rfl⟩ := fresh ctx' new
      rw [← Option.some.inj held]
      exact akBudgetCreate_within _
  · rw [dispatchStep,akDispatch_dead alive]
    exact within

/-- From fresh budgets, no counter passes its limit in any state of a run whose requests
all find room for what they are charged. -/
theorem budgets_within_affordable_run (start : Kernel) (calls : List Call)
    (fresh : ∀ ctx ∈ start.contexts, ∀ tracker, ctx.budget = some tracker → ∀ resource, tracker.used resource = 0)
    (affordable : Guarded dispatchStep Affordable start calls) : Throughout dispatchStep BudgetsWithin start calls := by
  apply throughout_of_guarded dispatchStep_within start calls affordable
  intro ctx member tracker held resource
  rw [fresh ctx member tracker held resource]
  exact UInt64.zero_le

theorem opened_fresh (policy : Option AkPolicy) (ctx : AgentContext) (member : ctx ∈ (opened policy).contexts)
    (tracker : BudgetTracker) (held : ctx.budget = some tracker) (resource : Resource) : tracker.used resource = 0 := by
  rw [opened_eq] at member
  have only : ctx = openContext policy := List.mem_singleton.mp member
  subst only
  rw [← Option.some.inj held]
  exact akBudgetCreate_used _ resource

def twoAllocations : AkRequest :=
  ⟨Block.zero 16,Block.zero 16,1,SysOp.batch.code,
    some (ascii "\x7b\"ops\": [\x7b\"op\": \"alloc\"\x7d, \x7b\"op\": \"alloc\"\x7d]\x7d"),none,.trusted⟩

theorem checked_batch_stays_within :
    Guarded dispatchStep Affordable (opened (some emptyPolicy)) [⟨plainDispatch,some 0,some twoAllocations⟩] ∧
      Throughout dispatchStep BudgetsWithin (opened (some emptyPolicy)) [⟨plainDispatch,some 0,some twoAllocations⟩] := by
  have guarded : Guarded dispatchStep Affordable (opened (some emptyPolicy)) [⟨plainDispatch,some 0,some twoAllocations⟩] := by
    refine ⟨?_,trivial⟩
    intro index ctx req tracker live held
    obtain ⟨rfl,rfl⟩ := (opened_live (some emptyPolicy) _).unique live
    obtain rfl := Option.some.inj held
    have batch : SysOp.ofCode twoAllocations.op = some .batch := SysOp.ofCode_code .batch
    rw [RoomFor,batch]
    exact Or.inr (by decide +kernel)
  exact ⟨guarded,budgets_within_affordable_run _ _ (opened_fresh (some emptyPolicy)) guarded⟩

def oneObjectDocument : Bytes := ascii "\x7b\"budgets\": \x7b\"heap_objects\": 1\x7d\x7d"

def batched (policy : AkPolicy) : Kernel :=
  (handle plainDispatch.handler
    (checked plainDispatch (opened (some policy)) 0 (openContext (some policy)) twoAllocations) 0
    (akCheckReplay (openContext (some policy)) twoAllocations).1
    (authorized plainDispatch (opened (some policy)) (openContext (some policy)) twoAllocations) .batch).1

theorem oneObjectDocument_loads :
    ∃ policy, akPolicyLoad plainLoad none oneObjectDocument = some policy ∧
      rulesAdmit policy (openContext (some policy)).budget twoAllocations = true ∧
      ∃ ctx ∈ (batched policy).contexts, ∃ tracker, ctx.budget = some tracker ∧ tracker.used .heapObjects = 2 ∧
        tracker.limits .heapObjects = 1 := by
  have loads : (akPolicyLoad plainLoad none oneObjectDocument).any (fun policy =>
      rulesAdmit policy (openContext (some policy)).budget twoAllocations &&
        (batched policy).contexts.any (fun ctx => ctx.budget.any fun tracker =>
          tracker.used .heapObjects == 2 && tracker.limits .heapObjects == 1)) = true := by decide +kernel
  obtain ⟨policy,loaded,checks⟩ := (Option.any_eq_true _ _).mp loads
  rw [Bool.and_eq_true] at checks
  obtain ⟨ctx,member,charged⟩ := List.any_eq_true.mp checks.2
  obtain ⟨tracker,held,counts⟩ := (Option.any_eq_true _ _).mp charged
  rw [Bool.and_eq_true,beq_iff_eq,beq_iff_eq] at counts
  exact ⟨policy,loaded,checks.1,ctx,member,tracker,held,counts⟩

theorem batch_passes_its_limit :
    ∃ policy, akPolicyLoad plainLoad none oneObjectDocument = some policy ∧
      (∀ ctx ∈ (opened (some policy)).contexts, ∀ tracker, ctx.budget = some tracker →
        ∀ resource, tracker.used resource = 0) ∧
      ¬BudgetsWithin (dispatchStep (opened (some policy)) ⟨plainDispatch,some 0,some twoAllocations⟩) := by
  obtain ⟨policy,loaded,admitted,ctx,member,tracker,held,used,limit⟩ := oneObjectDocument_loads
  have live := opened_live (some policy) twoAllocations
  have admissible := opened_admissible policy .batch ⟨rfl,rfl⟩ (SysOp.ofCode_code .batch) (by decide) rfl
    ⟨_,_,_,rfl⟩ admitted
  refine ⟨policy,loaded,opened_fresh (some policy),?_⟩
  intro within
  have there : ctx ∈ (dispatchStep (opened (some policy)) ⟨plainDispatch,some 0,some twoAllocations⟩).contexts := by
    rw [batched] at member
    rw [dispatchStep,akDispatch_contexts live admissible rfl]
    exact member
  have bound := within ctx there tracker held .heapObjects
  rw [used,limit] at bound
  exact absurd bound (by decide)

end AuthorityKernel.Dispatch
