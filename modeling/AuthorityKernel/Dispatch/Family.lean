import AuthorityKernel.Dispatch.BudgetInvariant

/-! What agents hold. No request widens it, and a spawned agent is given no capability at all. -/
namespace AuthorityKernel.Dispatch
open Library Library.Run

/-- Who an agent is and what it may do. -/
def AgentContext.standing (ctx : AgentContext) : AgentContext :=
  { ctx with inferHandle := false, budget := none, seqTracker := none }

/-- No agent's standing changed, and new agents hold no capability. -/
def Confined (before after : Kernel) : Prop :=
  ∃ born, after.contexts.map AgentContext.standing = before.contexts.map AgentContext.standing ++ born ∧
    ∀ child ∈ born, child.rootCap = none ∧ child.delegatedCaps = none

theorem Next.standing {env : DispatchEnv} {k : Kernel} {ctx next : AgentContext} {req : AkRequest}
    (moved : Next env k ctx req next) : next.standing = ctx.standing := by
  obtain ⟨tracker,kept⟩ := akCheckReplay_kept ctx req
  cases moved with
  | invalid => rfl
  | refused | ran =>
    rw [kept]
    rfl

theorem dispatchStep_confined (k : Kernel) (call : Call) : Confined k (dispatchStep k call) := by
  by_cases alive : ∃ index ctx req, Live k call.context call.request index ctx req
  · obtain ⟨index,ctx,req,live⟩ := alive
    obtain ⟨next,newborn,moved,fresh,contexts⟩ := @akDispatch_next call.env _ _ _ _ _ _ live
    obtain ⟨inside,rfl⟩ := List.getElem?_eq_some_iff.mp live.found
    refine ⟨newborn.map AgentContext.standing,?_,?_⟩
    · rw [dispatchStep,contexts,List.map_append,List.map_set,moved.standing,← List.map_set,
        List.set_getElem_self]
    · rw [List.forall_mem_map]
      intro child member
      obtain ⟨pid,runId,policy,rfl⟩ := fresh child member
      exact ⟨rfl,rfl⟩
  · exact ⟨[],by rw [dispatchStep,akDispatch_dead alive,List.append_nil],by simp⟩

/-- No run of requests, in any order over any contexts, widens what an agent holds. -/
theorem dispatch_run_confined (k : Kernel) (calls : List Call) : Confined k (run dispatchStep k calls) := by
  refine invariant_run_always ?_ k calls ⟨[],(List.append_nil _).symm,by simp⟩
  rintro now call ⟨born,kept,bare⟩
  obtain ⟨more,next,bare'⟩ := dispatchStep_confined now call
  exact ⟨born ++ more,by rw [next,kept,List.append_assoc],List.forall_mem_append.mpr ⟨bare,bare'⟩⟩

end AuthorityKernel.Dispatch
