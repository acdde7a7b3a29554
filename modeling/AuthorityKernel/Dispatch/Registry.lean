import AuthorityKernel.Dispatch.State
import AuthorityKernel.Library.Run

/-! The registry of agents over a run of registrations and removals. A removed agent
frees its slot and lowers the count, and a search looks at as many slots as the count
says: it sees every agent only while the agents fill the first slots. -/
namespace AuthorityKernel.Dispatch
open Library Capability

def occupant (k : Kernel) (slot : Nat) : Option Nat := ((k.agents.1[slot]?).bind id).map AgentEntry.context

def pidOf (k : Kernel) (context : Nat) : Option TokenId := (k.contexts[context]?).map AgentContext.pid

def HoldsAt (k : Kernel) (agentId : TokenId) (slot : Nat) : Prop := (occupant k slot).bind (pidOf k) = some agentId

variable {child : AgentContext} {k next : Kernel} {slot context : Nat} {agentId : TokenId}

theorem slotHolds_iff (agentId : TokenId) (bound : slot < k.agents.1.length) :
    slotHolds k agentId k.agents.1[slot] = true ↔ HoldsAt k agentId slot := by
  have inside := List.getElem?_eq_getElem bound
  unfold slotHolds HoldsAt occupant pidOf
  rw [inside]
  cases k.agents.1[slot] with
  | none => simp
  | some entry => cases found : k.contexts[entry.context]? <;> simp [found]

theorem HoldsAt.bound (holds : HoldsAt k agentId slot) : slot < k.agents.1.length := by
  by_contra outside
  have none := List.getElem?_eq_none (Nat.le_of_not_lt outside)
  simp [HoldsAt,occupant,none] at holds

theorem akAgentRegistryFind_eq_some_iff (k : Kernel) (agentId : TokenId) (slot : Nat) :
    akAgentRegistryFind k agentId = some slot ↔
      slot < k.agentCount.toNat ∧ HoldsAt k agentId slot ∧ ∀ earlier < slot, ¬ HoldsAt k agentId earlier := by
  unfold akAgentRegistryFind
  rw [List.findIdx?_eq_some_iff_getElem]
  constructor
  · rintro ⟨bound,here,before⟩
    rw [List.length_take] at bound
    have inside : slot < k.agents.1.length := by omega
    rw [List.getElem_take,slotHolds_iff agentId inside] at here
    refine ⟨by omega,here,fun earlier less holds => before earlier less ?_⟩
    rw [List.getElem_take,slotHolds_iff agentId (by omega)]
    exact holds
  · rintro ⟨counted,here,before⟩
    have inside := here.bound
    have bound : slot < (k.agents.1.take k.agentCount.toNat).length := by
      rw [List.length_take]
      omega
    refine ⟨bound,?_,fun earlier less holds => before earlier less ?_⟩
    · rw [List.getElem_take,slotHolds_iff agentId inside]
      exact here
    · rw [List.getElem_take,slotHolds_iff agentId (by omega)] at holds
      exact holds

inductive RegistryCall
  | register (child : AgentContext)
  | remove (agentId : TokenId)

structure Roll where
  kernel : Kernel
  live : List Nat

def registryStep (roll : Roll) : RegistryCall → Roll
  | .register child =>
      let context := roll.kernel.contexts.length
      let added := akAgentRegistryAdd { roll.kernel with contexts := roll.kernel.contexts ++ [child] } context
      ⟨added.1,if added.2.isSome then roll.live ++ [context] else roll.live⟩
  | .remove agentId =>
      ⟨akAgentRegistryRemove roll.kernel agentId,
        roll.live.filter fun context => pidOf roll.kernel context != some agentId⟩

/-- Every live agent is found under its own id, and no other agent is found. -/
def Complete (roll : Roll) : Prop :=
  (∀ context ∈ roll.live, ∃ agentId slot, pidOf roll.kernel context = some agentId ∧
    akAgentRegistryFind roll.kernel agentId = some slot ∧ occupant roll.kernel slot = some context) ∧
  ∀ agentId slot context, akAgentRegistryFind roll.kernel agentId = some slot →
    occupant roll.kernel slot = some context → context ∈ roll.live

structure Packed (roll : Roll) : Prop where
  slots : ∀ slot, occupant roll.kernel slot = roll.live[slot]?
  count : roll.kernel.agentCount.toNat = roll.live.length
  known : ∀ context ∈ roll.live, context < roll.kernel.contexts.length
  distinct : (roll.live.map (pidOf roll.kernel)).Nodup

namespace Packed
variable {roll : Roll} (packed : Packed roll)
include packed

theorem holdsAt_iff (agentId : TokenId) (slot : Nat) :
    HoldsAt roll.kernel agentId slot ↔ (roll.live.map (pidOf roll.kernel))[slot]? = some (some agentId) := by
  unfold HoldsAt
  rw [packed.slots,List.getElem?_map]
  cases roll.live[slot]? <;> simp

theorem find_iff (agentId : TokenId) (slot : Nat) :
    akAgentRegistryFind roll.kernel agentId = some slot ↔
      (roll.live.map (pidOf roll.kernel))[slot]? = some (some agentId) := by
  rw [akAgentRegistryFind_eq_some_iff,packed.holdsAt_iff]
  constructor
  · exact fun all => all.2.1
  · intro here
    obtain ⟨bound,_⟩ := List.getElem?_eq_some_iff.mp here
    refine ⟨by rw [packed.count,← List.length_map]; exact bound,here,fun earlier less holds => ?_⟩
    rw [packed.holdsAt_iff] at holds
    have same := (List.getElem?_inj (by omega) packed.distinct).mp (holds.trans here.symm)
    omega

theorem pid_known (context : Nat) (member : context ∈ roll.live) :
    ∃ agentId, pidOf roll.kernel context = some agentId := by
  have bound := packed.known context member
  exact ⟨_,by rw [pidOf,List.getElem?_eq_getElem bound,Option.map_some]⟩

theorem complete : Complete roll := by
  constructor
  · intro context member
    obtain ⟨agentId,pid⟩ := packed.pid_known context member
    obtain ⟨slot,here⟩ := List.getElem?_of_mem member
    refine ⟨agentId,slot,pid,(packed.find_iff agentId slot).mpr ?_,(packed.slots slot).trans here⟩
    rw [List.getElem?_map,here,Option.map_some,pid]
  · intro agentId slot context _ taken
    rw [packed.slots] at taken
    exact List.mem_of_getElem? taken

theorem live_le : roll.live.length ≤ 64 := by
  by_contra many
  have inside : 64 < roll.live.length := by omega
  have beyond : roll.kernel.agents.1[64]? = none := List.getElem?_eq_none (by rw [roll.kernel.agents.2])
  have taken := packed.slots 64
  rw [List.getElem?_eq_getElem inside,occupant,beyond] at taken
  simp at taken

theorem firstFree (room : roll.live.length < 64) :
    roll.kernel.agents.1.findIdx? Option.isNone = some roll.live.length := by
  have length : roll.kernel.agents.1.length = 64 := roll.kernel.agents.2
  rw [List.findIdx?_eq_some_iff_getElem]
  refine ⟨by omega,?_,fun earlier less => ?_⟩
  · have free := packed.slots roll.live.length
    rw [List.getElem?_eq_none (Nat.le_refl _),occupant,List.getElem?_eq_getElem (by omega)] at free
    cases slot : roll.kernel.agents.1[roll.live.length] with
    | none => rfl
    | some entry => simp [slot] at free
  · have taken := packed.slots earlier
    rw [List.getElem?_eq_getElem less,occupant,List.getElem?_eq_getElem (by omega)] at taken
    cases slot : roll.kernel.agents.1[earlier] with
    | none => simp [slot] at taken
    | some entry => simp

end Packed

variable {roll : Roll}

theorem register_packed (packed : Packed roll) (child : AgentContext) (room : roll.live.length < 64) :
    (registryStep roll (.register child)).live = roll.live ++ [roll.kernel.contexts.length] ∧
    (registryStep roll (.register child)).kernel.contexts = roll.kernel.contexts ++ [child] ∧
    (registryStep roll (.register child)).kernel.agentCount.toNat = roll.live.length + 1 ∧
    ∀ slot, occupant (registryStep roll (.register child)).kernel slot =
      (roll.live ++ [roll.kernel.contexts.length])[slot]? := by
  have length : roll.kernel.agents.1.length = 64 := roll.kernel.agents.2
  have counted : ¬ roll.kernel.agentCount ≥ UInt64.ofNat akMaxAgents := by
    rw [ge_iff_le,UInt64.le_iff_toNat_le,packed.count]
    have limit : (UInt64.ofNat akMaxAgents).toNat = 64 := by decide
    omega
  have added := packed.firstFree room
  unfold registryStep akAgentRegistryAdd
  simp only [counted,if_false,added,Option.isSome_some,if_true]
  refine ⟨trivial,trivial,?_,fun slot => ?_⟩
  · rw [UInt64.toNat_add,packed.count]
    have one : (1 : UInt64).toNat = 1 := rfl
    omega
  · have before := packed.slots slot
    unfold occupant at before ⊢
    rw [List.getElem?_set]
    by_cases same : roll.live.length = slot
    · subst same
      simp [length,room]
    rw [if_neg same,before]
    by_cases inside : slot < roll.live.length
    · rw [List.getElem?_append_left inside]
    · rw [List.getElem?_eq_none (by omega),List.getElem?_eq_none (by simp; omega)]

theorem pidOf_append (contexts : next.contexts = k.contexts ++ [child]) (known : context < k.contexts.length)
    : pidOf next context = pidOf k context := by
  rw [pidOf,pidOf,contexts,List.getElem?_append_left known]

theorem pidOf_child (contexts : next.contexts = k.contexts ++ [child])
    : pidOf next k.contexts.length = some child.pid := by
  simp [pidOf,contexts]

theorem register_full (roll : Roll) (packed : Packed roll) (child : AgentContext) (full : roll.live.length = 64) :
    registryStep roll (.register child) =
      ⟨{ roll.kernel with contexts := roll.kernel.contexts ++ [child] },roll.live⟩ := by
  have counted : roll.kernel.agentCount ≥ UInt64.ofNat akMaxAgents := by
    rw [ge_iff_le,UInt64.le_iff_toNat_le,packed.count,full]
    decide
  simp [registryStep,akAgentRegistryAdd,counted]

theorem remove_found (packed : Packed roll)
    (found : akAgentRegistryFind roll.kernel agentId = some slot) :
    (registryStep roll (.remove agentId)).kernel.contexts = roll.kernel.contexts ∧
    (registryStep roll (.remove agentId)).kernel.agentCount.toNat = roll.live.length - 1 ∧
    ∀ other, occupant (registryStep roll (.remove agentId)).kernel other =
      if other = slot then none else roll.live[other]? := by
  have counted := ((akAgentRegistryFind_eq_some_iff _ _ _).mp found).1
  have positive : (1 : UInt64) ≤ roll.kernel.agentCount := by
    rw [UInt64.le_iff_toNat_le]
    have one : (1 : UInt64).toNat = 1 := rfl
    omega
  unfold registryStep akAgentRegistryRemove
  simp only [found]
  refine ⟨trivial,?_,fun other => ?_⟩
  · rw [UInt64.toNat_sub_of_le _ _ positive,packed.count]
    rfl
  · have before := packed.slots other
    unfold occupant at before ⊢
    rw [List.getElem?_set]
    by_cases same : slot = other
    · subst same
      rw [if_pos rfl,if_pos rfl]
      split <;> rfl
    · rw [if_neg same,if_neg (Ne.symm same)]
      exact before

/-- Registrations under new ids, and removals of the agent registered last. -/
def Orderly (roll : Roll) : RegistryCall → Prop
  | .register child => roll.live.length = 64 ∨ some child.pid ∉ roll.live.map (pidOf roll.kernel)
  | .remove agentId =>
      some agentId ∈ roll.live.map (pidOf roll.kernel) → roll.live.getLast?.bind (pidOf roll.kernel) = some agentId

theorem register_kept (packed : Packed roll) (orderly : Orderly roll (.register child))
    : Packed (registryStep roll (.register child)) := by
  have same : ∀ next : Kernel, next.contexts = roll.kernel.contexts ++ [child] →
      roll.live.map (pidOf next) = roll.live.map (pidOf roll.kernel) := fun next contexts =>
    List.map_congr_left fun context member => pidOf_append contexts (packed.known context member)
  by_cases full : roll.live.length = 64
  · rw [register_full roll packed child full]
    refine ⟨packed.slots,packed.count,fun context member => ?_,?_⟩
    · have bound := packed.known context member
      rw [List.length_append]
      omega
    · rw [same _ rfl]
      exact packed.distinct
  obtain ⟨live,contexts,count,slots⟩ := register_packed packed child (by have := packed.live_le; omega)
  have fresh := orderly.resolve_left full
  refine ⟨fun slot => by rw [live]; exact slots slot,by rw [live,count,List.length_append]; rfl,?_,?_⟩
  · intro context member
    rw [live] at member
    rw [contexts,List.length_append]
    rcases List.mem_append.mp member with old | new
    · have bound := packed.known context old
      omega
    · rw [List.mem_singleton.mp new]
      simp
  · rw [live,List.map_append,same _ contexts,List.map_singleton,pidOf_child contexts]
    exact List.nodup_append.mpr ⟨packed.distinct,List.nodup_singleton _,
      fun old inside new alone equal => fresh (List.mem_singleton.mp alone ▸ equal ▸ inside)⟩

theorem register_needed (packed : Packed roll)
    (complete : Complete (registryStep roll (.register child))) : Orderly roll (.register child) := by
  by_cases full : roll.live.length = 64
  · exact Or.inl full
  right
  intro taken
  obtain ⟨live,contexts,_,slots⟩ := register_packed packed child (by have := packed.live_le; omega)
  obtain ⟨agentId,slot,pid,found,here⟩ := complete.1 roll.kernel.contexts.length (by rw [live]; simp)
  rw [pidOf_child contexts,Option.some.injEq] at pid
  obtain ⟨_,_,first⟩ := (akAgentRegistryFind_eq_some_iff _ _ _).mp found
  -- the new agent stands behind all others, one of which has its id
  rw [slots] at here
  have behind : roll.live.length ≤ slot := by
    by_contra inside
    rw [List.getElem?_append_left (by omega)] at here
    have bound := packed.known _ (List.mem_of_getElem? here)
    omega
  obtain ⟨context,member,same⟩ := List.mem_map.mp taken
  obtain ⟨earlier,lookup⟩ := List.getElem?_of_mem member
  obtain ⟨less,_⟩ := List.getElem?_eq_some_iff.mp lookup
  refine first earlier (by omega) ?_
  rw [HoldsAt,slots,List.getElem?_append_left less,lookup,Option.bind_some,
    pidOf_append contexts (packed.known context member),same,pid]

theorem remove_absent (packed : Packed roll) (absent : some agentId ∉ roll.live.map (pidOf roll.kernel))
    : registryStep roll (.remove agentId) = roll := by
  have missing : akAgentRegistryFind roll.kernel agentId = none := by
    cases found : akAgentRegistryFind roll.kernel agentId with
    | none => rfl
    | some slot => exact absurd (List.mem_of_getElem? ((packed.find_iff agentId slot).mp found)) absent
  have all : roll.live.filter (fun context => pidOf roll.kernel context != some agentId) = roll.live := by
    refine List.filter_eq_self.mpr fun context member => ?_
    have differs : pidOf roll.kernel context ≠ some agentId := fun same => absent (List.mem_map.mpr ⟨context,member,same⟩)
    simpa using differs
  simp [registryStep,akAgentRegistryRemove,missing,all]

theorem remove_last (packed : Packed roll) {front : List Nat} (live : roll.live = front ++ [context])
    (pid : pidOf roll.kernel context = some agentId) : Packed (registryStep roll (.remove agentId)) := by
  have distinct := packed.distinct
  rw [live,List.map_append,List.map_singleton,List.nodup_append,pid] at distinct
  obtain ⟨frontDistinct,_,apart⟩ := distinct
  have found : akAgentRegistryFind roll.kernel agentId = some front.length := by
    rw [packed.find_iff,live,List.map_append,List.map_singleton,pid]
    simp
  obtain ⟨contexts,count,slots⟩ := remove_found packed found
  have kept : (registryStep roll (.remove agentId)).live = front := by
    have others : front.filter (fun context => pidOf roll.kernel context != some agentId) = front := by
      refine List.filter_eq_self.mpr fun other member => ?_
      have differs := apart _ (List.mem_map_of_mem member) (some agentId) (List.mem_singleton_self _)
      simpa using differs
    simp only [registryStep,live,List.filter_append,others]
    simp [pid]
  have pids : ∀ other, pidOf (registryStep roll (.remove agentId)).kernel other = pidOf roll.kernel other := fun other => by
    rw [pidOf,pidOf,contexts]
  refine ⟨fun slot => ?_,?_,fun other member => ?_,?_⟩
  · rw [slots,kept,live]
    by_cases inside : slot < front.length
    · rw [if_neg (by omega),List.getElem?_append_left inside]
    · by_cases same : slot = front.length
      · rw [if_pos same,List.getElem?_eq_none (by omega)]
      · rw [if_neg same,List.getElem?_eq_none (by simp; omega),List.getElem?_eq_none (by omega)]
  · rw [count,kept,live,List.length_append]
    rfl
  · rw [contexts]
    refine packed.known other ?_
    rw [kept] at member
    rw [live]
    exact List.mem_append_left _ member
  · rw [kept,List.map_congr_left fun other _ => pids other]
    exact frontDistinct

theorem remove_kept (packed : Packed roll) (orderly : Orderly roll (.remove agentId))
    : Packed (registryStep roll (.remove agentId)) := by
  by_cases present : some agentId ∈ roll.live.map (pidOf roll.kernel)
  · have last := orderly present
    obtain ⟨context,final,pid⟩ := Option.bind_eq_some_iff.mp last
    obtain ⟨front,live⟩ := List.getLast?_eq_some_iff.mp final
    exact remove_last packed live pid
  · rw [remove_absent packed present]
    exact packed

theorem remove_needed (packed : Packed roll) (complete : Complete (registryStep roll (.remove agentId)))
    : Orderly roll (.remove agentId) := by
  intro present
  obtain ⟨slot,here⟩ := List.getElem?_of_mem present
  have found := (packed.find_iff agentId slot).mpr here
  obtain ⟨contexts,count,slots⟩ := remove_found packed found
  have nonempty : roll.live ≠ [] := by
    rintro empty
    simp [empty] at here
  obtain ⟨front,last,live⟩ := (List.eq_nil_or_concat' roll.live).resolve_left nonempty
  by_contra other
  have differs : pidOf roll.kernel last ≠ some agentId := by
    simpa [live] using other
  have member : last ∈ (registryStep roll (.remove agentId)).live := by
    simp [registryStep,live,differs]
  obtain ⟨lastId,place,_,seen,taken⟩ := complete.1 last member
  have counted := ((akAgentRegistryFind_eq_some_iff _ _ _).mp seen).1
  have lookup : roll.live[place]? = some last := by
    rw [slots] at taken
    split at taken
    · simp at taken
    · exact taken
  have final : roll.live[front.length]? = some last := by simp [live]
  have unique := List.Nodup.of_map (pidOf roll.kernel) packed.distinct
  have same := (List.getElem?_inj (by simp [live]) unique).mp (final.trans lookup.symm)
  rw [count,live,List.length_append,List.length_singleton] at counted
  omega

theorem free_slot (count slot : Nat) : ((List.replicate count (none : Option AgentEntry))[slot]?).bind id = none := by
  rw [List.getElem?_replicate]
  split <;> rfl

/-- Along every run of registrations and removals, each agent registered and not removed
since is found under its own id and no removed agent is found, exactly if every
registration into a table with room is under an id no live agent has and every
removal of a live agent is of the one registered last. -/
theorem registry_complete_iff (clock : UInt64) (random : Secret) (defaultPolicy : Option AuthorityKernel.Policy.AkPolicy)
    (calls : List RegistryCall) :
    Run.Throughout registryStep Complete ⟨akInit clock random defaultPolicy,[]⟩ calls ↔
      Run.Guarded registryStep Orderly ⟨akInit clock random defaultPolicy,[]⟩ calls := by
  refine Run.throughout_iff_of_invariant (fun _ packed => Packed.complete packed) ?_ ?_ _ calls ?_
  · intro roll call packed orderly
    cases call with
    | register child => exact register_kept packed orderly
    | remove agentId => exact remove_kept packed orderly
  · intro roll call packed complete
    cases call with
    | register child => exact register_needed packed complete
    | remove agentId => exact remove_needed packed complete
  · refine ⟨fun slot => ?_,rfl,by simp,by simp⟩
    exact congrArg (Option.map AgentEntry.context) (free_slot 64 slot)

/-- Two agents are registered and the first is removed: the second, still registered in
the second slot, is not found. -/
theorem second_agent_lost :
    let first := newContext (Block.zero 16) (Block.zero 16) none none
    let second := newContext ⟨List.replicate 16 1,rfl⟩ (Block.zero 16) none none
    let roll := Run.run registryStep ⟨akInit 0 (Block.zero 32) none,[]⟩
      [.register first,.register second,.remove first.pid]
    roll.live = [1] ∧ pidOf roll.kernel 1 = some second.pid ∧ occupant roll.kernel 1 = some 1 ∧
      akAgentRegistryFind roll.kernel second.pid = none :=
  ⟨by decide +kernel,by decide +kernel,by decide +kernel,by decide +kernel⟩

end AuthorityKernel.Dispatch
