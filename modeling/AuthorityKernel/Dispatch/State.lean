import AuthorityKernel.Capability.Validate
import AuthorityKernel.Dispatch.Sequence
import AuthorityKernel.Heap.Transaction
import AuthorityKernel.Policy.Rules

/-! The state of the agent system calls: contexts, the registry of agents with their
inboxes, and the subsystems that requests act on. A context is named by its place in
the list of contexts. -/
namespace AuthorityKernel.Dispatch
open Library Capability Budget Policy Heap Crypto

/-- `delegatedCaps` lists a grant table in the order it is walked; `inferHandle` tells
whether an asynchronous inference is in flight. -/
structure AgentContext where
  pid : TokenId
  runId : TokenId
  rootCap : Option AkCapability
  delegatedCaps : Option (List AkCapability)
  inferHandle : Bool
  policy : Option AkPolicy
  budget : Option BudgetTracker
  seqTracker : Option SeqTracker

structure Message where
  senderId : TokenId
  recipientId : TokenId
  seq : UInt64
  sentMs : UInt64
  payload : Option Bytes

/-- The messages linked from the head. Without a tail the next message replaces them. -/
structure Inbox where
  messages : List Message
  hasTail : Bool
  count : UInt64
  maxSize : UInt64

structure AgentEntry where
  context : Nat
  inbox : Inbox

def akMaxAgents : Nat := 64

structure AuditRecord where
  pid : TokenId
  runId : TokenId
  op : UInt16
  reqHash : Block 32
  resHash : Block 32
  policyHash : Block 32

structure Kernel where
  initialized : Bool
  caps : CapState
  heap : HeapState
  contexts : List AgentContext
  agents : List.Vector (Option AgentEntry) 64
  agentCount : UInt64
  audit : List AuditRecord
  inferenceReady : Bool
  defaultPolicy : Option AkPolicy

namespace Kernel

def updateContext (k : Kernel) (index : Nat) (change : AgentContext → AgentContext) : Kernel :=
  { k with contexts := k.contexts.modify index change }

def updateInbox (k : Kernel) (slot : Nat) (change : Inbox → Inbox) : Kernel :=
  { k with
    agents := ⟨k.agents.1.modify slot (Option.map fun entry => { entry with inbox := change entry.inbox }),by
      rw [List.length_modify,k.agents.2]⟩ }

def commitBudget (k : Kernel) (index : Nat) (resource : Resource) (amount : UInt64) : Kernel :=
  k.updateContext index fun ctx =>
    { ctx with budget := ctx.budget.map fun tracker => akBudgetCommit tracker resource amount }

def inboxAt (k : Kernel) (slot : Nat) : Option Inbox := ((k.agents.1[slot]?).bind id).map AgentEntry.inbox

def inboxes (k : Kernel) : List (Option Inbox) := k.agents.1.map (Option.map AgentEntry.inbox)

def budgets (k : Kernel) : List (Option BudgetTracker) := k.contexts.map AgentContext.budget

end Kernel

def slotHolds (k : Kernel) (agentId : TokenId) (slot : Option AgentEntry) : Bool :=
  match slot with
  | none => false
  | some entry =>
      match k.contexts[entry.context]? with
      | none => false
      | some ctx => ctx.pid == agentId

/-- Only the first `agent_count` slots are looked at. -/
def akAgentRegistryFind (k : Kernel) (agentId : TokenId) : Option Nat :=
  (k.agents.1.take k.agentCount.toNat).findIdx? (slotHolds k agentId)

def emptyInbox : Inbox := ⟨[],false,0,1000⟩

def akAgentRegistryAdd (k : Kernel) (context : Nat) : Kernel × Option Nat :=
  if k.agentCount ≥ UInt64.ofNat akMaxAgents then (k,none)
  else
    match k.agents.1.findIdx? Option.isNone with
    | none => (k,none)
    | some slot =>
        ({ k with
            agents := ⟨k.agents.1.set slot (some ⟨context,emptyInbox⟩),by rw [List.length_set,k.agents.2]⟩
            agentCount := k.agentCount + 1 },some slot)

def akAgentRegistryRemove (k : Kernel) (agentId : TokenId) : Kernel :=
  match akAgentRegistryFind k agentId with
  | none => k
  | some slot =>
      { k with
        agents := ⟨k.agents.1.set slot none,by rw [List.length_set,k.agents.2]⟩
        agentCount := k.agentCount - 1 }

def akAuditAppend (k : Kernel) (appended : Bool) (record : AuditRecord) : Kernel :=
  if appended then { k with audit := k.audit ++ [record] } else k

/-- The event is logged as a request of its own under a special number. -/
def akAuditLogLifecycle (k : Kernel) (appended : Bool) (pid runId : TokenId) (event : UInt8) : Kernel :=
  akAuditAppend k appended ⟨pid,runId,0xfffd,sha256 [event],Block.zero 32,Block.zero 32⟩

def hashOf (text : Option Bytes) : Block 32 :=
  match text with
  | none => Block.zero 32
  | some bytes => sha256 bytes

/-- The state `ak_init` leaves, from freshly loaded static data. -/
def akInit (clock : UInt64) (random : Secret) (defaultPolicy : Option AkPolicy) : Kernel where
  initialized := true
  caps := akKeysInit clock random .static
  heap := akHeapInit
  contexts := []
  agents := List.Vector.replicate 64 none
  agentCount := 0
  audit := []
  inferenceReady := true
  defaultPolicy := defaultPolicy

structure ContextEnv where
  contextAlloc : Bool
  pid : TokenId
  runId : TokenId
  budgetAlloc : Bool
  trackerAlloc : Bool
  tableAlloc : Bool
  logged : Bool

def newContext (pid runId : TokenId) (policy : Option AkPolicy) (delegatedCaps : Option (List AkCapability)) :
    AgentContext where
  pid := pid
  runId := runId
  rootCap := none
  delegatedCaps := delegatedCaps
  inferHandle := false
  policy := policy
  budget := some (akBudgetCreate (policy.map AkPolicy.budgets))
  seqTracker := some akSeqTrackerCreate

def akContextCreate (env : ContextEnv) (pid : Option TokenId) (policy : Option AkPolicy) (k : Kernel) :
    Kernel × Option Nat :=
  if !env.contextAlloc || !env.budgetAlloc || !env.trackerAlloc || !env.tableAlloc then (k,none)
  else
    let pid := pid.getD env.pid
    let ctx := newContext pid env.runId (policy.or k.defaultPolicy) (some [])
    (akAuditLogLifecycle { k with contexts := k.contexts ++ [ctx] } env.logged pid env.runId 0,some k.contexts.length)

def akContextDestroy (k : Kernel) (revoke : RevokeEnv) (logged : Bool) (pid runId : TokenId) : Kernel :=
  let k := { k with caps := (akRevocationRevokeRun revoke runId (.ofBuffer (ascii "agent_exit")) k.caps).1 }
  akAuditLogLifecycle k logged pid runId 1

end AuthorityKernel.Dispatch
