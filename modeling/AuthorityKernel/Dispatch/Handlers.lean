import AuthorityKernel.Dispatch.Stages

/-! The operation handlers. What they take from outside the modelled state comes with the
environment of the call: clocks, random ids, which allocations succeed, what a tool or
a model backend answers, and the texts of replies that only report. -/
namespace AuthorityKernel.Dispatch
open Library Capability Budget Policy Heap Json

structure ToolRun where
  heap : HeapState
  caps : CapState
  response : Option AkResponse

structure InferenceResponse where
  success : Bool
  errorCode : Int
  content : Option Bytes
  promptTokens : UInt32
  completionTokens : UInt32

structure BatchEnv where
  txnAlloc : Bool
  resultsAlloc : Bool
  queue : Nat → QueueEnv
  apply : Nat → ApplyEnv

structure SpawnEnv where
  contextAlloc : Bool
  pid : TokenId
  runId : TokenId
  budgetAlloc : Bool
  trackerAlloc : Bool
  spawnLogged : Bool
  revoke : RevokeEnv
  exitLogged : Bool

/-- `stack` is what the uninitialised recipient buffer holds. -/
structure SendEnv where
  stack : TokenId
  payloadAlloc : Bool
  clock : UInt64

/-- `backend` includes the choice of a backend for the model. -/
structure InferenceEnv where
  validate : ValidateEnv
  responseAlloc : Bool
  backend : CString → UInt32 → Option Bytes → Option InferenceResponse

inductive Poll
  | pending
  | failed (code : Int)
  | ready (body : Option Bytes)

structure IssueEnv where
  transport : Bool
  bodyAlloc : Bool
  issued : (host path : CString) → (port : UInt16) → (tls : Bool) → (body : Bytes) → Bool

structure HandlerEnv where
  responseAlloc : Bool
  resultAlloc : Bool
  readAlloc : Bool
  alloc : AllocEnv
  write : WriteEnv
  delete : DeleteEnv
  batch : BatchEnv
  tool : CString → Bytes → Option AkCapability → HeapState → CapState → ToolRun
  spawn : SpawnEnv
  send : SendEnv
  inference : InferenceEnv
  issue : IssueEnv
  poll : Poll
  report : Bytes
  copyAlloc : Bool
  sanitized : Option Bytes

variable (env : HandlerEnv) (k : Kernel) (index : Nat) (ctx : AgentContext) (req : AkRequest)

def fail (code : Int) : Kernel × Option AkResponse := (k,akResponseError env.responseAlloc (some req) code)

def succeed (result : Bytes) : Kernel × Option AkResponse :=
  (k,akResponseSuccess env.responseAlloc (some req) (some result))

def reply (result : Bytes) : Kernel × Option AkResponse :=
  if env.resultAlloc then succeed env k req result else fail env k req (-eNomem)

@[simp] theorem fail_kernel (code : Int) : (fail env k req code).1 = k := rfl

@[simp] theorem succeed_kernel (result : Bytes) : (succeed env k req result).1 = k := rfl

@[simp] theorem reply_kernel (result : Bytes) : (reply env k req result).1 = k := by
  unfold reply
  split <;> rfl

def akHandleRead : Kernel × Option AkResponse :=
  match req.args with
  | none => fail env k req (-eInval)
  | some _ =>
      match akHeapRead env.readAlloc (akJsonExtractU64 req.args "ptr") k.heap with
      | .error code => fail env k req code
      | .ok object =>
          reply env k req (ascii "\x7b\"value\":" ++ object.value ++ ascii ",\"version\":" ++
            akU64ToDec object.version ++ ascii "\x7d")

def akHandleAlloc : Kernel × Option AkResponse :=
  match req.args with
  | none => fail env k req (-eInval)
  | some value =>
      let made := akHeapAlloc env.alloc (akJsonExtractU64 req.args "type") (some value) ctx.runId req.taint k.heap
      if made.2 = 0 then fail env { k with heap := made.1 } req (-eNomem)
      else
        reply env (Kernel.commitBudget { k with heap := made.1 } index .heapObjects 1) req
          (ascii "\x7b\"ptr\":" ++ akU64ToDec made.2 ++ ascii ",\"version\":1\x7d")

def akHandleWrite : Kernel × Option AkResponse :=
  match req.args with
  | none => fail env k req (-eInval)
  | some _ =>
      let written := akHeapWrite env.write (akJsonExtractU64 req.args "ptr") req.args
        (akJsonExtractU64 req.args "version") k.heap
      match written.2 with
      | .error code => fail env { k with heap := written.1 } req code
      | .ok version =>
          reply env { k with heap := written.1 } req (ascii "\x7b\"version\":" ++ akU64ToDec version ++ ascii "\x7d")

def akHandleDelete : Kernel × Option AkResponse :=
  match req.args with
  | none => fail env k req (-eInval)
  | some _ =>
      if akJsonExtractU64 req.args "ptr" = 0 ∨ akJsonExtractU64 req.args "version" = 0 then
        fail env k req akESchemaInvalid
      else
        let deleted := akHeapDelete env.delete (akJsonExtractU64 req.args "ptr") (akJsonExtractU64 req.args "version")
          k.heap
        if deleted.2 ≠ 0 then fail env { k with heap := deleted.1 } req deleted.2
        else reply env { k with heap := deleted.1 } req (ascii "\x7b\"deleted\":true\x7d")

def opsArray : Bytes → Option Bytes
  | [] => none
  | byte :: rest =>
      if 5 < (byte :: rest).length then
        if (ascii "\"ops\"").isPrefixOf (byte :: rest) then
          match (rest.drop 4).dropWhile isSeparator with
          | [] => opsArray rest
          | bracket :: elements => if bracket = 91 then some (bracket :: elements) else opsArray rest
        else opsArray rest
      else none

def batchOp (queue : QueueEnv) (runId : TokenId) (taint : Taint) (heap : HeapState) (element : Bytes) (txn : HeapTxn) :
    Except Int (HeapTxn × UInt64) :=
  match akJsonExtractString (some element) "op" 16 with
  | none => .error akESchemaInvalid
  | some opType =>
      let ptr := akJsonExtractU64 (some element) "ptr"
      let version := akJsonExtractU64 (some element) "version"
      if cstr opType = ascii "alloc" then
        let queued := akHeapTxnAlloc queue (akJsonExtractU64 (some element) "type") element runId taint heap txn
        if queued.2 = 0 then .error (-eNomem) else .ok queued
      else if cstr opType = ascii "write" then
        let queued := akHeapTxnWrite queue ptr element version txn
        if queued.2 ≠ 0 then .error queued.2 else .ok (queued.1,ptr)
      else if cstr opType = ascii "delete" then
        let queued := akHeapTxnDelete queue ptr version txn
        if queued.2 ≠ 0 then .error queued.2 else .ok (queued.1,ptr)
      else .error akESchemaInvalid

def batchLoop (queue : Nat → QueueEnv) (runId : TokenId) (taint : Taint) (heap : HeapState) (ops : Bytes)
    (index : Nat) (txn : HeapTxn) (results : List UInt64) : Nat → Except Int (HeapTxn × List UInt64)
  | 0 => .ok (txn,results)
  | turns + 1 =>
      match akJsonArrayElement ops index with
      | none => .ok (txn,results)
      | some element =>
          match batchOp (queue index) runId taint heap element txn with
          | .error code => .error code
          | .ok queued => batchLoop queue runId taint heap ops (index + 1) queued.1 (results ++ [queued.2]) turns

def maxOps : Nat := 100

def batchResult (results : List UInt64) : Bytes :=
  ascii "\x7b\"committed\":true,\"results\":[" ++ List.intercalate (ascii ",") (results.map akU64ToDec) ++
    ascii "],\"op_count\":" ++ akU64ToDec (UInt64.ofNat results.length) ++ ascii "\x7d"

def akHandleBatch : Kernel × Option AkResponse :=
  match req.args with
  | none => fail env k req (-eInval)
  | some args =>
      match akHeapTxnBegin env.batch.txnAlloc k.heap with
      | none => fail env k req (-eNomem)
      | some txn =>
          match opsArray args with
          | none => fail env k req akESchemaInvalid
          | some ops =>
              if !env.batch.resultsAlloc then fail env k req (-eNomem)
              else
                match batchLoop env.batch.queue ctx.runId req.taint k.heap ops 0 txn [] maxOps with
                | .error code => fail env k req code
                | .ok queued =>
                    let applied := akHeapTxnCommit env.batch.apply queued.1 k.heap
                    if applied.2 ≠ 0 then fail env { k with heap := applied.1 } req applied.2
                    else
                      let k := { k with heap := applied.1 }
                      let charged := if queued.2.length > 0 then
                          k.commitBudget index .heapObjects (UInt64.ofNat queued.2.length)
                        else k
                      reply env charged req (batchResult queued.2)

def callTool (args : Option Bytes) : Option CString := (akJsonExtractString args "tool" 64).map CString.ofBuffer

def akHandleCall : Kernel × Option AkResponse :=
  match ctx.budget with
  | none => fail env k req akEBudgetExceeded
  | some budget =>
      match req.args with
      | none => fail env k req (-eInval)
      | some args =>
          match callTool req.args with
          | none => fail env k req akESchemaInvalid
          | some toolName =>
              match ctx.policy with
              | none => fail env k req akEPolicyDenied
              | some policy =>
                  if !akPolicyCheckTool policy toolName then fail env k req akEPolicyDenied
                  else if !akBudgetCheck (some budget) .toolCalls 1 then fail env k req akEBudgetExceeded
                  else
                    let ran := env.tool toolName args req.cap k.heap k.caps
                    let k := { k with heap := ran.heap, caps := ran.caps }
                    match ran.response with
                    | some answer => (k.commitBudget index .toolCalls 1,some answer)
                    | none => if env.resultAlloc then fail env k req akEToolFail else fail env k req (-eNomem)

/-- Registers a child and charges its parent. A child whose reply finds no memory is taken
out again, but the charge stays. -/
def registerChild (child : AgentContext) : Kernel × Option AkResponse :=
  let added := akAgentRegistryAdd { k with contexts := k.contexts ++ [child] } k.contexts.length
  match added.2 with
  | none => fail env k req akEBudgetExceeded
  | some slot =>
      let charged := added.1.commitBudget index .heapObjects 1
      let logged := akAuditLogLifecycle charged env.spawn.spawnLogged child.pid child.runId 0
      if env.resultAlloc then
        succeed env logged req (ascii "\x7b\"child_id\":\"" ++ hexBytes child.pid.1 ++ ascii "\",\"slot\":" ++
          akU64ToDec (UInt64.ofNat slot) ++ ascii "\x7d")
      else
        let removed := akAgentRegistryRemove logged child.pid
        let left := akContextDestroy removed env.spawn.revoke env.spawn.exitLogged child.pid child.runId
        fail env { left with contexts := left.contexts.dropLast } req (-eNomem)

def akHandleSpawn : Kernel × Option AkResponse :=
  if ctx.budget.isNone then fail env k req akEBudgetExceeded
  else if !akBudgetCheck ctx.budget .heapObjects 1 then fail env k req akEBudgetExceeded
  else if k.agentCount ≥ UInt64.ofNat akMaxAgents then fail env k req akEBudgetExceeded
  else if !env.spawn.contextAlloc then fail env k req (-eNomem)
  else if !env.spawn.budgetAlloc then fail env k req (-eNomem)
  else if !env.spawn.trackerAlloc then fail env k req (-eNomem)
  else registerChild env k index req (newContext env.spawn.pid env.spawn.runId ctx.policy none)

def decodedPairs : Bytes → Bytes
  | high :: low :: rest =>
      match unhexByte high low with
      | some byte => byte :: decodedPairs rest
      | none => []
  | _ => []

def akHexDecode {n : Nat} (hex : CString) (out : Block n) : Block n :=
  if hex.1.length % 2 ≠ 0 ∨ hex.1.length / 2 > n then out
  else
    ⟨(decodedPairs hex.1 ++ out.1.drop (decodedPairs hex.1).length).take n,by
      rw [List.length_take,List.length_append,List.length_drop,out.2]
      omega⟩

def sendRecipient (stack : TokenId) (args : Option Bytes) : TokenId :=
  match presentField (akJsonExtractString args "to" 33) with
  | some recipientHex => akHexDecode recipientHex stack
  | none => Block.zero 16

def Inbox.enqueue (inbox : Inbox) (message : Message) : Inbox :=
  { inbox with
    messages := if inbox.hasTail then inbox.messages ++ [message] else [message]
    hasTail := true
    count := inbox.count + 1 }

/-- The message block and the result buffer are there: the source tests them for NULL, which a
failed allocation is not, so what it does on finding one never runs. -/
def akHandleSend : Kernel × Option AkResponse :=
  match req.args with
  | none => fail env k req (-eInval)
  | some args =>
      let recipientId := sendRecipient env.send.stack req.args
      match akAgentRegistryFind k recipientId with
      | none => fail env k req (-eNoent)
      | some slot =>
          match k.inboxAt slot with
          | none => fail env k req (-eNoent)
          | some inbox =>
              if inbox.count ≥ inbox.maxSize then fail env k req akEBudgetExceeded
              else if !env.send.payloadAlloc then fail env k req (-eNomem)
              else
                let message := ⟨ctx.pid,recipientId,req.seq,env.send.clock / 1000000,some args⟩
                succeed env (k.updateInbox slot (·.enqueue message)) req
                  (ascii "\x7b\"sent\":true,\"queued\":" ++ akU64ToDec (inbox.count + 1) ++ ascii "\x7d")

def receivedText (message : Message) : Bytes :=
  ascii "\x7b\"from\":\"" ++ hexBytes message.senderId.1 ++ ascii "\",\"payload\":" ++
    (match message.payload with
      | some (byte :: rest) => byte :: rest
      | _ => ascii "null") ++ ascii "\x7d"

def recvLimit : Nat := 10

def Inbox.dequeue (inbox : Inbox) : Inbox :=
  { inbox with
    messages := inbox.messages.drop recvLimit
    hasTail := inbox.hasTail && !(inbox.messages.drop recvLimit).isEmpty
    count := inbox.count - UInt64.ofNat (inbox.messages.take recvLimit).length }

/-- Here too the result buffer is there. -/
def akHandleRecv : Kernel × Option AkResponse :=
  match akAgentRegistryFind k ctx.pid with
  | none => reply env k req (ascii "\x7b\"messages\":[]\x7d")
  | some slot =>
      match k.inboxAt slot with
      | none => reply env k req (ascii "\x7b\"messages\":[]\x7d")
      | some inbox =>
          succeed env (k.updateInbox slot Inbox.dequeue) req
            (ascii "\x7b\"messages\":[" ++
              List.intercalate (ascii ",") ((inbox.messages.take recvLimit).map receivedText) ++ ascii "]\x7d")

/-- Bytes outside the printable range are dropped. -/
def respondByte (byte : UInt8) : Bytes :=
  if byte = quoteByte ∨ byte = backslashByte then [backslashByte,byte]
  else if byte = 10 then ascii "\\n"
  else if byte = 13 then ascii "\\r"
  else if byte = 9 then ascii "\\t"
  else if 32 ≤ byte ∧ byte < 127 then [byte]
  else []

def akHandleRespond : Kernel × Option AkResponse :=
  match req.args with
  | none => reply env k req (ascii "\x7b\"acknowledged\":true\x7d")
  | some [] => reply env k req (ascii "\x7b\"acknowledged\":true\x7d")
  | some (byte :: rest) =>
      let sanitized := if req.taint = .trusted ∨ req.taint = .sanitizedHtml then
          (if env.copyAlloc then some (byte :: rest) else none)
        else env.sanitized
      match sanitized with
      | none => fail env k req (-eNomem)
      | some content =>
          reply env k req
            (ascii "\x7b\"content\":\"" ++ content.flatMap respondByte ++ ascii "\",\"sanitized\":true\x7d")

def akHandleAssert : Kernel × Option AkResponse := reply env k req (ascii "\x7b\"asserted\":true\x7d")

def akHandleQuery : Kernel × Option AkResponse := reply env k req env.report

def akHandleCommit : Kernel × Option AkResponse := reply env k req env.report

def budgetReport : Kernel × Option AkResponse :=
  if ctx.budget.isNone then fail env k req (-eInval) else reply env k req env.report

def akHandleBudgetStatus : Kernel × Option AkResponse := budgetReport env k ctx req

def akHandleBudgetHistory : Kernel × Option AkResponse := budgetReport env k ctx req

def akHandleBudgetBreakdown : Kernel × Option AkResponse := budgetReport env k ctx req

def memberOrEmpty (args : Option Bytes) (key : String) (outLen : Nat) : CString :=
  .ofBuffer ((jsonExtractString args key outLen).getD [])

def inferenceModel (args : Option Bytes) : CString := memberOrEmpty args "model" 64

def inferenceMaxTokens (args : Option Bytes) : UInt32 :=
  match jsonExtractInt args "max_tokens" with
  | some maxTokens => maxTokens.toUInt32
  | none => 1024

def estimatedTokens (args : Option Bytes) : UInt32 :=
  if inferenceMaxTokens args > 0 then inferenceMaxTokens args else 1024

def inferenceRefused (code : Int) : Option InferenceResponse :=
  if env.inference.responseAlloc then some ⟨false,code,none,0,0⟩ else none

def akInferenceComplete : Kernel × Option InferenceResponse :=
  match req.cap with
  | none => (k,inferenceRefused env akECapMissing)
  | some cap =>
      let answer := akCapabilityValidate env.inference.validate (some cap)
        ⟨.inference,text "*",some (text "inference"),some ctx.runId⟩ k.caps
      let k := { k with caps := answer.1 }
      if answer.2 ≠ 0 then (k,inferenceRefused env answer.2)
      else if ctx.budget.isSome && !akBudgetCheck ctx.budget .llmTokensOut (estimatedTokens req.args).toUInt64 then
        (k,inferenceRefused env akEBudgetExceeded)
      else
        match env.inference.backend (inferenceModel req.args) (inferenceMaxTokens req.args) req.args with
        | none => (k,none)
        | some answer =>
            if answer.success then
              ((k.commitBudget index .llmTokensIn answer.promptTokens.toUInt64).commitBudget index .llmTokensOut
                answer.completionTokens.toUInt64,some answer)
            else (k,some answer)

def withUsage (answer : InferenceResponse) (response : AkResponse) : AkResponse :=
  { response with
    usage := fun
      | .llmTokensIn => answer.promptTokens.toUInt64
      | .llmTokensOut => answer.completionTokens.toUInt64
      | resource => response.usage resource }

def akHandleInference : Kernel × Option AkResponse :=
  if !k.inferenceReady then fail env k req akELlmNotConfigured
  else
    let completed := akInferenceComplete env k index ctx req
    match completed.2 with
    | none => fail env completed.1 req akELlmApiError
    | some answer =>
        if answer.success then
          (completed.1,(akResponseSuccess env.responseAlloc (some req) answer.content).map (withUsage answer))
        else fail env completed.1 req answer.errorCode

def issuePort (args : Option Bytes) : UInt16 :=
  let port := (jsonExtractInt args "port").getD 0
  if port ≠ 0 then port.toUInt16 else if (jsonExtractInt args "tls").getD 0 ≠ 0 then 443 else 80

def issueBody (args : Option Bytes) : Bytes :=
  ascii "\x7b\"model\":\"" ++ (inferenceModel args).1 ++ ascii "\",\"prompt\":\"" ++
    (memberOrEmpty args "prompt" 512).1 ++ ascii "\"\x7d"

def issuePath (args : Option Bytes) : CString :=
  let path := memberOrEmpty args "path" 128
  if path.1 = [] then text "/" else path

def akHandleInferIssue : Kernel × Option AkResponse :=
  if !env.issue.transport then fail env k req akELlmNotConfigured
  else if ctx.inferHandle then fail env k req akELlmApiError
  else if req.args.isNone then fail env k req akESchemaInvalid
  else
    let host := memberOrEmpty req.args "host" 128
    if host.1 = [] then fail env k req akESchemaInvalid
    else if !env.issue.bodyAlloc then fail env k req akEToolFail
    else if !env.issue.issued host (issuePath req.args) (issuePort req.args)
        ((jsonExtractInt req.args "tls").getD 0 != 0) (issueBody req.args) then
      fail env k req akELlmConnectionFailed
    else succeed env (k.updateContext index fun ctx => { ctx with inferHandle := true }) req (ascii "\x7b\"id\":1\x7d")

def akHandleInferPoll : Kernel × Option AkResponse :=
  if !ctx.inferHandle then fail env k req akESchemaInvalid
  else
    let reaped := k.updateContext index fun ctx => { ctx with inferHandle := false }
    match env.poll with
    | .pending => fail env k req (-eAgain)
    | .failed code => fail env reaped req code
    | .ready body => succeed env reaped req (body.getD (ascii "\x7b\x7d"))

end AuthorityKernel.Dispatch
