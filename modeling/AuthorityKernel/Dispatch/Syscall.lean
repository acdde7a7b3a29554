import AuthorityKernel.Capability.Wire
import AuthorityKernel.Dispatch.Gate

/-! The system call entry. It finds the calling agent, builds a request out of the argument
words and hands it to the dispatcher. A token is presented by its address; one that does
not parse is dropped, and the request goes on as if none had been presented. -/
namespace AuthorityKernel.Dispatch
open Library Capability Budget Policy

/-- `root` is the context of the main process, made by the first call that needs it. -/
structure SyscallState where
  kernel : Kernel
  root : Option Nat
  lastSeq : Nat → UInt64

structure SyscallArgs where
  call : UInt64
  arg0 : UInt64
  arg1 : UInt64
  arg2 : UInt64
  arg3 : UInt64
  arg4 : UInt64
  arg5 : UInt64

structure SyscallEnv where
  memory : UInt64 → UInt8
  context : ContextEnv
  create : CreateEnv
  parseAlloc : Bool
  dispatch : DispatchEnv

structure SyscallOutcome where
  state : SyscallState
  result : Int
  ran : Option SysOp

def lowestAddress : UInt64 := 0x1000

def bytesAt (memory : UInt64 → UInt8) (address : UInt64) (count : Nat) : Bytes :=
  (List.range count).map fun i => memory (address + UInt64.ofNat i)

def idAt (memory : UInt64 → UInt8) (address : UInt64) : TokenId := ⟨bytesAt memory address 16,by simp [bytesAt]⟩

def rootArgs (runId : TokenId) : CreateArgs := ⟨255,text "*",none,akMaxCapTtlMs,0,0,some runId⟩

def akGetCurrentContext (env : SyscallEnv) (s : SyscallState) : SyscallState × Option Nat :=
  if !s.kernel.initialized then (s,none)
  else
    match s.root with
    | some index => (s,some index)
    | none =>
        let created := akContextCreate env.context (some (Block.zero 16)) none s.kernel
        match created.2 with
        | none => (s,none)
        | some index =>
            let owned := created.1.updateContext index fun ctx =>
              { ctx with rootCap := akCapabilityCreate env.create (rootArgs ctx.runId) created.1.caps }
            ({ s with kernel := (akAgentRegistryAdd owned index).1, root := some index },some index)

def resolveAgent (env : SyscallEnv) (args : SyscallArgs) (s : SyscallState) : SyscallState × Except Int Nat :=
  if args.arg0 ≠ 0 then
    if args.arg0 < lowestAddress then (s,.error (-eFault))
    else
      match (akAgentRegistryFind s.kernel (idAt env.memory args.arg0)).bind fun slot =>
          (s.kernel.agents.1[slot]?).bind id with
      | none => (s,.error (-eSrch))
      | some entry => (s,.ok entry.context)
  else
    match akGetCurrentContext env s with
    | (s,none) => (s,.error (-eAgain))
    | (s,some index) => (s,.ok index)

/-- The token at the address given. An address that is too low is not even looked at. -/
def presentedToken (env : SyscallEnv) (args : SyscallArgs) : Option AkCapability :=
  if args.arg5 ≠ 0 ∧ args.arg5 ≥ lowestAddress then
    akCapabilityParse env.parseAlloc (bytesAt env.memory args.arg5 akCapWireMaxSize)
  else none

def buildRequest (env : SyscallEnv) (args : SyscallArgs) (ctx : AgentContext) (seq : UInt64) : Except Int AkRequest :=
  let req : AkRequest := ⟨ctx.pid,ctx.runId,seq,args.call.toUInt16,none,presentedToken env args,.untrusted⟩
  if args.arg1 ≠ 0 ∧ args.arg2 > 0 then
    if args.arg1 < lowestAddress then .error (-eFault)
    else .ok { req with args := some (bytesAt env.memory args.arg1 args.arg2.toNat) }
  else .ok req

/-- What reaches the dispatcher, or the error before it. The number of a request is used up
either way. -/
def syscallEntry (env : SyscallEnv) (args : SyscallArgs) (s : SyscallState) :
    SyscallState × Except Int (Nat × AgentContext × AkRequest) :=
  if args.call < 1024 ∨ args.call > 1042 then (s,.error (-eNosys))
  else
    let resolved := resolveAgent env args s
    match resolved.2 with
    | .error code => (resolved.1,.error code)
    | .ok index =>
        match resolved.1.kernel.contexts[index]? with
        | none => (resolved.1,.error (-eAgain))
        | some ctx =>
            let seq := resolved.1.lastSeq index + 1
            let numbered :=
              { resolved.1 with lastSeq := fun place => if place = index then seq else resolved.1.lastSeq place }
            match buildRequest env args ctx seq with
            | .error code => (numbered,.error code)
            | .ok req => (numbered,.ok (index,ctx,req))

/-- A result that does not fit is an error, not a cut. -/
def copyOut (args : SyscallArgs) (result : Option Bytes) : Int :=
  match result with
  | none => 0
  | some bytes =>
      if args.arg3 ≠ 0 ∧ args.arg4 > 0 then
        if args.arg3 < lowestAddress then -eFault
        else if bytes.length > args.arg4.toNat then -eInval
        else bytes.length
      else 0

def syscallResult (args : SyscallArgs) (response : Option AkResponse) : Int :=
  match response with
  | none => -eFault
  | some res =>
      match res.status with
      | .ok => copyOut args res.result
      | .error => if res.errorCode ≠ 0 then res.errorCode else -eInval

def akSyscallHandler (env : SyscallEnv) (args : SyscallArgs) (s : SyscallState) : SyscallOutcome :=
  let entry := syscallEntry env args s
  match entry.2 with
  | .error code => ⟨entry.1,code,none⟩
  | .ok (index,_,req) =>
      let outcome := akDispatch env.dispatch entry.1.kernel (some index) (some req)
      ⟨{ entry.1 with kernel := outcome.kernel },syscallResult args outcome.response,outcome.ran⟩

variable {env : DispatchEnv} {k : Kernel} {index : Nat} {ctx : AgentContext} {req : AkRequest}

theorem syscallResult_error_iff (args : SyscallArgs) (alloc : Bool) (request : Option AkRequest) (code : Int) :
    syscallResult args (akResponseError alloc request code) < 0 ↔ alloc = false ∨ code ≤ 0 := by
  cases alloc with
  | false => exact iff_of_true (by change -eFault < 0; decide) (Or.inl rfl)
  | true =>
    change (if code ≠ 0 then code else -eInval) < 0 ↔ _
    rw [eInval]
    split <;> simp <;> omega

theorem syscallResult_error (args : SyscallArgs) (alloc : Bool) (request : Option AkRequest) {code : Int}
    (bad : code ≤ 0) : syscallResult args (akResponseError alloc request code) < 0 :=
  (syscallResult_error_iff args alloc request code).mpr (Or.inr bad)

theorem syscallResult_refused (args : SyscallArgs) (live : Live k (some index) (some req) index ctx req)
    (inadmissible : ¬Admissible env k ctx req) :
    syscallResult args (akDispatch env k (some index) (some req)).response < 0 := by
  obtain ⟨code,negative,refused⟩ := @executed_refuse _ _ index _ _ inadmissible
  rw [akDispatch_live live,refused]
  exact syscallResult_error args _ _ (Int.le_of_lt negative)

/-- The capability stage was satisfied by a capability that the context itself holds. -/
def OnOwnAuthority (env : DispatchEnv) (k : Kernel) (ctx : AgentContext) (req : AkRequest) : Prop :=
  ∃ cap, (authorization env k ctx req).code = 0 ∧ (authorization env k ctx req).cap = some cap ∧
    (ctx.rootCap = some cap ∨ ∃ grants, ctx.delegatedCaps = some grants ∧ cap ∈ grants)

theorem onOwnAuthority_iff (bare : req.cap = none) (granted : (authorization env k ctx req).code = 0) :
    OnOwnAuthority env k ctx req ↔ requirement (SysOp.ofCode req.op) req.args ≠ .exempt := by
  obtain ⟨tracker,kept⟩ := akCheckReplay_kept ctx req
  unfold OnOwnAuthority
  unfold authorization akValidateCapability at granted ⊢
  cases needed : requirement (SysOp.ofCode req.op) req.args with
  | exempt => simp [bare]
  | refused => simp [needed,akECapScope] at granted
  | needs type resource method =>
    simp only [needed,bare] at granted ⊢
    obtain ⟨cap,_,_,effective,_,source⟩ := authorize_granted granted
    have own := source.resolve_left (by simp)
    rw [kept] at own effective granted ⊢
    exact iff_of_true ⟨cap,granted,effective,own⟩ (by simp)

variable {args : SyscallArgs}

theorem buildRequest_cap {env : SyscallEnv} {ctx : AgentContext} {seq : UInt64} {req : AkRequest}
    (built : buildRequest env args ctx seq = .ok req) : req.cap = presentedToken env args := by
  unfold buildRequest at built
  split at built
  · split at built
    · contradiction
    · cases built
      rfl
  · cases built
    rfl

variable {s : SyscallState}

theorem syscallEntry_found {env : SyscallEnv} {index : Nat} {ctx : AgentContext}
    {req : AkRequest} (entered : (syscallEntry env args s).2 = .ok (index,ctx,req)) :
    (syscallEntry env args s).1.kernel.contexts[index]? = some ctx ∧ req.cap = presentedToken env args := by
  unfold syscallEntry at entered ⊢
  split at entered
  · contradiction
  rename_i inRange
  rw [if_neg inRange]
  cases resolved : (resolveAgent env args s).2 with
  | error code => simp [resolved] at entered
  | ok place =>
    cases located : (resolveAgent env args s).1.kernel.contexts[place]? with
    | none => simp [resolved,located] at entered
    | some found =>
      cases built : buildRequest env args found ((resolveAgent env args s).1.lastSeq place + 1) with
      | error code => simp [resolved,located,built] at entered
      | ok made =>
        simp only [resolved,located,built] at entered ⊢
        cases entered
        exact ⟨located,buildRequest_cap built⟩

section Reports
variable (env : HandlerEnv) (args : SyscallArgs) (ctx : AgentContext)

def CopyFails (text : Bytes) : Prop :=
  args.arg3 ≠ 0 ∧ args.arg4 > 0 ∧ (args.arg3 < lowestAddress ∨ text.length > args.arg4.toNat)

/-- What makes an operation that needs no authority end in an error. -/
def ReportFails : SysOp → Prop
  | .inferPoll =>
      ctx.inferHandle = false ∨ env.responseAlloc = false ∨
        match env.poll with
        | .pending => True
        | .failed code => code ≤ 0
        | .ready body => CopyFails args (body.getD (ascii "\x7b\x7d"))
  | _ => ctx.budget = none ∨ env.responseAlloc = false ∨ env.resultAlloc = false ∨ CopyFails args env.report

end Reports

theorem copyOut_neg_iff (args : SyscallArgs) (text : Bytes) : copyOut args (some text) < 0 ↔ CopyFails args text := by
  change (if args.arg3 ≠ 0 ∧ args.arg4 > 0 then _ else 0) < 0 ↔ _
  split
  · rename_i given
    split
    · rename_i low
      exact iff_of_true (by decide) ⟨given.1,given.2,Or.inl low⟩
    rename_i high
    split
    · rename_i long
      exact iff_of_true (by decide) ⟨given.1,given.2,Or.inr long⟩
    rename_i fits
    refine iff_of_false (by omega) ?_
    rintro ⟨_,_,low | long⟩
    · exact high low
    · exact fits long
  · rename_i absent
    refine iff_of_false (by omega) ?_
    rintro ⟨address,room,_⟩
    exact absent ⟨address,room⟩

theorem syscallResult_success (args : SyscallArgs) (alloc : Bool) (request : Option AkRequest) (text : Bytes) :
    syscallResult args (akResponseSuccess alloc request (some text)) < 0 ↔ alloc = false ∨ CopyFails args text := by
  cases alloc with
  | false => exact iff_of_true (by change -eFault < 0; decide) (Or.inl rfl)
  | true =>
    change copyOut args (some text) < 0 ↔ _
    rw [copyOut_neg_iff]
    simp

theorem budgetReport_fails_iff (env : HandlerEnv) (args : SyscallArgs) (k : Kernel) (ctx : AgentContext)
    (req : AkRequest) :
    syscallResult args (budgetReport env k ctx req).2 < 0 ↔
      ctx.budget = none ∨ env.responseAlloc = false ∨ env.resultAlloc = false ∨ CopyFails args env.report := by
  unfold budgetReport
  split
  · rename_i missing
    have none := Option.isNone_iff_eq_none.mp missing
    exact iff_of_true (syscallResult_error args _ _ (by decide)) (Or.inl none)
  rename_i present
  rw [Option.isNone_iff_eq_none] at present
  unfold reply
  split
  · rename_i alloc
    rw [succeed,syscallResult_success]
    simp [present,alloc]
  · rename_i failed
    exact iff_of_true (syscallResult_error args _ _ (by decide)) (Or.inr (Or.inr (Or.inl (by simpa using failed))))

theorem akHandleInferPoll_fails_iff (env : HandlerEnv) (args : SyscallArgs) (k : Kernel) (index : Nat)
    (ctx : AgentContext) (req : AkRequest) :
    syscallResult args (akHandleInferPoll env k index ctx req).2 < 0 ↔ ReportFails env args ctx .inferPoll := by
  unfold akHandleInferPoll ReportFails
  split
  · rename_i idle
    exact iff_of_true (syscallResult_error args _ _ (by decide)) (Or.inl (by simpa using idle))
  rename_i flying
  rw [Bool.not_eq_true,Bool.not_eq_false'] at flying
  cases answer : env.poll with
  | pending => exact iff_of_true (syscallResult_error args _ _ (by decide)) (Or.inr (Or.inr trivial))
  | failed code =>
    dsimp only
    rw [fail,syscallResult_error_iff]
    simp [flying]
  | ready body =>
    dsimp only
    rw [succeed,syscallResult_success]
    simp [flying]

theorem exempt_fails_iff (env : HandlerEnv) (args : SyscallArgs) (k : Kernel) (index : Nat) (ctx : AgentContext)
    {req : AkRequest} {op : SysOp} (exempt : requirement (some op) req.args = .exempt) :
    syscallResult args (handle env k index ctx req op).2 < 0 ↔ ReportFails env args ctx op := by
  rcases requirement_exempt exempt with rfl | rfl | rfl | rfl
  · exact akHandleInferPoll_fails_iff env args k index ctx req
  · exact budgetReport_fails_iff env args k ctx req
  · exact budgetReport_fails_iff env args k ctx req
  · exact budgetReport_fails_iff env args k ctx req

theorem reportFails_replayed (env : HandlerEnv) (args : SyscallArgs) (ctx : AgentContext) (req : AkRequest)
    (op : SysOp) : ReportFails env args (akCheckReplay ctx req).1 op ↔ ReportFails env args ctx op := by
  obtain ⟨tracker,kept⟩ := akCheckReplay_kept ctx req
  rw [kept]
  cases op <;> rfl

theorem resolveAgent_error_neg {env : SyscallEnv} {code : Int}
    (failed : (resolveAgent env args s).2 = .error code) : code < 0 := by
  unfold resolveAgent at failed
  split at failed
  · split at failed
    · cases failed
      decide
    · split at failed
      · cases failed
        decide
      · contradiction
  · split at failed
    · cases failed
      decide
    · contradiction

theorem syscallEntry_error_neg {env : SyscallEnv} {code : Int}
    (failed : (syscallEntry env args s).2 = .error code) : code < 0 := by
  unfold syscallEntry at failed
  split at failed
  · cases failed
    decide
  cases resolved : (resolveAgent env args s).2 with
  | error early =>
    simp only [resolved] at failed
    cases failed
    exact resolveAgent_error_neg resolved
  | ok place =>
    cases located : (resolveAgent env args s).1.kernel.contexts[place]? with
    | none =>
      simp only [resolved,located] at failed
      cases failed
      decide
    | some found =>
      simp only [resolved,located] at failed
      unfold buildRequest at failed
      split at failed
      · rename_i early made
        cases failed
        split at made
        · split at made
          · cases made
            decide
          · contradiction
        · contradiction
      · contradiction

section Tokens
variable (env : SyscallEnv) (args : SyscallArgs) (s : SyscallState)

/-- The call ran nothing on the strength of what the context holds, and failed. -/
structure Unhelped : Prop where
  authority : ∀ index ctx req, (syscallEntry env args s).2 = .ok (index,ctx,req) →
    (akSyscallHandler env args s).ran.isSome = true →
      ¬OnOwnAuthority env.dispatch (syscallEntry env args s).1.kernel ctx req
  error : (akSyscallHandler env args s).result < 0

end Tokens

theorem akSyscallHandler_ok {env : SyscallEnv} {index : Nat}
    {ctx : AgentContext} {req : AkRequest} (entered : (syscallEntry env args s).2 = .ok (index,ctx,req)) :
    (akSyscallHandler env args s).ran =
        (akDispatch env.dispatch (syscallEntry env args s).1.kernel (some index) (some req)).ran ∧
      (akSyscallHandler env args s).result = syscallResult args
        (akDispatch env.dispatch (syscallEntry env args s).1.kernel (some index) (some req)).response := by
  unfold akSyscallHandler
  simp only [entered]
  exact ⟨trivial,trivial⟩

section Entered
variable {env : SyscallEnv} {args : SyscallArgs} {s : SyscallState} {index : Nat} {ctx : AgentContext} {req : AkRequest}

theorem unhelped_of_idle (entered : (syscallEntry env args s).2 = .ok (index,ctx,req))
    (idle : (akDispatch env.dispatch (syscallEntry env args s).1.kernel (some index) (some req)).ran = none)
    (failed : syscallResult args
      (akDispatch env.dispatch (syscallEntry env args s).1.kernel (some index) (some req)).response < 0) :
    Unhelped env args s := by
  obtain ⟨ran,result⟩ := akSyscallHandler_ok entered
  constructor
  · intro _ _ _ _ some
    rw [ran,idle] at some
    contradiction
  · rw [result]
    exact failed

theorem unhelped_admitted_iff (entered : (syscallEntry env args s).2 = .ok (index,ctx,req))
    (live : Live (syscallEntry env args s).1.kernel (some index) (some req) index ctx req) (bare : req.cap = none)
    (admissible : Admissible env.dispatch (syscallEntry env args s).1.kernel ctx req) (op : SysOp)
    (known : SysOp.ofCode req.op = some op) :
    Unhelped env args s ↔
      requirement (some op) req.args = .exempt ∧ ReportFails env.dispatch.handler args ctx op := by
  have own := @onOwnAuthority_iff env.dispatch (syscallEntry env args s).1.kernel ctx req bare admissible.capability
  rw [known] at own
  obtain ⟨ran,result⟩ := akSyscallHandler_ok entered
  rw [akDispatch_live live,executed_run admissible known] at ran result
  have ends : requirement (some op) req.args = .exempt →
      ((akSyscallHandler env args s).result < 0 ↔ ReportFails env.dispatch.handler args ctx op) := by
    intro exempt
    rw [result,← reportFails_replayed env.dispatch.handler args ctx req op]
    exact exempt_fails_iff env.dispatch.handler args _ index _ exempt
  constructor
  · intro unhelped
    have exempt : requirement (some op) req.args = .exempt := by
      by_contra needs
      exact unhelped.authority index ctx req entered (by rw [ran]; rfl) (own.mpr needs)
    exact ⟨exempt,(ends exempt).mp unhelped.error⟩
  · rintro ⟨exempt,fails⟩
    constructor
    · intro place ctx' req' entered' _ owned
      cases entered.symm.trans entered'
      exact own.mp owned exempt
    · exact (ends exempt).mpr fails

end Entered

/-- A token that does not parse counts as no token at all. It does not help exactly when the
same request would not be admitted without one, save for an operation that needs no
authority and fails for a reason of its own. -/
theorem bad_token_unhelped_iff (env : SyscallEnv) (args : SyscallArgs) (s : SyscallState)
    (bad : args.arg5 ≠ 0 ∧ presentedToken env args = none) :
    Unhelped env args s ↔
      ∀ index ctx req, (syscallEntry env args s).2 = .ok (index,ctx,req) →
        (syscallEntry env args s).1.kernel.initialized = true →
        Admissible env.dispatch (syscallEntry env args s).1.kernel ctx req →
        ∃ op, SysOp.ofCode req.op = some op ∧ requirement (some op) req.args = .exempt ∧
          ReportFails env.dispatch.handler args ctx op := by
  cases entered : (syscallEntry env args s).2 with
  | error code =>
    refine iff_of_true ⟨?_,?_⟩ (by intro _ _ _ impossible; contradiction)
    · intro _ _ _ impossible
      rw [entered] at impossible
      contradiction
    · have negative := syscallEntry_error_neg entered
      unfold akSyscallHandler
      simp only [entered]
      exact negative
  | ok triple =>
    obtain ⟨index,ctx,req⟩ := triple
    obtain ⟨found,carried⟩ := syscallEntry_found entered
    have bare : req.cap = none := carried.trans bad.2
    by_cases ready : (syscallEntry env args s).1.kernel.initialized = true
    · have live : Live (syscallEntry env args s).1.kernel (some index) (some req) index ctx req :=
        ⟨ready,rfl,found,rfl⟩
      by_cases admissible : Admissible env.dispatch (syscallEntry env args s).1.kernel ctx req
      · obtain ⟨op,known⟩ := akValidateRequest_op admissible.request
        rw [unhelped_admitted_iff entered live bare admissible op known]
        constructor
        · rintro ⟨exempt,fails⟩ index' ctx' req' same _ _
          cases same
          exact ⟨op,known,exempt,fails⟩
        · intro every
          obtain ⟨op',known',exempt,fails⟩ := every index ctx req rfl ready admissible
          cases Option.some.inj (known.symm.trans known')
          exact ⟨exempt,fails⟩
      · have idle := (@executed_refused env.dispatch _ index _ _ found admissible).1
        rw [← akDispatch_ran live] at idle
        refine iff_of_true (unhelped_of_idle entered idle (syscallResult_refused args live admissible)) ?_
        intro index' ctx' req' same _ admitted
        cases same
        exact absurd admitted admissible
    · have dead : ¬∃ index' ctx' req',
          Live (syscallEntry env args s).1.kernel (some index) (some req) index' ctx' req' :=
        fun ⟨_,_,_,live⟩ => ready live.ready
      have stopped := @akDispatch_dead env.dispatch _ (some index) (some req) dead
      refine iff_of_true (unhelped_of_idle entered (by rw [stopped]) ?_) (by intro _ _ _ _ initialized; contradiction)
      rw [stopped]
      exact syscallResult_error args _ _ (by decide)

def plainSyscall : SyscallEnv where
  memory := fun _ => 0
  context := ⟨true,Block.zero 16,Block.zero 16,true,true,true,true⟩
  create := plainCreate 0 (Block.zero 16)
  parseAlloc := true
  dispatch := plainDispatch

def booted (policy : AkPolicy) : SyscallState := ⟨akInit 0 (Block.zero 32) (some policy),none,fun _ => 0⟩

/-- An ASSERT of an agent, with the address of a token that is all zeros. -/
def zeroTokenCall (agent : UInt64) : SyscallArgs := ⟨1036,agent,0,0,0,0,0x2000⟩

def assertRequest : AkRequest := ⟨Block.zero 16,Block.zero 16,1,SysOp.assert.code,none,none,.untrusted⟩

def rootToken : AkCapability :=
  sign true (Block.zero 32)
    (unsignedToken (plainCreate 0 (Block.zero 16)) (rootArgs (Block.zero 16)) 0 star_fits
      (by simp [rootArgs,copiedMethods]))

def rootContext (policy : AkPolicy) : AgentContext :=
  { newContext (Block.zero 16) (Block.zero 16) (some policy) (some []) with rootCap := some rootToken }

theorem zeroToken_unparsed (agent : UInt64) : presentedToken plainSyscall (zeroTokenCall agent) = none := by
  change presentedToken plainSyscall (zeroTokenCall 0) = none
  decide +kernel

theorem rootToken_created :
    akCapabilityCreate (plainCreate 0 (Block.zero 16)) (rootArgs (Block.zero 16))
      (akKeysInit 0 (Block.zero 32) .static) = some rootToken := rfl

theorem rootToken_validates (request : Capability.Request) (run : request.runId = some (Block.zero 16)) :
    (akCapabilityValidate (plainValidate 0) (some rootToken) request (akKeysInit 0 (Block.zero 32) .static)).2 = 0 := by
  have admin : rootToken.type = .admin := rfl
  rw [akCapabilityValidate_eq_zero_iff]
  refine ⟨⟨?_,by decide⟩,rfl,⟨by simp [holdsType,admin],Glob.denotes_lone_star _,?_,?_⟩,Or.inl rfl⟩
  · exact akCapabilityCreate_authentic _ _ _ _ (akKeysInit_invariant 0 (Block.zero 32) .static) rootToken_created
  · unfold allowsMethod
    split <;> rfl
  · rw [run]
    rfl

theorem zeroToken_built (agent : UInt64) (ctx : AgentContext) (seq : UInt64) :
    buildRequest plainSyscall (zeroTokenCall agent) ctx seq =
      .ok ⟨ctx.pid,ctx.runId,seq,SysOp.assert.code,none,none,.untrusted⟩ := by
  simp only [buildRequest,zeroToken_unparsed]
  rfl

theorem zeroToken_entry (agent : UInt64) (s s' : SyscallState) (ctx : AgentContext)
    (resolved : resolveAgent plainSyscall (zeroTokenCall agent) s = (s',.ok 0)) (fresh : s'.lastSeq 0 = 0)
    (located : s'.kernel.contexts[0]? = some ctx) (pid : ctx.pid = Block.zero 16) (run : ctx.runId = Block.zero 16) :
    (syscallEntry plainSyscall (zeroTokenCall agent) s).1.kernel = s'.kernel ∧
      (syscallEntry plainSyscall (zeroTokenCall agent) s).2 = .ok (0,ctx,assertRequest) := by
  have inRange : ¬((zeroTokenCall agent).call < 1024 ∨ (zeroTokenCall agent).call > 1042) := by
    change ¬((1036 : UInt64) < 1024 ∨ (1036 : UInt64) > 1042)
    decide
  unfold syscallEntry
  rw [if_neg inRange]
  simp only [resolved,located,fresh,zeroToken_built,pid,run]
  exact ⟨trivial,rfl⟩

theorem booted_entry (policy : AkPolicy) :
    ((syscallEntry plainSyscall (zeroTokenCall 0) (booted policy)).1.kernel.caps =
        akKeysInit 0 (Block.zero 32) .static ∧
      (syscallEntry plainSyscall (zeroTokenCall 0) (booted policy)).1.kernel.initialized = true) ∧
      (syscallEntry plainSyscall (zeroTokenCall 0) (booted policy)).2 = .ok (0,rootContext policy,assertRequest) := by
  obtain ⟨kernel,entered⟩ := zeroToken_entry 0 (booted policy) _ (rootContext policy) rfl rfl rfl rfl rfl
  rw [kernel]
  exact ⟨⟨rfl,rfl⟩,entered⟩

theorem root_admissible {policy : AkPolicy} {k : Kernel} (caps : k.caps = akKeysInit 0 (Block.zero 32) .static)
    (admitted : rulesAdmit policy (rootContext policy).budget assertRequest = true) :
    Admissible plainDispatch k (rootContext policy) assertRequest := by
  refine ⟨akValidateRequest_eq_zero rfl rfl rfl,?_,?_,?_⟩
  · change (akSeqTrackerCheck akSeqTrackerCreate 1).2 ≠ akEReplay
    rw [ne_eq,akSeqTrackerCheck_replay_iff]
    decide
  · have validates := rootToken_validates ⟨.any,text "*",some (text "ASSERT"),some (Block.zero 16)⟩ rfl
    rw [authorization,caps]
    exact validates
  · intro rules same
    cases same
    exact admitted

def emptyDocument : Bytes := ascii "\x7b\x7d"

theorem emptyDocument_loads :
    ∃ policy, akPolicyLoad plainLoad none emptyDocument = some policy ∧
      rulesAdmit policy (some (akBudgetCreate (some policy.budgets))) assertRequest = true :=
  loads_of_decide _ (by decide +kernel)

/-- The first call of the main process presents a token of zeros and is served as the
administrator. -/
theorem zero_token_runs_as_root :
    ∃ policy, akPolicyLoad plainLoad none emptyDocument = some policy ∧
      presentedToken plainSyscall (zeroTokenCall 0) = none ∧
      (akSyscallHandler plainSyscall (zeroTokenCall 0) (booted policy)).ran = some .assert ∧
      (akSyscallHandler plainSyscall (zeroTokenCall 0) (booted policy)).result = 0 ∧
      ¬Unhelped plainSyscall (zeroTokenCall 0) (booted policy) := by
  obtain ⟨policy,loaded,admitted⟩ := emptyDocument_loads
  obtain ⟨⟨caps,ready⟩,entered⟩ := booted_entry policy
  have found := (syscallEntry_found entered).1
  have admissible := root_admissible caps admitted
  have live : Live (syscallEntry plainSyscall (zeroTokenCall 0) (booted policy)).1.kernel (some 0) (some assertRequest)
      0 (rootContext policy) assertRequest := ⟨ready,rfl,found,rfl⟩
  obtain ⟨ran,result⟩ := akSyscallHandler_ok entered
  have dispatched := @akDispatch_live plainDispatch _ _ _ _ _ _ live
  rw [executed_run admissible (SysOp.ofCode_code .assert)] at dispatched
  have served : (akSyscallHandler plainSyscall (zeroTokenCall 0) (booted policy)).result = 0 := by
    rw [result]
    change syscallResult (zeroTokenCall 0) (akDispatch plainDispatch _ _ _).response = 0
    rw [dispatched]
    rfl
  refine ⟨policy,loaded,zeroToken_unparsed 0,?_,served,?_⟩
  · rw [ran]
    change (akDispatch plainDispatch _ _ _).ran = _
    rw [dispatched]
  · intro unhelped
    have error := unhelped.error
    rw [served] at error
    exact absurd error (by decide)

def confined (policy : AkPolicy) : SyscallState :=
  let created := akContextCreate plainSyscall.context (some (Block.zero 16)) none (booted policy).kernel
  { booted policy with kernel := (akAgentRegistryAdd created.1 0).1 }

/-- The same token presented by an agent without authority is refused. -/
theorem zero_token_of_confined_agent :
    ∃ policy, akPolicyLoad plainLoad none emptyDocument = some policy ∧
      Unhelped plainSyscall (zeroTokenCall 0x1000) (confined policy) := by
  obtain ⟨policy,loaded,_⟩ := emptyDocument_loads
  obtain ⟨kernel,entered⟩ := zeroToken_entry 0x1000 (confined policy) (confined policy)
    (newContext (Block.zero 16) (Block.zero 16) (some policy) (some [])) rfl rfl rfl rfl rfl
  refine ⟨policy,loaded,(bad_token_unhelped_iff plainSyscall (zeroTokenCall 0x1000) (confined policy)
    ⟨by decide,zeroToken_unparsed 0x1000⟩).mpr ?_⟩
  intro index ctx req same _ admissible
  cases entered.symm.trans same
  have missing : (authorization plainDispatch
      (syscallEntry plainSyscall (zeroTokenCall 0x1000) (confined policy)).1.kernel
      (newContext (Block.zero 16) (Block.zero 16) (some policy) (some [])) assertRequest).code = akECapMissing := rfl
  exact absurd (missing.symm.trans admissible.capability) (by decide)

end AuthorityKernel.Dispatch
