import AuthorityKernel.Dispatch.ToolCharges

/-! How often a request counts against the token it presents. The dispatcher checks the
token, and the tool runtime and the inference back end check it again. -/
namespace AuthorityKernel.Dispatch
open Library Library.Run Capability Json Policy Wasm.Tools

structure Use where
  env : DispatchEnv
  execute : ExecuteEnv
  wasm : WasmState
  index : Nat
  request : { req : AkRequest // req.op = SysOp.call.code ∨ req.op = SysOp.inference.code }

def Use.dispatch (use : Use) (runId : TokenId) : DispatchEnv :=
  { use.env with handler := { use.env.handler with tool := akWasmExecuteTool use.execute use.wasm runId } }

def Use.presenting (use : Use) (cap : AkCapability) : AkRequest := { use.request.1 with cap := some cap }

structure Tally where
  kernel : Kernel
  presented : Nat
  admitted : Nat

def inferenceCheck (env : HandlerEnv) (runId : TokenId) : Check :=
  ⟨env.inference.validate,⟨.inference,text "*",some (text "inference"),some runId⟩⟩

def backendChecks (use : Use) (k : Kernel) (ctx : AgentContext) (req : AkRequest) (cap : AkCapability) (caps : CapState) :
    SysOp → List Check
  | .call => (toolReached ctx req).elim [] fun reached =>
      executeChecks use.execute use.wasm ctx.runId reached.1 (some cap) caps
  | .inference => if k.inferenceReady then [inferenceCheck use.env.handler ctx.runId] else []
  | _ => []

def Use.authority (use : Use) (cap : AkCapability) (k : Kernel) (ctx : AgentContext) : Authorization :=
  authorization (use.dispatch ctx.runId) k ctx (use.presenting cap)

/-- The checks of the token behind the dispatcher's own. -/
def laterChecks (cap : AkCapability) (k : Kernel) (use : Use) (ctx : AgentContext) : List Check :=
  match refusal (use.dispatch ctx.runId) k ctx (use.presenting cap), SysOp.ofCode use.request.1.op with
  | none, some op => backendChecks use k ctx (use.presenting cap) cap (use.authority cap k ctx).caps op
  | _, _ => []

/-- The dispatcher's check passes, and the limiter refuses no later one. -/
def admits (cap : AkCapability) (k : Kernel) (use : Use) : Bool :=
  k.contexts[use.index]?.any fun ctx => (use.authority cap k ctx).code = 0 &&
    unthrottled cap (use.authority cap k ctx).caps (laterChecks cap k use ctx)

def useStep (cap : AkCapability) (tally : Tally) (use : Use) : Tally where
  kernel := (akDispatch (use.dispatch (runIdAt tally.kernel use.index)) tally.kernel (some use.index)
    (some (use.presenting cap))).kernel
  presented := tally.presented + 1
  admitted := tally.admitted + (admits cap tally.kernel use).toNat

structure Timely (cap : AkCapability) (start : UInt64) (use : Use) : Prop where
  dispatcher : InWindow cap start use.env.authority.validate.rate.clock
  tool : InWindow cap start use.execute.validate.rate.clock
  host : ∀ check ∈ use.execute.host.checks, InWindow cap start check.env.rate.clock
  inference : InWindow cap start use.env.handler.inference.validate.rate.clock

/-- The request is well formed and within what the token allows, one of the first
`rateLimit` in a window that begins with the first of them. -/
structure Presents (cap : AkCapability) (start : UInt64) (tally : Tally) (use : Use) : Prop where
  ready : tally.kernel.initialized = true
  live : ∃ ctx, tally.kernel.contexts[use.index]? = some ctx ∧
    akValidateRequest ctx (use.presenting cap) = 0 ∧ (akCheckReplay ctx (use.presenting cap)).2 ≠ akEReplay ∧
    ∃ type resource method, requirement (SysOp.ofCode use.request.1.op) use.request.1.args = .needs type resource method ∧
      Metered use.env.authority.validate cap ⟨type,resource,some (text method),some ctx.runId⟩ tally.kernel.caps
  few : tally.presented < cap.rateLimit.toNat
  opens : tally.presented = 0 → OpensWindow use.env.authority.validate.rate cap tally.kernel.caps ∧
    nowMs use.env.authority.validate.rate.clock = start
  timely : Timely cap start use

def CountedOnce (cap : AkCapability) (start : UInt64) (tally : Tally) : Prop :=
  tally.admitted = tally.presented ∧
    (0 < tally.presented → Counts cap start (UInt32.ofNat tally.presented) tally.kernel.caps)

/-- No back end meters the token again. -/
def SingleCheck (cap : AkCapability) (tally : Tally) (use : Use) : Prop :=
  ∀ ctx, tally.kernel.contexts[use.index]? = some ctx → ∀ check ∈ laterChecks cap tally.kernel use ctx,
    ¬ Metered check.env cap check.request tally.kernel.caps

variable {cap : AkCapability} {start : UInt64} {tally : Tally} {use : Use} {k : Kernel} {ctx : AgentContext}
  {req : AkRequest} {type : CapType} {resource : CString} {method : String}

theorem akHandleInference_caps (env : HandlerEnv) (k : Kernel) (index : Nat) (ctx : AgentContext)
    (presents : req.cap = some cap) : (akHandleInference env k index ctx req).1.caps =
      if k.inferenceReady then recheck (some cap) k.caps (inferenceCheck env ctx.runId) else k.caps := by
  unfold akHandleInference
  cases k.inferenceReady with
  | false => rfl
  | true =>
    have completed : (akInferenceComplete env k index ctx req).1.caps =
        recheck (some cap) k.caps (inferenceCheck env ctx.runId) := by
      unfold akInferenceComplete
      rw [presents]
      dsimp only
      split
      · rfl
      split
      · rfl
      split
      · rfl
      split <;> rfl
    simp only [Bool.not_true,Bool.false_eq_true,if_false,if_true]
    split
    · exact completed
    split
    · exact completed
    exact completed

theorem authorization_presenting
    (needed : requirement (SysOp.ofCode use.request.1.op) use.request.1.args = .needs type resource method) :
    let answer := akCapabilityValidate use.env.authority.validate (some cap)
      ⟨type,resource,some (text method),some ctx.runId⟩ k.caps
    authorization (use.dispatch ctx.runId) k ctx (use.presenting cap) = ⟨answer.1,answer.2,some cap⟩ := by
  obtain ⟨tracker,kept⟩ := akCheckReplay_kept ctx (use.presenting cap)
  unfold authorization akValidateCapability
  rw [kept]
  have asked : requirement (SysOp.ofCode (use.presenting cap).op) (use.presenting cap).args = .needs type resource method :=
    needed
  rw [asked]
  rfl

theorem handle_caps {index : Nat} (presents : req.cap = some cap) (op : SysOp) (known : op = .call ∨ op = .inference) :
    (handle (use.dispatch ctx.runId).handler k index ctx req op).1.caps =
      (backendChecks use k ctx req cap k.caps op).foldl (recheck (some cap)) k.caps := by
  unfold backendChecks
  rcases known with rfl | rfl
  · rw [handle]
    cases reached : toolReached ctx req with
    | none =>
      obtain ⟨code,failed⟩ := akHandleCall_unreached (use.dispatch ctx.runId).handler k index reached
      rw [failed]
      rfl
    | some entered =>
      rw [akHandleCall_reached_caps _ _ _ reached,presents]
      exact akWasmExecuteTool_caps use.execute use.wasm ctx.runId entered.1 entered.2 (some cap) k.heap k.caps
  · rw [handle,akHandleInference_caps _ k index ctx presents]
    cases k.inferenceReady <;> rfl

theorem backendChecks_env {caps : CapState} {op : SysOp} {check : Check}
    (member : check ∈ backendChecks use k ctx req cap caps op) :
    check.env = use.execute.validate ∨ check ∈ use.execute.host.checks ∨
      check.env = use.env.handler.inference.validate := by
  unfold backendChecks at member
  split at member
  · cases reached : toolReached ctx req with
    | none =>
      rw [reached] at member
      contradiction
    | some entered =>
      rw [reached] at member
      exact (executeChecks_env _ _ _ _ _ _ member).imp_right .inl
  · split at member
    · exact .inr (.inr (by rw [List.mem_singleton.mp member]; rfl))
    · contradiction
  · contradiction

theorem Use.known (use : Use) : ∃ op, SysOp.ofCode use.request.1.op = some op ∧ (op = .call ∨ op = .inference) := by
  rcases use.request.2 with call | inference
  · exact ⟨.call,by rw [call]; exact SysOp.ofCode_code .call,.inl rfl⟩
  · exact ⟨.inference,by rw [inference]; exact SysOp.ofCode_code .inference,.inr rfl⟩

theorem checked_inferenceReady (env : DispatchEnv) (k : Kernel) (index : Nat) (ctx : AgentContext) (req : AkRequest) :
    (checked env k index ctx req).inferenceReady = k.inferenceReady := by
  unfold checked
  split
  · rfl
  · dsimp only
    split <;> rfl

theorem backendChecks_checked (env : DispatchEnv) (index : Nat) (caps : CapState) (op : SysOp) :
    backendChecks use (checked env k index ctx req) (akCheckReplay ctx req).1 (authorized env k ctx req) cap caps op =
      backendChecks use k ctx req cap caps op := by
  obtain ⟨tracker,kept⟩ := akCheckReplay_kept ctx req
  have same : (akCheckReplay ctx req).1.runId = ctx.runId := by rw [kept]
  unfold backendChecks
  rw [toolReached_authorized,same,checked_inferenceReady]

theorem useStep_caps (ready : tally.kernel.initialized = true)
    (found : tally.kernel.contexts[use.index]? = some ctx)
    (valid : akValidateRequest ctx (use.presenting cap) = 0)
    (fresh : (akCheckReplay ctx (use.presenting cap)).2 ≠ akEReplay)
    (handed : (use.authority cap tally.kernel ctx).cap = some cap) :
    (useStep cap tally use).kernel.caps =
      (laterChecks cap tally.kernel use ctx).foldl (recheck (some cap)) (use.authority cap tally.kernel ctx).caps := by
  have live : Live tally.kernel (some use.index) (some (use.presenting cap)) use.index ctx (use.presenting cap) :=
    ⟨ready,rfl,found,rfl⟩
  have runId : runIdAt tally.kernel use.index = ctx.runId := by rw [runIdAt,found]; rfl
  have caps := (@checked_caps (use.dispatch ctx.runId) tally.kernel use.index _ _ valid fresh).1
  obtain ⟨op,code,known⟩ := use.known
  simp only [useStep,runId]
  rw [akDispatch_live live,(akLogOperation_kept ..).2.1,laterChecks]
  by_cases admissible : Admissible (use.dispatch ctx.runId) tally.kernel ctx (use.presenting cap)
  · obtain ⟨tracker,kept⟩ := akCheckReplay_kept ctx (use.presenting cap)
    have same : (akCheckReplay ctx (use.presenting cap)).1.runId = ctx.runId := by rw [kept]
    have made := @handle_caps cap use (checked (use.dispatch ctx.runId) tally.kernel use.index ctx (use.presenting cap))
      (akCheckReplay ctx (use.presenting cap)).1
      (authorized (use.dispatch ctx.runId) tally.kernel ctx (use.presenting cap)) use.index handed op known
    rw [same,caps,backendChecks_checked] at made
    rw [refusal_none_iff.mpr admissible,code,executed_run admissible code]
    exact made
  · obtain ⟨_,_,refused⟩ := @executed_refuse _ _ use.index _ _ admissible
    obtain ⟨_,stops⟩ := refusal_some admissible
    rw [refused,stops]
    exact caps

theorem laterChecks_inWindow (timely : Timely cap start use) :
    ∀ check ∈ laterChecks cap k use ctx, InWindow cap start check.env.rate.clock := by
  intro check member
  unfold laterChecks at member
  split at member
  · rcases backendChecks_env member with tool | host | inference
    · rw [tool]
      exact timely.tool
    · exact timely.host check host
    · rw [inference]
      exact timely.inference
  · contradiction

theorem Presents.limited (presents : Presents cap start tally use) : 0 < cap.rateLimit := by
  rw [UInt32.lt_iff_toNat_lt]
  exact Nat.lt_of_le_of_lt (Nat.zero_le _) presents.few

theorem authorization_counts (presents : Presents cap start tally use) (counted : CountedOnce cap start tally)
    (needed : requirement (SysOp.ofCode use.request.1.op) use.request.1.args = .needs type resource method)
    (metered : Metered use.env.authority.validate cap ⟨type,resource,some (text method),some ctx.runId⟩
      tally.kernel.caps) :
    (use.authority cap tally.kernel ctx).code = 0 ∧ (use.authority cap tally.kernel ctx).cap = some cap ∧
      OnlyRates tally.kernel.caps (use.authority cap tally.kernel ctx).caps ∧
      Counts cap start (UInt32.ofNat (tally.presented + 1)) (use.authority cap tally.kernel ctx).caps := by
  have few := presents.few
  have limited := presents.limited
  have charge : (akRateLimitCheck use.env.authority.validate.rate cap.tid cap.rateLimit cap.rateWindowMs
        tally.kernel.caps).2 = true ∧
      Counts cap start (UInt32.ofNat (tally.presented + 1)) (akRateLimitCheck use.env.authority.validate.rate cap.tid
        cap.rateLimit cap.rateWindowMs tally.kernel.caps).1 := by
    rcases Nat.eq_zero_or_pos tally.presented with first | later
    · obtain ⟨opens,clock⟩ := presents.opens first
      have opened := akRateLimitCheck_opens opens limited
      rw [clock] at opened
      rw [first]
      exact opened
    · have below : UInt32.ofNat tally.presented < cap.rateLimit := by
        rw [UInt32.lt_iff_toNat_lt,UInt32.toNat_ofNat_of_lt' (Nat.lt_trans few cap.rateLimit.toNat_lt)]
        exact few
      rw [UInt32.ofNat_add]
      exact (akRateLimitCheck_counts (counted.2 later) presents.timely.dispatcher).1 below
  have frame := akCapabilityValidate_frame use.env.authority.validate (some cap)
    ⟨type,resource,some (text method),some ctx.runId⟩ tally.kernel.caps
  rw [Use.authority,authorization_presenting needed]
  rw [akCapabilityValidate_metered metered limited] at frame ⊢
  exact ⟨if_pos charge.1,rfl,frame,charge.2⟩

theorem useStep_counted_iff (cap : AkCapability) (start : UInt64) (tally : Tally) (use : Use)
    (counted : CountedOnce cap start tally) (presents : Presents cap start tally use) :
    CountedOnce cap start (useStep cap tally use) ↔ SingleCheck cap tally use := by
  obtain ⟨ctx,found,valid,fresh,type,resource,method,needed,metered⟩ := presents.live
  obtain ⟨code,handed,frame,counts⟩ := authorization_counts presents counted needed metered
  have left := useStep_caps presents.ready found valid fresh handed
  have few := presents.few
  have limited := presents.limited
  have below : UInt32.ofNat (tally.presented + 1) ≤ cap.rateLimit := by
    rw [UInt32.le_iff_toNat_le,UInt32.toNat_ofNat_of_lt' (Nat.lt_of_le_of_lt few cap.rateLimit.toNat_lt)]
    exact few
  obtain ⟨final,ends,_,single⟩ := rechecks_count counts below limited (laterChecks_inWindow presents.timely)
  rw [← left] at ends
  simp only [Metered.frame frame] at single
  have passes : admits cap tally.kernel use =
      unthrottled cap (use.authority cap tally.kernel ctx).caps (laterChecks cap tally.kernel use ctx) := by
    rw [admits,found]
    simp [code]
  have admitted : (useStep cap tally use).admitted = (useStep cap tally use).presented ↔
      unthrottled cap (use.authority cap tally.kernel ctx).caps (laterChecks cap tally.kernel use ctx) = true := by
    simp only [useStep,passes,counted.1,Nat.add_left_cancel_iff]
    exact Bool.toNat_eq_one
  have counter : (0 < (useStep cap tally use).presented →
      Counts cap start (UInt32.ofNat (useStep cap tally use).presented) (useStep cap tally use).kernel.caps) ↔
        final = UInt32.ofNat (tally.presented + 1) := by
    constructor
    · intro once
      exact congrArg RateCounter.count (Option.some.inj (ends.symm.trans (once (Nat.succ_pos _))))
    · rintro rfl _
      exact ends
  rw [CountedOnce,admitted,counter,and_comm,single,SingleCheck]
  constructor
  · intro none other there
    obtain rfl := Option.some.inj (found.symm.trans there)
    exact none
  · intro none
    exact none ctx found

theorem nothing_counted (k : Kernel) (cap : AkCapability) (start : UInt64) : CountedOnce cap start ⟨k,0,0⟩ :=
  ⟨rfl,fun positive => absurd positive (Nat.lt_irrefl 0)⟩

section Inference

variable (wide : Bool)

def pairArgs : CreateArgs :=
  ⟨254,text (if wide then "*" else "m"),none,604800000,2,1000,some (Block.zero 16)⟩

theorem pairArgs_fits : (pairArgs wide).resource.1.length < 255 := by cases wide <;> decide

theorem pairArgs_names : ∀ name ∈ copiedMethods (pairArgs wide).methods, name.1.length < 32 := by
  simp [pairArgs,copiedMethods]

/-- Two uses in a second, of every model or of the model m. -/
def pairToken : AkCapability :=
  sign true (Block.zero 32) (unsignedToken (plainCreate 0 (Block.zero 16)) (pairArgs wide) 0 (pairArgs_fits wide)
    (pairArgs_names wide))

theorem pairToken_created :
    akCapabilityCreate (plainCreate 0 (Block.zero 16)) (pairArgs wide) (akKeysInit 0 (Block.zero 32) .static) =
      some (pairToken wide) := by
  cases wide <;> rfl

theorem pairToken_metered_iff (type : CapType) (resource method : CString) :
    Metered (plainValidate 0) (pairToken wide) ⟨type,resource,some method,some (Block.zero 16)⟩
      (akKeysInit 0 (Block.zero 32) .static) ↔ akPatternMatch (pairArgs wide).resource resource = true := by
  have kept : cstr (pairToken wide).resource = (pairArgs wide).resource.1 := by cases wide <;> rfl
  rw [akPatternMatch_iff,← kept]
  constructor
  · intro metered
    exact metered.scope.2.1
  · intro covered
    refine ⟨akCapabilityCreate_authentic _ _ _ _ (akKeysInit_invariant 0 (Block.zero 32) .static) (pairToken_created wide),
      ?_,rfl,?_,covered,rfl,?_⟩
    · change nowMs 0 ≤ 0 + 604800000
      decide
    · exact Bool.or_true _
    · simp [boundToRun,pairToken,sign,unsignedToken,pairArgs]

def inferring : Kernel := { opened none with inferenceReady := true }

def inferenceUse : Use where
  env := plainDispatch
  execute := unknownTool.execute
  wasm := akWasmInit
  index := 0
  request := ⟨⟨Block.zero 16,Block.zero 16,1,SysOp.inference.code,some (ascii "\x7b\"model\": \"m\"\x7d"),none,.trusted⟩,
    .inr rfl⟩

theorem inferring_eq : inferring =
    { akAuditLogLifecycle (akInit 0 (Block.zero 32) none) true (Block.zero 16) (Block.zero 16) 0 with
      contexts := [openContext none]
      inferenceReady := true } := by
  rw [inferring,opened_eq]

theorem inferring_caps : inferring.caps = akKeysInit 0 (Block.zero 32) .static := by
  rw [inferring_eq]
  rfl

theorem inferring_found : inferring.contexts[0]? = some (openContext none) := by
  rw [inferring_eq]
  rfl

theorem inferenceUse_needs : requirement (SysOp.ofCode inferenceUse.request.1.op) inferenceUse.request.1.args =
    .needs .inference (text "m") "inference" := by
  have known : SysOp.ofCode inferenceUse.request.1.op = some .inference := SysOp.ofCode_code .inference
  have named : presentField (akJsonExtractString inferenceUse.request.1.args "model" akMaxResource) = some (text "m") := by
    decide +kernel
  rw [known]
  simp only [requirement,namedResource,named]

theorem inferenceUse_valid : akValidateRequest (openContext none) (inferenceUse.presenting (pairToken wide)) = 0 :=
  akValidateRequest_eq_zero rfl rfl
    (SysOp.ofCode_code .inference)

theorem inferenceUse_fresh : (akCheckReplay (openContext none) (inferenceUse.presenting (pairToken wide))).2 ≠ akEReplay := by
  change (akSeqTrackerCheck akSeqTrackerCreate 1).2 ≠ akEReplay
  rw [ne_eq,akSeqTrackerCheck_replay_iff]
  decide

theorem pairToken_opens : OpensWindow (plainValidate 0).rate (pairToken wide) (akKeysInit 0 (Block.zero 32) .static) := by
  have new : akRateFindLocked (akKeysInit 0 (Block.zero 32) .static) (pairToken wide).tid = none :=
    ChainTable.lookup_empty _
  unfold OpensWindow
  rw [new]
  exact ⟨rfl,rfl⟩

theorem pairToken_inWindow : InWindow (pairToken wide) (nowMs 0) 0 := by
  change nowMs 0 - nowMs 0 ≤ (1000 : UInt32).toUInt64
  decide

theorem inferenceUse_metered : Metered (plainValidate 0) (pairToken wide)
    ⟨.inference,text "m",some (text "inference"),some (Block.zero 16)⟩ inferring.caps := by
  rw [inferring_caps,pairToken_metered_iff]
  cases wide <;> decide

theorem inferenceUse_presents : Presents (pairToken wide) (nowMs 0) ⟨inferring,0,0⟩ inferenceUse where
  ready := by rw [inferring_eq]; rfl
  live := ⟨openContext none,inferring_found,inferenceUse_valid wide,inferenceUse_fresh wide,.inference,text "m","inference",
    inferenceUse_needs,inferenceUse_metered wide⟩
  few := by change 0 < 2; decide
  opens := fun _ => ⟨by rw [inferring_caps]; exact pairToken_opens wide,rfl⟩
  timely := ⟨pairToken_inWindow wide,pairToken_inWindow wide,nofun,pairToken_inWindow wide⟩

/-- The back end asks for every model. -/
theorem inferenceUse_later :
    laterChecks (pairToken wide) inferring inferenceUse (openContext none) = [inferenceCheck plainHandler (Block.zero 16)] := by
  have counted := @authorization_counts (pairToken wide) (nowMs 0) ⟨inferring,0,0⟩ inferenceUse (openContext none) .inference
    (text "m") "inference" (inferenceUse_presents wide) (nothing_counted ..) inferenceUse_needs
    (inferenceUse_metered wide)
  have admissible : Admissible (inferenceUse.dispatch (openContext none).runId) inferring (openContext none)
      (inferenceUse.presenting (pairToken wide)) :=
    ⟨inferenceUse_valid wide,inferenceUse_fresh wide,counted.1,fun rules same => Option.noConfusion rfl (heq_of_eq same)⟩
  have known : SysOp.ofCode inferenceUse.request.1.op = some .inference := SysOp.ofCode_code .inference
  rw [laterChecks,refusal_none_iff.mpr admissible,known]
  rfl

theorem inferenceUse_single_iff :
    SingleCheck (pairToken wide) ⟨inferring,0,0⟩ inferenceUse ↔ wide = false := by
  have alone : SingleCheck (pairToken wide) ⟨inferring,0,0⟩ inferenceUse ↔
      ¬ Metered (plainValidate 0) (pairToken wide) (inferenceCheck plainHandler (Block.zero 16)).request inferring.caps := by
    constructor
    · intro single
      exact single (openContext none) inferring_found _ (by rw [inferenceUse_later]; exact List.mem_singleton_self _)
    · intro unmetered ctx found check member
      obtain rfl := Option.some.inj (inferring_found.symm.trans found)
      rw [inferenceUse_later] at member
      rw [List.mem_singleton.mp member]
      exact unmetered
  rw [alone,inferring_caps,inferenceCheck,pairToken_metered_iff]
  cases wide <;> decide

end Inference

end AuthorityKernel.Dispatch
