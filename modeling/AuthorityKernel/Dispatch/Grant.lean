import AuthorityKernel.Capability.Lifecycle
import AuthorityKernel.Dispatch.Main

/-! Grants. A context confined to its grants can still do everything once it has been
granted everything, so what a request may do in a fresh context is decided by the later
stages. -/
namespace AuthorityKernel.Dispatch
open Library Capability Policy Heap

def akGrantCapability (env : CreateEnv) (args : CreateArgs) (index : Nat) (k : Kernel) : Kernel × Int :=
  match k.contexts[index]? with
  | none => (k,-eInval)
  | some ctx =>
      match akCapabilityCreate env { args with runId := some ctx.runId } k.caps with
      | none => (k,-eNomem)
      | some cap =>
          (k.updateContext index fun ctx => { ctx with delegatedCaps := ctx.delegatedCaps.map (· ++ [cap]) },0)

theorem akGrantCapability_created (env : CreateEnv) (args : CreateArgs) (index : Nat) (k : Kernel) (ctx : AgentContext)
    (cap : AkCapability) (found : k.contexts[index]? = some ctx)
    (created : akCapabilityCreate env { args with runId := some ctx.runId } k.caps = some cap) :
    akGrantCapability env args index k =
      (k.updateContext index fun ctx => { ctx with delegatedCaps := ctx.delegatedCaps.map (· ++ [cap]) },0) := by
  simp only [akGrantCapability,found,created]

structure Unrestricted (cap : AkCapability) : Prop where
  type : cap.type = .any
  resource : cap.resource = [starByte]
  methods : cap.methods = []
  rate : cap.rateLimit = 0

variable {ctx : AgentContext} {cap : AkCapability} {env : AuthorityEnv} {s : CapState}

theorem Unrestricted.inScope (free : Unrestricted cap) (type : CapType) (resource : CString) (method : Option CString) :
    InScope cap ⟨type,resource,method,some cap.runId⟩ := by
  refine ⟨?_,?_,?_,?_⟩
  · simp [holdsType,free.type]
  · rw [free.resource]
    exact Glob.denotes_lone_star resource.1
  · cases method with
    | none => rfl
    | some name => simp [allowsMethod,free.methods]
  · simp [boundToRun]

theorem akCapabilityValidate_unlimited (env : ValidateEnv) (cap : AkCapability) (request : Capability.Request)
    (s : CapState) (unlimited : cap.rateLimit = 0) : (akCapabilityValidate env (some cap) request s).1 = s := by
  have idle : ¬cap.rateLimit > 0 := by
    rw [unlimited]
    decide
  unfold akCapabilityValidate akCapabilityCheckScope
  simp only [if_neg idle]
  repeat' split
  all_goals rfl

structure Good (env : ValidateEnv) (cap : AkCapability) (s : CapState) : Prop where
  authentic : Authentic env.verify.hmacAlloc cap s
  unexpired : nowMs env.verify.clock ≤ expiryMs cap
  clear : akRevocationFindLocked s cap.tid = none

theorem Unrestricted.validates (free : Unrestricted cap) (env : ValidateEnv) (s : CapState) (good : Good env cap s)
    (type : CapType) (resource : CString) (method : Option CString) :
    akCapabilityValidate env (some cap) ⟨type,resource,method,some cap.runId⟩ s = (s,0) := by
  apply Prod.ext
  · exact akCapabilityValidate_unlimited env cap _ s free.rate
  · rw [akCapabilityValidate_eq_zero_iff]
    exact ⟨⟨good.authentic,good.unexpired⟩,good.clear,free.inScope type resource method,Or.inl free.rate⟩

structure Entrusted (env : AuthorityEnv) (ctx : AgentContext) (cap : AkCapability) (s : CapState) : Prop where
  root : ctx.rootCap = none
  grants : ctx.delegatedCaps = some [cap]
  run : cap.runId = ctx.runId
  free : Unrestricted cap
  good : Good (env.grant 0) cap s

theorem Entrusted.authorizes (entrusted : Entrusted env ctx cap s) (req : AkRequest) (type : CapType)
    (resource : CString) (method : String) (bare : req.cap = none)
    (needed : requirement (SysOp.ofCode req.op) req.args = .needs type resource method) :
    akValidateCapability env ctx req s = ⟨s,0,some cap⟩ := by
  have validates := entrusted.free.validates (env.grant 0) s entrusted.good type resource (some (text method))
  rw [entrusted.run] at validates
  simp [akValidateCapability,needed,authorize,bare,entrusted.root,entrusted.grants,firstGrant,validates]

theorem Entrusted.replayed (entrusted : Entrusted env ctx cap s) (req : AkRequest) :
    Entrusted env (akCheckReplay ctx req).1 cap s := by
  obtain ⟨tracker,kept⟩ := akCheckReplay_kept ctx req
  rw [kept]
  exact ⟨entrusted.root,entrusted.grants,entrusted.run,entrusted.free,entrusted.good⟩

def plainSave : SaveEnv := ⟨true,true,true,0⟩

def plainApply : ApplyEnv where
  alloc := ⟨true,true,0,plainSave⟩
  write := ⟨fun _ patch => some patch,plainSave,0⟩
  delete := ⟨plainSave,0⟩

def plainHandler : HandlerEnv where
  responseAlloc := true
  resultAlloc := true
  readAlloc := true
  alloc := plainApply.alloc
  write := plainApply.write
  delete := plainApply.delete
  batch := ⟨true,true,fun _ => ⟨true,true⟩,fun _ => plainApply⟩
  tool := fun _ _ _ heap caps => ⟨heap,caps,akResponseSuccess true none none⟩
  spawn := ⟨true,Block.zero 16,Block.zero 16,true,true,true,plainRevoke 0,true⟩
  send := ⟨Block.zero 16,true,0⟩
  inference := ⟨plainValidate 0,true,fun _ _ _ => none⟩
  issue := ⟨true,true,fun _ _ _ _ _ => true⟩
  poll := .pending
  report := []
  copyAlloc := true
  sanitized := none

def plainDispatch : DispatchEnv where
  authority := ⟨plainValidate 0,fun _ => plainValidate 0⟩
  handler := plainHandler
  policyStack := Block.zero 32
  appended := true

def openArgs : CreateArgs := ⟨254,text "*",none,604800000,0,0,none⟩

def opened (policy : Option AkPolicy) : Kernel :=
  let created := akContextCreate ⟨true,Block.zero 16,Block.zero 16,true,true,true,true⟩ none policy
    (akInit 0 (Block.zero 32) none)
  (akGrantCapability (plainCreate 0 (Block.zero 16)) openArgs 0 created.1).1

def openToken : AkCapability :=
  sign true (Block.zero 32)
    (unsignedToken (plainCreate 0 (Block.zero 16)) { openArgs with runId := some (Block.zero 16) } 0
      (show (text "*").1.length < 255 by decide) (by simp [openArgs,copiedMethods]))

def openContext (policy : Option AkPolicy) : AgentContext :=
  newContext (Block.zero 16) (Block.zero 16) policy (some [openToken])

theorem openToken_created :
    akCapabilityCreate (plainCreate 0 (Block.zero 16)) { openArgs with runId := some (Block.zero 16) }
      (akKeysInit 0 (Block.zero 32) .static) = some openToken := rfl

theorem opened_eq (policy : Option AkPolicy) :
    opened policy =
      { akAuditLogLifecycle (akInit 0 (Block.zero 32) none) true (Block.zero 16) (Block.zero 16) 0 with
        contexts := [openContext policy] } := by
  have created := akGrantCapability_created (plainCreate 0 (Block.zero 16)) openArgs 0
    (akContextCreate ⟨true,Block.zero 16,Block.zero 16,true,true,true,true⟩ none policy
      (akInit 0 (Block.zero 32) none)).1 (newContext (Block.zero 16) (Block.zero 16) (policy.or none) (some []))
    openToken rfl openToken_created
  rw [opened,created]
  cases policy <;> rfl

theorem openToken_unrestricted : Unrestricted openToken := ⟨rfl,rfl,rfl,rfl⟩

theorem openToken_good : Good (plainValidate 0) openToken (akKeysInit 0 (Block.zero 32) .static) :=
  ⟨akCapabilityCreate_authentic _ _ _ _ (akKeysInit_invariant 0 (Block.zero 32) .static) openToken_created,
    by decide,rfl⟩

end AuthorityKernel.Dispatch
