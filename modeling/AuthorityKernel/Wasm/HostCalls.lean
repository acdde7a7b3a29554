import AuthorityKernel.Capability.Lifecycle
import AuthorityKernel.Capability.Metering
import AuthorityKernel.Proxy.Channel
import AuthorityKernel.Wasm.Http

/-! What the functions that tools can call have in common: the check of the execution's
capability, and the way to the proxy. -/
namespace AuthorityKernel.Wasm.HostCalls
open Library Capability Proxy

/-- `agent` is the agent's context, known by its number. -/
structure ExecAgent where
  agent : Nat
  runId : TokenId

structure ExecCtx where
  agent : Option ExecAgent
  cap : Option AkCapability

/-- `serial` is what the check before the operation finds, `scratchAlloc` the memory that a
call takes before it turns to the proxy and `resultAlloc` that of its result. -/
structure HostEnv where
  validate : ValidateEnv
  serial : Bool
  scratchAlloc : Bool
  exchange : ExchangeEnv
  resultAlloc : Bool

structure HostOutcome where
  caps : CapState
  proxy : ProxyState
  forwarded : Option ProxyRequest
  result : Except Int Bytes

def name (text : String) : CString := .ofBuffer (ascii text)

def validateHostCap (env : ValidateEnv) (ctx : Option ExecCtx) (type : CapType) (resource : CString) (method : String)
    (caps : CapState) : CapState × Int :=
  match ctx.bind ExecCtx.agent, ctx.bind ExecCtx.cap with
  | some agent, some cap => akCapabilityValidate env (some cap) ⟨type,resource,some (name method),some agent.runId⟩ caps
  | _, _ => (caps,akECapMissing)

/-- Digits up to the first other byte; a number too large sticks at the largest one. -/
def integerLoop (value : Nat) : Bytes → Nat
  | [] => value
  | byte :: rest =>
      if isDigit byte then
        let digit := (byte - 48).toNat
        if value > (2 ^ 63 - 1 - digit) / 10 then 2 ^ 63 - 1 else integerLoop (value * 10 + digit) rest
      else value

/-- The number in a string member, `-1` if there is none. -/
def parseJsonInteger (args : Option Bytes) (key : String) : Int :=
  match args.bind (parseJsonString (ascii key)) with
  | none => -1
  | some [] => -1
  | some digits => integerLoop 0 digits

def createJsonResult (alloc : Bool) (key : String) (value : Bytes) : Except Int Bytes :=
  if alloc then .ok (ascii "\x7b\"" ++ ascii key ++ ascii "\": \"" ++ value ++ ascii "\"\x7d") else .error akEWasmOom

section Outcomes

variable (caps : CapState) (proxy : ProxyState)

def refuse (code : Int) : HostOutcome := ⟨caps,proxy,none,.error code⟩

def forward (env : ExchangeEnv) (request : ProxyRequest) (answer : Except Int Reply → Except Int Bytes) : HostOutcome :=
  let exchanged := exchange env request proxy
  ⟨caps,exchanged.proxy,if exchanged.reached then some request else none,answer exchanged.result⟩

theorem forward_forwarded {env : ExchangeEnv} {request sent : ProxyRequest} {answer : Except Int Reply → Except Int Bytes}
    (forwarded : (forward caps proxy env request answer).forwarded = some sent) : sent = request := by
  unfold forward at forwarded
  dsimp only at forwarded
  split at forwarded
  · exact (Option.some.inj forwarded).symm
  · contradiction

end Outcomes

variable {resource : CString} {method : String} {type : UInt32}

/-- The execution has an agent and a capability that is good for the use. -/
def Entitled (env : ValidateEnv) (ctx : Option ExecCtx) (type : CapType) (resource : CString) (method : String)
    (caps : CapState) : Prop :=
  ∃ agent cap, ctx.bind ExecCtx.agent = some agent ∧ ctx.bind ExecCtx.cap = some cap ∧
    Metered env cap ⟨type,resource,some (name method),some agent.runId⟩ caps ∧ WithinRate env.rate cap caps

theorem validateHostCap_zero_iff {env : ValidateEnv} {ctx : Option ExecCtx} {type : CapType} {caps : CapState} :
    (validateHostCap env ctx type resource method caps).2 = 0 ↔ Entitled env ctx type resource method caps := by
  unfold validateHostCap Entitled
  split
  · rename_i agent cap here held
    rw [here,held,akCapabilityValidate_eq_zero_iff]
    constructor
    · rintro ⟨⟨authentic,unexpired⟩,present,scope,rate⟩
      exact ⟨agent,cap,rfl,rfl,⟨authentic,unexpired,present,scope⟩,rate⟩
    · rintro ⟨_,_,⟨⟩,⟨⟩,⟨authentic,unexpired,present,scope⟩,rate⟩
      exact ⟨⟨authentic,unexpired⟩,present,scope,rate⟩
  · rename_i missing
    exact iff_of_false (show akECapMissing ≠ 0 by decide) fun ⟨agent,cap,here,held,_⟩ => missing agent cap here held

def plainHost (answer : Bytes) : HostEnv := ⟨plainValidate 0,true,true,⟨⟨true,true,0,0⟩,true,.ok answer,⟨0,0,true⟩⟩,true⟩

def firstCaps : CapState := akKeysInit 0 (Block.zero 32) .static

def bootArgs (type : UInt32) (resource : CString) : CreateArgs := { weekArgs none with type := type, resource := resource }

def bootToken (type : UInt32) (resource : CString) (fits : resource.1.length < 255) : AkCapability :=
  sign true (Block.zero 32) (unsignedToken (plainCreate 0 (Block.zero 16)) (bootArgs type resource) 0 fits
    (by simp [bootArgs,weekArgs,copiedMethods]))

theorem bootToken_created (small : type ≤ 255) (fits : resource.1.length < 255) :
    akCapabilityCreate (plainCreate 0 (Block.zero 16)) (bootArgs type resource) firstCaps =
      some (bootToken type resource fits) := by
  have names : ∀ name ∈ copiedMethods (bootArgs type resource).methods, name.1.length < 32 := by
    simp [bootArgs,weekArgs,copiedMethods]
  have typed : ¬(bootArgs type resource).type > 255 := UInt32.not_lt.mpr small
  unfold akCapabilityCreate
  rw [if_neg typed,if_neg (show ¬(bootArgs type resource).ttlMs = 0 from (by decide : ¬(604800000 : UInt32) = 0)),
    if_neg (show ¬(!(plainCreate 0 (Block.zero 16)).alloc) = true from Bool.false_ne_true),
    dif_pos (show (bootArgs type resource).resource.1.length < 255 from fits),dif_pos names]
  rfl

theorem bootToken_granted (small : type ≤ 255) (fits : resource.1.length < 255) (agent : ExecAgent) {asked : CapType}
    {target : CString} (right : CapType.mk type.toUInt8 = asked) (covered : Covers resource.1 target.1) :
    (validateHostCap (plainValidate 0) (some ⟨some agent,some (bootToken type resource fits)⟩) asked target method
      firstCaps).2 = 0 := by
  have authentic := akCapabilityCreate_authentic _ _ _ _ (akKeysInit_invariant 0 (Block.zero 32) .static)
    (bootToken_created small fits)
  have lasting : nowMs 0 ≤ nowMs 0 + (clampTtl 604800000).toUInt64 := by decide
  have scope : InScope (bootToken type resource fits) ⟨asked,target,some (name method),some agent.runId⟩ := by
    refine ⟨?_,?_,rfl,rfl⟩
    · subst right
      simp [holdsType,bootToken,sign,unsignedToken,bootArgs]
    · change Covers (cstr resource.1) target.1
      rwa [cstr_of_nul_free resource.2]
  exact (akCapabilityValidate_eq_zero_iff _ _ _ _).mpr ⟨⟨authentic,lasting⟩,rfl,scope,Or.inl rfl⟩

end AuthorityKernel.Wasm.HostCalls
