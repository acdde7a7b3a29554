import AuthorityKernel.Budget
import AuthorityKernel.Capability.Lifecycle

/-! The network gate: an ordered list of host rules, a root capability that stands
in for a rule, and the byte budget and content filter of outgoing data. Nothing is
enforced unless the context has a rule table or a network capability. -/
namespace AuthorityKernel.Net
open Library Capability Budget

inductive NetRuleType
  | allow
  | deny
deriving DecidableEq

/-- Port 0 stands for every port. -/
structure NetRule where
  type : NetRuleType
  host : CString
  port : UInt16
deriving DecidableEq

/-- What the gate reads of an agent's context. The rule table may be absent, which
is not the same as empty. -/
structure NetContext where
  rootCap : Option AkCapability
  networkRules : Option (List NetRule)
  budget : Option BudgetTracker

def dotByte : UInt8 := 46
def colonByte : UInt8 := 58

def endsWith (suffix host : Bytes) : Bool :=
  if host.length < suffix.length then false else host.drop (host.length - suffix.length) == suffix

def akNetHostMatch (pattern host : Bytes) : Bool :=
  if pattern = [starByte] then true
  else if pattern.take 2 = [starByte,dotByte] then endsWith (pattern.drop 1) host
  else pattern == host

def digit (n : Nat) : UInt8 := UInt8.ofNat (48 + n % 10)

/-- One branch for each number of digits, as the formatter has them. -/
def portText (port : Nat) : Bytes :=
  if port ≥ 10000 then
    [digit (port / 10000),digit (port / 1000),digit (port / 100),digit (port / 10),digit port]
  else if port ≥ 1000 then [digit (port / 1000),digit (port / 100),digit (port / 10),digit port]
  else if port ≥ 100 then [digit (port / 100),digit (port / 10),digit port]
  else if port ≥ 10 then [digit (port / 10),digit port]
  else [digit port]

def akNetFormatEndpoint (host : CString) (port : UInt16) : CString :=
  .ofBuffer (host.1.take 300 ++ colonByte :: portText port.toNat)

def netCap (ctx : NetContext) : Option AkCapability := ctx.rootCap.filter fun cap => cap.type == .net

def akNetPolicyActive (ctx : Option NetContext) : Bool :=
  match ctx with
  | none => false
  | some ctx => ctx.networkRules.isSome || (netCap ctx).isSome

def ruleMatches (host : CString) (port : UInt16) (rule : NetRule) : Bool :=
  (rule.port == 0 || rule.port == port) && akNetHostMatch rule.host.1 host.1

def decidingRule (ctx : NetContext) (host : CString) (port : UInt16) : Option NetRule :=
  (ctx.networkRules.getD []).find? (ruleMatches host port)

/-- With no matching rule the network capability's pattern decides, and without one
the answer is no. -/
def akNetCheckRules (ctx : NetContext) (host : CString) (port : UInt16) : Bool :=
  match decidingRule ctx host port with
  | some rule => rule.type == .allow
  | none =>
      match netCap ctx with
      | none => false
      | some cap => akPatternMatch (.ofBuffer cap.resource) (akNetFormatEndpoint host port)

/-- The answer of the gate for one endpoint. -/
def akNetCheck (ctx : Option NetContext) (host : CString) (port : UInt16) : Int :=
  match ctx with
  | none => 0
  | some inner =>
      if !akNetPolicyActive ctx then 0
      else if !akNetCheckRules inner host port then -eAcces
      else 0

def akNetCheckConnect (ctx : Option NetContext) (host : Option CString) (port : UInt16) : Int :=
  match host with
  | none => -eInval
  | some host => akNetCheck ctx host port

structure Outgoing where
  data : Option Bytes
  len : UInt64

def holdsSecret (detectSecrets : Bytes → Bool) (outgoing : Outgoing) : Bool :=
  match outgoing.data with
  | none => false
  | some bytes => outgoing.len > 0 && detectSecrets bytes

/-- The charge for outgoing bytes, with the sum and the comparison of machine words. -/
def chargeOut (tracker : BudgetTracker) (len : UInt64) : Option BudgetTracker :=
  let used := tracker.used .netBytesOut
  let limit := tracker.limits .netBytesOut
  if limit > 0 && used + len > limit then none
  else some { tracker with used := Function.update tracker.used .netBytesOut (used + len) }

/-- The bytes are charged before they are scanned. -/
def akNetFilterSend (detectSecrets : Bytes → Bool) (ctx : Option NetContext) (outgoing : Outgoing) :
    Option NetContext × Int :=
  match ctx with
  | none => (none,0)
  | some inner =>
      if !akNetPolicyActive ctx then (ctx,0)
      else
        let verdict : Int := if holdsSecret detectSecrets outgoing then akEDlpBlock else 0
        match inner.budget with
        | none => (ctx,verdict)
        | some tracker =>
            match chargeOut tracker outgoing.len with
            | none => (ctx,akEBudgetExceeded)
            | some charged => (some { inner with budget := some charged },verdict)

theorem akNetCheckConnect_by_capability (ctx : NetContext) (cap : AkCapability) (host : CString) (port : UInt16)
    (root : ctx.rootCap = some cap) (net : cap.type = .net) (unruled : decidingRule ctx host port = none) :
    akNetCheckConnect (some ctx) (some host) port = 0 ↔
      akPatternMatch (.ofBuffer cap.resource) (akNetFormatEndpoint host port) = true := by
  have held : netCap ctx = some cap := by simp [netCap,root,net]
  have active : akNetPolicyActive (some ctx) = true := by simp [akNetPolicyActive,held]
  have rules : akNetCheckRules ctx host port =
      akPatternMatch (.ofBuffer cap.resource) (akNetFormatEndpoint host port) := by
    simp [akNetCheckRules,unruled,held]
  rw [akNetCheckConnect,akNetCheck,active,rules]
  cases akPatternMatch (.ofBuffer cap.resource) (akNetFormatEndpoint host port) <;> decide

/-- The token verifies, is within its lifetime and is not revoked. -/
def Live (env : VerifyEnv) (s : CapState) (cap : AkCapability) : Prop :=
  akCapabilityVerify env (some cap) s = 0 ∧ akRevocationCheck s cap.tid = false

/-- Some endpoint is covered by the token's pattern. -/
def Reaches (cap : AkCapability) : Prop :=
  ∃ host port, Covers (cstr cap.resource) (akNetFormatEndpoint host port).1

/-- Endpoints that no rule speaks of are admitted under live network capabilities only,
exactly if the capability is live or its pattern covers no endpoint at all. The gate
reads the pattern and nothing else of the token. -/
theorem capability_admission_live_iff (env : VerifyEnv) (s : CapState) (cap : AkCapability) (net : cap.type = .net) :
    (∀ (ctx : NetContext) (host : CString) (port : UInt16), ctx.rootCap = some cap →
      decidingRule ctx host port = none → akNetCheckConnect (some ctx) (some host) port = 0 → Live env s cap) ↔
    (Live env s cap ∨ ¬ Reaches cap) := by
  constructor
  · intro always
    by_cases reaches : Reaches cap
    · obtain ⟨host,port,covered⟩ := reaches
      have root : (NetContext.mk (some cap) none none).rootCap = some cap := rfl
      have admitted := (akNetCheckConnect_by_capability ⟨some cap,none,none⟩ cap host port root net rfl).mpr
        ((akPatternMatch_iff _ _).mpr covered)
      exact Or.inl (always _ host port root rfl admitted)
    · exact Or.inr reaches
  · rintro (live | unreachable) ctx host port root unruled admitted
    · exact live
    · have covered := (akNetCheckConnect_by_capability ctx cap host port root net unruled).mp admitted
      exact absurd ⟨host,port,(akPatternMatch_iff _ _).mp covered⟩ unreachable

def netArgs : CreateArgs := { weekArgs none with type := 1 }

def netToken : AkCapability :=
  sign true (Block.zero 32) (unsignedToken (plainCreate 0 (Block.zero 16)) netArgs 0 star_fits
    (by simp [netArgs,weekArgs,copiedMethods]))

theorem netToken_live : Live ⟨0,true⟩ (booted 0 (Block.zero 32)).caps netToken :=
  ⟨(akCapabilityVerify_eq_zero_iff _ _ _).mpr
    ⟨akCapabilityCreate_authentic (plainCreate 0 (Block.zero 16)) netArgs _ _ (akKeysInit_invariant 0 (Block.zero 32) .static) rfl,
      by decide⟩,rfl⟩

/-- While the first boot's token is live, what it admits is admitted under a live token. -/
theorem fresh_capability_admission : netToken.type = .net ∧
    ∀ (ctx : NetContext) (host : CString) (port : UInt16), ctx.rootCap = some netToken →
      decidingRule ctx host port = none → akNetCheckConnect (some ctx) (some host) port = 0 →
      Live ⟨0,true⟩ (booted 0 (Block.zero 32)).caps netToken :=
  ⟨rfl,(capability_admission_live_iff ⟨0,true⟩ (booted 0 (Block.zero 32)).caps netToken rfl).mpr (Or.inl netToken_live)⟩

/-- A token issued by the first boot and then revoked still opens every connection. -/
theorem revoked_capability_admits : ∃ cap ∈ (reached 0 (Block.zero 32)
      [.create (plainCreate 0 (Block.zero 16)) netArgs,
        .revoke (plainRevoke 0) (plainLog 0) (Block.zero 16) ⟨ascii "leaked",by decide⟩]).issued,
    cap.type = .net ∧
    decidingRule ⟨some cap,none,none⟩ ⟨ascii "db.internal",by decide⟩ 443 = none ∧
    akNetCheckConnect (some ⟨some cap,none,none⟩) (some ⟨ascii "db.internal",by decide⟩) 443 = 0 ∧
    akRevocationCheck (reached 0 (Block.zero 32)
      [.create (plainCreate 0 (Block.zero 16)) netArgs,
        .revoke (plainRevoke 0) (plainLog 0) (Block.zero 16) ⟨ascii "leaked",by decide⟩]).caps cap.tid = true :=
  ⟨netToken,List.mem_append_right _ (Option.mem_toList.mpr rfl),rfl,rfl,
    (akNetCheckConnect_by_capability _ netToken _ 443 rfl rfl rfl).mpr
      ((akPatternMatch_iff _ _).mpr (Glob.denotes_lone_star _)),rfl⟩

end AuthorityKernel.Net
