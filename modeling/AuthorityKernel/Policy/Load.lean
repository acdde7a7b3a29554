import AuthorityKernel.Policy.Parse

/-! Loading a policy document: parsing into the deny-by-default policy, hashing its
canonical text, and checking the tag if a verification key is configured. -/
namespace AuthorityKernel.Policy
open Library Budget Crypto

/-- Which allocations of a load succeed; a rule's are numbered by the rules stored so far. -/
structure LoadEnv where
  policyAlloc : Bool
  ruleAlloc : Nat → Bool
  serializeAlloc : Bool
  hmacAlloc : Bool

def policyDefaultBudgets : PolicyBudgets where
  tokens := 10000
  calls := 10
  inferenceMs := 30000
  fileBytes := 1024 * 1024
  networkBytes := 1024 * 1024
  spawnCount := 0
  heapObjects := 100
  heapBytes := 10 * 1024 * 1024

def akPolicyVersion : CString := .ofBuffer (ascii "1.0")

def emptyPolicy : AkPolicy where
  version := akPolicyVersion
  signature := Block.zero 64
  policyHash := Block.zero 32
  signatureVerified := false
  expiresMs := 0
  budgets := policyDefaultBudgets
  toolRules := []
  domainRules := []
  taintRules := []
  defaultToolAllow := false
  defaultDomainAllow := false

def ruleCount (policy : AkPolicy) : Nat :=
  policy.toolRules.length + policy.domainRules.length + policy.taintRules.length

/-- Deny rules go to the front and allow rules to the end. -/
def placeRule (rules : List Rule) (rule : Rule) : List Rule :=
  if !rule.allow || rules.isEmpty then rule :: rules else rules ++ [rule]

def addRule (env : LoadEnv) (store : AkPolicy → CString → AkPolicy) (policy : AkPolicy) (name : CString) :
    Option AkPolicy :=
  if env.ruleAlloc (ruleCount policy) then some (store policy name) else none

def policyAddToolRule (env : LoadEnv) (allow : Bool) : AkPolicy → CString → Option AkPolicy :=
  addRule env fun policy name => { policy with toolRules := placeRule policy.toolRules ⟨name,allow⟩ }

def policyAddDomainRule (env : LoadEnv) (allow : Bool) : AkPolicy → CString → Option AkPolicy :=
  addRule env fun policy pattern => { policy with domainRules := placeRule policy.domainRules ⟨pattern,allow⟩ }

def policyAddTaintRule (env : LoadEnv) (type : TaintRuleType) : AkPolicy → CString → Option AkPolicy :=
  addRule env fun policy name => { policy with taintRules := ⟨name,type⟩ :: policy.taintRules }

def toolFields (env : LoadEnv) : List ArrayField :=
  [⟨"allow",policyAddToolRule env true⟩,⟨"deny",policyAddToolRule env false⟩]

def domainFields (env : LoadEnv) : List ArrayField :=
  [⟨"allow",policyAddDomainRule env true⟩,⟨"deny",policyAddDomainRule env false⟩]

def taintFields (env : LoadEnv) : List ArrayField :=
  [⟨"sources",policyAddTaintRule env .source⟩,⟨"sinks",policyAddTaintRule env .sink⟩,
    ⟨"sanitizers",policyAddTaintRule env .sanitizer⟩]

def writeSignature (signature : Block 64) (bytes : Bytes) : Block 64 :=
  ⟨(bytes ++ signature.1.drop bytes.length).takeD 64 0,List.takeD_length _ _ _⟩

/-- A tag of 32 or of 64 bytes in hexadecimal; an empty one leaves the policy unsigned. -/
def parseSignature (policy : AkPolicy) (sighex : CString) : Option AkPolicy :=
  if sighex.1.length = 64 ∨ sighex.1.length = 128 then
    (unhexBytes sighex.1).map fun bytes => { policy with signature := writeSignature policy.signature bytes }
  else if sighex.1.length = 0 then some policy
  else none

def parseTopMember (env : LoadEnv) (policy : AkPolicy) (key : CString) (p : Bytes) : Option (AkPolicy × Bytes) :=
  if key.1 = ascii "version" then
    (pjParseString (pjSkipWs p) 16).map fun read => ({ policy with version := read.1 },read.2)
  else if key.1 = ascii "signature" then
    match pjParseString (pjSkipWs p) 129 with
    | none => none
    | some (sighex,rest) => (parseSignature policy sighex).map fun signed => (signed,rest)
  else if key.1 = ascii "budgets" then pjParseBudgets policy p
  else if key.1 = ascii "tools" then pjParseArrayObject (toolFields env) policy p
  else if key.1 = ascii "domains" then pjParseArrayObject (domainFields env) policy p
  else if key.1 = ascii "taint" then pjParseArrayObject (taintFields env) policy p
  else (pjSkipValue p).map fun rest => (policy,rest)

/-- Only blanks may follow the document. -/
def akPolicyParseJson (env : LoadEnv) (policy : AkPolicy) (data : Bytes) : Option AkPolicy :=
  match parseObject 64 (parseTopMember env) policy data with
  | none => none
  | some (parsed,rest) => if pjSkipWs rest = [] then some parsed else none

def serializeU64Field (key : String) (value : UInt64) : Bytes :=
  ascii "  " ++ ascii key ++ ascii ": " ++ decimalNat value.toNat ++ [10]

def serializeRule (rule : Rule) : Bytes :=
  ascii "  - \"" ++ rule.pattern.1 ++ (if rule.allow then ascii "\": allow" else ascii "\": deny") ++ [10]

def serializeTaintRule (rule : TaintRule) : Bytes :=
  ascii "  - \"" ++ rule.name.1 ++
    (match rule.type with
      | .source => ascii "\": source"
      | .sink => ascii "\": sink"
      | .sanitizer => ascii "\": sanitizer") ++ [10]

def akPolicySerialize (policy : AkPolicy) : Bytes :=
  ascii "version: \"" ++ policy.version.1 ++ ascii "\"" ++ [10] ++
  ascii "expires_ms: " ++ decimalNat policy.expiresMs.toNat ++ [10] ++
  ascii "defaults:" ++ [10] ++
  serializeU64Field "tool_allow" (if policy.defaultToolAllow then 1 else 0) ++
  serializeU64Field "domain_allow" (if policy.defaultDomainAllow then 1 else 0) ++
  ascii "budgets:" ++ [10] ++
  serializeU64Field "tokens" policy.budgets.tokens ++
  serializeU64Field "calls" policy.budgets.calls ++
  serializeU64Field "inference_ms" policy.budgets.inferenceMs ++
  serializeU64Field "file_bytes" policy.budgets.fileBytes ++
  serializeU64Field "network_bytes" policy.budgets.networkBytes ++
  serializeU64Field "spawn_count" policy.budgets.spawnCount ++
  serializeU64Field "heap_objects" policy.budgets.heapObjects ++
  serializeU64Field "heap_bytes" policy.budgets.heapBytes ++
  ascii "tools:" ++ [10] ++ policy.toolRules.flatMap serializeRule ++
  ascii "domains:" ++ [10] ++ policy.domainRules.flatMap serializeRule ++
  ascii "taint:" ++ [10] ++ policy.taintRules.flatMap serializeTaintRule

/-- The length is passed on as 32 bits. Without memory for the text the hash stays zero. -/
def akPolicyComputeHash (serializeAlloc : Bool) (policy : AkPolicy) : Block 32 :=
  if serializeAlloc then
    let text := akPolicySerialize policy
    sha256 (text.take (text.length % 2 ^ 32))
  else policy.policyHash

def akPolicySignatureIsEmpty (signature : Block 64) : Bool := signature.1.all (· == 0)

/-- Only signed policies are verified here; the loader turns unsigned ones away first. -/
def akPolicyVerifySignature (hmacAlloc : Bool) (policy : AkPolicy) (signingKey : Block 32) : Bool :=
  constantTimeCompare (akHmacSha256 hmacAlloc signingKey.toList policy.policyHash.toList).toList
    (policy.signature.1.take 32)

def akPolicyLoad (env : LoadEnv) (verifyKey : Option (Block 32)) (data : Bytes) : Option AkPolicy :=
  if data = [] then none
  else if !env.policyAlloc then none
  else
    match akPolicyParseJson env emptyPolicy data with
    | none => none
    | some parsed =>
        let hashed := { parsed with policyHash := akPolicyComputeHash env.serializeAlloc parsed }
        match verifyKey with
        | none => some { hashed with signatureVerified := false }
        | some key =>
            if akPolicySignatureIsEmpty hashed.signature || !akPolicyVerifySignature env.hmacAlloc hashed key then none
            else some { hashed with signatureVerified := true }

end AuthorityKernel.Policy
