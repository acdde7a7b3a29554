import AuthorityKernel.Policy.Effect

/-! Upgrading a policy and rolling it back. The version history keeps the text of each version
that came from a document; a version without its text cannot be parsed again. -/
namespace AuthorityKernel.Policy
open Library Library.Run Budget Crypto

structure PolicyVersion where
  versionNumber : UInt32
  hash : Block 32
  rulesJson : Option Bytes

structure VersionedPolicy where
  policy : AkPolicy
  versions : List PolicyVersion
  versionCount : UInt32

structure VersionEnv where
  load : LoadEnv
  recordAlloc : Bool
  cloneAlloc : Bool
  verifyKey : Option (Block 32)

inductive PolicyResult
  | ok
  | errorVersion
  | errorParse
  | errorNoPrevious
  | errorIncompatible
deriving DecidableEq

/-- The history of a new policy. Without memory for its record it is empty. -/
def firstVersion (env : VersionEnv) (policy : AkPolicy) (rulesJson : Option Bytes) : VersionedPolicy :=
  if env.recordAlloc then ⟨policy,[⟨1,policy.policyHash,rulesJson⟩],1⟩ else ⟨policy,[],0⟩

def loadVersioned (env : VersionEnv) (data : Bytes) : Option VersionedPolicy :=
  (akPolicyLoad env.load env.verifyKey data).map fun policy =>
    firstVersion env policy (if env.cloneAlloc then some data else none)

def withHash (env : VersionEnv) (policy : AkPolicy) : AkPolicy :=
  { policy with policyHash := akPolicyComputeHash env.load.serializeAlloc policy }

def defaultRules (env : LoadEnv) : AkPolicy :=
  { emptyPolicy with
    toolRules := if env.ruleAlloc 0 then [⟨.ofBuffer (ascii "file_read"),true⟩] else []
    taintRules := if env.ruleAlloc 1 then [⟨.ofBuffer (ascii "shell_exec"),.sink⟩] else [] }

def akPolicyDefault (env : VersionEnv) : Option VersionedPolicy :=
  if env.load.policyAlloc then some (firstVersion env (withHash env (defaultRules env.load)) none) else none

def permissiveBudgets : PolicyBudgets where
  tokens := 1000000
  calls := 10000
  inferenceMs := 3600000
  fileBytes := 1024 * 1024 * 100
  networkBytes := 1024 * 1024 * 100
  spawnCount := 100
  heapObjects := 100000
  heapBytes := 1024 * 1024 * 1024

def permissiveRules : AkPolicy :=
  { emptyPolicy with budgets := permissiveBudgets, defaultToolAllow := true, defaultDomainAllow := true }

def akPolicyPermissive (env : VersionEnv) : Option VersionedPolicy :=
  if env.load.policyAlloc then some (firstVersion env (withHash env permissiveRules) none) else none

/-- The copy a document is parsed into: no rules, default budgets, and the version kept. -/
def staged (policy : AkPolicy) : AkPolicy :=
  { policy with
    toolRules := []
    domainRules := []
    taintRules := []
    signature := Block.zero 64
    budgets := policyDefaultBudgets
    defaultToolAllow := false
    defaultDomainAllow := false }

def commit (policy parsed : AkPolicy) : AkPolicy :=
  { policy with
    toolRules := parsed.toolRules
    domainRules := parsed.domainRules
    taintRules := parsed.taintRules
    budgets := parsed.budgets
    defaultToolAllow := parsed.defaultToolAllow
    defaultDomainAllow := parsed.defaultDomainAllow
    version := parsed.version
    signature := parsed.signature
    policyHash := parsed.policyHash
    signatureVerified := parsed.signatureVerified }

def akPolicyParseRules (env : VersionEnv) (policy : AkPolicy) (rules : Bytes) : Option AkPolicy :=
  if rules.length = 0 ∨ rules.length > 1024 * 1024 then none
  else
    match akPolicyParseJson env.load (staged policy) rules with
    | none => none
    | some parsed =>
        let hashed := withHash env parsed
        match env.verifyKey with
        | none => some (commit policy { hashed with signatureVerified := false })
        | some key =>
            if akPolicySignatureIsEmpty hashed.signature || !akPolicyVerifySignature env.load.hmacAlloc hashed key then
              none
            else some (commit policy { hashed with signatureVerified := true })

def akPolicyIsCompatible (oldVersion newVersion : UInt32) : Bool :=
  if newVersion ≤ oldVersion then false
  else if newVersion = oldVersion + 1 then true
  else if newVersion - oldVersion ≤ 100 then true
  else false

def akPolicyGetVersion (state : VersionedPolicy) : UInt32 :=
  match state.versions with
  | [] => 0
  | current :: _ => current.versionNumber

def akPolicyUpgrade (env : VersionEnv) (state : VersionedPolicy) (newRules : Option Bytes) (newVersion : UInt32) :
    VersionedPolicy × PolicyResult :=
  match newRules with
  | none => (state,.errorParse)
  | some rules =>
      if newVersion ≤ akPolicyGetVersion state then (state,.errorVersion)
      else if !akPolicyIsCompatible (akPolicyGetVersion state) newVersion then (state,.errorIncompatible)
      else if !env.recordAlloc then (state,.errorParse)
      else if !env.cloneAlloc then (state,.errorParse)
      else
        match akPolicyParseRules env state.policy rules with
        | none => (state,.errorParse)
        | some policy =>
            (⟨policy,⟨newVersion,policy.policyHash,some rules⟩ :: state.versions,state.versionCount + 1⟩,.ok)

/-- Rules are parsed again only if the previous version has its text; the hash is its hash in any case. -/
def akPolicyRollback (env : VersionEnv) (state : VersionedPolicy) : VersionedPolicy × PolicyResult :=
  match state.versions with
  | _ :: previous :: older =>
      let back (policy : AkPolicy) : VersionedPolicy :=
        ⟨{ policy with policyHash := previous.hash },previous :: older,
          if state.versionCount > 0 then state.versionCount - 1 else state.versionCount⟩
      match previous.rulesJson with
      | none => (back state.policy,.ok)
      | some rules =>
          match akPolicyParseRules env state.policy rules with
          | none => (state,.errorParse)
          | some policy => (back policy,.ok)
  | _ => (state,.errorNoPrevious)

def akPolicySign (env : VersionEnv) (policy : AkPolicy) (signingKey : Block 32) : AkPolicy :=
  let tag := akHmacSha256 env.load.hmacAlloc signingKey.toList policy.policyHash.toList
  { policy with signature := writeSignature (Block.zero 64) tag.toList }

inductive VersionCall
  | upgrade (env : VersionEnv) (newRules : Option Bytes) (newVersion : UInt32)
  | rollback (env : VersionEnv)
  | sign (env : VersionEnv) (signingKey : Block 32)

def versionStep (state : VersionedPolicy) : VersionCall → VersionedPolicy
  | .upgrade env newRules newVersion => (akPolicyUpgrade env state newRules newVersion).1
  | .rollback env => (akPolicyRollback env state).1
  | .sign env signingKey => { state with policy := akPolicySign env state.policy signingKey }

structure SameContent (first second : AkPolicy) : Prop where
  rules : SameRules first second
  version : first.version = second.version

theorem SameContent.symm {first second : AkPolicy} (same : SameContent first second) : SameContent second first :=
  ⟨same.rules.symm,same.version.symm⟩

theorem SameContent.trans {first second third : AkPolicy} (left : SameContent first second)
    (right : SameContent second third) : SameContent first third :=
  ⟨left.rules.trans right.rules,left.version.trans right.version⟩

theorem sameContent_rehash (policy : AkPolicy) (hash : Block 32) : SameContent { policy with policyHash := hash } policy :=
  ⟨⟨rfl,rfl,rfl,rfl,rfl,rfl,rfl⟩,rfl⟩

theorem sameContent_sign (env : VersionEnv) (policy : AkPolicy) (signingKey : Block 32) :
    SameContent (akPolicySign env policy signingKey) policy :=
  ⟨⟨rfl,rfl,rfl,rfl,rfl,rfl,rfl⟩,rfl⟩

theorem SameContent.hash {first second : AkPolicy} (same : SameContent first second) :
    akPolicyComputeHash true first = akPolicyComputeHash true second := by
  have text : akPolicySerialize first = akPolicySerialize second := by
    obtain ⟨⟨tools,domains,taint,budgets,toolAllow,domainAllow,expires⟩,version⟩ := same
    cases first
    cases second
    subst tools domains taint budgets toolAllow domainAllow expires version
    rfl
  simp only [akPolicyComputeHash,if_true,text]

theorem effect_staged {doc : Document} {first second : AkPolicy} (expires : first.expiresMs = second.expiresMs)
    (version : doc.versionAfter first.version = doc.versionAfter second.version) :
    SameContent (doc.effect (staged first)) (doc.effect (staged second)) := by
  refine ⟨doc.effect_sameRules ⟨rfl,rfl,rfl,rfl,rfl,rfl,expires⟩,?_⟩
  rw [Document.effect_version,Document.effect_version]
  exact version

structure ParsedOver (env : VersionEnv) (policy : AkPolicy) (rules : Bytes) (parsed : AkPolicy) : Prop where
  written : ∃ doc, Writes doc rules
  meaning : ∀ doc, Writes doc rules → SameContent parsed (doc.effect (staged policy))
  expires : parsed.expiresMs = policy.expiresMs
  hash : env.load.serializeAlloc = true → parsed.policyHash = akPolicyComputeHash true parsed

theorem commit_effect (env : VersionEnv) (policy : AkPolicy) (verified : Bool) (doc : Document) :
    SameContent (commit policy { withHash env (doc.effect (staged policy)) with signatureVerified := verified })
      (doc.effect (staged policy)) := by
  have expires : (doc.effect (staged policy)).expiresMs = policy.expiresMs := by
    have kept := @foldl_view _ _ _ (fun policy (field : Field TopValue) => field.value.effect policy)
      AkPolicy.expiresMs (fun expires _ => expires) (fun policy field => by cases field.value <;> rfl)
      doc.object.fields (staged policy)
    rw [List.foldl_fixed] at kept
    exact kept
  exact ⟨⟨rfl,rfl,rfl,rfl,rfl,rfl,expires.symm⟩,rfl⟩

variable {env : VersionEnv} {policy : AkPolicy} {rules : Bytes}

theorem akPolicyParseRules_parsed {result : AkPolicy}
    (parsed : akPolicyParseRules env policy rules = some result) : ParsedOver env policy rules result := by
  unfold akPolicyParseRules at parsed
  split at parsed
  · cases parsed
  split at parsed
  · cases parsed
  rename_i staging read
  have committed : ∃ verified,
      result = commit policy { withHash env staging with signatureVerified := verified } := by
    dsimp only at parsed
    split at parsed
    · exact ⟨false,(Option.some.inj parsed).symm⟩
    split at parsed
    · cases parsed
    exact ⟨true,(Option.some.inj parsed).symm⟩
  obtain ⟨verified,rfl⟩ := committed
  refine ⟨exists_writes read,?_,rfl,?_⟩
  · intro doc writes
    rw [writes.parsed _ _ _ read]
    exact commit_effect env policy verified doc
  · intro memory
    obtain ⟨doc,writes⟩ := exists_writes read
    rw [writes.parsed _ _ _ read]
    have same := (commit_effect env policy verified doc).hash
    rw [same]
    simp only [commit,withHash,memory]

theorem akPolicyUpgrade_cases (env : VersionEnv) (state : VersionedPolicy) (newRules : Option Bytes)
    (newVersion : UInt32) :
    ((akPolicyUpgrade env state newRules newVersion).2 ≠ .ok ∧
        (akPolicyUpgrade env state newRules newVersion).1 = state) ∨
      ∃ rules policy, newRules = some rules ∧ akPolicyParseRules env state.policy rules = some policy ∧
        akPolicyUpgrade env state newRules newVersion =
          (⟨policy,⟨newVersion,policy.policyHash,some rules⟩ :: state.versions,state.versionCount + 1⟩,.ok) := by
  unfold akPolicyUpgrade
  split
  · exact .inl ⟨by simp,rfl⟩
  rename_i rules
  repeat' split
  case h_2 =>
    rename_i policy parsed
    exact .inr ⟨rules,policy,rfl,parsed,rfl⟩
  all_goals exact .inl ⟨by simp,rfl⟩

theorem akPolicyRollback_cases (env : VersionEnv) (state : VersionedPolicy) :
    ((akPolicyRollback env state).2 ≠ .ok ∧ (akPolicyRollback env state).1 = state) ∨
      ∃ current previous older policy, state.versions = current :: previous :: older ∧
        (previous.rulesJson = none ∧ policy = state.policy ∨ ∃ rules, previous.rulesJson = some rules ∧
          akPolicyParseRules env state.policy rules = some policy) ∧
        (akPolicyRollback env state).2 = .ok ∧ (akPolicyRollback env state).1.versions = previous :: older ∧
          (akPolicyRollback env state).1.policy = { policy with policyHash := previous.hash } := by
  unfold akPolicyRollback
  split
  · rename_i current previous older versions
    dsimp only
    split
    · rename_i missing
      exact .inr ⟨current,previous,older,state.policy,versions,.inl ⟨missing,rfl⟩,rfl,rfl,rfl⟩
    rename_i rules kept
    split
    · exact .inl ⟨by simp,rfl⟩
    · rename_i policy parsed
      exact .inr ⟨current,previous,older,policy,versions,.inr ⟨rules,kept,parsed⟩,rfl,rfl,rfl⟩
  · exact .inl ⟨by simp,rfl⟩

/-- The current version has the hash of the policy, and the policy says what its text says. -/
def Recorded (state : VersionedPolicy) : Prop :=
  ∀ current ∈ state.versions.head?, current.hash = state.policy.policyHash ∧
    ∀ rules, current.rulesJson = some rules → (∃ doc, Writes doc rules) ∧
      ∃ version, ∀ doc, Writes doc rules →
        SameContent state.policy (doc.effect (staged { state.policy with version := version }))

theorem ParsedOver.recorded {parsed : AkPolicy} (read : ParsedOver env policy rules parsed) (hash : Block 32) :
    (∃ doc, Writes doc rules) ∧ ∃ version, ∀ doc, Writes doc rules →
      SameContent { parsed with policyHash := hash }
        (doc.effect (staged { parsed with policyHash := hash, version := version })) := by
  refine ⟨read.written,policy.version,?_⟩
  intro doc writes
  have same := @effect_staged doc policy { parsed with policyHash := hash, version := policy.version }
    read.expires.symm rfl
  exact (sameContent_rehash parsed hash).trans ((read.meaning doc writes).trans same)

theorem versionStep_recorded (state : VersionedPolicy) (call : VersionCall) (recorded : Recorded state) :
    Recorded (versionStep state call) := by
  cases call with
  | upgrade env newRules newVersion =>
    rw [versionStep]
    rcases akPolicyUpgrade_cases env state newRules newVersion with ⟨_,same⟩ | ⟨rules,policy,_,parsed,result⟩
    · rw [same]
      exact recorded
    rw [result]
    rintro _ ⟨⟩
    refine ⟨rfl,?_⟩
    rintro _ ⟨⟩
    exact (akPolicyParseRules_parsed parsed).recorded policy.policyHash
  | rollback env =>
    rw [versionStep]
    rcases akPolicyRollback_cases env state with ⟨_,same⟩ | ⟨current,previous,older,policy,_,read,_,versions,restored⟩
    · rw [same]
      exact recorded
    rw [Recorded,versions,restored]
    rintro _ ⟨⟩
    refine ⟨rfl,?_⟩
    intro rules kept
    rcases read with ⟨missing,_⟩ | ⟨rules',kept',parsed⟩
    · rw [missing] at kept
      cases kept
    · rw [kept'] at kept
      cases kept
      exact (akPolicyParseRules_parsed parsed).recorded previous.hash
  | sign env signingKey =>
    intro current first
    obtain ⟨hash,kept⟩ := recorded current first
    refine ⟨hash,?_⟩
    intro rules text
    obtain ⟨written,version,meaning⟩ := kept rules text
    refine ⟨written,version,?_⟩
    intro doc writes
    have same := @effect_staged doc { state.policy with version := version }
      { akPolicySign env state.policy signingKey with version := version } rfl rfl
    exact (sameContent_sign env state.policy signingKey).trans ((meaning doc writes).trans same)

/-- The new document can be undone. The current version's text must name a version unless the new
one leaves it as it is; if the text is missing, the new document must say what is in force. -/
def Reversible (state : VersionedPolicy) (rules : Bytes) : Prop :=
  ∀ current ∈ state.versions.head?,
    match current.rulesJson with
    | some text => (∀ doc, Writes doc text → doc.NamesVersion) ∨
        ∀ doc, Writes doc rules → doc.versionAfter state.policy.version = state.policy.version
    | none => ∀ doc, Writes doc rules → SameContent (doc.effect (staged state.policy)) state.policy

structure Restored (before after : VersionedPolicy) : Prop where
  content : SameContent after.policy before.policy
  hash : after.policy.policyHash = before.policy.policyHash
  number : akPolicyGetVersion after = akPolicyGetVersion before

section Undo

variable {state : VersionedPolicy} {env env' : VersionEnv} {rules text : Bytes} {upgraded restored : AkPolicy}
  {old : CString}

theorem ParsedOver.version_after (read : ParsedOver env state.policy rules upgraded) (doc : Document)
    (writes : Writes doc rules) : upgraded.version = doc.versionAfter state.policy.version := by
  rw [(read.meaning doc writes).version,Document.effect_version]
  rfl

theorem text_kept (kept : ∀ doc, Writes doc text →
      SameContent state.policy (doc.effect (staged { state.policy with version := old })))
    (read : ParsedOver env state.policy rules upgraded)
    (undo : (∀ doc, Writes doc text → doc.NamesVersion) ∨
      ∀ doc, Writes doc rules → doc.versionAfter state.policy.version = state.policy.version)
    (doc : Document) (writes : Writes doc text) : SameContent state.policy (doc.effect (staged upgraded)) := by
  refine (kept doc writes).trans (effect_staged read.expires.symm ?_)
  by_cases named : doc.NamesVersion
  · exact doc.versionAfter_named named _ _
  rcases undo with names | keeps
  · exact absurd (names doc writes) named
  obtain ⟨new,newWrites⟩ := read.written
  have recorded : state.policy.version = doc.versionAfter old := by
    conv_lhs => rw [(kept doc writes).version,Document.effect_version]
    rfl
  rw [read.version_after new newWrites,keeps new newWrites,← recorded,doc.versionAfter_unnamed named]

theorem text_restored (written : ∃ doc, Writes doc text) (kept : ∀ doc, Writes doc text →
      SameContent state.policy (doc.effect (staged { state.policy with version := old })))
    (read : ParsedOver env state.policy rules upgraded) (back : ParsedOver env' upgraded text restored) :
    SameContent restored state.policy ↔ (∀ doc, Writes doc text → doc.NamesVersion) ∨
      ∀ doc, Writes doc rules → doc.versionAfter state.policy.version = state.policy.version := by
  constructor
  · intro same
    by_cases named : ∀ doc, Writes doc text → doc.NamesVersion
    · exact .inl named
    push Not at named
    obtain ⟨former,formerWrites,unnamed⟩ := named
    refine .inr fun doc writes => ?_
    rw [← read.version_after doc writes,← same.version,(back.meaning former formerWrites).version,Document.effect_version,
      former.versionAfter_unnamed unnamed]
    rfl
  · intro undo
    obtain ⟨former,formerWrites⟩ := written
    exact (back.meaning former formerWrites).trans (text_kept kept read undo former formerWrites).symm

end Undo

variable {state : VersionedPolicy}

theorem Recorded.reverses (recorded : Recorded state) (env env' : VersionEnv) (rules : Bytes)
    (newVersion : UInt32) (upgraded : (akPolicyUpgrade env state (some rules) newVersion).2 = .ok)
    (returned : (akPolicyRollback env' (akPolicyUpgrade env state (some rules) newVersion).1).2 = .ok) :
    Restored state (akPolicyRollback env' (akPolicyUpgrade env state (some rules) newVersion).1).1 ↔
      Reversible state rules := by
  rcases akPolicyUpgrade_cases env state (some rules) newVersion with ⟨failed,_⟩ | ⟨_,policy,same,parsed,result⟩
  · exact absurd upgraded failed
  cases same
  rw [result] at returned ⊢
  rcases akPolicyRollback_cases env' ⟨policy,⟨newVersion,policy.policyHash,some rules⟩ :: state.versions,
    state.versionCount + 1⟩ with ⟨failed,_⟩ | ⟨_,previous,older,final,versions,read,_,newVersions,restored⟩
  · exact absurd returned failed
  have chain : state.versions = previous :: older := (List.cons.inj versions).2
  have first : state.versions.head? = some previous := by rw [chain]; rfl
  obtain ⟨hash,kept⟩ := recorded previous first
  have upgraded := akPolicyParseRules_parsed parsed
  have content : Restored state (akPolicyRollback env' ⟨policy,⟨newVersion,policy.policyHash,some rules⟩ ::
      state.versions,state.versionCount + 1⟩).1 ↔ SameContent final state.policy := by
    constructor
    · intro all
      have content := all.content
      rw [restored] at content
      exact (sameContent_rehash final previous.hash).symm.trans content
    · intro content
      refine ⟨?_,?_,?_⟩
      · rw [restored]
        exact (sameContent_rehash final previous.hash).trans content
      · rw [restored]
        exact hash
      · rw [akPolicyGetVersion,akPolicyGetVersion,newVersions,chain]
  rw [content,Reversible,first]
  simp only [Option.mem_def,Option.some.injEq,forall_eq']
  rcases read with ⟨missing,rfl⟩ | ⟨text,present,back⟩
  · rw [missing]
    constructor
    · intro same doc writes
      exact (upgraded.meaning doc writes).symm.trans same
    · intro again
      obtain ⟨doc,writes⟩ := upgraded.written
      exact (upgraded.meaning doc writes).trans (again doc writes)
  · rw [present]
    obtain ⟨written,version,kept⟩ := kept text present
    exact text_restored written kept upgraded (akPolicyParseRules_parsed back)

/-- The stored hash is the hash of the current rules. -/
def HashCurrent (policy : AkPolicy) : Prop := policy.policyHash = akPolicyComputeHash true policy

theorem HashCurrent.of_same {first second : AkPolicy} (current : HashCurrent first) (same : SameContent second first)
    (hash : second.policyHash = first.policyHash) : HashCurrent second := by
  rw [HashCurrent,hash,same.hash]
  exact current

/-- Each older version brings back a policy with the hash that is recorded for it. -/
def Returns : AkPolicy → List PolicyVersion → Prop
  | policy, _ :: previous :: older =>
      ∃ before, before.policyHash = previous.hash ∧ HashCurrent before ∧
        (match previous.rulesJson with
          | none => SameContent before policy
          | some rules => ∀ doc, Writes doc rules → SameContent before (doc.effect (staged policy))) ∧
        Returns before (previous :: older)
  | _, _ => True

theorem Returns.of_same {first second : AkPolicy} {versions : List PolicyVersion} (returns : Returns first versions)
    (same : SameContent first second) : Returns second versions := by
  match versions, returns with
  | [], _ => trivial
  | [_], _ => trivial
  | _ :: previous :: older, ⟨before,hash,current,kept,older'⟩ =>
    refine ⟨before,hash,current,?_,older'⟩
    cases text : previous.rulesJson with
    | none =>
      rw [text] at kept
      exact kept.trans same
    | some rules =>
      rw [text] at kept
      intro doc writes
      exact (kept doc writes).trans (effect_staged same.rules.expiresMs (by rw [same.version]))

/-- A call that has the memory to hash new rules, and rules that can be undone. -/
def Undoable (state : VersionedPolicy) : VersionCall → Prop
  | .upgrade env newRules _ => env.load.serializeAlloc = true ∧ ∀ rules, newRules = some rules → Reversible state rules
  | .rollback _ => True
  | .sign _ _ => True

structure Settled (state : VersionedPolicy) : Prop where
  recorded : Recorded state
  current : HashCurrent state.policy
  returns : Returns state.policy state.versions

theorem upgrade_settled (settled : Settled state) (read : ParsedOver env state.policy rules policy) (memory : env.load.serializeAlloc = true)
    (reversible : Reversible state rules) (newVersion : UInt32) :
    HashCurrent policy ∧ Returns policy (⟨newVersion,policy.policyHash,some rules⟩ :: state.versions) := by
  refine ⟨read.hash memory,?_⟩
  match versions : state.versions with
  | [] => trivial
  | previous :: older =>
    have first : state.versions.head? = some previous := by rw [versions]; rfl
    obtain ⟨hash,kept⟩ := settled.recorded previous first
    have undo := reversible previous first
    refine ⟨state.policy,hash.symm,settled.current,?_,versions ▸ settled.returns⟩
    cases text : previous.rulesJson with
    | none =>
      rw [text] at undo
      obtain ⟨doc,writes⟩ := read.written
      exact ((read.meaning doc writes).trans (undo doc writes)).symm
    | some rules' =>
      rw [text] at undo
      obtain ⟨_,version,kept⟩ := kept rules' text
      exact text_kept kept read undo

theorem versionStep_settled (state : VersionedPolicy) (call : VersionCall) (undoable : Undoable state call)
    (settled : Settled state) : Settled (versionStep state call) := by
  have recorded := versionStep_recorded state call settled.recorded
  cases call with
  | upgrade env newRules newVersion =>
    obtain ⟨memory,reversible⟩ := undoable
    rw [versionStep] at recorded ⊢
    rcases akPolicyUpgrade_cases env state newRules newVersion with ⟨_,same⟩ | ⟨rules,policy,some,parsed,result⟩
    · rw [same]
      exact settled
    rw [result] at recorded ⊢
    have read := akPolicyParseRules_parsed parsed
    obtain ⟨current,returns⟩ := upgrade_settled settled read memory (reversible rules some) newVersion
    exact ⟨recorded,current,returns⟩
  | rollback env =>
    rw [versionStep] at recorded ⊢
    rcases akPolicyRollback_cases env state with ⟨_,same⟩ | ⟨current,previous,older,policy,chain,read,_,versions,restored⟩
    · rw [same]
      exact settled
    have returns := settled.returns
    rw [chain] at returns
    obtain ⟨before,hash,current,kept,older'⟩ := returns
    have same : SameContent policy before := by
      rcases read with ⟨missing,rfl⟩ | ⟨rules,text,parsed⟩
      · rw [missing] at kept
        exact kept.symm
      rw [text] at kept
      have read := akPolicyParseRules_parsed parsed
      obtain ⟨doc,writes⟩ := read.written
      exact (read.meaning doc writes).trans (kept doc writes).symm
    have same := (sameContent_rehash policy previous.hash).trans same
    refine ⟨recorded,?_,?_⟩
    · rw [restored]
      exact current.of_same same hash.symm
    · rw [restored,versions]
      exact older'.of_same same.symm
  | sign env signingKey =>
    have same := sameContent_sign env state.policy signingKey
    exact ⟨recorded,settled.current.of_same same rfl,settled.returns.of_same same.symm⟩

def Begun (env : VersionEnv) (state : VersionedPolicy) : Prop :=
  (∃ data, loadVersioned env data = some state) ∨ akPolicyDefault env = some state ∨ akPolicyPermissive env = some state

theorem loaded_content {env : LoadEnv} {verifyKey : Option (Block 32)} {data : Bytes}
    (loaded : akPolicyLoad env verifyKey data = some policy) :
    (∃ doc, Writes doc data) ∧ ∀ doc, Writes doc data →
      SameContent policy (doc.effect (staged { policy with version := akPolicyVersion })) := by
  have expires := (akPolicyLoad_defaults loaded).2.2
  obtain ⟨parsed,read,content⟩ := akPolicyLoad_parsed loaded
  refine ⟨exists_writes read,?_⟩
  intro written writes
  have same := @effect_staged written emptyPolicy { policy with version := akPolicyVersion } expires.symm rfl
  refine SameContent.trans ?_ same
  rw [show staged emptyPolicy = emptyPolicy from rfl,← writes.parsed env emptyPolicy parsed read,content]
  exact ⟨⟨rfl,rfl,rfl,rfl,rfl,rfl,rfl⟩,rfl⟩

theorem withHash_current (policy : AkPolicy) (memory : env.load.serializeAlloc = true) :
    HashCurrent (withHash env policy) := by
  have same : SameContent (withHash env policy) policy := sameContent_rehash policy _
  rw [HashCurrent,same.hash,withHash,memory]

section Begun

variable {env : VersionEnv} {state : VersionedPolicy}

theorem Begun.first (begun : Begun env state) :
    ∃ policy rulesJson, state = firstVersion env policy rulesJson ∧
      (env.load.serializeAlloc = true → HashCurrent policy) ∧
        ∀ rules, rulesJson = some rules → (∃ doc, Writes doc rules) ∧ ∀ doc, Writes doc rules →
          SameContent policy (doc.effect (staged { policy with version := akPolicyVersion })) := by
  rcases begun with ⟨data,loaded⟩ | made | made
  · obtain ⟨policy,accepted,rfl⟩ := Option.map_eq_some_iff.mp loaded
    refine ⟨policy,_,rfl,akPolicyLoad_hash accepted,?_⟩
    intro rules kept
    split at kept
    · cases kept
      exact loaded_content accepted
    · cases kept
  all_goals
    obtain ⟨_,created⟩ := Option.ite_none_right_eq_some.mp made
    exact ⟨_,none,(Option.some.inj created).symm,withHash_current _,nofun⟩

theorem Begun.recorded (begun : Begun env state) : Recorded state := by
  obtain ⟨policy,rulesJson,rfl,_,content⟩ := begun.first
  rw [firstVersion]
  split
  · rintro _ ⟨⟩
    refine ⟨rfl,?_⟩
    intro rules kept
    obtain ⟨written,meaning⟩ := content rules kept
    exact ⟨written,akPolicyVersion,meaning⟩
  · rintro _ ⟨⟩

theorem Begun.settled (begun : Begun env state) (memory : env.load.serializeAlloc = true) : Settled state := by
  have recorded := begun.recorded
  obtain ⟨policy,rulesJson,rfl,current,_⟩ := begun.first
  revert recorded
  rw [firstVersion]
  split
  · exact fun recorded => ⟨recorded,current memory,trivial⟩
  · exact fun recorded => ⟨recorded,current memory,trivial⟩

end Begun

/-- A failed upgrade changes nothing, and a rollback right after an upgrade restores the policy
exactly if the upgrade was reversible. If in addition every upgrade of a run is reversible and
finds the memory to hash its rules, the stored hash is current throughout. -/
theorem upgrade_reversible_run (env : VersionEnv) (start : VersionedPolicy) (begun : Begun env start)
    (calls : List VersionCall) :
    Throughout versionStep (fun state =>
        (∀ env newRules newVersion, (akPolicyUpgrade env state newRules newVersion).2 ≠ .ok →
          (akPolicyUpgrade env state newRules newVersion).1 = state) ∧
        ∀ env env' rules newVersion, (akPolicyUpgrade env state (some rules) newVersion).2 = .ok →
          (akPolicyRollback env' (akPolicyUpgrade env state (some rules) newVersion).1).2 = .ok →
            (Restored state (akPolicyRollback env' (akPolicyUpgrade env state (some rules) newVersion).1).1 ↔
              Reversible state rules)) start calls ∧
      (env.load.serializeAlloc = true → Guarded versionStep Undoable start calls →
        Throughout versionStep (fun state => HashCurrent state.policy) start calls) := by
  constructor
  · refine Throughout.imp ?_ (throughout_always versionStep_recorded start calls begun.recorded)
    intro state recorded
    refine ⟨?_,recorded.reverses⟩
    intro env newRules newVersion failed
    rcases akPolicyUpgrade_cases env state newRules newVersion with ⟨_,same⟩ | ⟨_,_,_,_,result⟩
    · exact same
    · rw [result] at failed
      exact absurd rfl failed
  · intro memory guarded
    refine Throughout.imp ?_ (throughout_of_guarded versionStep_settled start calls guarded (begun.settled memory))
    intro state settled
    exact settled.current

def ampleEnv : VersionEnv where
  load := ampleMemory
  recordAlloc := true
  cloneAlloc := true
  verifyKey := none

def openDocument : Bytes := ascii "\x7b\"tools\":\x7b\"allow\":[\"x\"]\x7d\x7d"

theorem openDocument_keeps (doc : Document) (writes : Writes doc openDocument) :
    doc.versionAfter akPolicyVersion = akPolicyVersion := by
  have parses : (akPolicyParseJson ampleMemory emptyPolicy openDocument).any
      (fun parsed => parsed.version == akPolicyVersion) = true := by decide +kernel
  obtain ⟨parsed,read,version⟩ := (Option.any_eq_true _ _).mp parses
  rw [writes.parsed ampleMemory emptyPolicy parsed read,Document.effect_version] at version
  exact beq_iff_eq.mp version

/-- The empty document upgraded and rolled back. -/
theorem empty_document_upgraded :
    ∃ start, Begun ampleEnv start ∧
      Guarded versionStep Undoable start [.upgrade ampleEnv (some openDocument) 2,.rollback ampleEnv] ∧
        Throughout versionStep (fun state => HashCurrent state.policy) start
          [.upgrade ampleEnv (some openDocument) 2,.rollback ampleEnv] := by
  have loads : (loadVersioned ampleEnv (ascii "\x7b\x7d")).any (fun state =>
      state.policy.version == akPolicyVersion &&
        decide (state.versions.head?.map PolicyVersion.rulesJson = some (some (ascii "\x7b\x7d")))) = true := by
    decide +kernel
  obtain ⟨start,loaded,checks⟩ := (Option.any_eq_true _ _).mp loads
  simp only [Bool.and_eq_true,beq_iff_eq,decide_eq_true_eq,Option.map_eq_some_iff] at checks
  obtain ⟨version,record,first,text⟩ := checks
  have begun : Begun ampleEnv start := .inl ⟨_,loaded⟩
  have guarded : Guarded versionStep Undoable start [.upgrade ampleEnv (some openDocument) 2,.rollback ampleEnv] := by
    refine ⟨⟨rfl,?_⟩,trivial,trivial⟩
    rintro _ ⟨⟩ current head
    rw [first] at head
    cases head
    rw [text,version]
    exact .inr openDocument_keeps
  exact ⟨start,begun,guarded,(upgrade_reversible_run ampleEnv start begun _).2 rfl guarded⟩

theorem second_version {first : AkPolicy}
    (parsed : akPolicyParseRules ampleEnv first rules = some policy) (hash : Block 32) :
    akPolicyUpgrade ampleEnv ⟨first,[⟨1,hash,none⟩],1⟩ (some rules) 2 =
        (⟨policy,[⟨2,policy.policyHash,some rules⟩,⟨1,hash,none⟩],2⟩,.ok) ∧
      akPolicyRollback ampleEnv ⟨policy,[⟨2,policy.policyHash,some rules⟩,⟨1,hash,none⟩],2⟩ =
        (⟨{ policy with policyHash := hash },[⟨1,hash,none⟩],1⟩,.ok) := by
  have fewer : (if (2 : UInt32) > 0 then (2 : UInt32) - 1 else 2) = 1 := by decide
  refine ⟨?_,by simp only [akPolicyRollback,fewer]⟩
  have newer : ¬(2 : UInt32) ≤ 1 := by decide
  have compatible : akPolicyIsCompatible 1 2 = true := by decide
  have records : ampleEnv.recordAlloc = true := rfl
  have clones : ampleEnv.cloneAlloc = true := rfl
  simp only [akPolicyUpgrade,akPolicyGetVersion,newer,compatible,records,clones,parsed,Bool.not_true,
    Bool.false_eq_true,if_false]
  rfl

/-- The default policy keeps no text: rolled back, it has its hash again, but not its rules. -/
theorem default_policy_not_restored :
    ∃ start upgraded restored, akPolicyDefault ampleEnv = some start ∧
      akPolicyUpgrade ampleEnv start (some openDocument) 2 = (upgraded,.ok) ∧
        akPolicyRollback ampleEnv upgraded = (restored,.ok) ∧
          restored.policy.toolRules ≠ start.policy.toolRules ∧ restored.policy.policyHash = start.policy.policyHash ∧
            akPolicySerialize restored.policy ≠ akPolicySerialize start.policy := by
  have upgrades : (akPolicyParseRules ampleEnv (withHash ampleEnv (defaultRules ampleMemory)) openDocument).any
      (fun policy => decide (policy.toolRules ≠ (defaultRules ampleMemory).toolRules ∧
        akPolicySerialize policy ≠ akPolicySerialize (defaultRules ampleMemory))) = true := by decide +kernel
  obtain ⟨policy,parsed,differ⟩ := (Option.any_eq_true _ _).mp upgrades
  obtain ⟨tools,text⟩ := of_decide_eq_true differ
  have made : akPolicyDefault ampleEnv = some ⟨withHash ampleEnv (defaultRules ampleMemory),
      [⟨1,(withHash ampleEnv (defaultRules ampleMemory)).policyHash,none⟩],1⟩ := by
    rw [akPolicyDefault,if_pos (show ampleEnv.load.policyAlloc = true from rfl),firstVersion,
      if_pos (show ampleEnv.recordAlloc = true from rfl)]
    rfl
  obtain ⟨upgraded,restored⟩ := second_version parsed
    (withHash ampleEnv (defaultRules ampleMemory)).policyHash
  exact ⟨_,_,_,made,upgraded,restored,tools,rfl,text⟩

end AuthorityKernel.Policy
