import AuthorityKernel.Library.Run
import AuthorityKernel.Policy.Document

/-! What a policy document says, whatever memory its rules find. -/
namespace AuthorityKernel.Policy
open Library Library.Run Budget Json

def ArrayValue.listed : ArrayValue → List Quoted
  | .names array => array.elements.map Element.name
  | .skipped _ => []

variable {policy updated : AkPolicy}

section Tagged

variable {τ : Type} (tags : List (String × τ))

def tagFor (key : CString) : Option τ := (tags.find? fun tag => key.1 == ascii tag.1).map Prod.snd

def Field.tagged (field : Field ArrayValue) : List (Quoted × τ) :=
  match tagFor tags (field.key.held 64) with
  | some tag => field.value.listed.map fun name => (name,tag)
  | none => []

def ObjectText.tagged (object : ObjectText ArrayValue) : List (Quoted × τ) := object.fields.flatMap (Field.tagged tags)

variable (env : LoadEnv) (store : τ → AkPolicy → CString → AkPolicy)

def taggedFields : List ArrayField := tags.map fun tag => ⟨tag.1,addRule env (store tag.2)⟩

def storeName (policy : AkPolicy) (item : Quoted × τ) : AkPolicy :=
  store item.2 policy (item.1.held akPolicyMaxStr)

theorem addRule_stores {put : AkPolicy → CString → AkPolicy} {name : CString}
    (added : addRule env put policy name = some updated) : updated = put policy name := by
  unfold addRule at added
  split at added
  · cases added
    rfl
  · cases added

theorem fieldFor_tagged (key : CString) :
    fieldFor (taggedFields tags env store) key =
      (tags.find? fun tag => key.1 == ascii tag.1).map fun tag => ⟨tag.1,addRule env (store tag.2)⟩ :=
  List.find?_map

theorem fieldFor_isSome (key : CString) :
    (fieldFor (taggedFields tags env store) key).isSome = (tagFor tags key).isSome := by
  rw [fieldFor_tagged,tagFor,Option.isSome_map,Option.isSome_map]

theorem field_stores {field : Field ArrayValue}
    (applied : field.apply (arrayReader (taggedFields tags env store)) 64 policy = some updated) :
    updated = (field.tagged tags).foldl (storeName store) policy := by
  dsimp only [Field.apply,arrayReader] at applied
  rw [fieldFor_tagged] at applied
  rw [Field.tagged,tagFor]
  cases found : tags.find? fun tag => (field.key.held 64).1 == ascii tag.1 with
  | none =>
    rw [found] at applied
    cases values : field.value <;> rw [values] at applied <;> exact (Option.some.inj applied).symm
  | some tag =>
    rw [found] at applied
    cases values : field.value with
    | skipped text =>
      rw [values] at applied
      exact (Option.some.inj applied).symm
    | names array =>
      rw [values] at applied
      have stored := @foldlM_foldl _ _ _ (fun policy (element : Element) => storeName store policy (element.name,tag.2))
        (fun policy element next added => addRule_stores env added) array.elements policy updated applied
      simpa only [Option.map_some,ArrayValue.listed,List.foldl_map] using stored

theorem ObjectText.apply_tagged {object : ObjectText ArrayValue}
    (applied : object.apply (arrayReader (taggedFields tags env store)) 64 policy = some updated) :
    updated = (object.tagged tags).foldl (storeName store) policy := by
  have stored := foldlM_foldl (fun policy field next => field_stores tags env store) object.fields
    policy updated applied
  rw [ObjectText.tagged,List.foldl_flatMap]
  exact stored

end Tagged

def ruleTags : List (String × Bool) := [("allow",true),("deny",false)]

def taintTags : List (String × TaintRuleType) := [("sources",.source),("sinks",.sink),("sanitizers",.sanitizer)]

def storeTool (allow : Bool) (policy : AkPolicy) (name : CString) : AkPolicy :=
  { policy with toolRules := placeRule policy.toolRules ⟨name,allow⟩ }

def storeDomain (allow : Bool) (policy : AkPolicy) (pattern : CString) : AkPolicy :=
  { policy with domainRules := placeRule policy.domainRules ⟨pattern,allow⟩ }

def storeTaint (type : TaintRuleType) (policy : AkPolicy) (name : CString) : AkPolicy :=
  { policy with taintRules := ⟨name,type⟩ :: policy.taintRules }

def placeName (rules : List Rule) (item : Quoted × Bool) : List Rule :=
  placeRule rules ⟨item.1.held akPolicyMaxStr,item.2⟩

def placeTaint (rules : List TaintRule) (item : Quoted × TaintRuleType) : List TaintRule :=
  ⟨item.1.held akPolicyMaxStr,item.2⟩ :: rules

def Field.limit (budgets : PolicyBudgets) (field : Field BudgetValue) : PolicyBudgets :=
  match field.value with
  | .number _ digits => numericBudget budgets (field.key.held 32) (saturatingDecimal 0 digits)
  | .skipped _ => budgets

def signatureAfter (signature : Block 64) (sighex : CString) : Block 64 :=
  if sighex.1.length = 0 then signature
  else ((unhexBytes sighex.1).map (writeSignature signature)).getD signature

def TopValue.effect (value : TopValue) (policy : AkPolicy) : AkPolicy :=
  match value with
  | .version _ name => { policy with version := name.held 16 }
  | .signature _ hex => { policy with signature := signatureAfter policy.signature (hex.held 129) }
  | .budgets object => { policy with budgets := object.fields.foldl Field.limit policy.budgets }
  | .tools object => { policy with toolRules := (object.tagged ruleTags).foldl placeName policy.toolRules }
  | .domains object => { policy with domainRules := (object.tagged ruleTags).foldl placeName policy.domainRules }
  | .taint object => { policy with taintRules := (object.tagged taintTags).foldl placeTaint policy.taintRules }
  | .skipped _ => policy

def Document.effect (doc : Document) (policy : AkPolicy) : AkPolicy :=
  doc.object.fields.foldl (fun policy field => field.value.effect policy) policy

theorem parseSignature_stores {sighex : CString} (parsed : parseSignature policy sighex = some updated) :
    updated = { policy with signature := signatureAfter policy.signature sighex } := by
  unfold parseSignature at parsed
  split at parsed
  · rename_i sized
    obtain ⟨bytes,read,rfl⟩ := Option.map_eq_some_iff.mp parsed
    rw [signatureAfter,if_neg (by omega),read]
    rfl
  split at parsed
  · rename_i empty
    cases parsed
    rw [signatureAfter,if_pos empty]
  · cases parsed

theorem budgets_stored {object : ObjectText BudgetValue}
    (applied : object.apply budgetReader 32 policy = some updated) :
    updated = { policy with budgets := object.fields.foldl Field.limit policy.budgets } := by
  have stored := @foldlM_foldl _ _ _ (fun policy field => { policy with budgets := Field.limit policy.budgets field })
    (by
      intro policy field next read
      have read : (match field.value with
        | .number _ digits => some { policy with
            budgets := numericBudget policy.budgets (field.key.held 32) (saturatingDecimal 0 digits) }
        | .skipped _ => some policy) = some next := read
      rw [Field.limit]
      cases values : field.value <;> rw [values] at read <;> exact (Option.some.inj read).symm)
    object.fields policy updated applied
  rw [stored]
  exact foldl_part AkPolicy.budgets (fun policy budgets => { policy with budgets := budgets }) Field.limit
    (fun _ _ => rfl) (fun _ _ => rfl) (fun _ _ _ => rfl) (fun _ => rfl) object.fields policy

theorem TopValue.apply_effect (env : LoadEnv) (value : TopValue) (policy updated : AkPolicy)
    (applied : value.apply env policy = some updated) : updated = value.effect policy := by
  cases value with
  | version | skipped => exact (Option.some.inj applied).symm
  | signature lead hex => exact parseSignature_stores applied
  | budgets object => exact budgets_stored applied
  | tools object =>
    rw [ObjectText.apply_tagged ruleTags env storeTool applied]
    exact foldl_part AkPolicy.toolRules (fun policy rules => { policy with toolRules := rules }) placeName
      (fun _ _ => rfl) (fun _ _ => rfl) (fun _ _ _ => rfl) (fun _ => rfl) (object.tagged ruleTags) policy
  | domains object =>
    rw [ObjectText.apply_tagged ruleTags env storeDomain applied]
    exact foldl_part AkPolicy.domainRules (fun policy rules => { policy with domainRules := rules }) placeName
      (fun _ _ => rfl) (fun _ _ => rfl) (fun _ _ _ => rfl) (fun _ => rfl) (object.tagged ruleTags) policy
  | taint object =>
    rw [ObjectText.apply_tagged taintTags env storeTaint applied]
    exact foldl_part AkPolicy.taintRules (fun policy rules => { policy with taintRules := rules }) placeTaint
      (fun _ _ => rfl) (fun _ _ => rfl) (fun _ _ _ => rfl) (fun _ => rfl) (object.tagged taintTags) policy

theorem Document.apply_effect (env : LoadEnv) (doc : Document) (policy updated : AkPolicy)
    (applied : doc.apply env policy = some updated) : updated = doc.effect policy :=
  foldlM_foldl (fun policy field next read => TopValue.apply_effect env field.value policy next read)
    doc.object.fields policy updated applied

def TopValue.versionAfter (version : CString) (field : Field TopValue) : CString :=
  match field.value with
  | .version _ name => name.held 16
  | _ => version

def Document.versionAfter (doc : Document) (version : CString) : CString :=
  doc.object.fields.foldl TopValue.versionAfter version

theorem Document.effect_version (doc : Document) (policy : AkPolicy) :
    (doc.effect policy).version = doc.versionAfter policy.version := by
  refine foldl_view ?_ doc.object.fields policy
  intro policy field
  rw [TopValue.versionAfter]
  cases field.value <;> rfl

def Document.toolPatterns (doc : Document) : List (Quoted × Bool) :=
  doc.object.fields.flatMap fun field =>
    match field.value with
    | .tools object => object.tagged ruleTags
    | _ => []

def Document.domainPatterns (doc : Document) : List (Quoted × Bool) :=
  doc.object.fields.flatMap fun field =>
    match field.value with
    | .domains object => object.tagged ruleTags
    | _ => []

theorem Document.effect_toolRules (doc : Document) (policy : AkPolicy) :
    (doc.effect policy).toolRules = doc.toolPatterns.foldl placeName policy.toolRules := by
  rw [Document.toolPatterns,List.foldl_flatMap]
  refine foldl_view ?_ doc.object.fields policy
  intro policy field
  cases field.value <;> rfl

theorem Document.effect_domainRules (doc : Document) (policy : AkPolicy) :
    (doc.effect policy).domainRules = doc.domainPatterns.foldl placeName policy.domainRules := by
  rw [Document.domainPatterns,List.foldl_flatMap]
  refine foldl_view ?_ doc.object.fields policy
  intro policy field
  cases field.value <;> rfl

structure SameRules (first second : AkPolicy) : Prop where
  toolRules : first.toolRules = second.toolRules
  domainRules : first.domainRules = second.domainRules
  taintRules : first.taintRules = second.taintRules
  budgets : first.budgets = second.budgets
  defaultToolAllow : first.defaultToolAllow = second.defaultToolAllow
  defaultDomainAllow : first.defaultDomainAllow = second.defaultDomainAllow
  expiresMs : first.expiresMs = second.expiresMs

variable {second : AkPolicy}

theorem SameRules.symm {first : AkPolicy} (same : SameRules first second) : SameRules second first :=
  ⟨same.1.symm,same.2.symm,same.3.symm,same.4.symm,same.5.symm,same.6.symm,same.7.symm⟩

theorem SameRules.trans {first third : AkPolicy} (left : SameRules first second)
    (right : SameRules second third) : SameRules first third :=
  ⟨left.1.trans right.1,left.2.trans right.2,left.3.trans right.3,left.4.trans right.4,left.5.trans right.5,
    left.6.trans right.6,left.7.trans right.7⟩

theorem TopValue.effect_sameRules (value : TopValue) {first : AkPolicy} (same : SameRules first second) :
    SameRules (value.effect first) (value.effect second) := by
  cases value with
  | version | signature => exact ⟨same.1,same.2,same.3,same.4,same.5,same.6,same.7⟩
  | budgets object =>
    exact ⟨same.1,same.2,same.3,congrArg (object.fields.foldl Field.limit) same.4,same.5,same.6,same.7⟩
  | tools object =>
    exact ⟨congrArg ((object.tagged ruleTags).foldl placeName) same.1,same.2,same.3,same.4,same.5,same.6,same.7⟩
  | domains object =>
    exact ⟨same.1,congrArg ((object.tagged ruleTags).foldl placeName) same.2,same.3,same.4,same.5,same.6,same.7⟩
  | taint object =>
    exact ⟨same.1,same.2,congrArg ((object.tagged taintTags).foldl placeTaint) same.3,same.4,same.5,same.6,same.7⟩
  | skipped text => exact same

theorem Document.effect_sameRules (doc : Document) {first : AkPolicy} (same : SameRules first second) :
    SameRules (doc.effect first) (doc.effect second) := by
  rw [Document.effect,Document.effect]
  induction doc.object.fields generalizing first second with
  | nil => exact same
  | cons field fields ih => exact ih (field.value.effect_sameRules same)

def Document.NamesVersion (doc : Document) : Prop :=
  ∃ field ∈ doc.object.fields, ∃ lead name, field.value = .version lead name

theorem Document.versionAfter_named (doc : Document) (named : doc.NamesVersion) (version version' : CString) :
    doc.versionAfter version = doc.versionAfter version' := by
  obtain ⟨field,member,lead,name,value⟩ := named
  obtain ⟨before,after,split⟩ := List.append_of_mem member
  rw [Document.versionAfter,Document.versionAfter,split,List.foldl_append,List.foldl_append,List.foldl_cons,
    List.foldl_cons,TopValue.versionAfter,TopValue.versionAfter,value]

theorem Document.versionAfter_unnamed (doc : Document) (unnamed : ¬doc.NamesVersion) (version : CString) :
    doc.versionAfter version = version := by
  refine List.foldlRecOn (motive := fun last => last = version) doc.object.fields TopValue.versionAfter rfl ?_
  rintro _ rfl field member
  rw [TopValue.versionAfter]
  split
  · rename_i lead name value
    exact absurd ⟨field,member,lead,name,value⟩ unnamed
  · rfl

section Memory

variable (env env' : LoadEnv)

theorem Document.text_env (doc : Document) : doc.text env = doc.text env' := by
  have texts : Field.text (topReader env) = Field.text (topReader env') := by
    funext field
    rw [Field.text,Field.text]
    cases values : field.value <;> rfl
  rw [Document.text,Document.text,ObjectText.text,ObjectText.text,texts]

theorem arrays_valid {τ : Type} (tags : List (String × τ)) (store : τ → AkPolicy → CString → AkPolicy)
    (object : ObjectText ArrayValue) (valid : object.Valid (arrayReader (taggedFields tags env store)) 64) :
    object.Valid (arrayReader (taggedFields tags env' store)) 64 := by
  intro field member
  have fieldValid := valid field member
  have known (env : LoadEnv) := fieldFor_isSome tags env store (field.key.held 64)
  rw [Field.Valid] at fieldValid ⊢
  cases values : field.value with
  | names array =>
    rw [values] at fieldValid
    exact (known env').trans ((known env).symm.trans fieldValid)
  | skipped text =>
    rw [values] at fieldValid
    refine ⟨?_,fieldValid.2⟩
    rw [← Option.not_isSome_iff_eq_none,known env',← known env,Option.not_isSome_iff_eq_none]
    exact fieldValid.1

theorem Document.Valid.with_memory {doc : Document} (valid : doc.Valid env) : doc.Valid env' := by
  intro field member
  have fieldValid := valid field member
  rw [Field.Valid] at fieldValid ⊢
  cases values : field.value with
  | version | signature | budgets | skipped => rw [values] at fieldValid; exact fieldValid
  | tools object =>
    rw [values] at fieldValid
    exact ⟨fieldValid.1,arrays_valid env env' ruleTags storeTool object fieldValid.2⟩
  | domains object =>
    rw [values] at fieldValid
    exact ⟨fieldValid.1,arrays_valid env env' ruleTags storeDomain object fieldValid.2⟩
  | taint object =>
    rw [values] at fieldValid
    exact ⟨fieldValid.1,arrays_valid env env' taintTags storeTaint object fieldValid.2⟩

end Memory

def ampleMemory : LoadEnv where
  policyAlloc := true
  ruleAlloc _ := true
  serializeAlloc := true
  hmacAlloc := true

structure Writes (doc : Document) (data : Bytes) : Prop where
  valid : doc.Valid ampleMemory
  text : data = doc.text ampleMemory

variable {data : Bytes}

theorem Writes.parsed {doc : Document} (writes : Writes doc data) (env : LoadEnv)
    (policy parsed : AkPolicy) (read : akPolicyParseJson env policy data = some parsed) : parsed = doc.effect policy := by
  rw [writes.text,doc.text_env ampleMemory env,akPolicyParseJson_text env doc (writes.valid.with_memory ampleMemory env)]
    at read
  exact doc.apply_effect env policy parsed read

variable {env : LoadEnv}

theorem exists_writes {parsed : AkPolicy}
    (read : akPolicyParseJson env policy data = some parsed) : ∃ doc, Writes doc data := by
  obtain ⟨doc,valid,text,_⟩ := akPolicyParseJson_split env read
  exact ⟨doc,valid.with_memory env ampleMemory,text.trans (doc.text_env env ampleMemory)⟩

variable {verifyKey : Option (Block 32)}

theorem akPolicyLoad_parsed
    (loaded : akPolicyLoad env verifyKey data = some policy) :
    ∃ parsed, akPolicyParseJson env emptyPolicy data = some parsed ∧ policy = { parsed with
      policyHash := akPolicyComputeHash env.serializeAlloc parsed
      signatureVerified := verifyKey.isSome } := by
  unfold akPolicyLoad at loaded
  split at loaded
  · cases loaded
  split at loaded
  · cases loaded
  split at loaded
  · cases loaded
  rename_i parsed read
  refine ⟨parsed,read,?_⟩
  dsimp only at loaded
  split at loaded
  · cases loaded
    rfl
  split at loaded
  · cases loaded
  · cases loaded
    rfl

theorem akPolicyLoad_hash
    (loaded : akPolicyLoad env verifyKey data = some policy) (memory : env.serializeAlloc = true) :
    policy.policyHash = akPolicyComputeHash true policy := by
  obtain ⟨parsed,_,rfl⟩ := akPolicyLoad_parsed loaded
  rw [memory]
  rfl

theorem akPolicyLoad_defaults
    (loaded : akPolicyLoad env verifyKey data = some policy) :
    policy.defaultToolAllow = false ∧ policy.defaultDomainAllow = false ∧ policy.expiresMs = 0 := by
  obtain ⟨parsed,read,rfl⟩ := akPolicyLoad_parsed loaded
  obtain ⟨doc,writes⟩ := exists_writes read
  rw [writes.parsed env emptyPolicy parsed read]
  refine List.foldlRecOn (motive := fun (after : AkPolicy) => after.defaultToolAllow = false ∧
    after.defaultDomainAllow = false ∧ after.expiresMs = 0) doc.object.fields _ ⟨rfl,rfl,rfl⟩ ?_
  intro after kept field _
  cases field.value <;> exact kept

theorem akPolicyLoad_tool_needs_rule (env : LoadEnv) (verifyKey : Option (Block 32)) (data : Bytes)
    (policy : AkPolicy) (loaded : akPolicyLoad env verifyKey data = some policy) (toolName : CString)
    (allowed : akPolicyCheckTool policy toolName = true) :
    ∃ rule ∈ policy.toolRules, rule.allow = true ∧
      (rule.pattern = toolName ∨ akPatternMatch rule.pattern toolName = true) := by
  unfold akPolicyCheckTool at allowed
  split at allowed
  · rename_i rule found
    have matched := List.find?_some found
    rw [Bool.or_eq_true,beq_iff_eq] at matched
    exact ⟨rule,List.mem_of_find?_eq_some found,allowed,matched⟩
  · rw [(akPolicyLoad_defaults loaded).1] at allowed
    simp at allowed

def starDocument : Bytes := ascii "\x7b\"tools\":\x7b\"allow\":[\"*\"]\x7d\x7d"

theorem any_tool_has_rule :
    ∃ policy, akPolicyLoad ampleMemory none starDocument = some policy ∧ ∃ rule ∈ policy.toolRules, rule.allow = true ∧
      (rule.pattern = .ofBuffer [97] ∨ akPatternMatch rule.pattern (.ofBuffer [97]) = true) := by
  have loads : (akPolicyLoad ampleMemory none starDocument).any (akPolicyCheckTool · (.ofBuffer [97])) = true := by
    decide +kernel
  obtain ⟨policy,loaded,allowed⟩ := (Option.any_eq_true _ _).mp loads
  exact ⟨policy,loaded,akPolicyLoad_tool_needs_rule _ _ _ policy loaded _ allowed⟩

end AuthorityKernel.Policy
