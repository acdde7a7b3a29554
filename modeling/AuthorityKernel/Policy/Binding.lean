import AuthorityKernel.Library.Entries
import AuthorityKernel.Policy.Effect

/-! The canonical text of a policy, which its hash and tag cover. Rule names stand in it without
escapes, so it tells policies apart only as long as names cannot imitate what separates them. -/
namespace AuthorityKernel.Policy
open Library Library.Entries Budget

def ruleLead : Bytes := ascii "  - "

def ruleWord (allow : Bool) : String := if allow then "allow" else "deny"

def taintWord : TaintRuleType → String
  | .source => "source"
  | .sink => "sink"
  | .sanitizer => "sanitizer"

def wordText (word : String) : Bytes := ascii ": " ++ ascii word ++ [10]

def ruleItem (rule : Rule) : Bytes × Bool := (rule.pattern.1,rule.allow)

def taintItem (rule : TaintRule) : Bytes × TaintRuleType := (rule.name.1,rule.type)

variable (word : String) (rules : List TaintRule)

theorem rules_entries (rules : List Rule) :
    rules.flatMap serializeRule = entries ruleLead 34 (fun allow => wordText (ruleWord allow)) (rules.map ruleItem) := by
  rw [entries,List.flatMap_map]
  congr 1
  funext rule
  cases allowed : rule.allow <;>
    simp [serializeRule,allowed,entry,ruleItem,ruleLead,wordText,ruleWord,ascii]

theorem taint_entries :
    rules.flatMap serializeTaintRule =
      entries ruleLead 34 (fun type => wordText (taintWord type)) (rules.map taintItem) := by
  rw [entries,List.flatMap_map]
  congr 1
  funext rule
  cases type : rule.type <;>
    simp [serializeTaintRule,type,entry,taintItem,ruleLead,wordText,taintWord,ascii]

/-- What separates two names, the first followed by this word. -/
def separation (word : String) : Bytes := 34 :: (wordText word ++ ruleLead)

def listWords : List String := ["allow","deny","source","sink","sanitizer"]

theorem ruleWord_mem (allow : Bool) : ruleWord allow ∈ listWords := by cases allow <;> decide

theorem taintWord_mem (type : TaintRuleType) : taintWord type ∈ listWords := by cases type <;> decide

theorem wordText_plain (listed : word ∈ listWords) : (34 : UInt8) ∉ wordText word := by
  have all : ∀ word ∈ listWords, (34 : UInt8) ∉ wordText word := by decide
  exact all word listed

theorem ruleWords_readable (allow allow' : Bool) (rest rest' : Bytes)
    (same : wordText (ruleWord allow) ++ rest = wordText (ruleWord allow') ++ rest') :
    allow = allow' ∧ rest = rest' := by
  have third := congrArg (fun text => text[2]?) same
  cases allow <;> cases allow'
  · exact ⟨rfl,List.append_cancel_left same⟩
  · exact absurd third (by simp [wordText,ruleWord,ascii])
  · exact absurd third (by simp [wordText,ruleWord,ascii])
  · exact ⟨rfl,List.append_cancel_left same⟩

theorem taintWords_readable (type type' : TaintRuleType) (rest rest' : Bytes)
    (same : wordText (taintWord type) ++ rest = wordText (taintWord type') ++ rest') :
    type = type' ∧ rest = rest' := by
  have fourth := congrArg (fun text => text[3]?) same
  cases type <;> cases type'
  case source.source => exact ⟨rfl,List.append_cancel_left same⟩
  case sink.sink => exact ⟨rfl,List.append_cancel_left same⟩
  case sanitizer.sanitizer => exact ⟨rfl,List.append_cancel_left same⟩
  all_goals exact absurd fourth (by simp [wordText,taintWord,ascii])

/-- No name has all the letters of a separation. -/
structure Separable (policy : AkPolicy) : Prop where
  tools : ∀ rule ∈ policy.toolRules, ∀ word ∈ listWords, ¬separation word ⊆ rule.pattern.1
  domains : ∀ rule ∈ policy.domainRules, ∀ word ∈ listWords, ¬separation word ⊆ rule.pattern.1
  taint : ∀ rule ∈ policy.taintRules, ∀ word ∈ listWords, ¬separation word ⊆ rule.name.1

variable {first second policy : AkPolicy} {behind rest rest' : Bytes}

theorem listed_unique {ρ τ : Type} {item : ρ → Bytes × τ} (injective : Function.Injective item) {word : τ → String}
    {serialize : ρ → Bytes} (spelled : ∀ rules : List ρ, rules.flatMap serialize =
      entries ruleLead 34 (fun tag => wordText (word tag)) (rules.map item)) (listed : ∀ tag, word tag ∈ listWords)
    (readable : ∀ tag tag' (rest rest' : Bytes), wordText (word tag) ++ rest = wordText (word tag') ++ rest' →
      tag = tag' ∧ rest = rest') {rules rules' : List ρ} {behind' : Bytes} (stops : behind.head? ≠ some 32)
    (stops' : behind'.head? ≠ some 32) (led : Led ruleLead 34 behind) (led' : Led ruleLead 34 behind')
    (short : ∀ rule ∈ rules, ∀ word ∈ listWords, ¬separation word ⊆ (item rule).1)
    (short' : ∀ rule ∈ rules', ∀ word ∈ listWords, ¬separation word ⊆ (item rule).1)
    (same : rules.flatMap serialize ++ behind = rules'.flatMap serialize ++ behind') : rules = rules' ∧ behind = behind' := by
  rw [spelled,spelled] at same
  have begins : ruleLead = 32 :: ascii " - " := by decide
  have apart {rules : List ρ} (short : ∀ rule ∈ rules, ∀ word ∈ listWords, ¬separation word ⊆ (item rule).1) :
      ∀ entry ∈ rules.map item, ∀ tag, ¬Spans ruleLead 34 (fun tag => wordText (word tag)) entry.1 tag := by
    intro entry member tag
    obtain ⟨rule,inside,rfl⟩ := List.mem_map.mp member
    exact short rule inside _ (listed tag)
  obtain ⟨items,rest⟩ := entries_unique begins (by decide) (fun tag => wordText_plain _ (listed tag)) readable stops stops'
    led led' _ _ (apart short) (apart short') same
  exact ⟨List.map_injective_iff.mpr injective items,rest⟩

theorem ruleItem_injective : Function.Injective ruleItem := by
  intro rule rule' same
  cases rule
  cases rule'
  simp only [ruleItem,Prod.mk.injEq] at same
  rw [Rule.mk.injEq]
  exact ⟨Subtype.ext same.1,same.2⟩

theorem taintItem_injective : Function.Injective taintItem := by
  intro rule rule' same
  cases rule
  cases rule'
  simp only [taintItem,Prod.mk.injEq] at same
  rw [TaintRule.mk.injEq]
  exact ⟨Subtype.ext same.1,same.2⟩

theorem led_rules (rules : List Rule) (led : Led ruleLead 34 behind) :
    Led ruleLead 34 (rules.flatMap serializeRule ++ behind) := by
  rw [rules_entries]
  exact led_entries (by decide) _ led

theorem led_taint : Led ruleLead 34 (rules.flatMap serializeTaintRule) := by
  rw [taint_entries,← List.append_nil (entries _ _ _ _)]
  exact led_entries (by decide) _ led_nil

def rulesText (policy : AkPolicy) : Bytes :=
  ascii "tools:" ++ [10] ++ (policy.toolRules.flatMap serializeRule ++
    (ascii "domains:" ++ [10] ++ (policy.domainRules.flatMap serializeRule ++
      (ascii "taint:" ++ [10] ++ policy.taintRules.flatMap serializeTaintRule))))

theorem rulesText_unique (separable : Separable first) (separable' : Separable second)
    (same : rulesText first = rulesText second) :
    first.toolRules = second.toolRules ∧ first.domainRules = second.domainRules ∧
      first.taintRules = second.taintRules := by
  have ledTaint (policy : AkPolicy) :
      Led ruleLead 34 (ascii "taint:" ++ [10] ++ policy.taintRules.flatMap serializeTaintRule) :=
    Led.append (by decide) (led_taint policy.taintRules)
  have ledDomains (policy : AkPolicy) :
      Led ruleLead 34 (ascii "domains:" ++ [10] ++ (policy.domainRules.flatMap serializeRule ++
        (ascii "taint:" ++ [10] ++ policy.taintRules.flatMap serializeTaintRule))) :=
    Led.append (by decide) (led_rules policy.domainRules (ledTaint policy))
  have same := List.append_cancel_left same
  obtain ⟨tools,same⟩ := listed_unique ruleItem_injective rules_entries ruleWord_mem ruleWords_readable (by simp [ascii])
    (by simp [ascii]) (ledDomains first) (ledDomains second) separable.tools separable'.tools same
  have same := List.append_cancel_left same
  obtain ⟨domains,same⟩ := listed_unique ruleItem_injective rules_entries ruleWord_mem ruleWords_readable
    (by simp [ascii]) (by simp [ascii]) (ledTaint first) (ledTaint second) separable.domains separable'.domains same
  have same := congrArg (· ++ []) (List.append_cancel_left same)
  obtain ⟨taint,_⟩ := listed_unique taintItem_injective taint_entries taintWord_mem taintWords_readable (by simp) (by simp)
    led_nil led_nil separable.taint separable'.taint same
  exact ⟨tools,domains,taint⟩

def budgetsText (budgets : PolicyBudgets) (rest : Bytes) : Bytes :=
  serializeU64Field "tokens" budgets.tokens ++ (serializeU64Field "calls" budgets.calls ++
    (serializeU64Field "inference_ms" budgets.inferenceMs ++ (serializeU64Field "file_bytes" budgets.fileBytes ++
      (serializeU64Field "network_bytes" budgets.networkBytes ++ (serializeU64Field "spawn_count" budgets.spawnCount ++
        (serializeU64Field "heap_objects" budgets.heapObjects ++
          (serializeU64Field "heap_bytes" budgets.heapBytes ++ rest)))))))

theorem field_unique {key : String} {value value' : UInt64}
    (same : serializeU64Field key value ++ rest = serializeU64Field key value' ++ rest') :
    value = value' ∧ rest = rest' := by
  simp only [serializeU64Field,List.append_assoc,List.cons_append,List.nil_append] at same
  have same := List.append_cancel_left (List.append_cancel_left (List.append_cancel_left same))
  have free (n : Nat) : (10 : UInt8) ∉ decimalNat n := by
    intro member
    have digit := decimalNat_digit member
    simp at digit
  obtain ⟨digits,rest⟩ := split_first (10 : UInt8) _ _ _ _ same (free _) (free _)
  exact ⟨UInt64.toNat_inj.mp (decimalNat_injective digits),rest⟩

theorem budgetsText_unique {budgets budgets' : PolicyBudgets}
    (same : budgetsText budgets rest = budgetsText budgets' rest') : budgets = budgets' ∧ rest = rest' := by
  obtain ⟨tokens,same⟩ := field_unique same
  obtain ⟨calls,same⟩ := field_unique same
  obtain ⟨inferenceMs,same⟩ := field_unique same
  obtain ⟨fileBytes,same⟩ := field_unique same
  obtain ⟨networkBytes,same⟩ := field_unique same
  obtain ⟨spawnCount,same⟩ := field_unique same
  obtain ⟨heapObjects,same⟩ := field_unique same
  obtain ⟨heapBytes,tail⟩ := field_unique same
  cases budgets
  cases budgets'
  cases tokens
  cases calls
  cases inferenceMs
  cases fileBytes
  cases networkBytes
  cases spawnCount
  cases heapObjects
  cases heapBytes
  exact ⟨rfl,tail⟩

def defaultsText : Bytes :=
  [10] ++ ascii "expires_ms: " ++ decimalNat (0 : UInt64).toNat ++ [10] ++ ascii "defaults:" ++ [10] ++
    serializeU64Field "tool_allow" 0 ++ serializeU64Field "domain_allow" 0 ++ ascii "budgets:" ++ [10]

theorem akPolicySerialize_split (tools : policy.defaultToolAllow = false)
    (domains : policy.defaultDomainAllow = false) (expires : policy.expiresMs = 0) :
    akPolicySerialize policy = ascii "version: \"" ++ (policy.version.1 ++ (ascii "\"" ++
      (defaultsText ++ budgetsText policy.budgets (rulesText policy)))) := by
  unfold akPolicySerialize defaultsText budgetsText rulesText
  simp only [tools,domains,expires,Bool.false_eq_true,if_false,List.append_assoc]

def Loadable (policy : AkPolicy) : Prop :=
  ∃ (env : LoadEnv) (verifyKey : Option (Block 32)) (data : Bytes), akPolicyLoad env verifyKey data = some policy

theorem Document.versionAfter_length (doc : Document) (version : CString) (short : version.1.length ≤ 15) :
    (doc.versionAfter version).1.length ≤ 15 := by
  refine List.foldlRecOn (motive := fun version => version.1.length ≤ 15) doc.object.fields TopValue.versionAfter short ?_
  intro version short field _
  rw [TopValue.versionAfter]
  split
  · rename_i name _
    exact (List.takeWhile_sublist _).length_le.trans (List.length_take_le _ _)
  · exact short

theorem Loadable.version_length (loadable : Loadable policy) : policy.version.1.length ≤ 15 := by
  obtain ⟨env,verifyKey,data,loaded⟩ := loadable
  obtain ⟨parsed,read,rfl⟩ := akPolicyLoad_parsed loaded
  obtain ⟨doc,writes⟩ := exists_writes read
  rw [writes.parsed env emptyPolicy parsed read]
  rw [Document.effect_version]
  exact doc.versionAfter_length _ (by decide)

theorem serialize_unique (loadable : Loadable first) (loadable' : Loadable second) (separable : Separable first)
    (separable' : Separable second) (same : akPolicySerialize first = akPolicySerialize second) :
    first.budgets = second.budgets ∧ first.toolRules = second.toolRules ∧ first.domainRules = second.domainRules ∧
      first.taintRules = second.taintRules := by
  have short := loadable.version_length
  have short' := loadable'.version_length
  obtain ⟨_,_,_,loaded⟩ := loadable
  obtain ⟨_,_,_,loaded'⟩ := loadable'
  obtain ⟨tools,domains,expires⟩ := akPolicyLoad_defaults loaded
  obtain ⟨tools',domains',expires'⟩ := akPolicyLoad_defaults loaded'
  rw [akPolicySerialize_split tools domains expires,akPolicySerialize_split tools' domains' expires'] at same
  have long : 15 ≤ defaultsText.length := by decide
  have quote : ascii "\"" = [34] := by decide
  have same := List.append_cancel_left same
  rw [quote,List.singleton_append,List.singleton_append] at same
  obtain ⟨_,same⟩ := split_near (34 : UInt8) _ _ _ _ _ same (by decide) (short.trans long) (short'.trans long)
  obtain ⟨budgets,same⟩ := budgetsText_unique same
  exact ⟨budgets,rulesText_unique separable separable' same⟩

structure SpelledIn (letters : Set UInt8) (policy : AkPolicy) : Prop where
  tools : ∀ rule ∈ policy.toolRules, ∀ byte ∈ rule.pattern.1, byte ∈ letters
  domains : ∀ rule ∈ policy.domainRules, ∀ byte ∈ rule.pattern.1, byte ∈ letters
  taint : ∀ rule ∈ policy.taintRules, ∀ byte ∈ rule.name.1, byte ∈ letters

theorem SpelledIn.separable {letters : Set UInt8} (spelled : SpelledIn letters policy)
    (lacks : ∀ word ∈ listWords, ∃ byte ∈ separation word, byte ∉ letters) : Separable policy := by
  have apart (name : Bytes) (inside : ∀ byte ∈ name, byte ∈ letters) (word : String) (listed : word ∈ listWords) :
      ¬separation word ⊆ name := by
    intro spans
    obtain ⟨byte,member,outside⟩ := lacks word listed
    exact outside (inside byte (spans member))
  exact ⟨fun rule member => apart _ (spelled.tools rule member),fun rule member => apart _ (spelled.domains rule member),
    fun rule member => apart _ (spelled.taint rule member)⟩

def wordLists : List (String × String × String) :=
  [("allow","tools","allow"),("deny","tools","deny"),("source","taint","sources"),("sink","taint","sinks"),
    ("sanitizer","taint","sanitizers")]

def listDocument (part list : String) (names : Bytes) : Bytes :=
  ascii "\x7b\"" ++ ascii part ++ ascii "\":\x7b\"" ++ ascii list ++ ascii "\":[" ++ names ++ ascii "]\x7d\x7d"

def pairDocument (part list : String) : Bytes := listDocument part list (ascii "\"\",\"\"")

/-- One rule whose name is what separates the two. -/
def forgedDocument (part list word : String) : Bytes :=
  listDocument part list (ascii "\"\\\": " ++ ascii word ++ ascii "\\n  - \\\"\"")

def sameText (first second : AkPolicy) (word : String) : Bool :=
  decide (akPolicySerialize first = akPolicySerialize second) &&
    !decide (first.toolRules = second.toolRules ∧ first.taintRules = second.taintRules) &&
      (first.toolRules ++ second.toolRules).all (fun rule => rule.pattern.1.all (separation word).contains) &&
        (first.domainRules ++ second.domainRules).isEmpty &&
          (first.taintRules ++ second.taintRules).all (fun rule => rule.name.1.all (separation word).contains)

theorem forgeries_load : wordLists.all (fun entry =>
    (akPolicyLoad ampleMemory none (forgedDocument entry.2.1 entry.2.2 entry.1)).any fun first =>
      (akPolicyLoad ampleMemory none (pairDocument entry.2.1 entry.2.2)).any fun second =>
        sameText first second entry.1) = true := by
  decide +kernel

theorem exists_forgery (listed : word ∈ listWords) :
    ∃ first second, Loadable first ∧ Loadable second ∧ akPolicySerialize first = akPolicySerialize second ∧
      ¬(first.toolRules = second.toolRules ∧ first.taintRules = second.taintRules) ∧
        SpelledIn (fun byte => byte ∈ separation word) first ∧ SpelledIn (fun byte => byte ∈ separation word) second := by
  have entries : listWords = wordLists.map Prod.fst := rfl
  rw [entries] at listed
  obtain ⟨⟨_,part,list⟩,member,rfl⟩ := List.mem_map.mp listed
  have loads := List.all_eq_true.mp forgeries_load _ member
  obtain ⟨first,loadedFirst,loads⟩ := (Option.any_eq_true _ _).mp loads
  obtain ⟨second,loadedSecond,same⟩ := (Option.any_eq_true _ _).mp loads
  simp only [sameText,Bool.and_eq_true,decide_eq_true_eq,Bool.not_eq_true',decide_eq_false_iff_not,List.all_append,
    List.all_eq_true,List.contains_iff_mem,List.isEmpty_iff,List.append_eq_nil_iff] at same
  obtain ⟨⟨⟨⟨text,differ⟩,tools⟩,domains⟩,taint⟩ := same
  exact ⟨first,second,⟨_,_,_,loadedFirst⟩,⟨_,_,_,loadedSecond⟩,text,differ,
    ⟨tools.1,by simp [domains.1],taint.1⟩,⟨tools.2,by simp [domains.2],taint.2⟩⟩

/-- The canonical texts of loaded policies whose names are written with certain bytes determine
budgets and rules exactly if, for each word of the text, a byte is missing to write what follows
a name with this word and leads to the next. -/
theorem serialize_binds_iff (letters : Set UInt8) :
    (∀ first second, Loadable first → Loadable second → SpelledIn letters first → SpelledIn letters second →
        akPolicySerialize first = akPolicySerialize second →
          first.budgets = second.budgets ∧ first.toolRules = second.toolRules ∧
            first.domainRules = second.domainRules ∧ first.taintRules = second.taintRules) ↔
      ∀ word ∈ listWords, ∃ byte ∈ separation word, byte ∉ letters := by
  constructor
  · intro binds word listed
    by_contra complete
    push Not at complete
    obtain ⟨first,second,loadable,loadable',same,differ,spelled,spelled'⟩ := exists_forgery word listed
    have widen (policy : AkPolicy) (narrow : SpelledIn (fun byte => byte ∈ separation word) policy) :
        SpelledIn letters policy :=
      ⟨fun rule member byte inside => complete byte (narrow.tools rule member byte inside),
        fun rule member byte inside => complete byte (narrow.domains rule member byte inside),
        fun rule member byte inside => complete byte (narrow.taint rule member byte inside)⟩
    obtain ⟨_,tools,_,taint⟩ := binds first second loadable loadable' (widen first spelled) (widen second spelled') same
    exact differ ⟨tools,taint⟩
  · intro lacks first second loadable loadable' spelled spelled' same
    exact serialize_unique loadable loadable' (spelled.separable lacks) (spelled'.separable lacks) same

/-- Two allowed tools with empty names, and one tool whose name reads like the end of the first
and the start of the second: the same hash, and a tag of one is a tag of the other. -/
theorem forged_policy_shares_tag :
    ∃ first second, akPolicyLoad ampleMemory none (forgedDocument "tools" "allow" "allow") = some first ∧
      akPolicyLoad ampleMemory none (pairDocument "tools" "allow") = some second ∧
        akPolicySerialize first = akPolicySerialize second ∧ first.toolRules.length = 1 ∧ second.toolRules.length = 2 ∧
          akPolicyComputeHash true first = akPolicyComputeHash true second ∧
            ∀ (signature : Block 64) (hmacAlloc : Bool) (key : Block 32),
              akPolicyVerifySignature hmacAlloc { first with signature := signature } key =
                akPolicyVerifySignature hmacAlloc { second with signature := signature } key := by
  have loads : (akPolicyLoad ampleMemory none (forgedDocument "tools" "allow" "allow")).any (fun first =>
      (akPolicyLoad ampleMemory none (pairDocument "tools" "allow")).any fun second =>
        decide (akPolicySerialize first = akPolicySerialize second ∧ first.toolRules.length = 1 ∧
          second.toolRules.length = 2)) = true := by decide +kernel
  obtain ⟨first,loadedFirst,loads⟩ := (Option.any_eq_true _ _).mp loads
  obtain ⟨second,loadedSecond,same⟩ := (Option.any_eq_true _ _).mp loads
  obtain ⟨text,one,two⟩ := of_decide_eq_true same
  have hash : akPolicyComputeHash true first = akPolicyComputeHash true second := by
    simp only [akPolicyComputeHash,text,if_true]
  refine ⟨first,second,loadedFirst,loadedSecond,text,one,two,hash,?_⟩
  intro signature hmacAlloc key
  simp only [akPolicyVerifySignature,akPolicyLoad_hash loadedFirst rfl,akPolicyLoad_hash loadedSecond rfl,
    hash]

end AuthorityKernel.Policy
