import AuthorityKernel.Policy.Objects

/-! Policy documents as they are written. The parser accepts exactly the texts of these
documents, and what it makes of a text is what the document says member by member. -/
namespace AuthorityKernel.Policy
open Library Library.JsonText Json

inductive ArrayValue
  | names (array : ArrayText)
  | skipped (text : Bytes)

def ArrayValue.text : ArrayValue → Bytes
  | .names array => array.text
  | .skipped text => text

def fieldFor (fields : List ArrayField) (key : CString) : Option ArrayField :=
  fields.find? fun field => key.1 == ascii field.key

def arrayReader (fields : List ArrayField) : Reader (parseArrayMember fields) ArrayValue where
  text := ArrayValue.text
  Valid key
    | .names _ => (fieldFor fields key).isSome = true
    | .skipped text => fieldFor fields key = none ∧ Skippable text
  apply key value policy :=
    match value, fieldFor fields key with
    | .names array, some field => array.apply field.add policy
    | _, _ => some policy
  sound := by
    intro policy key p updated rest read
    unfold parseArrayMember at read
    split at read
    · rename_i field found
      obtain ⟨array,rfl,applied⟩ := pjParseStringArray_split field.add read
      have known : fieldFor fields key = some field := found
      exact ⟨.names array,by rw [known]; rfl,rfl,by rw [known]; exact applied⟩
    rename_i unknown
    obtain ⟨after,skipped,same⟩ := Option.map_eq_some_iff.mp read
    cases same
    obtain ⟨text,rfl,skippable⟩ := pjSkipValue_split skipped
    exact ⟨.skipped text,⟨unknown,skippable⟩,rfl,rfl⟩
  complete := by
    intro policy key value rest valid follows
    unfold parseArrayMember
    cases value with
    | names array =>
      obtain ⟨field,known⟩ := Option.isSome_iff_exists.mp valid
      have found : (fields.find? fun field => key.1 == ascii field.key) = some field := known
      rw [found,known]
      exact pjParseStringArray_text field.add array policy rest
    | skipped text =>
      have unknown : (fields.find? fun field => key.1 == ascii field.key) = none := valid.1
      rw [unknown]
      change (pjSkipValue (text ++ rest)).map _ = _
      rw [valid.2.append follows]
      rfl

inductive BudgetValue
  | number (lead : Blanks) (digits : Bytes)
  | skipped (text : Bytes)

def BudgetValue.text : BudgetValue → Bytes
  | .number lead digits => lead.1 ++ digits
  | .skipped text => text

theorem Follows.noDigit {rest : Bytes} (follows : Follows rest) : ∀ byte ∈ rest.head?, isDigit byte = false := by
  intro byte first
  have none := follows.noNumber byte first
  rw [numberByte,Bool.or_eq_false_iff] at none
  exact none.1

theorem saturatingDecimal_append (digits rest : Bytes) (value : UInt64)
    (stops : ∀ byte ∈ rest.head?, isDigit byte = false) :
    saturatingDecimal value (digits ++ rest) = saturatingDecimal value digits := by
  induction digits generalizing value with
  | nil =>
    cases rest with
    | nil => rfl
    | cons byte rest => simp [saturatingDecimal,stops byte rfl]
  | cons digit digits ih => simp only [List.cons_append,saturatingDecimal,ih]

def budgetReader : Reader parseBudgetMember BudgetValue where
  text := BudgetValue.text
  Valid _
    | .number _ digits => digits ≠ [] ∧ ∀ byte ∈ digits, isDigit byte = true
    | .skipped text => Skippable text ∧ ∀ byte ∈ (pjSkipWs text).head?, isDigit byte = false
  apply key value policy :=
    match value with
    | .number _ digits => some { policy with budgets := numericBudget policy.budgets key (saturatingDecimal 0 digits) }
    | .skipped _ => some policy
  sound := by
    intro policy key p updated rest read
    unfold parseBudgetMember at read
    split at read
    · cases read
    rename_i byte tail blanks
    obtain ⟨lead,whole⟩ := pjSkipWs_split p
    split at read
    · rename_i digit
      rw [pjParseU64,if_pos digit] at read
      cases read
      refine ⟨.number lead ((byte :: tail).takeWhile isDigit),⟨?_,fun _ => List.mem_takeWhile_imp⟩,?_,?_⟩
      · rw [List.takeWhile_cons_of_pos digit]
        exact List.cons_ne_nil _ _
      · rw [BudgetValue.text,List.append_assoc,List.takeWhile_append_dropWhile,← blanks]
        exact whole
      · have stops : ∀ first ∈ ((byte :: tail).dropWhile isDigit).head?, isDigit first = false := by
          intro first leads
          have stopped := List.head?_dropWhile_not isDigit (byte :: tail)
          rw [leads] at stopped
          exact stopped
        conv_rhs => rw [← List.takeWhile_append_dropWhile (p := isDigit) (l := byte :: tail)]
        rw [saturatingDecimal_append _ _ _ stops]
    · rename_i plain
      obtain ⟨after,skipped,same⟩ := Option.map_eq_some_iff.mp read
      cases same
      obtain ⟨text,same,skippable⟩ := pjSkipValue_split skipped
      refine ⟨.skipped (lead.1 ++ text),⟨?_,?_⟩,?_,rfl⟩
      · rw [Skippable,pjSkipValue_append]
        exact skippable
      · rw [pjSkipWs_append]
        intro first leads
        have kept := skippable.skipWs rest
        rw [← same,← blanks,pjSkipWs_idem,blanks] at kept
        have head : (byte :: tail).head? = some first := by
          rw [kept,List.head?_append,leads]
          rfl
        cases head
        simpa using plain
      · rw [BudgetValue.text,List.append_assoc,← same,← blanks]
        exact whole
  complete := by
    intro policy key value rest valid follows
    unfold parseBudgetMember
    cases value with
    | number lead digits =>
      obtain ⟨nonempty,all⟩ := valid
      cases digits with
      | nil => exact absurd rfl nonempty
      | cons byte digits =>
        have digit := all byte List.mem_cons_self
        have stops : blank byte = false := by
          rw [← Bool.not_eq_true]
          simp only [blank,Bool.or_eq_true,beq_iff_eq]
          rintro (((rfl | rfl) | rfl) | rfl) <;> exact absurd digit (by decide)
        have dropped : ((byte :: digits) ++ rest).dropWhile isDigit = rest := by
          rw [List.dropWhile_append_of_pos all]
          cases rest with
          | nil => rfl
          | cons first rest =>
            rw [List.dropWhile_cons_of_neg (by rw [follows.noDigit first rfl]; exact Bool.false_ne_true)]
        rw [BudgetValue.text,List.append_assoc,List.cons_append,pjSkipWs_blanks lead _ (by rintro _ ⟨⟩; exact stops)]
        dsimp only
        rw [if_pos digit,pjParseU64,if_pos digit,← List.cons_append,dropped,
          saturatingDecimal_append _ _ _ follows.noDigit]
        rfl
    | skipped text =>
      obtain ⟨skippable,plain⟩ := valid
      obtain ⟨blanks,byte,tail,whole,stops⟩ := skippable.head
      have skipped : pjSkipWs text = byte :: tail := by
        rw [whole]
        exact pjSkipWs_blanks blanks _ (by rintro _ ⟨⟩; exact stops)
      have read := skippable.append follows
      change (match pjSkipWs (text ++ rest) with
        | [] => none
        | byte :: rest => _) = some (policy,rest)
      rw [skippable.skipWs,skipped,List.cons_append]
      dsimp only
      have plainByte : isDigit byte = false := plain byte (by rw [skipped]; rfl)
      have same : pjSkipValue (byte :: (tail ++ rest)) = pjSkipValue (text ++ rest) := by
        rw [whole,List.append_assoc,pjSkipValue_append]
        rfl
      rw [plainByte,if_neg Bool.false_ne_true,same,read]
      rfl

inductive TopValue
  | version (lead : Blanks) (name : Quoted)
  | signature (lead : Blanks) (hex : Quoted)
  | budgets (object : ObjectText BudgetValue)
  | tools (object : ObjectText ArrayValue)
  | domains (object : ObjectText ArrayValue)
  | taint (object : ObjectText ArrayValue)
  | skipped (text : Bytes)

def TopValue.key : TopValue → Option String
  | .version _ _ => some "version"
  | .signature _ _ => some "signature"
  | .budgets _ => some "budgets"
  | .tools _ => some "tools"
  | .domains _ => some "domains"
  | .taint _ => some "taint"
  | .skipped _ => none

def knownKeys : List String := ["version","signature","budgets","tools","domains","taint"]

section Top

variable (env : LoadEnv)

def TopValue.text : TopValue → Bytes
  | .version lead name => lead.1 ++ name.text
  | .signature lead hex => lead.1 ++ hex.text
  | .budgets object => object.text budgetReader
  | .tools object => object.text (arrayReader (toolFields env))
  | .domains object => object.text (arrayReader (domainFields env))
  | .taint object => object.text (arrayReader (taintFields env))
  | .skipped text => text

def TopValue.Valid (key : CString) (value : TopValue) : Prop :=
  (match value.key with
    | some name => key.1 = ascii name
    | none => ∀ name ∈ knownKeys, key.1 ≠ ascii name) ∧
    match value with
    | .version _ _ | .signature _ _ => True
    | .budgets object => object.Valid budgetReader 32
    | .tools object => object.Valid (arrayReader (toolFields env)) 64
    | .domains object => object.Valid (arrayReader (domainFields env)) 64
    | .taint object => object.Valid (arrayReader (taintFields env)) 64
    | .skipped text => Skippable text

def TopValue.apply (value : TopValue) (policy : AkPolicy) : Option AkPolicy :=
  match value with
  | .version _ name => some { policy with version := name.held 16 }
  | .signature _ hex => parseSignature policy (hex.held 129)
  | .budgets object => object.apply budgetReader 32 policy
  | .tools object => object.apply (arrayReader (toolFields env)) 64 policy
  | .domains object => object.apply (arrayReader (domainFields env)) 64 policy
  | .taint object => object.apply (arrayReader (taintFields env)) 64 policy
  | .skipped _ => some policy

theorem pjSkipWs_quoted (lead : Blanks) (quoted : Quoted) (rest : Bytes) :
    pjSkipWs (lead.1 ++ quoted.text ++ rest) = quoted.text ++ rest := by
  rw [List.append_assoc]
  refine pjSkipWs_blanks lead _ ?_
  rw [Quoted.text_head]
  rintro _ ⟨⟩
  rfl

theorem quoted_split {p : Bytes} {maxLen : Nat} {name : CString} {rest : Bytes}
    (read : pjParseString (pjSkipWs p) maxLen = some (name,rest)) :
    ∃ (lead : Blanks) (quoted : Quoted), p = lead.1 ++ quoted.text ++ rest ∧ name = quoted.held maxLen := by
  obtain ⟨quoted,same,rfl⟩ := pjParseString_split _ _ _ _ read
  obtain ⟨lead,whole⟩ := pjSkipWs_split p
  exact ⟨lead,quoted,by rw [List.append_assoc,← same]; exact whole,rfl⟩

def topReader : Reader (parseTopMember env) TopValue where
  text := TopValue.text env
  Valid := TopValue.Valid env
  apply _ := TopValue.apply env
  sound := by
    intro policy key p updated rest read
    unfold parseTopMember at read
    split at read
    · rename_i named
      obtain ⟨⟨name,after⟩,parsed,same⟩ := Option.map_eq_some_iff.mp read
      cases same
      obtain ⟨lead,quoted,rfl,rfl⟩ := quoted_split parsed
      exact ⟨.version lead quoted,⟨named,trivial⟩,rfl,rfl⟩
    rename_i notVersion
    split at read
    · rename_i named
      split at read
      · cases read
      rename_i hex after parsed
      obtain ⟨signed,applied,same⟩ := Option.map_eq_some_iff.mp read
      cases same
      obtain ⟨lead,quoted,rfl,rfl⟩ := quoted_split parsed
      exact ⟨.signature lead quoted,⟨named,trivial⟩,rfl,applied⟩
    rename_i notSignature
    split at read
    · rename_i named
      obtain ⟨object,valid,rfl,applied⟩ := parseObject_split budgetReader 32 read
      exact ⟨.budgets object,⟨named,valid⟩,rfl,applied⟩
    rename_i notBudgets
    split at read
    · rename_i named
      obtain ⟨object,valid,rfl,applied⟩ := parseObject_split (arrayReader (toolFields env)) 64 read
      exact ⟨.tools object,⟨named,valid⟩,rfl,applied⟩
    rename_i notTools
    split at read
    · rename_i named
      obtain ⟨object,valid,rfl,applied⟩ := parseObject_split (arrayReader (domainFields env)) 64 read
      exact ⟨.domains object,⟨named,valid⟩,rfl,applied⟩
    rename_i notDomains
    split at read
    · rename_i named
      obtain ⟨object,valid,rfl,applied⟩ := parseObject_split (arrayReader (taintFields env)) 64 read
      exact ⟨.taint object,⟨named,valid⟩,rfl,applied⟩
    rename_i notTaint
    obtain ⟨after,skipped,same⟩ := Option.map_eq_some_iff.mp read
    cases same
    obtain ⟨text,rfl,skippable⟩ := pjSkipValue_split skipped
    refine ⟨.skipped text,⟨?_,skippable⟩,rfl,rfl⟩
    simp only [TopValue.key,knownKeys,List.forall_mem_cons]
    exact ⟨notVersion,notSignature,notBudgets,notTools,notDomains,notTaint,by simp⟩
  complete := by
    intro policy key value rest valid follows
    obtain ⟨named,valid⟩ := valid
    cases value with
    | version lead name =>
      have named : key.1 = ascii "version" := named
      rw [parseTopMember,if_pos named]
      change Option.map _ (pjParseString (pjSkipWs (lead.1 ++ name.text ++ rest)) 16) = _
      rw [pjSkipWs_quoted,pjParseString_quoted]
      rfl
    | signature lead hex =>
      have named : key.1 = ascii "signature" := named
      simp +decide only [parseTopMember,named]
      change (match pjParseString (pjSkipWs (lead.1 ++ hex.text ++ rest)) 129 with
        | none => none
        | some (sighex,rest) => (parseSignature policy sighex).map fun signed => (signed,rest)) = _
      rw [pjSkipWs_quoted,pjParseString_quoted]
      rfl
    | budgets object =>
      have named : key.1 = ascii "budgets" := named
      simp +decide only [parseTopMember,named]
      exact parseObject_text budgetReader 32 valid policy rest
    | tools object =>
      have named : key.1 = ascii "tools" := named
      simp +decide only [parseTopMember,named]
      exact parseObject_text (arrayReader (toolFields env)) 64 valid policy rest
    | domains object =>
      have named : key.1 = ascii "domains" := named
      simp +decide only [parseTopMember,named]
      exact parseObject_text (arrayReader (domainFields env)) 64 valid policy rest
    | taint object =>
      have named : key.1 = ascii "taint" := named
      simp +decide only [parseTopMember,named]
      exact parseObject_text (arrayReader (taintFields env)) 64 valid policy rest
    | skipped text =>
      simp only [TopValue.key,knownKeys,List.forall_mem_cons] at named
      obtain ⟨notVersion,notSignature,notBudgets,notTools,notDomains,notTaint,_⟩ := named
      rw [parseTopMember,if_neg notVersion,if_neg notSignature,if_neg notBudgets,if_neg notTools,if_neg notDomains,
        if_neg notTaint]
      change Option.map _ (pjSkipValue (text ++ rest)) = _
      rw [Skippable.append valid follows]
      rfl

structure Document where
  object : ObjectText TopValue
  trail : Blanks

def Document.text (doc : Document) : Bytes := doc.object.text (topReader env) ++ doc.trail.1

def Document.Valid (doc : Document) : Prop := doc.object.Valid (topReader env) 64

def Document.apply (doc : Document) (policy : AkPolicy) : Option AkPolicy :=
  doc.object.apply (topReader env) 64 policy

theorem akPolicyParseJson_text (doc : Document) (valid : doc.Valid env) (policy : AkPolicy) :
    akPolicyParseJson env policy (doc.text env) = doc.apply env policy := by
  rw [akPolicyParseJson,Document.text,parseObject_text (topReader env) 64 valid,Document.apply]
  have blank : pjSkipWs doc.trail.1 = [] := by
    have skipped := pjSkipWs_blanks doc.trail [] (by rintro _ ⟨⟩)
    rwa [List.append_nil] at skipped
  cases doc.object.apply (topReader env) 64 policy with
  | none => rfl
  | some parsed => exact if_pos blank

theorem akPolicyParseJson_split {policy parsed : AkPolicy} {data : Bytes}
    (read : akPolicyParseJson env policy data = some parsed) :
    ∃ doc : Document, doc.Valid env ∧ data = doc.text env ∧ doc.apply env policy = some parsed := by
  unfold akPolicyParseJson at read
  split at read
  · cases read
  rename_i result rest scanned
  split at read
  · rename_i blank
    cases read
    obtain ⟨object,valid,rfl,applied⟩ := parseObject_split (topReader env) 64 scanned
    obtain ⟨trail,whole⟩ := pjSkipWs_split rest
    rw [blank,List.append_nil] at whole
    exact ⟨⟨object,trail⟩,valid,by rw [Document.text,← whole],applied⟩
  · cases read

end Top

end AuthorityKernel.Policy
