import AuthorityKernel.Pattern
import AuthorityKernel.Request
import AuthorityKernel.Json.Extract

/-! Policies and the policy stage of a request: budget, tool and domain rules, taint
flow. The first matching rule of a list decides. -/
namespace AuthorityKernel.Policy
open Library Budget Json

structure Rule where
  pattern : CString
  allow : Bool
deriving DecidableEq

inductive TaintRuleType
  | source
  | sink
  | sanitizer
deriving DecidableEq

structure TaintRule where
  name : CString
  type : TaintRuleType
deriving DecidableEq

structure AkPolicy where
  version : CString
  signature : Block 64
  policyHash : Block 32
  signatureVerified : Bool
  expiresMs : UInt64
  budgets : PolicyBudgets
  toolRules : List Rule
  domainRules : List Rule
  taintRules : List TaintRule
  defaultToolAllow : Bool
  defaultDomainAllow : Bool
deriving DecidableEq

def akPolicyCheckTool (policy : AkPolicy) (toolName : CString) : Bool :=
  match policy.toolRules.find? fun rule => rule.pattern == toolName || akPatternMatch rule.pattern toolName with
  | some rule => rule.allow
  | none => policy.defaultToolAllow

def akPolicyCheckDomain (policy : AkPolicy) (domain : CString) : Bool :=
  match policy.domainRules.find? fun rule => akPatternMatch rule.pattern domain with
  | some rule => rule.allow
  | none => policy.defaultDomainAllow

def skipScheme (url : Bytes) : Bytes :=
  if (ascii "http://").isPrefixOf url then url.drop 7
  else if (ascii "https://").isPrefixOf url then url.drop 8
  else url

/-- Up to the first `/` or `:`. -/
def urlDomain (url : CString) : Bytes := (skipScheme url.1).takeWhile fun byte => byte != 47 && byte != 58

def akPolicyCheckUrl (policy : AkPolicy) (url : CString) : Bool :=
  let domain := urlDomain url
  if domain.length = 0 ∨ domain.length > 256 then false
  else akPolicyCheckDomain policy (.ofBuffer domain)

def akPolicyIsSink (policy : AkPolicy) (name : CString) : Bool :=
  policy.taintRules.any fun rule => rule.type == .sink && rule.name == name

def akPolicyCheckFlow (policy : AkPolicy) (sourceTaint : Taint) (sinkName : CString) (sanitized : Bool) : Bool :=
  if sourceTaint = .trusted then true
  else if !akPolicyIsSink policy sinkName then true
  else if sourceTaint = .untrusted && !sanitized then false
  else sanitized

def presentField (field : Option Bytes) : Option CString :=
  match field with
  | some (byte :: rest) => some (.ofBuffer (byte :: rest))
  | _ => none

/-- What the budget part of the check asks for: an estimate, not what a handler commits. -/
def estimatedCost (op : Option SysOp) : Resource × UInt64 :=
  match op with
  | some .inference => (.tokens,1000)
  | some .inferIssue => (.tokens,1000)
  | some .call => (.calls,1)
  | some .alloc => (.heapObjects,1)
  | _ => (.calls,0)

def budgetAdmits (budget : Option BudgetTracker) (op : Option SysOp) : Bool :=
  match budget with
  | none => true
  | some tracker => (estimatedCost op).2 == 0 || akBudgetCheck (some tracker) (estimatedCost op).1 (estimatedCost op).2

/-- The tool and domain rules, which concern CALL only. -/
def callPermitted (policy : AkPolicy) (args : Option Bytes) : Bool :=
  match presentField (jsonGetStringField args "tool" 64) with
  | none => false
  | some tool =>
      akPolicyCheckTool policy tool &&
        match presentField (jsonGetStringField args "url" 257) with
        | some url => akPolicyCheckUrl policy url
        | none =>
            match presentField (jsonGetStringField args "domain" 257) with
            | some domain => akPolicyCheckDomain policy domain
            | none => true

def isSanitized (taint : Taint) : Bool := taint.level > Taint.trusted.level && taint.level < Taint.untrusted.level

def sinkOf (op : Option SysOp) (args : Option Bytes) : Option CString :=
  match op with
  | some .call => presentField (jsonGetStringField args "tool" 64)
  | some .inference => some (.ofBuffer (ascii "inference"))
  | some .respond => some (.ofBuffer (ascii "respond"))
  | _ => none

def flowPermitted (policy : AkPolicy) (req : AkRequest) : Bool :=
  match sinkOf (SysOp.ofCode req.op) req.args with
  | none => true
  | some sink => akPolicyCheckFlow policy req.taint sink (isSanitized req.taint)

def akPolicyEvaluate (policy : Option AkPolicy) (budget : Option BudgetTracker) (req : AkRequest) : Int :=
  match policy with
  | none => -eInval
  | some policy =>
      if !budgetAdmits budget (SysOp.ofCode req.op) then akEBudgetExceeded
      else if SysOp.ofCode req.op = some .call ∧ !callPermitted policy req.args then akEPolicyDenied
      else if !flowPermitted policy req then akETaint
      else 0

/-- The part of the check whose refusals are `AK_E_BUDGET_EXCEEDED` and
`AK_E_POLICY_DENIED`. -/
def rulesAdmit (policy : AkPolicy) (budget : Option BudgetTracker) (req : AkRequest) : Bool :=
  budgetAdmits budget (SysOp.ofCode req.op) &&
    (SysOp.ofCode req.op != some .call || callPermitted policy req.args)

variable (policy : Option AkPolicy) (budget : Option BudgetTracker) (req : AkRequest)

theorem akPolicyEvaluate_some (policy : AkPolicy) (budget : Option BudgetTracker) (req : AkRequest) :
    (rulesAdmit policy budget req = false ∧ (akPolicyEvaluate (some policy) budget req = akEBudgetExceeded ∨
        akPolicyEvaluate (some policy) budget req = akEPolicyDenied)) ∨
      (rulesAdmit policy budget req = true ∧
        akPolicyEvaluate (some policy) budget req = if flowPermitted policy req then 0 else akETaint) := by
  unfold akPolicyEvaluate rulesAdmit
  cases admits : budgetAdmits budget (SysOp.ofCode req.op) with
  | false => exact Or.inl ⟨rfl,Or.inl rfl⟩
  | true =>
    by_cases denied : SysOp.ofCode req.op = some .call ∧ (!callPermitted policy req.args) = true
    · refine Or.inl ⟨?_,Or.inr ?_⟩
      · obtain ⟨isCall,refused⟩ := denied
        simpa [isCall] using refused
      · simp only [Bool.not_true,Bool.false_eq_true,if_false,if_pos denied]
    refine Or.inr ⟨?_,?_⟩
    · rw [Bool.true_and,Bool.or_eq_true,bne_iff_ne]
      by_cases isCall : SysOp.ofCode req.op = some .call
      · exact Or.inr (by simpa [isCall] using denied)
      · exact Or.inl isCall
    · simp only [Bool.not_true,Bool.false_eq_true,if_false,if_neg denied]
      cases flowPermitted policy req <;> rfl

theorem akPolicyEvaluate_refuses_iff :
    (akPolicyEvaluate policy budget req = akEPolicyDenied ∨ akPolicyEvaluate policy budget req = akEBudgetExceeded) ↔
      ∃ rules, policy = some rules ∧ rulesAdmit rules budget req = false := by
  cases policy with
  | none => exact iff_of_false (by simp [akPolicyEvaluate,akEPolicyDenied,akEBudgetExceeded,eInval]) (by simp)
  | some rules =>
    rcases akPolicyEvaluate_some rules budget req with ⟨refused,answer⟩ | ⟨admitted,answer⟩
    · exact iff_of_true answer.symm ⟨rules,rfl,refused⟩
    · refine iff_of_false ?_ (by simp [admitted])
      rw [answer]
      split <;> decide

theorem akPolicyEvaluate_zero_iff :
    akPolicyEvaluate policy budget req = 0 ↔
      ∃ rules, policy = some rules ∧ rulesAdmit rules budget req = true ∧ flowPermitted rules req = true := by
  cases policy with
  | none => exact iff_of_false (by simp [akPolicyEvaluate,eInval]) (by simp)
  | some rules =>
    rcases akPolicyEvaluate_some rules budget req with ⟨refused,answer⟩ | ⟨admitted,answer⟩
    · refine iff_of_false ?_ (by simp [refused])
      rcases answer with exceeded | denied
      · rw [exceeded]
        decide
      · rw [denied]
        decide
    · rw [answer]
      cases flow : flowPermitted rules req with
      | false => exact iff_of_false (by decide) (by simp [flow])
      | true => exact iff_of_true rfl ⟨rules,rfl,admitted,flow⟩

end AuthorityKernel.Policy
