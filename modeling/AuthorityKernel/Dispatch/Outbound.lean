import AuthorityKernel.Dispatch.PolicyBudget
import AuthorityKernel.Policy.Url
import AuthorityKernel.Wasm.Http

/-! The hosts that requests make the kernel contact. The policy stage looks at the `url` and
`domain` members of calls only, with a scanner of its own; what is contacted is read once more
by the handler or by the network functions of the tool. -/
namespace AuthorityKernel.Dispatch
open Library Capability Budget Policy Json Wasm

def runsTool (ctx : AgentContext) (req : AkRequest) : Bool :=
  match ctx.policy, callTool req.args with
  | some policy, some toolName =>
      ctx.budget.isSome && akPolicyCheckTool policy toolName && akBudgetCheck ctx.budget .toolCalls 1
  | _, _ => false

/-- The host named in the arguments that a request contacts behind the stages. A call contacts
one through a tool that hands its arguments on to the network; the endpoint of an inference is
configured and not named in its arguments. -/
def contacts (env : HandlerEnv) (ctx : AgentContext) (req : AkRequest) : SysOp → Option CString
  | .call => if runsTool ctx req then httpHost req.args else none
  | .inferIssue =>
      let host := memberOrEmpty req.args "host" 128
      if env.issue.transport && !ctx.inferHandle && env.issue.bodyAlloc && host.1 != [] then some host else none
  | _ => none

/-- A request for the operation with these arguments contacts a host only if the policy of its
context accepts the host. -/
def HostsAccepted (op : SysOp) (args : Option Bytes) : Prop :=
  ∀ env k context request index ctx req, Live k context request index ctx req → Admissible env k ctx req →
    SysOp.ofCode req.op = some op → req.args = args →
      ∀ host ∈ contacts env.handler ctx req op,
        ∃ policy, ctx.policy = some policy ∧ akPolicyCheckDomain policy host = true

/-- The policy stage looks the host up: in the `url` member as the policy engine finds and cuts
it, or in the `domain` member where it finds no `url`. A name in which other wildcards stand
where the host has wildcards will do; an empty one is refused. -/
def LooksUp (args : Option Bytes) (host : CString) : Prop :=
  match presentField (jsonGetStringField args "url" 257) with
  | some url => urlDomain url = [] ∨ Glob.SameShape starByte anyByte (urlDomain url) host.1
  | none =>
      match presentField (jsonGetStringField args "domain" 257) with
      | some domain => Glob.SameShape starByte anyByte domain.1 host.1
      | none => False

/-- What keeps the host of a request in view of the policy stage. A call without a tool and an
inference without a model are refused. -/
def HostInView (op : SysOp) (args : Option Bytes) : Prop :=
  match op with
  | .call =>
      presentField (jsonGetStringField args "tool" 64) = none ∨ ∀ host ∈ httpHost args, LooksUp args host
  | .inferIssue =>
      presentField (akJsonExtractString args "model" akMaxResource) = none ∨ (memberOrEmpty args "host" 128).1 = []
  | _ => True

variable (policy : AkPolicy)

theorem akPolicyCheckDomain_sameShape {first second : CString}
    (shape : Glob.SameShape starByte anyByte first.1 second.1) :
    akPolicyCheckDomain policy first = akPolicyCheckDomain policy second := by
  have same : ∀ rule : Rule, akPatternMatch rule.pattern first = akPatternMatch rule.pattern second := by
    intro rule
    rw [Bool.eq_iff_iff,akPatternMatch_iff,akPatternMatch_iff]
    exact ⟨Glob.SameShape.covers _ shape,Glob.SameShape.covers _ (Glob.SameShape.symm shape)⟩
  simp only [akPolicyCheckDomain,same]

variable {host : CString} {args : Option Bytes}

theorem LooksUp.accepted {policy : AkPolicy} (looks : LooksUp args host)
    (permitted : callPermitted policy args = true) : akPolicyCheckDomain policy host = true := by
  unfold callPermitted at permitted
  unfold LooksUp at looks
  split at permitted
  · cases permitted
  rw [Bool.and_eq_true] at permitted
  replace permitted := permitted.2
  split at permitted
  · rename_i url found
    rw [found] at looks
    unfold akPolicyCheckUrl at permitted
    dsimp only at permitted
    split at permitted
    · cases permitted
    rename_i sized
    have nonempty : urlDomain url ≠ [] := fun empty => sized (Or.inl (by rw [empty]; rfl))
    have whole : (CString.ofBuffer (urlDomain url)).1 = urlDomain url := cstr_of_nul_free (domain_nul_free url)
    rw [← akPolicyCheckDomain_sameShape policy (whole ▸ looks.resolve_left nonempty)]
    exact permitted
  · rename_i missing
    rw [missing] at looks
    split at permitted
    · rename_i domain found
      rw [found] at looks
      rw [← akPolicyCheckDomain_sameShape policy looks]
      exact permitted
    · rename_i absent
      rw [absent] at looks
      exact looks.elim

theorem presentField_length {key : String} {outLen : Nat} {value : CString}
    (present : presentField (jsonGetStringField args key outLen) = some value) : value.1.length ≤ outLen - 1 := by
  unfold presentField at present
  split at present
  · rename_i byte rest found
    obtain ⟨_,whole,_,_,cut⟩ := (akJsonExtractString_eq_some _ _ _ _).mp found
    rw [← Option.some.inj present]
    refine (cstr_length_le _).trans ?_
    rw [cut,List.length_take]
    exact Nat.min_le_left _ _
  · cases present

def allowingTools (policy : AkPolicy) : AkPolicy :=
  { policy with toolRules := [⟨text "*",true⟩], budgets := policyDefaultBudgets }

theorem allowingTools_tool (tool : CString) : akPolicyCheckTool (allowingTools policy) tool = true := by
  have covered : akPatternMatch (text "*") tool = true := (akPatternMatch_iff _ _).mpr (Glob.denotes_lone_star tool.1)
  simp [akPolicyCheckTool,allowingTools,covered]

theorem allowingTools_admissible (op : SysOp) (args : Bytes) (needed : Needs op (some args))
    (permitted : op = .call ∧ callPermitted (allowingTools policy) (some args) = true ∨ op = .inferIssue) :
    Admissible plainDispatch (opened (some (allowingTools policy))) (openContext (some (allowingTools policy)))
      (askRequest op args 1) := by
  have underway : Underway (allowingTools policy) 0 (openContext (some (allowingTools policy))) :=
    CreatedUnder.underway ⟨rfl,rfl,rfl⟩
  have calls : policyDefaultBudgets.calls ≠ 0 := by decide
  have tokens : 1000 ≤ policyDefaultBudgets.tokens.toNat := by decide
  have first : ¬(1 : UInt64) ≤ 0 := by decide
  refine opened_admissible (allowingTools policy) op ⟨rfl,rfl⟩ (SysOp.ofCode_code op) first rfl needed
    (underway.admits op args 1 ?_)
  rcases permitted with ⟨call,allowed⟩ | issue
  · exact Or.inl ⟨call,calls,allowed⟩
  · exact Or.inr ⟨issue,tokens⟩

theorem exists_permitting (named : presentField (jsonGetStringField args "tool" 64) ≠ none)
    (unseen : ¬LooksUp args host) :
    ∃ policy, callPermitted (allowingTools policy) args = true ∧ akPolicyCheckDomain (allowingTools policy) host = false := by
  obtain ⟨tool,toolNamed⟩ := Option.ne_none_iff_exists'.mp named
  unfold LooksUp at unseen
  simp only [callPermitted,toolNamed,allowingTools_tool,Bool.true_and]
  cases found : presentField (jsonGetStringField args "url" 257) with
  | some url =>
    simp only [found,not_or] at unseen
    have whole : (CString.ofBuffer (urlDomain url)).1 = urlDomain url := cstr_of_nul_free (domain_nul_free url)
    obtain ⟨policy,passes,denied⟩ := exists_policy (.ofBuffer (urlDomain url)) host
      (Glob.exists_separates (by decide) _ _ (by rw [whole]; exact unseen.2))
    refine ⟨policy,?_,denied⟩
    have short : (urlDomain url).length ≤ 256 := (urlDomain_length_le url).trans (presentField_length found)
    dsimp only
    rw [akPolicyCheckUrl,if_neg (by simp [unseen.1,short])]
    exact passes
  | none =>
    simp only [found] at unseen
    cases listed : presentField (jsonGetStringField args "domain" 257) with
    | some domain =>
      simp only [listed] at unseen
      obtain ⟨policy,passes,denied⟩ := exists_policy domain host (Glob.exists_separates (by decide) _ _ unseen)
      exact ⟨policy,passes,denied⟩
    | none => exact ⟨emptyPolicy,rfl,rfl⟩

theorem call_accepted (args : Option Bytes) (view : HostInView .call args) : HostsAccepted .call args := by
  intro env k context request index ctx req live admissible known given host contacted
  subst given
  rw [contacts] at contacted
  split at contacted
  · rename_i runs
    unfold runsTool at runs
    split at runs
    · rename_i policy toolName rules named
      have admitted := admissible.rules policy rules
      rw [rulesAdmit,known,Bool.and_eq_true] at admitted
      have permitted : callPermitted policy req.args = true := by simpa using admitted.2
      refine ⟨policy,rules,?_⟩
      rcases view with unnamed | looks
      · rw [callPermitted,unnamed] at permitted
        cases permitted
      · exact (looks host contacted).accepted permitted
    · cases runs
  · cases contacted

theorem call_inView (args : Option Bytes) (accepted : HostsAccepted .call args) : HostInView .call args := by
  by_contra hidden
  simp only [HostInView,not_or,not_forall] at hidden
  obtain ⟨named,host,reached,unseen⟩ := hidden
  cases args with
  | none => exact named rfl
  | some args =>
    obtain ⟨policy,permitted,denied⟩ := exists_permitting named unseen
    have admissible := allowingTools_admissible policy .call args (callPermitted_needs _ args permitted)
      (Or.inl ⟨rfl,permitted⟩)
    have runs : runsTool (openContext (some (allowingTools policy))) (askRequest .call args 1) = true := by
      obtain ⟨tool,present⟩ := Option.ne_none_iff_exists'.mp named
      cases field : akJsonExtractString (some args) "tool" 64 with
      | none => simp [jsonGetStringField,field,presentField] at present
      | some bytes =>
        have called : callTool (askRequest .call args 1).args = some (.ofBuffer bytes) := by
          change (akJsonExtractString (some args) "tool" 64).map _ = _
          rw [field]
          rfl
        have rules : (openContext (some (allowingTools policy))).policy = some (allowingTools policy) := rfl
        simp only [runsTool,rules,called,allowingTools_tool,Bool.and_true]
        have budget : (openContext (some (allowingTools policy))).budget =
          some (akBudgetCreate (some policyDefaultBudgets)) := rfl
        rw [budget]
        decide
    obtain ⟨rules,held,passes⟩ := accepted plainDispatch (opened (some (allowingTools policy))) (some 0) _ 0 _ _
      (opened_live _ _) admissible (SysOp.ofCode_code .call) rfl host (by rw [contacts,if_pos runs]; exact reached)
    rw [← Option.some.inj held,denied] at passes
    cases passes

theorem issue_accepted (args : Option Bytes) (view : HostInView .inferIssue args) :
    HostsAccepted .inferIssue args := by
  intro env k context request index ctx req live admissible known given host contacted
  subst given
  exfalso
  rcases view with unnamed | empty
  · have refused : (authorization env k ctx req).code = akECapScope := by
      simp only [authorization,akValidateCapability,known,requirement,namedResource,unnamed]
    exact absurd (refused.symm.trans admissible.capability) (by decide)
  · simp [contacts,empty] at contacted

theorem issue_inView (args : Option Bytes) (accepted : HostsAccepted .inferIssue args) :
    HostInView .inferIssue args := by
  by_contra hidden
  simp only [HostInView,not_or] at hidden
  obtain ⟨named,nonempty⟩ := hidden
  cases args with
  | none => exact named rfl
  | some args =>
    obtain ⟨model,present⟩ := Option.ne_none_iff_exists'.mp named
    have needed : requirement (some .inferIssue) (some args) = .needs .inference model "inference" := by
      simp only [requirement,namedResource,present]
    have admissible := allowingTools_admissible emptyPolicy .inferIssue args ⟨_,_,_,needed⟩ (Or.inr rfl)
    have contacted : contacts plainDispatch.handler (openContext (some (allowingTools emptyPolicy)))
        (askRequest .inferIssue args 1) .inferIssue = some (memberOrEmpty (some args) "host" 128) := by
      refine if_pos ?_
      simp only [Bool.and_eq_true,bne_iff_ne]
      exact ⟨⟨⟨rfl,rfl⟩,rfl⟩,nonempty⟩
    obtain ⟨rules,held,passes⟩ := accepted plainDispatch (opened (some (allowingTools emptyPolicy))) (some 0) _ 0 _ _
      (opened_live _ _) admissible (SysOp.ofCode_code .inferIssue) rfl _ contacted
    rw [← Option.some.inj held] at passes
    cases passes

def noDomainDocument : Bytes := ascii "\x7b\x7d"

def issueRequest : AkRequest := askRequest .inferIssue (ascii "\x7b\"model\": \"m\", \"host\": \"evil.example\"\x7d") 1

theorem noDomainDocument_loads :
    ∃ policy, akPolicyLoad plainLoad none noDomainDocument = some policy ∧
      rulesAdmit policy (openContext (some policy)).budget issueRequest = true ∧
      akPolicyCheckDomain policy (.ofBuffer (ascii "evil.example")) = false :=
  loads_of_decide _ (by decide +kernel)

theorem issueRequest_needs :
    requirement (some .inferIssue) issueRequest.args = .needs .inference (text "m") "inference" := by
  have named : presentField (akJsonExtractString issueRequest.args "model" akMaxResource) = some (text "m") := by
    decide +kernel
  simp only [requirement,namedResource,named]

theorem issueRequest_contacts :
    contacts plainDispatch.handler (openContext (some policy)) issueRequest .inferIssue =
      some (.ofBuffer (ascii "evil.example")) := by
  have host : memberOrEmpty issueRequest.args "host" 128 = .ofBuffer (ascii "evil.example") := by decide +kernel
  rw [contacts,host]
  rfl

end AuthorityKernel.Dispatch
