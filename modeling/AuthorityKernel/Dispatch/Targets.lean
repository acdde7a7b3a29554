import AuthorityKernel.Dispatch.Gate

/-! What was authorised and what is acted on. The capability stage and the handlers read the
target of a request out of its arguments separately, into buffers of different sizes, and a
batch is authorised once for all the objects it names. -/
namespace AuthorityKernel.Dispatch
open Library Capability Policy Heap Json

section Stage
variable (env : DispatchEnv) (k : Kernel) (ctx : AgentContext) (req : AkRequest)

structure Matched (cap : AkCapability) (string : CString) : Prop where
  named : ∃ type method, requirement (SysOp.ofCode req.op) req.args = .needs type string method
  effective : (authorization env k ctx req).cap = some cap
  covers : Covers (cstr cap.resource) string.1

end Stage

def guardedOps : List SysOp := [.read,.write,.delete,.call,.send,.inference,.batch]

variable {env : DispatchEnv} {k : Kernel} {ctx : AgentContext} {req : AkRequest}

theorem requirement_guarded (op : SysOp) (args : Option Bytes) (guarded : op ∈ guardedOps) :
    requirement (some op) args ≠ .exempt := by
  intro exempt
  rcases requirement_exempt exempt with rfl | rfl | rfl | rfl
  all_goals simp [guardedOps] at guarded

theorem Admissible.matched (admissible : Admissible env k ctx req) (op : SysOp)
    (known : SysOp.ofCode req.op = some op) (guarded : op ∈ guardedOps) :
    ∃ cap string, Matched env k ctx req cap string := by
  have granted := admissible.capability
  unfold authorization akValidateCapability at granted
  cases needed : requirement (SysOp.ofCode req.op) req.args with
  | exempt => exact absurd (known ▸ needed) (requirement_guarded op req.args guarded)
  | refused => simp [needed,akECapScope] at granted
  | needs type string method =>
    simp only [needed] at granted
    obtain ⟨cap,check,s,effective,valid,_⟩ := authorize_granted granted
    rw [akCapabilityValidate_eq_zero_iff] at valid
    refine ⟨cap,string,⟨type,method,needed⟩,?_,valid.2.2.1.2.1⟩
    simp only [authorization,akValidateCapability,needed]
    exact effective

def namedTarget (args : Option Bytes) (key : String) : Bytes := cstr ((args.bind (stringValue key)).getD [])

variable {cap : AkCapability} {bytes : Bytes} {string : CString} {outLen : Nat} {args : Option Bytes} {key : String}

theorem akJsonExtractString_cut (found : akJsonExtractString args key outLen = some bytes) :
    cstr bytes = (namedTarget args key).take (outLen - 1) := by
  obtain ⟨json,value,rfl,named,rfl⟩ := (akJsonExtractString_eq_some args key outLen bytes).mp found
  rw [cstr_take,namedTarget,Option.bind_some,named,Option.getD_some]

theorem akJsonExtractString_resized {outLen' : Nat} (found : akJsonExtractString args key outLen = some bytes)
    (room : 1 < outLen') (nonempty : bytes ≠ []) :
    ∃ bytes', akJsonExtractString args key outLen' = some bytes' ∧ bytes' ≠ [] := by
  obtain ⟨json,value,rfl,named,rfl⟩ := (akJsonExtractString_eq_some args key outLen bytes).mp found
  refine ⟨value.take (outLen' - 1),by simp [akJsonExtractString,named],?_⟩
  cases value with
  | nil => simp at nonempty
  | cons byte rest =>
    intro empty
    rw [List.take_eq_nil_iff] at empty
    rcases empty with zero | none
    · omega
    · simp at none

theorem presentField_some (field : Option Bytes) (string : CString) (present : presentField field = some string) :
    ∃ bytes, field = some bytes ∧ bytes ≠ [] ∧ string = .ofBuffer bytes := by
  unfold presentField at present
  split at present
  · rename_i byte rest
    cases present
    exact ⟨byte :: rest,rfl,by simp,rfl⟩
  · simp at present

theorem namedResource_needs {type type' : CapType} {method method' : String}
    (needed : namedResource type args key method = .needs type' string method') :
    string.1 = (namedTarget args key).take 79 ∧
      ∀ outLen, 1 < outLen → ∃ bytes, akJsonExtractString args key outLen = some bytes ∧ bytes ≠ [] := by
  unfold namedResource at needed
  split at needed
  · simp at needed
  rename_i resource present
  obtain ⟨bytes,found,nonempty,rfl⟩ := presentField_some _ _ present
  cases needed
  exact ⟨akJsonExtractString_cut found,fun outLen room =>
    akJsonExtractString_resized found room nonempty⟩

theorem callTool_eq (found : akJsonExtractString args "tool" 64 = some bytes) :
    ∃ tool, callTool args = some tool ∧ tool.1 = (namedTarget args "tool").take 63 :=
  ⟨.ofBuffer bytes,by simp [callTool,found],akJsonExtractString_cut found⟩

theorem inferenceModel_eq (found : akJsonExtractString args "model" 64 = some bytes) :
    (inferenceModel args).1 = (namedTarget args "model").take 63 := by
  rw [← akJsonExtractString_cut found]
  simp [inferenceModel,memberOrEmpty,jsonExtractString,found,CString.ofBuffer]

theorem sendRecipient_eq (stack : TokenId) (found : akJsonExtractString args "to" 33 = some bytes)
    (nonempty : bytes ≠ []) :
    ∃ hex : CString, sendRecipient stack args = akHexDecode hex stack ∧ hex.1 = (namedTarget args "to").take 32 := by
  refine ⟨.ofBuffer bytes,?_,akJsonExtractString_cut found⟩
  cases bytes with
  | nil => contradiction
  | cons byte rest => simp [sendRecipient,found,presentField]

theorem cuts_agree_iff (target : Bytes) : target.take 63 = target.take 79 ↔ target.length ≤ 63 := by
  constructor
  · intro same
    have lengths := congrArg List.length same
    rw [List.length_take,List.length_take] at lengths
    omega
  · intro short
    rw [List.take_of_length_le short,List.take_of_length_le (by omega)]

theorem decodedPairs_of_unhex (text bytes : Bytes) (read : unhexBytes text = some bytes) : decodedPairs text = bytes := by
  fun_induction unhexBytes text generalizing bytes with
  | case1 => cases read; rfl
  | case2 | case4 => contradiction
  | case3 high low rest byte bytes' tail pair ih =>
    cases read
    rw [decodedPairs,pair]
    simp only [ih bytes' tail]

theorem akHexDecode_whole (hex : CString) (stack : TokenId) (bytes : Bytes) (whole : hex.1.length = 32)
    (read : unhexBytes hex.1 = some bytes) : (akHexDecode hex stack).1 = bytes := by
  have length := unhexBytes_length hex.1 bytes read
  have fits : ¬(hex.1.length % 2 ≠ 0 ∨ hex.1.length / 2 > 16) := by omega
  have decoded : (akHexDecode hex stack).1 = (decodedPairs hex.1 ++ stack.1.drop (decodedPairs hex.1).length).take 16 :=
    congrArg Subtype.val (if_neg fits)
  rw [decoded,decodedPairs_of_unhex hex.1 bytes read,List.take_append_of_le_length (by omega),
    List.take_of_length_le (by omega)]

section Handler
variable (env : HandlerEnv) (heap : HeapState) (ctx : AgentContext) (req : AkRequest)

def committedOps : List TxnOp :=
  match req.args.bind opsArray, akHeapTxnBegin env.batch.txnAlloc heap with
  | some ops, some txn =>
      if !env.batch.resultsAlloc then []
      else
        match batchLoop env.batch.queue ctx.runId req.taint heap ops 0 txn [] maxOps with
        | .error _ => []
        | .ok queued => if (akHeapTxnCommit env.batch.apply queued.1 heap).2 ≠ 0 then [] else queued.1.ops
  | _, _ => []

end Handler

section Targets
variable (env : DispatchEnv) (k : Kernel) (ctx : AgentContext) (req : AkRequest)

/-- What the handler acts on is what was matched. A message goes to an id, so there the
matched string must be that id in hex. -/
def ActsOn (cap : AkCapability) (string : CString) : SysOp → Prop
  | .read => string.1 = akU64ToDec (akJsonExtractU64 req.args "ptr")
  | .write => string.1 = akU64ToDec (akJsonExtractU64 req.args "ptr")
  | .delete => string.1 = akU64ToDec (akJsonExtractU64 req.args "ptr")
  | .call => callTool req.args = some string
  | .send => unhexBytes string.1 = some (sendRecipient env.handler.send.stack req.args).1
  | .inference => inferenceModel req.args = string
  | .batch => ∀ op ∈ committedOps env.handler k.heap ctx req, ∀ ptr, op.target = some ptr →
      Covers (cstr cap.resource) (akU64ToDec ptr)
  | _ => True

def ActsAsAuthorized (op : SysOp) : Prop :=
  ∃ cap string, Matched env k ctx req cap string ∧ ActsOn env k ctx req cap string op

/-- Tool and model names that fit the shorter buffer, recipients that are whole ids, and
batches under a pattern other than a lone `?`. -/
def Precise : SysOp → Prop
  | .call => (namedTarget req.args "tool").length ≤ 63
  | .inference => (namedTarget req.args "model").length ≤ 63
  | .send => (namedTarget req.args "to").length = 32 ∧ (unhexBytes (namedTarget req.args "to")).isSome = true
  | .batch => ∀ cap, (authorization env k ctx req).cap = some cap → cstr cap.resource = [anyByte] →
      ∀ op ∈ committedOps env.handler k.heap ctx req, ∀ ptr, op.target = some ptr → ptr < 10
  | _ => True

end Targets

theorem akDispatch_ran_admissible {context : Option Nat} {request : Option AkRequest} {index : Nat}
    (live : Live k context request index ctx req) (op : SysOp) (ran : (akDispatch env k context request).ran = some op) :
    Admissible env k ctx req ∧ SysOp.ofCode req.op = some op := by
  rw [akDispatch_ran live] at ran
  by_cases admissible : Admissible env k ctx req
  · obtain ⟨op',known,same⟩ := @executed_admitted env k index ctx req admissible
    rw [ran] at same
    exact ⟨admissible,same ▸ known⟩
  · have idle := (@executed_refused env k index ctx req live.found admissible).1
    rw [idle] at ran
    contradiction

theorem Matched.unique {cap' : AkCapability} {string' : CString} (first : Matched env k ctx req cap string)
    (second : Matched env k ctx req cap' string') : cap' = cap ∧ string' = string := by
  obtain ⟨type,method,needed⟩ := first.named
  obtain ⟨type',method',needed'⟩ := second.named
  rw [needed] at needed'
  cases needed'
  exact ⟨Option.some.inj (second.effective.symm.trans first.effective),rfl⟩

theorem precise_tool
    (needed : ∃ type method, namedResource .tool req.args "tool" "invoke" = .needs type string method) :
    callTool req.args = some string ↔ (namedTarget req.args "tool").length ≤ 63 := by
  obtain ⟨type,method,named⟩ := needed
  obtain ⟨cut,resized⟩ := namedResource_needs named
  obtain ⟨bytes,found,_⟩ := resized 64 (by decide)
  obtain ⟨tool,called,text⟩ := callTool_eq found
  rw [called,Option.some.injEq,← cuts_agree_iff,← text,← cut,Subtype.ext_iff]

theorem precise_model
    (needed : ∃ type method, namedResource .inference req.args "model" "inference" = .needs type string method) :
    inferenceModel req.args = string ↔ (namedTarget req.args "model").length ≤ 63 := by
  obtain ⟨type,method,named⟩ := needed
  obtain ⟨cut,resized⟩ := namedResource_needs named
  obtain ⟨bytes,found,_⟩ := resized 64 (by decide)
  rw [← cuts_agree_iff,← inferenceModel_eq found,← cut,Subtype.ext_iff]

theorem precise_recipient (stack : TokenId)
    (needed : ∃ type method, namedResource .ipc req.args "to" (akOpToString (some .send)) = .needs type string method) :
    unhexBytes string.1 = some (sendRecipient stack req.args).1 ↔
      (namedTarget req.args "to").length = 32 ∧ (unhexBytes (namedTarget req.args "to")).isSome = true := by
  obtain ⟨type,method,named⟩ := needed
  obtain ⟨cut,resized⟩ := namedResource_needs named
  obtain ⟨bytes,found,nonempty⟩ := resized 33 (by decide)
  obtain ⟨hex,decoded,prefixed⟩ := sendRecipient_eq stack found nonempty
  rw [cut,decoded]
  constructor
  · intro read
    have length := unhexBytes_length _ _ read
    rw [(akHexDecode hex stack).2,List.length_take] at length
    have whole : (namedTarget req.args "to").length = 32 := by omega
    rw [List.take_of_length_le (by omega)] at read
    exact ⟨whole,by rw [read]; rfl⟩
  · rintro ⟨whole,readable⟩
    obtain ⟨id,read⟩ := Option.isSome_iff_exists.mp readable
    rw [List.take_of_length_le (by omega)] at prefixed ⊢
    rw [← prefixed] at read whole ⊢
    rw [read,akHexDecode_whole hex stack id whole read]

theorem covers_pointers_iff {pattern : Bytes} (covers : Covers pattern [starByte]) (ptrs : UInt64 → Prop) :
    (∀ ptr, ptrs ptr → Covers pattern (akU64ToDec ptr)) ↔ (pattern = [anyByte] → ∀ ptr, ptrs ptr → ptr < 10) := by
  have single : ∀ ptr : UInt64, Covers [anyByte] (akU64ToDec ptr) ↔ ptr < 10 := by
    intro ptr
    rw [Covers,Glob.denotes_lone_any (by decide),akU64ToDec,decimalNat_length_one_iff,UInt64.lt_iff_toNat_lt]
    rfl
  constructor
  · rintro all rfl ptr member
    exact (single ptr).mp (all ptr member)
  · intro few ptr member
    rcases Glob.denotes_nonempty_of_star (by decide) covers with lone | every
    · rw [lone]
      exact (single ptr).mpr (few lone ptr member)
    · exact every _ (decimalNat_ne_nil ptr.toNat)

theorem precise_batch (matched : Matched env k ctx req cap string) (known : SysOp.ofCode req.op = some .batch) :
    ActsOn env k ctx req cap string .batch ↔ Precise env k ctx req .batch := by
  obtain ⟨type,method,needed⟩ := matched.named
  rw [known] at needed
  cases needed
  have pointers := covers_pointers_iff matched.covers fun ptr =>
    ∃ op ∈ committedOps env.handler k.heap ctx req, op.target = some ptr
  constructor
  · intro acts other effective lone op member ptr target
    cases Option.some.inj (effective.symm.trans matched.effective)
    exact pointers.mp (fun ptr ⟨op,member,target⟩ => acts op member ptr target) lone ptr ⟨op,member,target⟩
  · intro precise op member ptr target
    refine pointers.mpr ?_ ptr ⟨op,member,target⟩
    rintro lone ptr ⟨op,member,target⟩
    exact precise cap matched.effective lone op member ptr target

theorem actsOn_iff (matched : Matched env k ctx req cap string) (op : SysOp)
    (known : SysOp.ofCode req.op = some op) (guarded : op ∈ guardedOps) :
    ActsOn env k ctx req cap string op ↔ Precise env k ctx req op := by
  obtain ⟨type,method,needed⟩ := matched.named
  have pointer : ∀ ptr : UInt64, cstr (akU64ToDec ptr) = akU64ToDec ptr := by
    intro ptr
    apply cstr_of_nul_free
    intro member
    have digit := decimalNat_digit member
    exact absurd digit.1 (by decide)
  rw [known] at needed
  simp only [guardedOps,List.mem_cons,List.not_mem_nil,or_false] at guarded
  rcases guarded with rfl | rfl | rfl | rfl | rfl | rfl | rfl
  · cases needed
    exact iff_of_true (pointer _) trivial
  · cases needed
    exact iff_of_true (pointer _) trivial
  · cases needed
    exact iff_of_true (pointer _) trivial
  · exact precise_tool ⟨type,method,needed⟩
  · exact precise_recipient _ ⟨type,method,needed⟩
  · exact precise_model ⟨type,method,needed⟩
  · exact precise_batch matched known

def anyToolDocument : Bytes := ascii "\x7b\"tools\": \x7b\"allow\": [\"*\"]\x7d\x7d"

def toolCall (name : String) : AkRequest :=
  ⟨Block.zero 16,Block.zero 16,1,SysOp.call.code,some (ascii "\x7b\"tool\": \"" ++ ascii name ++ ascii "\" \x7d"),none,
    .trusted⟩

def shortName : String := "fetch"

def longName : String := "aaaaaaaaaaaaaaaaaaaaaaaaaaaaaaaaaaaaaaaaaaaaaaaaaaaaaaaaaaaaaaaaaaaaaa"

theorem anyToolDocument_loads :
    ∃ policy, akPolicyLoad plainLoad none anyToolDocument = some policy ∧
      rulesAdmit policy (openContext (some policy)).budget (toolCall shortName) = true ∧
      rulesAdmit policy (openContext (some policy)).budget (toolCall longName) = true :=
  loads_of_decide _ (by decide +kernel)

theorem short_of_acts (known : SysOp.ofCode req.op = some .call) (acts : ActsAsAuthorized env k ctx req .call) :
    (namedTarget req.args "tool").length ≤ 63 := by
  obtain ⟨cap,string,matched,same⟩ := acts
  obtain ⟨type,method,needed⟩ := matched.named
  rw [known] at needed
  exact (precise_tool ⟨type,method,needed⟩).mp same

theorem toolCall_ran {name : String} {policy : AkPolicy} {resource : CString}
    (named : presentField (akJsonExtractString (toolCall name).args "tool" akMaxResource) = some resource)
    (admitted : rulesAdmit policy (openContext (some policy)).budget (toolCall name) = true) :
    (akDispatch plainDispatch (opened (some policy)) (some 0) (some (toolCall name))).ran = some .call := by
  have needed : requirement (some .call) (toolCall name).args = .needs .tool resource "invoke" := by
    simp only [requirement,namedResource,named]
  have known : SysOp.ofCode (toolCall name).op = some .call := SysOp.ofCode_code .call
  have admissible := opened_admissible policy .call ⟨rfl,rfl⟩ known (show ¬(1 : UInt64) ≤ 0 by decide) rfl
    ⟨_,_,_,needed⟩ admitted
  obtain ⟨op,same,ran⟩ := @executed_admitted _ _ 0 _ _ admissible
  rw [akDispatch_ran (opened_live (some policy) (toolCall name)),ran,← same]
  exact known

end AuthorityKernel.Dispatch
