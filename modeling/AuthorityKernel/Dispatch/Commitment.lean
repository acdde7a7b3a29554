import AuthorityKernel.Audit.Durability
import AuthorityKernel.Dispatch.Gate

/-! The log commitment: no answer before its record is durable. The dispatcher appends a
record of every request it looked at, and the append syncs the log; neither looks at what
became of the step below it. -/
namespace AuthorityKernel.Dispatch
open Library Audit Policy

structure LoggedOutcome where
  outcome : Outcome
  log : AuditLog
  appended : Option Int

/-- A dispatch together with the log its record goes to. `log` is the state of the log when
the handler is done; handlers that log for themselves have done so. -/
def akDispatchLogged (env : DispatchEnv) (append : AppendEnv) (log : AuditLog) (k : Kernel) (context : Option Nat)
    (req : Option AkRequest) : LoggedOutcome :=
  if !k.initialized then ⟨akDispatch env k context req,log,none⟩
  else
    match context.bind (fun index => k.contexts[index]?.map (index,·)), req with
    | some (index,ctx), some req =>
        let outcome := executed env k index ctx req
        let record : LogRecord := {
          pid := ctx.pid, runId := ctx.runId, op := req.op, reqHash := hashOf req.args
          resHash := hashOf (outcome.response.bind AkResponse.result)
          policyHash := (ctx.policy.map AkPolicy.policyHash).getD env.policyStack }
        let written := Audit.akAuditAppend append record log
        ⟨akDispatch { env with appended := decide (0 < written.2) } k context (some req),written.1,some written.2⟩
    | _, _ => ⟨akDispatch env k context req,log,none⟩

theorem akDispatchLogged_response (env : DispatchEnv) (append : AppendEnv) (log : AuditLog) (k : Kernel)
    (context : Option Nat) (req : Option AkRequest) :
    (akDispatchLogged env append log k context req).outcome.response = (akDispatch env k context req).response := by
  unfold akDispatchLogged
  split
  · rfl
  split
  · rename_i ready _ _ index ctx req' found
    unfold akDispatch
    simp only [found]
    split <;> rfl
  · rfl

/-- With storage enabled, an append that returns a number has made its entry durable, and a
request is answered with success only after such an append. -/
structure Committed (append : AppendEnv) (log : AuditLog) : Prop where
  numbered : ∀ record, 0 < (Audit.akAuditAppend append record log).2 →
    NewestDurable (Audit.akAuditAppend append record log).1 (newEntry append record log)
  answered : ∀ env k context req answer,
    (akDispatchLogged env append log k context req).outcome.response = some answer → answer.status = .ok →
      ∃ code entry, (akDispatchLogged env append log k context req).appended = some code ∧ 0 < code ∧
        NewestDurable (akDispatchLogged env append log k context req).log entry

def NumberPositive (log : AuditLog) : Prop := 0 < (log.headSeq + 1).toInt64.toInt

variable {env : DispatchEnv} {append : AppendEnv} {log : AuditLog} {k : Kernel} {context : Option Nat}
  {request : Option AkRequest}

theorem akDispatchLogged_live (env : DispatchEnv) (append : AppendEnv) (log : AuditLog) {index : Nat} {ctx : AgentContext} {req : AkRequest}
    (live : Live k context request index ctx req) :
    ∃ record, (akDispatchLogged env append log k context request).appended =
        some (Audit.akAuditAppend append record log).2 ∧
      (akDispatchLogged env append log k context request).log = (Audit.akAuditAppend append record log).1 := by
  obtain ⟨ready,rfl,found,rfl⟩ := live
  unfold akDispatchLogged
  simp only [ready,Bool.not_true,Bool.false_eq_true,if_false,Option.bind_some,found,Option.map_some]
  exact ⟨_,rfl,rfl⟩

theorem answered_live {answer : AkResponse}
    (answered : (akDispatchLogged env append log k context request).outcome.response = some answer)
    (ok : answer.status = .ok) : ∃ index ctx req, Live k context request index ctx req := by
  by_contra dead
  rw [akDispatchLogged_response,akDispatch_dead dead,akResponseError] at answered
  split at answered
  · cases answered
    simp [response] at ok
  · simp at answered

theorem committed_of_works (enabled : log.storageEnabled = true)
    (available : SegmentAvailable append.segmentAlloc log) (works : SyncWorks append.sync log)
    (positive : NumberPositive log) : Committed append log where
  numbered := fun record _ => akAuditAppend_durable append record log enabled available works
  answered := by
    intro env k context request answer answered ok
    obtain ⟨index,ctx,req,live⟩ := answered_live answered ok
    obtain ⟨record,code,after⟩ := akDispatchLogged_live env append log live
    refine ⟨_,newEntry append record log,code,?_,?_⟩
    · rw [(akAuditAppend_grown record available).2]
      exact positive
    · rw [after]
      exact akAuditAppend_durable append record log enabled available works

def statusRequest : AkRequest :=
  ⟨Block.zero 16,Block.zero 16,1,SysOp.budgetStatus.code,none,none,.trusted⟩

theorem statusRequest_answered (append : AppendEnv) (log : AuditLog) :
    ∃ answer, (akDispatchLogged plainDispatch append log (opened none) (some 0) (some statusRequest)).outcome.response =
        some answer ∧ answer.status = .ok := by
  have ok : (akDispatch plainDispatch (opened none) (some 0) (some statusRequest)).response.any
      (·.status = .ok) = true := by decide +kernel
  obtain ⟨answer,answered,status⟩ := (Option.any_eq_true _ _).mp ok
  exact ⟨answer,by rw [akDispatchLogged_response,answered],of_decide_eq_true status⟩

theorem works_of_committed (enabled : log.storageEnabled = true) (committed : Committed append log) :
    SegmentAvailable append.segmentAlloc log ∧ SyncWorks append.sync log ∧ NumberPositive log := by
  obtain ⟨answer,answered,ok⟩ := statusRequest_answered append log
  obtain ⟨code,entry,returned,positive,durable⟩ := committed.answered _ _ _ _ answer answered ok
  obtain ⟨record,recorded,after⟩ := akDispatchLogged_live plainDispatch append log
    (opened_live none statusRequest)
  rw [recorded,Option.some.injEq] at returned
  rw [← returned] at positive
  rw [after] at durable
  have available : SegmentAvailable append.segmentAlloc log := by
    by_contra full
    rw [akAuditAppend_full record full] at positive
    exact absurd positive (show ¬0 < akELogFull by decide)
  refine ⟨available,works_of_durable append record log enabled available entry durable,?_⟩
  rw [(akAuditAppend_grown record available).2] at positive
  exact positive

/-- The log commitment holds exactly for appends that find a segment and whose sync works. -/
theorem commitment_kept_iff (append : AppendEnv) (log : AuditLog) :
    (log.storageEnabled = true → Committed append log) ↔
      (log.storageEnabled = true →
        SegmentAvailable append.segmentAlloc log ∧ SyncWorks append.sync log ∧ NumberPositive log) := by
  constructor
  · intro committed enabled
    exact works_of_committed enabled (committed enabled)
  · intro works enabled
    obtain ⟨available,synced,positive⟩ := works enabled
    exact committed_of_works enabled available synced positive

def openLog : AuditLog := (akAuditOpenStorage true (akAuditInit [])).1

def lostAppend : AppendEnv := { appendWith computes with sync := ⟨true,fun _ => true,false,true,true,fun _ => 0⟩ }

/-- The entry has a number and the request its answer; the file is as empty as before. -/
theorem unwritten_record_answered :
    openLog.storageEnabled = true ∧ ¬Committed lostAppend openLog ∧
      (Audit.akAuditAppend lostAppend blankRecord openLog).2 = 1 ∧
      (Audit.akAuditAppend lostAppend blankRecord openLog).1.file = [] ∧
      (∃ answer, (akDispatchLogged plainDispatch lostAppend openLog (opened none) (some 0)
        (some statusRequest)).outcome.response = some answer ∧ answer.status = .ok) ∧
      (akDispatchLogged plainDispatch lostAppend openLog (opened none) (some 0) (some statusRequest)).log.file = [] := by
  have unwritten : ∀ record, (Audit.akAuditAppend lostAppend record openLog).1.file = [] := by
    intro record
    rfl
  refine ⟨rfl,fun committed => ?_,rfl,unwritten _,statusRequest_answered lostAppend openLog,?_⟩
  · exact absurd (works_of_committed rfl committed).2.1.written (by decide)
  · obtain ⟨record,-,after⟩ := akDispatchLogged_live plainDispatch lostAppend openLog
      (opened_live none statusRequest)
    rw [after]
    exact unwritten record

end AuthorityKernel.Dispatch
