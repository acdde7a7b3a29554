import AuthorityKernel.Budget
import AuthorityKernel.Capability.Token
import Mathlib.Tactic.IntervalCases

/-! Requests and responses of the agent system calls. -/
namespace AuthorityKernel
open Library Capability Budget

inductive SysOp
  | read
  | alloc
  | write
  | delete
  | query
  | batch
  | commit
  | call
  | spawn
  | send
  | recv
  | respond
  | assert
  | inference
  | budgetStatus
  | budgetHistory
  | budgetBreakdown
  | inferIssue
  | inferPoll
deriving DecidableEq

namespace SysOp

def code : SysOp → UInt16
  | read => 1024
  | alloc => 1025
  | write => 1026
  | delete => 1027
  | query => 1028
  | batch => 1029
  | commit => 1030
  | call => 1031
  | spawn => 1032
  | send => 1033
  | recv => 1034
  | respond => 1035
  | assert => 1036
  | inference => 1037
  | budgetStatus => 1038
  | budgetHistory => 1039
  | budgetBreakdown => 1040
  | inferIssue => 1041
  | inferPoll => 1042

def all : List SysOp :=
  [read,alloc,write,delete,query,batch,commit,call,spawn,send,recv,respond,assert,inference,
    budgetStatus,budgetHistory,budgetBreakdown,inferIssue,inferPoll]

def ofCode (number : UInt16) : Option SysOp := all.find? fun op => op.code == number

@[simp] theorem ofCode_code (op : SysOp) : ofCode op.code = some op := by
  cases op <;> rfl

theorem code_of_ofCode {number : UInt16} {op : SysOp} (found : ofCode number = some op) : op.code = number := by
  have matched := List.find?_some found
  simpa using matched

theorem inRange_iff (number : UInt16) :
    (read.code ≤ number ∧ number ≤ inferPoll.code) ↔ ∃ op, ofCode number = some op := by
  constructor
  · intro range
    have low : 1024 ≤ number.toNat := UInt16.le_iff_toNat_le.mp range.1
    have high : number.toNat ≤ 1042 := UInt16.le_iff_toNat_le.mp range.2
    have known : ∃ op : SysOp, op.code.toNat = number.toNat := by
      generalize number.toNat = position at low high
      interval_cases position
      exacts [⟨read,rfl⟩,⟨alloc,rfl⟩,⟨write,rfl⟩,⟨delete,rfl⟩,⟨query,rfl⟩,⟨batch,rfl⟩,⟨commit,rfl⟩,⟨call,rfl⟩,
        ⟨spawn,rfl⟩,⟨send,rfl⟩,⟨recv,rfl⟩,⟨respond,rfl⟩,⟨assert,rfl⟩,⟨inference,rfl⟩,⟨budgetStatus,rfl⟩,
        ⟨budgetHistory,rfl⟩,⟨budgetBreakdown,rfl⟩,⟨inferIssue,rfl⟩,⟨inferPoll,rfl⟩]
    obtain ⟨op,same⟩ := known
    exact ⟨op,UInt16.toNat_inj.mp same ▸ ofCode_code op⟩
  · intro ⟨op,found⟩
    rw [← code_of_ofCode found]
    cases op <;> decide

end SysOp

inductive Taint
  | trusted
  | sanitizedUrl
  | sanitizedPath
  | sanitizedSql
  | sanitizedCmd
  | sanitizedHtml
  | untrusted
deriving DecidableEq

def Taint.level : Taint → Nat
  | trusted => 0
  | sanitizedUrl => 10
  | sanitizedPath => 11
  | sanitizedSql => 12
  | sanitizedCmd => 13
  | sanitizedHtml => 14
  | untrusted => 100

/-- `cap` is replaced by the capability that authorised the request. -/
structure AkRequest where
  pid : TokenId
  runId : TokenId
  seq : UInt64
  op : UInt16
  args : Option Bytes
  cap : Option AkCapability
  taint : Taint

inductive Status
  | ok
  | error
deriving DecidableEq

structure AkResponse where
  pid : TokenId
  runId : TokenId
  seq : UInt64
  status : Status
  errorCode : Int
  result : Option Bytes
  usage : Resource → UInt64

def response (req : Option AkRequest) (status : Status) (errorCode : Int) (result : Option Bytes) : AkResponse where
  pid := (req.map AkRequest.pid).getD (Block.zero 16)
  runId := (req.map AkRequest.runId).getD (Block.zero 16)
  seq := (req.map AkRequest.seq).getD 0
  status := status
  errorCode := errorCode
  result := result
  usage := fun _ => 0

def akResponseSuccess (alloc : Bool) (req : Option AkRequest) (result : Option Bytes) : Option AkResponse :=
  if alloc then some (response req .ok 0 result) else none

def akResponseError (alloc : Bool) (req : Option AkRequest) (errorCode : Int) : Option AkResponse :=
  if alloc then some (response req .error errorCode none) else none

end AuthorityKernel
