import AuthorityKernel.Types
import AuthorityKernel.Library.Text
import AuthorityKernel.Library.HashChain
import AuthorityKernel.Capability.State

/-! The hash-chained audit log: entries in segments of a fixed size, anchors, the file the
log is written to and the position up to which it is durable. Allocations and storage
operations that can fail take their outcome from the environment of the call. -/
namespace AuthorityKernel.Audit
open Library Capability Crypto

structure LogEntry where
  seq : UInt64
  tsMs : UInt64
  pid : TokenId
  runId : TokenId
  op : UInt16
  reqHash : Block 32
  resHash : Block 32
  prevHash : Block 32
  thisHash : Block 32
  policyHash : Block 32
deriving DecidableEq

def akLogSegmentSize : Nat := 1000
def akLogMaxSegments : Nat := 1000
def akAnchorInterval : UInt64 := 1000

def akGenesisHash : Block 32 := Block.zero 32

structure LogSegment where
  entries : List LogEntry
  flushed : Nat
  startSeq : UInt64
  fits : entries.length ≤ akLogSegmentSize
  watermark : flushed ≤ entries.length

namespace LogSegment

def empty (startSeq : UInt64) : LogSegment := ⟨[],0,startSeq,Nat.zero_le _,Nat.le_refl _⟩

def push (segment : LogSegment) (entry : LogEntry) (room : segment.entries.length < akLogSegmentSize) :
    LogSegment where
  entries := segment.entries ++ [entry]
  flushed := segment.flushed
  startSeq := segment.startSeq
  fits := by
    rw [List.length_append]
    exact room
  watermark := by
    rw [List.length_append]
    exact Nat.le_trans segment.watermark (Nat.le_add_right _ _)

def settle (segment : LogSegment) : LogSegment where
  entries := segment.entries
  flushed := segment.entries.length
  startSeq := segment.startSeq
  fits := segment.fits
  watermark := Nat.le_refl _

def unflushed (segment : LogSegment) : List LogEntry := segment.entries.drop segment.flushed

end LogSegment

structure Anchor where
  tsMs : UInt64
  logSeq : UInt64
  logHash : Block 32

/-- The segment being filled is kept apart from the earlier ones. `file` is what the log
file holds, whether it is open or not. -/
structure AuditLog where
  earlier : List LogSegment
  current : LogSegment
  headSeq : UInt64
  headHash : Block 32
  anchors : List Anchor
  anchorCapacity : UInt32
  file : Bytes
  fileOffset : Nat
  storageEnabled : Bool
  initialized : Bool

def AuditLog.segments (log : AuditLog) : List LogSegment := log.earlier ++ [log.current]

def AuditLog.entries (log : AuditLog) : List LogEntry := log.segments.flatMap LogSegment.entries

def akAuditInit (file : Bytes) : AuditLog where
  earlier := []
  current := .empty 1
  headSeq := 0
  headHash := akGenesisHash
  anchors := []
  anchorCapacity := 100
  file := file
  fileOffset := 0
  storageEnabled := false
  initialized := true

/-- The text of an entry that its hash covers; 64-bit numbers print signed. -/
def akLogEntryCanonicalize (entry : LogEntry) : Bytes :=
  ascii "\x7b\"op\":" ++ decimalInt entry.op.toNat ++
  ascii ",\"pid\":\"" ++ hexBytes entry.pid.1 ++
  ascii "\",\"policy_hash\":\"" ++ hexBytes entry.policyHash.1 ++
  ascii "\",\"req_hash\":\"" ++ hexBytes entry.reqHash.1 ++
  ascii "\",\"res_hash\":\"" ++ hexBytes entry.resHash.1 ++
  ascii "\",\"run_id\":\"" ++ hexBytes entry.runId.1 ++
  ascii "\",\"seq\":" ++ decimalInt entry.seq.toInt64.toInt ++
  ascii ",\"ts_ms\":" ++ decimalInt entry.tsMs.toInt64.toInt ++ ascii "\x7d"

structure HashEnv where
  canonicalAlloc : Bool
  combinedAlloc : Bool
deriving DecidableEq

/-- The hash of an entry behind another; zeros when memory is missing. -/
def akAuditComputeEntryHash (env : HashEnv) (entry : LogEntry) (prevHash : Block 32) : Block 32 :=
  if !env.canonicalAlloc || !env.combinedAlloc then Block.zero 32
  else sha256 (prevHash.1 ++ akLogEntryCanonicalize entry)

def segmentWithRoom (segmentAlloc : Bool) (startSeq : UInt64) (log : AuditLog) :
    Option { log : AuditLog // log.current.entries.length < akLogSegmentSize } :=
  if room : log.current.entries.length < akLogSegmentSize then some ⟨log,room⟩
  else if akLogMaxSegments ≤ log.segments.length then none
  else if !segmentAlloc then none
  else
    some ⟨{ log with earlier := log.segments, current := .empty startSeq },show 0 < akLogSegmentSize by decide⟩

def getCurrentSegment (segmentAlloc : Bool) (log : AuditLog) :
    Option { log : AuditLog // log.current.entries.length < akLogSegmentSize } :=
  segmentWithRoom segmentAlloc (log.headSeq + 1) log

structure AnchorEnv where
  clock : UInt64
  growAlloc : Bool

def akAuditEmitAnchor (env : AnchorEnv) (log : AuditLog) : AuditLog × Int :=
  let full := log.anchorCapacity.toNat ≤ log.anchors.length
  if full ∧ (log.anchorCapacity > 0xffffffff / 2 ∨ !env.growAlloc) then (log,akELogFull)
  else
    ({ log with
        anchors := log.anchors ++ [⟨nowMs env.clock,log.headSeq,log.headHash⟩]
        anchorCapacity := if full then log.anchorCapacity * 2 else log.anchorCapacity },
      log.headSeq.toInt64.toInt)

def LogSegment.covers (segment : LogSegment) (seq : UInt64) : Bool :=
  decide (segment.startSeq ≤ seq) && decide (seq < segment.startSeq + UInt64.ofNat segment.entries.length)

def getEntryBySeq (log : AuditLog) (seq : UInt64) : Option LogEntry :=
  (log.segments.find? (·.covers seq)).bind fun segment => segment.entries[(seq - segment.startSeq).toNat]?

/-- The loop of the verification over `count` numbers from `seq`; the number of the first
wrong entry, or 0. -/
def verifyLoop (env : UInt64 → HashEnv) (log : AuditLog) (seq : UInt64) (expected : Block 32) : Nat → Int
  | 0 => 0
  | count + 1 =>
      match getEntryBySeq log seq with
      | none => seq.toInt64.toInt
      | some entry =>
          if entry.prevHash ≠ expected then seq.toInt64.toInt
          else if entry.thisHash ≠ akAuditComputeEntryHash (env seq) entry entry.prevHash then seq.toInt64.toInt
          else verifyLoop env log (seq + 1) entry.thisHash count

def akAuditVerifyRange (env : UInt64 → HashEnv) (log : AuditLog) (startSeq endSeq : UInt64) : Int :=
  let count := if startSeq ≤ endSeq then (endSeq - startSeq).toNat + 1 else 0
  if startSeq = 1 then verifyLoop env log startSeq akGenesisHash count
  else
    match getEntryBySeq log (startSeq - 1) with
    | none => akELogCorrupt
    | some prev => verifyLoop env log startSeq prev.thisHash count

def akAuditVerify (env : UInt64 → HashEnv) (log : AuditLog) : Int := akAuditVerifyRange env log 1 log.headSeq

end AuthorityKernel.Audit
