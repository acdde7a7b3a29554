import AuthorityKernel.Audit.Storage

/-! Reading the log back from its file: the header is checked, then record after record is
taken up to the first one that is incomplete, damaged or out of the chain. -/
namespace AuthorityKernel.Audit
open Library Capability

structure RecordEnv where
  headerRead : Bool
  entryAlloc : Bool
  entryRead : Bool
  hash : HashEnv
  segmentAlloc : Bool

structure LoadEnv where
  opened : Bool
  headerRead : Bool
  record : Nat → RecordEnv

def entryOfBytes (data : Bytes) : LogEntry where
  seq := u64OfBytes (slice data 0 8)
  tsMs := u64OfBytes (slice data 8 8)
  pid := blockAt data 16 16
  runId := blockAt data 32 16
  op := UInt16.ofNat (fieldAt data 48 2)
  reqHash := blockAt data 50 32
  resHash := blockAt data 82 32
  prevHash := blockAt data 114 32
  thisHash := blockAt data 146 32
  policyHash := blockAt data 178 32

structure LoadState where
  log : AuditLog
  lastHash : Block 32
  lastSeq : UInt64
  offset : Nat

inductive LoadStep
  | done
  | corrupt
  | next (state : LoadState)

def headerAccepted (fileSize offset : Nat) (header : Bytes) : Bool :=
  let length := fieldAt header 4 4
  fieldAt header 0 4 == akAuditEntryMagic && entryHeaderSize + entrySize ≤ length && offset + length ≤ fileSize &&
    length - entryHeaderSize == entrySize

def entryAccepted (env : HashEnv) (header data : Bytes) (lastHash : Block 32) : Bool :=
  let entry := entryOfBytes data
  (akAuditCrc32 data).toNat == fieldAt header 16 4 && entry.prevHash == lastHash &&
    entry.thisHash == akAuditComputeEntryHash env entry entry.prevHash

def loadRecord (env : RecordEnv) (fileSize : Nat) (state : LoadState) : LoadStep :=
  let header := slice state.log.file state.offset entryHeaderSize
  let data := slice state.log.file (state.offset + entryHeaderSize) entrySize
  if fileSize < state.offset + entryHeaderSize || !env.headerRead then .done
  else if !headerAccepted fileSize state.offset header then .done
  else if !env.entryAlloc then .corrupt
  else if !env.entryRead || !entryAccepted env.hash header data state.lastHash then .done
  else
    let entry := entryOfBytes data
    match segmentWithRoom env.segmentAlloc entry.seq state.log with
    | none => .done
    | some ⟨log,room⟩ =>
        -- The entry is durable already.
        .next ⟨{ log with current := (log.current.push entry room).settle },entry.thisHash,entry.seq,
          state.offset + fieldAt header 4 4⟩

/-- The rounds of the loop, and whether it came to its end. -/
def loadRecords (env : Nat → RecordEnv) (fileSize : Nat) : Nat → Nat → LoadState → LoadState × Bool
  | 0, _, state => (state,true)
  | fuel + 1, place, state =>
      match loadRecord (env place) fileSize state with
      | .done => (state,true)
      | .corrupt => (state,false)
      | .next following => loadRecords env fileSize fuel (place + 1) following

def AuditLog.resetFirst (log : AuditLog) : AuditLog :=
  match log.earlier with
  | [] => { log with current := .empty 1 }
  | _ :: rest => { log with earlier := .empty 1 :: rest }

def LoadState.installed (state : LoadState) : AuditLog :=
  { state.log with headSeq := state.lastSeq, headHash := state.lastHash, fileOffset := state.offset }

def loadFile (env : LoadEnv) (log : AuditLog) : AuditLog × Int :=
  let header := slice log.file 0 fileHeaderSize
  if !env.headerRead then (log,akELogCorrupt)
  -- A file of another format is written over from its start.
  else if fieldAt header 0 4 ≠ akAuditMagic then ({ log with fileOffset := 0 },0)
  else if fieldAt header 4 4 ≠ akAuditVersion then (log,akELogCorrupt)
  else if (akAuditCrc32 (slice header 0 64)).toNat ≠ fieldAt header 64 4 then (log,akELogCorrupt)
  else
    let (state,ended) :=
      loadRecords env.record log.fileOffset log.fileOffset 0 ⟨log.resetFirst,akGenesisHash,0,fileHeaderSize⟩
    if ended then (state.installed,0) else (state.log,akELogCorrupt)

def akAuditLoad (env : LoadEnv) (log : AuditLog) : AuditLog × Int :=
  let (log,code) := if log.storageEnabled then (log,0) else akAuditOpenStorage env.opened log
  if code < 0 then (log,0)
  else if log.fileOffset = 0 then (log,0)
  else loadFile env log

theorem loadFile_accepted {env : LoadEnv} {log : AuditLog} {final : LoadState} (readable : env.headerRead = true)
    (magic : fieldAt (slice log.file 0 fileHeaderSize) 0 4 = akAuditMagic)
    (version : fieldAt (slice log.file 0 fileHeaderSize) 4 4 = akAuditVersion)
    (crc : (akAuditCrc32 (slice (slice log.file 0 fileHeaderSize) 0 64)).toNat =
      fieldAt (slice log.file 0 fileHeaderSize) 64 4)
    (scanned : loadRecords env.record log.fileOffset log.fileOffset 0
      ⟨log.resetFirst,akGenesisHash,0,fileHeaderSize⟩ = (final,true)) :
    loadFile env log = (final.installed,0) := by
  simp [loadFile,readable,magic,version,crc,scanned]

theorem headerAccepted_length (fileSize offset : Nat) (header : Bytes)
    (accepted : headerAccepted fileSize offset header = true) : fieldAt header 4 4 = akAuditEntryDiskSize := by
  simp only [headerAccepted,Bool.and_eq_true,decide_eq_true_eq,beq_iff_eq] at accepted
  obtain ⟨⟨⟨-,long⟩,-⟩,exact⟩ := accepted
  rw [akAuditEntryDiskSize]
  omega

@[simp] theorem entryBytes_length (entry : LogEntry) : (entryBytes entry).length = entrySize := by
  have sizes : ∀ {n : Nat} (block : Block n), block.1.length = n := fun block => block.2
  simp [entryBytes,entrySize,sizes]

theorem entryOfBytes_entryBytes (entry : LogEntry) : entryOfBytes (entryBytes entry) = entry := by
  have sizes : ∀ {n : Nat} (block : Block n), block.1.length = n := fun block => block.2
  simp [entryOfBytes,entryBytes,slice_skip,slice_head,fieldAt_skip,fieldAt_head,blockAt_skip,blockAt_head,sizes]

end AuthorityKernel.Audit
