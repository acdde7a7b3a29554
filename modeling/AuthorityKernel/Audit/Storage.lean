import AuthorityKernel.Library.TornWrite
import AuthorityKernel.Audit.Log

/-! The log on disk. The entries not yet durable are written as one contiguous batch behind
the durable ones, and the watermarks move only after the flush; a batch that fails leaves
some of its bytes in the file and is written again at the same place. -/
namespace AuthorityKernel.Audit
open Library Capability

def akAuditMagic : Nat := 0x414b4c47
def akAuditVersion : Nat := 1
def akAuditEntryMagic : Nat := 0x414b4c45

def fileHeaderSize : Nat := 72

def entryHeaderSize : Nat := 24

def entrySize : Nat := 216

def akAuditEntryDiskSize : Nat := entryHeaderSize + entrySize

def crc32Bit (crc : UInt32) : UInt32 := (crc >>> 1) ^^^ (0xedb88320 &&& (0 - (crc &&& 1)))

def crc32Byte (crc : UInt32) (byte : UInt8) : UInt32 := crc32Bit^[8] (crc ^^^ byte.toUInt32)

@[irreducible] def akAuditCrc32 (data : Bytes) : UInt32 := ~~~(data.foldl crc32Byte 0xffffffff)

def entryBytes (entry : LogEntry) : Bytes :=
  u64Bytes entry.seq ++ u64Bytes entry.tsMs ++ entry.pid.1 ++ entry.runId.1 ++ leBytes 2 entry.op.toNat ++
  entry.reqHash.1 ++ entry.resHash.1 ++ entry.prevHash.1 ++ entry.thisHash.1 ++ entry.policyHash.1 ++
  List.replicate 6 0

def akAuditSerializeEntry (entry : LogEntry) : Bytes :=
  leBytes 4 akAuditEntryMagic ++ leBytes 4 akAuditEntryDiskSize ++ u64Bytes entry.seq ++
  leBytes 4 (akAuditCrc32 (entryBytes entry)).toNat ++ leBytes 4 0 ++ entryBytes entry

/-- The counters of the file header are those of an empty log for good. -/
def fileHeaderFields : Bytes :=
  leBytes 4 akAuditMagic ++ leBytes 4 akAuditVersion ++ u64Bytes 0 ++ u64Bytes 0 ++ akGenesisHash.1 ++
  leBytes 8 fileHeaderSize

def fileHeader : Bytes := fileHeaderFields ++ leBytes 4 (akAuditCrc32 fileHeaderFields).toNat ++ leBytes 4 0

/-- `headerSetup` and `entrySetup` say which writes could be issued, `written` whether all
issued ones completed, `landed` how many bytes of each write of a failed batch reached the
file. -/
structure SyncEnv where
  headerSetup : Bool
  entrySetup : Nat → Bool
  written : Bool
  flushHandler : Bool
  flushed : Bool
  landed : Nat → Nat

def AuditLog.unflushed (log : AuditLog) : List LogEntry := log.segments.flatMap LogSegment.unflushed

def AuditLog.settle (log : AuditLog) : AuditLog :=
  { log with earlier := log.earlier.map LogSegment.settle, current := log.current.settle }

def issuedEntries (setup : Nat → Bool) (entries : List LogEntry) : List LogEntry :=
  entries.take ((List.range entries.length).findIdx fun place => !setup place)

def issuedWrites (env : SyncEnv) (log : AuditLog) : List Bytes :=
  if log.fileOffset = 0 then
    if log.unflushed = [] ∨ !env.headerSetup then []
    else fileHeader :: (issuedEntries env.entrySetup log.unflushed).map akAuditSerializeEntry
  else (issuedEntries env.entrySetup log.unflushed).map akAuditSerializeEntry

def batchSucceeds (env : SyncEnv) (log : AuditLog) : Bool :=
  (log.fileOffset != 0 || env.headerSetup) && (List.range log.unflushed.length).all env.entrySetup &&
    env.written && env.flushHandler && env.flushed

def akAuditSync (env : SyncEnv) (log : AuditLog) : AuditLog :=
  if !log.storageEnabled then log.settle
  else
    let writes := issuedWrites env log
    if writes = [] then log
    else if batchSucceeds env log then
      AuditLog.settle { log with
        file := overwrite log.file log.fileOffset writes.flatten
        fileOffset := log.fileOffset + writes.flatten.length }
    else { log with file := landWrites env.landed 0 log.file log.fileOffset writes }

def akAuditOpenStorage (opened : Bool) (log : AuditLog) : AuditLog × Int :=
  if !log.initialized then (log,-eInval)
  else if !opened then ({ log with storageEnabled := false },-eIo)
  else
    ({ log with
        fileOffset := if log.file.length < fileHeaderSize then 0 else log.file.length
        storageEnabled := true },0)

structure LogRecord where
  pid : TokenId
  runId : TokenId
  op : UInt16
  reqHash : Block 32
  resHash : Block 32
  policyHash : Block 32

structure AppendEnv where
  segmentAlloc : Bool
  clock : UInt64
  hash : HashEnv
  sync : SyncEnv
  anchor : AnchorEnv

def unhashedEntry (clock : UInt64) (record : LogRecord) (log : AuditLog) : LogEntry where
  seq := log.headSeq + 1
  tsMs := nowMs clock
  pid := record.pid
  runId := record.runId
  op := record.op
  reqHash := record.reqHash
  resHash := record.resHash
  prevHash := log.headHash
  thisHash := Block.zero 32
  policyHash := record.policyHash

def newEntry (env : AppendEnv) (record : LogRecord) (log : AuditLog) : LogEntry :=
  { unhashedEntry env.clock record log with
    thisHash := akAuditComputeEntryHash env.hash (unhashedEntry env.clock record log) log.headHash }

def extended (log : AuditLog) (room : log.current.entries.length < akLogSegmentSize) (entry : LogEntry) : AuditLog :=
  { log with current := log.current.push entry room, headSeq := entry.seq, headHash := entry.thisHash }

/-- The result of the sync is not looked at. -/
def akAuditAppend (env : AppendEnv) (record : LogRecord) (log : AuditLog) : AuditLog × Int :=
  match getCurrentSegment env.segmentAlloc log with
  | none => (log,akELogFull)
  | some ⟨log,room⟩ =>
      let entry := newEntry env record log
      let synced := akAuditSync env.sync (extended log room entry)
      (if entry.seq % akAnchorInterval = 0 then (akAuditEmitAnchor env.anchor synced).1 else synced,
        entry.seq.toInt64.toInt)

end AuthorityKernel.Audit
