import AuthorityKernel.Audit.Chain

/-! What an append leaves on disk. An entry is durable when its append returns exactly when
every step of the sync of the entries still waiting works. -/
namespace AuthorityKernel.Audit
open Library

/-- The last entry of the log is durable: its bytes are in the file, and the batch they were
written in was flushed. -/
structure NewestDurable (log : AuditLog) (entry : LogEntry) : Prop where
  newest : log.current.entries.getLast? = some entry
  flushed : log.current.flushed = log.current.entries.length
  written : akAuditSerializeEntry entry <:+: log.file

structure SyncWorks (env : SyncEnv) (log : AuditLog) : Prop where
  header : log.fileOffset = 0 → env.headerSetup = true
  entries : ∀ place ≤ log.unflushed.length, env.entrySetup place = true
  written : env.written = true
  flushHandler : env.flushHandler = true
  flushed : env.flushed = true

def AuditLog.settled (log : AuditLog) : List LogEntry :=
  log.segments.flatMap fun segment => segment.entries.take segment.flushed

structure DiskView where
  entries : List LogEntry
  settled : List LogEntry
  unflushed : List LogEntry
  file : Bytes
  fileOffset : Nat
  storageEnabled : Bool

def AuditLog.disk (log : AuditLog) : DiskView :=
  ⟨log.entries,log.settled,log.unflushed,log.file,log.fileOffset,log.storageEnabled⟩

theorem getCurrentSegment_disk (segmentAlloc : Bool) (log : AuditLog)
    (found : { log : AuditLog // log.current.entries.length < akLogSegmentSize })
    (some : getCurrentSegment segmentAlloc log = some found) :
    found.1.disk = log.disk ∧ found.1.headSeq = log.headSeq ∧ found.1.headHash = log.headHash := by
  unfold getCurrentSegment segmentWithRoom at some
  split at some
  · cases some
    exact ⟨rfl,rfl,rfl⟩
  split at some
  · simp at some
  split at some
  · simp at some
  cases some
  refine ⟨?_,rfl,rfl⟩
  simp [AuditLog.disk,AuditLog.entries,AuditLog.settled,AuditLog.unflushed,AuditLog.segments,LogSegment.empty,
    LogSegment.unflushed]

theorem extended_disk (log : AuditLog) (room : log.current.entries.length < akLogSegmentSize)
    (entry : LogEntry) : (extended log room entry).disk =
      { log.disk with entries := log.entries ++ [entry], unflushed := log.unflushed ++ [entry] } := by
  have dropped : (log.current.push entry room).unflushed = log.current.unflushed ++ [entry] := by
    simp only [LogSegment.unflushed,LogSegment.push]
    exact List.drop_append_of_le_length log.current.watermark
  have taken : (log.current.entries ++ [entry]).take log.current.flushed =
      log.current.entries.take log.current.flushed := List.take_append_of_le_length log.current.watermark
  have longer : (log.current.push entry room).entries = log.current.entries ++ [entry] := rfl
  have marked : (log.current.push entry room).flushed = log.current.flushed := rfl
  simp only [AuditLog.disk,AuditLog.entries,AuditLog.settled,AuditLog.unflushed,AuditLog.segments,extended,
    List.flatMap_append,List.flatMap_singleton,dropped,longer,marked,taken,List.append_assoc]

variable {log : AuditLog}

theorem batchSucceeds_iff (env : SyncEnv) {count : Nat} (pending : log.unflushed.length = count + 1) :
    batchSucceeds env log = true ↔ (log.fileOffset = 0 → env.headerSetup = true) ∧
      (∀ place ≤ count, env.entrySetup place = true) ∧ env.written = true ∧ env.flushHandler = true ∧
      env.flushed = true := by
  simp only [batchSucceeds,Bool.and_eq_true,Bool.or_eq_true,bne_iff_ne,List.all_eq_true,List.mem_range,pending,
    Nat.lt_succ_iff,and_assoc]
  constructor
  · rintro ⟨header,rest⟩
    exact ⟨fun fresh => header.resolve_left fun old => old fresh,rest⟩
  · rintro ⟨header,rest⟩
    refine ⟨?_,rest⟩
    by_cases fresh : log.fileOffset = 0
    · exact Or.inr (header fresh)
    · exact Or.inl fresh

theorem issued_all {setup : Nat → Bool} {entries : List LogEntry}
    (all : ∀ place < entries.length, setup place = true) : issuedEntries setup entries = entries := by
  have none : (List.range entries.length).findIdx (fun place => !setup place) = entries.length := by
    have never : ∀ place ∈ List.range entries.length, (!setup place) = false := by
      intro place member
      simp [all place (List.mem_range.mp member)]
    rw [List.findIdx_eq_length.mpr never,List.length_range]
  rw [issuedEntries,none,List.take_length]

variable {env : SyncEnv}

theorem issuedWrites_all (pending : log.unflushed ≠ [])
    (succeeds : batchSucceeds env log = true) :
    issuedWrites env log =
      (if log.fileOffset = 0 then [fileHeader] else []) ++ log.unflushed.map akAuditSerializeEntry := by
  obtain ⟨first,rest,shape⟩ := List.exists_cons_of_ne_nil pending
  have steps := (batchSucceeds_iff env (by rw [shape,List.length_cons])).mp succeeds
  have all : issuedEntries env.entrySetup log.unflushed = log.unflushed := by
    refine issued_all fun place inside => steps.2.1 place ?_
    rw [shape,List.length_cons] at inside
    exact Nat.le_of_lt_succ inside
  unfold issuedWrites
  split
  · rename_i fresh
    rw [if_neg (by simp [pending,steps.1 fresh]),all,List.singleton_append]
  · rw [all,List.nil_append]

theorem issuedWrites_none (env : SyncEnv) (log : AuditLog) (none : log.unflushed = []) : issuedWrites env log = [] := by
  simp [issuedWrites,issuedEntries,none]

inductive Synced (env : SyncEnv) (log : AuditLog) : AuditLog → Prop
  | idle (none : issuedWrites env log = []) : Synced env log log
  | flushed (pending : log.unflushed ≠ []) (succeeds : batchSucceeds env log = true) :
      Synced env log (AuditLog.settle { log with
        file := overwrite log.file log.fileOffset (issuedWrites env log).flatten
        fileOffset := log.fileOffset + (issuedWrites env log).flatten.length })
  | failed (fails : ¬batchSucceeds env log = true) :
      Synced env log { log with file := landWrites env.landed 0 log.file log.fileOffset (issuedWrites env log) }

theorem akAuditSync_synced (env : SyncEnv) (enabled : log.storageEnabled = true) :
    Synced env log (akAuditSync env log) := by
  unfold akAuditSync
  rw [if_neg (by simp [enabled])]
  dsimp only
  split
  · rename_i none
    exact .idle none
  rename_i some
  split
  · rename_i succeeds
    exact .flushed (fun empty => some (issuedWrites_none env log empty)) succeeds
  · rename_i fails
    exact .failed fails

theorem sync_settles (enabled : log.storageEnabled = true)
    (pending : log.unflushed ≠ []) (succeeds : batchSucceeds env log = true) :
    (akAuditSync env log).current = log.current.settle ∧
      ∀ entry ∈ log.unflushed, akAuditSerializeEntry entry <:+: (akAuditSync env log).file := by
  have writes := issuedWrites_all pending succeeds
  have synced := akAuditSync_synced env enabled
  generalize akAuditSync env log = after at synced ⊢
  cases synced with
  | idle none =>
    rw [none] at writes
    simp [pending] at writes
  | failed fails => exact absurd succeeds fails
  | flushed =>
    refine ⟨rfl,fun entry member => infix_overwrite _ _ _ _ ?_⟩
    obtain ⟨before,after,shape⟩ := List.append_of_mem member
    rw [writes,shape]
    refine ⟨(if log.fileOffset = 0 then [fileHeader] else []).flatten ++ before.flatMap akAuditSerializeEntry,
      after.flatMap akAuditSerializeEntry,?_⟩
    simp [List.flatMap_def]

theorem sync_fails (enabled : log.storageEnabled = true)
    (fails : ¬batchSucceeds env log = true) : (akAuditSync env log).current = log.current := by
  have synced := akAuditSync_synced env enabled
  generalize akAuditSync env log = after at synced ⊢
  cases synced with
  | idle | failed => rfl
  | flushed pending succeeds => exact absurd succeeds fails

theorem akAuditEmitAnchor_disk (env : AnchorEnv) (log : AuditLog) :
    (akAuditEmitAnchor env log).1.current = log.current ∧ (akAuditEmitAnchor env log).1.disk = log.disk := by
  unfold akAuditEmitAnchor
  dsimp only
  split <;> exact ⟨rfl,rfl⟩

structure Waiting (entry : LogEntry) (log waiting : AuditLog) : Prop where
  disk : waiting.disk = { log.disk with entries := log.entries ++ [entry], unflushed := log.unflushed ++ [entry] }
  newest : waiting.current.entries.getLast? = some entry
  watermark : waiting.current.flushed < waiting.current.entries.length

namespace Waiting
variable {entry : LogEntry} {log waiting : AuditLog} (waits : Waiting entry log waiting)
include waits

theorem storage : waiting.storageEnabled = log.storageEnabled := congrArg DiskView.storageEnabled waits.disk

theorem offset : waiting.fileOffset = log.fileOffset := congrArg DiskView.fileOffset waits.disk

theorem unflushed : waiting.unflushed = log.unflushed ++ [entry] := congrArg DiskView.unflushed waits.disk

end Waiting

theorem akAuditAppend_waiting {env : AppendEnv} (record : LogRecord)
    (available : SegmentAvailable env.segmentAlloc log) :
    ∃ waiting, Waiting (newEntry env record log) log waiting ∧
      (akAuditAppend env record log).1.current = (akAuditSync env.sync waiting).current ∧
      (akAuditAppend env record log).1.disk = (akAuditSync env.sync waiting).disk := by
  rw [← getCurrentSegment_isSome,Option.isSome_iff_exists] at available
  obtain ⟨⟨base,room⟩,found⟩ := available
  obtain ⟨sameDisk,sameSeq,sameHash⟩ := getCurrentSegment_disk _ _ _ found
  dsimp only at sameDisk sameSeq sameHash
  have entry : newEntry env record base = newEntry env record log := by
    simp only [newEntry,unhashedEntry,sameSeq,sameHash]
  refine ⟨extended base room (newEntry env record log),⟨?_,?_,?_⟩,?_⟩
  · have sameEntries : base.entries = log.entries := congrArg DiskView.entries sameDisk
    have sameUnflushed : base.unflushed = log.unflushed := congrArg DiskView.unflushed sameDisk
    rw [extended_disk,sameDisk,sameEntries,sameUnflushed]
  · simp [extended,LogSegment.push]
  · have below := base.current.watermark
    simp only [extended,LogSegment.push,List.length_append,List.length_singleton]
    omega
  · rw [akAuditAppend,found]
    dsimp only
    rw [entry]
    split
    · exact akAuditEmitAnchor_disk _ _
    · exact ⟨rfl,rfl⟩

theorem Waiting.succeeds_iff {entry : LogEntry} {waiting : AuditLog} (waits : Waiting entry log waiting)
    (env : SyncEnv) : batchSucceeds env waiting = true ↔ SyncWorks env log := by
  have pending : waiting.unflushed.length = log.unflushed.length + 1 := by
    rw [waits.unflushed,List.length_append,List.length_singleton]
  rw [batchSucceeds_iff env pending,waits.offset]
  constructor
  · rintro ⟨header,entries,written,flushHandler,flushed⟩
    exact ⟨header,entries,written,flushHandler,flushed⟩
  · intro works
    exact ⟨works.header,works.entries,works.written,works.flushHandler,works.flushed⟩

section Append
variable (env : AppendEnv) (record : LogRecord) (log : AuditLog) (enabled : log.storageEnabled = true)
  (available : SegmentAvailable env.segmentAlloc log)
include enabled available

theorem akAuditAppend_durable (works : SyncWorks env.sync log) :
    NewestDurable (akAuditAppend env record log).1 (newEntry env record log) := by
  obtain ⟨waiting,waits,current,disk⟩ := akAuditAppend_waiting record available
  have file : (akAuditAppend env record log).1.file = (akAuditSync env.sync waiting).file :=
    congrArg DiskView.file disk
  have pending : waiting.unflushed ≠ [] := by simp [waits.unflushed]
  obtain ⟨settled,written⟩ := sync_settles (waits.storage.trans enabled) pending
    ((waits.succeeds_iff env.sync).mpr works)
  refine ⟨?_,?_,?_⟩
  · rw [current,settled]
    exact waits.newest
  · rw [current,settled]
    rfl
  · rw [file]
    exact written _ (by simp [waits.unflushed])

theorem works_of_durable (entry : LogEntry)
    (durable : NewestDurable (akAuditAppend env record log).1 entry) : SyncWorks env.sync log := by
  obtain ⟨waiting,waits,current,-⟩ := akAuditAppend_waiting record available
  rw [← waits.succeeds_iff]
  by_contra fails
  have flushed := durable.flushed
  rw [current,sync_fails (waits.storage.trans enabled) fails] at flushed
  exact absurd flushed (Nat.ne_of_lt waits.watermark)

end Append

end AuthorityKernel.Audit
