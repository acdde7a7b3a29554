import AuthorityKernel.Audit.Recovery

/-! Recovery after a crash. While the file is opened on an empty log and every batch lands in
order, the file holds a leading part of the image of the log that reaches behind all durable
entries, whatever fails. -/
namespace AuthorityKernel.Audit
open Library

structure OnDisk (view : DiskView) : Prop where
  ordered : view.settled ++ view.unflushed = view.entries
  offset : view.fileOffset =
    if view.settled = [] then 0 else fileHeaderSize + view.settled.length * akAuditEntryDiskSize
  held : ∃ count, view.fileOffset ≤ count ∧ count ≤ (fileImage view.entries).length ∧
    view.file = (fileImage view.entries).take count

def writeSize (fileOffset place : Nat) : Nat :=
  if fileOffset = 0 ∧ place = 0 then fileHeaderSize else akAuditEntryDiskSize

variable {log : AuditLog} {view : DiskView} {entry : LogEntry} {env : SyncEnv}

theorem settled_of_fresh (stored : OnDisk view) (fresh : view.fileOffset = 0) : view.settled = [] := by
  by_contra some
  have offset := stored.offset
  rw [fresh,if_neg some,fileHeaderSize] at offset
  omega

theorem image_drop (stored : OnDisk view) (old : view.fileOffset ≠ 0) :
    (fileImage view.entries).drop view.fileOffset = view.unflushed.flatMap akAuditSerializeEntry := by
  have offset := stored.offset
  split at offset
  · exact absurd offset old
  have lead : (fileHeader ++ view.settled.flatMap akAuditSerializeEntry).length = view.fileOffset := by
    rw [List.length_append,fileHeader_length,records_length _ _ akAuditSerializeEntry_length,offset]
  rw [fileImage,← stored.ordered,List.flatMap_append,← List.append_assoc]
  exact List.drop_left' lead

theorem issuedWrites_sizes (env : SyncEnv) (log : AuditLog) (place : Nat) (write : Bytes)
    (issued : (issuedWrites env log)[place]? = some write) : write.length = writeSize log.fileOffset place := by
  have record : ∀ entries : List LogEntry, ∀ i : Nat, (entries.map akAuditSerializeEntry)[i]? = some write →
      write.length = akAuditEntryDiskSize := by
    intro entries i found
    rw [List.getElem?_map] at found
    obtain ⟨entry,-,rfl⟩ := Option.map_eq_some_iff.mp found
    exact akAuditSerializeEntry_length entry
  unfold issuedWrites at issued
  split at issued
  · rename_i fresh
    split at issued
    · simp at issued
    cases place with
    | zero =>
      cases issued
      simp [writeSize,fresh]
    | succ place =>
      rw [record _ place issued]
      simp [writeSize]
  · rename_i old
    rw [record _ place issued]
    simp [writeSize,old]

theorem issuedWrites_image (env : SyncEnv) (log : AuditLog) (stored : OnDisk log.disk) :
    ∃ count, (issuedWrites env log).flatten = ((fileImage log.entries).drop log.fileOffset).take count := by
  obtain ⟨issued,shape⟩ : ∃ issued, issuedEntries env.entrySetup log.unflushed = log.unflushed.take issued := ⟨_,rfl⟩
  have bytes : ((log.unflushed.take issued).map akAuditSerializeEntry).flatten =
      (log.unflushed.flatMap akAuditSerializeEntry).take (issued * akAuditEntryDiskSize) := by
    rw [← List.flatMap_def,records_take _ _ akAuditSerializeEntry_length]
  unfold issuedWrites
  split
  · rename_i fresh
    split
    · exact ⟨0,by simp⟩
    have all : log.unflushed = log.entries := by
      have ordered := stored.ordered
      rw [settled_of_fresh stored fresh] at ordered
      exact ordered
    refine ⟨fileHeaderSize + issued * akAuditEntryDiskSize,?_⟩
    rw [shape,List.flatten_cons,bytes,fresh,List.drop_zero,fileImage,all,← fileHeader_length,
      List.take_length_add_append]
  · rename_i old
    refine ⟨issued * akAuditEntryDiskSize,?_⟩
    rw [shape,bytes,show (fileImage log.entries).drop log.fileOffset = _ from image_drop stored old]
    rfl

theorem issuedWrites_whole (stored : OnDisk log.disk) (pending : log.unflushed ≠ [])
    (succeeds : batchSucceeds env log = true) :
    (issuedWrites env log).flatten = (fileImage log.entries).drop log.fileOffset := by
  rw [issuedWrites_all pending succeeds,List.flatten_append,← List.flatMap_def]
  split
  · rename_i fresh
    have ordered := stored.ordered
    rw [settled_of_fresh stored fresh,List.nil_append] at ordered
    rw [fresh,List.drop_zero,fileImage,← show log.unflushed = log.entries from ordered]
    simp
  · rename_i old
    rw [show (fileImage log.entries).drop log.fileOffset = _ from image_drop stored old]
    rfl

theorem settle_disk (log : AuditLog) : log.settle.disk = { log.disk with settled := log.entries, unflushed := [] } := by
  have settled : ∀ segments : List LogSegment, (segments.map LogSegment.settle).flatMap
      (fun segment => segment.entries.take segment.flushed) = segments.flatMap LogSegment.entries := by
    intro segments
    simp [List.flatMap_map,LogSegment.settle]
  have waiting : ∀ segments : List LogSegment, (segments.map LogSegment.settle).flatMap LogSegment.unflushed = [] := by
    intro segments
    simp [List.flatMap_map,LogSegment.settle,LogSegment.unflushed]
  have segments : log.settle.segments = log.segments.map LogSegment.settle := by
    simp [AuditLog.segments,AuditLog.settle]
  have entries : log.settle.entries = log.entries := (settle_body log).entries
  simp only [AuditLog.disk,AuditLog.settled,AuditLog.unflushed,segments,settled,waiting,entries]
  rfl

theorem akAuditSync_onDisk (enabled : log.storageEnabled = true)
    (ordered : LandsInOrder (writeSize log.fileOffset) env.landed) (stored : OnDisk log.disk) :
    OnDisk (akAuditSync env log).disk := by
  have synced := akAuditSync_synced env enabled
  generalize akAuditSync env log = after at synced ⊢
  obtain ⟨held,reached,inside,file⟩ := stored.held
  have file : log.file = (fileImage log.entries).take held := file
  cases synced with
  | idle => exact stored
  | flushed pending succeeds =>
    have some : log.entries ≠ [] := by
      rw [← show log.settled ++ log.unflushed = log.entries from stored.ordered]
      simp [pending]
    have reached : log.fileOffset ≤ held := reached
    have inside : held ≤ (fileImage log.entries).length := inside
    have whole : (issuedWrites env log).flatten =
        ((fileImage log.entries).drop log.fileOffset).take (fileImage log.entries).length := by
      rw [issuedWrites_whole stored pending succeeds,List.take_of_length_le]
      rw [List.length_drop]
      omega
    have size : log.fileOffset + (issuedWrites env log).flatten.length = (fileImage log.entries).length := by
      rw [whole,List.length_take,List.length_drop]
      omega
    rw [settle_disk,size,whole,file]
    refine ⟨List.append_nil _,?_,(fileImage log.entries).length,Nat.le_refl _,Nat.le_refl _,?_⟩
    · change (fileImage log.entries).length =
        if log.entries = [] then 0 else fileHeaderSize + log.entries.length * akAuditEntryDiskSize
      rw [if_neg some,fileImage_length]
    · change overwrite _ _ _ = (fileImage log.entries).take (fileImage log.entries).length
      rw [overwrite_image _ _ _ _ inside reached]
      congr 1
      omega
  | failed fails =>
    obtain ⟨issued,batch⟩ := issuedWrites_image env log stored
    obtain ⟨landed,left⟩ := landWrites_inOrder (writeSize log.fileOffset) env.landed ordered 0 log.fileOffset log.file
      (issuedWrites env log) (by simpa using issuedWrites_sizes env log)
    have grown : landWrites env.landed 0 log.file log.fileOffset (issuedWrites env log) =
        (fileImage log.entries).take
          (max held (min (log.fileOffset + min landed issued) (fileImage log.entries).length)) := by
      rw [left,batch,List.take_take,file]
      exact overwrite_image _ _ _ _ inside reached
    rw [grown]
    exact ⟨stored.ordered,stored.offset,_,le_max_of_le_left reached,max_le inside (min_le_right _ _),rfl⟩

/-- A file that is not open is empty; an open one holds a leading part of the image. -/
structure Stored (view : DiskView) : Prop where
  closed : view.storageEnabled = false → view.file = []
  opened : view.storageEnabled = true → OnDisk view

/-- A call that keeps the file readable: an append computes its hash, a batch lands in order,
and the file is opened on an empty log. -/
def Orderly (log : AuditLog) : AuditCall → Prop
  | .append env _ => env.hash = computes ∧ LandsInOrder (writeSize log.fileOffset) env.sync.landed
  | .emitAnchor _ => True
  | .sync env => LandsInOrder (writeSize log.fileOffset) env.landed
  | .openStorage _ => log.storageEnabled = false ∧ log.entries = []

theorem Orderly.hashComputed {call : AuditCall} (orderly : Orderly log call) : HashComputed call := by
  cases call with
  | append => exact orderly.1
  | emitAnchor | sync | openStorage => trivial

theorem Waiting.onDisk {waiting : AuditLog} (waits : Waiting entry log waiting) (stored : OnDisk log.disk)
    : OnDisk waiting.disk := by
  obtain ⟨held,reached,inside,file⟩ := stored.held
  dsimp only [AuditLog.disk] at reached inside file
  have longer : fileImage (log.entries ++ [entry]) = fileImage log.entries ++ akAuditSerializeEntry entry := by
    simp [fileImage]
  rw [waits.disk]
  refine ⟨?_,stored.offset,held,reached,?_,?_⟩
  · rw [← show log.settled ++ log.unflushed = log.entries from stored.ordered,List.append_assoc]
    rfl
  · rw [longer,List.length_append]
    omega
  · rw [longer,List.take_append_of_le_length inside]
    exact file

structure Kept (log after : AuditLog) : Prop where
  stored : Stored after.disk
  settled : ∀ entry ∈ log.settled, entry ∈ after.settled
  enabled : log.storageEnabled = true → after.storageEnabled = true

theorem settled_subset_entries (member : entry ∈ log.settled) : entry ∈ log.entries := by
  simp only [AuditLog.settled,AuditLog.entries,List.mem_flatMap] at member ⊢
  obtain ⟨segment,listed,taken⟩ := member
  exact ⟨segment,listed,List.mem_of_mem_take taken⟩

theorem settle_kept (log : AuditLog) (disabled : log.storageEnabled = false) (stored : Stored log.disk) :
    Kept log log.settle := by
  have view := settle_disk log
  have settled : log.settle.settled = log.entries := congrArg DiskView.settled view
  refine ⟨?_,?_,fun enabled => absurd enabled (by simp [disabled])⟩
  · rw [view]
    exact ⟨stored.closed,fun enabled => absurd enabled (by simp [AuditLog.disk,disabled])⟩
  · intro entry member
    rw [settled]
    exact settled_subset_entries member

theorem akAuditSync_kept (ordered : LandsInOrder (writeSize log.fileOffset) env.landed)
    (stored : Stored log.disk) : Kept log (akAuditSync env log) := by
  cases enabled : log.storageEnabled with
  | false =>
    have settles : akAuditSync env log = log.settle := by simp [akAuditSync,enabled]
    rw [settles]
    exact settle_kept log enabled stored
  | true =>
    have onDisk := akAuditSync_onDisk enabled ordered (stored.opened enabled)
    have synced := akAuditSync_synced env enabled
    generalize akAuditSync env log = after at onDisk synced ⊢
    have closed : ∀ same : after.storageEnabled = true, Stored after.disk := fun same =>
      ⟨fun disabled => absurd same (by simp [show after.storageEnabled = false from disabled]),fun _ => onDisk⟩
    cases synced with
    | idle => exact ⟨stored,fun _ => id,id⟩
    | flushed =>
      refine ⟨closed enabled,?_,fun _ => enabled⟩
      intro entry member
      have settled := congrArg DiskView.settled (settle_disk { log with
        file := overwrite log.file log.fileOffset (issuedWrites env log).flatten
        fileOffset := log.fileOffset + (issuedWrites env log).flatten.length })
      dsimp only [AuditLog.disk] at settled
      rw [settled]
      exact settled_subset_entries member
    | failed => exact ⟨closed enabled,fun _ => id,fun _ => enabled⟩

theorem Kept.congr {other after : AuditLog} (same : after.disk = other.disk) (kept : Kept log other) :
    Kept log after where
  stored := same ▸ kept.stored
  settled := by
    have settled : after.settled = other.settled := congrArg DiskView.settled same
    exact settled ▸ kept.settled
  enabled := by
    have enabled : after.storageEnabled = other.storageEnabled := congrArg DiskView.storageEnabled same
    exact enabled ▸ kept.enabled

theorem akAuditAppend_kept {env : AppendEnv} (record : LogRecord)
    (ordered : LandsInOrder (writeSize log.fileOffset) env.sync.landed) (stored : Stored log.disk) :
    Kept log (akAuditAppend env record log).1 := by
  by_cases available : SegmentAvailable env.segmentAlloc log
  · obtain ⟨waiting,waits,-,disk⟩ := akAuditAppend_waiting record available
    have ready : Stored waiting.disk := by
      constructor
      · intro disabled
        rw [waits.disk] at disabled ⊢
        exact stored.closed disabled
      · intro enabled
        exact waits.onDisk (stored.opened (waits.storage.symm.trans enabled))
    have synced := akAuditSync_kept (waits.offset ▸ ordered) ready
    have settled : waiting.settled = log.settled := congrArg DiskView.settled waits.disk
    exact .congr disk ⟨synced.stored,settled ▸ synced.settled,waits.storage ▸ synced.enabled⟩
  · rw [akAuditAppend_full record available]
    exact ⟨stored,fun _ => id,id⟩

theorem empty_disk (log : AuditLog) (empty : log.entries = []) : log.settled = [] ∧ log.unflushed = [] := by
  simp only [AuditLog.entries,List.flatMap_eq_nil_iff] at empty
  constructor
  · rw [AuditLog.settled,List.flatMap_eq_nil_iff]
    intro segment member
    rw [empty segment member,List.take_nil]
  · rw [AuditLog.unflushed,List.flatMap_eq_nil_iff]
    intro segment member
    rw [LogSegment.unflushed,empty segment member,List.drop_nil]

theorem akAuditOpenStorage_kept (opened : Bool) (log : AuditLog) (disabled : log.storageEnabled = false)
    (empty : log.entries = []) (stored : Stored log.disk) : Kept log (akAuditOpenStorage opened log).1 := by
  have noFile : log.file = [] := stored.closed disabled
  obtain ⟨noSettled,noWaiting⟩ := empty_disk log empty
  have unopened : log.storageEnabled = true → False := by simp [disabled]
  unfold akAuditOpenStorage
  split
  · exact ⟨stored,fun _ => id,id⟩
  split
  · exact ⟨⟨fun _ => noFile,by simp [AuditLog.disk]⟩,fun _ => id,fun enabled => (unopened enabled).elim⟩
  refine ⟨⟨by simp [AuditLog.disk],fun _ => ⟨?_,?_,0,?_,Nat.zero_le _,?_⟩⟩,fun _ => id,fun _ => rfl⟩
  · exact (congrArg₂ _ noSettled noWaiting).trans empty.symm
  · change (if log.file.length < fileHeaderSize then 0 else log.file.length) = if log.settled = [] then 0 else _
    rw [noFile,if_pos noSettled,if_pos (by decide)]
  · change (if log.file.length < fileHeaderSize then 0 else log.file.length) ≤ 0
    rw [noFile,if_pos (by decide)]
  · exact noFile

theorem auditStep_kept (log : AuditLog) (call : AuditCall) (orderly : Orderly log call) (stored : Stored log.disk) :
    Kept log (auditStep log call) := by
  cases call with
  | emitAnchor env => exact .congr (akAuditEmitAnchor_disk env log).2 ⟨stored,fun _ => id,id⟩
  | sync env => exact akAuditSync_kept orderly stored
  | openStorage opened => exact akAuditOpenStorage_kept opened log orderly.1 orderly.2 stored
  | append env record => exact akAuditAppend_kept record orderly.2 stored

def flushedBy (log : AuditLog) (call : AuditCall) : Option (List LogEntry) :=
  if log.storageEnabled then some ((auditStep log call).settled.drop log.settled.length) else none

def flushedEntries (start : AuditLog) (calls : List AuditCall) : List LogEntry :=
  (Run.outputs auditStep flushedBy start calls).flatten

theorem run_kept (start : AuditLog) (calls : List AuditCall) (guarded : Run.Guarded auditStep Orderly start calls)
    (stored : Stored start.disk) :
    Kept start (Run.run auditStep start calls) ∧ ∀ entry ∈ flushedEntries start calls,
      (Run.run auditStep start calls).storageEnabled = true ∧ entry ∈ (Run.run auditStep start calls).settled := by
  induction calls generalizing start with
  | nil => exact ⟨⟨stored,fun _ => id,id⟩,by simp [flushedEntries,Run.outputs]⟩
  | cons call rest ih =>
    obtain ⟨orderly,later⟩ := guarded
    have first := auditStep_kept start call orderly stored
    obtain ⟨kept,flushed⟩ := ih (auditStep start call) later first.stored
    rw [Run.run_cons]
    refine ⟨⟨kept.stored,fun entry member => kept.settled entry (first.settled entry member),
      fun enabled => kept.enabled (first.enabled enabled)⟩,?_⟩
    intro entry member
    rw [flushedEntries,Run.outputs,List.flatten_append,List.mem_append] at member
    rcases member with now | after
    · unfold flushedBy at now
      split at now
      · rename_i enabled
        have settled : entry ∈ (auditStep start call).settled := by
          apply List.mem_of_mem_drop
          simpa using now
        exact ⟨kept.enabled (first.enabled enabled),kept.settled entry settled⟩
      · simp at now
    · exact flushed entry after

/-- What a load after a crash has to give: a leading part of the entries, with the durable
ones in it and the head and offset that belong to it. -/
structure Recovered (log : AuditLog) (flushed : List LogEntry) (loaded : AuditLog × Int) : Prop where
  succeeded : loaded.2 = 0
  leading : loaded.1.entries <+: log.entries
  durable : ∀ entry ∈ flushed, entry ∈ loaded.1.entries
  headSeq : loaded.1.headSeq = lastSeq loaded.1.entries
  headHash : loaded.1.headHash = HashChain.tip akChain akGenesisHash loaded.1.entries
  offset : loaded.1.fileOffset =
    if loaded.1.entries = [] ∧ log.file.length < fileHeaderSize then 0
    else fileHeaderSize + loaded.1.entries.length * akAuditEntryDiskSize

theorem recovered_short {flushed : List LogEntry} (none : flushed = [])
    (short : log.file.length < fileHeaderSize) :
    Recovered log flushed (akAuditLoad smoothLoad (akAuditInit log.file)) := by
  rw [akAuditLoad_short short]
  have empty : AuditLog.entries { akAuditInit log.file with storageEnabled := true } = [] := rfl
  refine ⟨rfl,?_,?_,?_,?_,?_⟩
  · rw [empty]
    exact List.nil_prefix
  · rw [none]
    exact fun entry member => absurd member List.not_mem_nil
  · rw [empty]
    rfl
  · rw [empty]
    rfl
  · rw [if_pos ⟨empty,short⟩]
    rfl

theorem settled_loaded (stored : OnDisk view) {held : Nat} (reached : view.fileOffset ≤ held)
    (member : entry ∈ view.settled) : entry ∈ view.entries.take ((held - fileHeaderSize) / akAuditEntryDiskSize) := by
  have offset := stored.offset
  rw [if_neg (List.ne_nil_of_mem member)] at offset
  have enough : view.settled.length ≤ (held - fileHeaderSize) / akAuditEntryDiskSize := by
    rw [Nat.le_div_iff_mul_le (by decide)]
    omega
  have leading : view.settled <+: view.entries := ⟨view.unflushed,stored.ordered⟩
  exact (List.prefix_take_iff.mpr ⟨leading,enough⟩).subset member

theorem recovered_of_stored (log : AuditLog) (flushed : List LogEntry) (intact : Intact log) (stored : Stored log.disk)
    (kept : ∀ entry ∈ flushed, log.storageEnabled = true ∧ entry ∈ log.settled) :
    Recovered log flushed (akAuditLoad smoothLoad (akAuditInit log.file)) := by
  cases enabled : log.storageEnabled with
  | false =>
    have noFile : log.file = [] := stored.closed enabled
    apply recovered_short
    · refine List.eq_nil_iff_forall_not_mem.mpr fun entry member => ?_
      exact absurd (kept entry member).1 (by simp [enabled])
    · rw [noFile]
      decide
  | true =>
    have onDisk := stored.opened enabled
    obtain ⟨held,reached,inside,file⟩ := onDisk.held
    dsimp only [AuditLog.disk] at reached inside file
    have size : log.file.length = held := by
      rw [file,List.length_take,Nat.min_eq_left inside]
    have complete := fun entry member => settled_loaded onDisk reached (kept entry member).2
    by_cases short : held < fileHeaderSize
    · apply recovered_short
      · refine List.eq_nil_iff_forall_not_mem.mpr fun entry member => ?_
        have taken := complete entry member
        rw [Nat.sub_eq_zero_of_le (by omega),Nat.zero_div,List.take_zero] at taken
        exact absurd taken List.not_mem_nil
      · omega
    obtain ⟨loaded,loads,entries,headSeq,headHash,offset⟩ := akAuditLoad_image intact.linked
      intact.coherent.small inside (by omega)
    rw [file,loads]
    refine ⟨rfl,?_,?_,headSeq,headHash,?_⟩
    · rw [entries]
      exact List.take_prefix _ _
    · intro entry member
      rw [entries]
      exact complete entry member
    · rw [if_neg (by omega),offset,entries,List.length_take,Nat.min_eq_left]
      apply Nat.div_le_of_le_mul
      rw [fileImage_length] at inside
      rw [Nat.mul_comm]
      omega

/-- In a run that opens its file on the empty log, computes every hash and lands every batch
in order, a load after a crash at any point recovers the log. -/
theorem crash_recovers (calls : List AuditCall) (orderly : Run.Guarded auditStep Orderly (akAuditInit []) calls) :
    Recovered (Run.run auditStep (akAuditInit []) calls) (flushedEntries (akAuditInit []) calls)
      (akAuditLoad smoothLoad (akAuditInit (Run.run auditStep (akAuditInit []) calls).file)) := by
  have fresh : Stored (akAuditInit []).disk := ⟨fun _ => rfl,fun enabled => absurd enabled (by decide)⟩
  obtain ⟨kept,flushed⟩ := run_kept (akAuditInit []) calls orderly fresh
  have intact : Intact (Run.run auditStep (akAuditInit []) calls) :=
    Run.invariant_run (fun log call allowed => auditStep_intact allowed.hashComputed) _ calls orderly
      (intact_init [])
  exact recovered_of_stored _ _ intact kept.stored flushed

/-- Of the second batch the first hundred bytes reach the disk. -/
def tornRun : List AuditCall :=
  [.openStorage true,.append (appendWith computes) blankRecord,
    .append { appendWith computes with
      sync := { smoothSync with written := false, landed := fun place => if place = 0 then 100 else 0 } } blankRecord]

theorem torn_run_recovers :
    Run.Guarded auditStep Orderly (akAuditInit []) tornRun ∧
      (flushedEntries (akAuditInit []) tornRun).length = 1 ∧
      Recovered (Run.run auditStep (akAuditInit []) tornRun) (flushedEntries (akAuditInit []) tornRun)
        (akAuditLoad smoothLoad (akAuditInit (Run.run auditStep (akAuditInit []) tornRun).file)) := by
  have orderly : Run.Guarded auditStep Orderly (akAuditInit []) tornRun :=
    ⟨⟨rfl,rfl⟩,⟨rfl,fun _ _ _ _ => rfl⟩,⟨rfl,fun place later after _ => if_neg (Nat.ne_zero_of_lt after)⟩,trivial⟩
  exact ⟨orderly,by decide +kernel,crash_recovers tornRun orderly⟩

def lateOpen : List AuditCall :=
  [.append (appendWith computes) blankRecord,.openStorage true,.append (appendWith computes) blankRecord]

/-- The second entry is flushed, and the loader refuses it because it does not continue from
the start of the chain. -/
theorem late_open_loses_entry :
    (flushedEntries (akAuditInit []) lateOpen).length = 1 ∧
      (akAuditLoad smoothLoad (akAuditInit (Run.run auditStep (akAuditInit []) lateOpen).file)).1.entries = [] ∧
      ¬Recovered (Run.run auditStep (akAuditInit []) lateOpen) (flushedEntries (akAuditInit []) lateOpen)
        (akAuditLoad smoothLoad (akAuditInit (Run.run auditStep (akAuditInit []) lateOpen).file)) := by
  have flushed : (flushedEntries (akAuditInit []) lateOpen).length = 1 := by decide +kernel
  have lost : (akAuditLoad smoothLoad (akAuditInit (Run.run auditStep (akAuditInit []) lateOpen).file)).1.entries =
      [] := by decide +kernel
  refine ⟨flushed,lost,fun recovered => ?_⟩
  obtain ⟨entry,member⟩ := List.exists_mem_of_length_pos (by rw [flushed]; decide)
  have loaded := recovered.durable entry member
  rw [lost] at loaded
  exact absurd loaded List.not_mem_nil

end AuthorityKernel.Audit
