import AuthorityKernel.Audit.Load
import AuthorityKernel.Audit.Durability

/-! Reading back the file of a log. The image of a chain is the file it leaves when everything
is durable; of any leading part of it the loader takes the entries whose records are
complete, and continues behind them. -/
namespace AuthorityKernel.Audit
open Library Capability

def fileImage (entries : List LogEntry) : Bytes := fileHeader ++ entries.flatMap akAuditSerializeEntry

variable (fileSize : Nat) (state : LoadState) (read : List LogEntry) (entry : LogEntry) (rest : Bytes)

@[simp] theorem akAuditSerializeEntry_length :
    (akAuditSerializeEntry entry).length = akAuditEntryDiskSize := by
  simp [akAuditSerializeEntry,akAuditEntryDiskSize,entryHeaderSize,entrySize]

@[simp] theorem fileHeader_length : fileHeader.length = fileHeaderSize := by
  have hash : akGenesisHash.1.length = 32 := akGenesisHash.2
  simp [fileHeader,fileHeaderFields,fileHeaderSize,hash]

theorem fileImage_length (entries : List LogEntry) :
    (fileImage entries).length = fileHeaderSize + entries.length * akAuditEntryDiskSize := by
  rw [fileImage,List.length_append,fileHeader_length,records_length _ _ akAuditSerializeEntry_length]

def lastSeq (entries : List LogEntry) : UInt64 := (entries.getLast?.map LogEntry.seq).getD 0

def smoothRecord : RecordEnv := ⟨true,true,true,computes,true⟩

def smoothLoad : LoadEnv := ⟨true,true,fun _ => smoothRecord⟩

structure Taken (read : List LogEntry) (state : LoadState) : Prop where
  entries : state.log.entries = read
  full : ∀ segment ∈ state.log.earlier, segment.entries.length = akLogSegmentSize
  hash : state.lastHash = HashChain.tip akChain akGenesisHash read
  seq : state.lastSeq = lastSeq read

theorem segmentWithRoom_full (startSeq : UInt64) {log : AuditLog}
    (full : ∀ segment ∈ log.earlier, segment.entries.length = akLogSegmentSize)
    (fits : log.entries.length < akLogMaxSegments * akLogSegmentSize) :
    ∃ found, segmentWithRoom true startSeq log = some found ∧ found.1.entries = log.entries ∧
      found.1.file = log.file ∧ ∀ segment ∈ found.1.earlier, segment.entries.length = akLogSegmentSize := by
  unfold segmentWithRoom
  split
  · exact ⟨_,rfl,rfl,rfl,full⟩
  rename_i filled
  have last : log.current.entries.length = akLogSegmentSize :=
    Nat.le_antisymm log.current.fits (Nat.not_lt.mp filled)
  have all : ∀ segment ∈ log.segments, segment.entries.length = akLogSegmentSize := by
    intro segment member
    rcases List.mem_append.mp member with earlier | current
    · exact full segment earlier
    · rw [List.mem_singleton.mp current]
      exact last
  have size : log.entries.length = log.segments.length * akLogSegmentSize := by
    rw [AuditLog.entries,List.length_flatMap,List.map_congr_left all,List.map_const',List.sum_replicate_nat]
  have few : ¬akLogMaxSegments ≤ log.segments.length := by
    intro many
    have larger := Nat.mul_le_mul_right akLogSegmentSize many
    omega
  rw [if_neg few]
  refine ⟨_,rfl,?_,rfl,all⟩
  simp [AuditLog.entries,AuditLog.segments,LogSegment.empty]

theorem serialized_fields :
    fieldAt (slice (akAuditSerializeEntry entry ++ rest) 0 entryHeaderSize) 0 4 = akAuditEntryMagic ∧
      fieldAt (slice (akAuditSerializeEntry entry ++ rest) 0 entryHeaderSize) 4 4 = akAuditEntryDiskSize ∧
      fieldAt (slice (akAuditSerializeEntry entry ++ rest) 0 entryHeaderSize) 16 4 =
        (akAuditCrc32 (entryBytes entry)).toNat ∧
      slice (akAuditSerializeEntry entry ++ rest) entryHeaderSize entrySize = entryBytes entry := by
  have crc : (akAuditCrc32 (entryBytes entry)).toNat % 4294967296 = (akAuditCrc32 (entryBytes entry)).toNat :=
    Nat.mod_eq_of_lt (akAuditCrc32 (entryBytes entry)).toNat_lt
  have header : slice (akAuditSerializeEntry entry ++ rest) 0 entryHeaderSize =
      leBytes 4 akAuditEntryMagic ++ (leBytes 4 akAuditEntryDiskSize ++ (u64Bytes entry.seq ++
        (leBytes 4 (akAuditCrc32 (entryBytes entry)).toNat ++ leBytes 4 0))) := by
    have shape : akAuditSerializeEntry entry ++ rest =
        (leBytes 4 akAuditEntryMagic ++ (leBytes 4 akAuditEntryDiskSize ++ (u64Bytes entry.seq ++
          (leBytes 4 (akAuditCrc32 (entryBytes entry)).toNat ++ leBytes 4 0)))) ++ (entryBytes entry ++ rest) := by
      simp [akAuditSerializeEntry]
    rw [shape,slice_head _ _ _ (by simp [entryHeaderSize])]
  rw [header]
  refine ⟨?_,?_,?_,?_⟩
  · rw [fieldAt_head]
    rfl
  · rw [fieldAt_skip _ _ _ _ (by simp),leBytes_length,fieldAt_head]
    rfl
  · simp [fieldAt_skip,fieldAt_head,crc]
  · simp [akAuditSerializeEntry,slice_skip,slice_head,entryHeaderSize]

theorem loadRecord_short (env : RecordEnv) {fileSize : Nat} {state : LoadState}
    (short : fileSize < state.offset + akAuditEntryDiskSize) : loadRecord env fileSize state = .done := by
  have refused : headerAccepted fileSize state.offset (slice state.log.file state.offset entryHeaderSize) = false := by
    by_contra accepted
    rw [Bool.not_eq_false] at accepted
    have length := headerAccepted_length _ _ _ accepted
    simp only [headerAccepted,Bool.and_eq_true,decide_eq_true_eq,length] at accepted
    omega
  simp [loadRecord,refused]

theorem loadRecord_complete (taken : Taken read state) (fits : read.length < akLogMaxSegments * akLogSegmentSize)
    (there : state.log.file.drop state.offset = akAuditSerializeEntry entry ++ rest)
    (inside : state.offset + akAuditEntryDiskSize ≤ fileSize)
    (chained : entry.prevHash = HashChain.tip akChain akGenesisHash read)
    (hashed : entry.thisHash = akChain.digest entry.prevHash entry) :
    ∃ following, loadRecord smoothRecord fileSize state = .next following ∧ Taken (read ++ [entry]) following ∧
      following.offset = state.offset + akAuditEntryDiskSize ∧ following.log.file = state.log.file := by
  obtain ⟨magic,length,crc,bytes⟩ := serialized_fields entry rest
  have shifted : ∀ start count, slice state.log.file (state.offset + start) count =
      slice (akAuditSerializeEntry entry ++ rest) start count := by
    intro start count
    rw [slice,← List.drop_drop,there,slice]
  have header := shifted 0 entryHeaderSize
  have data := shifted entryHeaderSize entrySize
  rw [Nat.add_zero] at header
  rw [bytes] at data
  have accepted : headerAccepted fileSize state.offset (slice state.log.file state.offset entryHeaderSize) = true := by
    simp only [header,headerAccepted,magic,length,akAuditEntryDiskSize] at inside ⊢
    simp [inside]
  have valid : entryAccepted computes (slice state.log.file state.offset entryHeaderSize) (entryBytes entry)
      state.lastHash = true := by
    have hash : entry.thisHash = akAuditComputeEntryHash computes entry entry.prevHash := by
      rw [akAuditComputeEntryHash_computes]
      exact hashed
    simp [header,entryAccepted,crc,entryOfBytes_entryBytes,taken.hash,← chained,← hash]
  obtain ⟨⟨log,room⟩,found,sameEntries,sameFile,full⟩ := segmentWithRoom_full entry.seq taken.full
    (by rw [taken.entries]; exact fits)
  have begun : ¬fileSize < state.offset + entryHeaderSize := by
    simp only [akAuditEntryDiskSize] at inside
    omega
  refine ⟨⟨{ log with current := (log.current.push entry room).settle },entry.thisHash,entry.seq,
    state.offset + akAuditEntryDiskSize⟩,?_,⟨?_,full,?_,?_⟩,rfl,sameFile⟩
  · rw [header] at accepted valid
    simp [loadRecord,smoothRecord,begun,accepted,data,valid,entryOfBytes_entryBytes,found,header,length]
  · rw [← taken.entries,← sameEntries]
    simp [AuditLog.entries,AuditLog.segments,LogSegment.settle,LogSegment.push]
  · rw [HashChain.tip_snoc]
    rfl
  · simp [lastSeq]

theorem loadRecords_image (entries read : List LogEntry) (fuel place count : Nat) (state : LoadState)
    (taken : Taken read state)
    (fits : read.length + entries.length ≤ akLogMaxSegments * akLogSegmentSize)
    (linked : HashChain.Linked akChain (HashChain.tip akChain akGenesisHash read) entries)
    (there : state.log.file.drop state.offset = (entries.flatMap akAuditSerializeEntry).take count)
    (inside : count ≤ entries.length * akAuditEntryDiskSize) (enough : count ≤ fuel) :
    ∃ final, loadRecords (fun _ => smoothRecord) (state.offset + count) fuel place state = (final,true) ∧
      Taken (read ++ entries.take (count / akAuditEntryDiskSize)) final ∧
      final.offset = state.offset + count / akAuditEntryDiskSize * akAuditEntryDiskSize := by
  induction entries generalizing read fuel place count state with
  | nil =>
    rw [List.length_nil,Nat.zero_mul,Nat.le_zero] at inside
    subst inside
    refine ⟨state,?_,by simpa using taken,by simp⟩
    cases fuel with
    | zero => rfl
    | succ fuel =>
      have ended : state.offset + 0 < state.offset + akAuditEntryDiskSize := Nat.add_lt_add_left (by decide) _
      rw [loadRecords,loadRecord_short _ ended]
  | cons entry entries ih =>
    by_cases short : count < akAuditEntryDiskSize
    · refine ⟨state,?_,?_,?_⟩
      · cases fuel with
        | zero => rfl
        | succ fuel => rw [loadRecords,loadRecord_short _ (by omega)]
      · rw [Nat.div_eq_of_lt short,List.take_zero,List.append_nil]
        exact taken
      · rw [Nat.div_eq_of_lt short,Nat.zero_mul,Nat.add_zero]
    obtain ⟨more,rfl⟩ := Nat.exists_eq_add_of_le (Nat.not_lt.mp short)
    obtain ⟨chained,hashed,linked⟩ := linked
    have first : state.log.file.drop state.offset =
        akAuditSerializeEntry entry ++ (entries.flatMap akAuditSerializeEntry).take more := by
      rw [there,List.flatMap_cons,← akAuditSerializeEntry_length entry,List.take_length_add_append]
    rw [List.length_cons] at fits
    obtain ⟨following,next,took,moved,sameFile⟩ := loadRecord_complete
      (state.offset + (akAuditEntryDiskSize + more)) state read entry _ taken (by omega) first (by omega)
      chained hashed
    have rest : following.log.file.drop following.offset = (entries.flatMap akAuditSerializeEntry).take more := by
      rw [moved,sameFile,← List.drop_drop,first,← akAuditSerializeEntry_length entry,List.drop_left]
    have tip : HashChain.tip akChain akGenesisHash (read ++ [entry]) = akChain.this entry := HashChain.tip_snoc _ _ _
    have positive : 0 < akAuditEntryDiskSize := by decide
    cases fuel with
    | zero => omega
    | succ fuel =>
      obtain ⟨final,ended,all,offset⟩ := ih (read ++ [entry]) fuel (place + 1) more following took
        (by rw [List.length_append,List.length_singleton]; omega) (tip ▸ linked) rest
        (by rw [List.length_cons,Nat.succ_mul] at inside; omega) (by omega)
      have quotient : (akAuditEntryDiskSize + more) / akAuditEntryDiskSize = more / akAuditEntryDiskSize + 1 :=
        Nat.add_div_left more positive
      refine ⟨final,?_,?_,?_⟩
      · rw [loadRecords,next]
        rw [← ended,moved,Nat.add_assoc]
      · rw [quotient,List.take_succ_cons]
        simpa using all
      · rw [offset,moved,quotient,Nat.succ_mul]
        omega

theorem fileHeader_fields :
    fieldAt (slice (fileHeader ++ rest) 0 fileHeaderSize) 0 4 = akAuditMagic ∧
      fieldAt (slice (fileHeader ++ rest) 0 fileHeaderSize) 4 4 = akAuditVersion ∧
      (akAuditCrc32 (slice (slice (fileHeader ++ rest) 0 fileHeaderSize) 0 64)).toNat =
        fieldAt (slice (fileHeader ++ rest) 0 fileHeaderSize) 64 4 := by
  have hash : akGenesisHash.1.length = 32 := akGenesisHash.2
  have fields : fileHeaderFields.length = 64 := by simp [fileHeaderFields,hash]
  have crc : (akAuditCrc32 fileHeaderFields).toNat % 4294967296 = (akAuditCrc32 fileHeaderFields).toNat :=
    Nat.mod_eq_of_lt (akAuditCrc32 fileHeaderFields).toNat_lt
  rw [slice_head _ _ _ fileHeader_length]
  refine ⟨?_,?_,?_⟩
  · simp only [fileHeader,fileHeaderFields,List.append_assoc]
    rw [fieldAt_head]
    rfl
  · simp only [fileHeader,fileHeaderFields,List.append_assoc]
    rw [fieldAt_skip _ _ _ _ (by simp),leBytes_length,fieldAt_head]
    rfl
  · rw [fileHeader,List.append_assoc,slice_head _ _ _ fields,fieldAt_skip _ _ _ _ (by rw [fields]),fields,fieldAt_head]
    exact crc.symm

theorem akAuditLoad_short {file : Bytes} (short : file.length < fileHeaderSize) :
    akAuditLoad smoothLoad (akAuditInit file) = ({ akAuditInit file with storageEnabled := true },0) := by
  simp [akAuditLoad,akAuditOpenStorage,akAuditInit,smoothLoad,short]

theorem akAuditLoad_long (file : Bytes) (long : ¬file.length < fileHeaderSize) :
    akAuditLoad smoothLoad (akAuditInit file) =
      loadFile smoothLoad { akAuditInit file with fileOffset := file.length, storageEnabled := true } := by
  have nonempty : file ≠ [] := by
    intro empty
    subst empty
    exact long (by decide)
  simp [akAuditLoad,akAuditOpenStorage,akAuditInit,smoothLoad,long,nonempty]

theorem akAuditLoad_image {entries : List LogEntry} {count : Nat}
    (linked : HashChain.Linked akChain akGenesisHash entries)
    (fits : entries.length ≤ akLogMaxSegments * akLogSegmentSize) (inside : count ≤ (fileImage entries).length)
    (whole : fileHeaderSize ≤ count) :
    ∃ loaded, akAuditLoad smoothLoad (akAuditInit ((fileImage entries).take count)) = (loaded,0) ∧
      loaded.entries = entries.take ((count - fileHeaderSize) / akAuditEntryDiskSize) ∧
      loaded.headSeq = lastSeq loaded.entries ∧
      loaded.headHash = HashChain.tip akChain akGenesisHash loaded.entries ∧
      loaded.fileOffset = fileHeaderSize + (count - fileHeaderSize) / akAuditEntryDiskSize * akAuditEntryDiskSize := by
  obtain ⟨more,rfl⟩ := Nat.exists_eq_add_of_le whole
  have file : (fileImage entries).take (fileHeaderSize + more) =
      fileHeader ++ (entries.flatMap akAuditSerializeEntry).take more := by
    rw [fileImage,← fileHeader_length,List.take_length_add_append]
  have size : ((fileImage entries).take (fileHeaderSize + more)).length = fileHeaderSize + more := by
    rw [List.length_take,Nat.min_eq_left inside]
  rw [akAuditLoad_long _ (by rw [size]; omega),size,file,Nat.add_sub_cancel_left]
  rw [fileImage_length] at inside
  obtain ⟨magic,version,crc⟩ := fileHeader_fields ((entries.flatMap akAuditSerializeEntry).take more)
  let start : LoadState :=
    ⟨{ akAuditInit (fileHeader ++ (entries.flatMap akAuditSerializeEntry).take more) with
        fileOffset := fileHeaderSize + more, storageEnabled := true },akGenesisHash,0,fileHeaderSize⟩
  have fresh : Taken [] start := ⟨rfl,fun segment member => absurd member List.not_mem_nil,rfl,rfl⟩
  obtain ⟨final,ended,taken,offset⟩ := loadRecords_image entries [] (fileHeaderSize + more) 0 more start fresh
    (by simpa using fits) linked
    (List.drop_left' fileHeader_length) (by omega) (by omega)
  refine ⟨final.installed,loadFile_accepted rfl magic version crc ended,taken.entries,?_,?_,
    offset⟩
  · exact taken.seq.trans (congrArg lastSeq taken.entries.symm)
  · exact taken.hash.trans (congrArg (HashChain.tip akChain akGenesisHash) taken.entries.symm)

end AuthorityKernel.Audit
