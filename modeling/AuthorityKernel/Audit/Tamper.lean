import AuthorityKernel.Audit.Chain

/-! Tamper evidence. The text an entry is hashed under determines all its content, so a chain
that verifies is determined by its last hash. The verification follows the chain up from the
genesis hash and never compares the last hash with the head. -/
namespace AuthorityKernel.Audit
open Library Capability Crypto

structure SameContent (a b : LogEntry) : Prop where
  seq : a.seq = b.seq
  tsMs : a.tsMs = b.tsMs
  pid : a.pid = b.pid
  runId : a.runId = b.runId
  op : a.op = b.op
  reqHash : a.reqHash = b.reqHash
  resHash : a.resHash = b.resHash
  policyHash : a.policyHash = b.policyHash

variable (record : LogRecord)

/-- The fields are read back one by one from the right end of the text. -/
theorem canonicalize_sameContent (a b : LogEntry) (same : akLogEntryCanonicalize a = akLogEntryCanonicalize b) :
    SameContent a b := by
  obtain ⟨same,tsMs⟩ := split_number _ _ (ascii ",\"ts_ms\"") _ _ (List.append_cancel_right same)
  obtain ⟨same,seq⟩ := split_number _ _ (ascii "\",\"seq\"") _ _ same
  obtain ⟨same,runId⟩ := split_hex same
  obtain ⟨same,resHash⟩ := split_hex same
  obtain ⟨same,reqHash⟩ := split_hex same
  obtain ⟨same,policyHash⟩ := split_hex same
  obtain ⟨same,pid⟩ := split_hex same
  have op := decimalInt_injective (List.append_cancel_left same)
  exact ⟨toInt64_injective seq,toInt64_injective tsMs,pid,runId,UInt16.toNat_inj.mp (Int.ofNat_inj.mp op),reqHash,
    resHash,policyHash⟩

def hashedMessage (entry : LogEntry) : Bytes := entry.prevHash.1 ++ akLogEntryCanonicalize entry

/-- No two different messages hashed for these entries have one hash. -/
def CollisionFree (entries : List LogEntry) : Prop :=
  ∀ a ∈ entries, ∀ b ∈ entries, sha256 (hashedMessage a) = sha256 (hashedMessage b) →
    hashedMessage a = hashedMessage b

theorem eq_of_thisHash {entries : List LogEntry} (free : CollisionFree entries) {a b : LogEntry}
    (memberA : a ∈ entries) (memberB : b ∈ entries) (hashedA : a.thisHash = akChain.digest a.prevHash a)
    (hashedB : b.thisHash = akChain.digest b.prevHash b) (same : a.thisHash = b.thisHash) : a = b := by
  have digests : sha256 (hashedMessage a) = sha256 (hashedMessage b) := by
    have chained := same
    rw [hashedA,hashedB] at chained
    exact chained
  have messages := free a memberA b memberB digests
  obtain ⟨prev,text⟩ := List.append_inj messages (by rw [a.prevHash.2,b.prevHash.2])
  have content := canonicalize_sameContent a b text
  obtain ⟨seq,tsMs,pid,runId,op,reqHash,resHash,policyHash⟩ := content
  cases a
  cases b
  simp only [LogEntry.mk.injEq]
  exact ⟨seq,tsMs,pid,runId,op,reqHash,resHash,Subtype.ext prev,same,policyHash⟩

theorem getEntryBySeq_mem {log : AuditLog} {seq : UInt64} {entry : LogEntry}
    (found : getEntryBySeq log seq = some entry) : entry ∈ log.entries := by
  obtain ⟨segment,located,stored⟩ := Option.bind_eq_some_iff.mp found
  exact List.mem_flatMap.mpr ⟨segment,List.mem_of_find?_eq_some located,List.mem_of_getElem? stored⟩

section

variable (log : AuditLog) (seq : UInt64) (count : Nat) (entries : List LogEntry)

theorem readFrom_spec (read : readFrom log seq count = some entries) :
    entries.length = count ∧ ∀ entry ∈ entries, entry ∈ log.entries := by
  induction count generalizing seq entries with
  | zero =>
    rw [readFrom,Option.some.injEq] at read
    simp [← read]
  | succ count ih =>
    obtain ⟨first,found,rest⟩ := Option.bind_eq_some_iff.mp read
    obtain ⟨later,readLater,rfl⟩ := Option.map_eq_some_iff.mp rest
    obtain ⟨length,inside⟩ := ih _ later readLater
    exact ⟨by rw [List.length_cons,length],List.forall_mem_cons.mpr ⟨getEntryBySeq_mem found,inside⟩⟩

theorem readFrom_getElem (read : readFrom log seq count = some entries) (place : Nat) (inside : place < count) :
    entries[place]? = getEntryBySeq log (seq + UInt64.ofNat place) := by
  induction count generalizing seq entries place with
  | zero => omega
  | succ count ih =>
    obtain ⟨first,found,rest⟩ := Option.bind_eq_some_iff.mp read
    obtain ⟨later,readLater,rfl⟩ := Option.map_eq_some_iff.mp rest
    cases place with
    | zero => simpa using found.symm
    | succ place =>
      rw [List.getElem?_cons_succ,ih (seq + 1) later readLater place (by omega),UInt64.ofNat_add]
      congr 1
      rw [UInt64.add_assoc]
      congr 1
      exact UInt64.add_comm _ _

end

theorem seq_before {seq : UInt64} (positive : 0 < seq.toNat) : 1 + UInt64.ofNat (seq.toNat - 1) = seq := by
  have range := seq.toNat_lt
  have one : (1 : UInt64).toNat = 1 := rfl
  apply UInt64.toNat_inj.mp
  rw [UInt64.toNat_add,UInt64.toNat_ofNat']
  omega

def storedTip (log : AuditLog) : Block 32 :=
  if log.headSeq = 0 then akGenesisHash
  else ((getEntryBySeq log log.headSeq).map LogEntry.thisHash).getD akGenesisHash

theorem tip_of_read (log : AuditLog) (entries : List LogEntry)
    (read : readFrom log 1 log.headSeq.toNat = some entries) :
    HashChain.tip akChain akGenesisHash entries = storedTip log := by
  have size := (readFrom_spec log 1 _ entries read).1
  unfold storedTip
  split
  · rename_i empty
    rw [empty] at size
    rw [List.length_eq_zero_iff.mp size]
    rfl
  rename_i some
  have positive : 0 < log.headSeq.toNat := Nat.pos_of_ne_zero fun zero => some (UInt64.toNat_inj.mp zero)
  have last := readFrom_getElem log 1 _ entries read (log.headSeq.toNat - 1) (by omega)
  rw [seq_before positive] at last
  rcases List.eq_nil_or_concat entries with rfl | ⟨front,entry,rfl⟩
  · simp at size
    omega
  rw [List.concat_eq_append] at last size ⊢
  have place : log.headSeq.toNat - 1 = front.length := by
    rw [← size,List.length_append,List.length_singleton,Nat.add_sub_cancel]
  rw [place,List.getElem?_concat_length] at last
  rw [HashChain.tip_snoc,← last]
  rfl

def Unaltered (log altered : AuditLog) : Prop :=
  ∀ seq, 1 ≤ seq → seq ≤ log.headSeq → getEntryBySeq altered seq = getEntryBySeq log seq

theorem unaltered_of_read {log altered : AuditLog} {entries : List LogEntry}
    (read : readFrom log 1 log.headSeq.toNat = some entries)
    (readAltered : readFrom altered 1 log.headSeq.toNat = some entries) : Unaltered log altered := by
  intro seq positive within
  rw [UInt64.le_iff_toNat_le] at positive within
  have positive : 0 < seq.toNat := positive
  have here := readFrom_getElem log 1 _ entries read (seq.toNat - 1) (by omega)
  have there := readFrom_getElem altered 1 _ entries readAltered (seq.toNat - 1) (by omega)
  rw [seq_before positive] at here there
  rw [← here,← there]

theorem read_of_unaltered (log altered : AuditLog) (unaltered : Unaltered log altered) (seq : UInt64)
    (count : Nat) (positive : 1 ≤ seq.toNat) (within : seq.toNat + count ≤ log.headSeq.toNat + 1) :
    readFrom altered seq count = readFrom log seq count := by
  induction count generalizing seq with
  | zero => rfl
  | succ count ih =>
    have range := log.headSeq.toNat_lt
    have same : getEntryBySeq altered seq = getEntryBySeq log seq := by
      apply unaltered seq
      · rw [UInt64.le_iff_toNat_le]
        exact positive
      · rw [UInt64.le_iff_toNat_le]
        omega
    rw [readFrom,readFrom,same]
    congr 1
    funext entry
    rcases Nat.eq_zero_or_pos count with rfl | more
    · rfl
    · have next := @toNat_next seq (by omega)
      rw [ih (seq + 1) (by omega) (by omega)]

theorem unaltered_iff_tip (log altered : AuditLog) (intact : Intact log) (sameSeq : altered.headSeq = log.headSeq)
    (free : CollisionFree (log.entries ++ altered.entries))
    (verified : akAuditVerify (fun _ => computes) altered = 0) :
    Unaltered log altered ↔ storedTip altered = log.headHash := by
  obtain ⟨entries,read,linked⟩ := (akAuditVerify_eq_zero altered).mp verified
  have whole : readFrom log 1 log.headSeq.toNat = some log.entries := by
    rw [intact.coherent.readFrom_eq 1 log.headSeq.toNat (by decide) (by simp [intact.coherent.count])]
    simp [intact.coherent.count]
  have tip := tip_of_read altered entries read
  rw [sameSeq] at read
  constructor
  · intro unaltered
    have same := read_of_unaltered log altered unaltered 1 log.headSeq.toNat (by decide)
      (Nat.le_of_eq (Nat.add_comm _ _))
    rw [read,whole,Option.some.injEq] at same
    rw [← tip,same,intact.head]
  · intro sameTip
    have same : log.entries = entries := by
      apply HashChain.linked_unique akGenesisHash log.entries entries
      · rw [(readFrom_spec altered 1 _ entries read).1,intact.coherent.count]
      · exact intact.linked
      · exact linked
      · rw [← intact.head,tip,sameTip]
      · intro one memberOne other memberOther hashes
        refine eq_of_thisHash free ?_ ?_ ?_ ?_ hashes
        · exact List.mem_append_left _ memberOne
        · exact List.mem_append_right _ ((readFrom_spec altered 1 _ entries read).2 other memberOther)
        · exact HashChain.linked_digest intact.linked memberOne
        · exact HashChain.linked_digest linked memberOther
    exact unaltered_of_read whole (same ▸ read)

/-- For every log built by appends that compute their hashes. -/
theorem altered_log_verifies_iff (file : Bytes) (calls : List AuditCall) (altered : AuditLog)
    (computed : ∀ call ∈ calls, HashComputed call)
    (sameSeq : altered.headSeq = (Run.run auditStep (akAuditInit file) calls).headSeq)
    (sameHash : altered.headHash = (Run.run auditStep (akAuditInit file) calls).headHash)
    (free : CollisionFree ((Run.run auditStep (akAuditInit file) calls).entries ++ altered.entries))
    (verified : akAuditVerify (fun _ => computes) altered = 0) :
    Unaltered (Run.run auditStep (akAuditInit file) calls) altered ↔ storedTip altered = altered.headHash := by
  rw [sameHash]
  exact unaltered_iff_tip _ altered (run_intact file calls computed) sameSeq free verified

def loggedOnce (record : LogRecord) : AuditLog :=
  Run.run auditStep (akAuditInit []) [.append (appendWith computes) record]

theorem loggedOnce_verifies : akAuditVerify (fun _ => computes) (loggedOnce record) = 0 := by
  have intact := run_intact [] [.append (appendWith computes) record] (by simp [HashComputed,appendWith])
  exact intact.coherent.verify_iff.mpr intact.linked

theorem loggedOnce_grown :
    Grown (newEntry (appendWith computes) record (akAuditInit [])) (akAuditInit []) (loggedOnce record) :=
  (akAuditAppend_grown record (Or.inl (by decide))).1

theorem loggedOnce_entries :
    (loggedOnce record).entries = [newEntry (appendWith computes) record (akAuditInit [])] :=
  (loggedOnce_grown record).entries

theorem loggedOnce_first :
    getEntryBySeq (loggedOnce record) 1 = some (newEntry (appendWith computes) record (akAuditInit [])) := by
  rw [((loggedOnce_grown record).coherent (coherent_init [])).getEntryBySeq_eq,loggedOnce_entries]
  rfl

def AuditLog.withHead (log : AuditLog) (hash : Block 32) : AuditLog := { log with headHash := hash }

-- On concrete logs the kernel would compute the hashes.
section

variable (log : AuditLog) (hash : Block 32)

theorem withHead_headHash : (log.withHead hash).headHash = hash := rfl

theorem withHead_headSeq : (log.withHead hash).headSeq = log.headSeq := rfl

theorem withHead_entries : (log.withHead hash).entries = log.entries := rfl

theorem getEntryBySeq_withHead (seq : UInt64) :
    getEntryBySeq (log.withHead hash) seq = getEntryBySeq log seq := rfl

theorem verify_withHead :
    akAuditVerify (fun _ => computes) (log.withHead hash) = 0 ↔ akAuditVerify (fun _ => computes) log = 0 := by
  have sameRead : ∀ seq count, readFrom (log.withHead hash) seq count = readFrom log seq count := by
    intro seq count
    induction count generalizing seq with
    | zero => rfl
    | succ count ih => rw [readFrom,readFrom,ih,getEntryBySeq_withHead]
  rw [akAuditVerify_eq_zero,akAuditVerify_eq_zero,sameRead,withHead_headSeq]

end

theorem collisionFree_pair {a b : LogEntry} (different : a ≠ b →
    sha256 (hashedMessage a) ≠ sha256 (hashedMessage b)) : CollisionFree [a,b] := by
  by_cases same : a = b
  · subst same
    simp [CollisionFree]
  · have apart := different same
    have apart' := Ne.symm apart
    simp [CollisionFree,apart,apart']

def otherRecord : LogRecord := { blankRecord with op := 1 }

def forgedLog : AuditLog := (loggedOnce otherRecord).withHead (loggedOnce blankRecord).headHash

theorem forgedLog_verifies : forgedLog.headSeq = (loggedOnce blankRecord).headSeq ∧
    forgedLog.headHash = (loggedOnce blankRecord).headHash ∧
    CollisionFree ((loggedOnce blankRecord).entries ++ forgedLog.entries) ∧
    akAuditVerify (fun _ => computes) forgedLog = 0 := by
  rw [forgedLog,withHead_headSeq,withHead_headHash,withHead_entries,verify_withHead,loggedOnce_entries,
    loggedOnce_entries,(loggedOnce_grown otherRecord).headSeq,(loggedOnce_grown blankRecord).headSeq]
  exact ⟨rfl,rfl,collisionFree_pair fun _ => by decide +kernel,loggedOnce_verifies otherRecord⟩

theorem forgedLog_altered : ¬Unaltered (loggedOnce blankRecord) forgedLog := by
  intro unaltered
  have within : (1 : UInt64) ≤ (loggedOnce blankRecord).headSeq := by
    rw [(loggedOnce_grown blankRecord).headSeq]
    decide
  have same := unaltered 1 (by decide) within
  rw [forgedLog,getEntryBySeq_withHead,loggedOnce_first,loggedOnce_first,Option.some.injEq] at same
  exact absurd (congrArg LogEntry.op same) (show (1 : UInt16) ≠ 0 by decide)

theorem forged_log_leaves_tip : ¬storedTip forgedLog = forgedLog.headHash := by
  obtain ⟨sameSeq,sameHash,free,verified⟩ := forgedLog_verifies
  exact fun tip => forgedLog_altered ((altered_log_verifies_iff [] [.append (appendWith computes) blankRecord] forgedLog
    (by simp [HashComputed,appendWith]) sameSeq sameHash free verified).mpr tip)

theorem forged_log_verifies : forgedLog.headSeq = (loggedOnce blankRecord).headSeq ∧
    forgedLog.headHash = (loggedOnce blankRecord).headHash ∧
    CollisionFree ((loggedOnce blankRecord).entries ++ forgedLog.entries) ∧
    akAuditVerify (fun _ => computes) forgedLog = 0 ∧ ¬Unaltered (loggedOnce blankRecord) forgedLog := by
  obtain ⟨sameSeq,sameHash,free,verified⟩ := forgedLog_verifies
  exact ⟨sameSeq,sameHash,free,verified,forgedLog_altered⟩

end AuthorityKernel.Audit
