import AuthorityKernel.Library.Run
import AuthorityKernel.Audit.Storage

/-! The chain of the log over whole runs. Numbers are given out without gaps and every entry
stays where its number says, whatever fails; the hashes verify as long as each append had
the memory to compute its own. -/
namespace AuthorityKernel.Audit
open Library Capability Crypto

def akChain : HashChain.Scheme LogEntry (Block 32) where
  prev := LogEntry.prevHash
  this := LogEntry.thisHash
  digest := fun prevHash entry => sha256 (prevHash.1 ++ akLogEntryCanonicalize entry)

def AuditLog.layout (log : AuditLog) : List (UInt64 × List LogEntry) :=
  log.segments.map fun segment => (segment.startSeq,segment.entries)

structure SameBody (first second : AuditLog) : Prop where
  layout : first.layout = second.layout
  headSeq : first.headSeq = second.headSeq
  headHash : first.headHash = second.headHash

variable (entry : LogEntry) (segmentAlloc : Bool) (segments : List LogSegment) (next : Nat) (seq : UInt64)
  (file : Bytes)

theorem entries_eq_layout (log : AuditLog) : log.entries = log.layout.flatMap Prod.snd := by
  simp [AuditLog.entries,AuditLog.layout,List.flatMap_map]

variable {first second log : AuditLog}

theorem SameBody.entries (same : SameBody first second) : first.entries = second.entries := by
  rw [entries_eq_layout,entries_eq_layout,same.layout]

theorem settle_body (log : AuditLog) : SameBody log.settle log := by
  refine ⟨?_,rfl,rfl⟩
  simp [AuditLog.layout,AuditLog.segments,AuditLog.settle,LogSegment.settle]

theorem akAuditSync_body (env : SyncEnv) (log : AuditLog) : SameBody (akAuditSync env log) log := by
  unfold akAuditSync
  split
  · exact settle_body log
  dsimp only
  split
  · exact ⟨rfl,rfl,rfl⟩
  split
  · exact ⟨(settle_body _).layout,rfl,rfl⟩
  exact ⟨rfl,rfl,rfl⟩

theorem akAuditEmitAnchor_body (env : AnchorEnv) (log : AuditLog) : SameBody (akAuditEmitAnchor env log).1 log := by
  unfold akAuditEmitAnchor
  dsimp only
  split <;> exact ⟨rfl,rfl,rfl⟩

theorem akAuditOpenStorage_body (opened : Bool) (log : AuditLog) : SameBody (akAuditOpenStorage opened log).1 log := by
  unfold akAuditOpenStorage
  split
  · exact ⟨rfl,rfl,rfl⟩
  · split <;> exact ⟨rfl,rfl,rfl⟩

def Contiguous : Nat → List (UInt64 × List LogEntry) → Prop
  | _, [] => True
  | next, segment :: rest => segment.1.toNat = next ∧ Contiguous (next + segment.2.length) rest

theorem contiguous_append (first second : List (UInt64 × List LogEntry)) :
    Contiguous next (first ++ second) ↔
      Contiguous next first ∧ Contiguous (next + (first.flatMap Prod.snd).length) second := by
  induction first generalizing next with
  | nil => simp [Contiguous]
  | cons segment rest ih =>
    rw [List.cons_append,Contiguous,ih,Contiguous,List.flatMap_cons,List.length_append,and_assoc,Nat.add_assoc]

structure Coherent (log : AuditLog) : Prop where
  contiguous : Contiguous 1 log.layout
  bounded : log.segments.length ≤ akLogMaxSegments
  count : log.headSeq.toNat = log.entries.length
  numbered : ∀ place entry, log.entries[place]? = some entry → entry.seq.toNat = place + 1

theorem Coherent.of_same (same : SameBody first second) (coherent : Coherent second) : Coherent first where
  contiguous := same.layout ▸ coherent.contiguous
  bounded := by
    have sizes := congrArg List.length same.layout
    rw [AuditLog.layout,AuditLog.layout,List.length_map,List.length_map] at sizes
    exact sizes ▸ coherent.bounded
  count := by rw [same.headSeq,same.entries,coherent.count]
  numbered := same.entries ▸ coherent.numbered

theorem flatMap_length_le :
    (segments.flatMap LogSegment.entries).length ≤ segments.length * akLogSegmentSize := by
  induction segments with
  | nil => simp
  | cons segment rest ih =>
    rw [List.flatMap_cons,List.length_append,List.length_cons,Nat.add_mul,Nat.one_mul,Nat.add_comm]
    exact Nat.add_le_add ih segment.fits

theorem Coherent.small (coherent : Coherent log) : log.entries.length ≤ 1000000 :=
  (flatMap_length_le log.segments).trans (Nat.mul_le_mul_right akLogSegmentSize coherent.bounded)

theorem toNat_next {seq : UInt64} (room : seq.toNat + 1 < 2 ^ 64) : (seq + 1).toNat = seq.toNat + 1 := by
  have one : (1 : UInt64).toNat = 1 := rfl
  rw [UInt64.toNat_add]
  omega

theorem Coherent.next_seq (coherent : Coherent log) : (log.headSeq + 1).toNat = log.entries.length + 1 := by
  have small := coherent.small
  rw [← coherent.count] at small ⊢
  exact toNat_next (by omega)

theorem find_contiguous
    (contiguous : Contiguous next (segments.map fun segment => (segment.startSeq,segment.entries)))
    (small : next + (segments.flatMap LogSegment.entries).length < 2 ^ 64) :
    ((segments.find? (·.covers seq)).bind fun segment => segment.entries[(seq - segment.startSeq).toNat]?) =
      if seq.toNat < next then none else (segments.flatMap LogSegment.entries)[seq.toNat - next]? := by
  induction segments generalizing next with
  | nil => simp
  | cons segment rest ih =>
    obtain ⟨start,later⟩ := contiguous
    rw [List.flatMap_cons,List.length_append] at small
    rw [List.flatMap_cons]
    have ends : (segment.startSeq + UInt64.ofNat segment.entries.length).toNat = next + segment.entries.length := by
      rw [UInt64.toNat_add,UInt64.toNat_ofNat',start]
      omega
    have inside : segment.covers seq = true ↔ next ≤ seq.toNat ∧ seq.toNat < next + segment.entries.length := by
      rw [LogSegment.covers,Bool.and_eq_true,decide_eq_true_iff,decide_eq_true_iff,UInt64.le_iff_toNat_le,UInt64.lt_iff_toNat_lt,
        start,ends]
    by_cases here : next ≤ seq.toNat ∧ seq.toNat < next + segment.entries.length
    · have offset : (seq - segment.startSeq).toNat = seq.toNat - next := by
        have ordered : segment.startSeq ≤ seq := by
          rw [UInt64.le_iff_toNat_le,start]
          exact here.1
        rw [UInt64.toNat_sub_of_le _ _ ordered,start]
      have early : seq.toNat - next < segment.entries.length := by omega
      rw [List.find?_cons_of_pos (by exact inside.mpr here),Option.bind_some,offset,if_neg (by omega),
        List.getElem?_append_left early]
    rw [List.find?_cons_of_neg (by exact fun found => here (inside.mp found)),
      ih (next + segment.entries.length) later (by omega)]
    by_cases before : seq.toNat < next
    · rw [if_pos before,if_pos (by omega)]
    have beyond : segment.entries.length ≤ seq.toNat - next := by omega
    rw [if_neg before,if_neg (by omega),List.getElem?_append_right beyond]
    congr 1
    omega

theorem Coherent.getEntryBySeq_eq (coherent : Coherent log) (seq : UInt64) :
    getEntryBySeq log seq = if seq.toNat < 1 then none else log.entries[seq.toNat - 1]? := by
  apply find_contiguous log.segments 1 seq coherent.contiguous
  have small := coherent.small
  rw [AuditLog.entries] at small
  omega

structure Grown (entry : LogEntry) (log after : AuditLog) : Prop where
  coherent : Coherent log → Coherent after
  entries : after.entries = log.entries ++ [entry]
  headSeq : after.headSeq = log.headSeq + 1
  headHash : after.headHash = entry.thisHash

theorem getCurrentSegment_spec (log : AuditLog)
    (found : { log : AuditLog // log.current.entries.length < akLogSegmentSize })
    (some : getCurrentSegment segmentAlloc log = some found) :
    found.1.entries = log.entries ∧ found.1.headSeq = log.headSeq ∧ found.1.headHash = log.headHash ∧
      (Coherent log → Coherent found.1) := by
  unfold getCurrentSegment segmentWithRoom at some
  split at some
  · cases some
    exact ⟨rfl,rfl,rfl,id⟩
  split at some
  · simp at some
  rename_i full limit
  split at some
  · simp at some
  cases some
  have same : AuditLog.entries { log with earlier := log.segments, current := .empty (log.headSeq + 1) } =
      log.entries := by
    simp [AuditLog.entries,AuditLog.segments,LogSegment.empty]
  refine ⟨same,rfl,rfl,fun coherent => ⟨?_,?_,?_,?_⟩⟩
  · have start : (log.headSeq + 1).toNat = 1 + log.entries.length := by rw [coherent.next_seq,Nat.add_comm]
    have shape : AuditLog.layout { log with earlier := log.segments, current := .empty (log.headSeq + 1) } =
        log.layout ++ [(log.headSeq + 1,[])] := by
      simp [AuditLog.layout,AuditLog.segments,LogSegment.empty]
    rw [shape,contiguous_append,← entries_eq_layout]
    exact ⟨coherent.contiguous,start,trivial⟩
  · simp only [AuditLog.segments,List.length_append,List.length_singleton] at limit ⊢
    omega
  · rw [same]
    exact coherent.count
  · rw [same]
    exact coherent.numbered

theorem extended_coherent {log : AuditLog} (room : log.current.entries.length < akLogSegmentSize)
    {entry : LogEntry} (next : entry.seq = log.headSeq + 1) (coherent : Coherent log) :
    Coherent (extended log room entry) := by
  have added : (extended log room entry).entries = log.entries ++ [entry] := by
    simp [AuditLog.entries,AuditLog.segments,extended,LogSegment.push]
  have number : entry.seq.toNat = log.entries.length + 1 := next ▸ coherent.next_seq
  constructor
  · have shape : log.layout = log.earlier.map (fun segment => (segment.startSeq,segment.entries)) ++
        [(log.current.startSeq,log.current.entries)] := by
      simp [AuditLog.layout,AuditLog.segments]
    have longer : (extended log room entry).layout =
        log.earlier.map (fun segment => (segment.startSeq,segment.entries)) ++
          [(log.current.startSeq,log.current.entries ++ [entry])] := by
      simp [AuditLog.layout,AuditLog.segments,extended,LogSegment.push]
    have old := coherent.contiguous
    rw [shape,contiguous_append] at old
    rw [longer,contiguous_append]
    exact ⟨old.1,old.2.1,trivial⟩
  · simpa [AuditLog.segments,extended] using coherent.bounded
  · rw [added,List.length_append]
    exact number
  · intro place listed found
    rw [added,List.getElem?_append] at found
    split at found
    · exact coherent.numbered place listed found
    rename_i beyond
    obtain ⟨offset,equal⟩ := List.getElem?_eq_some_iff.mp found
    have last : place = log.entries.length := by
      simp only [List.length_singleton] at offset
      omega
    subst last
    simp only [Nat.sub_self,List.getElem_cons_zero] at equal
    rw [← equal]
    exact number

def SegmentAvailable (segmentAlloc : Bool) (log : AuditLog) : Prop :=
  log.current.entries.length < akLogSegmentSize ∨
    log.segments.length < akLogMaxSegments ∧ segmentAlloc = true

theorem getCurrentSegment_isSome (log : AuditLog) :
    (getCurrentSegment segmentAlloc log).isSome = true ↔ SegmentAvailable segmentAlloc log := by
  unfold getCurrentSegment segmentWithRoom SegmentAvailable
  split
  · rename_i room
    simp [room]
  rename_i full
  split
  · rename_i limit
    simp [full,Nat.not_lt.mpr limit]
  · rename_i limit
    cases segmentAlloc <;> simp [full,Nat.not_le.mp limit]

theorem akAuditAppend_full {env : AppendEnv} (record : LogRecord) {log : AuditLog}
    (full : ¬SegmentAvailable env.segmentAlloc log) : akAuditAppend env record log = (log,akELogFull) := by
  rw [← getCurrentSegment_isSome,Option.isSome_iff_ne_none,not_not] at full
  rw [akAuditAppend,full]

theorem akAuditAppend_grown {env : AppendEnv} (record : LogRecord) {log : AuditLog}
    (available : SegmentAvailable env.segmentAlloc log) :
    Grown (newEntry env record log) log (akAuditAppend env record log).1 ∧
      (akAuditAppend env record log).2 = (log.headSeq + 1).toInt64.toInt := by
  rw [← getCurrentSegment_isSome,Option.isSome_iff_exists] at available
  obtain ⟨⟨base,room⟩,found⟩ := available
  obtain ⟨sameEntries,sameSeq,sameHash,keeps⟩ := getCurrentSegment_spec _ _ _ found
  dsimp only at sameEntries sameSeq sameHash keeps
  have entry : newEntry env record base = newEntry env record log := by
    simp only [newEntry,unhashedEntry,sameSeq,sameHash]
  rw [akAuditAppend,found]
  dsimp only
  rw [entry]
  have body : SameBody
      (if (newEntry env record log).seq % akAnchorInterval = 0 then
        (akAuditEmitAnchor env.anchor (akAuditSync env.sync (extended base room (newEntry env record log)))).1
        else akAuditSync env.sync (extended base room (newEntry env record log)))
      (extended base room (newEntry env record log)) := by
    have synced := akAuditSync_body env.sync (extended base room (newEntry env record log))
    split
    · have anchored := akAuditEmitAnchor_body env.anchor
        (akAuditSync env.sync (extended base room (newEntry env record log)))
      exact ⟨anchored.layout.trans synced.layout,anchored.headSeq.trans synced.headSeq,
        anchored.headHash.trans synced.headHash⟩
    · exact synced
  refine ⟨⟨fun coherent => ?_,?_,?_,?_⟩,rfl⟩
  · refine .of_same body (extended_coherent room ?_ (keeps coherent))
    rw [sameSeq]
    rfl
  · rw [body.entries,← sameEntries]
    simp [AuditLog.entries,AuditLog.segments,extended,LogSegment.push]
  · rw [body.headSeq]
    rfl
  · rw [body.headHash]
    rfl

inductive AuditCall
  | append (env : AppendEnv) (record : LogRecord)
  | emitAnchor (env : AnchorEnv)
  | sync (env : SyncEnv)
  | openStorage (opened : Bool)

def auditStep (log : AuditLog) : AuditCall → AuditLog
  | .append env record => (akAuditAppend env record log).1
  | .emitAnchor env => (akAuditEmitAnchor env log).1
  | .sync env => akAuditSync env log
  | .openStorage opened => (akAuditOpenStorage opened log).1

def givenSeq (log : AuditLog) : AuditCall → Option Int
  | .append env record =>
      if 0 < (akAuditAppend env record log).2 then some (akAuditAppend env record log).2 else none
  | _ => none

inductive Stepped (log : AuditLog) (call : AuditCall) : Prop
  | still (same : SameBody (auditStep log call) log) (unnumbered : givenSeq log call = none)
  | grown (env : AppendEnv) (record : LogRecord) (appends : call = .append env record)
      (grows : Grown (newEntry env record log) log (auditStep log call))
      (numbered : Coherent log → givenSeq log call = some ((log.headSeq.toNat + 1 : Nat) : Int))

theorem seq_positive (log : AuditLog) (coherent : Coherent log) :
    (log.headSeq + 1).toInt64.toInt = ((log.headSeq.toNat + 1 : Nat) : Int) := by
  have small := coherent.small
  rw [coherent.count,← coherent.next_seq]
  apply BitVec.toInt_eq_toNat_of_lt
  change 2 * (log.headSeq + 1).toNat < _
  rw [coherent.next_seq]
  omega

theorem call_stepped (log : AuditLog) (call : AuditCall) : Stepped log call := by
  cases call with
  | emitAnchor env => exact .still (akAuditEmitAnchor_body env log) rfl
  | sync env => exact .still (akAuditSync_body env log) rfl
  | openStorage opened => exact .still (akAuditOpenStorage_body opened log) rfl
  | append env record =>
    by_cases available : SegmentAvailable env.segmentAlloc log
    · obtain ⟨grows,code⟩ := akAuditAppend_grown record available
      refine .grown env record rfl grows fun coherent => ?_
      rw [givenSeq,code,seq_positive log coherent,if_pos (by omega)]
    have full := akAuditAppend_full record available
    refine .still ?_ ?_
    · rw [auditStep,full]
      exact ⟨rfl,rfl,rfl⟩
    · rw [givenSeq,full]
      rfl

theorem auditStep_coherent (log : AuditLog) (call : AuditCall) (coherent : Coherent log) :
    Coherent (auditStep log call) := by
  cases call_stepped log call with
  | still same => exact .of_same same coherent
  | grown env record appends grows => exact grows.coherent coherent

theorem coherent_init : Coherent (akAuditInit file) where
  contiguous := ⟨rfl,trivial⟩
  bounded := show 1 ≤ akLogMaxSegments by decide
  count := rfl
  numbered := by simp [AuditLog.entries,AuditLog.segments,akAuditInit,LogSegment.empty]

def numbers (count : Nat) : List Int := (List.range count).map fun place => ((place + 1 : Nat) : Int)

theorem run_numbers (log : AuditLog) (calls : List AuditCall) (coherent : Coherent log) :
    numbers log.headSeq.toNat ++ Run.outputs auditStep givenSeq log calls =
      numbers (Run.run auditStep log calls).headSeq.toNat := by
  induction calls generalizing log with
  | nil => simp [Run.outputs]
  | cons call rest ih =>
    have next := auditStep_coherent log call coherent
    rw [Run.outputs,Run.run_cons,← ih _ next]
    cases call_stepped log call with
    | still same unnumbered => rw [unnumbered,same.headSeq,Option.toList_none,List.nil_append]
    | grown env record appends grows numbered =>
      have longer : (auditStep log call).headSeq.toNat = log.headSeq.toNat + 1 := by
        rw [next.count,grows.entries,List.length_append,List.length_singleton,coherent.count]
      rw [numbered coherent,longer,numbers,numbers,List.range_succ,List.map_append]
      simp

def readFrom (log : AuditLog) (seq : UInt64) : Nat → Option (List LogEntry)
  | 0 => some []
  | count + 1 => (getEntryBySeq log seq).bind fun entry => (readFrom log (seq + 1) count).map (entry :: ·)

def computes : HashEnv := ⟨true,true⟩

theorem akAuditComputeEntryHash_computes (prevHash : Block 32) :
    akAuditComputeEntryHash computes entry prevHash = akChain.digest prevHash entry := by
  simp [akAuditComputeEntryHash,computes,akChain]

theorem signed_eq_zero (zero : seq.toInt64.toInt = 0) : seq = 0 := by
  have bits : seq.toBitVec.toInt = (0 : BitVec 64).toInt := zero
  exact UInt64.toBitVec_inj.mp (BitVec.toInt_inj.mp bits)

theorem verifyLoop_eq_zero (log : AuditLog) (seq : UInt64) (expected : Block 32) (count : Nat)
    (positive : 0 < seq.toNat) (room : seq.toNat + count ≤ 2 ^ 64) :
    verifyLoop (fun _ => computes) log seq expected count = 0 ↔
      ∃ entries, readFrom log seq count = some entries ∧ HashChain.Linked akChain expected entries := by
  induction count generalizing seq expected with
  | zero => simp [verifyLoop,readFrom,HashChain.Linked]
  | succ count ih =>
    have nonzero : seq.toInt64.toInt ≠ 0 := by
      intro zero
      rw [signed_eq_zero seq zero] at positive
      exact absurd positive (by decide)
    rw [verifyLoop,readFrom]
    cases found : getEntryBySeq log seq with
    | none => simp [nonzero]
    | some entry =>
      simp only [Option.bind_some,Option.map_eq_some_iff]
      by_cases chained : entry.prevHash = expected
      · by_cases hashed : entry.thisHash = akChain.digest entry.prevHash entry
        · have right : entry.thisHash = akAuditComputeEntryHash computes entry entry.prevHash := hashed
          rw [if_neg (not_not.mpr chained),if_neg (not_not.mpr right)]
          rcases Nat.eq_zero_or_pos count with rfl | more
          · simp [verifyLoop,readFrom,HashChain.Linked,akChain] at hashed ⊢
            exact ⟨chained,hashed⟩
          have next := @toNat_next seq (by omega)
          rw [ih (seq + 1) entry.thisHash (by omega) (by omega)]
          constructor
          · rintro ⟨entries,read,linked⟩
            exact ⟨entry :: entries,⟨entries,read,rfl⟩,chained,hashed,linked⟩
          · rintro ⟨_,⟨entries,read,rfl⟩,linked⟩
            exact ⟨entries,read,linked.2.2⟩
        · have wrong : entry.thisHash ≠ akAuditComputeEntryHash computes entry entry.prevHash := hashed
          rw [if_neg (not_not.mpr chained),if_pos wrong]
          refine iff_of_false nonzero ?_
          rintro ⟨_,⟨entries,read,rfl⟩,linked⟩
          exact hashed linked.2.1
      · rw [if_pos chained]
        refine iff_of_false nonzero ?_
        rintro ⟨_,⟨entries,read,rfl⟩,linked⟩
        exact chained linked.1

theorem akAuditVerify_eq_zero (log : AuditLog) :
    akAuditVerify (fun _ => computes) log = 0 ↔
      ∃ entries, readFrom log 1 log.headSeq.toNat = some entries ∧ HashChain.Linked akChain akGenesisHash entries := by
  have range := log.headSeq.toNat_lt
  have one : (1 : UInt64).toNat = 1 := rfl
  have count : (if (1 : UInt64) ≤ log.headSeq then (log.headSeq - 1).toNat + 1 else 0) = log.headSeq.toNat := by
    split
    · rename_i some
      rw [UInt64.toNat_sub_of_le _ _ some]
      rw [UInt64.le_iff_toNat_le] at some
      omega
    · rename_i none
      rw [UInt64.le_iff_toNat_le] at none
      omega
  rw [akAuditVerify,akAuditVerifyRange,if_pos rfl,count]
  exact verifyLoop_eq_zero log 1 akGenesisHash log.headSeq.toNat (by decide) (by omega)

theorem Coherent.readFrom_eq (coherent : Coherent log) (seq : UInt64) (count : Nat) (positive : 0 < seq.toNat)
    (inside : seq.toNat - 1 + count ≤ log.entries.length) :
    readFrom log seq count = some ((log.entries.drop (seq.toNat - 1)).take count) := by
  induction count generalizing seq with
  | zero => simp [readFrom]
  | succ count ih =>
    have small := coherent.small
    have next := @toNat_next seq (by omega)
    have here : seq.toNat - 1 < log.entries.length := by omega
    rw [readFrom,coherent.getEntryBySeq_eq,if_neg (by omega),List.getElem?_eq_getElem here,Option.bind_some,
      ih (seq + 1) (by omega) (by omega),List.drop_eq_getElem_cons here,List.take_succ_cons,Option.map_some,next]
    congr 4
    omega

theorem Coherent.verify_iff (coherent : Coherent log) :
    akAuditVerify (fun _ => computes) log = 0 ↔ HashChain.Linked akChain akGenesisHash log.entries := by
  have whole : readFrom log 1 log.headSeq.toNat = some log.entries := by
    rw [coherent.readFrom_eq 1 log.headSeq.toNat (by decide) (by simp [coherent.count])]
    simp [coherent.count]
  rw [akAuditVerify_eq_zero,whole]
  simp

theorem newEntry_hash (env : AppendEnv) (record : LogRecord) (log : AuditLog) (computed : env.hash = computes) :
    (newEntry env record log).thisHash = akChain.digest log.headHash (newEntry env record log) := by
  have text : akLogEntryCanonicalize (newEntry env record log) =
      akLogEntryCanonicalize (unhashedEntry env.clock record log) := rfl
  have hash : (newEntry env record log).thisHash =
      akAuditComputeEntryHash env.hash (unhashedEntry env.clock record log) log.headHash := rfl
  rw [hash,computed,akAuditComputeEntryHash_computes]
  simp only [akChain,text]

def HashComputed : AuditCall → Prop
  | .append env _ => env.hash = computes
  | _ => True

/-- The chain of the entries is unbroken up to the head. -/
structure Intact (log : AuditLog) : Prop where
  coherent : Coherent log
  linked : HashChain.Linked akChain akGenesisHash log.entries
  head : log.headHash = HashChain.tip akChain akGenesisHash log.entries

theorem intact_init : Intact (akAuditInit file) := by
  have none : (akAuditInit file).entries = [] := by
    simp [AuditLog.entries,AuditLog.segments,akAuditInit,LogSegment.empty]
  refine ⟨coherent_init file,?_,?_⟩
  · rw [none]
    trivial
  · rw [none]
    rfl

theorem auditStep_intact {log : AuditLog} {call : AuditCall} (computed : HashComputed call) (intact : Intact log) :
    Intact (auditStep log call) := by
  have coherent := auditStep_coherent log call intact.coherent
  cases call_stepped log call with
  | still same =>
    refine ⟨coherent,?_,?_⟩
    · rw [same.entries]
      exact intact.linked
    · rw [same.headHash,same.entries]
      exact intact.head
  | grown env record appends grows =>
    subst appends
    refine ⟨coherent,?_,?_⟩
    · rw [grows.entries,HashChain.linked_snoc]
      exact ⟨intact.linked,intact.head,newEntry_hash env record log computed⟩
    · rw [grows.entries,HashChain.tip_snoc]
      exact grows.headHash

theorem run_intact (calls : List AuditCall) (computed : ∀ call ∈ calls, HashComputed call) :
    Intact (Run.run auditStep (akAuditInit file) calls) := by
  induction calls using List.reverseRecOn with
  | nil => exact intact_init file
  | append_singleton earlier call ih =>
    rw [Run.run_append,Run.run_cons,Run.run_nil]
    apply auditStep_intact (computed call (by simp))
    exact ih fun other member => computed other (by simp [member])

/-- In a run whose appends all compute their hashes, the numbers given out are those up to
the head, each is found under its number, and the chain verifies. -/
theorem run_verifies (file : Bytes) (calls : List AuditCall) (computed : ∀ call ∈ calls, HashComputed call) :
    Run.outputs auditStep givenSeq (akAuditInit file) calls =
        numbers (Run.run auditStep (akAuditInit file) calls).headSeq.toNat ∧
      (∀ seq, 1 ≤ seq → seq ≤ (Run.run auditStep (akAuditInit file) calls).headSeq →
        (getEntryBySeq (Run.run auditStep (akAuditInit file) calls) seq).map LogEntry.seq = some seq) ∧
      akAuditVerify (fun _ => computes) (Run.run auditStep (akAuditInit file) calls) = 0 := by
  have intact := run_intact file calls computed
  have coherent := intact.coherent
  refine ⟨?_,?_,coherent.verify_iff.mpr intact.linked⟩
  · exact run_numbers (akAuditInit file) calls (coherent_init file)
  · intro seq positive within
    rw [UInt64.le_iff_toNat_le] at positive within
    have one : (1 : UInt64).toNat = 1 := rfl
    have here : seq.toNat - 1 < (Run.run auditStep (akAuditInit file) calls).entries.length := by
      rw [← coherent.count]
      omega
    have number := coherent.numbered _ _ (List.getElem?_eq_getElem here)
    rw [coherent.getEntryBySeq_eq,if_neg (by omega),List.getElem?_eq_getElem here,Option.map_some,Option.some.injEq]
    apply UInt64.toNat_inj.mp
    omega

def blankRecord : LogRecord where
  pid := Block.zero 16
  runId := Block.zero 16
  op := 0
  reqHash := Block.zero 32
  resHash := Block.zero 32
  policyHash := Block.zero 32

def smoothSync : SyncEnv := ⟨true,fun _ => true,true,true,true,fun _ => 0⟩

def appendWith (hash : HashEnv) : AppendEnv := ⟨true,0,hash,smoothSync,⟨0,true⟩⟩

/-- The table of anchors is full and does not grow between the two appends. -/
def crowdedRun : List AuditCall :=
  .append (appendWith computes) blankRecord :: List.replicate 100 (.emitAnchor ⟨0,true⟩) ++
    [.emitAnchor ⟨0,false⟩,.append (appendWith computes) blankRecord,.sync smoothSync]

theorem crowded_run_verifies :
    Run.outputs auditStep givenSeq (akAuditInit []) crowdedRun = [1,2] ∧
      (Run.run auditStep (akAuditInit []) crowdedRun).anchors.length = 100 ∧
      akAuditVerify (fun _ => computes) (Run.run auditStep (akAuditInit []) crowdedRun) = 0 := by
  have holds := run_verifies [] crowdedRun (by simp [crowdedRun,HashComputed,appendWith])
  exact ⟨by decide +kernel,by decide +kernel,holds.2.2⟩

/-- Without memory for its hash an entry enters the log with zeros for it. -/
theorem unhashed_append_breaks :
    Run.outputs auditStep givenSeq (akAuditInit []) [.append (appendWith ⟨false,true⟩) blankRecord] = [1] ∧
      akAuditVerify (fun _ => computes)
        (Run.run auditStep (akAuditInit []) [.append (appendWith ⟨false,true⟩) blankRecord]) = 1 :=
  ⟨by decide +kernel,by decide +kernel⟩

end AuthorityKernel.Audit
