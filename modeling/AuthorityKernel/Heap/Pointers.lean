import AuthorityKernel.Heap.Interleaving
import AuthorityKernel.Heap.Snapshot

/-! The pointers of the heap. Allocations take the next pointer and a snapshot brings its own,
so the next pointer stays ahead of all of them until the last one of the machine word is
stored; behind that one there is none. -/
namespace AuthorityKernel.Heap
open Library

/-- Taking a snapshot only reads the heap, so it is no call here. -/
inductive StoreCall
  | plain (call : HeapCall)
  | purgeVersions (keepCount : UInt64)
  | commit (env : Nat → ApplyEnv) (txn : HeapTxn)
  | restore (env : RestoreEnv) (snapshot : Option Bytes)

/-- `dangling` records that some version list points at freed entries, as a purge leaves it
that keeps no version; the next write and purge free them again. -/
structure Store where
  heap : HeapState
  dangling : Bool

def storeStep (store : Store) : StoreCall → Store
  | .plain call => { store with heap := callStep store.heap call }
  | .purgeVersions keepCount =>
      let purged := akHeapPurgeVersions keepCount store.heap
      ⟨purged.1,store.dangling || (keepCount == 0 && purged.2 != 0)⟩
  | .commit env txn => { store with heap := (akHeapTxnCommit env txn store.heap).1 }
  | .restore env snapshot => { store with heap := (akHeapRestore env snapshot store.heap).1 }

def lastPtr : UInt64 := 0xffffffffffffffff

instance (env : AllocEnv) (typeHash : UInt64) (value : Option Bytes) (s : HeapState) :
    Decidable (Allocates env typeHash value s) :=
  decidable_of_iff (value.isSome = true ∧ s.initialized = true ∧ akHeapValidateSchema s typeHash value = true ∧
      env.objectAlloc = true ∧ env.valueAlloc = true)
    ⟨fun ⟨copied,ready,valid,objectAlloc,valueAlloc⟩ => ⟨copied,ready,valid,objectAlloc,valueAlloc⟩,
      fun ⟨copied,ready,valid,objectAlloc,valueAlloc⟩ => ⟨copied,ready,valid,objectAlloc,valueAlloc⟩⟩

/-- An allocation that finds its memory and matches its schema takes one pointer. -/
def TxnOp.grants (env : ApplyEnv) (s : HeapState) : TxnOp → Nat
  | .alloc _ typeHash value _ _ => if Allocates env.alloc typeHash value s then 1 else 0
  | _ => 0

def grantedAllocs (env : Nat → ApplyEnv) (s : HeapState) : Nat → List TxnOp → Nat
  | _, [] => 0
  | place, op :: rest => op.grants (env place) s + grantedAllocs env s (place + 1) rest

def restoredObjects (env : RestoreEnv) : Nat → List StoredObject → List StoredObject
  | _, [] => []
  | place, stored :: rest => if env.memory place then stored :: restoredObjects env (place + 1) rest else []

/-- The call stores nothing under the last pointer, and a purge that frees versions keeps some. -/
def SparesLast (s : HeapState) : StoreCall → Prop
  | .plain (.alloc env typeHash value _ _) => Allocates env typeHash value s → s.nextPtr ≠ lastPtr
  | .purgeVersions keepCount => keepCount = 0 → (akHeapPurgeVersions keepCount s).2 = 0
  | .commit env txn =>
      txn.active = true → txnValidate s txn.ops = 0 → s.nextPtr.toNat + grantedAllocs env s 0 txn.ops < 2 ^ 64
  | .restore env (some text) => ∀ stored ∈ restoredObjects env 0 (readSnapshot text).objects, stored.ptr ≠ lastPtr
  | _ => True

/-- Stored pointers are non-zero, pairwise distinct and below the next pointer, and an
allocation leaves every stored object alone. -/
structure PointerInvariant (s : HeapState) : Prop where
  positive : ∀ ptr ∈ s.objects.keys HeapObject.ptr, ptr ≠ 0
  distinct : (s.objects.keys HeapObject.ptr).Nodup
  below : ∀ ptr ∈ s.objects.keys HeapObject.ptr, ptr < s.nextPtr
  untouched : ∀ env typeHash value runId taint ptr object, findObject s ptr = some object →
    findObject (akHeapAlloc env typeHash value runId taint s).1 ptr = some object

def InOrder (store : Store) : Prop := store.dangling = false ∧ PointerInvariant store.heap

variable (fuel : Nat) (env : RestoreEnv) (text : Bytes) (objects : List StoredObject) (place : Nat)

theorem pointerInvariant_of_sound (s : HeapState) (sound : Sound s) : PointerInvariant s where
  positive := sound.ordered.positive
  distinct := sound.ordered.keyed.keys_nodup
  below := sound.ordered.below
  untouched := by
    intro env typeHash value runId taint ptr object found
    by_cases allocates : Allocates env typeHash value s
    · obtain ⟨bytes,-,-,acted⟩ := akHeapAlloc_acted env typeHash value runId taint s allocates
      rw [acted.findObject_create sound.ready,if_neg (UInt64.ne_of_lt (sound.ordered.lt_next ptr object found)),found]
    · rw [akHeapAlloc_refused runId taint allocates,found]

theorem not_invariant_of_last (s : HeapState) (stored : lastPtr ∈ s.objects.keys HeapObject.ptr) :
    ¬PointerInvariant s := by
  intro invariant
  have above := UInt64.lt_iff_toNat_lt.mp (invariant.below lastPtr stored)
  have bound := s.nextPtr.toNat_lt
  have last : lastPtr.toNat = 2 ^ 64 - 1 := rfl
  omega

inductive OpTaken (s after : HeapState) : Nat → Prop
  | idle (same : after = s) : OpTaken s after 0
  | changed (ptr : UInt64) (update : HeapObject → HeapObject) (acted : Acted (.change ptr update) s after) :
      OpTaken s after 0
  | created (object : HeapObject) (acted : Acted (.create object) s after) : OpTaken s after 1

theorem txnApplyOp_taken (env : ApplyEnv) (s : HeapState) (op : TxnOp) (ready : s.initialized = true) :
    OpTaken s (txnApplyOp env s op) (op.grants env s) := by
  cases op with
  | alloc provisional typeHash value runId taint =>
    simp only [TxnOp.grants]
    split
    · rename_i allocates
      obtain ⟨bytes,-,-,acted⟩ := akHeapAlloc_acted env.alloc typeHash value runId taint s allocates
      exact .created _ acted
    · rename_i short
      exact .idle (congrArg Prod.fst (akHeapAlloc_refused runId taint short))
  | write ptr patch expectedVersion =>
    by_cases writes : ∃ object value, Writes env.write ptr patch expectedVersion s object value
    · obtain ⟨object,value,writes⟩ := writes
      exact .changed ptr _ (akHeapWrite_acted writes).2
    · exact .idle (akHeapWrite_refused env.write ptr patch expectedVersion s
        fun object value held => writes ⟨object,value,held⟩).1
  | delete ptr expectedVersion =>
    cases current : casObject s ptr expectedVersion with
    | ok object => exact .changed ptr _ (akHeapDelete_acted env.delete ready current).2
    | error code =>
      exact .idle (akHeapDelete_refused env.delete ptr expectedVersion s
        fun _ object found => by simp [current] at found).1

namespace OpTaken

variable {s after : HeapState} {count : Nat}

theorem ready (taken : OpTaken s after count) :
    after.schemas = s.schemas ∧ after.initialized = s.initialized := by
  cases taken with
  | idle same => exact same ▸ ⟨rfl,rfl⟩
  | changed ptr update acted => exact ⟨acted.schemas,acted.initialized⟩
  | created object acted => exact ⟨acted.schemas,acted.initialized⟩

theorem keys (taken : OpTaken s after count) (ptr : UInt64) (stored : ptr ∈ s.objects.keys HeapObject.ptr) :
    ptr ∈ after.objects.keys HeapObject.ptr := by
  cases taken with
  | idle same => rwa [same]
  | changed changedPtr update acted =>
    rw [acted.objects]
    exact (ChainTable.mem_keys_modify _ _ _ acted.keepsPtr).mpr stored
  | created object acted =>
    rw [acted.objects]
    exact (ChainTable.mem_keys_insert _ _ _).mpr (Or.inr stored)

end OpTaken

theorem grantedAllocs_congr {first second : HeapState} (schemas : first.schemas = second.schemas)
    (initialized : first.initialized = second.initialized) (env : Nat → ApplyEnv) (place : Nat) (ops : List TxnOp) :
    grantedAllocs env first place ops = grantedAllocs env second place ops := by
  induction ops generalizing place with
  | nil => rfl
  | cons op rest ih =>
    have here : op.grants (env place) first = op.grants (env place) second := by
      cases op <;> simp only [TxnOp.grants,allocates_congr schemas initialized]
    rw [grantedAllocs,here,ih,grantedAllocs]

theorem txnApply_keys (env : Nat → ApplyEnv) (ops : List TxnOp) (place : Nat) (s : HeapState)
    (ready : s.initialized = true) (ptr : UInt64) (stored : ptr ∈ s.objects.keys HeapObject.ptr) :
    ptr ∈ (txnApply env place s ops).objects.keys HeapObject.ptr := by
  induction ops generalizing place s with
  | nil => exact stored
  | cons op rest ih =>
    have taken := txnApplyOp_taken (env place) s op ready
    exact ih _ _ (taken.ready.2.trans ready) (taken.keys ptr stored)

theorem room_of_ne_last (ptr : UInt64) (spared : ptr ≠ lastPtr) : ptr.toNat + 1 < 2 ^ 64 := by
  have bound := ptr.toNat_lt
  have different : ptr.toNat ≠ lastPtr.toNat := fun same => spared (UInt64.toNat_inj.mp same)
  have last : lastPtr.toNat = 2 ^ 64 - 1 := rfl
  omega

structure Numbered (nextPtr : UInt64) (needed : Nat) (after : HeapState) : Prop where
  enough : nextPtr.toNat + needed < 2 ^ 64 → Sound after
  short : 2 ^ 64 ≤ nextPtr.toNat + needed → lastPtr ∈ after.objects.keys HeapObject.ptr

theorem txnApply_numbered (env : Nat → ApplyEnv) (ops : List TxnOp) (place : Nat) (s : HeapState) (sound : Sound s) :
    Numbered s.nextPtr (grantedAllocs env s place ops) (txnApply env place s ops) := by
  induction ops generalizing place s with
  | nil =>
    have bound := s.nextPtr.toNat_lt
    exact ⟨fun _ => sound,fun short => absurd bound (Nat.not_lt.mpr short)⟩
  | cons op rest ih =>
    have taken := txnApplyOp_taken (env place) s op sound.ready
    rw [txnApply,grantedAllocs]
    generalize txnApplyOp (env place) s op = after at taken ⊢
    generalize op.grants (env place) s = count at taken ⊢
    have ready : after.initialized = true := taken.ready.2.trans sound.ready
    rw [← grantedAllocs_congr taken.ready.1 taken.ready.2]
    cases taken with
    | idle same =>
      rw [Nat.zero_add,← same]
      exact ih (place + 1) after (same ▸ sound)
    | changed ptr update acted =>
      have nextPtr : after.nextPtr = s.nextPtr := acted.nextPtr
      rw [Nat.zero_add,← nextPtr]
      exact ih (place + 1) after ⟨ready,sound.ordered.change acted⟩
    | created object acted =>
      by_cases last : s.nextPtr = lastPtr
      · have stored : lastPtr ∈ after.objects.keys HeapObject.ptr := by
          rw [acted.objects]
          exact (ChainTable.mem_keys_insert _ _ _).mpr (Or.inl (last.symm.trans acted.keepsPtr.symm))
        have top : s.nextPtr.toNat = 2 ^ 64 - 1 := congrArg UInt64.toNat last
        refine ⟨fun room => ?_,fun _ => txnApply_keys env rest (place + 1) after ready lastPtr stored⟩
        omega
      have room := room_of_ne_last s.nextPtr last
      have next : after.nextPtr.toNat = s.nextPtr.toNat + 1 := by
        rw [acted.nextPtr,TableAction.advance,UInt64.toNat_add]
        have one : (1 : UInt64).toNat = 1 := rfl
        omega
      obtain ⟨enough,short⟩ := ih (place + 1) after ⟨ready,sound.ordered.create acted room⟩
      rw [next,Nat.add_assoc] at enough short
      exact ⟨enough,short⟩

theorem readObject_positive {text : Bytes} {stored : StoredObject} (accepted : readObject text = .ok stored) :
    stored.ptr ≠ 0 := by
  unfold readObject at accepted
  split at accepted
  · cases accepted
  split at accepted
  · cases accepted
  rename_i positive
  split at accepted
  · cases accepted
  split at accepted
  · cases accepted
  cases accepted
  exact positive

theorem readEntries_positive : ∀ stored ∈ (readEntries fuel text).1, stored.ptr ≠ 0 := by
  fun_induction readEntries fuel text with
  | case1 | case2 | case3 | case7 => simp
  | case4 fuel text _ start after _ _ object accepted rest _ ih =>
    have positive := readObject_positive accepted
    exact List.forall_mem_cons.mpr ⟨positive,ih⟩
  | case5 _ _ _ _ _ _ _ _ accepted | case6 _ _ _ _ _ _ _ _ accepted =>
    simpa using readObject_positive accepted

theorem readSnapshot_positive : ∀ stored ∈ (readSnapshot text).objects, stored.ptr ≠ 0 := by
  unfold readSnapshot
  dsimp only
  split
  · simp
  split
  · simp
  · split
    · simp
    · rename_i object accepted
      simpa using readObject_positive accepted
  unfold readArray
  split
  · split
    · simp
    · exact readEntries_positive _ _
  · simp

structure Put (stored : StoredObject) (s after : HeapState) : Prop where
  initialized : after.initialized = s.initialized
  keys : ∀ ptr, ptr ∈ after.objects.keys HeapObject.ptr ↔ ptr = stored.ptr ∨ ptr ∈ s.objects.keys HeapObject.ptr
  nextPtr : after.nextPtr = if stored.ptr ≥ s.nextPtr then stored.ptr + 1 else s.nextPtr
  keyed : s.objects.WellKeyed bucketOf HeapObject.ptr → after.objects.WellKeyed bucketOf HeapObject.ptr

theorem putObject_put (clock : UInt64) (stored : StoredObject) (s : HeapState) (ready : s.initialized = true) :
    Put stored s (putObject clock stored s) := by
  unfold putObject
  dsimp only
  split
  · rename_i object found
    have known := mem_keys_of_findObject found
    refine ⟨rfl,fun ptr => ?_,rfl,fun keyed => keyed.modify stored.ptr _ fun _ => rfl⟩
    have same : ptr ∈ (s.objects.modify bucketOf HeapObject.ptr stored.ptr fun current =>
          stored.placed clock current.ptr).keys HeapObject.ptr ↔ ptr ∈ s.objects.keys HeapObject.ptr :=
      ChainTable.mem_keys_modify _ _ _ fun _ => rfl
    exact ⟨fun member => Or.inr (same.mp member),fun either => same.mpr (either.elim (fun here => here ▸ known) id)⟩
  · rename_i absent
    refine ⟨rfl,fun ptr => ChainTable.mem_keys_insert _ _ _,rfl,fun keyed => keyed.insert _ ?_⟩
    simpa [findObject,ready,StoredObject.placed] using absent

theorem Put.sound {stored : StoredObject} {s after : HeapState} (put : Put stored s after) (sound : Sound s)
    (positive : stored.ptr ≠ 0) (spared : stored.ptr ≠ lastPtr) : Sound after := by
  have room := room_of_ne_last stored.ptr spared
  have one : (1 : UInt64).toNat = 1 := rfl
  have above : s.nextPtr ≤ after.nextPtr ∧ stored.ptr < after.nextPtr := by
    rw [put.nextPtr]
    split
    · rename_i ahead
      simp only [UInt64.le_iff_toNat_le,UInt64.lt_iff_toNat_lt,ge_iff_le,UInt64.toNat_add] at ahead ⊢
      omega
    · rename_i behind
      exact ⟨UInt64.le_refl _,UInt64.not_le.mp behind⟩
  refine ⟨put.initialized.trans sound.ready,put.keyed sound.ordered.keyed,?_,?_,?_⟩
  · intro ptr member
    rcases (put.keys ptr).mp member with rfl | older
    · exact positive
    · exact sound.ordered.positive ptr older
  · intro ptr member
    rcases (put.keys ptr).mp member with rfl | older
    · exact above.2
    · exact UInt64.lt_of_lt_of_le (sound.ordered.below ptr older) above.1
  · intro wrapped
    exact absurd (wrapped ▸ above.2) UInt64.not_lt_zero

theorem putObjects_keys (s : HeapState) (ready : s.initialized = true) (ptr : UInt64)
    (stored : ptr ∈ s.objects.keys HeapObject.ptr ∨ ∃ object ∈ restoredObjects env place objects, object.ptr = ptr) :
    ptr ∈ (putObjects env place s objects).1.objects.keys HeapObject.ptr := by
  induction objects generalizing place s with
  | nil => simpa [restoredObjects,putObjects] using stored
  | cons object rest ih =>
    have put := putObject_put (env.clock place) object s ready
    simp only [putObjects,restoredObjects] at stored ⊢
    cases memory : env.memory place with
    | false => simpa [memory] using stored
    | true =>
      simp only [memory,Bool.not_true,Bool.false_eq_true,if_false,if_true,List.exists_mem_cons_iff] at stored ⊢
      refine ih _ _ (put.initialized.trans ready) ?_
      rcases stored with older | here | later
      · exact Or.inl ((put.keys ptr).mpr (Or.inr older))
      · exact Or.inl ((put.keys ptr).mpr (Or.inl here.symm))
      · exact Or.inr later

theorem putObjects_sound (s : HeapState) (sound : Sound s) (positive : ∀ object ∈ objects, object.ptr ≠ 0)
    (spared : ∀ object ∈ restoredObjects env place objects, object.ptr ≠ lastPtr) :
    Sound (putObjects env place s objects).1 := by
  induction objects generalizing place s with
  | nil => exact sound
  | cons object rest ih =>
    simp only [putObjects,restoredObjects] at spared ⊢
    cases memory : env.memory place with
    | false => exact sound
    | true =>
      simp only [memory,Bool.not_true,Bool.false_eq_true,if_false,if_true,List.forall_mem_cons] at spared ⊢
      have put := putObject_put (env.clock place) object s sound.ready
      obtain ⟨here,later⟩ := List.forall_mem_cons.mp positive
      exact ih _ _ (put.sound sound here spared.1) later spared.2

theorem akHeapRestore_cases (s : HeapState) (ready : s.initialized = true) :
    ∃ nextPtr, (putObjects env 0 s (readSnapshot text).objects).1.nextPtr ≤ nextPtr ∧
      (akHeapRestore env (some text) s).1 =
        { (putObjects env 0 s (readSnapshot text).objects).1 with nextPtr := nextPtr } := by
  by_cases empty : text = []
  · subst empty
    exact ⟨s.nextPtr,UInt64.le_refl _,by simp [akHeapRestore]; rfl⟩
  simp only [akHeapRestore,empty,ready,decide_false,Bool.not_true,Bool.or_self,Bool.false_eq_true,if_false]
  split
  · exact ⟨_,UInt64.le_refl _,rfl⟩
  split
  · exact ⟨_,UInt64.le_refl _,rfl⟩
  split
  · rename_i nextPtr _
    by_cases ahead : nextPtr > (putObjects env 0 s (readSnapshot text).objects).1.nextPtr
    · exact ⟨nextPtr,UInt64.le_of_lt ahead,by rw [if_pos ahead]⟩
    · exact ⟨_,UInt64.le_refl _,by rw [if_neg ahead]⟩
  · exact ⟨_,UInt64.le_refl _,rfl⟩

theorem restore_sound {env : RestoreEnv} {text : Bytes} {s : HeapState} (sound : Sound s)
    (spared : SparesLast s (.restore env (some text))) : Sound (akHeapRestore env (some text) s).1 := by
  obtain ⟨nextPtr,ahead,after⟩ := akHeapRestore_cases env text s sound.ready
  have restored := putObjects_sound env _ 0 s sound (readSnapshot_positive text) spared
  rw [after]
  refine ⟨restored.ready,restored.ordered.keyed,restored.ordered.positive,?_,?_⟩
  · exact fun ptr member => UInt64.lt_of_lt_of_le (restored.ordered.below ptr member) ahead
  · intro zero
    have positive := UInt64.pos_iff_ne_zero.mpr restored.ordered.next
    exact absurd (UInt64.lt_of_lt_of_le positive ahead) (zero ▸ UInt64.lt_irrefl 0)

theorem storeStep_sound (store : Store) (call : StoreCall) (sound : Sound store.heap)
    (spared : SparesLast store.heap call) : Sound (storeStep store call).heap := by
  cases call with
  | plain call =>
    refine call_sound call sound fun given => room_of_ne_last _ ?_
    cases call with
    | alloc env typeHash value runId taint =>
      refine spared ?_
      by_contra refused
      simp [handedOut,akHeapAlloc_refused runId taint refused] at given
    | _ => cases given
  | purgeVersions keepCount =>
    simp only [storeStep,akHeapPurgeVersions,sound.ready,Bool.not_true,Bool.false_eq_true,if_false]
    exact ⟨rfl,sound.ordered.keyed,sound.ordered.positive,sound.ordered.below,sound.ordered.next⟩
  | commit env txn =>
    simp only [storeStep,akHeapTxnCommit]
    split
    · exact sound
    rename_i active
    split
    · exact sound
    rename_i valid
    exact (txnApply_numbered env txn.ops 0 _ sound).enough (spared (by simpa using active) (not_not.mp valid))
  | restore env snapshot =>
    cases snapshot with
    | none => exact sound
    | some text => exact restore_sound sound spared

theorem storeStep_dangling {store : Store} {call : StoreCall} (listed : store.dangling = false)
    (spared : SparesLast store.heap call) : (storeStep store call).dangling = false := by
  cases call with
  | purgeVersions keepCount =>
    rw [storeStep,listed,Bool.false_or]
    by_cases all : keepCount = 0
    · simp [spared all]
    · simp [all]
  | plain | commit | restore => exact listed

theorem storeStep_taken {store : Store} {call : StoreCall} (sound : Sound store.heap)
    (taken : ¬SparesLast store.heap call) : ¬InOrder (storeStep store call) := by
  rintro ⟨listed,invariant⟩
  have unstored := fun stored => not_invariant_of_last _ stored invariant
  cases call with
  | plain call =>
    cases call with
    | alloc env typeHash value runId taint =>
      simp only [SparesLast,Classical.not_imp,not_not] at taken
      obtain ⟨bytes,-,-,acted⟩ := akHeapAlloc_acted env typeHash value runId taint store.heap taken.1
      simp only [storeStep,callStep,acted.objects] at unstored
      exact unstored ((ChainTable.mem_keys_insert _ _ _).mpr (Or.inl taken.2.symm))
    | _ => exact taken trivial
  | purgeVersions keepCount =>
    simp only [SparesLast,Classical.not_imp] at taken
    obtain ⟨rfl,freed⟩ := taken
    simp [storeStep,freed] at listed
  | commit env txn =>
    simp only [SparesLast,Classical.not_imp,Nat.not_lt] at taken
    obtain ⟨active,valid,short⟩ := taken
    simp only [storeStep,akHeapTxnCommit,active,valid,Bool.not_true,Bool.false_eq_true,if_false,ne_eq,
      not_true_eq_false] at unstored
    exact unstored ((txnApply_numbered env txn.ops 0 _ sound).short short)
  | restore env snapshot =>
    cases snapshot with
    | none => exact taken trivial
    | some text =>
      simp only [SparesLast,not_forall,not_not] at taken
      obtain ⟨stored,member,last⟩ := taken
      obtain ⟨nextPtr,-,after⟩ := akHeapRestore_cases env text store.heap sound.ready
      simp only [storeStep,after] at unstored
      exact unstored (putObjects_keys env _ 0 _ sound.ready lastPtr (Or.inr ⟨stored,member,last⟩))

/-- The pointers are in order and the version lists whole throughout a history exactly if no
call of it stores an object under the last pointer of the machine word and no purge frees
every version of an object. -/
theorem pointers_ordered_iff (calls : List StoreCall) :
    Run.Throughout storeStep InOrder ⟨akHeapInit,false⟩ calls ↔
      Run.Guarded storeStep (fun store call => SparesLast store.heap call) ⟨akHeapInit,false⟩ calls := by
  have implied (store : Store) (both : Sound store.heap ∧ store.dangling = false) : InOrder store :=
    ⟨both.2,pointerInvariant_of_sound store.heap both.1⟩
  refine Run.throughout_iff_of_invariant implied ?_ ?_ ⟨akHeapInit,false⟩ calls ⟨sound_init,rfl⟩
  · exact fun store call both spared => ⟨storeStep_sound store call both.1 spared,storeStep_dangling both.2 spared⟩
  · intro store call both holds
    by_contra taken
    exact storeStep_taken both.1 taken holds

def ampleRestore : RestoreEnv := ⟨fun _ => true,fun _ => 0⟩

def lastSnapshot : Bytes := ascii "\x7b\"ptr\":18446744073709551615,\"value\":1\x7d"

/-- The snapshot is accepted and the next pointer is 0, where an allocation reports failure. -/
theorem last_snapshot_wraps :
    (akHeapRestore ampleRestore (some lastSnapshot) akHeapInit).2 = 0 ∧
      (akHeapRestore ampleRestore (some lastSnapshot) akHeapInit).1.nextPtr = 0 ∧
      (akHeapRestore ampleRestore (some lastSnapshot) akHeapInit).1.objects.keys HeapObject.ptr = [lastPtr] ∧
      ¬PointerInvariant (storeStep ⟨akHeapInit,false⟩ (.restore ampleRestore (some lastSnapshot))).heap := by
  have keys : (akHeapRestore ampleRestore (some lastSnapshot) akHeapInit).1.objects.keys HeapObject.ptr =
      [lastPtr] := by decide +kernel
  refine ⟨by decide +kernel,by decide +kernel,keys,?_⟩
  apply not_invariant_of_last
  simp only [storeStep,keys,List.mem_singleton]

end AuthorityKernel.Heap
