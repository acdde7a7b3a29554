import AuthorityKernel.Heap.Transaction

/-! What each heap operation does to the table of objects. A failed operation leaves the
heap as it is; a successful one creates one object, changes one in place or drops
tombstones, and touches nothing else that another operation reads. -/
namespace AuthorityKernel.Heap
open Library Capability

inductive TableAction
  | keep
  | create (object : HeapObject)
  | change (ptr : UInt64) (update : HeapObject → HeapObject)
  | drop (kept : HeapObject → Bool)

namespace TableAction

def apply (objects : ChainTable HeapObject) : TableAction → ChainTable HeapObject
  | keep => objects
  | create object => objects.insert bucketOf HeapObject.ptr object
  | change ptr update => objects.modify bucketOf HeapObject.ptr ptr update
  | drop kept => objects.sweep kept

def advance (nextPtr : UInt64) : TableAction → UInt64
  | create _ => nextPtr + 1
  | _ => nextPtr

def KeepsPtr (nextPtr : UInt64) : TableAction → Prop
  | keep => True
  | create object => object.ptr = nextPtr
  | change _ update => ∀ current, (update current).ptr = current.ptr
  | drop _ => True

end TableAction

structure Acted (action : TableAction) (s after : HeapState) : Prop where
  objects : after.objects = action.apply s.objects
  nextPtr : after.nextPtr = action.advance s.nextPtr
  initialized : after.initialized = s.initialized
  schemas : after.schemas = s.schemas
  keepsPtr : action.KeepsPtr s.nextPtr

def newObject (clock typeHash : UInt64) (value : Bytes) (runId : TokenId) (taint : Taint) (s : HeapState) :
    HeapObject where
  ptr := s.nextPtr
  typeHash := typeHash
  version := 1
  createdMs := nowMs clock
  modifiedMs := nowMs clock
  taint := taint
  deleted := false
  ownerRunId := runId
  value := value

structure Allocates (env : AllocEnv) (typeHash : UInt64) (value : Option Bytes) (s : HeapState) : Prop where
  copied : value.isSome = true
  ready : s.initialized = true
  valid : akHeapValidateSchema s typeHash value = true
  objectAlloc : env.objectAlloc = true
  valueAlloc : env.valueAlloc = true

variable {object : HeapObject} {kept : HeapObject → Bool} {update : HeapObject → HeapObject}
  {first second : HeapState} {ptr : UInt64}

theorem validateSchema_congr (same : first.schemas = second.schemas) (typeHash : UInt64) (value : Option Bytes) :
    akHeapValidateSchema first typeHash value = akHeapValidateSchema second typeHash value := by
  simp only [akHeapValidateSchema,findSchema,same]

theorem allocates_congr (schemas : first.schemas = second.schemas)
    (initialized : first.initialized = second.initialized) (env : AllocEnv) (typeHash : UInt64) (value : Option Bytes) :
    Allocates env typeHash value first ↔ Allocates env typeHash value second := by
  have schema := validateSchema_congr schemas typeHash value
  constructor
  · rintro ⟨copied,ready,valid,objectAlloc,valueAlloc⟩
    exact ⟨copied,initialized ▸ ready,schema ▸ valid,objectAlloc,valueAlloc⟩
  · rintro ⟨copied,ready,valid,objectAlloc,valueAlloc⟩
    exact ⟨copied,initialized.trans ready,schema.trans valid,objectAlloc,valueAlloc⟩

theorem akHeapAlloc_acted (env : AllocEnv) (typeHash : UInt64) (value : Option Bytes) (runId : TokenId)
    (taint : Taint) (s : HeapState) (allocates : Allocates env typeHash value s) :
    ∃ bytes, value = some bytes ∧
      (akHeapAlloc env typeHash value runId taint s).2 = s.nextPtr ∧
      Acted (.create (newObject env.clock typeHash bytes runId taint s)) s
        (akHeapAlloc env typeHash value runId taint s).1 := by
  obtain ⟨copied,ready,valid,objectAlloc,valueAlloc⟩ := allocates
  obtain ⟨bytes,rfl⟩ := Option.isSome_iff_exists.mp copied
  refine ⟨bytes,rfl,?_⟩
  simp only [akHeapAlloc,ready,valid,objectAlloc,valueAlloc,Bool.not_true,Bool.or_self,Bool.false_eq_true,if_false]
  refine ⟨trivial,?_⟩
  rw [saveVersion_frame]
  exact ⟨rfl,rfl,ready.symm,rfl,rfl⟩

variable {s : HeapState}

theorem akHeapAlloc_refused {env : AllocEnv} {typeHash : UInt64} {value : Option Bytes} (runId : TokenId)
    (taint : Taint) (refused : ¬Allocates env typeHash value s) :
    akHeapAlloc env typeHash value runId taint s = (s,0) := by
  unfold akHeapAlloc
  split
  · rfl
  split
  · rfl
  split
  · rfl
  split
  · rfl
  rename_i ready valid memory
  simp only [Bool.or_eq_true,Bool.not_eq_true',not_or,Bool.not_eq_false] at ready valid memory
  exact absurd ⟨rfl,ready,valid,memory.1,memory.2⟩ refused

theorem supersede_acted (env : SaveEnv) (object : HeapObject) (change : HeapObject → HeapObject)
    (s : HeapState) (keepsPtr : ∀ current, (change current).ptr = current.ptr) :
    Acted (.change object.ptr change) s (supersede env object change s) := by
  rw [supersede,saveVersion_frame]
  exact ⟨rfl,rfl,rfl,rfl,keepsPtr⟩

theorem casObject_iff (s : HeapState) (ptr expectedVersion : UInt64) (object : HeapObject) :
    casObject s ptr expectedVersion = .ok object ↔
      findObject s ptr = some object ∧ object.deleted = false ∧ object.version = expectedVersion := by
  unfold casObject
  cases found : findObject s ptr with
  | none => simp
  | some current => grind

theorem findObject_ptr (found : findObject s ptr = some object) : object.ptr = ptr := by
  unfold findObject at found
  split at found
  · exact ChainTable.lookup_key _ _ _ found
  · cases found

def rewritten (clock : UInt64) (value : Bytes) (current : HeapObject) : HeapObject :=
  { current with value := value, version := current.version + 1, modifiedMs := nowMs clock }

structure Writes (env : WriteEnv) (ptr : UInt64) (patch : Option Bytes) (expectedVersion : UInt64) (s : HeapState)
    (object : HeapObject) (value : Bytes) : Prop where
  ready : s.initialized = true
  current : casObject s ptr expectedVersion = .ok object
  patched : patch.bind (env.patch object.value) = some value
  valid : akHeapValidateSchema s object.typeHash (some value) = true

variable {sanitizer : Bool} {newTaint : Taint} {expectedVersion clock : UInt64}

theorem akHeapWrite_acted {env : WriteEnv} {ptr : UInt64} {patch : Option Bytes} {object : HeapObject}
    {value : Bytes} (writes : Writes env ptr patch expectedVersion s object value) :
    (akHeapWrite env ptr patch expectedVersion s).2 = .ok (object.version + 1) ∧
      Acted (.change ptr (rewritten env.clock value)) s (akHeapWrite env ptr patch expectedVersion s).1 := by
  obtain ⟨ready,current,patched,valid⟩ := writes
  have owned := findObject_ptr ((casObject_iff s ptr expectedVersion object).mp current).1
  have acted := supersede_acted env.save object (rewritten env.clock value) s fun _ => rfl
  rw [owned] at acted
  simp only [akHeapWrite,ready,current,patched,valid,Bool.not_true,Bool.false_eq_true,if_false]
  exact ⟨trivial,acted.objects,acted.nextPtr,acted.initialized,acted.schemas,acted.keepsPtr⟩

theorem akHeapWrite_refused (env : WriteEnv) (ptr : UInt64) (patch : Option Bytes) (expectedVersion : UInt64)
    (s : HeapState) (refused : ∀ object value, ¬Writes env ptr patch expectedVersion s object value) :
    (akHeapWrite env ptr patch expectedVersion s).1 = s ∧
      (akHeapWrite env ptr patch expectedVersion s).2.isOk = false := by
  unfold akHeapWrite
  split
  · exact ⟨rfl,rfl⟩
  split
  · exact ⟨rfl,rfl⟩
  split
  · exact ⟨rfl,rfl⟩
  split
  · exact ⟨rfl,rfl⟩
  rename_i ready _ object current _ value patched valid
  simp only [Bool.not_eq_true',Bool.not_eq_false] at ready valid
  exact absurd ⟨ready,current,patched,valid⟩ (refused object value)

def tombstone (clock : UInt64) (current : HeapObject) : HeapObject :=
  { current with deleted := true, version := current.version + 1, modifiedMs := nowMs clock }

theorem akHeapDelete_acted (env : DeleteEnv) {ptr : UInt64} {object : HeapObject}
    (ready : s.initialized = true) (current : casObject s ptr expectedVersion = .ok object) :
    (akHeapDelete env ptr expectedVersion s).2 = 0 ∧
      Acted (.change ptr (tombstone env.clock)) s (akHeapDelete env ptr expectedVersion s).1 := by
  have owned := findObject_ptr ((casObject_iff s ptr expectedVersion object).mp current).1
  have acted := supersede_acted env.save object (tombstone env.clock) s fun _ => rfl
  rw [owned] at acted
  simp only [akHeapDelete,ready,current,Bool.not_true,Bool.false_eq_true,if_false]
  exact ⟨trivial,acted.objects,acted.nextPtr,acted.initialized,acted.schemas,acted.keepsPtr⟩

theorem casObject_error_ne_zero (s : HeapState) (ptr expectedVersion : UInt64) (code : Int)
    (failed : casObject s ptr expectedVersion = .error code) : code ≠ 0 := by
  unfold casObject at failed
  split at failed
  · cases failed
    decide
  split at failed
  · cases failed
    decide
  split at failed
  · cases failed
    decide
  · simp at failed

theorem akHeapDelete_refused (env : DeleteEnv) (ptr expectedVersion : UInt64) (s : HeapState)
    (refused : s.initialized = true → ∀ object, casObject s ptr expectedVersion ≠ .ok object) :
    (akHeapDelete env ptr expectedVersion s).1 = s ∧ (akHeapDelete env ptr expectedVersion s).2 ≠ 0 := by
  unfold akHeapDelete
  split
  · exact ⟨rfl,show -eInval ≠ 0 by decide⟩
  split
  · rename_i code failed
    exact ⟨rfl,casObject_error_ne_zero s ptr expectedVersion code failed⟩
  · rename_i ready _ object current
    exact absurd current (refused (by simpa using ready) object)

def relabelled (clock : UInt64) (newTaint : Taint) (current : HeapObject) : HeapObject :=
  { current with taint := newTaint, modifiedMs := nowMs clock }

theorem heapSetTaintInternal_acted {ptr : UInt64}
    (ok : (heapSetTaintInternal sanitizer clock ptr newTaint expectedVersion s).2 = 0) :
    Acted (.change ptr (relabelled clock newTaint)) s
      (heapSetTaintInternal sanitizer clock ptr newTaint expectedVersion s).1 := by
  unfold heapSetTaintInternal at ok ⊢
  split at ok
  · rename_i code failed
    exact absurd ok (casObject_error_ne_zero s ptr expectedVersion code failed)
  rename_i object current
  split at ok
  · exact absurd ok (show akETaint ≠ 0 by decide)
  · rename_i raises
    simp only [if_neg raises]
    exact ⟨rfl,rfl,rfl,rfl,fun _ => rfl⟩

theorem heapSetTaintInternal_refused {ptr : UInt64}
    (failed : (heapSetTaintInternal sanitizer clock ptr newTaint expectedVersion s).2 ≠ 0) :
    (heapSetTaintInternal sanitizer clock ptr newTaint expectedVersion s).1 = s := by
  unfold heapSetTaintInternal at failed ⊢
  split
  · rfl
  split
  · rfl
  rename_i object current raises
  rw [current] at failed
  simp [raises] at failed

theorem akHeapPurgeTombstones_acted (clock olderThanMs : UInt64) (s : HeapState) (ready : s.initialized = true) :
    Acted (.drop fun object => !purgeable clock olderThanMs object) s
      (akHeapPurgeTombstones clock olderThanMs s).1 := by
  simp only [akHeapPurgeTombstones,ready,Bool.not_true,Bool.false_eq_true,if_false]
  exact ⟨rfl,rfl,ready.symm,rfl,trivial⟩

namespace Acted

variable {s after : HeapState}

theorem findObject_create (acted : Acted (.create object) s after) (ready : s.initialized = true) (ptr : UInt64) :
    findObject after ptr = if ptr = s.nextPtr then some object else findObject s ptr := by
  have named : object.ptr = s.nextPtr := acted.keepsPtr
  simp only [findObject,acted.initialized,ready,if_true,acted.objects,TableAction.apply]
  split
  · rename_i same
    rw [same,← named,ChainTable.lookup_insert_same]
  · rename_i different
    exact ChainTable.lookup_insert_other _ _ _ fun same => different (same.symm.trans named)

theorem findObject_change (acted : Acted (.change ptr update) s after) (other : UInt64) :
    findObject after other = if other = ptr then (findObject s ptr).map update else findObject s other := by
  have keepsPtr : ∀ current, (update current).ptr = current.ptr := acted.keepsPtr
  simp only [findObject,acted.initialized,acted.objects,TableAction.apply]
  split
  · split
    · rename_i same
      rw [same,ChainTable.lookup_modify_same _ _ _ keepsPtr]
    · rename_i different
      exact ChainTable.lookup_modify_other _ _ _ _ keepsPtr different
  · split <;> rfl

theorem found_change (acted : Acted (.change ptr update) s after) {other : UInt64}
    (found : findObject after other = some object) :
    ∃ earlier, findObject s other = some earlier ∧ (object = earlier ∨ object = update earlier) := by
  rw [acted.findObject_change] at found
  split at found
  · rename_i same
    obtain ⟨earlier,present,rfl⟩ := Option.map_eq_some_iff.mp found
    exact ⟨earlier,same ▸ present,Or.inr rfl⟩
  · exact ⟨object,found,Or.inl rfl⟩

theorem findObject_drop (acted : Acted (.drop kept) s after) (keyed : s.objects.WellKeyed bucketOf HeapObject.ptr)
    (ptr : UInt64) : findObject after ptr = (findObject s ptr).filter kept := by
  simp only [findObject,acted.initialized,acted.objects,TableAction.apply,keyed.lookup_sweep]
  split <;> rfl

end Acted

structure PointersOrdered (s : HeapState) : Prop where
  keyed : s.objects.WellKeyed bucketOf HeapObject.ptr
  positive : ∀ ptr ∈ s.objects.keys HeapObject.ptr, ptr ≠ 0
  below : ∀ ptr ∈ s.objects.keys HeapObject.ptr, ptr < s.nextPtr
  next : s.nextPtr ≠ 0

theorem pointersOrdered_init : PointersOrdered akHeapInit where
  keyed := ⟨by simp [akHeapInit],by simp [akHeapInit]⟩
  positive := by simp [akHeapInit,ChainTable.keys,ChainTable.entries,ChainTable.empty]
  below := by simp [akHeapInit,ChainTable.keys,ChainTable.entries,ChainTable.empty]
  next := by decide

theorem mem_keys_of_findObject {ptr : UInt64} {object : HeapObject}
    (found : findObject s ptr = some object) : ptr ∈ s.objects.keys HeapObject.ptr := by
  unfold findObject at found
  split at found
  · exact ChainTable.mem_keys_of_lookup found
  · simp at found

namespace PointersOrdered

variable {s after : HeapState}

theorem fresh (ordered : PointersOrdered s) : s.objects.lookup bucketOf HeapObject.ptr s.nextPtr = none := by
  cases found : s.objects.lookup bucketOf HeapObject.ptr s.nextPtr with
  | none => rfl
  | some object =>
    exact absurd (ordered.below _ (ChainTable.mem_keys_of_lookup found)) (UInt64.lt_irrefl _)

theorem lt_next (ordered : PointersOrdered s) (ptr : UInt64) (object : HeapObject)
    (found : findObject s ptr = some object) : ptr < s.nextPtr :=
  ordered.below ptr (mem_keys_of_findObject found)

theorem next_lt {nextPtr : UInt64} (room : nextPtr.toNat + 1 < 2 ^ 64) : nextPtr < nextPtr + 1 := by
  rw [UInt64.lt_iff_toNat_lt,UInt64.toNat_add]
  have one : (1 : UInt64).toNat = 1 := rfl
  omega

theorem create (ordered : PointersOrdered s) (acted : Acted (.create object) s after)
    (room : s.nextPtr.toNat + 1 < 2 ^ 64) : PointersOrdered after := by
  have named : object.ptr = s.nextPtr := acted.keepsPtr
  have grows := next_lt room
  have members : ∀ ptr ∈ after.objects.keys HeapObject.ptr, ptr = s.nextPtr ∨ ptr ∈ s.objects.keys HeapObject.ptr := by
    intro ptr member
    rw [acted.objects] at member
    exact named ▸ (ChainTable.mem_keys_insert _ _ _).mp member
  constructor
  · rw [acted.objects]
    exact ordered.keyed.insert object (named ▸ ordered.fresh)
  · intro ptr member
    rcases members ptr member with rfl | older
    · exact ordered.next
    · exact ordered.positive ptr older
  · intro ptr member
    rw [acted.nextPtr]
    rcases members ptr member with rfl | older
    · exact grows
    · exact UInt64.lt_trans (ordered.below ptr older) grows
  · rw [acted.nextPtr]
    intro wrapped
    simp only [TableAction.advance] at wrapped
    rw [wrapped] at grows
    exact UInt64.not_lt_zero grows

theorem of_fewer (ordered : PointersOrdered s)
    (keyed : after.objects.WellKeyed bucketOf HeapObject.ptr)
    (fewer : ∀ ptr ∈ after.objects.keys HeapObject.ptr, ptr ∈ s.objects.keys HeapObject.ptr)
    (sameNext : after.nextPtr = s.nextPtr) : PointersOrdered after where
  keyed := keyed
  positive := fun ptr member => ordered.positive ptr (fewer ptr member)
  below := fun ptr member => sameNext ▸ ordered.below ptr (fewer ptr member)
  next := sameNext ▸ ordered.next

theorem change (ordered : PointersOrdered s) (acted : Acted (.change ptr update) s after) : PointersOrdered after := by
  apply ordered.of_fewer
  · rw [acted.objects]
    exact ordered.keyed.modify ptr update acted.keepsPtr
  · intro other member
    rw [acted.objects] at member
    exact (ChainTable.mem_keys_modify _ ptr other acted.keepsPtr).mp member
  · exact acted.nextPtr

theorem drop (ordered : PointersOrdered s) (acted : Acted (.drop kept) s after) : PointersOrdered after := by
  apply ordered.of_fewer
  · rw [acted.objects]
    exact ordered.keyed.sweep kept
  · intro other member
    rw [acted.objects] at member
    exact ChainTable.mem_keys_sweep member
  · exact acted.nextPtr

end PointersOrdered

end AuthorityKernel.Heap
