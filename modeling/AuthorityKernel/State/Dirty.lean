import AuthorityKernel.Types
import AuthorityKernel.Library.Bytes
import AuthorityKernel.Library.Marks
import AuthorityKernel.Library.Run
import Mathlib.Data.List.Perm.Subperm
import Mathlib.Data.Nat.ModEq

/-! Which heap objects have changed since they were last stored outside. Marks are
kept in a list of pointers and in a bitmap indexed by a hash of the pointer, and a
sync stores the listed objects one by one. -/
namespace AuthorityKernel.State
open Library

inductive StorageBackend
  | none
  | s3
  | redis
  | http
  | virtio
deriving DecidableEq

inductive SyncStatus
  | idle
  | inProgress
  | completed
  | failed
  | inPart
  | noBackend
deriving DecidableEq

/-- Statistics, the clock and the anchors' contents are left out. -/
structure SyncState where
  initialized : Bool
  backend : StorageBackend
  dirty : Marks UInt64 Nat
  anchorSequence : UInt64

structure SyncResult where
  status : SyncStatus
  objectsSynced : Nat
  errorCode : Int
deriving DecidableEq

def akMaxDirtyObjects : Nat := 65536

def ptrToIndex (ptr : UInt64) : Nat := (ptr * 2654435761).toNat % akMaxDirtyObjects

def akStateInit (backend : StorageBackend) : SyncState := ⟨true,backend,.empty,0⟩

def akStateMarkDirty (ptr : UInt64) (s : SyncState) : SyncState :=
  if s.initialized then { s with dirty := s.dirty.mark ptrToIndex akMaxDirtyObjects ptr } else s

def akStateMarkClean (ptr : UInt64) (s : SyncState) : SyncState :=
  if s.initialized then { s with dirty := s.dirty.unmark ptrToIndex ptr } else s

def akStateIsDirty (ptr : UInt64) (s : SyncState) : Bool := s.initialized && s.dirty.marked ptrToIndex ptr

/-- What a sync meets: whether the copy of the list can be made, and for the object
at each place of the list what serialising it gives and what the backend answers. -/
structure SyncEnv where
  copyAlloc : Bool
  serialize : Nat → UInt64 → Option Bytes
  put : Nat → UInt64 → Bytes → Int

def acknowledged (env : SyncEnv) (place : UInt64 × Nat) : Bool :=
  match env.serialize place.2 place.1 with
  | none => false
  | some value => env.put place.2 place.1 value == 0

structure SyncProgress where
  state : SyncState
  objectsSynced : Nat
  lastError : Int

/-- An object that cannot be serialised or is not acknowledged stays dirty. -/
def syncObject (env : SyncEnv) (progress : SyncProgress) (place : UInt64 × Nat) : SyncProgress :=
  match env.serialize place.2 place.1 with
  | none => { progress with lastError := akEStateSyncFailed }
  | some value =>
      let answer := env.put place.2 place.1 value
      if answer = 0 then
        { progress with
          state := akStateMarkClean place.1 progress.state
          objectsSynced := progress.objectsSynced + 1 }
      else { progress with lastError := answer }

def syncStatus (synced count : Nat) : SyncStatus :=
  if synced = count then .completed else if synced > 0 then .inPart else .failed

def akStateSyncObjects (env : SyncEnv) (ptrs : List UInt64) (s : SyncState) : SyncState × SyncResult :=
  if ptrs.length = 0 then (s,⟨.completed,0,0⟩)
  else if !env.copyAlloc then (s,⟨.failed,0,akEStateSyncFailed⟩)
  else
    let done := ptrs.zipIdx.foldl (syncObject env) ⟨s,0,0⟩
    let status := syncStatus done.objectsSynced ptrs.length
    let code := if status = .completed then 0 else if done.lastError ≠ 0 then done.lastError else akEStateSyncFailed
    (done.state,⟨status,done.objectsSynced,code⟩)

def akStateSync (env : SyncEnv) (s : SyncState) : SyncState × SyncResult :=
  if !s.initialized then (s,⟨.failed,0,akEStateNotFound⟩)
  else if s.backend = .none then (s,⟨.noBackend,0,0⟩)
  else if s.dirty.keys.length = 0 then (s,⟨.completed,0,0⟩)
  else akStateSyncObjects env s.dirty.keys s

def acknowledgedPtrs (env : SyncEnv) (ptrs : List UInt64) : List UInt64 :=
  (ptrs.zipIdx.filter (acknowledged env)).map Prod.fst

variable {ptrs objects : List UInt64} {backend : StorageBackend} {env : SyncEnv} {ptr : UInt64} {place : UInt64 × Nat}

theorem syncObject_acknowledged (progress : SyncProgress) (given : acknowledged env place = true) :
    syncObject env progress place =
      ⟨akStateMarkClean place.1 progress.state,progress.objectsSynced + 1,progress.lastError⟩ := by
  unfold acknowledged at given
  unfold syncObject
  cases text : env.serialize place.2 place.1 with
  | none => simp [text] at given
  | some value =>
    have stored : env.put place.2 place.1 value = 0 := by simpa [text] using given
    simp [stored]

theorem syncObject_refused (progress : SyncProgress) (refused : acknowledged env place = false) :
    ∃ code, syncObject env progress place = { progress with lastError := code } := by
  unfold acknowledged at refused
  unfold syncObject
  cases text : env.serialize place.2 place.1 with
  | none => exact ⟨akEStateSyncFailed,rfl⟩
  | some value =>
    have failed : env.put place.2 place.1 value ≠ 0 := by simpa [text] using refused
    exact ⟨env.put place.2 place.1 value,by simp [failed]⟩

theorem syncObject_fold (env : SyncEnv) (places : List (UInt64 × Nat)) (progress : SyncProgress) :
    (places.foldl (syncObject env) progress).state =
      ((places.filter (acknowledged env)).map Prod.fst).foldl (fun s ptr => akStateMarkClean ptr s) progress.state ∧
    (places.foldl (syncObject env) progress).objectsSynced =
      progress.objectsSynced + (places.filter (acknowledged env)).length := by
  induction places generalizing progress with
  | nil => exact ⟨rfl,rfl⟩
  | cons place rest ih =>
    rw [List.foldl_cons,List.filter_cons]
    cases given : acknowledged env place with
    | true =>
      rw [syncObject_acknowledged progress given]
      obtain ⟨state,synced⟩ := ih ⟨akStateMarkClean place.1 progress.state,progress.objectsSynced + 1,progress.lastError⟩
      rw [if_pos rfl,List.map_cons,List.foldl_cons,List.length_cons,synced]
      exact ⟨state,by dsimp only; omega⟩
    | false =>
      obtain ⟨code,unchanged⟩ := syncObject_refused progress given
      rw [unchanged,if_neg (by decide)]
      exact ih { progress with lastError := code }

theorem markClean_fold (gone : List UInt64) (s : SyncState) (ready : s.initialized = true) :
    gone.foldl (fun s ptr => akStateMarkClean ptr s) s =
      { s with dirty := gone.foldl (fun marks ptr => marks.unmark ptrToIndex ptr) s.dirty } := by
  induction gone generalizing s with
  | nil => rfl
  | cons ptr rest ih =>
    rw [List.foldl_cons,akStateMarkClean,if_pos ready]
    exact ih { s with dirty := s.dirty.unmark ptrToIndex ptr } ready

theorem acknowledgedPtrs_length_iff (env : SyncEnv) (ptrs : List UInt64) :
    (acknowledgedPtrs env ptrs).length = ptrs.length ↔ ∀ place ∈ ptrs.zipIdx, acknowledged env place = true := by
  rw [acknowledgedPtrs,List.length_map,← List.length_filter_eq_length_iff,List.length_zipIdx]

theorem akStateSyncObjects_eq (s : SyncState) (some : ptrs ≠ []) (copied : env.copyAlloc = true) :
    (akStateSyncObjects env ptrs s).1 = (acknowledgedPtrs env ptrs).foldl (fun s ptr => akStateMarkClean ptr s) s ∧
    (akStateSyncObjects env ptrs s).2.objectsSynced = (acknowledgedPtrs env ptrs).length ∧
    (akStateSyncObjects env ptrs s).2.status = syncStatus (acknowledgedPtrs env ptrs).length ptrs.length := by
  have filled : ptrs.length ≠ 0 := fun empty => some (List.length_eq_zero_iff.mp empty)
  obtain ⟨state,synced⟩ := syncObject_fold env ptrs.zipIdx ⟨s,0,0⟩
  rw [Nat.zero_add] at synced
  unfold akStateSyncObjects acknowledgedPtrs
  rw [if_neg filled,if_neg (by rw [copied]; decide),List.length_map]
  exact ⟨state,synced,congrArg (fun count => syncStatus count ptrs.length) synced⟩

inductive DirtyCall
  | markDirty (ptr : UInt64)
  | markClean (ptr : UInt64)
  | sync (env : SyncEnv)

def DirtyCall.On (objects : List UInt64) : DirtyCall → Prop
  | .markDirty ptr => ptr ∈ objects
  | .markClean ptr => ptr ∈ objects
  | .sync _ => True

/-- `pending` is what should be dirty: the objects marked since the backend last
acknowledged them or they were marked clean. `stored` says that every sync that
reported completion had all of them acknowledged. -/
structure Tracking where
  state : SyncState
  pending : Set UInt64
  stored : Prop

/-- The objects acknowledged by a sync: it goes through the list of dirty pointers,
if there is a backend and memory for the copy. -/
def syncedPtrs (env : SyncEnv) (s : SyncState) : List UInt64 :=
  if s.initialized && s.backend != .none && env.copyAlloc then acknowledgedPtrs env s.dirty.keys else []

def trackStep (tracking : Tracking) : DirtyCall → Tracking
  | .markDirty ptr =>
      { tracking with state := akStateMarkDirty ptr tracking.state, pending := insert ptr tracking.pending }
  | .markClean ptr =>
      { tracking with state := akStateMarkClean ptr tracking.state, pending := tracking.pending \ {ptr} }
  | .sync env =>
      let synced := akStateSync env tracking.state
      { state := synced.1
        pending := {ptr ∈ tracking.pending | ptr ∉ syncedPtrs env tracking.state}
        stored := tracking.stored ∧
          (synced.2.status = .completed → ∀ ptr ∈ tracking.pending, ptr ∈ syncedPtrs env tracking.state) }

/-- Exactly the pending objects read as dirty and are listed, once each, and completed
syncs stored all of them. -/
def Exact (objects : List UInt64) (tracking : Tracking) : Prop :=
  (∀ ptr ∈ objects, akStateIsDirty ptr tracking.state = true ↔ ptr ∈ tracking.pending) ∧
  (∀ ptr, ptr ∈ tracking.state.dirty.keys ↔ ptr ∈ tracking.pending) ∧
  tracking.state.dirty.keys.Nodup ∧ tracking.stored

/-- No two objects share a hash value: the multiplier is odd, so the low sixteen bits decide. -/
def Apart (objects : List UInt64) : Prop :=
  ∀ first ∈ objects, ∀ second ∈ objects, first.toNat % 65536 = second.toNat % 65536 → first = second

theorem ptrToIndex_eq_iff (first second : UInt64) :
    ptrToIndex first = ptrToIndex second ↔ first.toNat % 65536 = second.toNat % 65536 := by
  have reduced : ∀ ptr : UInt64, ptrToIndex ptr = ptr.toNat * 2654435761 % 65536 := by
    intro ptr
    have factor : (2654435761 : UInt64).toNat = 2654435761 := by decide
    rw [ptrToIndex,akMaxDirtyObjects,UInt64.toNat_mul,factor]
    omega
  rw [reduced,reduced]
  constructor
  · exact fun same => Nat.ModEq.cancel_right_of_coprime (by decide : Nat.gcd 65536 2654435761 = 1) same
  · exact fun same => Nat.ModEq.mul_right 2654435761 same

variable {tracking : Tracking}

theorem Apart.injOn (apart : Apart objects) : Set.InjOn ptrToIndex {ptr | ptr ∈ objects} :=
  fun first inFirst second inSecond same => apart first inFirst second inSecond ((ptrToIndex_eq_iff first second).mp same)

theorem isDirty_markDirty (first second : UInt64) (s : SyncState) (ready : s.initialized = true)
    (same : ptrToIndex first = ptrToIndex second) : akStateIsDirty second (akStateMarkDirty first s) = true := by
  rw [akStateMarkDirty,if_pos ready,akStateIsDirty,Bool.and_eq_true]
  exact ⟨ready,Marks.marked_mark ptrToIndex akMaxDirtyObjects s.dirty same⟩

structure InStep (objects : List UInt64) (backend : StorageBackend) (tracking : Tracking) : Prop where
  ready : tracking.state.initialized = true
  backend : tracking.state.backend = backend
  marks : tracking.state.dirty.Holds ptrToIndex {ptr | ptr ∈ objects} tracking.pending
  stored : tracking.stored

theorem InStep.exact (inStep : InStep objects backend tracking) : Exact objects tracking := by
  refine ⟨fun ptr known => ?_,inStep.marks.keys,inStep.marks.nodup,inStep.stored⟩
  rw [akStateIsDirty,inStep.ready,Bool.true_and]
  exact inStep.marks.bits ptr known

theorem markDirty_inStep (apart : Apart objects) (few : objects.length < 65536)
    (inStep : InStep objects backend tracking) (known : ptr ∈ objects)
    : InStep objects backend (trackStep tracking (.markDirty ptr)) := by
  have listed : tracking.state.dirty.keys ⊆ objects := fun key member =>
    inStep.marks.inside ((inStep.marks.keys key).mp member)
  have room := (List.subperm_of_subset inStep.marks.nodup listed).length_le
  have marks := inStep.marks.mark apart.injOn akMaxDirtyObjects ptr known (by unfold akMaxDirtyObjects; omega)
  dsimp only [trackStep]
  rw [akStateMarkDirty,if_pos inStep.ready]
  exact ⟨inStep.ready,inStep.backend,marks,inStep.stored⟩

theorem markClean_inStep (apart : Apart objects) (inStep : InStep objects backend tracking) (known : ptr ∈ objects) :
    InStep objects backend (trackStep tracking (.markClean ptr)) := by
  have marks := inStep.marks.unmark apart.injOn ptr known
  dsimp only [trackStep]
  rw [akStateMarkClean,if_pos inStep.ready]
  exact ⟨inStep.ready,inStep.backend,marks,inStep.stored⟩

theorem sync_idle (objects : List UInt64) (backend : StorageBackend) (tracking : Tracking)
    (inStep : InStep objects backend tracking) (env : SyncEnv) (result : SyncResult)
    (idle : akStateSync env tracking.state = (tracking.state,result)) (none : syncedPtrs env tracking.state = [])
    (honest : result.status = .completed → ∀ ptr, ptr ∉ tracking.pending) :
    InStep objects backend (trackStep tracking (.sync env)) := by
  dsimp only [trackStep]
  rw [idle,none]
  refine ⟨inStep.ready,inStep.backend,by simpa using inStep.marks,inStep.stored,fun completed ptr member => ?_⟩
  exact absurd member (honest completed ptr)

theorem mem_acknowledgedPtrs (all : ∀ place ∈ ptrs.zipIdx, acknowledged env place = true) (listed : ptr ∈ ptrs) :
    ptr ∈ acknowledgedPtrs env ptrs := by
  obtain ⟨index,lookup⟩ := List.getElem?_of_mem listed
  have place : (ptr,index) ∈ ptrs.zipIdx := List.mk_mem_zipIdx_iff_getElem?.mpr lookup
  exact List.mem_map.mpr ⟨(ptr,index),List.mem_filter.mpr ⟨place,all _ place⟩,rfl⟩

theorem acknowledgedPtrs_subset (member : ptr ∈ acknowledgedPtrs env ptrs) : ptr ∈ ptrs := by
  obtain ⟨⟨found,index⟩,inside,rfl⟩ := List.mem_map.mp member
  exact List.mem_of_getElem? (List.mk_mem_zipIdx_iff_getElem?.mp (List.mem_filter.mp inside).1)

theorem sync_inStep (apart : Apart objects) (inStep : InStep objects backend tracking) (env : SyncEnv) :
    InStep objects backend (trackStep tracking (.sync env)) := by
  have ready := inStep.ready
  by_cases unstored : tracking.state.backend = .none
  · refine sync_idle objects backend tracking inStep env ⟨.noBackend,0,0⟩ ?_ ?_ (by simp)
    · simp [akStateSync,ready,unstored]
    · simp [syncedPtrs,unstored]
  by_cases clean : tracking.state.dirty.keys = []
  · refine sync_idle objects backend tracking inStep env ⟨.completed,0,0⟩ ?_ ?_ ?_
    · simp [akStateSync,ready,unstored,clean]
    · simp [syncedPtrs,clean,acknowledgedPtrs]
    · intro _ ptr member
      rw [← inStep.marks.keys,clean] at member
      cases member
  have sync : akStateSync env tracking.state = akStateSyncObjects env tracking.state.dirty.keys tracking.state := by
    simp [akStateSync,ready,unstored,clean]
  cases copied : env.copyAlloc with
  | false =>
    refine sync_idle objects backend tracking inStep env ⟨.failed,0,akEStateSyncFailed⟩ ?_ ?_ (by simp)
    · simp [sync,akStateSyncObjects,clean,copied]
    · simp [syncedPtrs,copied]
  | true =>
    obtain ⟨state,_,status⟩ := akStateSyncObjects_eq tracking.state clean copied
    have synced : syncedPtrs env tracking.state = acknowledgedPtrs env tracking.state.dirty.keys := by
      simp [syncedPtrs,ready,unstored,copied]
    have known : ∀ ptr ∈ acknowledgedPtrs env tracking.state.dirty.keys, ptr ∈ {ptr | ptr ∈ objects} :=
      fun ptr member => inStep.marks.inside ((inStep.marks.keys ptr).mp (acknowledgedPtrs_subset member))
    have marks := inStep.marks.unmark_all apart.injOn _ known
    dsimp only [trackStep]
    rw [sync,state,synced,markClean_fold _ _ ready]
    refine ⟨ready,inStep.backend,marks,inStep.stored,fun completed ptr member => ?_⟩
    rw [status,syncStatus] at completed
    have whole : (acknowledgedPtrs env tracking.state.dirty.keys).length = tracking.state.dirty.keys.length := by
      by_contra short
      rw [if_neg short] at completed
      split at completed <;> cases completed
    exact mem_acknowledgedPtrs ((acknowledgedPtrs_length_iff env _).mp whole)
      ((inStep.marks.keys ptr).mpr member)

theorem trackStep_inStep (apart : Apart objects) (few : objects.length < 65536) (tracking : Tracking) (call : DirtyCall)
    (known : call.On objects) (inStep : InStep objects backend tracking) :
    InStep objects backend (trackStep tracking call) := by
  cases call with
  | markDirty ptr => exact markDirty_inStep apart few inStep known
  | markClean ptr => exact markClean_inStep apart inStep known
  | sync env => exact sync_inStep apart inStep env

theorem inStep_init (objects : List UInt64) (backend : StorageBackend) :
    InStep objects backend ⟨akStateInit backend,∅,True⟩ :=
  ⟨rfl,rfl,Marks.holds_empty ptrToIndex _,trivial⟩

/-- Over a table of fewer than 65536 objects, the marks, the list and the completed syncs
are right in every state of every run of calls on these objects exactly if no two of
them agree in the low sixteen bits of their pointers. -/
theorem dirty_tracking_exact_iff (objects : List UInt64) (backend : StorageBackend) (few : objects.length < 65536) :
    (∀ calls, (∀ call ∈ calls, DirtyCall.On objects call) →
      Run.Throughout trackStep (Exact objects) ⟨akStateInit backend,∅,True⟩ calls) ↔ Apart objects := by
  constructor
  · intro always first inFirst second inSecond same
    have marked := (always [.markDirty first] (by simpa [DirtyCall.On] using inFirst)).2
    have shown := marked.1 second inSecond
    dsimp only [trackStep] at shown
    have seen := isDirty_markDirty first second (akStateInit backend) rfl ((ptrToIndex_eq_iff first second).mpr same)
    have pending := shown.mp seen
    simpa [eq_comm] using pending
  · intro apart calls on
    exact Run.Throughout.imp (fun _ => InStep.exact) (Run.throughout_of_guarded (trackStep_inStep apart few) _ calls
      (Run.guarded_of_all _ on) (inStep_init objects backend))

def plainSync : SyncEnv := ⟨true,fun _ _ => some [],fun _ _ _ => 0⟩

/-- Three objects at the start of the heap. -/
theorem small_heap_tracked : [1,2,3].length < 65536 ∧
    ∀ calls, (∀ call ∈ calls, DirtyCall.On [1,2,3] call) →
      Run.Throughout trackStep (Exact [1,2,3]) ⟨akStateInit .virtio,∅,True⟩ calls :=
  ⟨by decide,(dirty_tracking_exact_iff [1,2,3] .virtio (by decide)).mpr (by simp [Apart])⟩

/-- Objects 1 and 65537 share a bit: with both marked dirty only the first is listed, and
a sync that reports completion has not stored the second. -/
theorem shared_bit_loses_object :
    let marked := akStateMarkDirty 65537 (akStateMarkDirty 1 (akStateInit .virtio))
    let synced := akStateSync plainSync marked
    marked.dirty.keys = [1] ∧ synced.2.status = .completed ∧ syncedPtrs plainSync marked = [1] ∧
      akStateIsDirty 65537 synced.1 = false :=
  ⟨by decide,by decide,by decide,by decide⟩

end AuthorityKernel.State
