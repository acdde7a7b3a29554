import AuthorityKernel.Library.Run
import AuthorityKernel.Heap.Effects

/-! Interleaved use of the heap. Every call holds the heap lock, so a concurrent history is
a list of calls, whichever agent makes each. While the 64-bit counters do not wrap, each
version of an object is superseded at most once and no pointer is given out twice. -/
namespace AuthorityKernel.Heap
open Library Capability

inductive HeapCall
  | alloc (env : AllocEnv) (typeHash : UInt64) (value : Option Bytes) (runId : TokenId) (taint : Taint)
  | read (valueAlloc : Bool) (ptr : UInt64)
  | write (env : WriteEnv) (ptr : UInt64) (patch : Option Bytes) (expectedVersion : UInt64)
  | delete (env : DeleteEnv) (ptr expectedVersion : UInt64)
  | setTaint (sanitizer : Bool) (clock ptr : UInt64) (newTaint : Taint) (expectedVersion : UInt64)
  | purge (clock olderThanMs : UInt64)

def callStep (s : HeapState) : HeapCall → HeapState
  | .alloc env typeHash value runId taint => (akHeapAlloc env typeHash value runId taint s).1
  | .read _ _ => s
  | .write env ptr patch expectedVersion => (akHeapWrite env ptr patch expectedVersion s).1
  | .delete env ptr expectedVersion => (akHeapDelete env ptr expectedVersion s).1
  | .setTaint sanitizer clock ptr newTaint expectedVersion =>
      (heapSetTaintInternal sanitizer clock ptr newTaint expectedVersion s).1
  | .purge clock olderThanMs => (akHeapPurgeTombstones clock olderThanMs s).1

def swapped (s : HeapState) : HeapCall → Option (UInt64 × UInt64)
  | .write env ptr patch expectedVersion =>
      if (akHeapWrite env ptr patch expectedVersion s).2.isOk then some (ptr,expectedVersion) else none
  | .delete env ptr expectedVersion =>
      if (akHeapDelete env ptr expectedVersion s).2 = 0 then some (ptr,expectedVersion) else none
  | _ => none

def handedOut (s : HeapState) : HeapCall → Option UInt64
  | .alloc env typeHash value runId taint =>
      if (akHeapAlloc env typeHash value runId taint s).2 = 0 then none
      else some (akHeapAlloc env typeHash value runId taint s).2
  | _ => none

def callFails (s : HeapState) : HeapCall → Bool
  | .alloc env typeHash value runId taint => (akHeapAlloc env typeHash value runId taint s).2 == 0
  | .read valueAlloc ptr => !(akHeapRead valueAlloc ptr s).isOk
  | .write env ptr patch expectedVersion => !(akHeapWrite env ptr patch expectedVersion s).2.isOk
  | .delete env ptr expectedVersion => (akHeapDelete env ptr expectedVersion s).2 != 0
  | .setTaint sanitizer clock ptr newTaint expectedVersion =>
      (heapSetTaintInternal sanitizer clock ptr newTaint expectedVersion s).2 != 0
  | .purge _ _ => false

/-- Everything a call can do to an initialised heap. -/
inductive Taken (s : HeapState) (call : HeapCall) : Prop
  | idle (same : callStep s call = s) (noSwap : swapped s call = none) (noPointer : handedOut s call = none)
  | created (object : HeapObject) (acted : Acted (.create object) s (callStep s call)) (first : object.version = 1)
      (succeeds : s.nextPtr ≠ 0 → callFails s call = false) (noSwap : swapped s call = none)
      (pointer : handedOut s call = if s.nextPtr = 0 then none else some s.nextPtr)
  | superseded (object : HeapObject) (update : HeapObject → HeapObject) (ptr : UInt64)
      (found : findObject s ptr = some object) (acted : Acted (.change ptr update) s (callStep s call))
      (raises : ∀ current, (update current).version = current.version + 1)
      (succeeds : callFails s call = false)
      (swap : swapped s call = some (ptr,object.version)) (noPointer : handedOut s call = none)
  | relabelled (update : HeapObject → HeapObject) (ptr : UInt64)
      (acted : Acted (.change ptr update) s (callStep s call))
      (keeps : ∀ current, (update current).version = current.version)
      (succeeds : callFails s call = false)
      (noSwap : swapped s call = none) (noPointer : handedOut s call = none)
  | purged (kept : HeapObject → Bool) (acted : Acted (.drop kept) s (callStep s call))
      (succeeds : callFails s call = false)
      (noSwap : swapped s call = none) (noPointer : handedOut s call = none)

theorem alloc_taken (s : HeapState) (env : AllocEnv) (typeHash : UInt64) (value : Option Bytes)
    (runId : TokenId) (taint : Taint) : Taken s (.alloc env typeHash value runId taint) := by
  by_cases allocates : Allocates env typeHash value s
  · obtain ⟨bytes,-,pointer,acted⟩ := akHeapAlloc_acted env typeHash value runId taint s allocates
    refine .created _ acted rfl ?_ rfl ?_
    · intro positive
      simpa [callFails,pointer] using positive
    · simp only [handedOut,pointer]
  · have refused := akHeapAlloc_refused runId taint allocates
    refine .idle ?_ rfl ?_
    · simp only [callStep,refused]
    · simp only [handedOut,refused,if_true]

theorem write_taken (s : HeapState) (env : WriteEnv) (ptr : UInt64) (patch : Option Bytes)
    (expectedVersion : UInt64) : Taken s (.write env ptr patch expectedVersion) := by
  by_cases writes : ∃ object value, Writes env ptr patch expectedVersion s object value
  · obtain ⟨object,value,writes⟩ := writes
    obtain ⟨found,-,version⟩ := (casObject_iff _ _ _ _).mp writes.current
    obtain ⟨ok,acted⟩ := akHeapWrite_acted writes
    refine .superseded object _ ptr found acted (fun _ => rfl) ?_ ?_ rfl
    · simp [callFails,ok,Except.isOk,Except.toBool]
    · simp [swapped,ok,version,Except.isOk,Except.toBool]
  · obtain ⟨same,failed⟩ := akHeapWrite_refused env ptr patch expectedVersion s
      fun object value held => writes ⟨object,value,held⟩
    refine .idle same ?_ rfl
    simp [swapped,failed]

theorem delete_taken (s : HeapState) (env : DeleteEnv) (ptr expectedVersion : UInt64)
    (ready : s.initialized = true) : Taken s (.delete env ptr expectedVersion) := by
  cases current : casObject s ptr expectedVersion with
  | ok object =>
    obtain ⟨found,-,version⟩ := (casObject_iff _ _ _ _).mp current
    obtain ⟨ok,acted⟩ := akHeapDelete_acted env ready current
    refine .superseded object _ ptr found acted (fun _ => rfl) ?_ ?_ rfl
    · simp [callFails,ok]
    · simp [swapped,ok,version]
  | error code =>
    obtain ⟨same,failed⟩ := akHeapDelete_refused env ptr expectedVersion s
      fun _ object found => by simp [current] at found
    refine .idle same ?_ rfl
    simp [swapped,failed]

theorem setTaint_taken (s : HeapState) (sanitizer : Bool) (clock ptr : UInt64) (newTaint : Taint)
    (expectedVersion : UInt64) : Taken s (.setTaint sanitizer clock ptr newTaint expectedVersion) := by
  by_cases ok : (heapSetTaintInternal sanitizer clock ptr newTaint expectedVersion s).2 = 0
  · refine .relabelled _ ptr (heapSetTaintInternal_acted ok)
      (fun _ => rfl) ?_ rfl rfl
    simp [callFails,ok]
  · exact .idle (heapSetTaintInternal_refused ok) rfl rfl

variable {s : HeapState}

theorem call_taken (call : HeapCall) (ready : s.initialized = true) : Taken s call := by
  cases call with
  | alloc env typeHash value runId taint => exact alloc_taken s env typeHash value runId taint
  | read valueAlloc ptr => exact .idle rfl rfl rfl
  | write env ptr patch expectedVersion => exact write_taken s env ptr patch expectedVersion
  | delete env ptr expectedVersion => exact delete_taken s env ptr expectedVersion ready
  | setTaint sanitizer clock ptr newTaint expectedVersion =>
    exact setTaint_taken s sanitizer clock ptr newTaint expectedVersion
  | purge clock olderThanMs =>
    exact .purged _ (akHeapPurgeTombstones_acted clock olderThanMs s ready) rfl rfl rfl

structure Roomy (s : HeapState) : Prop where
  pointers : s.nextPtr.toNat + 1 < 2 ^ 64
  versions : ∀ ptr object, findObject s ptr = some object → object.version.toNat + 1 < 2 ^ 64

structure Sound (s : HeapState) : Prop where
  ready : s.initialized = true
  ordered : PointersOrdered s

theorem toNat_succ {counter : UInt64} (room : counter.toNat + 1 < 2 ^ 64) :
    (counter + 1).toNat = counter.toNat + 1 := by
  rw [UInt64.toNat_add]
  have one : (1 : UInt64).toNat = 1 := rfl
  omega

theorem call_sound (call : HeapCall) (sound : Sound s)
    (room : handedOut s call = some s.nextPtr → s.nextPtr.toNat + 1 < 2 ^ 64) : Sound (callStep s call) := by
  cases call_taken call sound.ready with
  | idle same => rwa [same]
  | created object acted _ _ _ pointer =>
    rw [if_neg sound.ordered.next] at pointer
    exact ⟨acted.initialized.trans sound.ready,sound.ordered.create acted (room pointer)⟩
  | superseded object update ptr found acted =>
    exact ⟨acted.initialized.trans sound.ready,sound.ordered.change acted⟩
  | relabelled update ptr acted => exact ⟨acted.initialized.trans sound.ready,sound.ordered.change acted⟩
  | purged kept acted => exact ⟨acted.initialized.trans sound.ready,sound.ordered.drop acted⟩

theorem callStep_sound (s : HeapState) (call : HeapCall) (roomy : Roomy s) (sound : Sound s) :
    Sound (callStep s call) :=
  call_sound call sound fun _ => roomy.pointers

/-- The pointer was given out, and whatever it still names is past the version. -/
def Passed (s : HeapState) (swap : UInt64 × UInt64) : Prop :=
  swap.1 < s.nextPtr ∧ ∀ object, findObject s swap.1 = some object → swap.2 < object.version

theorem version_lt_succ (version : UInt64) (room : version.toNat + 1 < 2 ^ 64) : version < version + 1 := by
  rw [UInt64.lt_iff_toNat_lt,toNat_succ room]
  exact Nat.lt_succ_self _

theorem call_nextPtr (s : HeapState) (call : HeapCall) (ready : s.initialized = true) :
    (callStep s call).nextPtr = s.nextPtr ∨ (callStep s call).nextPtr = s.nextPtr + 1 := by
  cases call_taken call ready with
  | idle same => exact Or.inl (congrArg HeapState.nextPtr same)
  | created object acted => exact Or.inr acted.nextPtr
  | superseded object update ptr found acted => exact Or.inl acted.nextPtr
  | relabelled update ptr acted => exact Or.inl acted.nextPtr
  | purged kept acted => exact Or.inl acted.nextPtr

theorem call_found {call : HeapCall} (sound : Sound s) {ptr : UInt64} {current : HeapObject}
    (found : findObject (callStep s call) ptr = some current) :
    ptr = s.nextPtr ∧ current.version = 1 ∨ ∃ earlier, findObject s ptr = some earlier ∧
      (current.version = earlier.version ∨ current.version = earlier.version + 1) := by
  cases call_taken call sound.ready with
  | idle same => exact Or.inr ⟨current,same ▸ found,Or.inl rfl⟩
  | created object acted first =>
    rw [acted.findObject_create sound.ready] at found
    split at found
    · rename_i here
      exact Or.inl ⟨here,Option.some.inj found ▸ first⟩
    · exact Or.inr ⟨current,found,Or.inl rfl⟩
  | superseded object update target present acted raises =>
    obtain ⟨earlier,present,rfl | rfl⟩ := acted.found_change found
    · exact Or.inr ⟨current,present,Or.inl rfl⟩
    · exact Or.inr ⟨earlier,present,Or.inr (raises earlier)⟩
  | relabelled update target acted keeps =>
    obtain ⟨earlier,present,rfl | rfl⟩ := acted.found_change found
    · exact Or.inr ⟨current,present,Or.inl rfl⟩
    · exact Or.inr ⟨earlier,present,Or.inl (keeps earlier)⟩
  | purged kept acted =>
    rw [acted.findObject_drop sound.ordered.keyed,Option.filter_eq_some_iff] at found
    exact Or.inr ⟨current,found.1,Or.inl rfl⟩

section

variable (s : HeapState) (call : HeapCall)

theorem handedOut_lasting (ptr : UInt64) (roomy : Roomy s) (sound : Sound s) (given : ptr < s.nextPtr) :
    ptr < (callStep s call).nextPtr := by
  rcases call_nextPtr s call sound.ready with same | next
  · rwa [same]
  · rw [next]
    exact UInt64.lt_trans given (version_lt_succ _ roomy.pointers)

theorem passed_step (swap : UInt64 × UInt64) (roomy : Roomy s) (sound : Sound s) (passed : Passed s swap) :
    Passed (callStep s call) swap := by
  obtain ⟨given,past⟩ := passed
  refine ⟨handedOut_lasting s call swap.1 roomy sound given,fun current found => ?_⟩
  rcases call_found sound found with ⟨new,_⟩ | ⟨earlier,present,same | raised⟩
  · exact absurd new (UInt64.ne_of_lt given)
  · exact same ▸ past earlier present
  · rw [raised]
    exact UInt64.lt_trans (past earlier present) (version_lt_succ _ (roomy.versions _ earlier present))

theorem swapped_raises {ptr version : UInt64} (roomy : Roomy s) (sound : Sound s)
    (swap : swapped s call = some (ptr,version)) :
    ∃ before after, findObject s ptr = some before ∧ before.version = version ∧
      findObject (callStep s call) ptr = some after ∧ after.version.toNat = version.toNat + 1 := by
  cases call_taken call sound.ready with
  | superseded object update target found acted raises succeeds made =>
    rw [made] at swap
    cases swap
    refine ⟨object,update object,found,rfl,?_,?_⟩
    · rw [acted.findObject_change,if_pos rfl,found,Option.map_some]
    · rw [raises,toNat_succ (roomy.versions ptr object found)]
  | idle same noSwap => simp [noSwap] at swap
  | created object acted first succeeds noSwap => simp [noSwap] at swap
  | relabelled update target acted keeps succeeds noSwap => simp [noSwap] at swap
  | purged kept acted succeeds noSwap => simp [noSwap] at swap

theorem swapped_fresh (swap : UInt64 × UInt64) (roomy : Roomy s) (sound : Sound s) (made : swapped s call = some swap) :
    ¬Passed s swap ∧ Passed (callStep s call) swap := by
  obtain ⟨before,after,found,version,replaced,raised⟩ := swapped_raises s call roomy sound made
  constructor
  · intro passed
    have later := passed.2 before found
    rw [version] at later
    exact UInt64.lt_irrefl _ later
  · constructor
    · exact (callStep_sound s call roomy sound).ordered.lt_next swap.1 after replaced
    · intro current present
      rw [replaced,Option.some.injEq] at present
      rw [← present,UInt64.lt_iff_toNat_lt,raised]
      exact Nat.lt_succ_self _

theorem callFails_idle (sound : Sound s) (fails : callFails s call = true) : callStep s call = s := by
  cases call_taken call sound.ready with
  | idle same => exact same
  | created object acted first succeeds => simp [succeeds sound.ordered.next] at fails
  | superseded object update ptr found acted raises succeeds => simp [succeeds] at fails
  | relabelled update ptr acted keeps succeeds => simp [succeeds] at fails
  | purged kept acted succeeds => simp [succeeds] at fails

theorem handedOut_fresh (ptr : UInt64) (roomy : Roomy s) (sound : Sound s) (given : handedOut s call = some ptr) :
    ¬ptr < s.nextPtr ∧ ptr < (callStep s call).nextPtr := by
  cases call_taken call sound.ready with
  | created object acted first succeeds noSwap pointer =>
    rw [pointer,if_neg sound.ordered.next,Option.some.injEq] at given
    subst given
    refine ⟨UInt64.lt_irrefl _,?_⟩
    rw [acted.nextPtr]
    exact version_lt_succ _ roomy.pointers
  | idle same noSwap noPointer => simp [noPointer] at given
  | superseded object update target found acted raises succeeds swap noPointer => simp [noPointer] at given
  | relabelled update target acted keeps succeeds noSwap noPointer => simp [noPointer] at given
  | purged kept acted succeeds noSwap noPointer => simp [noPointer] at given

end

/-- After `age` calls no counter has passed `age + 1`. -/
structure Aged (age : Nat) (s : HeapState) : Prop where
  pointers : s.nextPtr.toNat ≤ age + 1
  versions : ∀ ptr object, findObject s ptr = some object → object.version.toNat ≤ age + 1

theorem Aged.roomy {age : Nat} (aged : Aged age s) (young : age + 2 < 2 ^ 64) : Roomy s where
  pointers := by
    have bound := aged.pointers
    omega
  versions := by
    intro ptr object found
    have bound := aged.versions ptr object found
    omega

theorem aged_step (age : Nat) (s : HeapState) (call : HeapCall) (sound : Sound s) (young : age + 2 < 2 ^ 64)
    (aged : Aged age s) : Aged (age + 1) (callStep s call) := by
  obtain ⟨pointers,versions⟩ := aged
  constructor
  · rcases call_nextPtr s call sound.ready with same | next
    · rw [same]
      omega
    · rw [next,toNat_succ (by omega)]
      omega
  · intro ptr current found
    rcases call_found sound found with ⟨_,first⟩ | ⟨earlier,present,same | raised⟩
    · rw [first]
      exact Nat.le_add_left 1 (age + 1)
    · rw [same]
      exact (versions ptr earlier present).trans (Nat.le_succ _)
    · have bound := versions ptr earlier present
      rw [raised,toNat_succ (by omega)]
      omega

theorem guarded_of_short (age : Nat) (s : HeapState) (calls : List HeapCall) (sound : Sound s) (aged : Aged age s)
    (short : age + calls.length + 1 < 2 ^ 64) : Run.Guarded callStep (fun state _ => Roomy state) s calls := by
  induction calls generalizing age s with
  | nil => trivial
  | cons call rest ih =>
    rw [List.length_cons] at short
    have roomy := aged.roomy (by omega)
    refine ⟨roomy,?_⟩
    apply ih (age + 1)
    · exact callStep_sound s call roomy sound
    · exact aged_step age s call sound (by omega) aged
    · omega

theorem sound_init : Sound akHeapInit := ⟨rfl,pointersOrdered_init⟩

theorem aged_init : Aged 0 akHeapInit := by
  constructor
  · exact Nat.le_refl 1
  · intro ptr object found
    simp [findObject,akHeapInit] at found

/-- Compare and swap over a history: each version is superseded at most once and by its
successor, a failed call changes nothing, and pointers are never given out again. -/
structure LinearHistory (start : HeapState) (calls : List HeapCall) : Prop where
  swapsOnce : (Run.outputs callStep swapped start calls).Nodup
  raisesByOne : ∀ earlier call later ptr version, calls = earlier ++ call :: later →
    swapped (Run.run callStep start earlier) call = some (ptr,version) →
      ∃ before after, findObject (Run.run callStep start earlier) ptr = some before ∧ before.version = version ∧
        findObject (Run.run callStep start (earlier ++ [call])) ptr = some after ∧
        after.version.toNat = version.toNat + 1
  failuresIdle : ∀ earlier call later, calls = earlier ++ call :: later →
    callFails (Run.run callStep start earlier) call = true →
      Run.run callStep start (earlier ++ [call]) = Run.run callStep start earlier
  pointersOnce : (Run.outputs callStep handedOut start calls).Nodup

theorem run_snoc (start : HeapState) (earlier : List HeapCall) (call : HeapCall) :
    Run.run callStep start (earlier ++ [call]) = callStep (Run.run callStep start earlier) call := by
  rw [Run.run_append,Run.run_cons,Run.run_nil]

theorem linear_of_guarded {start : HeapState} {calls : List HeapCall} (sound : Sound start)
    (guarded : Run.Guarded callStep (fun state _ => Roomy state) start calls) : LinearHistory start calls := by
  have reached : ∀ earlier call later, calls = earlier ++ call :: later →
      Roomy (Run.run callStep start earlier) ∧ Sound (Run.run callStep start earlier) := by
    intro earlier call later split
    rw [split,Run.guarded_append,Run.guarded_cons] at guarded
    exact ⟨guarded.2.1,Run.invariant_run callStep_sound start earlier guarded.1 sound⟩
  constructor
  · exact (Run.outputs_nodup Passed callStep_sound swapped_fresh passed_step start calls guarded sound).1
  · intro earlier call later ptr version split swap
    obtain ⟨roomy,soundHere⟩ := reached earlier call later split
    rw [run_snoc]
    exact swapped_raises _ call roomy soundHere swap
  · intro earlier call later split fails
    rw [run_snoc]
    exact callFails_idle _ call (reached earlier call later split).2 fails
  · exact (Run.outputs_nodup (fun state ptr => ptr < state.nextPtr) callStep_sound handedOut_fresh
      handedOut_lasting start calls guarded sound).1

/-- Every history of fewer than `2 ^ 64 - 1` calls from a fresh heap is linear. -/
theorem short_history_linear (calls : List HeapCall) (short : calls.length + 1 < 2 ^ 64) :
    LinearHistory akHeapInit calls := by
  apply linear_of_guarded sound_init
  apply guarded_of_short 0 akHeapInit calls sound_init aged_init
  omega

def ampleSave : SaveEnv := ⟨true,true,true,0⟩

def ampleAlloc : AllocEnv := ⟨true,true,0,ampleSave⟩

def blankRun : TokenId := ⟨List.replicate 16 0,rfl⟩

def blankAlloc : HeapCall := .alloc ampleAlloc 0 (some []) blankRun .trusted

def deleteFirst : HeapCall := .delete ⟨ampleSave,0⟩ 1 1

/-- Two agents delete one version; only the first succeeds. -/
theorem racing_deletes_linear : LinearHistory akHeapInit [blankAlloc,deleteFirst,deleteFirst] ∧
    Run.outputs callStep swapped akHeapInit [blankAlloc,deleteFirst,deleteFirst] = [(1,1)] :=
  ⟨short_history_linear [blankAlloc,deleteFirst,deleteFirst] (by decide),by decide +kernel⟩

end AuthorityKernel.Heap
