import AuthorityKernel.Heap.Effects

/-! When a transaction is atomic. A commit checks every queued operation against the heap
as it was, then applies them in order and ignores their results; so it is all or nothing
exactly if no operation stands in the way of a later one and none fails for a reason the
check does not look at. -/
namespace AuthorityKernel.Heap
open Library Capability

/-- The operation takes effect; an allocation does when it creates an object that was not
there before. -/
def OpApplied (env : ApplyEnv) (s : HeapState) : TxnOp → Prop
  | .alloc _ typeHash value runId taint =>
      (akHeapAlloc env.alloc typeHash value runId taint s).2 ≠ 0 ∧
        findObject s (akHeapAlloc env.alloc typeHash value runId taint s).2 = none
  | .write ptr patch expectedVersion => (akHeapWrite env.write ptr patch expectedVersion s).2.isOk = true
  | .delete ptr expectedVersion => (akHeapDelete env.delete ptr expectedVersion s).2 = 0

/-- The heap `after` results from all operations in order, each taking effect. -/
def AppliedInOrder (env : Nat → ApplyEnv) (after : HeapState) : Nat → HeapState → List TxnOp → Prop
  | _, s, [] => after = s
  | index, s, op :: rest =>
      OpApplied (env index) s op ∧ AppliedInOrder env after (index + 1) (txnApplyOp (env index) s op) rest

def Atomic (env : Nat → ApplyEnv) (txn : HeapTxn) (s : HeapState) : Prop :=
  ((akHeapTxnCommit env txn s).2 = 0 → AppliedInOrder env (akHeapTxnCommit env txn s).1 0 s txn.ops) ∧
    ((akHeapTxnCommit env txn s).2 ≠ 0 → (akHeapTxnCommit env txn s).1 = s)

def TxnOp.takes (nextPtr : UInt64) : TxnOp → List UInt64
  | .alloc _ _ _ _ _ => [nextPtr]
  | _ => []

def takenPointers (nextPtr : UInt64) : List TxnOp → List UInt64
  | [] => []
  | op :: rest => op.takes nextPtr ++ takenPointers (nextPtr + UInt64.ofNat (op.takes nextPtr).length) rest

/-- Nothing but another operation of the queue can make the operation fail. -/
def OpFits (env : ApplyEnv) (s : HeapState) : TxnOp → Prop
  | .alloc _ typeHash value _ _ => Allocates env.alloc typeHash value s
  | .write ptr patch expectedVersion => ∃ object value, Writes env.write ptr patch expectedVersion s object value
  | .delete _ _ => True

/-- No two operations meet on one object, the pointers to be given out are free, and each
operation fits the heap before the transaction. -/
structure Independent (env : Nat → ApplyEnv) (s : HeapState) (ops : List TxnOp) : Prop where
  targets : (ops.filterMap TxnOp.target).Nodup
  pointers : (takenPointers s.nextPtr ops).Nodup
  free : ∀ ptr ∈ takenPointers s.nextPtr ops, ptr ≠ 0 ∧ findObject s ptr = none
  fits : ∀ place op, ops[place]? = some op → OpFits (env place) s op

/-- How far a heap in the middle of a commit has moved from the one at its start: objects
in `done` are one version on and those in `taken` are new. -/
structure Agrees (start s : HeapState) (done taken : List UInt64) : Prop where
  initialized : s.initialized = start.initialized
  schemas : s.schemas = start.schemas
  untouched : ∀ ptr, ptr ∉ done → ptr ∉ taken → findObject s ptr = findObject start ptr
  moved : ∀ ptr ∈ done, ∃ old new, findObject start ptr = some old ∧ findObject s ptr = some new ∧
    new.version = old.version + 1
  new : ∀ ptr ∈ taken, findObject start ptr = none ∧ findObject s ptr ≠ none

theorem agrees_start (start : HeapState) : Agrees start start [] [] where
  initialized := rfl
  schemas := rfl
  untouched := fun _ _ _ => rfl
  moved := fun _ member => absurd member List.not_mem_nil
  new := fun _ member => absurd member List.not_mem_nil

theorem succ_ne (version : UInt64) : version + 1 ≠ version := by
  intro same
  have parts := congrArg UInt64.toNat same
  rw [UInt64.toNat_add] at parts
  have one : (1 : UInt64).toNat = 1 := rfl
  omega

variable {object current : HeapObject} {after : HeapState} {ptr expectedVersion version : UInt64}

namespace Agrees

variable {start s : HeapState} {done taken : List UInt64}

theorem allocates_iff (agrees : Agrees start s done taken) (env : AllocEnv) (typeHash : UInt64)
    (value : Option Bytes) : Allocates env typeHash value s ↔ Allocates env typeHash value start :=
  allocates_congr agrees.schemas agrees.initialized env typeHash value

theorem casObject_iff_fresh (agrees : Agrees start s done taken) (ptr version : UInt64) (current : HeapObject)
    (valid : casObject start ptr version = .ok current) (object : HeapObject) :
    casObject s ptr version = .ok object ↔ ptr ∉ done ∧ object = current := by
  obtain ⟨found,live,expected⟩ := (casObject_iff _ _ _ _).mp valid
  rw [casObject_iff]
  by_cases member : ptr ∈ done
  · obtain ⟨old,new,before,after,raised⟩ := agrees.moved ptr member
    rw [found,Option.some.injEq] at before
    constructor
    · rintro ⟨present,-,version⟩
      rw [after,Option.some.injEq] at present
      rw [← present,raised,← before,expected] at version
      exact absurd version (succ_ne _)
    · rintro ⟨fresh,-⟩
      exact absurd member fresh
  · have old : ptr ∉ taken := by
      intro new
      simp [(agrees.new ptr new).1] at found
    rw [agrees.untouched ptr member old,found]
    constructor
    · rintro ⟨same,-⟩
      exact ⟨member,(Option.some.inj same).symm⟩
    · rintro ⟨-,rfl⟩
      exact ⟨rfl,live,expected⟩

theorem findObject_eq_none_iff (agrees : Agrees start s done taken) (ptr : UInt64) :
    findObject s ptr = none ↔ ptr ∉ taken ∧ findObject start ptr = none := by
  by_cases member : ptr ∈ done
  · obtain ⟨old,new,before,after,-⟩ := agrees.moved ptr member
    simp [before,after]
  · by_cases created : ptr ∈ taken
    · simp [created,(agrees.new ptr created).2]
    · simp [created,agrees.untouched ptr member created]

theorem change {update : HeapObject → HeapObject} (agrees : Agrees start s done taken)
    (acted : Acted (.change ptr update) s after) (fresh : ptr ∉ done) (found : findObject s ptr = some object)
    (foundStart : findObject start ptr = some object)
    (raises : ∀ current, (update current).version = current.version + 1) :
    Agrees start after (done ++ [ptr]) taken where
  initialized := acted.initialized.trans agrees.initialized
  schemas := acted.schemas.trans agrees.schemas
  untouched := by
    intro other undone old
    rw [List.mem_append,List.mem_singleton,not_or] at undone
    rw [acted.findObject_change,if_neg undone.2]
    exact agrees.untouched other undone.1 old
  moved := by
    intro other member
    rcases List.mem_append.mp member with earlier | last
    · have different : other ≠ ptr := fun same => fresh (same ▸ earlier)
      rw [acted.findObject_change,if_neg different]
      exact agrees.moved other earlier
    rw [List.mem_singleton] at last
    subst last
    rw [acted.findObject_change,if_pos rfl,found]
    exact ⟨object,update object,foundStart,rfl,raises object⟩
  new := by
    intro other created
    have different : other ≠ ptr := by
      rintro rfl
      simp [(agrees.new other created).1] at foundStart
    rw [acted.findObject_change,if_neg different]
    exact agrees.new other created

theorem create (agrees : Agrees start s done taken) (acted : Acted (.create object) s after)
    (ready : s.initialized = true) (free : findObject s s.nextPtr = none)
    : Agrees start after done (taken ++ [s.nextPtr]) where
  initialized := acted.initialized.trans agrees.initialized
  schemas := acted.schemas.trans agrees.schemas
  untouched := by
    intro other undone old
    rw [List.mem_append,List.mem_singleton,not_or] at old
    rw [acted.findObject_create ready,if_neg old.2]
    exact agrees.untouched other undone old.1
  moved := by
    intro other member
    obtain ⟨old,new,before,current,raised⟩ := agrees.moved other member
    have different : other ≠ s.nextPtr := by
      rintro rfl
      simp [free] at current
    rw [acted.findObject_create ready,if_neg different]
    exact ⟨old,new,before,current,raised⟩
  new := by
    intro other member
    rcases List.mem_append.mp member with earlier | last
    · have different : other ≠ s.nextPtr := by
        rintro rfl
        exact (agrees.new _ earlier).2 free
      rw [acted.findObject_create ready,if_neg different]
      exact agrees.new other earlier
    · rw [List.mem_singleton] at last
      subst last
      rw [acted.findObject_create ready,if_pos rfl]
      exact ⟨((agrees.findObject_eq_none_iff _).mp free).2,by simp⟩

end Agrees

section Commit

variable {start s : HeapState} {done taken : List UInt64}

theorem write_applied_iff (agrees : Agrees start s done taken) (env : ApplyEnv) (patch : Option Bytes)
    (valid : casObject start ptr expectedVersion = .ok current) :
    OpApplied env s (.write ptr patch expectedVersion) ↔
      ptr ∉ done ∧ ∃ object value, Writes env.write ptr patch expectedVersion start object value := by
  have schema := validateSchema_congr agrees.schemas
  constructor
  · intro applied
    by_cases writes : ∃ object value, Writes env.write ptr patch expectedVersion s object value
    · obtain ⟨object,value,ready,found,patched,checked⟩ := writes
      obtain ⟨fresh,rfl⟩ := (agrees.casObject_iff_fresh ptr expectedVersion current valid object).mp found
      exact ⟨fresh,object,value,agrees.initialized ▸ ready,valid,patched,schema _ _ ▸ checked⟩
    have refused := akHeapWrite_refused env.write ptr patch expectedVersion s
      fun object value held => writes ⟨object,value,held⟩
    rw [OpApplied,refused.2] at applied
    exact absurd applied Bool.false_ne_true
  · rintro ⟨fresh,object,value,ready,found,patched,checked⟩
    rw [valid,Except.ok.injEq] at found
    have here := (agrees.casObject_iff_fresh ptr expectedVersion current valid object).mpr ⟨fresh,found.symm⟩
    have acted := akHeapWrite_acted
      ⟨agrees.initialized.trans ready,here,patched,(schema _ _).trans checked⟩
    rw [OpApplied,acted.1]
    rfl

theorem ready_of_valid (valid : casObject s ptr version = .ok object) : s.initialized = true := by
  have found := ((casObject_iff _ _ _ _).mp valid).1
  unfold findObject at found
  split at found
  · assumption
  · simp at found

theorem delete_applied_iff (agrees : Agrees start s done taken) (env : ApplyEnv)
    (valid : casObject start ptr expectedVersion = .ok current) :
    OpApplied env s (.delete ptr expectedVersion) ↔ ptr ∉ done := by
  constructor
  · intro applied member
    refine (akHeapDelete_refused env.delete ptr expectedVersion s fun _ object found => ?_).2 applied
    exact ((agrees.casObject_iff_fresh ptr expectedVersion current valid object).mp found).1 member
  · intro fresh
    have here := (agrees.casObject_iff_fresh ptr expectedVersion current valid current).mpr ⟨fresh,rfl⟩
    exact (akHeapDelete_acted env.delete (ready_of_valid here) here).1

theorem alloc_applied_iff (agrees : Agrees start s done taken) (env : ApplyEnv) (provisional typeHash : UInt64)
    (value : Option Bytes) (runId : TokenId) (taint : Taint) :
    OpApplied env s (.alloc provisional typeHash value runId taint) ↔
      (s.nextPtr ≠ 0 ∧ s.nextPtr ∉ taken ∧ findObject start s.nextPtr = none) ∧
        Allocates env.alloc typeHash value start := by
  rw [← agrees.findObject_eq_none_iff,← agrees.allocates_iff]
  by_cases allocates : Allocates env.alloc typeHash value s
  · obtain ⟨bytes,-,pointer,-⟩ := akHeapAlloc_acted env.alloc typeHash value runId taint s allocates
    simp only [OpApplied,pointer,allocates,and_true]
  · simp [OpApplied,akHeapAlloc_refused runId taint allocates,allocates]

theorem cas_of_valid (valid : (match casObject start ptr version with
      | .error code => code
      | .ok _ => 0) = 0) : ∃ current, casObject start ptr version = .ok current := by
  cases found : casObject start ptr version with
  | ok current => exact ⟨current,rfl⟩
  | error code =>
    rw [found] at valid
    exact absurd valid (casObject_error_ne_zero start ptr version code found)

theorem opApplied_iff (agrees : Agrees start s done taken) (env : ApplyEnv) (op : TxnOp)
    (valid : txnOpError start op = 0) :
    OpApplied env s op ↔ (∀ ptr, op.target = some ptr → ptr ∉ done) ∧
      (∀ ptr ∈ op.takes s.nextPtr, ptr ≠ 0 ∧ ptr ∉ taken ∧ findObject start ptr = none) ∧ OpFits env start op := by
  cases op with
  | alloc provisional typeHash value runId taint =>
    rw [alloc_applied_iff agrees]
    simp [TxnOp.target,TxnOp.takes,OpFits]
  | write ptr patch expectedVersion =>
    obtain ⟨current,found⟩ := cas_of_valid valid
    rw [write_applied_iff agrees env patch found]
    simp [TxnOp.target,TxnOp.takes,OpFits]
  | delete ptr expectedVersion =>
    obtain ⟨current,found⟩ := cas_of_valid valid
    rw [delete_applied_iff agrees env found]
    simp [TxnOp.target,TxnOp.takes,OpFits]

theorem agrees_step (agrees : Agrees start s done taken) {env : ApplyEnv} {op : TxnOp}
    (valid : txnOpError start op = 0) (applied : OpApplied env s op) :
    Agrees start (txnApplyOp env s op) (done ++ op.target.toList) (taken ++ op.takes s.nextPtr) ∧
      (txnApplyOp env s op).nextPtr = s.nextPtr + UInt64.ofNat (op.takes s.nextPtr).length := by
  cases op with
  | alloc provisional typeHash value runId taint =>
    by_cases allocates : Allocates env.alloc typeHash value s
    · obtain ⟨bytes,-,pointer,acted⟩ := akHeapAlloc_acted env.alloc typeHash value runId taint s allocates
      rw [OpApplied,pointer] at applied
      refine ⟨?_,acted.nextPtr⟩
      simpa [TxnOp.target,TxnOp.takes,txnApplyOp] using agrees.create acted allocates.ready applied.2
    · simp [OpApplied,akHeapAlloc_refused runId taint allocates] at applied
  | write ptr patch expectedVersion =>
    obtain ⟨current,found⟩ := cas_of_valid valid
    obtain ⟨fresh,object,value,ready,foundStart,patched,checked⟩ :=
      (write_applied_iff agrees env patch found).mp applied
    have here := (agrees.casObject_iff_fresh ptr expectedVersion object foundStart object).mpr ⟨fresh,rfl⟩
    have acted := (akHeapWrite_acted
      ⟨agrees.initialized.trans ready,here,patched,
        (validateSchema_congr agrees.schemas _ _).trans checked⟩).2
    refine ⟨?_,?_⟩
    · simpa [TxnOp.target,TxnOp.takes,txnApplyOp] using agrees.change acted fresh ((casObject_iff _ _ _ _).mp here).1
        ((casObject_iff _ _ _ _).mp foundStart).1 fun _ => rfl
    · simpa [TxnOp.takes,TableAction.advance,txnApplyOp] using acted.nextPtr
  | delete ptr expectedVersion =>
    obtain ⟨current,found⟩ := cas_of_valid valid
    have fresh := (delete_applied_iff agrees env found).mp applied
    have here := (agrees.casObject_iff_fresh ptr expectedVersion current found current).mpr ⟨fresh,rfl⟩
    have acted := (akHeapDelete_acted env.delete (ready_of_valid here) here).2
    refine ⟨?_,?_⟩
    · simpa [TxnOp.target,TxnOp.takes,txnApplyOp] using agrees.change acted fresh ((casObject_iff _ _ _ _).mp here).1
        ((casObject_iff _ _ _ _).mp found).1 fun _ => rfl
    · simpa [TxnOp.takes,TableAction.advance,txnApplyOp] using acted.nextPtr

theorem applied_iff (env : Nat → ApplyEnv) (ops : List TxnOp) (index : Nat) (s : HeapState) (done taken : List UInt64)
    (agrees : Agrees start s done taken) (valid : ∀ op ∈ ops, txnOpError start op = 0)
    (doneOnce : done.Nodup) (takenOnce : taken.Nodup) :
    AppliedInOrder env (txnApply env index s ops) index s ops ↔
      (done ++ ops.filterMap TxnOp.target).Nodup ∧ (taken ++ takenPointers s.nextPtr ops).Nodup ∧
        (∀ ptr ∈ takenPointers s.nextPtr ops, ptr ≠ 0 ∧ findObject start ptr = none) ∧
        ∀ place op, ops[place]? = some op → OpFits (env (index + place)) start op := by
  induction ops generalizing index s done taken with
  | nil => simp [AppliedInOrder,txnApply,takenPointers,doneOnce,takenOnce]
  | cons op rest ih =>
    have validOp := valid op List.mem_cons_self
    have validRest : ∀ later ∈ rest, txnOpError start later = 0 :=
      fun later member => valid later (List.mem_cons_of_mem op member)
    have listed : (op :: rest).filterMap TxnOp.target = op.target.toList ++ rest.filterMap TxnOp.target := by
      cases found : op.target <;> simp [found]
    have places : (∀ place later, (op :: rest)[place]? = some later → OpFits (env (index + place)) start later) ↔
        OpFits (env index) start op ∧
          ∀ place later, rest[place]? = some later → OpFits (env (index + 1 + place)) start later := by
      constructor
      · intro fits
        refine ⟨fits 0 op rfl,fun place later found => ?_⟩
        have shifted := fits (place + 1) later found
        rwa [show index + (place + 1) = index + 1 + place by omega] at shifted
      · rintro ⟨first,others⟩ place later found
        cases place with
        | zero =>
          cases found
          exact first
        | succ place =>
          rw [show index + (place + 1) = index + 1 + place by omega]
          exact others place later found
    rw [AppliedInOrder,txnApply,takenPointers,listed,places,← List.append_assoc,← List.append_assoc]
    have step := opApplied_iff agrees (env index) op validOp
    constructor
    · rintro ⟨applied,later⟩
      obtain ⟨agreesNext,nextPtr⟩ := agrees_step agrees validOp applied
      obtain ⟨untargeted,free,fits⟩ := step.mp applied
      have doneNext : (done ++ op.target.toList).Nodup := by
        cases target : op.target with
        | none => simpa using doneOnce
        | some ptr =>
          rw [Option.toList_some,List.nodup_append]
          refine ⟨doneOnce,List.nodup_singleton ptr,?_⟩
          intro other member last lastMember same
          rw [List.mem_singleton.mp lastMember] at same
          exact untargeted ptr target (same ▸ member)
      have takenNext : (taken ++ op.takes s.nextPtr).Nodup := by
        rw [List.nodup_append]
        refine ⟨takenOnce,?_,fun ptr member other new same => (free other new).2.1 (same ▸ member)⟩
        cases op <;> simp [TxnOp.takes]
      have tail := (ih (index + 1) _ _ _ agreesNext validRest doneNext takenNext).mp later
      rw [nextPtr] at tail
      refine ⟨tail.1,tail.2.1,?_,fits,tail.2.2.2⟩
      intro ptr member
      rcases List.mem_append.mp member with new | further
      · exact ⟨(free ptr new).1,(free ptr new).2.2⟩
      · exact tail.2.2.1 ptr further
    · rintro ⟨targets,pointers,free,fits,others⟩
      have doneNext := (List.nodup_append.mp targets).1
      have takenNext := (List.nodup_append.mp pointers).1
      have applied : OpApplied (env index) s op := by
        refine step.mpr ⟨?_,?_,fits⟩
        · intro ptr target member
          rw [target] at doneNext
          exact (List.nodup_append.mp doneNext).2.2 ptr member ptr (by simp) rfl
        · intro ptr new
          have here := free ptr (List.mem_append_left _ new)
          exact ⟨here.1,fun member => (List.nodup_append.mp takenNext).2.2 ptr member ptr new rfl,here.2⟩
      obtain ⟨agreesNext,nextPtr⟩ := agrees_step agrees validOp applied
      refine ⟨applied,(ih (index + 1) _ _ _ agreesNext validRest doneNext takenNext).mpr ?_⟩
      rw [nextPtr]
      exact ⟨targets,pointers,fun ptr member => free ptr (List.mem_append_right _ member),others⟩

end Commit

theorem txnValidate_eq_zero (s : HeapState) (ops : List TxnOp) :
    txnValidate s ops = 0 ↔ ∀ op ∈ ops, txnOpError s op = 0 := by
  induction ops with
  | nil => simp [txnValidate]
  | cons op rest ih =>
    rw [txnValidate,List.forall_mem_cons,← ih]
    split
    · rename_i wrong
      simp [wrong]
    · rename_i right
      simp only [not_not] at right
      simp [right]

theorem appliedInOrder_iff_independent (env : Nat → ApplyEnv) {s : HeapState} {ops : List TxnOp}
    (valid : txnValidate s ops = 0) :
    AppliedInOrder env (txnApply env 0 s ops) 0 s ops ↔ Independent env s ops := by
  rw [applied_iff env ops 0 s [] [] (agrees_start s) ((txnValidate_eq_zero s ops).mp valid) List.nodup_nil List.nodup_nil]
  simp only [List.nil_append,Nat.zero_add]
  exact ⟨fun ⟨targets,pointers,free,fits⟩ => ⟨targets,pointers,free,fits⟩,
    fun ⟨targets,pointers,free,fits⟩ => ⟨targets,pointers,free,fits⟩⟩

theorem akHeapTxnCommit_eq_zero (env : Nat → ApplyEnv) (txn : HeapTxn) (s : HeapState) :
    (akHeapTxnCommit env txn s).2 = 0 ↔ txn.active = true ∧ txnValidate s txn.ops = 0 := by
  unfold akHeapTxnCommit
  cases txn.active with
  | false => simp [show ¬(-eInval = 0) by decide]
  | true =>
    by_cases valid : txnValidate s txn.ops = 0
    · simp [valid]
    · simp [valid]

theorem akHeapTxnCommit_refused {env : Nat → ApplyEnv} {txn : HeapTxn} {s : HeapState}
    (refused : (akHeapTxnCommit env txn s).2 ≠ 0) : (akHeapTxnCommit env txn s).1 = s := by
  unfold akHeapTxnCommit at refused ⊢
  split
  · rfl
  split
  · rfl
  rename_i active valid
  rw [if_neg active,if_neg valid] at refused
  exact absurd rfl refused

theorem atomic_iff_independent (env : Nat → ApplyEnv) (txn : HeapTxn) (s : HeapState) :
    Atomic env txn s ↔ (txn.active = true → txnValidate s txn.ops = 0 → Independent env s txn.ops) := by
  have idle : (akHeapTxnCommit env txn s).2 ≠ 0 → (akHeapTxnCommit env txn s).1 = s :=
    akHeapTxnCommit_refused
  rw [Atomic,and_iff_left idle,akHeapTxnCommit_eq_zero,and_imp]
  refine forall_congr' fun active => forall_congr' fun valid => ?_
  rw [← appliedInOrder_iff_independent env valid]
  simp [akHeapTxnCommit,active,valid]

end AuthorityKernel.Heap
