import AuthorityKernel.Heap.Pointers

/-! Where the values of the heap come from. Beside the heap runs a record of the taint each
object's value was produced under; only an allocation carries that taint into the object. -/
namespace AuthorityKernel.Heap
open Library

/-- The taint of the request that produced an object's value, as far as it is known. -/
abbrev Origins := UInt64 → Option Taint

def noteOrigin (env : ApplyEnv) (taint : Taint) (s : HeapState) (origins : Origins) : TxnOp → Origins
  | .alloc _ typeHash value _ _ =>
      if Allocates env.alloc typeHash value s then Function.update origins s.nextPtr (some taint) else origins
  | .write ptr patch expectedVersion =>
      if (akHeapWrite env.write ptr patch expectedVersion s).2.isOk then Function.update origins ptr (some taint)
      else origins
  | .delete _ _ => origins

def traceOps (env : Nat → ApplyEnv) (taint : Taint) : Nat → HeapState → Origins → List TxnOp → Origins
  | _, _, origins, [] => origins
  | place, s, origins, op :: rest =>
      traceOps env taint (place + 1) (txnApplyOp (env place) s op) (noteOrigin (env place) taint s origins op) rest

/-- What untrusted requests made is untrusted. -/
def TaintsKept (s : HeapState) (origins : Origins) : Prop :=
  ∀ ptr object, findObject s ptr = some object → origins ptr = some .untrusted → object.taint = .untrusted

def WritesUntrusted (s : HeapState) : TxnOp → Prop
  | .write ptr _ _ => ∀ object, findObject s ptr = some object → object.taint = .untrusted
  | _ => True

def TxnOp.carries (taint : Taint) : TxnOp → Prop
  | .alloc _ _ _ _ own => own = taint
  | _ => True

theorem Acted.taints_change {s after : HeapState} {ptr : UInt64} {update : HeapObject → HeapObject}
    (acted : Acted (.change ptr update) s after) (keeps : ∀ current, (update current).taint = current.taint)
    (other : UInt64) (object : HeapObject) (found : findObject after other = some object) :
    ∃ earlier, findObject s other = some earlier ∧ earlier.taint = object.taint := by
  obtain ⟨earlier,present,rfl | rfl⟩ := acted.found_change found
  · exact ⟨object,present,rfl⟩
  · exact ⟨earlier,present,(keeps earlier).symm⟩

def Marks (env : ApplyEnv) (taint : Taint) (s : HeapState) (origins : Origins) (op : TxnOp) (ptr : UInt64) : Prop :=
  noteOrigin env taint s origins op ptr = origins ptr ∨
    noteOrigin env taint s origins op ptr = some taint ∧ ∃ patch version, op = .write ptr patch version

theorem txnApplyOp_taint {env : ApplyEnv} {taint : Taint} {s : HeapState} (origins : Origins) {op : TxnOp}
    (carried : op.carries taint) {ptr : UInt64} {object : HeapObject}
    (found : findObject (txnApplyOp env s op) ptr = some object) :
    object.taint = taint ∧ noteOrigin env taint s origins op ptr = some taint ∨
      (∃ earlier, findObject s ptr = some earlier ∧ earlier.taint = object.taint) ∧
        Marks env taint s origins op ptr := by
  cases op with
  | alloc provisional typeHash value runId own =>
    by_cases allocates : Allocates env.alloc typeHash value s
    · obtain ⟨bytes,-,-,acted⟩ := akHeapAlloc_acted env.alloc typeHash value runId own s allocates
      simp only [txnApplyOp] at found
      rw [acted.findObject_create allocates.ready] at found
      split at found
      · rename_i here
        rw [← Option.some.inj found]
        exact Or.inl ⟨carried,by simp [noteOrigin,allocates,here]⟩
      · rename_i other
        refine Or.inr ⟨⟨object,found,rfl⟩,Or.inl ?_⟩
        simp only [noteOrigin,allocates,if_true,Function.update_of_ne other]
    · simp only [txnApplyOp,akHeapAlloc_refused runId own allocates] at found
      refine Or.inr ⟨⟨object,found,rfl⟩,Or.inl ?_⟩
      simp only [noteOrigin,allocates,if_false]
  | write target patch expectedVersion =>
    by_cases writes : ∃ object value, Writes env.write target patch expectedVersion s object value
    · obtain ⟨current,value,writes⟩ := writes
      obtain ⟨ok,acted⟩ := akHeapWrite_acted writes
      refine Or.inr ⟨acted.taints_change (fun _ => rfl) ptr object found,?_⟩
      have marked : noteOrigin env taint s origins (.write target patch expectedVersion) =
          Function.update origins target (some taint) := by simp [noteOrigin,ok,Except.isOk,Except.toBool]
      rw [Marks,marked]
      by_cases same : ptr = target
      · subst same
        exact Or.inr ⟨Function.update_self _ _ _,patch,expectedVersion,rfl⟩
      · exact Or.inl (Function.update_of_ne same _ _)
    · obtain ⟨same,failed⟩ := akHeapWrite_refused env.write target patch expectedVersion s
        fun current value held => writes ⟨current,value,held⟩
      simp only [txnApplyOp,same] at found
      refine Or.inr ⟨⟨object,found,rfl⟩,Or.inl ?_⟩
      simp only [noteOrigin,failed,Bool.false_eq_true,if_false]
  | delete target expectedVersion =>
    refine Or.inr ⟨?_,Or.inl rfl⟩
    by_cases deletes : s.initialized = true ∧ ∃ current, casObject s target expectedVersion = .ok current
    · obtain ⟨ready,current,present⟩ := deletes
      obtain ⟨-,acted⟩ := akHeapDelete_acted env.delete ready present
      exact acted.taints_change (fun _ => rfl) ptr object found
    have refused := akHeapDelete_refused env.delete target expectedVersion s
      fun ready current present => deletes ⟨ready,current,present⟩
    simp only [txnApplyOp,refused.1] at found
    exact ⟨object,found,rfl⟩

theorem txnApplyOp_taintsKept (env : ApplyEnv) (taint : Taint) (s : HeapState) (origins : Origins) (op : TxnOp)
    (carried : op.carries taint) (guarded : taint = .untrusted → WritesUntrusted s op) (kept : TaintsKept s origins) :
    TaintsKept (txnApplyOp env s op) (noteOrigin env taint s origins op) := by
  intro ptr object found marked
  rcases txnApplyOp_taint origins carried found with
    ⟨own,mark⟩ | ⟨⟨earlier,present,same⟩,unmarked | ⟨mark,patch,version,rfl⟩⟩
  · rw [marked,Option.some.injEq] at mark
    exact own.trans mark.symm
  · rw [unmarked] at marked
    exact same ▸ kept ptr earlier present marked
  · rw [marked,Option.some.injEq] at mark
    exact same ▸ guarded mark.symm earlier present

theorem txnApplyOp_writesUntrusted (env : ApplyEnv) (s : HeapState) (op later : TxnOp) (carried : op.carries .untrusted)
    (guarded : WritesUntrusted s later) : WritesUntrusted (txnApplyOp env s op) later := by
  cases later with
  | alloc | delete => trivial
  | write ptr patch version =>
    intro object found
    rcases txnApplyOp_taint (fun _ => none) carried found with
      ⟨own,-⟩ | ⟨⟨earlier,present,same⟩,-⟩
    · exact own
    · exact same ▸ guarded earlier present

theorem txnApply_taintsKept (env : Nat → ApplyEnv) (taint : Taint) (ops : List TxnOp) (place : Nat) (s : HeapState)
    (origins : Origins) (carried : ∀ op ∈ ops, op.carries taint)
    (guarded : taint = .untrusted → ∀ op ∈ ops, WritesUntrusted s op) (kept : TaintsKept s origins) :
    TaintsKept (txnApply env place s ops) (traceOps env taint place s origins ops) := by
  induction ops generalizing place s origins with
  | nil => exact kept
  | cons op rest ih =>
    obtain ⟨here,later⟩ := List.forall_mem_cons.mp carried
    refine ih _ _ _ later ?_ ?_
    · rintro rfl next member
      exact txnApplyOp_writesUntrusted (env place) s op next here (guarded rfl next (List.mem_cons_of_mem op member))
    · exact txnApplyOp_taintsKept (env place) taint s origins op here
        (fun untrusted => guarded untrusted op List.mem_cons_self) kept

/-- Clearing the taint of an object on purpose ends what is known of its value. -/
def noteSanitized (clock ptr : UInt64) (newTaint : Taint) (expectedVersion : UInt64) (s : HeapState)
    (origins : Origins) : Origins :=
  if (akHeapSetTaintSanitized clock ptr newTaint expectedVersion s).2 = 0 then Function.update origins ptr none
  else origins

theorem akHeapSetTaintSanitized_taintsKept (clock ptr : UInt64) (newTaint : Taint) (expectedVersion : UInt64)
    {s : HeapState} {origins : Origins} (kept : TaintsKept s origins) :
    TaintsKept (akHeapSetTaintSanitized clock ptr newTaint expectedVersion s).1
      (noteSanitized clock ptr newTaint expectedVersion s origins) := by
  unfold noteSanitized akHeapSetTaintSanitized
  split
  · rename_i ok
    have acted := heapSetTaintInternal_acted ok
    intro other object found marked
    by_cases same : other = ptr
    · rw [same,Function.update_self] at marked
      cases marked
    · rw [Function.update_of_ne same] at marked
      rw [acted.findObject_change,if_neg same] at found
      exact kept other object found marked
  · rename_i failed
    rw [heapSetTaintInternal_refused failed]
    exact kept

end AuthorityKernel.Heap
