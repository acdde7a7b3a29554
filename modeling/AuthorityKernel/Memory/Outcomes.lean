import AuthorityKernel.Library.Guards
import AuthorityKernel.Memory.Calls
import AuthorityKernel.Memory.Updates

/-! What each memory call can come to: it leaves the map as it was, or it does one of a few
operations on it. -/
namespace AuthorityKernel.Memory
open Library

variable {env : Surroundings} {p : Process} {answer : Except Int Nat} {after : Vmaps}

theorem pad_lt (x : Nat) : pad x < addressSpace := Nat.mod_lt _ (by decide)

theorem irangel_stop_lt (start len : Nat) : (irangel start len).stop < addressSpace := Nat.mod_lt _ (by decide)

variable {backing : Backing} {fd : Descriptor} {start len addr length offset : Nat} {q : Range}
  {prot flags vmflags : UInt32} {k : Vmap} {rm : Vmaps}

theorem irangel_of_lt (fits : start + len < addressSpace) : irangel start len = ⟨start,start + len⟩ := by
  rw [irangel,Nat.mod_eq_of_lt fits]

theorem irangel_of_proper (short : len < addressSpace) (proper : (irangel start len).start < (irangel start len).stop) :
    irangel start len = ⟨start,start + len⟩ := by
  apply irangel_of_lt
  simp only [irangel] at proper
  unfold addressSpace at *
  omega

structure Mmapped (env : Surroundings) (p : Process) (addr length : Nat) (prot flags : UInt32) (fd : Descriptor)
    (offset : Nat) (vmflags : UInt32) (place q : Range) (backing : Backing) (k : Vmap) : Prop where
  len : pad length ≠ 0
  flagged : mmapFlags prot flags = .ok vmflags
  placed : mmapPlace p flags addr (pad length) = .ok place
  backed : mmapBacking p flags vmflags fd offset = .ok backing
  allowed : hasFlag (vmflags &&& vmapFlagProtMask) (~~~backing.allowed) = false
  ranged : mmapRange env p flags (pad length) place = some (.ok q)
  record : mmapCustom backing q offset = .ok k

theorem refused_of_changed (kept : ¬((∃ error, answer = .error error) ∧ after = p.vmaps)) (error : Int) :
    some (Except.error error,p.vmaps) ≠ some (answer,after) := by
  intro same
  cases same
  exact kept ⟨⟨error,rfl⟩,rfl⟩

theorem mmap_done (done : mmap env p addr length prot flags fd offset = some (answer,after)) :
    ((∃ error, answer = .error error) ∧ after = p.vmaps) ∨ ∃ vmflags place q backing k,
      Mmapped env p addr length prot flags fd offset vmflags place q backing k ∧
        mmapInsert env flags backing k p.vmaps = some after ∧ answer = .ok q.start := by
  refine or_iff_not_imp_left.mpr fun kept => ?_
  have refused := refused_of_changed kept
  simp only [mmap] at done
  obtain ⟨len,done⟩ := Guards.passed done (refused _)
  split at done
  · exact absurd done (refused _)
  rename_i vmflags flagged
  split at done
  · exact absurd done (refused _)
  rename_i place placed
  split at done
  · exact absurd done (refused _)
  rename_i backing backed
  obtain ⟨allowed,done⟩ := Guards.passed done (refused _)
  obtain ⟨range,ranged,done⟩ := Option.bind_eq_some_iff.mp done
  split at done
  · exact absurd done (refused _)
  rename_i q
  split at done
  · exact absurd done (refused _)
  rename_i k record
  obtain ⟨mapped,inserted,result⟩ := Option.bind_eq_some_iff.mp done
  cases result
  exact ⟨vmflags,place,q,backing,k,⟨by simpa using len,flagged,placed,backed,by simpa using allowed,ranged,
    record⟩,inserted,rfl⟩

theorem protFlags_within (prot : UInt32) : protFlags prot &&& ~~~vmapFlagProtMask = 0 := by
  have known : ∀ word bits flag : UInt32, flag &&& ~~~vmapFlagProtMask = 0 →
      flagIf word bits flag &&& ~~~vmapFlagProtMask = 0 := by
    intro word bits flag inside
    unfold flagIf
    split
    · exact inside
    · exact UInt32.zero_and
  apply Bits.or_and_eq_zero
  · apply Bits.or_and_eq_zero
    · exact known _ _ _ (by decide)
    · exact known _ _ _ (by decide)
  · exact known _ _ _ (by decide)

theorem mmapFlags_untyped (flagged : mmapFlags prot flags = .ok vmflags) :
    vmflags &&& (vmapMmapTypeAnonymous ||| vmapMmapTypeFilebacked ||| vmapMmapTypeCustom) = 0 := by
  obtain ⟨_,flagged⟩ := Guards.passed flagged nofun
  obtain ⟨_,flagged⟩ := Guards.passed flagged nofun
  obtain ⟨_,flagged⟩ := Guards.passed flagged nofun
  rw [← Except.ok.inj flagged]
  apply Bits.or_and_eq_zero
  · apply Bits.or_and_eq_zero
    · split
      · decide
      · decide
    · apply Bits.and_eq_zero.mpr
      intro i isSet
      have masked := Bits.and_not_eq_zero.mp (protFlags_within prot) i isSet
      exact Bits.and_eq_zero.mp (by decide) i masked
  · unfold flagIf
    split
    · decide
    · decide

theorem mmapBacking_ok (backed : mmapBacking p flags vmflags fd offset = .ok backing) :
    (backing.kind = vmapMmapTypeAnonymous ∧ backing.flags = vmflags ||| vmapFlagThp ∧ backing.mmap = none ∧
      backing.allowed = anonPerms p) ∨
    (backing.kind = vmapMmapTypeFilebacked ∧ backing.flags = vmflags ∧ backing.mmap = none) ∨
    (backing.kind = vmapMmapTypeCustom ∧ backing.flags = vmflags ∧ backing.mmap.isSome) := by
  unfold mmapBacking at backed
  split at backed
  · rw [← Except.ok.inj backed]
    exact Or.inl ⟨rfl,rfl,rfl,rfl⟩
  split at backed
  · cases backed
  · dsimp only at backed
    obtain ⟨_,backed⟩ := Guards.passed backed nofun
    obtain ⟨_,backed⟩ := Guards.passed backed nofun
    rw [← Except.ok.inj backed]
    exact Or.inr (Or.inl ⟨rfl,rfl,rfl⟩)
  · obtain ⟨mappable,backed⟩ := Guards.passed backed nofun
    rw [← Except.ok.inj backed]
    exact Or.inr (Or.inr ⟨rfl,rfl,by simpa [Option.isSome_iff_ne_none] using mappable⟩)

theorem mmapCustom_ok (record : mmapCustom backing q offset = .ok k) :
    ∃ fault, k = ⟨q,{ backing.record offset with fault }⟩ := by
  unfold mmapCustom at record
  split at record
  · cases record
    exact ⟨0,rfl⟩
  dsimp only at record
  split at record
  · cases record
  · cases record
    exact ⟨_,rfl⟩

theorem mmapInsert_done (done : mmapInsert env flags backing k rm = some after) :
    ∃ cleared mapped start, mmapClear env flags backing k.r rm = some cleared ∧
      allocateVmapLocked env.memory cleared k = .done mapped start ∧ after = setFault mapped start k.value.fault := by
  obtain ⟨cleared,first,last⟩ := Option.bind_eq_some_iff.mp done
  split at last
  · rename_i mapped start allocated
    exact ⟨cleared,mapped,start,first,allocated,(Option.some.inj last).symm⟩
  · cases last

theorem munmap_done (done : munmap env p addr length = some (answer,after)) :
    (answer = .error eInval ∧ after = p.vmaps) ∨ (answer = .ok 0 ∧ length ≠ 0 ∧
      processRemoveRangeLocked env.memory true (irangel addr (pad length)) p.vmaps = some after) := by
  unfold munmap at done
  split at done
  · cases done
    exact Or.inl ⟨rfl,rfl⟩
  rename_i good
  obtain ⟨removed,cut,result⟩ := Option.bind_eq_some_iff.mp done
  cases result
  simp only [Bool.or_eq_true,not_or,beq_iff_eq] at good
  exact Or.inr ⟨rfl,good.2,cut⟩

theorem wholeRange_valid (ordered : WellOrdered rm) (small : q.stop < addressSpace) (whole : wholeRange rm q = true) :
    q.start < q.stop := by
  simp only [wholeRange,Bool.and_eq_true,rangemapRangeIntersects,Bool.not_eq_true',List.isEmpty_eq_false_iff] at whole
  obtain ⟨node,visited⟩ := List.exists_mem_of_ne_nil _ whole.2
  have meet := (rangesIntersect_iff q node.r small).mp (mem_foreachOfRange ordered visited).2
  omega

theorem kept_of_changed (kept : ¬after = p.vmaps) (other : Except Int Nat) :
    some (other,p.vmaps) ≠ some (answer,after) := by
  intro same
  cases same
  exact kept rfl

theorem madvise_done {advice : UInt32} (done : madvise env p addr length advice = some (answer,after)) :
    after = p.vmaps ∨ (answer = .ok 0 ∧ wholeRange p.vmaps (irangel addr (pad length)) = true ∧ ∃ clearMask setMask,
      (advice,clearMask,setMask) ∈ [(madvHugepage,0,vmapFlagThp),(madvNohugepage,vmapFlagThp,0)] ∧
        updateFlagsLoop env.memory id clearMask setMask env.turns (irangel addr (pad length)) p.vmaps = some after) := by
  refine or_iff_not_imp_left.mpr fun kept => ?_
  obtain ⟨_,done⟩ := Guards.passed done (kept_of_changed kept _)
  obtain ⟨known,done⟩ := Guards.passed done (kept_of_changed kept _)
  obtain ⟨whole,done⟩ := Guards.passed done (kept_of_changed kept _)
  simp only [Bool.not_eq_true',Bool.not_eq_false] at whole
  split at done
  · rename_i huge
    have huge : advice = madvHugepage := by simpa using huge
    obtain ⟨changed,looped,result⟩ := Option.bind_eq_some_iff.mp done
    cases result
    exact ⟨rfl,whole,_,_,huge ▸ List.mem_cons_self,looped⟩
  rename_i other
  have small : advice = madvNohugepage := by
    simp only [Bool.and_eq_true,bne_iff_ne,not_and,Decidable.not_not] at known
    exact known (by simpa using other)
  obtain ⟨changed,looped,result⟩ := Option.bind_eq_some_iff.mp done
  cases result
  exact ⟨rfl,whole,_,_,small ▸ List.mem_cons_of_mem _ List.mem_cons_self,looped⟩

theorem rangeSpan_irangel (first : start < addressSpace) (second : len < addressSpace) :
    rangeSpan (irangel start len) = len := by
  simp only [rangeSpan,irangel]
  unfold addressSpace at *
  omega

theorem mprotect_done (small : addr < addressSpace) (done : mprotect env p addr len prot = some (answer,after)) :
    after = p.vmaps ∨ (answer = .ok 0 ∧ addr + pad len < userLimit ∧
      wholeRange p.vmaps ⟨addr,addr + pad len⟩ = true ∧
      (∀ node ∈ foreachOfRange p.vmaps ⟨addr,addr + pad len⟩,
        hasFlag (protFlags prot) (~~~node.value.allowedFlags) = false) ∧
      updateFlagsLoop env.memory (fun _ => ⟨addr,addr + pad len⟩) vmapFlagProtMask (protFlags prot) env.turns
        ⟨addr,addr + pad len⟩ p.vmaps = some after) := by
  refine or_iff_not_imp_left.mpr fun kept => ?_
  obtain ⟨_,done⟩ := Guards.passed done (kept_of_changed kept _)
  obtain ⟨_,done⟩ := Guards.passed done (kept_of_changed kept _)
  obtain ⟨_,done⟩ := Guards.passed done nofun
  obtain ⟨good,done⟩ := Guards.passed done (kept_of_changed kept _)
  have span := rangeSpan_irangel small (pad_lt len)
  have start : (irangel addr (pad len)).start = addr := rfl
  simp only [Bool.or_eq_true,Bool.not_eq_true',not_or,Bool.not_eq_false,validateUserMemory,span,start,
    Bool.and_eq_true,decide_eq_true_eq] at good
  have below : addr + pad len < userLimit := by omega
  have limit : userLimit < addressSpace := by decide
  rw [irangel_of_lt (below.trans limit)] at done good
  obtain ⟨allowed,done⟩ := Guards.passed done (kept_of_changed kept _)
  obtain ⟨changed,looped,result⟩ := Option.bind_eq_some_iff.mp done
  cases result
  exact ⟨rfl,below,good.2,by simpa using allowed,looped⟩

inductive Target (env : Surroundings) (p : Process) (oldSize : Nat) (flags : UInt32) (newAddress : Nat)
    (source : RemapSource) (new : Range) : Bool → Bool → Prop where
  | fixed (asked : hasFlag flags mremapFixed = true) (aligned : newAddress % pageSize = 0)
    (away : rangesIntersect source.old new = false) (shape : new = irangel newAddress source.size) :
    Target env p oldSize flags newAddress source new true true
  | grown (asked : hasFlag flags mremapFixed = false) (larger : pad oldSize < source.size)
    (room : rangemapRangeIntersects p.vmaps ⟨source.old.stop,new.stop⟩ = false)
    (shape : new = irangel source.old.start source.size) : Target env p oldSize flags newAddress source new false false
  | relocated (asked : hasFlag flags mremapFixed = false) (larger : pad oldSize < source.size)
    (collides : rangemapRangeIntersects p.vmaps
      ⟨source.old.stop,(irangel source.old.start source.size).stop⟩ = true) (vnew : Nat)
    (found : processGetVirtRangeLocked env.random p.randomize p.vmaps source.size processVirtualMmapRange = some vnew)
    (known : vnew ≠ invalidPhysical) (shape : new = irangel vnew source.size) :
    Target env p oldSize flags newAddress source new false true

theorem mremap_done {oldAddress oldSize newSize newAddress : Nat}
    (done : mremap env p oldAddress oldSize newSize flags newAddress = some (answer,after)) :
    ((∃ error, answer = .error error) ∧ after = p.vmaps) ∨
    ∃ source, remapSource p oldAddress oldSize newSize flags = .ok source ∧
      ((answer = .ok source.old.start ∧ hasFlag flags mremapFixed = false ∧ source.size = pad oldSize ∧
        after = p.vmaps) ∨
      (answer = .ok source.old.start ∧ hasFlag flags mremapFixed = false ∧ source.size < pad oldSize ∧
        processRemoveRangeLocked env.memory true
          ⟨(source.old.start + source.size) % addressSpace,source.old.stop⟩ p.vmaps = some after) ∨
      ∃ new fixed moves, Target env p oldSize flags newAddress source new fixed moves ∧
        remapTo env p.vmaps source new fixed moves = some (answer,after)) := by
  refine or_iff_not_imp_left.mpr fun kept => ?_
  have refused := refused_of_changed kept
  simp only [mremap] at done
  split at done
  · exact absurd done (refused _)
  rename_i source found
  refine ⟨source,found,?_⟩
  split at done
  · rename_i asked
    obtain ⟨good,done⟩ := Guards.passed done (refused _)
    simp only [Bool.or_eq_true,Bool.not_eq_true',not_or,Bool.not_eq_true,bne_eq_false_iff_eq] at good
    exact Or.inr (Or.inr ⟨_,true,true,.fixed asked good.1.2 good.2 rfl,done⟩)
  rename_i asked
  have asked : hasFlag flags mremapFixed = false := by simpa using asked
  split at done
  · rename_i larger
    split at done
    · rename_i collides
      obtain ⟨_,done⟩ := Guards.passed done (refused _)
      obtain ⟨vnew,chosen,done⟩ := Option.bind_eq_some_iff.mp done
      obtain ⟨known,done⟩ := Guards.passed done (refused _)
      exact Or.inr (Or.inr
        ⟨_,false,true,.relocated asked larger collides vnew chosen (by simpa using known) rfl,done⟩)
    · rename_i room
      exact Or.inr (Or.inr ⟨_,false,false,.grown asked larger (by simpa using room) rfl,done⟩)
  · split at done
    · rename_i smaller
      obtain ⟨removed,cut,result⟩ := Option.bind_eq_some_iff.mp done
      cases result
      exact Or.inr (Or.inl ⟨rfl,asked,smaller,cut⟩)
    · cases done
      exact Or.inl ⟨rfl,asked,by omega,rfl⟩

theorem remapTo_done {source : RemapSource} {new : Range} {fixed moves : Bool}
    (done : remapTo env rm source new fixed moves = some (answer,after)) :
    ∃ taken cleared, processRemoveRangeLocked env.memory false source.old rm = some taken ∧
      remapClear env fixed new taken = some cleared ∧
      ((∃ start, allocateVmapLocked env.memory cleared { source.vmap with r := new } = .done after start ∧
        answer = .ok new.start) ∨
      (allocateVmapLocked env.memory cleared { source.vmap with r := new } = .refused ∧ after = cleared ∧
        answer = .error eNomem)) := by
  simp only [remapTo,Option.bind_eq_bind,Option.bind_eq_some_iff] at done
  obtain ⟨taken,first,cleared,second,last⟩ := done
  refine ⟨taken,cleared,first,second,?_⟩
  split at last
  · rename_i mapped start allocated
    split at last
    · cases last
    · cases last
      exact Or.inl ⟨start,allocated,rfl⟩
  · rename_i refused
    cases last
    exact Or.inr ⟨refused,rfl,rfl⟩
  · cases last

end AuthorityKernel.Memory
