import AuthorityKernel.Memory.Outcomes

/-! Conditions on the ranges that a memory call touches: what a fixed mapping replaces, where a
hint or `mremap` puts a mapping, what is searched for room, and what is removed or changed. -/
namespace AuthorityKernel.Memory

def newLength (vm : Vmap) (oldAddress oldSize newSize : Nat) : Nat :=
  if pad oldSize = 0 then pad (min newSize (vm.r.stop - oldAddress)) else pad newSize

def oldRange (vm : Vmap) (oldAddress oldSize newSize : Nat) : Range :=
  if pad oldSize = 0 then ⟨oldAddress,oldAddress + min newSize (vm.r.stop - oldAddress)⟩
  else irangel oldAddress (pad oldSize)

/-- What is asked of the ranges a call touches. -/
structure Demands where
  /-- The range a fixed mapping replaces. -/
  fixed : Range → Prop
  /-- The range a hint or a new address names. -/
  placed : Range → Prop
  /-- The region that is searched for a size. -/
  searched : Range → Nat → Prop
  /-- The node `mremap` takes pages from. -/
  source : Vmap → Prop
  /-- The range that is removed or changed. -/
  removed : Range → Prop

/-- A call meets demands on the ranges it touches in the map of a process. -/
def CallMeets (demands : Demands) (p : Process) : Call → Prop
  | .mmap addr length _ flags _ _ =>
    let len := pad length.toNat
    let hinted := irangel (pad addr.toNat) len
    if isFixed flags then demands.fixed (irangel addr.toNat len)
    else if addr.toNat = 0 ∨ pad addr.toNat = 0 ∨ rangemapRangeIntersects p.vmaps hinted then
      demands.searched (mmapRegion flags) len
    else demands.placed hinted
  | .mremap oldAddress oldSize newSize flags newAddress =>
    ∀ vm ∈ p.vmaps, vm.r.Holds oldAddress.toNat → demands.source vm ∧
      let size := newLength vm oldAddress.toNat oldSize.toNat newSize.toNat
      let old := oldRange vm oldAddress.toNat oldSize.toNat newSize.toNat
      let grown := irangel oldAddress.toNat size
      if hasFlag flags mremapFixed then demands.placed (irangel newAddress.toNat size)
      else if pad oldSize.toNat < size then
        if rangemapRangeIntersects p.vmaps ⟨old.stop,grown.stop⟩ then demands.searched processVirtualMmapRange size
        else demands.placed grown
      else size < pad oldSize.toNat → demands.removed ⟨(oldAddress.toNat + size) % addressSpace,old.stop⟩
  | .mprotect addr len _ => demands.removed (irangel addr.toNat (pad len.toNat))
  | .munmap addr length => demands.removed (irangel addr.toNat (pad length.toNat))
  | .madvise addr length _ => demands.removed (irangel addr.toNat (pad length.toNat))

variable {addr oldAddress oldSize newSize : Nat} {q place : Range} {source : RemapSource} {flags : UInt32}
  {newAddress : UInt64} {rm : Vmaps}

section Calls

variable {env : Surroundings} {p : Process} {demands : Demands}

theorem pad_whole (x : Nat) : pad x % pageSize = 0 := by
  unfold pad addressSpace pageSize
  omega

theorem Free.within {part : Range} (free : Free rm q) (inside : part.Within q) : Free rm part := by
  intro node member empty strictly
  obtain ⟨first,second⟩ := inside
  exact free node member empty ⟨by omega,by omega⟩

theorem mmapRegion_limit (flags : UInt32) : (mmapRegion flags).stop ≤ userLimit := by
  unfold mmapRegion
  split
  · decide
  · exact le_refl _

theorem mmapPlace_ok {len : Nat} (placed : mmapPlace p flags addr len = .ok place) :
    (isFixed flags = true ∧ place = irangel addr len ∧ validateMmapRange p place = true) ∨
    (isFixed flags = false ∧ addr ≠ 0 ∧ rangemapRangeIntersects p.vmaps (irangel (pad addr) len) = false ∧
      place = irangel (pad addr) len) ∨
    (isFixed flags = false ∧ (addr = 0 ∨ rangemapRangeIntersects p.vmaps (irangel (pad addr) len) = true) ∧
      place.start = 0) := by
  simp only [mmapPlace] at placed
  split at placed
  · rename_i fixed
    obtain ⟨good,placed⟩ := Library.Guards.passed placed nofun
    obtain ⟨-,placed⟩ := Library.Guards.passed placed nofun
    have shape := Except.ok.inj placed
    simp only [Bool.or_eq_true,not_or,Bool.not_eq_true',Bool.not_eq_false] at good
    exact Or.inl ⟨fixed,shape.symm,shape ▸ good.2⟩
  rename_i notFixed
  have notFixed : isFixed flags = false := by simpa using notFixed
  split at placed
  · rename_i none
    have zero : addr = 0 := by simpa using none
    have shape := Except.ok.inj placed
    exact Or.inr (Or.inr ⟨notFixed,Or.inl zero,shape ▸ zero⟩)
  rename_i some
  split at placed
  · rename_i collides
    have shape := Except.ok.inj placed
    exact Or.inr (Or.inr ⟨notFixed,Or.inr collides,by rw [← shape]⟩)
  · rename_i fits
    have shape := Except.ok.inj placed
    exact Or.inr (Or.inl ⟨notFixed,by simpa using some,by simpa using fits,shape.symm⟩)

inductive MmapRange (env : Surroundings) (p : Process) (demands : Demands) (addr length : Nat) (flags : UInt32)
    (q : Range) : Prop where
  | fixed (asked : isFixed flags = true) (shape : q = irangel addr (pad length))
    (valid : validateMmapRange p q = true) (met : demands.fixed q)
  | hinted (free : isFixed flags = false) (shape : q = irangel (pad addr) (pad length))
    (room : rangemapRangeIntersects p.vmaps q = false) (met : demands.placed q)
  | searched (free : isFixed flags = false) (vaddr : Nat)
    (found : processGetVirtRangeLocked env.random p.randomize p.vmaps (pad length) (mmapRegion flags) = some vaddr)
    (known : vaddr ≠ invalidPhysical) (shape : q = irangel vaddr (pad length))
    (met : demands.searched (mmapRegion flags) (pad length))

theorem mmapRange_searched {length : Nat} (free : isFixed flags = false)
    (met : demands.searched (mmapRegion flags) (pad length)) (ranged : (do
      let vaddr ← processGetVirtRangeLocked env.random p.randomize p.vmaps (pad length) (mmapRegion flags)
      if vaddr == invalidPhysical then some (.error eNomem) else some (.ok (irangel vaddr (pad length)))) =
        (some (.ok q) : Option (Except Int Range))) : MmapRange env p demands addr length flags q := by
  obtain ⟨vaddr,found,rest⟩ := Option.bind_eq_some_iff.mp ranged
  obtain ⟨known,rest⟩ := Library.Guards.passed rest nofun
  have shape := Except.ok.inj (Option.some.inj rest)
  exact .searched free vaddr found (by simpa using known) shape.symm met

theorem mmapped_meets {addr length : UInt64} {prot : UInt32} {fd : Descriptor} {offset : UInt64} {vmflags : UInt32}
    {backing : Backing} {k : Vmap} (meets : CallMeets demands p (.mmap addr length prot flags fd offset))
    (mapped : Mmapped env p addr.toNat length.toNat prot flags fd offset.toNat vmflags place q backing k) :
    MmapRange env p demands addr.toNat length.toNat flags q := by
  have ranged := mapped.ranged
  simp only [CallMeets] at meets
  simp only [mmapRange] at ranged
  rcases mmapPlace_ok mapped.placed with ⟨fixed,shape,valid⟩ | ⟨free,hint,fits,shape⟩ | ⟨free,none,zero⟩
  · simp only [fixed,if_true,Bool.true_or,Option.some.injEq,Except.ok.injEq] at meets ranged
    subst ranged shape
    exact .fixed fixed rfl valid meets
  · by_cases start : pad addr.toNat = 0
    · have zero : place.start = 0 := by rw [shape]; exact start
      simp only [free,zero,bne_self_eq_false,Bool.or_self,Bool.false_eq_true,if_false,start,true_or,or_true,if_true]
        at meets ranged
      exact mmapRange_searched free meets ranged
    · have some : place.start ≠ 0 := by rw [shape]; exact start
      have given : (place.start != 0) = true := by simpa using some
      simp only [free,given,Bool.or_true,if_true,Option.some.injEq,Except.ok.injEq,Bool.false_eq_true,if_false,hint,start,
        fits,or_self] at meets ranged
      subst ranged shape
      exact .hinted free rfl fits meets
  · have search : addr.toNat = 0 ∨ pad addr.toNat = 0 ∨
        rangemapRangeIntersects p.vmaps (irangel (pad addr.toNat) (pad length.toNat)) = true := by
      rcases none with unset | collides
      · exact Or.inl unset
      · exact Or.inr (Or.inr collides)
    simp only [free,zero,bne_self_eq_false,Bool.or_self,Bool.false_eq_true,if_false,search,if_true] at meets ranged
    exact mmapRange_searched free meets ranged

theorem remapSource_ok (ordered : WellOrdered p.vmaps) (start : oldAddress < addressSpace)
    (found : remapSource p oldAddress oldSize newSize flags = .ok source) :
    source.vmap ∈ p.vmaps ∧ source.vmap.r.Holds oldAddress ∧ source.old.Within source.vmap.r ∧
      source.old = oldRange source.vmap oldAddress oldSize newSize ∧
      source.size = newLength source.vmap oldAddress oldSize newSize ∧ source.old.start = oldAddress := by
  obtain ⟨good,found⟩ := Library.Guards.passed found nofun
  simp only [Bool.or_eq_true,not_or,bne_iff_ne,ne_eq,Decidable.not_not] at good
  have room : oldAddress + 1 < addressSpace := by
    unfold addressSpace pageSize at *
    omega
  split at found
  · cases found
  rename_i vm looked
  obtain ⟨member,holds⟩ := lookup_holds ordered room looked
  have low : vm.r.start ≤ oldAddress := holds.1
  have high : oldAddress < vm.r.stop := holds.2
  obtain ⟨contained,found⟩ := Library.Guards.passed found nofun
  obtain ⟨-,found⟩ := Library.Guards.passed found nofun
  obtain ⟨-,found⟩ := Library.Guards.passed found nofun
  have shape := Except.ok.inj found
  subst shape
  simp only [rangeContains,Bool.not_eq_true',Bool.not_eq_false,Bool.and_eq_true,decide_eq_true_eq] at contained
  by_cases none : pad oldSize = 0
  · simp only [none,beq_self_eq_true,if_true,oldRange,newLength]
    refine ⟨member,holds,⟨low,?_⟩,rfl,rfl,rfl⟩
    show oldAddress + min newSize (vm.r.stop - oldAddress) ≤ vm.r.stop
    omega
  · have some : (pad oldSize == 0) = false := by simpa using none
    simp only [some,none,Bool.false_eq_true,if_false,oldRange,newLength]
    exact ⟨member,holds,contained,trivial,trivial,rfl⟩

theorem remapSource_lookup (found : remapSource p oldAddress oldSize newSize flags = .ok source) :
    rangemapLookup p.vmaps oldAddress = some source.vmap := by
  obtain ⟨-,found⟩ := Library.Guards.passed found nofun
  split at found
  · cases found
  rename_i vm looked
  obtain ⟨-,found⟩ := Library.Guards.passed found nofun
  obtain ⟨-,found⟩ := Library.Guards.passed found nofun
  obtain ⟨-,found⟩ := Library.Guards.passed found nofun
  have shape := Except.ok.inj found
  rw [← shape]
  split
  · exact looked
  exact looked

theorem remapSource_whole (vm : Vmap) : newLength vm oldAddress oldSize newSize % pageSize = 0 := by
  unfold newLength
  split
  · exact pad_whole _
  · exact pad_whole _

inductive RemapRange (env : Surroundings) (p : Process) (demands : Demands) (source : RemapSource) (new : Range) :
    Prop where
  | placed (met : demands.placed new)
  | searched (vnew : Nat)
    (found : processGetVirtRangeLocked env.random p.randomize p.vmaps source.size processVirtualMmapRange = some vnew)
    (known : vnew ≠ invalidPhysical) (some : 0 < source.size) (shape : new = irangel vnew source.size)
    (met : demands.searched processVirtualMmapRange source.size)

theorem target_meets {oldAddress oldSize newSize : UInt64} {new : Range} {fixed moves : Bool}
    (ordered : WellOrdered p.vmaps)
    (meets : CallMeets demands p (.mremap oldAddress oldSize newSize flags newAddress))
    (found : remapSource p oldAddress.toNat oldSize.toNat newSize.toNat flags = .ok source)
    (target : Target env p oldSize.toNat flags newAddress.toNat source new fixed moves) :
    demands.source source.vmap ∧ RemapRange env p demands source new := by
  obtain ⟨member,holds,within,old,size,start⟩ := remapSource_ok ordered oldAddress.toNat_lt found
  obtain ⟨from',targets⟩ := meets source.vmap member holds
  refine ⟨from',?_⟩
  simp only [← old,← size] at targets
  cases target with
  | fixed asked aligned away shape =>
    rw [if_pos asked] at targets
    rw [shape]
    exact .placed targets
  | grown asked larger room shape =>
    rw [start] at shape
    rw [if_neg (by simp [asked]),if_pos larger,← shape,if_neg (by simp [room])] at targets
    exact .placed targets
  | relocated asked larger collides vnew chosen known shape =>
    rw [start] at collides
    rw [if_neg (by simp [asked]),if_pos larger,if_pos collides] at targets
    exact .searched vnew chosen known (by omega) shape targets

theorem shrunk_meets {oldAddress oldSize newSize : UInt64} (ordered : WellOrdered p.vmaps)
    (meets : CallMeets demands p (.mremap oldAddress oldSize newSize flags newAddress))
    (found : remapSource p oldAddress.toNat oldSize.toNat newSize.toNat flags = .ok source)
    (asked : hasFlag flags mremapFixed = false) (smaller : source.size < pad oldSize.toNat) :
    demands.removed ⟨(source.old.start + source.size) % addressSpace,source.old.stop⟩ := by
  obtain ⟨member,holds,within,old,size,start⟩ := remapSource_ok ordered oldAddress.toNat_lt found
  have targets := (meets source.vmap member holds).2
  simp only [← old,← size] at targets
  rw [if_neg (by simp [asked]),if_neg (by omega)] at targets
  rw [start]
  exact targets smaller

end Calls

theorem mem_setFault {start fault : Nat} {node : Vmap} (member : node ∈ setFault rm start fault) :
    ∃ old ∈ rm, old.r = node.r := by
  obtain ⟨old,among,rfl⟩ := List.mem_map.mp member
  refine ⟨old,among,?_⟩
  split
  · rfl
  · rfl

theorem ordered_setFault (ordered : WellOrdered rm) (start fault : Nat) : WellOrdered (setFault rm start fault) where
  sorted := by
    refine List.pairwise_map.mpr (ordered.sorted.imp fun {a b} less => ?_)
    have key : ∀ node : Vmap, Node.start (if node.start == start then { node with value.fault := fault } else node) =
        node.start := by
      intro node
      split
      · rfl
      · rfl
    rwa [key,key]
  valid node member := by
    obtain ⟨old,among,same⟩ := mem_setFault member
    exact same ▸ ordered.valid old among
  small node member := by
    obtain ⟨old,among,same⟩ := mem_setFault member
    exact same ▸ ordered.small old among
  apart a first b second different := by
    obtain ⟨olda,amonga,samea⟩ := mem_setFault first
    obtain ⟨oldb,amongb,sameb⟩ := mem_setFault second
    rw [← samea,← sameb]
    refine ordered.apart olda amonga oldb amongb fun equal => different ?_
    show a.r.start = b.r.start
    rw [← samea,← sameb]
    exact equal

def freshProcess : Process := ⟨[],pageSize,false,false⟩

def plainSurroundings : Surroundings := ⟨fun _ => some 0,fun _ => 0,16⟩

def threePages : Vmap := ⟨⟨0x10000,0x13000⟩,⟨0x8116,0x8117,0,none,0,0⟩⟩

theorem threePages_mapped {answer : Except Int Nat} {after : Vmaps}
    (done : handle plainSurroundings freshProcess (.mmap 0x10000 0x3000 3 0x32 .bad 0) = some (answer,after)) :
    after = [threePages] := by
  have mapped : (handle plainSurroundings freshProcess (.mmap 0x10000 0x3000 3 0x32 .bad 0)).map Prod.snd =
      some [threePages] := by decide +kernel
  rw [done] at mapped
  exact Option.some.inj mapped

end AuthorityKernel.Memory
