import AuthorityKernel.Types
import AuthorityKernel.Memory.Vmaps

/-! The memory calls of a process (`mmap`, `mremap`, `mprotect`, `munmap` and `madvise` in
`unix/mmap.c`) on its map. Arguments are 64-bit words and lengths are padded to pages with
wrap-around. -/
namespace AuthorityKernel.Memory

structure Process where
  vmaps : Vmaps
  mmapMinAddr : Nat
  execProtected : Bool
  randomize : Bool

/-- What a call finds around it: the heap's answers, the random numbers, and how many turns of its
loop there is time for. -/
structure Surroundings where
  memory : Records
  random : Range → UInt64
  turns : Nat

structure OpenFile where
  desc : Nat
  cacheNode : Nat
  exec : Bool
  readonly : Bool
  readable : Bool
  writable : Bool
  isSealed : Bool

inductive Descriptor where
  | bad
  | regular (file : OpenFile)
  | custom (desc : Nat) (mmap : Option (Vmap → Nat → Int × Nat))

inductive Call where
  | mmap (addr length : UInt64) (prot flags : UInt32) (fd : Descriptor) (offset : UInt64)
  | mremap (oldAddress oldSize newSize : UInt64) (flags : UInt32) (newAddress : UInt64)
  | mprotect (addr len : UInt64) (prot : UInt32)
  | munmap (addr length : UInt64)
  | madvise (addr length : UInt64) (advice : UInt32)

/-- What a call comes to: the value or the error it returns and the map it leaves. Nothing is left
when an assertion stops the kernel or the loop does not end in time. -/
abbrev Returned := Option (Except Int Nat × Vmaps)

def pad (x : Nat) : Nat := ((x + addressSpace - 1) % addressSpace / pageSize * pageSize + pageSize) % addressSpace

def protRead : UInt32 := 1
def protWrite : UInt32 := 2
def protExec : UInt32 := 4

def mapTypeMask : UInt32 := 0x0f
def mapFixed : UInt32 := 0x10
def mapAnonymous : UInt32 := 0x20
def map32bit : UInt32 := 0x40
def mapGrowsdown : UInt32 := 0x100
def mapFixedNoreplace : UInt32 := 0x100000
def mapUninitialized : UInt32 := 0x4000000

def validFlags : UInt32 :=
  mapTypeMask ||| mapFixed ||| mapAnonymous ||| mapGrowsdown ||| 0x800 ||| 0x1000 ||| 0x2000 ||| 0x4000 ||| 0x8000 |||
    0x10000 ||| 0x20000 ||| 0x40000 ||| 0x80000 ||| mapFixedNoreplace ||| mapUninitialized ||| map32bit ||| 0xfc000000

def mremapMaymove : UInt32 := 1
def mremapFixed : UInt32 := 2

def madvHugepage : UInt32 := 14
def madvNohugepage : UInt32 := 15

def flagIf (word bits flag : UInt32) : UInt32 := if hasFlag word bits then flag else 0

def protFlags (prot : UInt32) : UInt32 :=
  flagIf prot protRead vmapFlagReadable ||| flagIf prot protWrite vmapFlagWritable ||| flagIf prot protExec vmapFlagExec

def accessPermAll : UInt32 := vmapFlagReadable ||| vmapFlagWritable ||| vmapFlagExec

def anonPerms (p : Process) : UInt32 :=
  if p.execProtected then vmapFlagReadable ||| vmapFlagWritable else accessPermAll

def fileMetaPerms (p : Process) (file : OpenFile) : UInt32 :=
  let perms :=
    if p.execProtected then
      if file.exec then vmapFlagReadable ||| vmapFlagExec else vmapFlagReadable ||| vmapFlagWritable
    else accessPermAll
  if hasFlag perms vmapFlagWritable && file.readonly then perms &&& ~~~vmapFlagWritable else perms

def filePerms (p : Process) (file : OpenFile) : UInt32 :=
  let perms := fileMetaPerms p file
  let perms := if file.readable then perms else perms &&& ~~~vmapFlagReadable
  if file.writable then perms else perms &&& ~~~vmapFlagWritable

def isFixed (flags : UInt32) : Bool := hasFlag flags (mapFixed ||| mapFixedNoreplace)

def mmapFlags (prot flags : UInt32) : Except Int UInt32 :=
  let kind := flags &&& mapTypeMask
  if kind != 1 && kind != 3 && kind != 2 then .error eInval
  else if hasFlag flags mapUninitialized then .error eInval
  else if hasFlag flags (~~~validFlags) then .error eInval
  else .ok (vmapFlagMmap ||| (if kind == 2 then 0 else vmapFlagShared) ||| protFlags prot |||
    flagIf flags mapGrowsdown vmapFlagStack)

def validateMmapRange (p : Process) (q : Range) : Bool :=
  rangeValid q && p.mmapMinAddr ≤ q.start && q.stop ≤ userLimit

/-- Where a mapping is to go: at a fixed address, at a hint, or, from address 0, wherever there is room. -/
def mmapPlace (p : Process) (flags : UInt32) (addr len : Nat) : Except Int Range :=
  let q := irangel addr len
  if isFixed flags then
    if addr % pageSize != 0 || !validateMmapRange p q then .error eInval
    else if hasFlag flags mapFixedNoreplace && rangemapRangeIntersects p.vmaps q then .error eExist
    else .ok q
  else if addr == 0 then .ok q
  else
    let hinted := irangel (pad addr) len
    if rangemapRangeIntersects p.vmaps hinted then .ok ⟨0,hinted.stop⟩ else .ok hinted

structure Backing where
  kind : UInt32
  flags : UInt32
  allowed : UInt32
  cacheNode : Option Nat
  desc : Nat
  mmap : Option (Vmap → Nat → Int × Nat)

def mmapBacking (p : Process) (flags vmflags : UInt32) (fd : Descriptor) (offset : Nat) : Except Int Backing :=
  if hasFlag flags mapAnonymous then
    .ok ⟨vmapMmapTypeAnonymous,vmflags ||| vmapFlagThp,anonPerms p,none,0,none⟩
  else match fd with
    | .bad => .error eBadf
    | .regular file =>
      let isShared := hasFlag vmflags vmapFlagShared
      if isShared && file.isSealed && hasFlag vmflags vmapFlagWritable then .error ePerm
      else if offset % pageSize != 0 then .error eInval
      else
        let allowed :=
          if !isShared then filePerms p file ||| vmapFlagWritable
          else if file.isSealed then filePerms p file &&& ~~~vmapFlagWritable
          else filePerms p file
        .ok ⟨vmapMmapTypeFilebacked,vmflags,allowed,some file.cacheNode,file.desc,none⟩
    | .custom desc mmap =>
      if mmap.isNone then .error eInval else .ok ⟨vmapMmapTypeCustom,vmflags,vmflags,none,desc,mmap⟩

def Backing.record (backing : Backing) (offset : Nat) : Attributes :=
  { flags := backing.flags ||| backing.kind,allowedFlags := backing.flags ||| backing.kind ||| backing.allowed,
    nodeOffset := offset,cacheNode := backing.cacheNode,fd := backing.desc,fault := 0 }

def mmapRegion (flags : UInt32) : Range := if hasFlag flags map32bit then processVirtual32bitRange else processVirtualMmapRange

def mmapRange (env : Surroundings) (p : Process) (flags : UInt32) (len : Nat) (q : Range) : Option (Except Int Range) :=
  if isFixed flags || q.start != 0 then some (.ok q)
  else do
    let vaddr ← processGetVirtRangeLocked env.random p.randomize p.vmaps len (mmapRegion flags)
    if vaddr == invalidPhysical then some (.error eNomem) else some (.ok (irangel vaddr len))

def mmapCustom (backing : Backing) (q : Range) (offset : Nat) : Except Int Vmap :=
  let k : Vmap := ⟨q,backing.record offset⟩
  match backing.mmap with
  | none => .ok k
  | some mmap =>
    let (ret,fault) := mmap k offset
    if ret < 0 then .error (-ret) else .ok { k with value.fault := fault }

def setFault (rm : Vmaps) (start fault : Nat) : Vmaps :=
  rm.map (fun node => if node.start == start then { node with value.fault := fault } else node)

def mmapClear (env : Surroundings) (flags : UInt32) (backing : Backing) (q : Range) (rm : Vmaps) : Option Vmaps :=
  if isFixed flags then processRemoveRangeLocked env.memory (backing.kind != vmapMmapTypeCustom) q rm else some rm

def mmapInsert (env : Surroundings) (flags : UInt32) (backing : Backing) (k : Vmap) (rm : Vmaps) : Option Vmaps := do
  let cleared ← mmapClear env flags backing k.r rm
  match allocateVmapLocked env.memory cleared k with
  | .done after start => some (setFault after start k.value.fault)
  | _ => none

def mmap (env : Surroundings) (p : Process) (addr length : Nat) (prot flags : UInt32) (fd : Descriptor)
    (offset : Nat) : Returned :=
  let len := pad length
  let answer := fun error : Int => some (.error error,p.vmaps)
  if len == 0 then answer eInval
  else match mmapFlags prot flags with
    | .error error => answer error
    | .ok vmflags => match mmapPlace p flags addr len with
      | .error error => answer error
      | .ok q => match mmapBacking p flags vmflags fd offset with
        | .error error => answer error
        | .ok backing =>
          if hasFlag (vmflags &&& vmapFlagProtMask) (~~~backing.allowed) then answer eAcces
          else do
            let range ← mmapRange env p flags len q
            match range with
            | .error error => answer error
            | .ok q => match mmapCustom backing q offset with
              | .error error => answer error
              | .ok k => do
                let after ← mmapInsert env flags backing k p.vmaps
                some (.ok q.start,after)

def munmap (env : Surroundings) (p : Process) (addr length : Nat) : Returned :=
  if addr % pageSize != 0 || length == 0 then some (.error eInval,p.vmaps)
  else do
    let after ← processRemoveRangeLocked env.memory true (irangel addr (pad length)) p.vmaps
    some (.ok 0,after)

def wholeRange (rm : Vmaps) (q : Range) : Bool := !rangemapRangeFindGaps rm q && rangemapRangeIntersects rm q

def madvise (env : Surroundings) (p : Process) (addr length : Nat) (advice : UInt32) : Returned :=
  let q := irangel addr (pad length)
  let update := fun clearMask setMask : UInt32 => do
    let after ← updateFlagsLoop env.memory id clearMask setMask env.turns q p.vmaps
    some (.ok 0,after)
  if addr % pageSize != 0 || 2 ^ 63 ≤ length then some (.error eInval,p.vmaps)
  else if advice != madvHugepage && advice != madvNohugepage then some (.ok 0,p.vmaps)
  else if !wholeRange p.vmaps q then some (.error eNomem,p.vmaps)
  else if advice == madvHugepage then update 0 vmapFlagThp
  else update vmapFlagThp 0

def validateUserMemory (p : Process) (v length : Nat) : Bool :=
  min pageSize p.mmapMinAddr ≤ v && length < userLimit && v < userLimit - length

def mprotect (env : Surroundings) (p : Process) (addr len : Nat) (prot : UInt32) : Returned :=
  let q := irangel addr (pad len)
  let forbidden := fun node : Vmap => hasFlag (protFlags prot) (~~~node.value.allowedFlags)
  if len == 0 then some (.ok 0,p.vmaps)
  else if addr % pageSize != 0 then some (.error eInval,p.vmaps)
  else if rangeEmpty q then none
  else if !validateUserMemory p q.start (rangeSpan q) || !wholeRange p.vmaps q then some (.error eNomem,p.vmaps)
  else if (foreachOfRange p.vmaps q).any forbidden then some (.error eAcces,p.vmaps)
  else do
    let after ← updateFlagsLoop env.memory (fun _ => q) vmapFlagProtMask (protFlags prot) env.turns q p.vmaps
    some (.ok 0,after)

structure RemapSource where
  vmap : Vmap
  old : Range
  size : Nat

def remapSource (p : Process) (oldAddress oldSize newSize : Nat) (flags : UInt32) : Except Int RemapSource :=
  let old := irangel oldAddress (pad oldSize)
  if oldAddress % pageSize != 0 || hasFlag flags (~~~(mremapMaymove ||| mremapFixed)) || newSize == 0 ||
      (pad oldSize == 0 && !hasFlag flags mremapMaymove) then .error eInval
  else match rangemapLookup p.vmaps old.start with
    | none => .error eFault
    | some vm =>
      if !rangeContains vm.r old then .error eFault
      else if pad oldSize == 0 && !hasFlag vm.value.flags vmapFlagShared then .error eInval
      else
        -- an old size of 0 asks for a second mapping of shared pages
        let rest := min newSize (vm.r.stop - old.start)
        let source : RemapSource := if pad oldSize == 0 then ⟨vm,⟨old.start,old.start + rest⟩,pad rest⟩
          else ⟨vm,old,pad newSize⟩
        if !hasFlag vm.value.flags vmapFlagMmap || hasFlag vm.value.flags vmapMmapTypeCustom then .error eInval
        else .ok source

def remapPages (new old length : Nat) : Bool := new == old || !rangesIntersect (irangel new length) (irangel old length)

def remapClear (env : Surroundings) (fixed : Bool) (new : Range) (rm : Vmaps) : Option Vmaps :=
  if fixed then processRemoveRangeLocked env.memory true new rm else some rm

/-- The end of `mremap`: the old range is taken away, what a fixed address replaces too, and the copied
record is mapped at the new range. -/
def remapTo (env : Surroundings) (rm : Vmaps) (source : RemapSource) (new : Range) (fixed moves : Bool) : Returned := do
  let taken ← processRemoveRangeLocked env.memory false source.old rm
  let cleared ← remapClear env fixed new taken
  match allocateVmapLocked env.memory cleared { source.vmap with r := new } with
  | .done after _ =>
    if moves && !remapPages new.start source.old.start (rangeSpan source.old) then none else some (.ok new.start,after)
  | .refused => some (.error eNomem,cleared)
  | .halted => none

def mremap (env : Surroundings) (p : Process) (oldAddress oldSize newSize : Nat) (flags : UInt32) (newAddress : Nat) :
    Returned :=
  let answer := fun error : Int => some (.error error,p.vmaps)
  let mayMove := hasFlag flags mremapMaymove
  match remapSource p oldAddress oldSize newSize flags with
  | .error error => answer error
  | .ok source =>
    if hasFlag flags mremapFixed then
      let new := irangel newAddress source.size
      if !mayMove || newAddress % pageSize != 0 || rangesIntersect source.old new then answer eInval
      else remapTo env p.vmaps source new true true
    else if pad oldSize < source.size then
      let new := irangel source.old.start source.size
      if rangemapRangeIntersects p.vmaps ⟨source.old.stop,new.stop⟩ then
        if !mayMove then answer eNomem
        else do
          let vnew ← processGetVirtRangeLocked env.random p.randomize p.vmaps source.size processVirtualMmapRange
          if vnew == invalidPhysical then answer eNomem
          else remapTo env p.vmaps source (irangel vnew source.size) false true
      else remapTo env p.vmaps source new false false
    else if source.size < pad oldSize then do
      let after ← processRemoveRangeLocked env.memory true
        ⟨(source.old.start + source.size) % addressSpace,source.old.stop⟩ p.vmaps
      some (.ok source.old.start,after)
    else some (.ok source.old.start,p.vmaps)

def handle (env : Surroundings) (p : Process) : Call → Returned
  | .mmap addr length prot flags fd offset => mmap env p addr.toNat length.toNat prot flags fd offset.toNat
  | .mremap oldAddress oldSize newSize flags newAddress =>
    mremap env p oldAddress.toNat oldSize.toNat newSize.toNat flags newAddress.toNat
  | .mprotect addr len prot => mprotect env p addr.toNat len.toNat prot
  | .munmap addr length => munmap env p addr.toNat length.toNat
  | .madvise addr length advice => madvise env p addr.toNat length.toNat advice

def callStep (state : Option Process) (input : Surroundings × Call) : Option Process :=
  state.bind fun p => (handle input.1 p input.2).map fun returned => { p with vmaps := returned.2 }

end AuthorityKernel.Memory
