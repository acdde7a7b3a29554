import AuthorityKernel.Memory.RangeMap

/-! The mapped ranges of a process (`allocate_vmap_locked`, `vmap_remove_intersection`,
`vmap_update_flags_intersection` and the choice of a free range in `unix/mmap.c`). A new range
joins its neighbours with the same attributes; a removed or changed part splits a range. -/
namespace AuthorityKernel.Memory

def pageSize : Nat := 4096
def userLimit : Nat := 0x0000800000000000
def processStackGuardGap : Nat := 256 * pageSize
def processVirtualMmapRange : Range := ⟨0x100000000,userLimit⟩
def processVirtual32bitRange : Range := ⟨2 * 2 ^ 30,4 * 2 ^ 30⟩
def invalidPhysical : Nat := addressSpace - 1

def vmapFlagExec : UInt32 := 0x0001
def vmapFlagWritable : UInt32 := 0x0002
def vmapFlagReadable : UInt32 := 0x0004
def vmapFlagProtMask : UInt32 := 0x000f
def vmapFlagMmap : UInt32 := 0x0010
def vmapFlagShared : UInt32 := 0x0020
def vmapFlagStack : UInt32 := 0x0040
def vmapMmapTypeAnonymous : UInt32 := 0x0100
def vmapMmapTypeFilebacked : UInt32 := 0x0200
def vmapMmapTypeCustom : UInt32 := 0x0400
def vmapFlagTailBss : UInt32 := 0x4000
def vmapFlagThp : UInt32 := 0x8000

/-- The attributes of a mapped range. `fd` is the union of the open file and of `bss_offset`. -/
structure Attributes where
  flags : UInt32
  allowedFlags : UInt32
  nodeOffset : Nat
  cacheNode : Option Nat
  fd : Nat
  fault : Nat
deriving DecidableEq

/-- The heap's answer when a record for a range is asked for: none, or what the memory of the record
has where the fault handler goes. -/
abbrev Records := Range → Option Nat

abbrev Vmap := Node Attributes

abbrev Vmaps := RangeMap Attributes

def hasFlag (flags mask : UInt32) : Bool := flags &&& mask != 0

def nodeVstart (v : Vmap) : Nat := (v.value.nodeOffset + addressSpace - v.start) % addressSpace

def vmapCompareAttributes (a b : Vmap) : Bool :=
  a.value.flags == b.value.flags && a.value.allowedFlags == b.value.allowedFlags &&
    a.value.cacheNode == b.value.cacheNode && a.value.fd == b.value.fd &&
    (a.value.cacheNode.isNone || nodeVstart a == nodeVstart b)

def insertVmap (memory : Records) (rm : Vmaps) (k : Vmap) : MapResult Attributes :=
  match memory k.r with
  | some stale => rangemapInsert rm { k with value.fault := stale }
  | none => .refused

def advancedBy (vm : Vmap) (shift : Nat) : Vmap :=
  if vm.value.cacheNode.isSome then
    { vm with value.nodeOffset := (vm.value.nodeOffset + addressSpace - shift) % addressSpace }
  else vm

/-- The part of `allocate_vmap_locked` that did not extend a node before the range: it extends the
node after it, or makes a new one. -/
def advanceVmap (memory : Records) (rm : Vmaps) (next : Option Vmap) (k : Vmap) : MapResult Attributes :=
  match next with
  | none => insertVmap memory rm k
  | some next =>
    if k.r.stop == next.start && vmapCompareAttributes next k then
      if next.value.cacheNode.isSome && next.start ≤ k.start then .halted
      else rangemapReinsert rm (advancedBy next (next.start - k.start)) ⟨k.start,next.r.stop⟩
    else insertVmap memory rm k

/-- The part of `allocate_vmap_locked` that extends the node before the range, over the node after
it when that has the same attributes. -/
def extendVmap (rm : Vmaps) (vm : Vmap) (next : Option Vmap) (k : Vmap) : MapResult Attributes :=
  match next with
  | none => rangemapReinsert rm vm ⟨vm.start,k.r.stop⟩
  | some next =>
    if next.start < k.r.stop then .refused
    else if next.start == k.r.stop && vmapCompareAttributes next k then
      rangemapReinsert (rangemapRemoveNode rm next) vm ⟨vm.start,next.r.stop⟩
    else rangemapReinsert rm vm ⟨vm.start,k.r.stop⟩

def allocateVmapLocked (memory : Records) (rm : Vmaps) (k : Vmap) : MapResult Attributes :=
  match lookupMaxLte rm k.start with
  | none => advanceVmap memory rm rm.head? k
  | some vm =>
    if k.start < vm.r.stop then .refused
    else if vm.r.stop == k.start && vmapCompareAttributes vm k then extendVmap rm vm (nextNode rm vm) k
    else advanceVmap memory rm (nextNode rm vm) k

def asserted (result : MapResult Attributes) : Option Vmaps :=
  match result with
  | .done rm _ => some rm
  | _ => none

def alterVmapKey (source : Attributes) (flags : UInt32) (delta : Nat) : Option Attributes :=
  let offset := if source.cacheNode.isSome then (source.nodeOffset + delta) % addressSpace else 0
  if hasFlag source.flags vmapFlagTailBss then
    if delta < source.fd then some { source with flags,nodeOffset := offset,fd := source.fd - delta } else none
  else some { source with flags,nodeOffset := offset }

def allocateTail (memory : Records) (rm : Vmaps) (node : Vmap) (start : Nat) : Option Vmaps :=
  if start < node.r.stop then do
    let tail ← alterVmapKey node.value node.value.flags (start - node.start)
    asserted (allocateVmapLocked memory rm ⟨⟨start,node.r.stop⟩,tail⟩)
  else some rm

def shiftedBy (value : Attributes) (delta : Nat) : Attributes :=
  { value with nodeOffset := (value.nodeOffset + delta) % addressSpace }

def vmapRemoveIntersection (memory : Records) (unmap : Bool) (q : Range) (rm : Vmaps) (node : Vmap) :
    Option Vmaps :=
  let rn := node.r
  let ri := rangeIntersection q rn
  if unmap && (alterVmapKey node.value node.value.flags (ri.start - rn.start)).isNone then none
  else if rn.start < ri.start then do
    let cut ← asserted (rangemapReinsert rm node ⟨rn.start,ri.start⟩)
    allocateTail memory cut node ri.stop
  else if ri.stop < rn.stop then
    asserted (rangemapReinsert rm { node with value := shiftedBy node.value (ri.stop - rn.start) } ⟨ri.stop,rn.stop⟩)
  else some (rangemapRemoveNode rm node)

/-- `process_remove_range_locked`. The walk reads its next node before it cuts the current one. -/
def processRemoveRangeLocked (memory : Records) (unmap : Bool) (q : Range) (rm : Vmaps) : Option Vmaps :=
  (foreachOfRange rm q).foldlM (vmapRemoveIntersection memory unmap q) rm

/-- `vmap_update_flags_intersection` on one node, with the end its record has afterwards. A record
that was freed still holds the end it had. -/
def vmapUpdateFlagsIntersection (memory : Records) (q : Range) (clearMask setMask : UInt32) (rm : Vmaps)
    (node : Vmap) : Option (Vmaps × Nat) :=
  if node.value.flags &&& clearMask == setMask then some (rm,node.r.stop)
  else
    let rn := node.r
    let ri := rangeIntersection q rn
    let flags := (node.value.flags &&& ~~~clearMask) ||| setMask
    if rn.start < ri.start then do
      let cut ← asserted (rangemapReinsert rm node ⟨rn.start,ri.start⟩)
      let middle ← alterVmapKey node.value flags (ri.start - rn.start)
      let changed ← asserted (allocateVmapLocked memory cut ⟨ri,middle⟩)
      let whole ← allocateTail memory changed node ri.stop
      let record ← whole.find? (fun other => other.start == rn.start)
      some (whole,record.r.stop)
    else if ri.stop < rn.stop then do
      let middle ← alterVmapKey node.value flags (ri.start - rn.start)
      let rest ← alterVmapKey node.value node.value.flags (ri.stop - rn.start)
      let cut ← asserted (rangemapReinsert rm { node with value := rest } ⟨ri.stop,rn.stop⟩)
      let changed ← asserted (allocateVmapLocked memory cut ⟨ri,middle⟩)
      some (changed,rn.stop)
    else do
      let changed ← asserted (allocateVmapLocked memory (rangemapRemoveNode rm node)
        { node with value := { node.value with flags } })
      some (changed,rn.stop)

/-- The loop of `mprotect` and `madvise` over the rest `r` of a range, for at most the given number
of turns. `mprotect` cuts each node to the whole range and `madvise` to the rest. -/
def updateFlagsLoop (memory : Records) (cut : Range → Range) (clearMask setMask : UInt32) :
    Nat → Range → Vmaps → Option Vmaps
  | 0,_,_ => none
  | turns + 1,r,rm =>
    if rangeEmpty r then some rm
    else do
      let vm ← rangemapLookup rm r.start
      let (changed,stop) ← vmapUpdateFlagsIntersection memory (cut r) clearMask setMask rm vm
      updateFlagsLoop memory cut clearMask setMask turns ⟨min r.stop stop,r.stop⟩ changed

/-- `vmap_select_addr`, with the random number that is drawn for a candidate range. A division by
zero stops the kernel. -/
def vmapSelectAddr (random : Range → UInt64) (randomize : Bool) (size : Nat) (r : Range) : Option Nat :=
  if randomize then
    let span := rangeSpan ⟨r.start,(r.stop + addressSpace - pageSize) % addressSpace⟩
    if span < size then some invalidPhysical
    else
      let pages := (span + 2 * pageSize + addressSpace - size) % addressSpace / pageSize
      if pages == 0 then none
      else some ((r.start + (random r).toNat % pages * pageSize) % addressSpace)
  else if rangeSpan r < size then some invalidPhysical
  else some r.start

def guardGap (node : Vmap) : Nat := if hasFlag node.value.flags vmapFlagStack then processStackGuardGap else 0

def virtRangeFrom (random : Range → UInt64) (randomize : Bool) (size : Nat) (region : Range) :
    Nat → Nat → List Vmap → Option Nat
  | lastedge,addr,[] =>
    let gap := rangeIntersection ⟨lastedge,region.stop⟩ region
    let candidate := if rangeEmpty gap then addr else gap.start
    if candidate == invalidPhysical then some candidate
    else vmapSelectAddr random randomize size ⟨candidate,region.stop⟩
  | lastedge,addr,node :: rest =>
    let gap := rangeIntersection ⟨lastedge,node.start⟩ region
    let candidate := if rangeEmpty gap then addr else gap.start
    if candidate == invalidPhysical then virtRangeFrom random randomize size region node.r.stop candidate rest
    else do
      let chosen ← vmapSelectAddr random randomize size
        ⟨candidate,(node.start + addressSpace - guardGap node) % addressSpace⟩
      if chosen == invalidPhysical then virtRangeFrom random randomize size region node.r.stop chosen rest
      else some chosen

def processGetVirtRangeLocked (random : Range → UInt64) (randomize : Bool) (rm : Vmaps) (size : Nat) (region : Range) :
    Option Nat :=
  virtRangeFrom random randomize size region region.start invalidPhysical (foreachOfRange rm region)

end AuthorityKernel.Memory
