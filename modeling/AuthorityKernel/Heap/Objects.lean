import AuthorityKernel.Request

/-! The typed heap: versioned objects changed by compare and swap, with the history of
their superseded versions. Applying a patch to a document is a parameter here. -/
namespace AuthorityKernel.Heap
open Library Capability

structure HeapObject where
  ptr : UInt64
  typeHash : UInt64
  version : UInt64
  createdMs : UInt64
  modifiedMs : UInt64
  taint : Taint
  deleted : Bool
  ownerRunId : TokenId
  value : Bytes

structure VersionEntry where
  version : UInt64
  timestampMs : UInt64
  value : Bytes

structure VersionHistory where
  ptr : UInt64
  entries : List VersionEntry
  count : UInt64

structure SchemaEntry where
  typeHash : UInt64
  schemaJson : Bytes

structure HeapState where
  objects : ChainTable HeapObject
  objectCount : UInt64
  deletedCount : UInt64
  nextPtr : UInt64
  history : ChainTable VersionHistory
  versionCount : UInt64
  schemas : List SchemaEntry
  bytesUsed : UInt64
  bytesVersions : UInt64
  initialized : Bool

def akHeapInitialCapacity : UInt64 := 1024

/-- The state `ak_heap_init` leaves, its tables allocated. -/
def akHeapInit : HeapState where
  objects := .empty
  objectCount := 0
  deletedCount := 0
  nextPtr := 1
  history := .empty
  versionCount := 0
  schemas := []
  bytesUsed := 0
  bytesVersions := 0
  initialized := true

def ptrHash (ptr : UInt64) : UInt64 :=
  let a := (ptr ^^^ (ptr >>> 33)) * 0xff51afd7ed558ccd
  let b := (a ^^^ (a >>> 33)) * 0xc4ceb9fe1a85ec53
  b ^^^ (b >>> 33)

def bucketOf (ptr : UInt64) : UInt64 := ptrHash ptr % akHeapInitialCapacity

def findObject (s : HeapState) (ptr : UInt64) : Option HeapObject :=
  if s.initialized then s.objects.lookup bucketOf HeapObject.ptr ptr else none

def findHistory (s : HeapState) (ptr : UInt64) : Option VersionHistory :=
  s.history.lookup bucketOf VersionHistory.ptr ptr

def findSchema (s : HeapState) (typeHash : UInt64) : Option SchemaEntry :=
  s.schemas.find? fun entry => entry.typeHash == typeHash

/-- A schema is not evaluated: a value of a registered type only has to open a bracket. -/
def akHeapValidateSchema (s : HeapState) (typeHash : UInt64) (value : Option Bytes) : Bool :=
  match findSchema s typeHash with
  | none => true
  | some _ =>
      match value with
      | some (byte :: _) => byte == 123 || byte == 91
      | _ => false

structure SaveEnv where
  historyAlloc : Bool
  entryAlloc : Bool
  valueAlloc : Bool
  clock : UInt64

/-- Without memory a superseded version is lost silently. -/
def saveVersion (env : SaveEnv) (ptr version : UInt64) (value : Bytes) (s : HeapState) : HeapState :=
  if (findHistory s ptr).isNone && !env.historyAlloc then s
  else
    let history := if (findHistory s ptr).isSome then s.history
      else s.history.insert bucketOf VersionHistory.ptr ⟨ptr,[],0⟩
    if !env.entryAlloc || !env.valueAlloc then { s with history := history }
    else
      { s with
        history := history.modify bucketOf VersionHistory.ptr ptr fun kept =>
          { kept with entries := ⟨version,nowMs env.clock,value⟩ :: kept.entries, count := kept.count + 1 }
        bytesVersions := s.bytesVersions + UInt64.ofNat value.length
        versionCount := s.versionCount + 1 }

structure AllocEnv where
  objectAlloc : Bool
  valueAlloc : Bool
  clock : UInt64
  save : SaveEnv

/-- The pointer is 0 on failure. A missing value is dereferenced in the source; the model
fails there. -/
def akHeapAlloc (env : AllocEnv) (typeHash : UInt64) (value : Option Bytes) (runId : TokenId) (taint : Taint)
    (s : HeapState) : HeapState × UInt64 :=
  match value with
  | none => (s,0)
  | some bytes =>
      if !s.initialized then (s,0)
      else if !akHeapValidateSchema s typeHash value then (s,0)
      else if !env.objectAlloc || !env.valueAlloc then (s,0)
      else
        let object : HeapObject := {
          ptr := s.nextPtr, typeHash := typeHash, version := 1, createdMs := nowMs env.clock
          modifiedMs := nowMs env.clock, taint := taint, deleted := false, ownerRunId := runId, value := bytes }
        (saveVersion env.save s.nextPtr 1 bytes
          { s with
            objects := s.objects.insert bucketOf HeapObject.ptr object
            nextPtr := s.nextPtr + 1
            objectCount := s.objectCount + 1
            bytesUsed := s.bytesUsed + UInt64.ofNat bytes.length },s.nextPtr)

def akHeapRead (valueAlloc : Bool) (ptr : UInt64) (s : HeapState) : Except Int HeapObject :=
  if !s.initialized then .error (-eInval)
  else
    match findObject s ptr with
    | none => .error (-eNoent)
    | some object =>
        if object.deleted then .error (-eNoent)
        else if !valueAlloc then .error (-eNomem)
        else .ok object

structure WriteEnv where
  patch : Bytes → Bytes → Option Bytes
  save : SaveEnv
  clock : UInt64

def supersede (env : SaveEnv) (object : HeapObject) (change : HeapObject → HeapObject) (s : HeapState) : HeapState :=
  let saved := saveVersion env object.ptr object.version object.value s
  { saved with objects := saved.objects.modify bucketOf HeapObject.ptr object.ptr change }

def casObject (s : HeapState) (ptr expectedVersion : UInt64) : Except Int HeapObject :=
  match findObject s ptr with
  | none => .error (-eNoent)
  | some object =>
      if object.deleted then .error (-eNoent)
      else if object.version != expectedVersion then .error akEConflict
      else .ok object

def akHeapWrite (env : WriteEnv) (ptr : UInt64) (patch : Option Bytes) (expectedVersion : UInt64) (s : HeapState) :
    HeapState × Except Int UInt64 :=
  if !s.initialized then (s,.error (-eInval))
  else
    match casObject s ptr expectedVersion with
    | .error code => (s,.error code)
    | .ok object =>
        match patch.bind (env.patch object.value) with
        | none => (s,.error akESchemaInvalid)
        | some newValue =>
            if !akHeapValidateSchema s object.typeHash (some newValue) then (s,.error akESchemaInvalid)
            else
              let oldLength := UInt64.ofNat object.value.length
              let newLength := UInt64.ofNat newValue.length
              let updated := supersede env.save object (fun current =>
                { current with value := newValue, version := current.version + 1, modifiedMs := nowMs env.clock }) s
              ({ updated with
                  bytesUsed := if updated.bytesUsed ≥ oldLength then updated.bytesUsed - oldLength + newLength
                    else newLength },.ok (object.version + 1))

structure DeleteEnv where
  save : SaveEnv
  clock : UInt64

def akHeapDelete (env : DeleteEnv) (ptr expectedVersion : UInt64) (s : HeapState) : HeapState × Int :=
  if !s.initialized then (s,-eInval)
  else
    match casObject s ptr expectedVersion with
    | .error code => (s,code)
    | .ok object =>
        let updated := supersede env.save object (fun current =>
          { current with deleted := true, version := current.version + 1, modifiedMs := nowMs env.clock }) s
        ({ updated with deletedCount := updated.deletedCount + 1 },0)

/-- The version is checked but not raised. -/
def heapSetTaintInternal (sanitizer : Bool) (clock ptr : UInt64) (newTaint : Taint) (expectedVersion : UInt64)
    (s : HeapState) : HeapState × Int :=
  match casObject s ptr expectedVersion with
  | .error code => (s,code)
  | .ok object =>
      if !sanitizer && newTaint.level < object.taint.level then (s,akETaint)
      else
        ({ s with
            objects := s.objects.modify bucketOf HeapObject.ptr ptr fun current =>
              { current with taint := newTaint, modifiedMs := nowMs clock } },0)

def akHeapSetTaintSanitized := heapSetTaintInternal true

/-- The age of a tombstone is a difference of machine words. -/
def purgeable (clock olderThanMs : UInt64) (object : HeapObject) : Bool :=
  object.deleted && nowMs clock - object.modifiedMs > olderThanMs

def akHeapPurgeTombstones (clock olderThanMs : UInt64) (s : HeapState) : HeapState × UInt64 :=
  if !s.initialized then (s,0)
  else
    let purged := s.objects.entries.filter (purgeable clock olderThanMs)
    let count := UInt64.ofNat purged.length
    ({ s with
        objects := s.objects.sweep fun object => !purgeable clock olderThanMs object
        bytesUsed := purged.foldl (fun used object =>
          if used ≥ UInt64.ofNat object.value.length then used - UInt64.ofNat object.value.length else 0) s.bytesUsed
        deletedCount := s.deletedCount - count
        objectCount := s.objectCount - count },count)

/-- The versions of an object behind its newest; the count is compared, the entries are cut. -/
def agedVersions (keepCount : UInt64) (kept : VersionHistory) : List VersionEntry :=
  if kept.count > keepCount then kept.entries.drop keepCount.toNat else []

/-- The number of versions purged. With nothing to keep the source frees the entries but
leaves the list pointing at them; the model ends the list there, and `Store.dangling`
records it. -/
def akHeapPurgeVersions (keepCount : UInt64) (s : HeapState) : HeapState × UInt64 :=
  if !s.initialized then (s,0)
  else
    let purged := s.history.entries.flatMap (agedVersions keepCount)
    let count := UInt64.ofNat purged.length
    ({ s with
        history := s.history.mapEntries fun kept =>
          let aged := (agedVersions keepCount kept).length
          { kept with
            entries := kept.entries.take (kept.entries.length - aged)
            count := kept.count - UInt64.ofNat aged }
        bytesVersions := purged.foldl (fun used entry =>
          if used ≥ UInt64.ofNat entry.value.length then used - UInt64.ofNat entry.value.length else 0) s.bytesVersions
        versionCount := s.versionCount - count },count)

end AuthorityKernel.Heap
