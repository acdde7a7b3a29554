import AuthorityKernel.Json.Scanner
import AuthorityKernel.Heap.Transaction

/-! Snapshots of the heap. Reading one does not look at the heap, so the objects a text lists
are a function of it; restoring it puts them into the heap one by one. -/
namespace AuthorityKernel.Heap
open Library Capability Json

def taintToString : Taint → String
  | .trusted => "trusted"
  | .sanitizedUrl => "sanitized_url"
  | .sanitizedPath => "sanitized_path"
  | .sanitizedSql => "sanitized_sql"
  | .sanitizedCmd => "sanitized_cmd"
  | .sanitizedHtml => "sanitized_html"
  | .untrusted => "untrusted"

/-- A name that is not known is not trusted. -/
def taintFromString (name : Bytes) : Taint :=
  ([.trusted,.sanitizedUrl,.sanitizedPath,.sanitizedSql,.sanitizedCmd,.sanitizedHtml,.untrusted].find?
    fun taint => ascii (taintToString taint) == name).getD .untrusted

def memberText (text : Bytes) (key : String) : Option Bytes :=
  (jsonObjectFind text (ascii key)).bind fun scanned => scanned.entry.map fun found => spanned found.value found.after

def memberU64 (text : Bytes) (key : String) (default : UInt64) : UInt64 :=
  ((memberText text key).bind parseU64Range).getD default

def quoted (text : Bytes) : Option Bytes :=
  if text.length > 1 && text.head? == some 34 then some ((text.drop 1).dropLast) else none

structure StoredObject where
  ptr : UInt64
  typeHash : UInt64
  version : UInt64
  createdMs : UInt64
  modifiedMs : UInt64
  taint : Taint
  deleted : Bool
  ownerRunId : TokenId
  value : Bytes

/-- Digits that are not hexadecimal make the whole id zero. -/
def runIdOfHex (digits : Bytes) : TokenId :=
  match unhexBytes digits with
  | none => Block.zero 16
  | some bytes => if size : bytes.length = 16 then ⟨bytes,size⟩ else Block.zero 16

/-- The first part of `restore_object_json`, which only reads. -/
def readObject (text : Bytes) : Except Int StoredObject :=
  match (memberText text "ptr").bind parseU64Range with
  | none => .error akEJsonInvalid
  | some ptr =>
      if ptr = 0 then .error akEJsonInvalid
      else
        match memberText text "value" with
        | none => .error akEJsonInvalid
        | some value =>
            if value = [] then .error akEJsonInvalid
            else .ok {
              ptr := ptr
              typeHash := memberU64 text "type_hash" 0
              version := memberU64 text "version" 1
              createdMs := memberU64 text "created_ms" 0
              modifiedMs := memberU64 text "modified_ms" 0
              taint := (((memberText text "taint").bind quoted).map taintFromString).getD .untrusted
              deleted := memberText text "deleted" == some (ascii "true")
              ownerRunId := (((memberText text "owner_run_id").bind quoted).map runIdOfHex).getD (Block.zero 16)
              value := value }

def readEntries : Nat → Bytes → List StoredObject × Int
  | 0, _ => ([],0)
  | _, [] => ([],0)
  | fuel + 1, text =>
      let start := jsonSkipWs text
      match start.head? == some 123, jsonSkipValue start with
      | true, some after =>
          match readObject (spanned start after) with
          | .error code => ([],code)
          | .ok object =>
              match jsonSkipWs after with
              | 44 :: rest => (object :: (readEntries fuel rest).1,(readEntries fuel rest).2)
              | 93 :: _ => ([object],0)
              | _ => ([object],akEJsonInvalid)
      | _, _ => ([],akEJsonInvalid)

structure Listing where
  objects : List StoredObject
  code : Int
  nextPtr : Option UInt64

def readArray (text : Bytes) : List StoredObject × Int :=
  match jsonSkipWs text with
  | 91 :: rest => if (jsonSkipWs rest).head? == some 93 then ([],0) else readEntries rest.length (jsonSkipWs rest)
  | _ => ([],akEJsonInvalid)

/-- A full snapshot has its objects in an array; any other object stands for itself. -/
def readSnapshot (text : Bytes) : Listing :=
  let start := jsonSkipWs text
  if start.head? != some 123 then ⟨[],akEJsonInvalid,none⟩
  else
    match jsonObjectFind start (ascii "objects") with
    | none => ⟨[],akEJsonInvalid,none⟩
    | some ⟨none,_,_⟩ =>
        match readObject start with
        | .error code => ⟨[],code,none⟩
        | .ok object => ⟨[object],0,none⟩
    | some ⟨some found,_,_⟩ =>
        let listed := readArray (spanned found.value found.after)
        ⟨listed.1,listed.2,(memberText start "next_ptr").bind parseU64Range⟩

def StoredObject.placed (stored : StoredObject) (clock ptr : UInt64) : HeapObject :=
  let createdMs := if stored.createdMs = 0 then nowMs clock else stored.createdMs
  { ptr := ptr
    typeHash := stored.typeHash
    version := if stored.version = 0 then 1 else stored.version
    createdMs := createdMs
    modifiedMs := if stored.modifiedMs = 0 then createdMs else stored.modifiedMs
    taint := stored.taint
    deleted := stored.deleted
    ownerRunId := stored.ownerRunId
    value := stored.value }

/-- The second part of `restore_object_json`, its memory found: an object of the same pointer
is replaced in place, and the next pointer stays ahead. -/
def putObject (clock : UInt64) (stored : StoredObject) (s : HeapState) : HeapState :=
  let length := UInt64.ofNat stored.value.length
  let nextPtr := if stored.ptr ≥ s.nextPtr then stored.ptr + 1 else s.nextPtr
  match findObject s stored.ptr with
  | some object =>
      let oldLength := UInt64.ofNat object.value.length
      { s with
        objects := s.objects.modify bucketOf HeapObject.ptr stored.ptr fun current => stored.placed clock current.ptr
        bytesUsed := (if s.bytesUsed ≥ oldLength then s.bytesUsed - oldLength else 0) + length
        deletedCount :=
          if object.deleted && !stored.deleted then s.deletedCount - 1
          else if !object.deleted && stored.deleted then s.deletedCount + 1
          else s.deletedCount
        nextPtr := nextPtr }
  | none =>
      { s with
        objects := s.objects.insert bucketOf HeapObject.ptr (stored.placed clock stored.ptr)
        objectCount := s.objectCount + 1
        deletedCount := if stored.deleted then s.deletedCount + 1 else s.deletedCount
        bytesUsed := s.bytesUsed + length
        nextPtr := nextPtr }

structure RestoreEnv where
  memory : Nat → Bool
  clock : Nat → UInt64

def putObjects (env : RestoreEnv) : Nat → HeapState → List StoredObject → HeapState × Int
  | _, s, [] => (s,0)
  | place, s, stored :: rest =>
      if !env.memory place then (s,-eNomem)
      else putObjects env (place + 1) (putObject (env.clock place) stored s) rest

/-- Objects before an error stay restored; the next pointer is only ever raised. -/
def akHeapRestore (env : RestoreEnv) (snapshot : Option Bytes) (s : HeapState) : HeapState × Int :=
  match snapshot with
  | none => (s,-eInval)
  | some text =>
      if text = [] || !s.initialized then (s,-eInval)
      else
        let listing := readSnapshot text
        let restored := putObjects env 0 s listing.objects
        if restored.2 ≠ 0 then restored
        else if listing.code ≠ 0 then (restored.1,listing.code)
        else
          match listing.nextPtr with
          | some nextPtr =>
              (if nextPtr > restored.1.nextPtr then { restored.1 with nextPtr := nextPtr } else restored.1,0)
          | none => (restored.1,0)

end AuthorityKernel.Heap
