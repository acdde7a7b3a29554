import AuthorityKernel.Json.Scanner

/-! JSON Patch on raw text (RFC 6902, `add`, `replace` and `remove`). A document is never
taken apart: an operation finds the place its pointer leads to and cuts the text there. -/
namespace AuthorityKernel.Heap
open Library Json

def akJsonPtrSegMax : Nat := 160

def segmentBytes : Nat → Bytes → Option (Bytes × Bytes)
  | _, [] => some ([],[])
  | length, byte :: rest =>
      if byte == 47 then some ([],byte :: rest)
      else if length + 1 ≥ akJsonPtrSegMax then none
      else if byte == 126 then
        match rest with
        | 48 :: after => (segmentBytes (length + 1) after).map fun read => (126 :: read.1,read.2)
        | 49 :: after => (segmentBytes (length + 1) after).map fun read => (47 :: read.1,read.2)
        | _ => none
      else (segmentBytes (length + 1) rest).map fun read => (byte :: read.1,read.2)

def jsonPointerNextSegment : Bytes → Option (Bytes × Bytes)
  | 47 :: rest => segmentBytes 0 rest
  | _ => none

/-- What a pointer leads to: the whole document, or an entry of a container, which need not
be there. The index of an array entry is missing for the place behind its end. -/
inductive Target
  | whole
  | member (found : Option Located) (close : Bytes) (count : Nat) (key : Bytes)
  | element (found : Option Located) (close : Bytes) (count : Nat) (index : Option Nat)

def arrayIndex (segment : Bytes) : Option (Option Nat) :=
  if segment = [45] then some none
  else if segment.length > 1 && segment.head? == some 48 then none
  else (parseU64Range segment).map fun index => some index.toNat

def resolveFrom : Nat → Bytes → Bytes → Option Target
  | 0, _, _ => none
  | fuel + 1, current, path => do
      let (segment,rest) ← jsonPointerNextSegment path
      match jsonSkipWs current with
      | [] => none
      | byte :: inner =>
          if byte == 123 then do
            let scanned ← jsonObjectFind (byte :: inner) segment
            if rest = [] then some (.member scanned.entry scanned.close scanned.count segment)
            else do
              let entry ← scanned.entry
              resolveFrom fuel entry.value rest
          else if byte == 91 then do
            let index ← arrayIndex segment
            let scanned ← jsonArrayScan (byte :: inner) index
            if rest = [] then some (.element scanned.entry scanned.close scanned.count index)
            else do
              let entry ← scanned.entry
              resolveFrom fuel entry.value rest
          else none

def jsonResolvePointer (document path : Bytes) : Option Target :=
  if path = [] then some .whole
  else if path.head? != some 47 then none
  else resolveFrom path.length document path

def jsonSplice (document start stop insert : Bytes) : Bytes := spanned document start ++ insert ++ stop

/-- An entry cut out together with the comma in front of it, or else the one behind it. -/
def jsonCutOut (document : Bytes) (entry : Located) : Bytes :=
  let before := spanned document entry.start
  match before.reverse.dropWhile isWs with
  | 44 :: earlier => earlier.reverse ++ entry.after
  | _ =>
      match jsonSkipWs entry.after with
      | 44 :: later => before ++ later
      | _ => before ++ entry.after

def writtenByte (byte : UInt8) : Bytes :=
  if byte == 34 then ascii "\\\""
  else if byte == 92 then ascii "\\\\"
  else if byte == 8 then ascii "\\b"
  else if byte == 12 then ascii "\\f"
  else if byte == 10 then ascii "\\n"
  else if byte == 13 then ascii "\\r"
  else if byte == 9 then ascii "\\t"
  else if byte < 32 then ascii "\\u00" ++ hexByte byte
  else [byte]

def serializeWriteJsonString (text : Bytes) : Bytes := [34] ++ text.flatMap writtenByte ++ [34]

inductive PatchKind
  | add
  | replace
  | remove

def patchKind (op : Bytes) : Option PatchKind :=
  if op = ascii "add" then some .add
  else if op = ascii "replace" then some .replace
  else if op = ascii "remove" then some .remove
  else none

/-- A value in front of the closing bracket, behind a comma unless it is the first. -/
def appended (document close : Bytes) (count : Nat) (insert : Bytes) : Bytes :=
  jsonSplice document close close (if count > 0 then [44] ++ insert else insert)

def addAt (document value : Bytes) : Target → Option Bytes
  | .whole => some value
  | .member (some entry) _ _ _ => some (jsonSplice document entry.value entry.after value)
  | .member none close count key =>
      some (appended document close count (serializeWriteJsonString key ++ [58] ++ value))
  | .element found close count index =>
      if index = none ∨ index = some count then some (appended document close count value)
      else found.map fun entry => jsonSplice document entry.start entry.start (value ++ [44])

def replaceAt (document value : Bytes) : Target → Option Bytes
  | .whole => some value
  | .member found _ _ _ => found.map fun entry => jsonSplice document entry.value entry.after value
  | .element found _ _ _ => found.map fun entry => jsonSplice document entry.value entry.after value

def removeAt (document : Bytes) : Target → Option Bytes
  | .whole => none
  | .member found _ _ _ => found.map (jsonCutOut document)
  | .element found _ _ _ => found.map (jsonCutOut document)

def jsonApplyOneOp (memory : Bool) (document op path : Bytes) (value : Option Bytes) : Option Bytes := do
  let kind ← patchKind op
  match kind with
  | .remove => do
      let target ← jsonResolvePointer document path
      let edited ← removeAt document target
      if memory then some edited else none
  | .add => do
      let inserted ← value
      let target ← jsonResolvePointer document path
      let edited ← addAt document inserted target
      if memory then some edited else none
  | .replace => do
      let inserted ← value
      let target ← jsonResolvePointer document path
      let edited ← replaceAt document inserted target
      if memory then some edited else none

structure PatchOp where
  op : Option Bytes
  path : Option Bytes
  value : Option Bytes
  hasFrom : Bool

def stringContents (value : Bytes) : Option Bytes :=
  if value.head? == some 34 then some ((value.drop 1).dropLast) else none

def noteMember (noted : PatchOp) (name value : Bytes) : Option PatchOp :=
  if name = ascii "op" then (stringContents value).map fun op => { noted with op := some op }
  else if name = ascii "path" then (stringContents value).map fun path => { noted with path := some path }
  else if name = ascii "value" then some { noted with value := some value }
  else if name = ascii "from" then some { noted with hasFrom := true }
  else some noted

def opMembers : Nat → PatchOp → Bytes → Option (PatchOp × Bytes)
  | 0, _, _ => none
  | fuel + 1, noted, text => do
      let member ← jsonMember text
      let noted ← noteMember noted member.name (spanned member.place.value member.place.after)
      match jsonSkipWs member.place.after with
      | [] => none
      | byte :: rest =>
          if byte == 44 then opMembers fuel noted rest
          else if byte == 125 then if noted.op.isSome && noted.path.isSome then some (noted,rest) else none
          else none

def jsonPatchParseOp (text : Bytes) : Option (PatchOp × Bytes) :=
  match jsonSkipWs text with
  | [] => none
  | byte :: rest =>
      if byte != 123 then none
      else if (jsonSkipWs rest).head? == some 125 then none
      else opMembers rest.length ⟨none,none,none,false⟩ rest

def jsonPatchLocateArray (patch : Bytes) : Option Bytes :=
  match jsonSkipWs patch with
  | [] => none
  | byte :: rest =>
      if byte == 91 then do
        let after ← jsonSkipValue (byte :: rest)
        if jsonSkipWs after = [] then some (spanned (byte :: rest) after) else none
      else if byte == 123 then do
        let scanned ← jsonObjectFind (byte :: rest) (ascii "patch")
        let entry ← scanned.entry
        let array := spanned entry.value entry.after
        if array.head? == some 91 then some array else none
      else none

/-- Escapes in a path and members named `from` are not supported. -/
def applyParsed (memory : Bool) (document : Bytes) (parsed : PatchOp) : Option Bytes := do
  let op ← parsed.op
  let path ← parsed.path
  if parsed.hasFrom || path.contains 92 then none else jsonApplyOneOp memory document op path parsed.value

def patchLoop (memory : Nat → Bool) : Nat → Nat → Bytes → Bytes → Option Bytes
  | 0, _, _, _ => none
  | fuel + 1, place, document, text => do
      let (parsed,rest) ← jsonPatchParseOp text
      let next ← applyParsed (memory place) document parsed
      match jsonSkipWs rest with
      | [] => none
      | byte :: after =>
          if byte == 44 then patchLoop memory fuel (place + 1) next after
          else if byte == 93 then some next
          else none

/-- The first allocation is the copy of the document, the others are those of the operations. -/
def akJsonPatchApply (memory : Nat → Bool) (original patch : Bytes) : Option Bytes := do
  let array ← jsonPatchLocateArray patch
  if !memory 0 then none
  else
    let operations := array.drop 1
    if (jsonSkipWs operations).head? == some 93 then some original
    else patchLoop memory operations.length 1 original (jsonSkipWs operations)

end AuthorityKernel.Heap
