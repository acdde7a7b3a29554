import AuthorityKernel.Library.Scan
import AuthorityKernel.Policy.Rules

/-! The parser of policy documents. Every scanner returns the text it has not read, and
any error fails the whole document. -/
namespace AuthorityKernel.Policy
open Library Library.Scan Budget Json

def isBlank (byte : UInt8) : Bool := byte == 32 || byte == 9 || byte == 10 || byte == 13

def pjSkipWs (p : Bytes) : Bytes := p.dropWhile isBlank

def unescape (byte : UInt8) : Option UInt8 :=
  if byte = quoteByte then some quoteByte
  else if byte = backslashByte then some backslashByte
  else if byte = 47 then some 47
  else if byte = 110 then some 10
  else if byte = 114 then some 13
  else if byte = 116 then some 9
  else none

def stringChars : Bytes → Option (Bytes × Bytes)
  | [] => none
  | byte :: rest =>
      if byte = quoteByte then some ([],rest)
      else if byte = backslashByte then
        match rest with
        | [] => none
        | next :: after =>
            match unescape next with
            | none => none
            | some char => (stringChars after).map fun read => (char :: read.1,read.2)
      else (stringChars rest).map fun read => (byte :: read.1,read.2)

def pjParseString (p : Bytes) (maxLen : Nat) : Option (CString × Bytes) :=
  match p with
  | [] => none
  | byte :: rest =>
      if byte = quoteByte then
        (stringChars rest).map fun read => (CString.ofBuffer (read.1.take (maxLen - 1)),read.2)
      else none

def pjParseU64 (p : Bytes) : Option (UInt64 × Bytes) :=
  match p with
  | [] => none
  | byte :: rest =>
      if isDigit byte then some (saturatingDecimal 0 (byte :: rest),(byte :: rest).dropWhile isDigit) else none

def isOpen (byte : UInt8) : Bool := byte == 123 || byte == 91

def isClose (byte : UInt8) : Bool := byte == 125 || byte == 93

def skipString : Bytes → Option Bytes
  | [] => none
  | byte :: rest =>
      if byte = quoteByte then some rest
      else if byte = backslashByte then
        match rest with
        | [] => none
        | _ :: after => skipString after
      else skipString rest

def akPolicyMaxJsonDepth : Nat := 32

/-- Brackets are counted, not matched: `]` may close what a brace opened. -/
def skipNested (depth : Nat) (inString : Bool) : Bytes → Option Bytes
  | [] => none
  | byte :: rest =>
      if inString then
        if byte = quoteByte then skipNested depth false rest
        else if byte = backslashByte then
          match rest with
          | [] => none
          | _ :: after => skipNested depth true after
        else skipNested depth true rest
      else if isOpen byte then
        if depth + 1 > akPolicyMaxJsonDepth then none else skipNested (depth + 1) false rest
      else if isClose byte then
        if depth - 1 = 0 then some rest else skipNested (depth - 1) false rest
      else if byte = quoteByte then skipNested depth true rest
      else skipNested depth false rest

def pjSkipValue (p : Bytes) : Option Bytes :=
  match pjSkipWs p with
  | [] => none
  | byte :: rest =>
      if byte = quoteByte then skipString rest
      else if isOpen byte then skipNested 0 false (byte :: rest)
      else if byte = 45 then some (rest.dropWhile fun next => isDigit next || next == 46)
      else if isDigit byte then some ((byte :: rest).dropWhile fun next => isDigit next || next == 46)
      else if (ascii "true").isPrefixOf (byte :: rest) then some ((byte :: rest).drop 4)
      else if (ascii "false").isPrefixOf (byte :: rest) then some ((byte :: rest).drop 5)
      else if (ascii "null").isPrefixOf (byte :: rest) then some ((byte :: rest).drop 4)
      else none

def skipComma (p : Bytes) : Bytes :=
  match pjSkipWs p with
  | [] => []
  | byte :: rest => if byte = 44 then rest else byte :: rest

def parseKey (p : Bytes) (maxLen : Nat) : Option (CString × Bytes) :=
  match pjParseString p maxLen with
  | none => none
  | some (key,after) =>
      match pjSkipWs after with
      | [] => none
      | byte :: rest => if byte = 58 then some (key,rest) else none

def akPolicyMaxStr : Nat := 256

def stringArrayTurn (add : AkPolicy → CString → Option AkPolicy) (policy : AkPolicy) (p : Bytes) :
    Turn UInt8 AkPolicy (AkPolicy × Bytes) :=
  match pjSkipWs p with
  | [] => .fail
  | byte :: rest =>
      if byte = 93 then .done (policy,rest)
      else
        match pjParseString (byte :: rest) akPolicyMaxStr with
        | none => .fail
        | some (name,after) =>
            match add policy name with
            | none => .fail
            | some updated =>
                match pjSkipWs after with
                | [] => .fail
                | next :: tail =>
                    if next = 44 then .again updated tail
                    else if next = 93 then .again updated (next :: tail)
                    else .fail

def pjParseStringArray (add : AkPolicy → CString → Option AkPolicy) (policy : AkPolicy) (p : Bytes) :
    Option (AkPolicy × Bytes) :=
  match pjSkipWs p with
  | [] => none
  | byte :: rest => if byte = 91 then scan (stringArrayTurn add) policy rest else none

structure ArrayField where
  key : String
  add : AkPolicy → CString → Option AkPolicy

def parseArrayMember (fields : List ArrayField) (policy : AkPolicy) (key : CString) (p : Bytes) :
    Option (AkPolicy × Bytes) :=
  match fields.find? fun field => key.1 == ascii field.key with
  | some field => pjParseStringArray field.add policy p
  | none => (pjSkipValue p).map fun rest => (policy,rest)

def numericBudget (budgets : PolicyBudgets) (key : CString) (value : UInt64) : PolicyBudgets :=
  if key.1 = ascii "tokens" then { budgets with tokens := value }
  else if key.1 = ascii "calls" ∨ key.1 = ascii "tool_calls" then { budgets with calls := value }
  else if key.1 = ascii "inference_ms" then { budgets with inferenceMs := value }
  else if key.1 = ascii "file_bytes" then { budgets with fileBytes := value }
  else if key.1 = ascii "network_bytes" then { budgets with networkBytes := value }
  else if key.1 = ascii "spawn_count" then { budgets with spawnCount := value }
  else if key.1 = ascii "heap_objects" then { budgets with heapObjects := value }
  else if key.1 = ascii "heap_bytes" then { budgets with heapBytes := value }
  else budgets

/-- Only plain numbers set a budget; other values are skipped. -/
def parseBudgetMember (policy : AkPolicy) (key : CString) (p : Bytes) : Option (AkPolicy × Bytes) :=
  match pjSkipWs p with
  | [] => none
  | byte :: rest =>
      if isDigit byte then
        (pjParseU64 (byte :: rest)).map fun read =>
          ({ policy with budgets := numericBudget policy.budgets key read.1 },read.2)
      else (pjSkipValue (byte :: rest)).map fun after => (policy,after)

/-- One member of an object; commas between members are optional. -/
def objectTurn (maxLen : Nat) (member : AkPolicy → CString → Bytes → Option (AkPolicy × Bytes))
    (policy : AkPolicy) (p : Bytes) : Turn UInt8 AkPolicy (AkPolicy × Bytes) :=
  match pjSkipWs p with
  | [] => .fail
  | byte :: rest =>
      if byte = 125 then .done (policy,rest)
      else
        match parseKey (byte :: rest) maxLen with
        | none => .fail
        | some (key,after) =>
            match member policy key after with
            | none => .fail
            | some (updated,tail) => .again updated (skipComma tail)

def parseObject (maxLen : Nat) (member : AkPolicy → CString → Bytes → Option (AkPolicy × Bytes))
    (policy : AkPolicy) (p : Bytes) : Option (AkPolicy × Bytes) :=
  match pjSkipWs p with
  | [] => none
  | byte :: rest => if byte = 123 then scan (objectTurn maxLen member) policy rest else none

def pjParseArrayObject (fields : List ArrayField) (policy : AkPolicy) (p : Bytes) : Option (AkPolicy × Bytes) :=
  parseObject 64 (parseArrayMember fields) policy p

def pjParseBudgets (policy : AkPolicy) (p : Bytes) : Option (AkPolicy × Bytes) :=
  parseObject 32 parseBudgetMember policy p

end AuthorityKernel.Policy
