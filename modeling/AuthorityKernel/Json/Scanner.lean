import AuthorityKernel.Library.Text

/-! The scanner of `ak_heap.c` over raw JSON texts. A position in a buffer is modelled by the
text from it on, the end of what may be read by the end of that text. -/
namespace AuthorityKernel.Json
open Library

def isWs (byte : UInt8) : Bool := byte == 32 || byte == 9 || byte == 10 || byte == 13

def jsonSkipWs (text : Bytes) : Bytes := text.dropWhile isWs

def spanned (start stop : Bytes) : Bytes := start.take (start.length - stop.length)

def skipStringBody : Bytes → Option Bytes
  | [] => none
  | [byte] => if byte == 34 then some [] else none
  | byte :: next :: rest =>
      if byte == 92 then skipStringBody rest
      else if byte == 34 then some (next :: rest)
      else skipStringBody (next :: rest)

def jsonSkipString : Bytes → Option Bytes
  | [] => none
  | byte :: rest => if byte == 34 then skipStringBody rest else none

def opens (byte : UInt8) : Bool := byte == 123 || byte == 91

def closes (byte : UInt8) : Bool := byte == 125 || byte == 93

/-- Behind the bracket that brings the depth back to 0; the kinds of the brackets between are
not compared. -/
def skipBrackets : Nat → Nat → Bytes → Option Bytes
  | 0, _, _ => none
  | _, _, [] => none
  | fuel + 1, depth, byte :: rest =>
      if byte == 34 then (jsonSkipString (byte :: rest)).bind (skipBrackets fuel depth)
      else if opens byte then skipBrackets fuel (depth + 1) rest
      else if closes byte then
        if depth = 0 then none
        else if depth - 1 = 0 then some rest
        else skipBrackets fuel (depth - 1) rest
      else skipBrackets fuel depth rest

/-- Bytes that are taken as part of a number, in any order. -/
def isNumberByte (byte : UInt8) : Bool :=
  isDigit byte || byte == 46 || byte == 101 || byte == 69 || byte == 43 || byte == 45

def parseU64Range (digits : Bytes) : Option UInt64 :=
  if digits = [] then none
  else
    (digits.foldlM (fun value byte =>
      if !isDigit byte || value > (2 ^ 64 - 1 - (byte.toNat - 48)) / 10 then none
      else some (value * 10 + (byte.toNat - 48))) 0).map UInt64.ofNat

def skipLiteral (literal : String) (text : Bytes) : Option Bytes :=
  if (ascii literal).isPrefixOf text then some (text.drop (ascii literal).length) else none

def jsonSkipValue (text : Bytes) : Option Bytes :=
  match jsonSkipWs text with
  | [] => none
  | byte :: rest =>
      if byte == 34 then jsonSkipString (byte :: rest)
      else if opens byte then skipBrackets (rest.length + 1) 0 (byte :: rest)
      else if byte == 45 || isDigit byte then some (rest.dropWhile isNumberByte)
      else if byte == 116 then skipLiteral "true" (byte :: rest)
      else if byte == 102 then skipLiteral "false" (byte :: rest)
      else if byte == 110 then skipLiteral "null" (byte :: rest)
      else none

structure Located where
  start : Bytes
  value : Bytes
  after : Bytes

structure Scanned where
  entry : Option Located
  close : Bytes
  count : Nat

structure Member where
  name : Bytes
  place : Located

def jsonMember (text : Bytes) : Option Member := do
  let start := jsonSkipWs text
  let afterKey ← jsonSkipString start
  match jsonSkipWs afterKey with
  | [] => none
  | byte :: rest =>
      if byte == 58 then do
        let value := jsonSkipWs rest
        let after ← jsonSkipValue value
        -- The name is what stands between the quotes.
        some ⟨((spanned start afterKey).drop 1).dropLast,⟨start,value,after⟩⟩
      else none

def objectMembers (key : Bytes) : Nat → Option Located → Nat → Bytes → Option Scanned
  | 0, _, _, _ => none
  | fuel + 1, found, count, text => do
      let member ← jsonMember text
      let found := if found.isNone && member.name == key then some member.place else found
      match jsonSkipWs member.place.after with
      | [] => none
      | byte :: rest =>
          if byte == 44 then objectMembers key fuel found (count + 1) rest
          else if byte == 125 then some ⟨found,byte :: rest,count + 1⟩
          else none

def jsonObjectFind (text key : Bytes) : Option Scanned :=
  match jsonSkipWs text with
  | [] => none
  | byte :: rest =>
      if byte != 123 then none
      else
        match jsonSkipWs rest with
        | [] => none
        | next :: inner =>
            if next == 125 then some ⟨none,next :: inner,0⟩
            else objectMembers key (rest.length + 1) none 0 (next :: inner)

/-- An index that is not there is the largest number in the source, which no count reaches. -/
def arrayElements (index : Option Nat) : Nat → Option Located → Nat → Bytes → Option Scanned
  | 0, _, _, _ => none
  | fuel + 1, found, count, text => do
      let start := jsonSkipWs text
      let after ← jsonSkipValue start
      let found := if index = some count then some ⟨start,start,after⟩ else found
      match jsonSkipWs after with
      | [] => none
      | byte :: rest =>
          if byte == 44 then arrayElements index fuel found (count + 1) rest
          else if byte == 93 then some ⟨found,byte :: rest,count + 1⟩
          else none

def jsonArrayScan (text : Bytes) (index : Option Nat) : Option Scanned :=
  match jsonSkipWs text with
  | [] => none
  | byte :: rest =>
      if byte != 91 then none
      else
        match jsonSkipWs rest with
        | [] => none
        | next :: inner =>
            if next == 93 then some ⟨none,next :: inner,0⟩
            else arrayElements index (rest.length + 1) none 0 (next :: inner)

end AuthorityKernel.Json
