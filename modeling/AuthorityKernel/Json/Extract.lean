import AuthorityKernel.Library.Text

/-! Reading one member out of a JSON argument text. The scanner looks for the quoted
key anywhere in the text and takes what follows its first occurrence; it does not
parse. Three source files carry a copy of it. -/
namespace AuthorityKernel.Json
open Library

def quoteByte : UInt8 := 34
def backslashByte : UInt8 := 92

def isSeparator (byte : UInt8) : Bool := byte == 58 || byte == 32 || byte == 9

/-- The text after the first quoted occurrence of the key that leaves at least three
bytes behind it. -/
def afterKey (key : Bytes) : Bytes → Option Bytes
  | [] => none
  | byte :: rest =>
      if key.length + 4 < rest.length + 1 then
        if (quoteByte :: key ++ [quoteByte]).isPrefixOf (byte :: rest) then some (rest.drop (key.length + 1))
        else afterKey key rest
      else none

def valueOf (key json : Bytes) : Option Bytes := (afterKey key json).map (List.dropWhile isSeparator)

def stringBody : Bytes → Bytes
  | [] => []
  | byte :: rest =>
      if byte = quoteByte then []
      else if byte = backslashByte then
        match rest with
        | [] => [byte]
        | next :: after => byte :: next :: stringBody after
      else byte :: stringBody rest

def stringValue (key : String) (json : Bytes) : Option Bytes :=
  match valueOf (ascii key) json with
  | some (byte :: rest) => if byte = quoteByte then some (stringBody rest) else none
  | _ => none

/-- A number that sticks at the largest value instead of wrapping. -/
def saturatingDecimal (value : UInt64) : Bytes → UInt64
  | [] => value
  | byte :: rest =>
      if isDigit byte then
        let digit := (byte - 48).toUInt64
        if value > (0xffffffffffffffff - digit) / 10 then 0xffffffffffffffff
        else saturatingDecimal (value * 10 + digit) rest
      else value

/-- `none` for the result `-1`. The bytes are those written before the terminator; a
reader of the buffer stops at the first NUL among them. -/
def akJsonExtractString (json : Option Bytes) (key : String) (outLen : Nat) : Option Bytes :=
  match json with
  | none => none
  | some text => (stringValue key text).map (List.take (outLen - 1))

/-- The copies in the policy engine and in the inference gateway. -/
def jsonGetStringField (json : Option Bytes) (key : String) (outLen : Nat) : Option Bytes :=
  akJsonExtractString json key outLen

def jsonExtractString (json : Option Bytes) (key : String) (outLen : Nat) : Option Bytes :=
  akJsonExtractString json key outLen

def akJsonExtractU64 (json : Option Bytes) (key : String) : UInt64 :=
  match json with
  | none => 0
  | some text =>
      match valueOf (ascii key) text with
      | none => 0
      | some value => saturatingDecimal 0 value

/-- `none` for the result `-1`, which leaves the caller's variable alone. -/
def jsonExtractInt (json : Option Bytes) (key : String) : Option UInt64 :=
  match json with
  | none => none
  | some text =>
      match valueOf (ascii key) text with
      | none => none
      | some [] => none
      | some value => some (saturatingDecimal 0 value)

def akU64ToDec (value : UInt64) : Bytes := decimalNat value.toNat

/-- One element of an array: the text up to a comma or bracket outside strings and inner
brackets, and the rest from there. -/
def splitElement (depth : Nat) (inString : Bool) : Bytes → Bytes × Bytes
  | [] => ([],[])
  | byte :: rest =>
      if inString then
        if byte = backslashByte then
          match rest with
          | [] => ([byte],[])
          | next :: after =>
              let tail := splitElement depth true after
              (byte :: next :: tail.1,tail.2)
        else
          let tail := splitElement depth (byte != quoteByte) rest
          (byte :: tail.1,tail.2)
      else if byte = quoteByte then
        let tail := splitElement depth true rest
        (byte :: tail.1,tail.2)
      else if byte = 123 ∨ byte = 91 then
        let tail := splitElement (depth + 1) false rest
        (byte :: tail.1,tail.2)
      else if byte = 125 ∨ byte = 93 then
        if depth = 0 then ([],byte :: rest)
        else
          let tail := splitElement (depth - 1) false rest
          (byte :: tail.1,tail.2)
      else if byte = 44 ∧ depth = 0 then ([],byte :: rest)
      else
        let tail := splitElement depth false rest
        (byte :: tail.1,tail.2)

def isElementGap (byte : UInt8) : Bool := byte == 32 || byte == 9 || byte == 10 || byte == 13 || byte == 44

def elementAt (elements : Bytes) (index : Nat) : Option Bytes :=
  match elements with
  | [] => none
  | first :: _ =>
      if first = 93 then none
      else
        match elements.dropWhile isElementGap with
        | [] => none
        | byte :: rest =>
            if byte = 93 then none
            else
              match index with
              | 0 => some (splitElement 0 false (byte :: rest)).1
              | before + 1 => elementAt (splitElement 0 false (byte :: rest)).2 before

def akJsonArrayElement (json : Bytes) (index : Nat) : Option Bytes :=
  match json.dropWhile (· != 91) with
  | [] => none
  | _ :: rest => elementAt (rest.dropWhile fun byte => byte == 32 || byte == 9 || byte == 10 || byte == 13) index

theorem akJsonExtractString_eq_some (json : Option Bytes) (key : String) (outLen : Nat) (bytes : Bytes) :
    akJsonExtractString json key outLen = some bytes ↔
      ∃ text value, json = some text ∧ stringValue key text = some value ∧ bytes = value.take (outLen - 1) := by
  cases json with
  | none => simp [akJsonExtractString]
  | some text =>
    simp only [akJsonExtractString,Option.map_eq_some_iff,Option.some.injEq]
    constructor
    · rintro ⟨value,found,rfl⟩
      exact ⟨text,value,rfl,found,rfl⟩
    · rintro ⟨text',value,rfl,found,rfl⟩
      exact ⟨value,found,rfl⟩

end AuthorityKernel.Json
