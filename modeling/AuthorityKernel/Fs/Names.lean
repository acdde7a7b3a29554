import AuthorityKernel.Types

/-! Characters and names in path texts (`utf8_decode`, `push_character` and `utf8_find_r` in
`runtime/text.h`, `filename_from_path` and `dirname_from_path` in `fs`). -/
namespace AuthorityKernel.Fs

abbrev Name := List UInt8

def nameMax : Nat := 255
def slash : Nat := 0x2f
def dot : Name := [0x2e]
def dotDot : Name := [0x2e,0x2e]

/-- A byte that starts no sequence counts as one of length 1. -/
def utf8Length (x : UInt8) : Nat :=
  if x < 0x80 then 1 else if x &&& 0xe0 == 0xc0 then 2 else if x &&& 0xf0 == 0xe0 then 3
  else if x &&& 0xf8 == 0xf0 then 4 else 1

/-- The first byte of a sequence, as far as it goes into the character. A single byte is a signed `char`. -/
def leadBits (x : UInt8) : Nat :=
  match utf8Length x with
  | 2 => (x &&& 0x3f).toNat
  | 3 => (x &&& 0x1f).toNat
  | 4 => (x &&& 0x0f).toNat
  | _ => if x < 0x80 then x.toNat else 0xffffff00 + x.toNat

/-- The character at the start of a text and the number of its bytes. Continuation bytes are not checked. -/
def utf8Decode : List UInt8 → Option (Nat × Nat)
  | [] => none
  | x :: rest =>
    let len := utf8Length x
    if rest.length + 1 < len then none
    else some ((rest.take (len - 1)).foldl (fun c y => c * 64 + (y &&& 0x3f).toNat) (leadBits x),len)

def encoded (c : Nat) : Option (List UInt8) :=
  if c < 0x80 then some [c.toUInt8]
  else if c < 0x800 then some [(0xc0 ||| c / 64).toUInt8,(0x80 ||| c % 64).toUInt8]
  else if c < 0x10000 then some [(0xe0 ||| c / 4096).toUInt8,(0x80 ||| c / 64 % 64).toUInt8,(0x80 ||| c % 64).toUInt8]
  else if c < 0x110000 then
    some [(0xf0 ||| c / 262144).toUInt8,(0x80 ||| c / 4096 % 64).toUInt8,(0x80 ||| c / 64 % 64).toUInt8,
      (0x80 ||| c % 64).toUInt8]
  else none

/-- The buffer for a name holds `NAME_MAX` bytes and is not extended. -/
def pushCharacter (a : Name) (c : Nat) : Option Name := do
  let bytes ← encoded c
  if a.length + bytes.length ≤ nameMax then some (a ++ bytes) else none

end AuthorityKernel.Fs
