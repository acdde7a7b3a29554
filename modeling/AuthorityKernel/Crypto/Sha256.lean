import AuthorityKernel.Library.Bytes

/-! The kernel's SHA-256, byte by byte as the runtime computes it, and the keyed
hash the capability tokens and policies are authenticated with. Proofs treat
the digest as an unexamined function; only its length is ever used. -/
namespace AuthorityKernel.Crypto
open Library

def rotRight (word : UInt32) (count : UInt32) : UInt32 := (word >>> count) ||| (word <<< (32 - count))
def ch (x y z : UInt32) : UInt32 := (x &&& y) ^^^ (~~~x &&& z)
def maj (x y z : UInt32) : UInt32 := (x &&& y) ^^^ (x &&& z) ^^^ (y &&& z)
def ep0 (x : UInt32) : UInt32 := rotRight x 2 ^^^ rotRight x 13 ^^^ rotRight x 22
def ep1 (x : UInt32) : UInt32 := rotRight x 6 ^^^ rotRight x 11 ^^^ rotRight x 25
def sig0 (x : UInt32) : UInt32 := rotRight x 7 ^^^ rotRight x 18 ^^^ (x >>> 3)
def sig1 (x : UInt32) : UInt32 := rotRight x 17 ^^^ rotRight x 19 ^^^ (x >>> 10)

def roundConstants : List UInt32 :=
  [0x428a2f98,0x71374491,0xb5c0fbcf,0xe9b5dba5,0x3956c25b,0x59f111f1,0x923f82a4,0xab1c5ed5,
   0xd807aa98,0x12835b01,0x243185be,0x550c7dc3,0x72be5d74,0x80deb1fe,0x9bdc06a7,0xc19bf174,
   0xe49b69c1,0xefbe4786,0x0fc19dc6,0x240ca1cc,0x2de92c6f,0x4a7484aa,0x5cb0a9dc,0x76f988da,
   0x983e5152,0xa831c66d,0xb00327c8,0xbf597fc7,0xc6e00bf3,0xd5a79147,0x06ca6351,0x14292967,
   0x27b70a85,0x2e1b2138,0x4d2c6dfc,0x53380d13,0x650a7354,0x766a0abb,0x81c2c92e,0x92722c85,
   0xa2bfe8a1,0xa81a664b,0xc24b8b70,0xc76c51a3,0xd192e819,0xd6990624,0xf40e3585,0x106aa070,
   0x19a4c116,0x1e376c08,0x2748774c,0x34b0bcb5,0x391c0cb3,0x4ed8aa4a,0x5b9cca4f,0x682e6ff3,
   0x748f82ee,0x78a5636f,0x84c87814,0x8cc70208,0x90befffa,0xa4506ceb,0xbef9a3f7,0xc67178f2]

structure Words where
  a : UInt32
  b : UInt32
  c : UInt32
  d : UInt32
  e : UInt32
  f : UInt32
  g : UInt32
  h : UInt32

structure Context where
  data : Bytes
  bitlen : UInt64
  state : Words

def bigEndianWord (bytes : Bytes) : UInt32 :=
  (bytes.getD 0 0).toUInt32 <<< 24 ||| (bytes.getD 1 0).toUInt32 <<< 16 |||
    (bytes.getD 2 0).toUInt32 <<< 8 ||| (bytes.getD 3 0).toUInt32

def extendSchedule : Nat → List UInt32 → List UInt32
  | 0, words => words
  | n + 1, words => extendSchedule n
      ((sig1 (words.getD 1 0) + words.getD 6 0 + sig0 (words.getD 14 0) + words.getD 15 0) :: words)

def schedule (block : Bytes) : List UInt32 :=
  let first := (List.range 16).map fun i => bigEndianWord (block.drop (4 * i))
  (extendSchedule 48 first.reverse).reverse

def compress (w : Words) (round : UInt32 × UInt32) : Words :=
  let t1 := w.h + ep1 w.e + ch w.e w.f w.g + round.1 + round.2
  let t2 := ep0 w.a + maj w.a w.b w.c
  ⟨t1 + t2,w.a,w.b,w.c,w.d + t1,w.e,w.f,w.g⟩

def sha256Transform (state : Words) (block : Bytes) : Words :=
  let w := (roundConstants.zip (schedule block)).foldl compress state
  ⟨state.a + w.a,state.b + w.b,state.c + w.c,state.d + w.d,
   state.e + w.e,state.f + w.f,state.g + w.g,state.h + w.h⟩

def sha256Init : Context where
  data := []
  bitlen := 0
  state := ⟨0x6a09e667,0xbb67ae85,0x3c6ef372,0xa54ff53a,0x510e527f,0x9b05688c,0x1f83d9ab,0x5be0cd19⟩

def sha256UpdateByte (ctx : Context) (byte : UInt8) : Context :=
  let data := ctx.data ++ [byte]
  if data.length = 64 then ⟨[],ctx.bitlen + 512,sha256Transform ctx.state data⟩
  else { ctx with data := data }

def sha256Update (ctx : Context) (data : Bytes) : Context := data.foldl sha256UpdateByte ctx

def bigEndianBytes (word : UInt32) : Bytes :=
  [(word >>> 24).toUInt8,(word >>> 16).toUInt8,(word >>> 8).toUInt8,word.toUInt8]

def sha256Final (ctx : Context) : Block 32 :=
  let bitlen := ctx.bitlen + UInt64.ofNat (ctx.data.length * 8)
  let marked := ctx.data ++ [0x80]
  let (state,padded) :=
    if ctx.data.length < 56 then (ctx.state,marked ++ List.replicate (56 - marked.length) 0)
    else (sha256Transform ctx.state (marked ++ List.replicate (64 - marked.length) 0),List.replicate 56 0)
  let w := sha256Transform state (padded ++ (u64Bytes bitlen).reverse)
  ⟨bigEndianBytes w.a ++ bigEndianBytes w.b ++ bigEndianBytes w.c ++ bigEndianBytes w.d ++
    bigEndianBytes w.e ++ bigEndianBytes w.f ++ bigEndianBytes w.g ++ bigEndianBytes w.h,rfl⟩

@[irreducible] def sha256 (data : Bytes) : Block 32 := sha256Final (sha256Update sha256Init data)

def hmacBlockSize : Nat := 64
def hmacIpad : UInt8 := 0x36
def hmacOpad : UInt8 := 0x5c

def hmacKeyBlock (key : Bytes) : Bytes :=
  let derived := if key.length > hmacBlockSize then (sha256 key).toList else key
  derived ++ List.replicate (hmacBlockSize - derived.length) 0

/-- The keyed hash. When the buffer for the inner hash cannot be allocated
(`alloc = false`) the output is zeroed and no error is reported. -/
@[irreducible] def akHmacSha256 (alloc : Bool) (key data : Bytes) : Block 32 :=
  if alloc then
    let block := hmacKeyBlock key
    let inner := sha256 (block.map (· ^^^ hmacIpad) ++ data)
    sha256 (block.map (· ^^^ hmacOpad) ++ inner.toList)
  else Block.zero 32

def constantTimeCompare (a b : Bytes) : Bool :=
  (List.zipWith (· ^^^ ·) a b).foldl (· ||| ·) 0 == 0

theorem foldl_or_eq_zero (bytes : Bytes) (acc : UInt8) :
    bytes.foldl (· ||| ·) acc = 0 ↔ acc = 0 ∧ ∀ byte ∈ bytes, byte = 0 := by
  induction bytes generalizing acc with
  | nil => simp
  | cons byte rest ih => simp [ih,UInt8.or_eq_zero_iff,and_assoc]

theorem constantTimeCompare_iff (a b : Bytes) (size : a.length = b.length) :
    constantTimeCompare a b = true ↔ a = b := by
  rw [constantTimeCompare,beq_iff_eq,foldl_or_eq_zero]
  simp only [true_and]
  induction a generalizing b with
  | nil => cases b with
    | nil => simp
    | cons y ys => simp at size
  | cons x xs ih => cases b with
    | nil => simp at size
    | cons y ys =>
      have sizes : xs.length = ys.length := by simpa using size
      simp only [List.zipWith_cons_cons,List.mem_cons,forall_eq_or_imp,UInt8.xor_eq_zero_iff,ih ys sizes,List.cons.injEq]

end AuthorityKernel.Crypto
