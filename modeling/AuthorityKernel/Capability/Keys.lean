import AuthorityKernel.Capability.State
import Mathlib.Data.List.FinRange

/-! Key management: initialisation, rotation, lookup, and the blob the key set is
saved in across restarts. -/
namespace AuthorityKernel.Capability
open Library Crypto

def akKeysSetSeed (seed : Option Bytes) (s : CapState) : CapState :=
  match seed with
  | none => { s with keysSeed := none }
  | some [] => { s with keysSeed := none }
  | some bytes =>
      if size : bytes.length = 32 then { s with keysSeed := some ⟨bytes,size⟩ }
      else { s with keysSeed := some (sha256 bytes) }

/-- Slots 1 to 3 keep their old contents apart from the two flags. -/
def akKeysInit (clock : UInt64) (random : Secret) (s : CapState) : CapState :=
  let created := nowMs clock
  let first : Key :=
    { kid := 0
      secret := s.keysSeed.getD random
      createdMs := created
      expiresMs := created + akKeyRotationMs + akKeyGraceMs
      active := true
      retired := false }
  { keys := fun i => if i = 0 then first else { s.keys i with active := false, retired := true }
    activeKid := 0
    lastRotationMs := created
    keyCounter := 1
    revocations := .empty
    revocationCount := 0
    rateCounters := .empty
    rateEntryCount := 0
    initialized := true
    keysSeed := none }

def akKeyGetActive (s : CapState) : Key := s.keys s.activeKid

def akKeyGet (s : CapState) (kid : UInt8) : Option (Fin 4) :=
  (List.finRange 4).find? fun i => (s.keys i).kid == kid && !(s.keys i).retired

def retireExpired (now : UInt64) (key : Key) : Key :=
  if now > key.expiresMs && !key.retired then { key with secret := Block.zero 32, retired := true } else key

def firstRetired (keys : Fin 4 → Key) : Option (Fin 4) :=
  (List.finRange 4).find? fun i => (keys i).retired

def oldestStep (keys : Fin 4 → Key) (best : UInt64 × Option (Fin 4)) (i : Fin 4) : UInt64 × Option (Fin 4) :=
  if (keys i).createdMs < best.1 then ((keys i).createdMs,some i) else best

def oldestSlot (keys : Fin 4 → Key) : Option (Fin 4) :=
  ((List.finRange 4).foldl (oldestStep keys) (0xffffffffffffffff,none)).2

def rotateSlot (keys : Fin 4 → Key) : Option (Fin 4) := (firstRetired keys).or (oldestSlot keys)

def newKey (now : UInt64) (random : Secret) (counter : UInt64) : Key where
  kid := counter.toUInt8
  secret := random
  createdMs := now
  expiresMs := now + akKeyRotationMs + akKeyGraceMs
  active := true
  retired := false

def akKeyRotate (clock : UInt64) (random : Secret) (s : CapState) : CapState :=
  let now := nowMs clock
  if now - s.lastRotationMs < akKeyRotationMs then s
  else
    let keys := fun i => retireExpired now (s.keys i)
    match rotateSlot keys with
    -- No slot is retired and every creation time is `UINT64_MAX`: the source would index slot -1.
    | none => s
    | some slot =>
        let installed := Function.update keys slot (newKey now random s.keyCounter)
        -- The flag of the old active slot is cleared last, also when the new key was put there.
        { s with
          keys := Function.update installed s.activeKid { installed s.activeKid with active := false }
          activeKid := slot
          lastRotationMs := now
          keyCounter := s.keyCounter + 1 }

def akKeysBlobMagic : Nat := 0x534B4B41
def akKeysBlobVersion : UInt8 := 1
def akKeysSlotSize : Nat := 56
def akKeysBlobSize : Nat := 16 + 4 * akKeysSlotSize

def exportSlot (key : Key) : Bytes :=
  [key.kid,if key.active then 1 else 0,if key.retired then 1 else 0] ++ List.replicate 5 0 ++
    u64Bytes key.createdMs ++ u64Bytes key.expiresMs ++
    if key.retired then List.replicate 32 0 else key.secret.toList

def exportHeader (s : CapState) : Bytes :=
  leBytes 4 akKeysBlobMagic ++ [akKeysBlobVersion,UInt8.ofNat s.activeKid,0,0] ++ u64Bytes s.keyCounter

def akKeysExport (alloc : Bool) (s : CapState) : Option Bytes :=
  if s.initialized && alloc then
    some (exportHeader s ++ (List.finRange 4).flatMap fun i => exportSlot (s.keys i))
  else none

def slotByte (blob : Bytes) (i : Fin 4) (offset : Nat) : UInt8 :=
  blob.getD (16 + i * akKeysSlotSize + offset) 0

def slotSecret (blob : Bytes) (i : Fin 4) : Secret :=
  ⟨(List.range 32).map fun n => slotByte blob i (24 + n),by simp⟩

def ambiguousKids (blob : Bytes) : Bool :=
  (List.finRange 4).any fun i => slotByte blob i 2 == 0 &&
    (List.finRange 4).any fun j => decide (i < j) && slotByte blob j 2 == 0 && slotByte blob j 0 == slotByte blob i 0

def importKey (blob : Bytes) (now : UInt64) (active i : Fin 4) : Key :=
  if slotByte blob i 2 != 0 then
    { kid := slotByte blob i 0, secret := Block.zero 32, createdMs := 0, expiresMs := 0,
      active := i == active, retired := true }
  else
    { kid := slotByte blob i 0
      secret := slotSecret blob i
      createdMs := if i = active then now else if now = 0 then 0 else now - 1
      expiresMs := if i = active then now + akKeyRotationMs + akKeyGraceMs else now + akKeyGraceMs
      active := i == active
      retired := false }

/-- The framing checks, before any state is touched: the slot the blob names as active. -/
def importActive (blob : Bytes) : Option (Fin 4) :=
  if blob.length < akKeysBlobSize then none
  else if leNat (slice blob 0 4) ≠ akKeysBlobMagic then none
  else if blob.getD 4 0 ≠ akKeysBlobVersion then none
  else if inside : (blob.getD 5 0).toNat < 4 then
    let active : Fin 4 := ⟨(blob.getD 5 0).toNat,inside⟩
    if slotByte blob active 2 ≠ 0 then none
    else if ambiguousKids blob then none
    else some active
  else none

def akKeysImport (clock : UInt64) (blob : Option Bytes) (s : CapState) : CapState × Bool :=
  match blob with
  | none => (s,false)
  | some bytes =>
      if !s.initialized then (s,false)
      else match importActive bytes with
        | none => (s,false)
        | some active =>
            let counter := u64OfBytes (slice bytes 8 8)
            let now := nowMs clock
            ({ s with
               keys := importKey bytes now active
               activeKid := active
               keyCounter := if counter = 0 then 1 else counter
               lastRotationMs := now },true)

end AuthorityKernel.Capability
