import AuthorityKernel.Library.ChainTable
import AuthorityKernel.Crypto.Sha256

/-! The state of the capability subsystem: the signing keys, the revocation table
and the rate counters, with the constants that bound them. Readings of the
monotonic clock are raw timestamps; the code always divides them by a million. -/
namespace AuthorityKernel.Capability
open Library Crypto

abbrev TokenId := Block 16
abbrev Secret := Block 32
abbrev Mac := Block 32

def akKeyRotationMs : UInt64 := 24 * 60 * 60 * 1000
def akKeyGraceMs : UInt64 := 4 * akKeyRotationMs
def akMaxCapTtlMs : UInt32 := 7 * 24 * 60 * 60 * 1000
def akRateMaxEntries : UInt64 := 4096
def akRevocationSweepThreshold : UInt64 := 1024
def akRevocationRetainMs : UInt64 := akMaxCapTtlMs.toUInt64 + akKeyRotationMs

def nowMs (clock : UInt64) : UInt64 := clock / 1000000

theorem nowMs_toNat (clock : UInt64) : (nowMs clock).toNat = clock.toNat / 1000000 := by
  simp [nowMs]

/-- The division keeps every reading far below the range of the type, which is
why no sum of a reading and a lifetime wraps. -/
theorem nowMs_le (clock : UInt64) : (nowMs clock).toNat ≤ 18446744073709 := by
  have range := clock.toNat_lt
  rw [nowMs_toNat]
  omega

theorem nowMs_mono {first second : UInt64} (later : first ≤ second) : nowMs first ≤ nowMs second := by
  rw [UInt64.le_iff_toNat_le] at later ⊢
  rw [nowMs_toNat,nowMs_toNat]
  omega

structure Key where
  kid : UInt8
  secret : Secret
  createdMs : UInt64
  expiresMs : UInt64
  active : Bool
  retired : Bool
deriving DecidableEq

structure RevocationEntry where
  tid : TokenId
  revokedMs : UInt64
  reason : Option Bytes
deriving DecidableEq

structure RateCounter where
  tid : TokenId
  count : UInt32
  windowMs : UInt32
  windowStartMs : UInt64
deriving DecidableEq

/-- The module's static state. `activeKid` is a slot index in spite of its name;
`keysSeed` is the seed staged for the next initialisation. -/
structure CapState where
  keys : Fin 4 → Key
  activeKid : Fin 4
  lastRotationMs : UInt64
  keyCounter : UInt64
  revocations : ChainTable RevocationEntry
  revocationCount : UInt64
  rateCounters : ChainTable RateCounter
  rateEntryCount : UInt64
  initialized : Bool
  keysSeed : Option Secret

def Key.zero : Key := ⟨0,Block.zero 32,0,0,false,false⟩

def CapState.static : CapState where
  keys := fun _ => Key.zero
  activeKid := ⟨0,by decide⟩
  lastRotationMs := 0
  keyCounter := 0
  revocations := .empty
  revocationCount := 0
  rateCounters := .empty
  rateEntryCount := 0
  initialized := false
  keysSeed := none

/-- FNV-1a over the whole token id, with zero moved to one. -/
def akTidHash (tid : TokenId) : UInt64 :=
  let hash := tid.toList.foldl (fun h byte => (h ^^^ byte.toUInt64) * 0x100000001b3) 0xcbf29ce484222325
  if hash = 0 then 1 else hash

def akTokenIdEqual (a b : TokenId) : Bool := constantTimeCompare a.toList b.toList

@[simp] theorem akTokenIdEqual_iff (a b : TokenId) : akTokenIdEqual a b = true ↔ a = b := by
  rw [akTokenIdEqual,constantTimeCompare_iff _ _ (by simp [a.toList_length,b.toList_length])]
  exact ⟨fun same => Subtype.ext same,fun same => same ▸ rfl⟩

end AuthorityKernel.Capability
