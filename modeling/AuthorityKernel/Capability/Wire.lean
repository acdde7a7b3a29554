import AuthorityKernel.Capability.Token

/-! The binary form a token is presented in: a header of fixed fields, the resource, then
each method name behind its length. -/
namespace AuthorityKernel.Capability
open Library

def akCapWireMagic : Nat := 0x31504143
def akCapWireVersion : UInt8 := 1
def akCapWireHdrSize : Nat := 96
def akCapWireMaxSize : Nat := akCapWireHdrSize + 255 + 8 * 32

def wireField (data : Bytes) (offset width : Nat) : Nat := fieldAt data offset width

def wireBlock (data : Bytes) (offset n : Nat) : Block n := blockAt data offset n

def wireMethods (data : Bytes) (totalLen : Nat) : Nat → Nat → Option (List CString × Nat)
  | 0, offset => some ([],offset)
  | count + 1, offset =>
      let length := (data.getD offset 0).toNat
      if offset + 1 > totalLen then none
      else if length ≥ 32 then none
      else if offset + 1 + length > totalLen then none
      else
        (wireMethods data totalLen count (offset + 1 + length)).map fun rest =>
          (.ofBuffer (slice data (offset + 1) length) :: rest.1,rest.2)

theorem wireMethods_bounds (data : Bytes) (totalLen count offset : Nat) (names : List CString) (after : Nat)
    (walked : wireMethods data totalLen count offset = some (names,after)) :
    names.length = count ∧ ∀ name ∈ names, name.1.length < 32 := by
  induction count generalizing offset names after with
  | zero =>
    cases walked
    simp
  | succ count ih =>
    rw [wireMethods] at walked
    split at walked
    · contradiction
    split at walked
    · contradiction
    rename_i short
    split at walked
    · contradiction
    obtain ⟨rest,tail,same⟩ := Option.map_eq_some_iff.mp walked
    obtain ⟨counted,bounded⟩ := ih _ rest.1 rest.2 tail
    cases same
    refine ⟨by rw [List.length_cons,counted],?_⟩
    intro name member
    rcases List.mem_cons.mp member with rfl | inside
    · have cut := cstr_length_le (slice data (offset + 1) (data.getD offset 0).toNat)
      have taken : (slice data (offset + 1) (data.getD offset 0).toNat).length ≤ (data.getD offset 0).toNat :=
        List.length_take_le _ _
      change (cstr _).length < 32
      omega
    · exact bounded name inside

def wireToken (data : Bytes) (names : List CString) (short : wireField data 10 2 < 256) (few : names.length ≤ 8)
    (bounded : ∀ name ∈ names, name.1.length < 32) : AkCapability where
  type := ⟨data.getD 6 0⟩
  resource := slice data akCapWireHdrSize (wireField data 10 2)
  methods := names
  issuedMs := u64OfBytes (slice data 12 8)
  ttlMs := UInt32.ofNat (wireField data 20 4)
  rateLimit := UInt32.ofNat (wireField data 24 4)
  rateWindowMs := UInt32.ofNat (wireField data 28 4)
  runId := wireBlock data 32 16
  tid := wireBlock data 48 16
  kid := data.getD 5 0
  mac := wireBlock data 64 32
  resource_lt := Nat.lt_of_le_of_lt (List.length_take_le _ _) short
  methods_le := few
  method_lt := bounded

/-- Any malformation is refused. The walk over the names must end exactly where the header
says the token does; what follows is padding. -/
def akCapabilityParse (alloc : Bool) (data : Bytes) : Option AkCapability :=
  let count := (data.getD 7 0).toNat
  let totalLen := wireField data 8 2
  let resourceLen := wireField data 10 2
  if data.length < akCapWireHdrSize then none
  else if wireField data 0 4 ≠ akCapWireMagic then none
  else if data.getD 4 0 ≠ akCapWireVersion then none
  else if few : count ≤ 8 then
    if totalLen < akCapWireHdrSize ∨ totalLen > data.length then none
    else if !alloc then none
    else if short : resourceLen < 256 then
      if akCapWireHdrSize + resourceLen > totalLen then none
      else
        match walked : wireMethods data totalLen count (akCapWireHdrSize + resourceLen) with
        | none => none
        | some (names,offset) =>
            if offset ≠ totalLen then none
            else
              have bounds := wireMethods_bounds data totalLen count _ names offset walked
              some (wireToken data names short (bounds.1.trans_le few) bounds.2)
    else none
  else none

end AuthorityKernel.Capability
