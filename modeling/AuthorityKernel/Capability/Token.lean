import AuthorityKernel.Capability.State
import AuthorityKernel.Library.Text

/-! Capability tokens and the canonical text their authentication tag is computed
over. A token's arrays are kept as the bytes in use, with the bounds of the
arrays as fields, so that no value exceeds what the structure can hold. -/
namespace AuthorityKernel.Capability
open Library

/-- The type tag, one byte on the wire; unnamed values can arrive in a parsed token. -/
structure CapType where
  code : UInt8
deriving DecidableEq

namespace CapType
def none : CapType := ⟨0⟩
def net : CapType := ⟨1⟩
def fs : CapType := ⟨2⟩
def tool : CapType := ⟨3⟩
def secrets : CapType := ⟨4⟩
def spawn : CapType := ⟨5⟩
def heap : CapType := ⟨6⟩
def inference : CapType := ⟨7⟩
def ipc : CapType := ⟨8⟩
def any : CapType := ⟨254⟩
def admin : CapType := ⟨255⟩
end CapType

/-- `resource` holds the `resource_len` bytes before the terminator and may contain
NULs in a parsed token; every use of a method name stops at its first NUL, so
names are NUL-terminated strings. -/
structure AkCapability where
  type : CapType
  resource : Bytes
  methods : List CString
  issuedMs : UInt64
  ttlMs : UInt32
  rateLimit : UInt32
  rateWindowMs : UInt32
  runId : TokenId
  tid : TokenId
  kid : UInt8
  mac : Mac
  resource_lt : resource.length < 256
  methods_le : methods.length ≤ 8
  method_lt : ∀ name ∈ methods, name.1.length < 32
deriving DecidableEq

def quotedName (name : CString) : Bytes := 34 :: name.1 ++ [34]

def methodsText (methods : List CString) : Bytes := List.intercalate [44] (methods.map quotedName)

/-- The canonical form: sorted keys, no white space. `%d` and `%ld` print their
argument as a signed number of its width. Only the resource is escaped. -/
def akCapabilityCanonicalize (cap : AkCapability) : Bytes :=
  ascii "\x7b\"issued_ms\":" ++ decimalInt cap.issuedMs.toInt64.toInt ++
  ascii ",\"kid\":" ++ decimalInt cap.kid.toNat ++
  ascii ",\"methods\":[" ++ methodsText cap.methods ++
  ascii "],\"rate_limit\":" ++ decimalInt cap.rateLimit.toInt32.toInt ++
  ascii ",\"rate_window_ms\":" ++ decimalInt cap.rateWindowMs.toInt32.toInt ++
  ascii ",\"resource\":\"" ++ escaped cap.resource ++
  ascii "\",\"run_id\":\"" ++ hexBytes cap.runId.toList ++
  ascii "\",\"tid\":\"" ++ hexBytes cap.tid.toList ++
  ascii "\",\"ttl_ms\":" ++ decimalInt cap.ttlMs.toInt32.toInt ++
  ascii ",\"type\":" ++ decimalInt cap.type.code.toNat ++ ascii "\x7d"

end AuthorityKernel.Capability
