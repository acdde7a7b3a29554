import AuthorityKernel.Policy.Rules

/-! Where the network functions of the tools connect to. They read the URL out of their
arguments with a scanner of their own and take it apart once more. -/
namespace AuthorityKernel.Wasm
open Library Json

def akJsonMaxValueSize : Nat := 64 * 1024

/-- Unlike the other scanners this one wants the colon directly behind the key, and looks on
where the value is not a string. -/
def parseJsonString (key : Bytes) : Bytes → Option Bytes
  | [] => none
  | byte :: rest =>
      if key.length + 5 ≤ rest.length + 1 then
        if (quoteByte :: key ++ [quoteByte,58]).isPrefixOf (byte :: rest) then
          match (rest.drop (key.length + 2)).dropWhile fun byte => byte == 32 || byte == 9 with
          | [] => none
          | next :: after =>
              if next = quoteByte then
                if (stringBody after).length > akJsonMaxValueSize then none else some (stringBody after)
              else parseJsonString key rest
        else parseJsonString key rest
      else none

structure HttpUrl where
  host : CString
  port : UInt16
  tls : Bool
  path : CString
deriving DecidableEq

def portDigits (value : Nat) : Bytes → Option (Nat × Bytes)
  | [] => some (value,[])
  | byte :: rest =>
      if isDigit byte then
        let next := value * 10 + (byte - 48).toNat
        if next > 65535 then none else portDigits next rest
      else some (value,byte :: rest)

def urlPort (default : UInt16) : Bytes → Option (UInt16 × Bytes)
  | 58 :: rest =>
      if (rest.head?).any isDigit then (portDigits 0 rest).map fun read => (UInt16.ofNat read.1,read.2) else none
  | rest => some (default,rest)

def urlPath (pathSize : Nat) : Bytes → Option Bytes
  | 47 :: rest => if rest.length + 1 < pathSize then some (47 :: rest) else none
  | _ => if pathSize < 2 then none else some [47]

def parseAuthority (tls : Bool) (port : UInt16) (hostSize pathSize : Nat) (rest : Bytes) : Except Int HttpUrl :=
  let host := rest.takeWhile fun byte => byte != 58 && byte != 47
  if host.length + 1 > hostSize then .error akENetHostInvalid
  else if host = [] then .error akENetHostInvalid
  else
    match urlPort port (rest.drop host.length) with
    | none => .error akENetHostInvalid
    | some (port,behind) =>
        match urlPath pathSize behind with
        | none => .error akENetUrlInvalid
        | some path => .ok ⟨.ofBuffer host,port,tls,.ofBuffer path⟩

def akHttpParseUrl (url : CString) (hostSize pathSize : Nat) : Except Int HttpUrl :=
  if (ascii "https://").isPrefixOf url.1 then parseAuthority true 443 hostSize pathSize (url.1.drop 8)
  else if (ascii "http://").isPrefixOf url.1 then parseAuthority false 80 hostSize pathSize (url.1.drop 7)
  else .error akENetUrlInvalid

/-- The host that `http_get` and `http_post` connect to for a tool that hands its arguments
on to them. -/
def httpHost (args : Option Bytes) : Option CString :=
  match args.bind (parseJsonString (ascii "url")) with
  | none => none
  | some url =>
      if url.length = 0 ∨ url.length ≥ 512 then none
      else
        match akHttpParseUrl (.ofBuffer url) 256 512 with
        | .error _ => none
        | .ok parsed => some parsed.host

end AuthorityKernel.Wasm
