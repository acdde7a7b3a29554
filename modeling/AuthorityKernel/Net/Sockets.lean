import AuthorityKernel.Net.Enforce

/-! Internet sockets and the calls that connect them and send through them. What
lwIP and the user's memory do is an input of each call. Beside the sockets the
machine records which endpoints the gate accepted and the packets that left. -/
namespace AuthorityKernel.Net
open Library

inductive SockType
  | stream
  | datagram
deriving DecidableEq

inductive Domain
  | inet
  | inet6
deriving DecidableEq

inductive SockState
  | undefined
  | created
  | inConnection
  | abortingConnection
  | connected
  | listening
deriving DecidableEq

inductive IpAddr
  | v4 (bytes : Block 4)
  | v6 (bytes : Block 16)
deriving DecidableEq

structure Endpoint where
  addr : IpAddr
  port : UInt16
deriving DecidableEq

/-- `peer` is the remote end of the socket's control block, once there is one, and
`incoming` says that it connected to us: the socket is one that `accept` returned. -/
structure NetSock where
  type : SockType
  domain : Domain
  ipv6only : Bool
  state : SockState
  peer : Option Endpoint
  incoming : Bool

def field (n : Nat) (bytes : Bytes) (offset : Nat) : Block n := .ofFn fun i => bytes.getD (offset + i) 0

def ntohs (bytes : Block 2) : UInt16 := bytes.head.toUInt16 * 256 + bytes.tail.head.toUInt16

def isIpv4Mapped (bytes : Block 16) : Bool :=
  bytes.toList.take 12 == List.replicate 10 0 ++ [255,255]

/-- The structure is as long as the length the caller passes with it; too short a
one is refused. A mapped address on a socket of both families becomes version 4. -/
def sockaddrToAddrport (sock : NetSock) (addr : Bytes) : Option Endpoint :=
  match sock.domain with
  | .inet => if addr.length < 16 then none else some ⟨.v4 (field 4 addr 4),ntohs (field 2 addr 2)⟩
  | .inet6 =>
      if addr.length < 28 then none
      else
        let bytes := field 16 addr 8
        let port := ntohs (field 2 addr 2)
        if !sock.ipv6only && isIpv4Mapped bytes then some ⟨.v4 (field 4 bytes.toList 12),port⟩
        else some ⟨.v6 bytes,port⟩

def octetText (b : Nat) : Bytes :=
  if b ≥ 100 then [digit (b / 100),digit (b / 10),digit b]
  else if b ≥ 10 then [digit (b / 10),digit b]
  else [digit b]

def akNetFormatIpv4 (bytes : Block 4) : Bytes :=
  List.intercalate [dotByte] (bytes.toList.map fun byte => octetText byte.toNat)

def akNetFormatIpv6 (bytes : Block 16) : Bytes :=
  List.intercalate [colonByte] ((List.range 8).map fun i => hexBytes ((bytes.toList.drop (2 * i)).take 2))

def hostText : IpAddr → CString
  | .v4 bytes => .ofBuffer (akNetFormatIpv4 bytes)
  | .v6 bytes => .ofBuffer (akNetFormatIpv6 bytes)

/-- `filtered` records that the filter accepted the very send the packet is of. -/
structure Packet where
  dest : Endpoint
  payload : Option Bytes
  filtered : Bool
deriving DecidableEq

structure Msg where
  iov : List Bytes
  name : Option Bytes

/-- A `sendmmsg` call under way: its remaining messages wait on the run queue. -/
structure Job where
  fd : Nat
  flags : UInt32
  next : Msg
  rest : List Msg

structure Machine where
  ctx : Option NetContext
  socks : Nat → Option NetSock
  jobs : List Job
  accepted : List Endpoint
  departed : List Packet

/-- `lwip` is the error of the protocol stack, 0 if there is none, and `outcome`
what a connection attempt under way returns in the end. -/
structure ConnectEnv where
  readable : Bool
  addrFault : Bool
  lwip : Int
  outcome : Int

/-- `taken` says how much of the data a stream takes and `outcome` what the call then
returns; a datagram needs a buffer, a copy and the stack's consent. -/
structure WriteEnv where
  readable : Bool
  addrFault : Bool
  bufAlloc : Bool
  copyFault : Bool
  lwip : Int
  taken : Nat
  outcome : Int
  lengthStored : Bool

def setSock (m : Machine) (fd : Nat) (sock : NetSock) : Machine :=
  { m with socks := Function.update m.socks fd (some sock) }

def depart (m : Machine) (target : Option Endpoint) (payload : Option Bytes) (filtered : Bool) : Machine :=
  match target with
  | none => m
  | some dest => { m with departed := m.departed ++ [⟨dest,payload,filtered⟩] }

def connectTcp (env : ConnectEnv) (m : Machine) (fd : Nat) (sock : NetSock) (target : Endpoint) : Machine × Int :=
  match sock.state with
  | .inConnection => (m,-eAlready)
  | .abortingConnection => (m,-eAlready)
  | .connected => (m,-eIsconn)
  | .created =>
      if env.lwip ≠ 0 then (setSock m fd { sock with state := .inConnection, peer := none },env.lwip)
      else
        (depart (setSock m fd { sock with state := .inConnection, peer := some target, incoming := false })
          (some target) none false,env.outcome)
  | .undefined => (m,-eInval)
  | .listening => (m,-eInval)

def connectUdp (env : ConnectEnv) (m : Machine) (fd : Nat) (sock : NetSock) (target : Endpoint) : Machine × Int :=
  if env.lwip ≠ 0 then (m,env.lwip) else (setSock m fd { sock with peer := some target, incoming := false },0)

def netsockConnect (env : ConnectEnv) (m : Machine) (fd : Nat) (sock : NetSock) (addr : Bytes) : Machine × Int :=
  if env.addrFault then (m,-eFault)
  else
    match sockaddrToAddrport sock addr with
    | none => (m,-eInval)
    | some target =>
        let verdict := akNetCheckConnect m.ctx (some (hostText target.addr)) target.port
        if verdict ≠ 0 then (m,verdict)
        else
          let cleared := { m with accepted := m.accepted ++ [target] }
          match sock.type with
          | .stream => connectTcp env cleared fd sock target
          | .datagram => connectUdp env cleared fd sock target

def connect (env : ConnectEnv) (m : Machine) (fd : Nat) (addr : Bytes) : Machine × Int :=
  if !env.readable then (m,-eFault)
  else
    match m.socks fd with
    | none => (m,-eBadf)
    | some sock => netsockConnect env m fd sock addr

def orError (code : Int) (value : Option Endpoint) : Except Int Endpoint :=
  match value with
  | none => .error code
  | some value => .ok value

/-- An explicit destination wins over the connected one, and is not checked. -/
def udpTarget (env : WriteEnv) (sock : NetSock) (dest : Option Bytes) : Except Int Endpoint :=
  match dest with
  | some addr => if env.addrFault then .error (-eFault) else orError (-eInval) (sockaddrToAddrport sock addr)
  | none => orError (-eDestaddrreq) sock.peer

def socketWriteUdp (env : WriteEnv) (sock : NetSock) (payload : Bytes) (dest : Option Bytes) : Option Endpoint × Int :=
  match udpTarget env sock dest with
  | .error code => (none,code)
  | .ok target =>
      if !env.bufAlloc then (none,-eNobufs)
      else if env.copyFault then (none,-eFault)
      else if env.lwip ≠ 0 then (none,env.lwip)
      else (some target,payload.length)

/-- Where the data goes, if it leaves, and what the call returns. `count` is the
number of bytes, or of buffers in a vectored call. -/
def socketWriteInternal (env : WriteEnv) (sock : NetSock) (payload : Bytes) (count : Nat) (dest : Option Bytes) :
    Option Endpoint × Int :=
  match sock.type with
  | .stream =>
      if sock.state ≠ .connected then (none,-ePipe)
      else if count = 0 then (none,0)
      else if env.taken = 0 || payload.isEmpty then (none,env.outcome)
      else (sock.peer,env.outcome)
  | .datagram => socketWriteUdp env sock payload dest

def msgEor : UInt32 := 0x80

def sendtoPrepare (flags : UInt32) : Int := if flags &&& msgEor ≠ 0 then -eOpnotsupp else 0

def writeOut (env : WriteEnv) (m : Machine) (sock : NetSock) (flags : UInt32) (payload : Bytes) (count : Nat)
    (dest : Option Bytes) (filtered : Bool) : Machine × Int :=
  if sendtoPrepare flags < 0 then (m,sendtoPrepare flags)
  else
    let sent := socketWriteInternal env sock payload count dest
    (depart m sent.1 (some payload) filtered,sent.2)

def outgoing (buf : Bytes) : Outgoing := ⟨some buf,UInt64.ofNat buf.length⟩

def sendto (detectSecrets : Bytes → Bool) (env : WriteEnv) (m : Machine) (fd : Nat) (buf : Bytes) (flags : UInt32)
    (dest : Option Bytes) : Machine × Int :=
  if !env.readable then (m,-eFault)
  else
    match m.socks fd with
    | none => (m,-eBadf)
    | some sock =>
        let filtered := akNetFilterSend detectSecrets m.ctx (outgoing buf)
        if filtered.2 ≠ 0 then ({ m with ctx := filtered.1 },filtered.2)
        else writeOut env { m with ctx := filtered.1 } sock flags buf buf.length dest true

def sendmsg (env : WriteEnv) (m : Machine) (fd : Nat) (msg : Msg) (flags : UInt32) : Machine × Int :=
  if !env.readable then (m,-eFault)
  else
    match m.socks fd with
    | none => (m,-eBadf)
    | some sock => writeOut env m sock flags msg.iov.flatten msg.iov.length msg.name false

/-- The rest of a vector goes back to the run queue unless a message failed. -/
def sendmmsgComplete (env : WriteEnv) (sent : Machine × Int) (fd : Nat) (flags : UInt32) (rest : List Msg) : Machine :=
  if sent.2 < 0 || !env.lengthStored then sent.1
  else
    match rest with
    | [] => sent.1
    | next :: later => { sent.1 with jobs := sent.1.jobs ++ [⟨fd,flags,next,later⟩] }

def sendmmsg (env : WriteEnv) (m : Machine) (fd : Nat) (msgs : List Msg) (flags : UInt32) : Machine :=
  match msgs with
  | [] => m
  | first :: rest => sendmmsgComplete env (sendmsg env m fd first flags) fd flags rest

def sendmmsgNext (env : WriteEnv) (m : Machine) (index : Nat) : Machine :=
  match m.jobs[index]? with
  | none => m
  | some job =>
      sendmmsgComplete env (sendmsg env { m with jobs := m.jobs.eraseIdx index } job.fd job.next job.flags)
        job.fd job.flags job.rest

inductive News
  | established
  | broken
  | interrupted
  | segment

def receiveNews (m : Machine) (fd : Nat) (sock : NetSock) : News → Machine
  | .established =>
      match sock.state with
      | .inConnection => if sock.peer.isSome then setSock m fd { sock with state := .connected } else m
      | .abortingConnection => setSock m fd { sock with state := .created, peer := none }
      | _ => m
  | .broken => setSock m fd { sock with state := .undefined }
  | .interrupted =>
      match sock.state with
      | .inConnection => setSock m fd { sock with state := .abortingConnection }
      | .connected => setSock m fd { sock with state := .created, peer := none }
      | _ => m
  | .segment => depart m sock.peer none false

inductive Event
  | connect (env : ConnectEnv) (fd : Nat) (addr : Bytes)
  | sendto (env : WriteEnv) (fd : Nat) (buf : Bytes) (flags : UInt32) (dest : Option Bytes)
  | sendmsg (env : WriteEnv) (fd : Nat) (msg : Msg) (flags : UInt32)
  | sendmmsg (env : WriteEnv) (fd : Nat) (msgs : List Msg) (flags : UInt32)
  | resume (env : WriteEnv) (index : Nat)
  | news (fd : Nat) (news : News)

def eventStep (detectSecrets : Bytes → Bool) (m : Machine) : Event → Machine
  | .connect env fd addr => (connect env m fd addr).1
  | .sendto env fd buf flags dest => (sendto detectSecrets env m fd buf flags dest).1
  | .sendmsg env fd msg flags => (sendmsg env m fd msg flags).1
  | .sendmmsg env fd msgs flags => sendmmsg env m fd msgs flags
  | .resume env index => sendmmsgNext env m index
  | .news fd news =>
      match m.socks fd with
      | none => m
      | some sock => if sock.type = .stream then receiveNews m fd sock news else m

/-- Where a socket comes from: `socket`, or `accept` of a connection from a peer. -/
inductive Origin
  | made (type : SockType) (domain : Domain) (ipv6only : Bool)
  | taken (domain : Domain) (ipv6only : Bool) (peer : Endpoint)

def Origin.sock : Origin → NetSock
  | .made type domain ipv6only => ⟨type,domain,ipv6only,.created,none,false⟩
  | .taken domain ipv6only peer => ⟨.stream,domain,ipv6only,.connected,some peer,true⟩

def opened (ctx : Option NetContext) (origins : Nat → Option Origin) : Machine where
  ctx := ctx
  socks := fun fd => (origins fd).map Origin.sock
  jobs := []
  accepted := []
  departed := []

end AuthorityKernel.Net
