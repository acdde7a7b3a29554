import AuthorityKernel.Wasm.HostCalls

/-! The network functions of tools that keep a connection open. A connection is known by
a number the host has chosen; whoever names the number may send and receive on it, so a
connection stays with the agent that opened it only as long as no tool names another. -/
namespace AuthorityKernel.Wasm.HostCalls
open Library Library.Run Capability Proxy

section Calls

variable (env : HostEnv) (ctx : Option ExecCtx) (args : Option Bytes) (caps : CapState) (proxy : ProxyState)

def connectText (connection : TcpConnection) : Bytes :=
  ascii "\x7b\"conn_id\":\"" ++ decimalNat connection.connId.toNat ++ ascii "\",\"local_addr\":\"" ++
    connection.localAddr.1 ++ ascii "\",\"remote_addr\":\"" ++ connection.remoteAddr.1 ++ ascii "\"\x7d"

def connectResult (alloc : Bool) : Except Int Reply → Except Int Bytes
  | .ok (.connection connection) => if alloc then .ok (connectText connection) else .error akEWasmOom
  | .ok _ => .error akEWasmOom
  | .error code => .error code

def akHostTcpConnect : HostOutcome :=
  match args.bind (parseJsonString (ascii "host")) with
  | none => refuse caps proxy akESchemaInvalid
  | some host =>
      if host.length = 0 then refuse caps proxy akESchemaInvalid
      else if host.length ≥ 256 then refuse caps proxy akESchemaInvalid
      else
        let port := parseJsonInteger args "port"
        if port ≤ 0 ∨ port > 65535 then refuse caps proxy akESchemaInvalid
        else
          let check := validateHostCap env.validate ctx .net (.ofBuffer host) "connect" caps
          if check.2 ≠ 0 then refuse check.1 proxy check.2
          else if !akProxyConnected env.serial proxy then refuse check.1 proxy akENotImplemented
          else
            forward check.1 proxy env.exchange (.tcpConnect (.ofBuffer host) (UInt16.ofNat port.toNat))
              (connectResult env.resultAlloc)

def sentResult (alloc : Bool) : Except Int Reply → Except Int Bytes
  | .ok (.written count) => createJsonResult alloc "bytes_sent" (decimalNat count.toUInt64.toNat)
  | .ok _ => createJsonResult alloc "bytes_sent" (decimalNat 0)
  | .error code => .error code

/-- What a call asks of the proxy for a connection; nothing if it ends before. -/
abbrev Asked := Except (Except Int Bytes) ProxyRequest

/-- Sending and receiving check the capability for no particular host and take the number
of the connection from the arguments. -/
def connectionCall (method : String) (request : UInt64 → Asked) (answer : Except Int Reply → Except Int Bytes) :
    HostOutcome :=
  let check := validateHostCap env.validate ctx .net (name "*") method caps
  if check.2 ≠ 0 then refuse check.1 proxy check.2
  else if !akProxyConnected env.serial proxy then refuse check.1 proxy akENotImplemented
  else
    let connId := parseJsonInteger args "conn_id"
    if connId < 0 then refuse check.1 proxy akESchemaInvalid
    else
      match request (UInt64.ofNat connId.toNat) with
      | .error result => ⟨check.1,proxy,none,result⟩
      | .ok request => forward check.1 proxy env.exchange request answer

def sendRequest (connId : UInt64) : Asked :=
  match args.bind (parseJsonString (ascii "data")) with
  | none => .error (createJsonResult env.resultAlloc "bytes_sent" (ascii "0"))
  | some data =>
      if data.length = 0 then .error (createJsonResult env.resultAlloc "bytes_sent" (ascii "0"))
      else if !env.scratchAlloc then .error (.error akEWasmOom)
      else .ok (.tcpSend connId (base64Decode data))

def akHostTcpSend : HostOutcome :=
  connectionCall env ctx args caps proxy "send" (sendRequest env args) (sentResult env.resultAlloc)

def maxBytes : UInt64 :=
  let asked := parseJsonInteger args "max_bytes"
  if asked ≤ 0 then 4096 else if asked > 1024 * 1024 then 1024 * 1024 else UInt64.ofNat asked.toNat

def recvRequest (connId : UInt64) : Asked :=
  if !env.scratchAlloc then .error (.error akEWasmOom) else .ok (.tcpRecv connId (maxBytes args))

def recvResult (alloc : Bool) : Except Int Reply → Except Int Bytes
  | .ok (.received data) =>
      if alloc then .ok (ascii "\x7b\"data\":\"" ++ base64Encode data ++ ascii "\"\x7d") else .error akEWasmOom
  | .ok _ => .error akEWasmOom
  | .error code => .error code

def akHostTcpRecv : HostOutcome :=
  connectionCall env ctx args caps proxy "recv" (recvRequest env args) (recvResult env.resultAlloc)

end Calls

inductive TcpOp
  | connect
  | send
  | recv

structure TcpCall where
  op : TcpOp
  env : HostEnv
  ctx : Option ExecCtx
  args : Option Bytes

def tcpCall (call : TcpCall) (caps : CapState) (proxy : ProxyState) : HostOutcome :=
  match call.op with
  | .connect => akHostTcpConnect call.env call.ctx call.args caps proxy
  | .send => akHostTcpSend call.env call.ctx call.args caps proxy
  | .recv => akHostTcpRecv call.env call.ctx call.args caps proxy

structure Opening where
  agent : ExecAgent
  cap : AkCapability
  host : CString
  result : Bytes

/-- The kernel's side of the connections, with what was opened and which agent has used
which number so far. -/
structure Traffic where
  caps : CapState
  proxy : ProxyState
  opened : List Opening
  used : List (Nat × UInt64)

def openings (call : TcpCall) (outcome : HostOutcome) : List Opening :=
  match call.ctx.bind ExecCtx.agent, call.ctx.bind ExecCtx.cap, outcome.forwarded, outcome.result with
  | some agent, some cap, some (.tcpConnect host _), .ok result => [⟨agent,cap,host,result⟩]
  | _, _, _, _ => []

def connectionOf : ProxyRequest → Option UInt64
  | .tcpSend connId _ => some connId
  | .tcpRecv connId _ => some connId
  | _ => none

def uses (call : TcpCall) (outcome : HostOutcome) : List (Nat × UInt64) :=
  match call.ctx.bind ExecCtx.agent, outcome.forwarded.bind connectionOf with
  | some agent, some connId => [(agent.agent,connId)]
  | _, _ => []

def trafficStep (s : Traffic) (call : TcpCall) : Traffic :=
  let outcome := tcpCall call s.caps s.proxy
  ⟨outcome.caps,outcome.proxy,s.opened ++ openings call outcome,s.used ++ uses call outcome⟩

def quiet (caps : CapState) (proxy : ProxyState) : Traffic := ⟨caps,proxy,[],[]⟩

def Names (result : Bytes) (connId : UInt64) : Prop :=
  ∃ connection, result = connectText connection ∧ connection.connId = connId

/-- Every number that reached the proxy was returned by a connect of the same agent that
its capability admitted for the host. -/
def OwnConnections (s : Traffic) : Prop :=
  ∀ use ∈ s.used, ∃ opening ∈ s.opened, opening.agent.agent = use.1 ∧ Names opening.result use.2 ∧
    InScope opening.cap ⟨.net,opening.host,some (name "connect"),some opening.agent.runId⟩

/-- The proxy is there, and memory and line take the request. -/
def LineOpen (env : HostEnv) (proxy : ProxyState) : Prop :=
  proxy.initialized = true ∧ proxy.connected = true ∧ env.exchange.send.reqAlloc = true ∧
    env.exchange.send.serial = true ∧ 0 ≤ env.exchange.send.text

def TcpOp.method : TcpOp → String
  | .connect => "connect"
  | .send => "send"
  | .recv => "recv"

def connectionNumber (args : Option Bytes) : UInt64 := UInt64.ofNat (parseJsonInteger args "conn_id").toNat

/-- The arguments say which connection, and what to send on it. -/
def Asks (call : TcpCall) : Prop :=
  0 ≤ parseJsonInteger call.args "conn_id" ∧
    match call.op with
    | .connect => False
    | .send => ∃ data, call.args.bind (parseJsonString (ascii "data")) = some data ∧ base64Decode data ≠ []
    | .recv => True

def LineUp (env : HostEnv) (proxy : ProxyState) : Prop :=
  env.serial = true ∧ env.scratchAlloc = true ∧ LineOpen env proxy

/-- A tool names no connection but one that a connect has returned to its agent, unless it
has no capability for every host, its arguments are incomplete or the line is down. -/
def NamesOwn (s : Traffic) (call : TcpCall) : Prop :=
  (∃ opening ∈ s.opened, (call.ctx.bind ExecCtx.agent).map ExecAgent.agent = some opening.agent.agent ∧
    Names opening.result (connectionNumber call.args)) ∨
  ¬ Entitled call.env.validate call.ctx .net (name "*") call.op.method s.caps ∨ ¬ Asks call ∨ ¬ LineUp call.env s.proxy

theorem exchange_reached_iff (env : HostEnv) (request : ProxyRequest) (proxy : ProxyState) :
    (exchange env.exchange request proxy).reached = true ↔ withoutRequest request = none ∧ LineOpen env proxy := by
  unfold exchange beginRequest LineOpen
  by_cases up : proxy.initialized = true ∧ proxy.connected = true
  · rw [up.1,up.2]
    simp only [Bool.not_true,Bool.or_self,Bool.false_eq_true,if_false,true_and]
    cases withoutRequest request with
    | some reply => simp
    | none =>
      by_cases room : env.exchange.send.reqAlloc = true
      · by_cases taken : env.exchange.send.serial = true ∧ 0 ≤ env.exchange.send.text
        · have kept : ¬env.exchange.send.text < 0 := not_lt.mpr taken.2
          by_cases ended : env.exchange.send.newline < 0
          · simp [room,taken,kept,ended]
          · simp [room,taken,kept,ended]
        · by_cases serial : env.exchange.send.serial = true
          · have lost : env.exchange.send.text < 0 := not_le.mp fun stays => taken ⟨serial,stays⟩
            simp [room,serial,lost]
          · simp [room,serial]
      · simp [room]
  · have down : (!proxy.initialized || !proxy.connected) = true := by
      cases initialized : proxy.initialized <;> cases connected : proxy.connected <;> simp_all
    rw [if_pos down]
    exact iff_of_false Bool.false_ne_true fun reaches => up ⟨reaches.2.1,reaches.2.2.1⟩

theorem forward_forwarded_iff (caps : CapState) (proxy : ProxyState) (env : HostEnv) (request sent : ProxyRequest)
    (answer : Except Int Reply → Except Int Bytes) :
    (forward caps proxy env.exchange request answer).forwarded = some sent ↔
      request = sent ∧ withoutRequest request = none ∧ LineOpen env proxy := by
  rw [← exchange_reached_iff]
  unfold forward
  cases reached : (exchange env.exchange request proxy).reached <;> simp [reached]

theorem connectionCall_forwarded_iff (env : HostEnv) (ctx : Option ExecCtx) (args : Option Bytes) (caps : CapState)
    (proxy : ProxyState) (method : String) (request : UInt64 → Asked) (answer : Except Int Reply → Except Int Bytes)
    (sent : ProxyRequest) :
    (connectionCall env ctx args caps proxy method request answer).forwarded = some sent ↔
      Entitled env.validate ctx .net (name "*") method caps ∧ akProxyConnected env.serial proxy = true ∧
        0 ≤ parseJsonInteger args "conn_id" ∧ request (connectionNumber args) = .ok sent ∧
        withoutRequest sent = none ∧ LineOpen env proxy := by
  unfold connectionCall connectionNumber
  dsimp only
  rw [← validateHostCap_zero_iff]
  split
  · rename_i refused
    exact iff_of_false (by simp [refuse]) fun all => refused all.1
  rename_i granted
  split
  · rename_i down
    refine iff_of_false (by simp [refuse]) fun all => ?_
    simp [all.2.1] at down
  rename_i up
  rw [Bool.not_eq_true,Bool.not_eq_false'] at up
  split
  · rename_i negative
    exact iff_of_false (by simp [refuse]) fun all => absurd all.2.2.1 (not_le.mpr negative)
  rename_i positive
  cases made : request (UInt64.ofNat (parseJsonInteger args "conn_id").toNat) with
  | error result => exact iff_of_false (by simp) fun all => by simp at all
  | ok asked =>
    simp only [forward_forwarded_iff,Except.ok.injEq]
    constructor
    · rintro ⟨rfl,reaches⟩
      exact ⟨not_not.mp granted,up,not_lt.mp positive,rfl,reaches⟩
    · rintro ⟨_,_,_,rfl,reaches⟩
      exact ⟨rfl,reaches⟩

variable {host : CString} {answer : Except Int Reply → Except Int Bytes} {request : ProxyRequest} {method : String}
  {call : TcpCall} {s : Traffic} {port : UInt16} {connId : UInt64} {env : HostEnv} {ctx : Option ExecCtx}
  {args : Option Bytes} {caps : CapState} {proxy : ProxyState}

theorem sendRequest_connection (made : sendRequest env args connId = .ok request) :
    connectionOf request = some connId := by
  unfold sendRequest at made
  split at made
  · cases made
  split at made
  · cases made
  split at made
  · cases made
  cases made
  rfl

theorem recvRequest_connection (made : recvRequest env args connId = .ok request) :
    connectionOf request = some connId := by
  unfold recvRequest at made
  split at made
  · cases made
  · cases made
    rfl

theorem akHostTcpConnect_forwarded {sent : ProxyRequest}
    (forwarded : (akHostTcpConnect env ctx args caps proxy).forwarded = some sent) :
    ∃ host port agent cap, sent = .tcpConnect host port ∧ ctx.bind ExecCtx.agent = some agent ∧
      ctx.bind ExecCtx.cap = some cap ∧ InScope cap ⟨.net,host,some (name "connect"),some agent.runId⟩ := by
  unfold akHostTcpConnect at forwarded
  split at forwarded
  · cases forwarded
  split at forwarded
  · cases forwarded
  split at forwarded
  · cases forwarded
  dsimp only at forwarded
  split at forwarded
  · cases forwarded
  split at forwarded
  · cases forwarded
  rename_i granted
  obtain ⟨agent,cap,here,held,⟨_,_,_,scope⟩,_⟩ := validateHostCap_zero_iff.mp (not_not.mp granted)
  split at forwarded
  · cases forwarded
  exact ⟨_,_,agent,cap,forward_forwarded _ _ forwarded,here,held,scope⟩

theorem sendRequest_sends_iff (connId : UInt64) :
    (∃ sent, sendRequest env args connId = .ok sent ∧ withoutRequest sent = none) ↔ env.scratchAlloc = true ∧
      ∃ data, args.bind (parseJsonString (ascii "data")) = some data ∧ base64Decode data ≠ [] := by
  have asked (bytes : Bytes) : withoutRequest (.tcpSend connId bytes) = none ↔ bytes ≠ [] := by
    cases bytes <;> simp [withoutRequest]
  unfold sendRequest
  cases args.bind (parseJsonString (ascii "data")) with
  | none => simp
  | some data =>
    cases data with
    | nil => simp [base64Decode,base64Loop]
    | cons first rest => cases env.scratchAlloc <;> simp [asked]

theorem recvRequest_sends_iff (connId : UInt64) :
    (∃ sent, recvRequest env args connId = .ok sent ∧ withoutRequest sent = none) ↔ env.scratchAlloc = true := by
  have room : maxBytes args ≠ 0 := by
    unfold maxBytes
    dsimp only
    split
    · decide
    split
    · decide
    have small : (parseJsonInteger args "max_bytes").toNat < UInt64.size := by
      change _ < 18446744073709551616
      omega
    rw [ne_eq,← UInt64.toNat_inj,UInt64.toNat_ofNat_of_lt' small]
    change ¬ _ = 0
    omega
  unfold recvRequest
  cases env.scratchAlloc <;> simp [withoutRequest,room]

theorem connectionCall_used_iff {request : UInt64 → Asked}
    (names : ∀ connId sent, request connId = .ok sent → connectionOf sent = some connId) (connId : UInt64) :
    (connectionCall env ctx args caps proxy method request answer).forwarded.bind connectionOf = some connId ↔
      Entitled env.validate ctx .net (name "*") method caps ∧ 0 ≤ parseJsonInteger args "conn_id" ∧
        (∃ sent, request connId = .ok sent ∧ withoutRequest sent = none) ∧ env.serial = true ∧ LineOpen env proxy ∧
        connectionNumber args = connId := by
  rw [Option.bind_eq_some_iff]
  constructor
  · rintro ⟨sent,forwarded,named⟩
    obtain ⟨entitled,up,positive,made,asked,line⟩ := (connectionCall_forwarded_iff _ _ _ _ _ _ _ _ _).mp forwarded
    obtain rfl : connectionNumber args = connId := Option.some.inj ((names _ _ made).symm.trans named)
    exact ⟨entitled,positive,⟨sent,made,asked⟩,(Bool.and_eq_true_iff.mp up).2,line,rfl⟩
  · rintro ⟨entitled,positive,⟨sent,made,asked⟩,serial,line,rfl⟩
    exact ⟨sent,(connectionCall_forwarded_iff _ _ _ _ _ _ _ _ _).mpr
      ⟨entitled,Bool.and_eq_true_iff.mpr ⟨line.1,serial⟩,positive,made,asked,line⟩,names _ _ made⟩

theorem connection_used_iff (s : Traffic) (call : TcpCall) (connId : UInt64) :
    (tcpCall call s.caps s.proxy).forwarded.bind connectionOf = some connId ↔
      (Entitled call.env.validate call.ctx .net (name "*") call.op.method s.caps ∧ Asks call ∧ LineUp call.env s.proxy) ∧
        connectionNumber call.args = connId := by
  obtain ⟨op,env,ctx,args⟩ := call
  unfold Asks LineUp
  cases op with
  | connect =>
    refine iff_of_false (fun used => ?_) fun through => through.1.2.1.2
    obtain ⟨sent,forwarded,named⟩ := Option.bind_eq_some_iff.mp used
    obtain ⟨host,port,_,_,rfl,_⟩ := akHostTcpConnect_forwarded forwarded
    cases named
  | send =>
    refine (connectionCall_used_iff (fun _ _ => sendRequest_connection) connId).trans ?_
    rw [sendRequest_sends_iff]
    constructor
    · rintro ⟨entitled,positive,⟨room,data⟩,serial,line,same⟩
      exact ⟨⟨entitled,⟨positive,data⟩,serial,room,line⟩,same⟩
    · rintro ⟨⟨entitled,⟨positive,data⟩,serial,room,line⟩,same⟩
      exact ⟨entitled,positive,⟨room,data⟩,serial,line,same⟩
  | recv =>
    refine (connectionCall_used_iff (fun _ _ => recvRequest_connection) connId).trans ?_
    rw [recvRequest_sends_iff]
    constructor
    · rintro ⟨entitled,positive,room,serial,line,same⟩
      exact ⟨⟨entitled,⟨positive,trivial⟩,serial,room,line⟩,same⟩
    · rintro ⟨⟨entitled,⟨positive,_⟩,serial,room,line⟩,same⟩
      exact ⟨entitled,positive,room,serial,line,same⟩

def Admitted (s : Traffic) : Prop :=
  ∀ opening ∈ s.opened, InScope opening.cap ⟨.net,opening.host,some (name "connect"),some opening.agent.runId⟩

theorem mem_openings {outcome : HostOutcome} {opening : Opening} (member : opening ∈ openings call outcome) :
    call.ctx.bind ExecCtx.agent = some opening.agent ∧ call.ctx.bind ExecCtx.cap = some opening.cap ∧
      ∃ port, outcome.forwarded = some (.tcpConnect opening.host port) := by
  unfold openings at member
  split at member
  · rename_i agent cap host port result here held forwarded _
    cases List.mem_singleton.mp member
    exact ⟨here,held,port,forwarded⟩
  · cases member

theorem connectionCall_connects {request : UInt64 → Asked}
    (names : ∀ connId sent, request connId = .ok sent → connectionOf sent = some connId) :
    (connectionCall env ctx args caps proxy method request answer).forwarded ≠ some (.tcpConnect host port) := by
  intro forwarded
  obtain ⟨_,_,_,made,_⟩ := (connectionCall_forwarded_iff _ _ _ _ _ _ _ _ _).mp forwarded
  cases names _ _ made

theorem opens_connect (forwarded : (tcpCall call caps proxy).forwarded = some (.tcpConnect host port)) :
    tcpCall call caps proxy = akHostTcpConnect call.env call.ctx call.args caps proxy := by
  obtain ⟨op,env,ctx,args⟩ := call
  cases op with
  | connect => rfl
  | send => exact absurd forwarded (connectionCall_connects fun _ _ => sendRequest_connection)
  | recv => exact absurd forwarded (connectionCall_connects fun _ _ => recvRequest_connection)

theorem trafficStep_admitted (admitted : Admitted s) : Admitted (trafficStep s call) := by
  intro opening member
  obtain old | new := List.mem_append.mp member
  · exact admitted opening old
  obtain ⟨here,held,port,forwarded⟩ := mem_openings new
  rw [opens_connect forwarded] at forwarded
  obtain ⟨host,_,agent,cap,same,here',held',scope⟩ := akHostTcpConnect_forwarded forwarded
  cases same
  cases here.symm.trans here'
  cases held.symm.trans held'
  exact scope

theorem mem_uses_iff (call : TcpCall) (outcome : HostOutcome) (use : Nat × UInt64) :
    use ∈ uses call outcome ↔ (call.ctx.bind ExecCtx.agent).map ExecAgent.agent = some use.1 ∧
      outcome.forwarded.bind connectionOf = some use.2 := by
  unfold uses
  split
  · rename_i here named owner used
    rw [owner,used,List.mem_singleton,Option.map_some,Option.some.injEq,Option.some.injEq]
    exact ⟨fun same => ⟨congrArg Prod.fst same.symm,congrArg Prod.snd same.symm⟩,
      fun ⟨agent,connId⟩ => Prod.ext agent.symm connId.symm⟩
  rename_i missing
  refine iff_of_false List.not_mem_nil ?_
  rintro ⟨owner,used⟩
  obtain ⟨here,owner,_⟩ := Option.map_eq_some_iff.mp owner
  exact missing here use.2 owner used

theorem openings_of_used (used : (tcpCall call s.caps s.proxy).forwarded.bind connectionOf = some connId) :
    openings call (tcpCall call s.caps s.proxy) = [] := by
  rw [List.eq_nil_iff_forall_not_mem]
  intro opening member
  obtain ⟨_,_,port,forwarded⟩ := mem_openings member
  rw [forwarded] at used
  cases used

theorem trafficStep_own_iff (admitted : Admitted s) (own : OwnConnections s) :
    OwnConnections (trafficStep s call) ↔ NamesOwn s call := by
  constructor
  · intro kept
    by_cases through : Entitled call.env.validate call.ctx .net (name "*") call.op.method s.caps ∧ Asks call ∧
        LineUp call.env s.proxy
    · left
      have forwarded := (connection_used_iff s call _).mpr ⟨through,rfl⟩
      obtain ⟨⟨agent,_,here,_⟩,_⟩ := through
      have owner : (call.ctx.bind ExecCtx.agent).map ExecAgent.agent = some agent.agent := congrArg _ here
      have used : (agent.agent,connectionNumber call.args) ∈ (trafficStep s call).used :=
        List.mem_append_right _ ((mem_uses_iff call _ _).mpr ⟨owner,forwarded⟩)
      obtain ⟨opening,member,same,named,_⟩ := kept _ used
      have earlier : opening ∈ s.opened ++ openings call (tcpCall call s.caps s.proxy) := member
      rw [openings_of_used forwarded,List.append_nil] at earlier
      exact ⟨opening,earlier,by rw [owner,same],named⟩
    · right
      rwa [not_and_or,not_and_or] at through
  · intro named use member
    obtain old | new := List.mem_append.mp member
    · obtain ⟨opening,earlier,rest⟩ := own use old
      exact ⟨opening,List.mem_append_left _ earlier,rest⟩
    obtain ⟨owner,forwarded⟩ := (mem_uses_iff call _ use).mp new
    obtain ⟨⟨entitled,asks,up⟩,same⟩ := (connection_used_iff s call use.2).mp forwarded
    rcases named with ⟨opening,earlier,agent,result⟩ | barred | silent | down
    · refine ⟨opening,List.mem_append_left _ earlier,?_,same ▸ result,admitted opening earlier⟩
      exact Option.some.inj (agent.symm.trans owner)
    · exact absurd entitled barred
    · exact absurd asks silent
    · exact absurd up down

/-- Connections stay with the agents that opened them exactly as long as every tool names
its own. -/
theorem own_connections_iff (caps : CapState) (proxy : ProxyState) (calls : List TcpCall) :
    Throughout trafficStep OwnConnections (quiet caps proxy) calls ↔ Guarded trafficStep NamesOwn (quiet caps proxy) calls := by
  refine throughout_iff_guarded (fun s call => trafficStep_admitted) (fun s call => trafficStep_own_iff) _ _ ?_ ?_
  · intro opening member
    cases member
  · intro use member
    cases member

def strangerSend : TcpCall where
  op := .send
  env := plainHost []
  ctx := some ⟨some ⟨1,Block.zero 16⟩,some (bootToken 1 (name "*") (by decide))⟩
  args := some (ascii "\x7b\"conn_id\":\"7\",\"data\":\"QUJD\"\x7d")

theorem strangerSend_used :
    (tcpCall strangerSend firstCaps ⟨true,true,1⟩).forwarded.bind connectionOf = some 7 := by
  refine (connection_used_iff (quiet firstCaps ⟨true,true,1⟩) strangerSend 7).mpr ⟨⟨?_,⟨?_,?_⟩,?_⟩,?_⟩
  · exact validateHostCap_zero_iff.mp
      (bootToken_granted (by decide) (by decide) ⟨1,Block.zero 16⟩ rfl (Glob.denotes_lone_star _))
  · decide +kernel
  · exact ⟨ascii "QUJD",by decide +kernel,by decide +kernel⟩
  · exact ⟨rfl,rfl,rfl,rfl,rfl,rfl,by decide⟩
  · decide +kernel

/-- An agent that has opened nothing sends on the connection 7. -/
theorem stranger_sends : let s := run trafficStep (quiet firstCaps ⟨true,true,1⟩) [strangerSend]
    (1,7) ∈ s.used ∧ s.opened = [] ∧ ¬OwnConnections s := by
  intro s
  have used : (1,7) ∈ s.used :=
    List.mem_append_right _ ((mem_uses_iff strangerSend _ (1,7)).mpr ⟨rfl,strangerSend_used⟩)
  have opened : s.opened = [] := by
    change [] ++ openings strangerSend _ = []
    rw [List.nil_append]
    exact openings_of_used (s := quiet firstCaps ⟨true,true,1⟩) strangerSend_used
  refine ⟨used,opened,fun own => ?_⟩
  obtain ⟨opening,member,_⟩ := own _ used
  rw [opened] at member
  cases member

end AuthorityKernel.Wasm.HostCalls
