import AuthorityKernel.Net.Sockets

/-! Which socket calls pass the gate. Sockets that connected only ever talk to accepted endpoints;
sockets from `accept`, explicit destinations and vectored calls go around the checks. -/
namespace AuthorityKernel.Net
open Library

/-- A packet to an accepted endpoint; if it has a payload, the filter accepted this send. -/
def Cleared (m : Machine) (packet : Packet) : Prop :=
  packet.dest ∈ m.accepted ∧ (packet.payload.isSome = true → packet.filtered = true)

def Mediated (m : Machine) : Prop := ∀ packet ∈ m.departed, Cleared m packet

def PeersAccepted (m : Machine) : Prop :=
  ∀ fd sock peer, m.socks fd = some sock → sock.incoming = false → sock.peer = some peer → peer ∈ m.accepted

def Deliverable (env : WriteEnv) : Prop := env.bufAlloc = true ∧ env.copyFault = false ∧ env.lwip = 0

def Addressed (env : WriteEnv) (sock : NetSock) (dest : Option Bytes) (target : Endpoint) : Prop :=
  sock.type = .datagram ∧ env.addrFault = false ∧
    (∃ addr, dest = some addr ∧ sockaddrToAddrport sock addr = some target) ∧ Deliverable env

def ToPeer (env : WriteEnv) (sock : NetSock) (payload : Bytes) (count : Nat) (dest : Option Bytes) (target : Endpoint) :
    Prop :=
  sock.peer = some target ∧
    match sock.type with
    | .stream => sock.state = .connected ∧ count ≠ 0 ∧ env.taken ≠ 0 ∧ payload ≠ []
    | .datagram => dest = none ∧ Deliverable env

def Leaves (env : WriteEnv) (sock : NetSock) (payload : Bytes) (count : Nat) (dest : Option Bytes) (target : Endpoint) :
    Prop :=
  ToPeer env sock payload count dest target ∨ Addressed env sock dest target

/-- The data does not go where a connection was asked for. -/
def Unasked (sock : NetSock) (dest : Option Bytes) : Prop :=
  sock.incoming = true ∨ (sock.type = .datagram ∧ dest ≠ none)

variable (env : WriteEnv) (sent : Machine × Int) (m next : Machine) (fd : Nat) (msg : Msg) (sock : NetSock)
  (flags : UInt32) (rest : List Msg) (payload : Bytes) (count : Nat) (dest : Option Bytes) (target : Endpoint)
  (filtered : Bool)

theorem orError_eq_ok (code : Int) (value : Option Endpoint) (target : Endpoint) :
    orError code value = .ok target ↔ value = some target := by
  cases value <;> simp [orError]

theorem socketWriteUdp_target :
    (socketWriteUdp env sock payload dest).1 = some target ↔
      udpTarget env sock dest = .ok target ∧ Deliverable env := by
  unfold socketWriteUdp Deliverable
  cases udpTarget env sock dest with
  | error code => simp
  | ok found => cases env.bufAlloc <;> cases env.copyFault <;> by_cases fine : env.lwip = 0 <;> simp [fine]

theorem socketWriteInternal_target :
    (socketWriteInternal env sock payload count dest).1 = some target ↔
      Leaves env sock payload count dest target := by
  unfold socketWriteInternal Leaves ToPeer Addressed
  cases sock.type with
  | stream =>
    by_cases state : sock.state = .connected <;> by_cases empty : count = 0 <;> by_cases taken : env.taken = 0 <;>
      cases payload <;> simp [state,empty,taken]
  | datagram =>
    rw [socketWriteUdp_target]
    cases dest with
    | none => simp [udpTarget,orError_eq_ok]
    | some addr => cases fault : env.addrFault <;> simp [udpTarget,orError_eq_ok,fault]

theorem PeersAccepted.asked {m : Machine} (peers : PeersAccepted m) {fd : Nat} {sock : NetSock}
    (found : m.socks fd = some sock) {env : WriteEnv} {payload : Bytes} {count : Nat} {dest : Option Bytes}
    {target : Endpoint} (asked : ¬ Unasked sock dest) (leaves : Leaves env sock payload count dest target) :
    target ∈ m.accepted := by
  simp only [Unasked,not_or,Bool.not_eq_true] at asked
  rcases leaves with peer | ⟨datagram,_,⟨addr,given,_⟩,_⟩
  · exact peers fd sock target found asked.1 peer.1
  · exact absurd ⟨datagram,by simp [given]⟩ asked.2

theorem mediated_append_iff (fresh : List Packet) (mediated : Mediated m) (accepted : m.accepted ⊆ next.accepted)
    (departed : next.departed = m.departed ++ fresh) :
    Mediated next ↔ ∀ packet ∈ fresh, Cleared next packet := by
  unfold Mediated
  rw [departed]
  constructor
  · exact fun all packet member => all packet (List.mem_append_right _ member)
  · intro new packet member
    rcases List.mem_append.mp member with old | inside
    · have before := mediated packet old
      exact ⟨accepted before.1,before.2⟩
    · exact new packet inside

structure Keeps (m next : Machine) : Prop where
  peers : PeersAccepted m → PeersAccepted next
  mediated : PeersAccepted m → Mediated m → Mediated next

theorem Keeps.refl : Keeps m m := ⟨id,fun _ => id⟩

variable (detectSecrets : Bytes → Bool) {first second third : Machine}

theorem Keeps.trans (left : Keeps first second) (right : Keeps second third) :
    Keeps first third :=
  ⟨right.peers ∘ left.peers,fun peers mediated => right.mediated (left.peers peers) (left.mediated peers mediated)⟩

/-- After the step the machine is mediated exactly if the step was cleared. -/
structure Settles (m next : Machine) (cleared : Prop) : Prop where
  peers : PeersAccepted m → PeersAccepted next
  mediated : PeersAccepted m → Mediated m → (Mediated next ↔ cleared)

theorem Keeps.settles {m next : Machine} {cleared : Prop} (keeps : Keeps m next) (fine : cleared) :
    Settles m next cleared :=
  ⟨keeps.peers,fun peers mediated => iff_of_true (keeps.mediated peers mediated) fine⟩

theorem Settles.keeps {m next : Machine} {cleared : Prop} (settles : Settles m next cleared) (fine : cleared) :
    Keeps m next :=
  ⟨settles.peers,fun peers mediated => (settles.mediated peers mediated).mpr fine⟩

theorem Settles.after {cleared : Prop} (right : Settles second third cleared)
    (left : Keeps first second) : Settles first third cleared :=
  ⟨right.peers ∘ left.peers,fun peers mediated => right.mediated (left.peers peers) (left.mediated peers mediated)⟩

theorem Settles.imp {m next : Machine} {cleared other : Prop} (settles : Settles m next cleared)
    (same : cleared ↔ other) : Settles m next other :=
  ⟨settles.peers,fun peers mediated => (settles.mediated peers mediated).trans same⟩

structure SameRecords (m next : Machine) : Prop where
  socks : next.socks = m.socks
  accepted : next.accepted = m.accepted

theorem SameRecords.peers {m next : Machine} (same : SameRecords m next) (peers : PeersAccepted m) :
    PeersAccepted next := by
  unfold PeersAccepted
  rw [same.socks,same.accepted]
  exact peers

theorem depart_sameRecords (target : Option Endpoint) (payload : Option Bytes) :
    SameRecords m (depart m target payload filtered) := by
  cases target <;> exact ⟨rfl,rfl⟩

theorem writeOut_sameRecords : SameRecords m (writeOut env m sock flags payload count dest filtered).1 := by
  unfold writeOut
  split
  · exact ⟨rfl,rfl⟩
  · exact depart_sameRecords m filtered _ _

theorem writeOut_settles (found : m.socks fd = some sock) :
    Settles m (writeOut env m sock flags payload count dest filtered).1
      (sendtoPrepare flags = 0 → ∀ target, Leaves env sock payload count dest target →
        filtered = true ∧ (Unasked sock dest → target ∈ m.accepted)) := by
  refine ⟨(writeOut_sameRecords env m sock flags payload count dest filtered).peers,fun peers mediated => ?_⟩
  have prepared : sendtoPrepare flags < 0 ↔ sendtoPrepare flags ≠ 0 := by
    unfold sendtoPrepare
    split <;> decide
  unfold writeOut
  by_cases refused : sendtoPrepare flags < 0
  · rw [if_pos refused]
    exact iff_of_true mediated fun fine => absurd fine (prepared.mp refused)
  rw [if_neg refused]
  have fine : sendtoPrepare flags = 0 := not_not.mp (fun bad => refused (prepared.mpr bad))
  have goes := socketWriteInternal_target env sock payload count dest
  dsimp only
  cases sent : (socketWriteInternal env sock payload count dest).1 with
  | none =>
    refine iff_of_true mediated fun _ target leaves => ?_
    rw [← goes target,sent] at leaves
    cases leaves
  | some dest' =>
    have only : ∀ target, Leaves env sock payload count dest target ↔ dest' = target := by
      intro target
      rw [← goes target,sent,Option.some.injEq]
    rw [mediated_append_iff m (depart m (some dest') (some payload) filtered) [⟨dest',some payload,filtered⟩] mediated
      (List.Subset.refl _) rfl]
    simp only [List.mem_singleton,forall_eq,Cleared,Option.isSome_some,forall_const,depart,only,forall_eq',fine]
    constructor
    · exact fun ⟨accepted,passed⟩ => ⟨passed,fun _ => accepted⟩
    · rintro ⟨passed,accepted⟩
      by_cases unasked : Unasked sock dest
      · exact ⟨accepted unasked,passed⟩
      · exact ⟨peers.asked found unasked ((only dest').mpr rfl),passed⟩

/-- What a vectored call must meet: nothing of it leaves. -/
def VectorCleared (env : WriteEnv) (m : Machine) (fd : Nat) (msg : Msg) (flags : UInt32) : Prop :=
  env.readable = true → sendtoPrepare flags = 0 → ∀ sock, m.socks fd = some sock → ∀ target,
    ¬ Leaves env sock msg.iov.flatten msg.iov.length msg.name target

theorem sendmsg_settles : Settles m (sendmsg env m fd msg flags).1 (VectorCleared env m fd msg flags) := by
  unfold sendmsg VectorCleared
  cases readable : env.readable with
  | false => exact (Keeps.refl m).settles (by simp)
  | true =>
    cases found : m.socks fd with
    | none => exact (Keeps.refl m).settles (by simp)
    | some sock =>
      have exact := writeOut_settles env m fd sock flags msg.iov.flatten msg.iov.length msg.name false found
      simpa using exact

def passes (detectSecrets : Bytes → Bool) (m : Machine) (buf : Bytes) : Prop :=
  (akNetFilterSend detectSecrets m.ctx (outgoing buf)).2 = 0

/-- What `sendto` must meet: data that leaves for where no connection was asked for goes to
an endpoint that has been accepted. -/
def DestinationCleared (detectSecrets : Bytes → Bool) (env : WriteEnv) (m : Machine) (fd : Nat) (buf : Bytes)
    (flags : UInt32) (dest : Option Bytes) : Prop :=
  env.readable = true → passes detectSecrets m buf → sendtoPrepare flags = 0 → ∀ sock,
    m.socks fd = some sock → Unasked sock dest → ∀ target, Leaves env sock buf buf.length dest target → target ∈ m.accepted

theorem sendto_settles (env : WriteEnv) (m : Machine) (fd : Nat) (buf : Bytes)
    (flags : UInt32) (dest : Option Bytes) :
    Settles m (sendto detectSecrets env m fd buf flags dest).1
      (DestinationCleared detectSecrets env m fd buf flags dest) := by
  have kept : Keeps m { m with ctx := (akNetFilterSend detectSecrets m.ctx (outgoing buf)).1 } := ⟨id,fun _ => id⟩
  unfold sendto DestinationCleared passes
  cases readable : env.readable with
  | false => exact (Keeps.refl m).settles (by simp)
  | true =>
    cases found : m.socks fd with
    | none => exact (Keeps.refl m).settles (by simp)
    | some sock =>
      by_cases clean : (akNetFilterSend detectSecrets m.ctx (outgoing buf)).2 = 0
      · have exact := (writeOut_settles env { m with ctx := (akNetFilterSend detectSecrets m.ctx (outgoing buf)).1 }
          fd sock flags buf buf.length dest true found).after kept
        refine Settles.imp (by simpa [clean] using exact) ?_
        constructor
        · rintro cleared _ _ prepared other ⟨⟩ unasked target leaves
          exact cleared prepared target leaves unasked
        · exact fun cleared prepared target leaves unasked => cleared rfl clean prepared sock rfl unasked target leaves
      · simp only [clean,Bool.not_true,Bool.false_eq_true,if_false,ne_eq,not_false_iff,if_true]
        exact kept.settles (by simp)

theorem setSock_keeps
    (fine : PeersAccepted m → sock.incoming = false → ∀ peer, sock.peer = some peer → peer ∈ m.accepted) :
    Keeps m (setSock m fd sock) := by
  refine ⟨?_,fun _ mediated => mediated⟩
  intro peers other found peer lookup outgoing connected
  simp only [setSock] at lookup
  by_cases same : other = fd
  · subst same
    rw [Function.update_self,Option.some.injEq] at lookup
    exact fine peers (lookup ▸ outgoing) peer (lookup ▸ connected)
  · rw [Function.update_of_ne same] at lookup
    exact peers other found peer lookup outgoing connected

theorem accept_keeps : Keeps m { m with accepted := m.accepted ++ [target] } := by
  constructor
  · exact fun peers fd sock peer found outgoing connected =>
      List.mem_append_left _ (peers fd sock peer found outgoing connected)
  · intro _ mediated
    exact (mediated_append_iff m { m with accepted := m.accepted ++ [target] } [] mediated (List.subset_append_left _ _)
      (List.append_nil _).symm).mpr (by simp)

theorem depart_bare_settles (target : Option Endpoint) :
    Settles m (depart m target none false) (∀ dest, target = some dest → dest ∈ m.accepted) := by
  refine ⟨(depart_sameRecords m false target none).peers,fun peers mediated => ?_⟩
  cases target with
  | none => exact iff_of_true mediated nofun
  | some dest =>
    rw [mediated_append_iff m (depart m (some dest) none false) [⟨dest,none,false⟩] mediated (List.Subset.refl _) rfl]
    simp [Cleared,depart]

theorem connectTcp_keeps (env : ConnectEnv) (m : Machine) (fd : Nat) (sock : NetSock) (target : Endpoint)
    (accepted : target ∈ m.accepted) : Keeps m (connectTcp env m fd sock target).1 := by
  unfold connectTcp
  split
  case h_4 =>
    split
    · exact setSock_keeps m fd _ (by simp)
    refine (setSock_keeps m fd { sock with state := .inConnection, peer := some target, incoming := false } ?_).trans
      ((depart_bare_settles _ (some target)).keeps ?_)
    · rintro _ _ peer ⟨⟩
      exact accepted
    · rintro dest ⟨⟩
      exact accepted
  all_goals exact Keeps.refl m

theorem connectUdp_keeps (env : ConnectEnv) (m : Machine) (fd : Nat) (sock : NetSock) (target : Endpoint)
    (accepted : target ∈ m.accepted) : Keeps m (connectUdp env m fd sock target).1 := by
  unfold connectUdp
  split
  · exact Keeps.refl m
  · refine setSock_keeps m fd _ ?_
    rintro _ _ peer ⟨⟩
    exact accepted

theorem connect_keeps (env : ConnectEnv) (m : Machine) (fd : Nat) (addr : Bytes) :
    Keeps m (connect env m fd addr).1 := by
  unfold connect netsockConnect
  split
  · exact Keeps.refl m
  split
  · exact Keeps.refl m
  split
  · exact Keeps.refl m
  split
  · exact Keeps.refl m
  dsimp only
  rename_i target _
  split
  · exact Keeps.refl m
  refine (accept_keeps m target).trans ?_
  split
  · exact connectTcp_keeps env _ fd _ _ (by simp)
  exact connectUdp_keeps env _ fd _ _ (by simp)

/-- What a segment must meet: a socket from `accept` sends to an endpoint that has been accepted too. -/
def NewsCleared (m : Machine) (sock : NetSock) : News → Prop
  | .segment => sock.incoming = true → ∀ peer, sock.peer = some peer → peer ∈ m.accepted
  | _ => True

theorem receiveNews_settles {m : Machine} {fd : Nat} {sock : NetSock} (found : m.socks fd = some sock) (news : News) :
    Settles m (receiveNews m fd sock news) (NewsCleared m sock news) := by
  have own : PeersAccepted m → sock.incoming = false → ∀ peer, sock.peer = some peer → peer ∈ m.accepted :=
    fun peers outgoing peer connected => peers fd sock peer found outgoing connected
  have moved (state : SockState) : Settles m (setSock m fd { sock with state := state }) True :=
    (setSock_keeps m fd { sock with state := state } own).settles trivial
  have dropped (state : SockState) : Settles m (setSock m fd { sock with state := state, peer := none }) True :=
    (setSock_keeps m fd { sock with state := state, peer := none } (by simp)).settles trivial
  cases news with
  | established =>
    dsimp only [receiveNews]
    split
    · split
      · exact moved .connected
      · exact (Keeps.refl m).settles trivial
    · exact dropped .created
    · exact (Keeps.refl m).settles trivial
  | broken => exact moved .undefined
  | interrupted =>
    dsimp only [receiveNews]
    split
    · exact moved .abortingConnection
    · exact dropped .created
    · exact (Keeps.refl m).settles trivial
  | segment =>
    have settles := depart_bare_settles m sock.peer
    refine ⟨settles.peers,fun peers mediated => (settles.mediated peers mediated).trans ⟨fun all _ => all,?_⟩⟩
    intro cleared
    cases incoming : sock.incoming with
    | true => exact cleared incoming
    | false => exact own peers incoming

/-- The messages a vectored call or a waiting one is about to send. -/
def EventCleared (detectSecrets : Bytes → Bool) (m : Machine) : Event → Prop
  | .connect _ _ _ => True
  | .sendto env fd buf flags dest => DestinationCleared detectSecrets env m fd buf flags dest
  | .sendmsg env fd msg flags => VectorCleared env m fd msg flags
  | .sendmmsg env fd msgs flags => ∀ first ∈ msgs.head?, VectorCleared env m fd first flags
  | .resume env index => ∀ job ∈ m.jobs[index]?, VectorCleared env m job.fd job.next job.flags
  | .news fd news => ∀ sock ∈ m.socks fd, sock.type = .stream → NewsCleared m sock news

theorem sendmmsgComplete_records :
    SameRecords sent.1 (sendmmsgComplete env sent fd flags rest) ∧
      (sendmmsgComplete env sent fd flags rest).departed = sent.1.departed := by
  unfold sendmmsgComplete
  split
  · exact ⟨⟨rfl,rfl⟩,rfl⟩
  · cases rest <;> exact ⟨⟨rfl,rfl⟩,rfl⟩

theorem sendmmsgComplete_settles :
    Settles m (sendmmsgComplete env (sendmsg env m fd msg flags) fd flags rest) (VectorCleared env m fd msg flags) := by
  have settles := sendmsg_settles env m fd msg flags
  obtain ⟨same,departed⟩ := sendmmsgComplete_records env (sendmsg env m fd msg flags) fd flags rest
  refine ⟨same.peers ∘ settles.peers,fun peers mediated => ?_⟩
  rw [← settles.mediated peers mediated]
  unfold Mediated Cleared
  rw [departed,same.accepted]

theorem eventStep_settles (m : Machine) (event : Event) :
    Settles m (eventStep detectSecrets m event) (EventCleared detectSecrets m event) := by
  cases event with
  | connect env fd addr => exact (connect_keeps env m fd addr).settles trivial
  | sendto env fd buf flags dest => exact sendto_settles detectSecrets env m fd buf flags dest
  | sendmsg env fd msg flags => exact sendmsg_settles env m fd msg flags
  | sendmmsg env fd msgs flags =>
    cases msgs with
    | nil => exact (Keeps.refl m).settles nofun
    | cons first rest => exact (sendmmsgComplete_settles env m fd first flags rest).imp (by simp [EventCleared])
  | resume env index =>
    dsimp only [eventStep,sendmmsgNext,EventCleared]
    cases found : m.jobs[index]? with
    | none => exact (Keeps.refl m).settles (by simp)
    | some job =>
      have taken : Keeps m { m with jobs := m.jobs.eraseIdx index } := ⟨id,fun _ => id⟩
      have settles := sendmmsgComplete_settles env { m with jobs := m.jobs.eraseIdx index } job.fd job.next job.flags job.rest
      exact (settles.after taken).imp (by simp [VectorCleared])
  | news fd news =>
    dsimp only [eventStep,EventCleared]
    cases found : m.socks fd with
    | none => exact (Keeps.refl m).settles nofun
    | some sock =>
      dsimp only
      split
      · rename_i stream
        exact (receiveNews_settles found news).imp (by simp [stream])
      · rename_i datagram
        exact (Keeps.refl m).settles (by simp [datagram])

/-- In every run of calls on new and accepted sockets, packets leave only for endpoints the gate
has accepted, and with payloads whose own send the filter accepted, exactly if nothing leaves through a
vectored call, and what leaves with an explicit destination or through a socket from `accept` goes to
an endpoint accepted before. Connecting always meets the condition, and so does sending to the
remote end of a socket that connected. -/
theorem socket_calls_mediated_iff (ctx : Option NetContext)
    (origins : Nat → Option Origin) (events : List Event) :
    Run.Throughout (eventStep detectSecrets) Mediated (opened ctx origins) events ↔
      Run.Guarded (eventStep detectSecrets) (EventCleared detectSecrets) (opened ctx origins) events := by
  have peers : PeersAccepted (opened ctx origins) := by
    intro fd sock peer found outgoing connected
    obtain ⟨origin,_,rfl⟩ := Option.map_eq_some_iff.mp found
    cases origin with
    | made => simp [Origin.sock] at connected
    | taken => cases outgoing
  exact Run.throughout_iff_guarded (fun m event => (eventStep_settles detectSecrets m event).peers)
    (fun m event => (eventStep_settles detectSecrets m event).mediated) _ events peers (by simp [Mediated,opened])

def plainWrite : WriteEnv := ⟨true,false,true,false,0,65535,0,true⟩

def someResolver : Bytes := [2,0,0,53,203,0,113,9] ++ List.replicate 8 0

/-- Under an empty rule table, which accepts no endpoint, a datagram with an explicit
destination leaves all the same; a vectored one does so without the filter. -/
theorem unchecked_datagrams_leave :
    let ctx : NetContext := ⟨none,some [],none⟩
    let m := opened (some ctx) fun _ => some (.made .datagram .inet false)
    let target : Endpoint := ⟨.v4 ⟨[203,0,113,9],rfl⟩,53⟩
    akNetPolicyActive (some ctx) = true ∧
    akNetCheckConnect (some ctx) (some (hostText target.addr)) target.port = -eAcces ∧
    (sendto (fun _ => true) plainWrite m 3 [] 0 (some someResolver)).1.departed = [⟨target,some [],true⟩] ∧
    (akNetFilterSend (fun _ => true) (some ctx) (outgoing (ascii "secret"))).2 = akEDlpBlock ∧
    (sendmsg plainWrite m 3 ⟨[ascii "secret"],some someResolver⟩ 0).1.departed = [⟨target,some (ascii "secret"),false⟩] :=
  ⟨by decide,by decide,by decide,by decide,by decide⟩

end AuthorityKernel.Net
