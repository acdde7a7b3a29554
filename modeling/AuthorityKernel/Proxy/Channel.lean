import AuthorityKernel.Library.Run
import AuthorityKernel.Proxy.Requests

/-! Operations of the proxy over the one serial line they share. An operation writes its
request and later takes the next line that has come in, whoever it was meant for. A host
that answers every line in order, however late, is therefore not enough for an operation
to get its own answer: an answer that was not waited for stays in the line. -/
namespace AuthorityKernel.Proxy
open Library Library.Run

/-- `connected` is how the line was found when the proxy was set up. -/
structure ProxyState where
  initialized : Bool
  connected : Bool
  requestId : UInt64

structure SendEnv where
  reqAlloc : Bool
  serial : Bool
  text : Int
  newline : Int

/-- The code of a write; the request is in the line once its text has been taken, and is
a line of its own once the newline has. -/
def virtioWrite (env : SendEnv) : Int :=
  if !env.serial then akProxyENotConnected
  else if env.text < 0 then env.text
  else if env.newline < 0 then env.newline
  else env.text

def vserialTxBufsize : Nat := 4096

def withoutRequest : ProxyRequest → Option Reply
  | .tcpSend _ [] => some (.written 0)
  | .tcpRecv _ maxlen => if maxlen = 0 then some (.received []) else none
  | _ => none

inductive Begun
  | finished (result : Except Int Reply)
  | cut (text : Bytes) (code : Int)
  | sent (text : Bytes)

def beginRequest (env : SendEnv) (request : ProxyRequest) (s : ProxyState) : ProxyState × Begun :=
  if !s.initialized || !s.connected then (s,.finished (.error akProxyENotConnected))
  else
    match withoutRequest request with
    | some reply => (s,.finished (.ok reply))
    | none =>
        if !env.reqAlloc then (s,.finished (.error (-eNomem)))
        else
          let text := (requestText s.requestId request).take vserialTxBufsize
          let s := { s with requestId := s.requestId + 1 }
          if !env.serial || env.text < 0 then (s,.finished (.error (virtioWrite env)))
          else if env.newline < 0 then (s,.cut text (virtioWrite env))
          else (s,.sent text)

/-- What the driver does for a read: it waits for a line, gives up, or has lost the host. -/
inductive DriverRead
  | waits
  | late
  | lost

structure ReceiveEnv where
  respAlloc : Bool
  serial : Bool
  lineAlloc : Bool
  driver : DriverRead
  reply : ReplyEnv

def maxLine : Nat := 64 * 1024

def serialLine (stream : Bytes) : Bytes := stream.take (min maxLine ((stream.takeWhile (· != 10)).length + 1))

def withoutNewline (line : Bytes) : Bytes := if line.getLast? = some 10 then line.dropLast else line

def answerLine (answer : Bytes) : Bytes := withoutNewline (serialLine (answer ++ [10]))

abbrev Unread := List (Nat × Bytes)

def virtioSerialReadLine : Unread → Option (Bytes × Unread)
  | [] => none
  | (number,stream) :: rest =>
      let line := serialLine stream
      let left := stream.drop line.length
      some (line,if left = [] then rest else (number,left) :: rest)

def virtioReadLine (env : ReceiveEnv) (unread : Unread) : Option (Except Int Bytes × Unread) :=
  if !env.serial then some (.error akProxyENotConnected,unread)
  else if !env.lineAlloc then some (.error (-eNomem),unread)
  else
    match env.driver with
    | .lost => some (.error (-eNotconn),unread)
    | .late => some (.error akProxyETimeout,unread)
    | .waits => (virtioSerialReadLine unread).map fun read => (.ok (withoutNewline read.1),read.2)

def finishRequest (env : ReceiveEnv) (request : ProxyRequest) (unread : Unread) : Option (Except Int Reply × Unread) :=
  if !env.respAlloc then some (.error (-eNomem),unread)
  else (virtioReadLine env unread).map fun read => (read.1.bind (readReply env.reply request),read.2)

structure ExchangeEnv where
  send : SendEnv
  respAlloc : Bool
  line : Except Int Bytes
  reply : ReplyEnv

structure Exchanged where
  proxy : ProxyState
  reached : Bool
  result : Except Int Reply

def exchange (env : ExchangeEnv) (request : ProxyRequest) (s : ProxyState) : Exchanged :=
  let begun := beginRequest env.send request s
  match begun.2 with
  | .finished result => ⟨begun.1,false,result⟩
  | .cut _ code => ⟨begun.1,true,.error code⟩
  | .sent _ => ⟨begun.1,true,if !env.respAlloc then .error (-eNomem) else env.line.bind (readReply env.reply request)⟩

def akProxyConnected (serial : Bool) (s : ProxyState) : Bool := s.initialized && serial

/-- The serial line with the operations on it, numbered as they were called. `unfinished`
is text without its newline, `lines` what the host has not answered yet, `answers` all
it has ever sent, and `waiting` the operations between their write and their read. -/
structure Link where
  proxy : ProxyState
  called : Nat
  unfinished : Bytes
  lines : List (Nat × Bytes)
  answers : List (Nat × Bytes)
  unread : Unread
  waiting : List (Nat × ProxyRequest)
  results : List (Nat × ProxyRequest × Except Int Reply)

inductive Event
  | call (env : SendEnv) (request : ProxyRequest)
  | answer (text : Bytes)
  | receive (number : Nat) (env : ReceiveEnv)

def callStep (env : SendEnv) (request : ProxyRequest) (link : Link) : Link :=
  let begun := beginRequest env request link.proxy
  let next := { link with proxy := begun.1, called := link.called + 1 }
  match begun.2 with
  | .finished result => { next with results := link.results ++ [(link.called,request,result)] }
  | .cut text code =>
      { next with
        unfinished := link.unfinished ++ text
        results := link.results ++ [(link.called,request,.error code)] }
  | .sent text =>
      { next with
        unfinished := []
        lines := link.lines ++ [(link.called,link.unfinished ++ text)]
        waiting := link.waiting ++ [(link.called,request)] }

def answerStep (text : Bytes) (link : Link) : Link :=
  match link.lines with
  | [] => link
  | (number,_) :: rest =>
      { link with
        lines := rest
        answers := link.answers ++ [(number,text)]
        unread := link.unread ++ [(number,text ++ [10])] }

def receiveStep (number : Nat) (env : ReceiveEnv) (link : Link) : Link :=
  match link.waiting.find? (·.1 == number) with
  | none => link
  | some (_,request) =>
      match finishRequest env request link.unread with
      | none => link
      | some (result,unread) =>
          { link with
            unread := unread
            waiting := link.waiting.eraseP (·.1 == number)
            results := link.results ++ [(number,request,result)] }

def step (link : Link) : Event → Link
  | .call env request => callStep env request link
  | .answer text => answerStep text link
  | .receive number env => receiveStep number env link

def start (proxy : ProxyState) : Link := ⟨proxy,0,[],[],[],[],[],[]⟩

/-- A success is what the operation makes of the answer to its own request, if it sent
one. -/
def Matched (link : Link) : Prop :=
  ∀ number request reply, (number,request,.ok reply) ∈ link.results →
    withoutRequest request = some reply ∨
      ∃ answer env, (number,answer) ∈ link.answers ∧ readReply env request (answerLine answer) = .ok reply

def Sends (env : SendEnv) (request : ProxyRequest) (proxy : ProxyState) : Prop :=
  proxy.initialized = true ∧ proxy.connected = true ∧ withoutRequest request = none ∧ env.reqAlloc = true ∧
    env.serial = true ∧ 0 ≤ env.text ∧ 0 ≤ env.newline

/-- A request is sent only when no operation waits and every answer has been read to its
end. -/
def Settled (link : Link) : Event → Prop
  | .call env request =>
      Sends env request link.proxy → link.waiting = [] ∧ link.lines = [] ∧ link.unread = []
  | _ => True

def Aligned (link : Link) : Prop :=
  link.waiting = [] ∨ ∃ number request, link.waiting = [(number,request)] ∧
    ((∃ line, link.lines = [(number,line)]) ∧ link.unread = [] ∨
      link.lines = [] ∧ ∃ answer, (number,answer) ∈ link.answers ∧ link.unread = [(number,answer ++ [10])])

variable {text : Bytes} {event : Event} {link : Link} {number : Nat} {request : ProxyRequest} {proxy : ProxyState}
  {reply : Reply} {env : SendEnv}

theorem beginRequest_sent (sent : (beginRequest env request proxy).2 = .sent text) : Sends env request proxy := by
  unfold beginRequest at sent
  split at sent
  · contradiction
  rename_i up
  rw [Bool.not_eq_true,Bool.or_eq_false_iff,Bool.not_eq_false',Bool.not_eq_false'] at up
  split at sent
  · contradiction
  rename_i asks
  split at sent
  · contradiction
  rename_i room
  split at sent
  · contradiction
  rename_i taken
  split at sent
  · contradiction
  rename_i ended
  simp only [Bool.or_eq_true,Bool.not_eq_true',decide_eq_true_eq,not_or,Bool.not_eq_false,not_lt] at taken
  exact ⟨up.1,up.2,asks,by simpa using room,taken.1,taken.2,not_lt.mp ended⟩

theorem beginRequest_finished (finished : (beginRequest env request proxy).2 = .finished (.ok reply)) :
    withoutRequest request = some reply := by
  unfold beginRequest at finished
  split at finished
  · cases finished
  split at finished
  · rename_i known
    rw [known]
    injection finished with same
    exact congrArg some (Except.ok.inj same)
  split at finished
  · cases finished
  dsimp only at finished
  split at finished
  · cases finished
  split at finished <;> cases finished

theorem finishRequest_ok {env : ReceiveEnv} {unread left : Unread}
    (finished : finishRequest env request unread = some (.ok reply,left)) :
    ∃ number stream rest, unread = (number,stream) :: rest ∧
      readReply env.reply request (withoutNewline (serialLine stream)) = .ok reply := by
  unfold finishRequest virtioReadLine at finished
  split at finished
  · cases finished
  split at finished
  · cases finished
  split at finished
  · cases finished
  split at finished
  · cases finished
  · cases finished
  cases unread with
  | nil => cases finished
  | cons front rest =>
    obtain ⟨number,stream⟩ := front
    simp only [virtioSerialReadLine,Option.map_some,Option.some.injEq,Prod.mk.injEq] at finished
    exact ⟨number,stream,rest,rfl,finished.1⟩

theorem callStep_aligned (settled : Settled link (.call env request)) (aligned : Aligned link) :
    Aligned (callStep env request link) := by
  unfold callStep
  dsimp only
  split
  · exact aligned
  · exact aligned
  rename_i text sent
  obtain ⟨idle,answered,drained⟩ := settled (beginRequest_sent sent)
  refine Or.inr ⟨link.called,request,?_,Or.inl ⟨⟨link.unfinished ++ text,?_⟩,drained⟩⟩
  · rw [idle,List.nil_append]
  · rw [answered,List.nil_append]

theorem answerStep_aligned (aligned : Aligned link) : Aligned (answerStep text link) := by
  unfold answerStep
  split
  · exact aligned
  rename_i number line rest pending
  obtain idle | ⟨asked,request,waits,⟨⟨other,only⟩,drained⟩ | ⟨none,_⟩⟩ := aligned
  · exact Or.inl idle
  · rw [only] at pending
    cases pending
    refine Or.inr ⟨number,request,waits,Or.inr ⟨rfl,text,?_,?_⟩⟩
    · exact List.mem_append_right _ (List.mem_singleton_self _)
    · rw [drained,List.nil_append]
  · rw [none] at pending
    contradiction

theorem receiveStep_aligned {env : ReceiveEnv} (aligned : Aligned link) : Aligned (receiveStep number env link) := by
  unfold receiveStep
  split
  · exact aligned
  rename_i found
  split
  · exact aligned
  obtain idle | ⟨asked,request,waits,_⟩ := aligned
  · rw [idle] at found
    contradiction
  rw [waits,List.find?_singleton] at found
  split at found
  · rename_i same
    have gone : link.waiting.eraseP (·.1 == number) = [] := by
      rw [waits]
      exact List.eraseP_cons_of_pos same
    exact Or.inl gone
  · contradiction

theorem step_aligned (settled : Settled link event) (aligned : Aligned link) : Aligned (step link event) := by
  cases event with
  | call env request => exact callStep_aligned settled aligned
  | answer text => exact answerStep_aligned aligned
  | receive number env => exact receiveStep_aligned aligned

theorem Matched.of_results {next : Link} (matched : Matched link) (answers : link.answers ⊆ next.answers)
    (added : ∀ number request reply, (number,request,.ok reply) ∈ next.results →
      (number,request,.ok reply) ∈ link.results ∨ withoutRequest request = some reply ∨
        ∃ answer env, (number,answer) ∈ next.answers ∧ readReply env request (answerLine answer) = .ok reply) :
    Matched next := by
  intro number request reply member
  obtain old | new := added number request reply member
  · obtain alone | ⟨answer,env,given,read⟩ := matched number request reply old
    · exact Or.inl alone
    · exact Or.inr ⟨answer,env,answers given,read⟩
  · exact new

theorem callStep_matched (matched : Matched link) : Matched (callStep env request link) := by
  unfold callStep
  dsimp only
  split
  · rename_i result ended
    refine matched.of_results (List.Subset.refl _) fun number asked reply member => ?_
    obtain old | new := List.mem_append.mp member
    · exact Or.inl old
    · rw [List.mem_singleton] at new
      cases new
      exact Or.inr (Or.inl (beginRequest_finished ended))
  · refine matched.of_results (List.Subset.refl _) fun number asked reply member => ?_
    obtain old | new := List.mem_append.mp member
    · exact Or.inl old
    · rw [List.mem_singleton] at new
      cases new
  · exact matched

theorem answerStep_matched (matched : Matched link) : Matched (answerStep text link) := by
  unfold answerStep
  split
  · exact matched
  · exact matched.of_results (List.subset_append_left _ _) fun number request reply member => Or.inl member

theorem receiveStep_matched {env : ReceiveEnv} (aligned : Aligned link) (matched : Matched link) :
    Matched (receiveStep number env link) := by
  unfold receiveStep
  split
  · exact matched
  rename_i key request found
  split
  · exact matched
  rename_i result left finished
  refine matched.of_results (List.Subset.refl _) fun other asked reply member => ?_
  obtain old | new := List.mem_append.mp member
  · exact Or.inl old
  rw [List.mem_singleton] at new
  cases new
  obtain ⟨front,stream,rest,first,read⟩ := finishRequest_ok finished
  have here := List.find?_some found
  -- the operation is the one that waits, so what came in is its own answer
  obtain idle | ⟨waiter,request',waits,⟨_,drained⟩ | ⟨_,answer,given,only⟩⟩ := aligned
  · rw [idle] at found
    contradiction
  · rw [drained] at first
    contradiction
  rw [only] at first
  cases first
  rw [waits,List.find?_singleton] at found
  split at found
  · cases found
    refine Or.inr (Or.inr ⟨answer,env.reply,?_,read⟩)
    rw [← eq_of_beq here]
    exact given
  · contradiction

theorem step_matched (aligned : Aligned link) (matched : Matched link) : Matched (step link event) := by
  cases event with
  | call env request => exact callStep_matched matched
  | answer text => exact answerStep_matched matched
  | receive number env => exact receiveStep_matched aligned matched

/-- If requests are only sent on a line that has come to rest, every success is taken from
the answer to its own request. -/
theorem replies_matched (proxy : ProxyState) (events : List Event)
    (settled : Guarded step Settled (start proxy) events) : Throughout step Matched (start proxy) events := by
  have both : Throughout step (fun link => Aligned link ∧ Matched link) (start proxy) events := by
    refine throughout_of_guarded ?_ (start proxy) events settled ⟨Or.inl rfl,?_⟩
    · exact fun link event settled held => ⟨step_aligned settled held.1,step_matched held.1 held.2⟩
    · intro number request reply member
      cases member
  exact both.imp fun link held => held.2

def pathOf (name : String) : CString := .ofBuffer (ascii name)

def written : SendEnv := ⟨true,true,0,0⟩

def reads : ReceiveEnv := ⟨true,true,true,.waits,⟨0,0,true⟩⟩

def contentAnswer (id content : String) : Bytes :=
  ascii "\x7b\"id\":\"" ++ ascii id ++ ascii "\",\"ok\":true,\"data\":\x7b\"content\":\"" ++ ascii content ++
    ascii "\"\x7d\x7d"

def awaitedRun : List Event :=
  [.call written (.fsRead (pathOf "/a")),.receive 0 reads,.answer (contentAnswer "0000000000000001" "first"),
    .receive 0 reads,.call written (.fsRead (pathOf "/b")),.answer (contentAnswer "0000000000000002" "second"),
    .receive 1 reads]

/-- The first answer comes late, and the second request is sent when it has been read. -/
theorem awaited_reads_matched :
    Throughout step Matched (start ⟨true,true,1⟩) awaitedRun ∧
      (run step (start ⟨true,true,1⟩) awaitedRun).results =
        [(0,.fsRead (pathOf "/a"),.ok (.content (some (ascii "first")))),
          (1,.fsRead (pathOf "/b"),.ok (.content (some (ascii "second"))))] := by
  refine ⟨replies_matched _ _ ⟨fun _ => ⟨rfl,rfl,rfl⟩,trivial,trivial,trivial,fun _ => ?_,trivial,trivial,trivial⟩,?_⟩
  · decide +kernel
  · decide +kernel

def lateRun : List Event :=
  [.call written (.fsRead (pathOf "/a")),.receive 0 { reads with lineAlloc := false },
    .answer (contentAnswer "0000000000000001" "first"),.call written (.fsRead (pathOf "/b")),
    .answer (contentAnswer "0000000000000002" "second"),.receive 1 reads]

theorem second_read (env : ReplyEnv) :
    readReply env (.fsRead (pathOf "/b")) (answerLine (contentAnswer "0000000000000002" "second")) =
      .ok (.content (some (ascii "second"))) := by
  have line : answerLine (contentAnswer "0000000000000002" "second") = contentAnswer "0000000000000002" "second" := by
    decide +kernel
  have granted : jsonGetBool "ok" (contentAnswer "0000000000000002" "second") = some true := by decide +kernel
  have found : Json.valueOf (ascii "data") (contentAnswer "0000000000000002" "second") =
      some (ascii "\x7b\"content\":\"second\"\x7d\x7d") := by decide +kernel
  have data : jsonGetValue env.behind "data" (contentAnswer "0000000000000002" "second") =
      some (ascii "\x7b\"content\":\"second\"\x7d") := by
    unfold jsonGetValue
    rw [found]
    simp [bracketText,ascii,Json.quoteByte,Json.backslashByte]
  have content : jsonGetValue env.behindData "content" (ascii "\x7b\"content\":\"second\"\x7d") =
      some (ascii "\"second\"") := by
    simp [jsonGetValue,Json.valueOf,Json.afterKey,Json.isSeparator,Json.stringBody,ascii,Json.quoteByte,Json.backslashByte]
  have inner : unquoted (ascii "\"second\"") = ascii "second" := by decide +kernel
  rw [line,readReply,if_pos granted,data,replyOf,contentReply,Option.bind_some,content,Option.map_some,inner]

/-- The first operation finds no memory for its line, and the second gets the content of
the first one's file. -/
theorem late_answer_returned :
    let link := run step (start ⟨true,true,1⟩) lateRun
    link.results = [(0,.fsRead (pathOf "/a"),.error (-eNomem)),
        (1,.fsRead (pathOf "/b"),.ok (.content (some (ascii "first"))))] ∧
      link.answers = [(0,contentAnswer "0000000000000001" "first"),(1,contentAnswer "0000000000000002" "second")] ∧
      ¬Matched link := by
  intro link
  have results : link.results = [(0,.fsRead (pathOf "/a"),.error (-eNomem)),
      (1,.fsRead (pathOf "/b"),.ok (.content (some (ascii "first"))))] := by decide +kernel
  have answers : link.answers = [(0,contentAnswer "0000000000000001" "first"),
      (1,contentAnswer "0000000000000002" "second")] := by decide +kernel
  refine ⟨results,answers,fun matched => ?_⟩
  have listed : (1,.fsRead (pathOf "/b"),.ok (.content (some (ascii "first")))) ∈ link.results := by
    rw [results]
    exact List.mem_cons_of_mem _ (List.mem_singleton_self _)
  obtain alone | ⟨answer,env,given,read⟩ := matched 1 _ _ listed
  · cases alone
  rw [answers] at given
  have own : answer = contentAnswer "0000000000000002" "second" := by simpa using given
  rw [own,second_read] at read
  exact absurd read (by decide +kernel)

end AuthorityKernel.Proxy
