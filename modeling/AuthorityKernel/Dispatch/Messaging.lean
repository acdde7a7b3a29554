import AuthorityKernel.Dispatch.Grant
import AuthorityKernel.Dispatch.Registry

/-! Messages between agents over a run of sends and receives. Beside the kernel stand
two records for each inbox, of the messages whose sending succeeded and of those
handed out. -/
namespace AuthorityKernel.Dispatch
open Library

inductive MessageCall
  | send (env : HandlerEnv) (index : Nat) (req : AkRequest)
  | recv (env : HandlerEnv) (index : Nat) (req : AkRequest)

def succeeded (answer : Option AkResponse) : Bool := answer.any fun response => response.status == .ok

/-- `steady` says that sends which did not succeed left all inboxes as they were. -/
structure Post where
  kernel : Kernel
  sent : Nat → List Message
  returned : Nat → List Message
  steady : Prop

def record (log : Nat → List Message) (slot : Option Nat) (messages : List Message) : Nat → List Message :=
  match slot with
  | none => log
  | some slot => Function.update log slot (log slot ++ messages)

def sendSlot (env : HandlerEnv) (k : Kernel) (req : AkRequest) : Option Nat :=
  akAgentRegistryFind k (sendRecipient env.send.stack req.args)

def sendMessage (env : HandlerEnv) (ctx : AgentContext) (req : AkRequest) : Message :=
  ⟨ctx.pid,sendRecipient env.send.stack req.args,req.seq,env.send.clock / 1000000,req.args⟩

def handedOut (k : Kernel) (ctx : AgentContext) : List Message :=
  (((akAgentRegistryFind k ctx.pid).bind k.inboxAt).map fun inbox => inbox.messages.take recvLimit).getD []

def postSend (env : HandlerEnv) (post : Post) (ctx : AgentContext) (req : AkRequest) : Post :=
  let answer := akHandleSend env post.kernel ctx req
  if succeeded answer.2 then
    { post with
      kernel := answer.1
      sent := record post.sent (sendSlot env post.kernel req) [sendMessage env ctx req] }
  else { post with kernel := answer.1, steady := post.steady ∧ answer.1.inboxAt = post.kernel.inboxAt }

def postRecv (env : HandlerEnv) (post : Post) (ctx : AgentContext) (req : AkRequest) : Post :=
  let answer := akHandleRecv env post.kernel ctx req
  if succeeded answer.2 then
    { post with
      kernel := answer.1
      returned := record post.returned (akAgentRegistryFind post.kernel ctx.pid) (handedOut post.kernel ctx) }
  else { post with kernel := answer.1 }

def postStep (post : Post) : MessageCall → Post
  | .send env index req =>
      match post.kernel.contexts[index]? with
      | none => post
      | some ctx => postSend env post ctx req
  | .recv env index req =>
      match post.kernel.contexts[index]? with
      | none => post
      | some ctx => postRecv env post ctx req

/-- What was handed out of an inbox and what is still queued make up what was sent, in
order; the count is the number queued; and failed sends left no trace. -/
def Lossless (post : Post) : Prop :=
  post.steady ∧ ∀ slot inbox, post.kernel.inboxAt slot = some inbox →
    post.returned slot ++ inbox.messages = post.sent slot ∧ inbox.count.toNat = inbox.messages.length

def Tailed (k : Kernel) : Prop :=
  ∀ slot inbox, k.inboxAt slot = some inbox → inbox.hasTail = !inbox.messages.isEmpty

theorem inboxAt_updateInbox (k : Kernel) (slot other : Nat) (change : Inbox → Inbox) :
    (k.updateInbox slot change).inboxAt other =
      if slot = other then (k.inboxAt slot).map change else k.inboxAt other := by
  unfold Kernel.inboxAt Kernel.updateInbox
  rw [List.getElem?_modify]
  by_cases same : slot = other
  · subst same
    rw [if_pos rfl]
    cases k.agents.1[slot]? with
    | none => simp
    | some entry => cases entry <;> simp
  · simp [same]

/-- The point of no return of a send: the message is made and goes into an inbox. -/
structure Linked (env : HandlerEnv) (k : Kernel) (req : AkRequest) (slot : Nat) (inbox : Inbox) : Prop where
  args : req.args.isSome = true
  found : sendSlot env k req = some slot
  held : k.inboxAt slot = some inbox
  room : inbox.count < inbox.maxSize
  payloadAlloc : env.send.payloadAlloc = true

variable {inbox : Inbox} {slot : Nat}

section

variable (env : HandlerEnv) (k : Kernel) (ctx : AgentContext) (req : AkRequest)

theorem akHandleSend_linked (linked : Linked env k req slot inbox) :
    (akHandleSend env k ctx req).1 = k.updateInbox slot (·.enqueue (sendMessage env ctx req)) ∧
    succeeded (akHandleSend env k ctx req).2 = env.responseAlloc := by
  obtain ⟨args,given⟩ := Option.isSome_iff_exists.mp linked.args
  have found := linked.found
  unfold sendSlot at found
  unfold akHandleSend sendMessage
  rw [given] at found ⊢
  simp only [found,linked.held,ge_iff_le,UInt64.not_le.mpr linked.room,linked.payloadAlloc,if_false,Bool.not_true,
    Bool.false_eq_true]
  cases alloc : env.responseAlloc <;> simp [succeed,akResponseSuccess,alloc,succeeded,response]

theorem akHandleSend_unlinked (unlinked : ∀ slot inbox, ¬ Linked env k req slot inbox) :
    (akHandleSend env k ctx req).1 = k ∧ succeeded (akHandleSend env k ctx req).2 = false := by
  have failed : ∀ code, (fail env k req code).1 = k ∧ succeeded (fail env k req code).2 = false := by
    intro code
    cases alloc : env.responseAlloc <;> simp [fail,akResponseError,alloc,succeeded,response]
  unfold akHandleSend
  cases given : req.args with
  | none => exact failed _
  | some args =>
    dsimp only
    split
    · exact failed _
    rename_i slot found
    split
    · exact failed _
    rename_i inbox here
    split
    · exact failed _
    rename_i room
    split
    · exact failed _
    rename_i payload
    refine absurd ⟨?_,?_,here,UInt64.not_le.mp room,by simpa using payload⟩ (unlinked slot inbox)
    · simp [given]
    · rw [sendSlot,given]
      exact found

theorem akHandleRecv_found (found : akAgentRegistryFind k ctx.pid = some slot) (held : k.inboxAt slot = some inbox) :
    (akHandleRecv env k ctx req).1 = k.updateInbox slot Inbox.dequeue ∧
    succeeded (akHandleRecv env k ctx req).2 = env.responseAlloc ∧
    handedOut k ctx = inbox.messages.take recvLimit := by
  unfold akHandleRecv handedOut
  simp only [found,held]
  cases alloc : env.responseAlloc <;> simp [succeed,akResponseSuccess,alloc,succeeded,response,held]

theorem akHandleRecv_absent (absent : (akAgentRegistryFind k ctx.pid).bind k.inboxAt = none) :
    (akHandleRecv env k ctx req).1 = k ∧ handedOut k ctx = [] := by
  refine ⟨?_,by simp [handedOut,absent]⟩
  unfold akHandleRecv
  cases found : akAgentRegistryFind k ctx.pid with
  | none => simp
  | some slot =>
    rw [found,Option.bind_some] at absent
    simp [absent]

end

theorem record_nil (log : Nat → List Message) (slot : Option Nat) : record log slot [] = log := by
  cases slot <;> simp [record]

structure Sound (post : Post) : Prop where
  lossless : Lossless post
  tailed : Tailed post.kernel

theorem Sound.update {post : Post} (sound : Sound post) (slot : Nat) (inbox : Inbox) (change : Inbox → Inbox)
    (held : post.kernel.inboxAt slot = some inbox) (next : Post) (steady : next.steady)
    (kernel : next.kernel = post.kernel.updateInbox slot change)
    (sent : ∀ other, other ≠ slot → next.sent other = post.sent other)
    (returned : ∀ other, other ≠ slot → next.returned other = post.returned other)
    (content : next.returned slot ++ (change inbox).messages = next.sent slot)
    (count : (change inbox).count.toNat = (change inbox).messages.length)
    (tail : (change inbox).hasTail = !(change inbox).messages.isEmpty) : Sound next := by
  have lookup : ∀ other found, next.kernel.inboxAt other = some found →
      (other = slot ∧ found = change inbox) ∨ (other ≠ slot ∧ post.kernel.inboxAt other = some found) := by
    intro other found here
    rw [kernel,inboxAt_updateInbox] at here
    by_cases same : slot = other
    · subst same
      rw [if_pos rfl,held,Option.map_some,Option.some.injEq] at here
      exact Or.inl ⟨rfl,here.symm⟩
    · rw [if_neg same] at here
      exact Or.inr ⟨Ne.symm same,here⟩
  refine ⟨⟨steady,fun other found here => ?_⟩,fun other found here => ?_⟩
  · rcases lookup other found here with ⟨rfl,rfl⟩ | ⟨differs,before⟩
    · exact ⟨content,count⟩
    · rw [sent other differs,returned other differs]
      exact sound.lossless.2 other found before
  · rcases lookup other found here with ⟨rfl,rfl⟩ | ⟨_,before⟩
    · exact tail
    · exact sound.tailed other found before

theorem enqueue_messages (message : Message) (tailed : inbox.hasTail = !inbox.messages.isEmpty) :
    (inbox.enqueue message).messages = inbox.messages ++ [message] := by
  unfold Inbox.enqueue
  cases queued : inbox.messages <;> simp [tailed,queued]

theorem enqueue_count (inbox : Inbox) (message : Message) (room : inbox.count < inbox.maxSize) :
    (inbox.enqueue message).count.toNat = inbox.count.toNat + 1 := by
  have bound := inbox.maxSize.toNat_lt
  have less := UInt64.lt_iff_toNat_lt.mp room
  have one : (1 : UInt64).toNat = 1 := rfl
  unfold Inbox.enqueue
  rw [UInt64.toNat_add]
  omega

theorem dequeue_count (inbox : Inbox) (counted : inbox.count.toNat = inbox.messages.length) :
    inbox.dequeue.count.toNat = inbox.dequeue.messages.length := by
  have few : (inbox.messages.take recvLimit).length ≤ inbox.messages.length :=
    (List.take_sublist _ _).length_le
  have bound := inbox.count.toNat_lt
  have small : (UInt64.ofNat (inbox.messages.take recvLimit).length).toNat = (inbox.messages.take recvLimit).length :=
    UInt64.toNat_ofNat_of_lt (by unfold UInt64.size; omega)
  have less : UInt64.ofNat (inbox.messages.take recvLimit).length ≤ inbox.count := by
    rw [UInt64.le_iff_toNat_le,small]
    omega
  unfold Inbox.dequeue
  rw [UInt64.toNat_sub_of_le _ _ less,small,counted,List.length_drop,List.length_take]
  omega

theorem dequeue_tail (inbox : Inbox) (tailed : inbox.hasTail = !inbox.messages.isEmpty) :
    inbox.dequeue.hasTail = !inbox.dequeue.messages.isEmpty := by
  unfold Inbox.dequeue
  rw [tailed]
  cases queued : inbox.messages with
  | nil | cons => simp

theorem dequeue_empty (inbox : Inbox) (tailed : inbox.hasTail = !inbox.messages.isEmpty) (empty : inbox.messages = []) :
    inbox.dequeue = inbox := by
  cases inbox
  simp_all [Inbox.dequeue]

/-- There is memory for the response of a send that linked its message and of a receive
that took messages out. -/
def Supplied (post : Post) : MessageCall → Prop
  | .send env index req => ∀ ctx slot inbox, post.kernel.contexts[index]? = some ctx →
      Linked env post.kernel req slot inbox → env.responseAlloc = true
  | .recv env index _ => ∀ ctx slot inbox, post.kernel.contexts[index]? = some ctx →
      akAgentRegistryFind post.kernel ctx.pid = some slot → post.kernel.inboxAt slot = some inbox →
      inbox.messages ≠ [] → env.responseAlloc = true

section

variable (env : HandlerEnv) (post : Post) (ctx : AgentContext) (req : AkRequest)

theorem postSend_unlinked (unlinked : ∀ slot inbox, ¬ Linked env post.kernel req slot inbox) (sound : Sound post) :
    Sound (postSend env post ctx req) := by
  obtain ⟨kernel,failed⟩ := akHandleSend_unlinked env post.kernel ctx req unlinked
  unfold postSend
  simp only [failed,kernel,Bool.false_eq_true,if_false]
  exact ⟨⟨⟨sound.lossless.1,trivial⟩,sound.lossless.2⟩,sound.tailed⟩

theorem postSend_sound (linked : Linked env post.kernel req slot inbox) (sound : Sound post)
    (supplied : env.responseAlloc = true) : Sound (postSend env post ctx req) := by
  obtain ⟨kernel,success⟩ := akHandleSend_linked env post.kernel ctx req linked
  have tailed := sound.tailed slot inbox linked.held
  obtain ⟨content,count⟩ := sound.lossless.2 slot inbox linked.held
  have messages := enqueue_messages (sendMessage env ctx req) tailed
  unfold postSend
  simp only [success,supplied,if_true]
  refine sound.update slot inbox (·.enqueue (sendMessage env ctx req)) linked.held _ sound.lossless.1 kernel
    (fun other differs => ?_) (fun _ _ => rfl) ?_ ?_ ?_
  · simp [record,linked.found,differs]
  · simp [record,linked.found,messages,← content]
  · rw [messages,enqueue_count inbox _ linked.room,count]
    simp
  · rw [messages]
    simp [Inbox.enqueue]

theorem postSend_needed (linked : Linked env post.kernel req slot inbox) (sound : Sound post)
    (lossless : Lossless (postSend env post ctx req)) : env.responseAlloc = true := by
  obtain ⟨kernel,success⟩ := akHandleSend_linked env post.kernel ctx req linked
  by_contra short
  rw [Bool.not_eq_true] at short
  unfold postSend at lossless
  simp only [success,short,Bool.false_eq_true,if_false] at lossless
  have unchanged := congrFun lossless.1.2 slot
  rw [kernel,inboxAt_updateInbox,if_pos rfl,linked.held,Option.map_some,Option.some.injEq] at unchanged
  have messages := congrArg Inbox.messages unchanged
  rw [enqueue_messages _ (sound.tailed slot inbox linked.held)] at messages
  simp at messages

theorem postRecv_absent (absent : (akAgentRegistryFind post.kernel ctx.pid).bind post.kernel.inboxAt = none) :
    postRecv env post ctx req = post := by
  obtain ⟨kernel,none⟩ := akHandleRecv_absent env post.kernel ctx req absent
  unfold postRecv
  simp only [kernel,none,record_nil]
  split <;> rfl

theorem postRecv_sound (found : akAgentRegistryFind post.kernel ctx.pid = some slot)
    (held : post.kernel.inboxAt slot = some inbox) (sound : Sound post)
    (supplied : inbox.messages ≠ [] → env.responseAlloc = true) : Sound (postRecv env post ctx req) := by
  obtain ⟨kernel,success,out⟩ := akHandleRecv_found env post.kernel ctx req found held
  have tailed := sound.tailed slot inbox held
  obtain ⟨content,count⟩ := sound.lossless.2 slot inbox held
  unfold postRecv
  cases answer : env.responseAlloc with
  | true =>
    simp only [success,answer,if_true]
    refine sound.update slot inbox Inbox.dequeue held _ sound.lossless.1 kernel (fun _ _ => rfl)
      (fun other differs => ?_) ?_ (dequeue_count inbox count) (dequeue_tail inbox tailed)
    · simp [record,found,differs]
    · simp [record,found,out,Inbox.dequeue,content]
  | false =>
    -- nothing was taken out, so nothing is lost with the answer
    have empty : inbox.messages = [] := by
      by_contra queued
      rw [supplied queued] at answer
      cases answer
    simp only [success,answer,Bool.false_eq_true,if_false]
    refine sound.update slot inbox Inbox.dequeue held _ sound.lossless.1 kernel (fun _ _ => rfl) (fun _ _ => rfl)
      ?_ ?_ ?_ <;> rw [dequeue_empty inbox tailed empty]
    · exact content
    · exact count
    · exact tailed

theorem postRecv_needed (found : akAgentRegistryFind post.kernel ctx.pid = some slot)
    (held : post.kernel.inboxAt slot = some inbox) (sound : Sound post)
    (lossless : Lossless (postRecv env post ctx req)) (queued : inbox.messages ≠ []) : env.responseAlloc = true := by
  obtain ⟨kernel,success,_⟩ := akHandleRecv_found env post.kernel ctx req found held
  obtain ⟨content,_⟩ := sound.lossless.2 slot inbox held
  by_contra short
  rw [Bool.not_eq_true] at short
  unfold postRecv at lossless
  simp only [success,short,Bool.false_eq_true,if_false] at lossless
  have left := (lossless.2 slot inbox.dequeue (by simp [kernel,inboxAt_updateInbox,held])).1
  have same : inbox.messages.drop recvLimit = inbox.messages := List.append_cancel_left (left.trans content.symm)
  have length := congrArg List.length same
  rw [List.length_drop] at length
  have positive := List.length_pos_iff.mpr queued
  unfold recvLimit at length
  omega

end

def Fresh (k : Kernel) : Prop := ∀ slot inbox, k.inboxAt slot = some inbox → inbox = emptyInbox

/-- One registered agent that sends to itself: a request without a recipient goes to the zero id. -/
def lonely : Kernel :=
  (akAgentRegistryAdd { akInit 0 (Block.zero 32) none with
    contexts := [newContext (Block.zero 16) (Block.zero 16) none none] } 0).1

def note (seq : UInt64) : AkRequest := ⟨Block.zero 16,Block.zero 16,seq,0,some (ascii "\x7b\x7d"),none,.trusted⟩

theorem lonely_fresh : Fresh lonely := by
  intro slot inbox held
  cases slot with
  | zero => exact (Option.some.inj held).symm
  | succ slot =>
    have free : lonely.inboxAt (slot + 1) = none := congrArg (Option.map AgentEntry.inbox) (free_slot 63 slot)
    rw [free] at held
    cases held

end AuthorityKernel.Dispatch
