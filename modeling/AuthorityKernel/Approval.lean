import AuthorityKernel.Library.Run
import AuthorityKernel.Dispatch.State

/-! Approval requests: filed by an agent, decided by a reviewer, cancelled by the agent,
or timed out by whoever polls them. The deadline is applied by the polls alone, so a
reviewer can still grant a request whose timeout has elapsed. -/
namespace AuthorityKernel.Approval
open Library Library.Run Capability Dispatch

inductive ApprovalStatus
  | pending
  | granted
  | denied
  | timeout
  | cancelled
deriving DecidableEq

structure Handler where
  closure : Nat
  data : Nat
deriving DecidableEq

structure ApprovalRequest where
  id : UInt64
  runId : TokenId
  agentId : TokenId
  op : UInt16
  requestJson : Option Bytes
  justification : Option Bytes
  requestedMs : UInt64
  timeoutMs : UInt64
  decidedMs : UInt64
  status : ApprovalStatus
  reviewerId : Bytes
  reviewerNote : Option Bytes
  onDecision : Option Handler

/-- `requests` is the memory of the request records, a pointer the place of a record in
it; `pending` is the table from ids to pointers, a key set again in front. -/
structure ApprovalState where
  requests : List ApprovalRequest
  pending : List (UInt64 × Nat)
  nextId : UInt64
  defaultTimeoutMs : UInt64
  initialized : Bool

def akApprovalDefaultTimeoutMs : UInt64 := 5 * 60 * 1000

def akApprovalInit : ApprovalState := ⟨[],[],1,akApprovalDefaultTimeoutMs,true⟩

def tableFind (state : ApprovalState) (id : UInt64) : Option (Nat × ApprovalRequest) := do
  let entry ← state.pending.find? (·.1 == id)
  let request ← state.requests[entry.2]?
  return (entry.2,request)

structure RequestMemory where
  record : Bool
  requestJson : Bool
  justification : Bool

/-- The id is taken before the copies are made, and lost when one of them fails. -/
def akApprovalRequest (memory : RequestMemory) (nowMs : UInt64) (ctx : Option AgentContext) (req : Option AkRequest)
    (justification : Option Bytes) (state : ApprovalState) : ApprovalState × Option Nat :=
  match ctx,req with
  | some ctx,some req =>
    if !state.initialized || !memory.record then (state,none)
    else
      let numbered := { state with nextId := state.nextId + 1 }
      if (req.args.isSome && !memory.requestJson) || (justification.isSome && !memory.justification) then
        (numbered,none)
      else
        let request : ApprovalRequest :=
          ⟨state.nextId,ctx.runId,ctx.pid,req.op,req.args,justification,nowMs,state.defaultTimeoutMs,0,.pending,[],
            none,none⟩
        ({ numbered with
            requests := state.requests ++ [request]
            pending := (request.id,state.requests.length) :: state.pending },
          some state.requests.length)
  | _,_ => (state,none)

def akApprovalSetCallback (pointer : Option Nat) (handler : Option Handler) (state : ApprovalState) : ApprovalState :=
  match pointer.bind fun pointer => state.requests[pointer]?.map fun request => (pointer,request) with
  | none => state
  | some (pointer,request) =>
    { state with requests := state.requests.set pointer { request with onDecision := handler } }

structure Notice where
  pointer : Nat
  handler : Handler
  status : ApprovalStatus
deriving DecidableEq

def conclude (state : ApprovalState) (pointer : Nat) (request : ApprovalRequest) : ApprovalState × List Notice :=
  ({ state with requests := state.requests.set pointer request },
    request.onDecision.toList.map fun handler => ⟨pointer,handler,request.status⟩)

def expired (request : ApprovalRequest) (nowMs : UInt64) : Bool :=
  request.status = .pending && 0 < request.timeoutMs && 0 < request.requestedMs &&
    request.requestedMs + request.timeoutMs < nowMs

def akApprovalCheck (id : UInt64) (nowMs : UInt64) (state : ApprovalState) :
    (ApprovalState × List Notice) × ApprovalStatus :=
  if !state.initialized then ((state,[]),.timeout)
  else match tableFind state id with
    | none => ((state,[]),.timeout)
    | some (pointer,request) =>
      if expired request nowMs then
        (conclude state pointer { request with status := .timeout, decidedMs := nowMs },.timeout)
      else ((state,[]),request.status)

def akApprovalWait (id timeoutMs nowMs : UInt64) (state : ApprovalState) :
    (ApprovalState × List Notice) × ApprovalStatus :=
  if !state.initialized then ((state,[]),.timeout)
  else match tableFind state id with
    | none => ((state,[]),.timeout)
    | some (pointer,request) =>
      let updated := if 0 < timeoutMs && timeoutMs != request.timeoutMs then
          { state with requests := state.requests.set pointer { request with timeoutMs := timeoutMs } }
        else state
      akApprovalCheck id nowMs updated

def akApprovalCancel (id nowMs : UInt64) (state : ApprovalState) : (ApprovalState × List Notice) × Int :=
  if !state.initialized then ((state,[]),-1)
  else match tableFind state id with
    | none => ((state,[]),akECapMissing)
    | some (pointer,request) =>
      if request.status ≠ .pending then ((state,[]),akEPolicyDeny)
      else (conclude state pointer { request with status := .cancelled, decidedMs := nowMs },0)

/-- A reviewer's name is cut to the 63 bytes its field holds; a note whose copy finds no
memory is not kept. The timeout of the request is not looked at. -/
def makeDecision (id : UInt64) (decision : ApprovalStatus) (reviewerId : Option CString) (note : Option Bytes)
    (memory : Bool) (nowMs : UInt64) (state : ApprovalState) : (ApprovalState × List Notice) × Int :=
  if !state.initialized then ((state,[]),-1)
  else match tableFind state id with
    | none => ((state,[]),akECapMissing)
    | some (pointer,request) =>
      if request.status ≠ .pending then ((state,[]),akEPolicyDeny)
      else
        (conclude state pointer
          { request with
            status := decision
            decidedMs := nowMs
            reviewerId := (reviewerId.map fun name => name.1.take 63).getD request.reviewerId
            reviewerNote := (note.map fun text => if memory then some text else none).getD request.reviewerNote },0)

def akApprovalGrant (id : UInt64) (reviewerId : Option CString) (note : Option Bytes) (memory : Bool) :=
  makeDecision id .granted reviewerId note memory

def akApprovalDeny (id : UInt64) (reviewerId : Option CString) (note : Option Bytes) (memory : Bool) :=
  makeDecision id .denied reviewerId note memory

def akApprovalSetDefaultTimeout (timeoutMs : UInt64) (state : ApprovalState) : ApprovalState :=
  if !state.initialized then state else { state with defaultTimeoutMs := timeoutMs }

inductive Call
  | request (memory : RequestMemory) (ctx : Option AgentContext) (req : Option AkRequest) (justification : Option Bytes)
  | setCallback (pointer : Option Nat) (handler : Option Handler)
  | check (id : UInt64)
  | wait (id timeoutMs : UInt64)
  | cancel (id : UInt64)
  | grant (id : UInt64) (reviewerId : Option CString) (note : Option Bytes) (memory : Bool)
  | deny (id : UInt64) (reviewerId : Option CString) (note : Option Bytes) (memory : Bool)
  | setDefaultTimeout (timeoutMs : UInt64)

def perform (state : ApprovalState) (nowMs : UInt64) : Call → ApprovalState × List Notice
  | .request memory ctx req justification => ((akApprovalRequest memory nowMs ctx req justification state).1,[])
  | .setCallback pointer handler => (akApprovalSetCallback pointer handler state,[])
  | .check id => (akApprovalCheck id nowMs state).1
  | .wait id timeoutMs => (akApprovalWait id timeoutMs nowMs state).1
  | .cancel id => (akApprovalCancel id nowMs state).1
  | .grant id reviewerId note memory => (akApprovalGrant id reviewerId note memory nowMs state).1
  | .deny id reviewerId note memory => (akApprovalDeny id reviewerId note memory nowMs state).1
  | .setDefaultTimeout timeoutMs => (akApprovalSetDefaultTimeout timeoutMs state,[])

def overdue (nowMs : UInt64) (request : ApprovalRequest) : Bool :=
  request.status = .pending && 0 < request.timeoutMs &&
    decide (request.requestedMs.toNat + request.timeoutMs.toNat < nowMs.toNat)

/-- What one call does to one request if it takes it out of the pending status: the closure
to be run, and the new status. -/
def departure : Option ApprovalRequest → Option ApprovalRequest → List (Option Handler × ApprovalStatus)
  | some before,some after =>
    if before.status = .pending ∧ after.status ≠ .pending then [(before.onDecision,after.status)] else []
  | _,_ => []

/-- The state with what an observer notes of each request: whether a call found its timeout
elapsed, how it left the pending status, and the runs of its decision closure. -/
structure Observed where
  state : ApprovalState
  elapsed : Nat → Bool
  departures : Nat → List (Option Handler × ApprovalStatus)
  notices : Nat → List (Handler × ApprovalStatus)

def noticesOf (pointer : Nat) (notices : List Notice) : List (Handler × ApprovalStatus) :=
  (notices.filter (·.pointer = pointer)).map fun notice => (notice.handler,notice.status)

def found (observed : Observed) (nowMs : UInt64) (pointer : Nat) : Bool :=
  observed.elapsed pointer || (observed.state.requests[pointer]?.map (overdue nowMs)).getD false

def step (observed : Observed) (input : UInt64 × Call) : Observed :=
  let after := perform observed.state input.1 input.2
  { state := after.1
    elapsed := found observed input.1
    departures := fun pointer => observed.departures pointer ++
      departure observed.state.requests[pointer]? after.1.requests[pointer]?
    notices := fun pointer => observed.notices pointer ++ noticesOf pointer after.2 }

def start : Observed := ⟨akApprovalInit,fun _ => false,fun _ => [],fun _ => []⟩

def InTime (observed : Observed) : Prop :=
  ∀ (pointer : Nat) (request : ApprovalRequest), observed.state.requests[pointer]? = some request →
    observed.elapsed pointer = true → request.status ≠ .granted

/-- Each request leaves the pending status at most once, and its closure runs once when it does. -/
def Once (observed : Observed) : Prop :=
  ∀ pointer, (observed.departures pointer).length ≤ 1 ∧
    observed.notices pointer = (observed.departures pointer).filterMap fun left => left.1.map fun handler => (handler,left.2)

def DeadlinesFinal (observed : Observed) : Prop := InTime observed ∧ Once observed

/-- A grant finds its request, if it is pending, before its timeout has elapsed. -/
def GrantInTime (observed : Observed) (input : UInt64 × Call) : Prop :=
  match input.2 with
  | .grant id _ _ _ => ∀ pointer request, tableFind observed.state id = some (pointer,request) →
      request.status = .pending → found observed input.1 pointer = false
  | _ => True

def Quiet (before after : List ApprovalRequest) : Prop :=
  ∀ pointer : Nat, (after[pointer]?).map ApprovalRequest.status = (before[pointer]?).map ApprovalRequest.status ∨
    before[pointer]? = none ∧ (after[pointer]?).map ApprovalRequest.status = some .pending

theorem Quiet.refl (requests : List ApprovalRequest) : Quiet requests requests := fun _ => .inl rfl

theorem quiet_set {requests : List ApprovalRequest} {pointer : Nat} {request changed : ApprovalRequest}
    (here : requests[pointer]? = some request) (same : changed.status = request.status) :
    Quiet requests (requests.set pointer changed) := by
  intro other
  left
  by_cases equal : pointer = other
  · subst equal
    obtain ⟨bound,_⟩ := List.getElem?_eq_some_iff.mp here
    rw [List.getElem?_set_self bound,here]
    exact congrArg some same
  · rw [List.getElem?_set_ne equal]

theorem quiet_append (requests : List ApprovalRequest) (request : ApprovalRequest) (new : request.status = .pending) :
    Quiet requests (requests ++ [request]) := by
  intro pointer
  rcases Nat.lt_trichotomy pointer requests.length with inside | rfl | outside
  · exact .inl (by rw [List.getElem?_append_left inside])
  · exact .inr (by simp [new])
  · left
    rw [List.getElem?_eq_none (by simp; omega),List.getElem?_eq_none (by omega)]

variable {request decided : ApprovalRequest} {state : ApprovalState} {before after : List ApprovalRequest}
  {pointer : Nat} {id : UInt64}

theorem tableFind_some (here : tableFind state id = some (pointer,request)) :
    state.requests[pointer]? = some request := by
  simp only [tableFind,Option.bind_eq_bind,Option.bind_eq_some_iff,Option.pure_def,Option.some.injEq,
    Prod.mk.injEq] at here
  obtain ⟨entry,_,other,read,rfl,rfl⟩ := here
  exact read

theorem tableFind_set (here : tableFind state id = some (pointer,request)) (changed : ApprovalRequest) :
    tableFind { state with requests := state.requests.set pointer changed } id = some (pointer,changed) := by
  obtain ⟨bound,_⟩ := List.getElem?_eq_some_iff.mp (tableFind_some here)
  simp only [tableFind,Option.bind_eq_bind,Option.bind_eq_some_iff,Option.pure_def,Option.some.injEq,
    Prod.mk.injEq] at here ⊢
  obtain ⟨entry,first,other,read,rfl,rfl⟩ := here
  exact ⟨entry,first,changed,List.getElem?_set_self bound,rfl,rfl⟩

/-- What a call does: no status changes and nobody is told, or one pending request is decided. -/
inductive Acts (state : ApprovalState) : Option (Nat × ApprovalStatus) → ApprovalState × List Notice → Prop
  | quiet {after : ApprovalState} (ready : after.initialized = state.initialized)
      (quiet : Quiet state.requests after.requests) : Acts state none (after,[])
  | decides {pointer : Nat} {request decided : ApprovalRequest} (here : state.requests[pointer]? = some request)
      (waiting : request.status = .pending) (final : decided.status ≠ .pending)
      (closure : decided.onDecision = request.onDecision) :
      Acts state (some (pointer,decided.status)) (conclude state pointer decided)

def Withholds (state : ApprovalState) (after : ApprovalState × List Notice) : Prop :=
  ∃ effect, Acts state effect after ∧ ∀ pointer, effect ≠ some (pointer,.granted)

theorem withholds_quiet {after : ApprovalState} (ready : after.initialized = state.initialized)
    (quiet : Quiet state.requests after.requests) : Withholds state (after,[]) := ⟨none,.quiet ready quiet,nofun⟩

theorem withholds_same (state : ApprovalState) : Withholds state (state,[]) := withholds_quiet rfl (Quiet.refl _)

theorem withholds_decides (here : state.requests[pointer]? = some request) (waiting : request.status = .pending)
    (final : decided.status ≠ .pending) (other : decided.status ≠ .granted)
    (closure : decided.onDecision = request.onDecision) : Withholds state (conclude state pointer decided) := by
  refine ⟨_,.decides here waiting final closure,fun place same => other ?_⟩
  exact (Prod.mk.inj (Option.some.inj same)).2

theorem expired_pending {nowMs : UInt64} (late : expired request nowMs = true) : request.status = .pending := by
  simp only [expired,Bool.and_eq_true,decide_eq_true_eq] at late
  exact late.1.1.1

theorem akApprovalCheck_withholds (id nowMs : UInt64) (state : ApprovalState) :
    Withholds state (akApprovalCheck id nowMs state).1 := by
  unfold akApprovalCheck
  split
  · exact withholds_same state
  split
  · exact withholds_same state
  rename_i pointer request here
  split
  · rename_i late
    exact withholds_decides (tableFind_some here) (expired_pending late) nofun nofun rfl
  · exact withholds_same state

theorem akApprovalWait_withholds (id timeoutMs nowMs : UInt64) (state : ApprovalState) :
    Withholds state (akApprovalWait id timeoutMs nowMs state).1 := by
  unfold akApprovalWait
  split
  · exact withholds_same state
  rename_i ready
  split
  · exact withholds_same state
  rename_i pointer request here
  split
  · -- the new timeout is stored first, and the poll then finds the request with it
    rw [akApprovalCheck,if_neg ready,tableFind_set here]
    dsimp only
    split
    · rename_i late
      have waiting := expired_pending late
      simp only [conclude,List.set_set]
      exact withholds_decides (tableFind_some here) waiting nofun nofun rfl
    · exact withholds_quiet rfl (quiet_set (tableFind_some here) rfl)
  · exact akApprovalCheck_withholds id nowMs state

theorem akApprovalCancel_withholds (id nowMs : UInt64) (state : ApprovalState) :
    Withholds state (akApprovalCancel id nowMs state).1 := by
  unfold akApprovalCancel
  split
  · exact withholds_same state
  split
  · exact withholds_same state
  rename_i pointer request here
  split
  · exact withholds_same state
  · rename_i waiting
    exact withholds_decides (tableFind_some here) (not_not.mp waiting) nofun nofun rfl

theorem makeDecision_acts (id : UInt64) (decision : ApprovalStatus) (reviewerId : Option CString)
    (note : Option Bytes) (memory : Bool) (nowMs : UInt64) (ready : state.initialized = true)
    (final : decision ≠ .pending) :
    ∃ effect, Acts state effect (makeDecision id decision reviewerId note memory nowMs state).1 ∧
      ∀ pointer status, effect = some (pointer,status) ↔ status = decision ∧
        ∃ request, tableFind state id = some (pointer,request) ∧ request.status = .pending := by
  unfold makeDecision
  rw [ready]
  cases here : tableFind state id with
  | none => exact ⟨none,.quiet rfl (Quiet.refl _),by simp⟩
  | some entry =>
    obtain ⟨pointer,request⟩ := entry
    by_cases waiting : request.status = .pending
    · simp only [waiting,ne_eq,not_true_eq_false,if_false]
      refine ⟨_,.decides (tableFind_some here) waiting final rfl,?_⟩
      simp [waiting,eq_comm,and_comm]
    · simp only [waiting,ne_eq,not_false_eq_true,if_true]
      exact ⟨none,.quiet rfl (Quiet.refl _),by simp [waiting]⟩

theorem akApprovalRequest_withholds (memory : RequestMemory) (nowMs : UInt64) (ctx : Option AgentContext)
    (req : Option AkRequest) (justification : Option Bytes) (state : ApprovalState) :
    Withholds state ((akApprovalRequest memory nowMs ctx req justification state).1,[]) := by
  unfold akApprovalRequest
  split
  · split
    · exact withholds_same state
    split
    · exact withholds_quiet rfl (Quiet.refl _)
    exact withholds_quiet rfl (quiet_append _ _ rfl)
  · exact withholds_same state

theorem akApprovalSetCallback_withholds (pointer : Option Nat) (handler : Option Handler) (state : ApprovalState) :
    Withholds state (akApprovalSetCallback pointer handler state,[]) := by
  unfold akApprovalSetCallback
  split
  · exact withholds_same state
  rename_i place request here
  simp only [Option.bind_eq_some_iff,Option.map_eq_some_iff,Prod.mk.injEq] at here
  obtain ⟨_,_,_,read,rfl,rfl⟩ := here
  exact withholds_quiet rfl (quiet_set read rfl)

variable {observed : Observed}

theorem step_cases (nowMs : UInt64) (call : Call) (ready : observed.state.initialized = true) :
    ∃ effect, Acts observed.state effect (perform observed.state nowMs call) ∧
      (GrantInTime observed (nowMs,call) ↔
        ∀ pointer, effect = some (pointer,.granted) → found observed nowMs pointer = false) := by
  have other (call : Call) (free : GrantInTime observed (nowMs,call))
      (withholds : Withholds observed.state (perform observed.state nowMs call)) :
      ∃ effect, Acts observed.state effect (perform observed.state nowMs call) ∧
        (GrantInTime observed (nowMs,call) ↔
          ∀ pointer, effect = some (pointer,.granted) → found observed nowMs pointer = false) := by
    obtain ⟨effect,acts,none⟩ := withholds
    exact ⟨effect,acts,iff_of_true free fun pointer granted => absurd granted (none pointer)⟩
  cases call with
  | request memory ctx req justification => exact other _ trivial (akApprovalRequest_withholds _ _ _ _ _ _)
  | setCallback pointer handler => exact other _ trivial (akApprovalSetCallback_withholds _ _ _)
  | check id => exact other _ trivial (akApprovalCheck_withholds _ _ _)
  | wait id timeoutMs => exact other _ trivial (akApprovalWait_withholds _ _ _ _)
  | cancel id => exact other _ trivial (akApprovalCancel_withholds _ _ _)
  | grant id reviewerId note memory =>
    obtain ⟨effect,acts,granted⟩ := makeDecision_acts id .granted reviewerId note memory nowMs ready nofun
    refine ⟨effect,acts,?_⟩
    simp only [granted,true_and]
    exact ⟨fun fine pointer ⟨request,here,waiting⟩ => fine pointer request here waiting,
      fun early pointer request here waiting => early pointer ⟨request,here,waiting⟩⟩
  | deny id reviewerId note memory =>
    obtain ⟨effect,acts,denied⟩ := makeDecision_acts id .denied reviewerId note memory nowMs ready nofun
    exact other _ trivial ⟨effect,acts,fun pointer granted => nomatch ((denied _ _).mp granted).1⟩
  | setDefaultTimeout timeoutMs =>
    apply other (.setDefaultTimeout timeoutMs) trivial
    rw [perform,akApprovalSetDefaultTimeout,ready]
    exact withholds_quiet ready.symm (Quiet.refl _)

theorem Acts.initialized {effect : Option (Nat × ApprovalStatus)} {after : ApprovalState × List Notice}
    (acts : Acts state effect after) : after.1.initialized = state.initialized := by
  cases acts with
  | quiet ready => exact ready
  | decides => rfl

structure Tracked (observed : Observed) : Prop where
  ready : observed.state.initialized = true
  once : Once observed
  untouched : ∀ pointer : Nat, (∀ request, observed.state.requests[pointer]? = some request → request.status = .pending) →
    observed.departures pointer = []

theorem departure_quiet (quiet : Quiet before after) (pointer : Nat) :
    departure before[pointer]? after[pointer]? = [] := by
  unfold departure
  split
  · rename_i old new first second
    rcases quiet pointer with same | ⟨absent,_⟩
    · rw [first,second] at same
      have equal : new.status = old.status := Option.some.inj same
      rw [if_neg fun left => left.2 (equal.trans left.1)]
    · rw [first] at absent
      contradiction
  · rfl

theorem departure_decides (here : before[pointer]? = some request) (waiting : request.status = .pending)
    (final : decided.status ≠ .pending) (place : Nat) :
    departure before[place]? (before.set pointer decided)[place]? =
      if pointer = place then [(request.onDecision,decided.status)] else [] := by
  by_cases equal : pointer = place
  · subst equal
    obtain ⟨bound,_⟩ := List.getElem?_eq_some_iff.mp here
    rw [List.getElem?_set_self bound,here,if_pos rfl]
    exact if_pos ⟨waiting,final⟩
  · rw [List.getElem?_set_ne equal,if_neg equal]
    exact departure_quiet (Quiet.refl before) place

theorem noticesOf_conclude (pointer place : Nat) (handler : Option Handler) (status : ApprovalStatus) :
    noticesOf place (handler.toList.map fun handler => ⟨pointer,handler,status⟩) =
      if pointer = place then (handler.map fun handler => (handler,status)).toList else [] := by
  cases handler with
  | none => simp [noticesOf]
  | some handler =>
    by_cases equal : pointer = place
    · simp [noticesOf,equal]
    · simp [noticesOf,equal]

theorem quiet_pending (quiet : Quiet before after) (pointer : Nat)
    (waits : ∀ request, after[pointer]? = some request → request.status = .pending) (request : ApprovalRequest)
    (here : before[pointer]? = some request) : request.status = .pending := by
  rcases quiet pointer with same | ⟨absent,_⟩
  · rw [here] at same
    obtain ⟨other,there,equal⟩ := Option.map_eq_some_iff.mp same
    exact equal ▸ waits other there
  · rw [here] at absent
    contradiction

theorem step_tracked (observed : Observed) (input : UInt64 × Call) (tracked : Tracked observed) :
    Tracked (step observed input) := by
  obtain ⟨nowMs,call⟩ := input
  obtain ⟨effect,acts,_⟩ := step_cases nowMs call tracked.ready
  have ready : (step observed (nowMs,call)).state.initialized = true := acts.initialized.trans tracked.ready
  generalize performed : perform observed.state nowMs call = after at acts
  cases acts with
  | quiet _ quiet =>
    have kept : (step observed (nowMs,call)).departures = observed.departures := by
      funext pointer
      simp only [step,performed,departure_quiet quiet,List.append_nil]
    have unheard : (step observed (nowMs,call)).notices = observed.notices := by
      funext pointer
      simp [step,performed,noticesOf]
    refine ⟨ready,fun pointer => by rw [kept,unheard]; exact tracked.once pointer,fun pointer waits => ?_⟩
    rw [kept]
    apply tracked.untouched pointer (quiet_pending quiet pointer ?_)
    simpa only [step,performed] using waits
  | @decides pointer request decided here waiting final closure =>
    have fresh : observed.departures pointer = [] := by
      apply tracked.untouched
      intro other there
      rw [here] at there
      exact Option.some.inj there ▸ waiting
    have unnoticed : observed.notices pointer = [] := by rw [(tracked.once pointer).2,fresh]; rfl
    refine ⟨ready,fun place => ?_,fun place waits => ?_⟩
    · simp only [step,performed,conclude,departure_decides here waiting final,noticesOf_conclude,closure]
      by_cases equal : pointer = place
      · subst equal
        rw [if_pos rfl,if_pos rfl,fresh,unnoticed]
        refine ⟨le_rfl,?_⟩
        cases request.onDecision <;> rfl
      · rw [if_neg equal,if_neg equal,List.append_nil,List.append_nil]
        exact tracked.once place
    · simp only [step,performed,conclude] at waits ⊢
      have other : pointer ≠ place := by
        rintro rfl
        obtain ⟨bound,_⟩ := List.getElem?_eq_some_iff.mp here
        exact final (waits decided (List.getElem?_set_self bound))
      rw [departure_decides here waiting final,if_neg other,List.append_nil]
      apply tracked.untouched
      intro waiter there
      apply waits
      rw [List.getElem?_set_ne other,there]

theorem found_not_granted (inTime : InTime observed) {nowMs : UInt64}
    (here : observed.state.requests[pointer]? = some request) (late : found observed nowMs pointer = true) :
    request.status ≠ .granted := by
  simp only [found,here,Option.map_some,Option.getD_some,Bool.or_eq_true] at late
  rcases late with before | now
  · exact inTime pointer request here before
  · simp only [overdue,Bool.and_eq_true,decide_eq_true_eq] at now
    rw [now.1.1]
    nofun

theorem step_inTime_iff (input : UInt64 × Call) (tracked : Tracked observed)
    (inTime : InTime observed) : InTime (step observed input) ↔ GrantInTime observed input := by
  obtain ⟨nowMs,call⟩ := input
  obtain ⟨effect,acts,fine⟩ := step_cases nowMs call tracked.ready
  generalize performed : perform observed.state nowMs call = after at acts
  rw [fine]
  simp only [InTime,step,performed]
  cases acts with
  | @quiet after _ quiet =>
    refine iff_of_true (fun pointer request there late => ?_) nofun
    have status : (after.requests[pointer]?).map ApprovalRequest.status = some request.status := by
      rw [there]
      rfl
    rcases quiet pointer with same | ⟨_,new⟩
    · obtain ⟨old,here,equal⟩ := Option.map_eq_some_iff.mp (same.symm.trans status)
      rw [← equal]
      exact found_not_granted inTime here late
    · rw [Option.some.inj (status.symm.trans new)]
      nofun
  | @decides pointer request decided here _ _ _ =>
    obtain ⟨bound,_⟩ := List.getElem?_eq_some_iff.mp here
    constructor
    · intro after place same
      obtain ⟨rfl,granted⟩ := Prod.mk.inj (Option.some.inj same)
      by_contra late
      exact after pointer decided (List.getElem?_set_self bound) (Bool.eq_true_of_not_eq_false late) granted
    · intro early place other there late
      by_cases equal : pointer = place
      · subst equal
        rw [conclude,List.getElem?_set_self bound] at there
        rw [← Option.some.inj there]
        intro granted
        exact Bool.noConfusion ((early pointer (by rw [granted])).symm.trans late)
      · rw [conclude,List.getElem?_set_ne equal] at there
        exact found_not_granted inTime there late

theorem start_tracked : Tracked start :=
  ⟨rfl,fun _ => ⟨Nat.zero_le 1,rfl⟩,fun _ _ => rfl⟩

/-- Deadlines are final exactly in the runs whose grants come in time: the polls apply the
timeouts, the reviewers have to look at them themselves. -/
theorem deadlines_final_iff (calls : List (UInt64 × Call)) :
    Throughout step DeadlinesFinal start calls ↔ Guarded step GrantInTime start calls := by
  refine throughout_iff_guarded step_tracked ?_ start calls start_tracked ⟨nofun,start_tracked.once⟩
  intro observed input tracked final
  rw [← step_inTime_iff input tracked final.1]
  exact and_iff_left (step_tracked observed input tracked).once

def lateGrant : List (UInt64 × Call) :=
  [(1000,.request ⟨true,true,true⟩ (some (newContext (Block.zero 16) (Block.zero 16) none none))
      (some ⟨Block.zero 16,Block.zero 16,1,SysOp.call.code,none,none,.untrusted⟩) none),
    (400000,.grant 1 none none true)]

theorem elapsed_request_granted : ¬ DeadlinesFinal (run step start lateGrant) := by
  intro final
  obtain ⟨inTime,_⟩ := final
  let granted : ApprovalRequest :=
    ⟨1,Block.zero 16,Block.zero 16,SysOp.call.code,none,none,1000,300000,400000,.granted,[],none,none⟩
  have stored : (run step start lateGrant).state.requests[0]? = some granted := rfl
  have late : (run step start lateGrant).elapsed 0 = true := rfl
  exact inTime 0 granted stored late rfl

end AuthorityKernel.Approval
