import AuthorityKernel.Types
import AuthorityKernel.Pattern
import AuthorityKernel.Capability.Keys
import AuthorityKernel.Capability.Token
import AuthorityKernel.Capability.Revocation

/-! Issuing, delegating and validating tokens. A call's environment holds what it
takes from outside: clock readings, random bytes, and which allocations succeed. -/
namespace AuthorityKernel.Capability
open Library Crypto

structure RateEnv where
  clock : UInt64
  alloc : Bool

def rateExpired (now : UInt64) (counter : RateCounter) : Bool :=
  now - counter.windowStartMs > counter.windowMs.toUInt64

def akRateFindLocked (s : CapState) (tid : TokenId) : Option RateCounter :=
  s.rateCounters.lookup akTidHash RateCounter.tid tid

def akRateSweepLocked (now : UInt64) (s : CapState) : CapState :=
  let dropped := (s.rateCounters.entries.filter (rateExpired now)).length
  { s with
    rateCounters := s.rateCounters.sweep fun counter => !rateExpired now counter
    rateEntryCount := s.rateEntryCount - UInt64.ofNat dropped }

def rateMakeRoom (now : UInt64) (s : CapState) : CapState × Bool :=
  if s.rateEntryCount ≥ akRateMaxEntries then
    let swept := akRateSweepLocked now s
    (swept,!(swept.rateEntryCount ≥ akRateMaxEntries))
  else (s,true)

def rateWindow (now : UInt64) (window : UInt32) (counter : RateCounter) : RateCounter :=
  let tracked := { counter with windowMs := window }
  if now - tracked.windowStartMs > window.toUInt64 then { tracked with count := 0, windowStartMs := now }
  else tracked

def rateCharge (now : UInt64) (counter : RateCounter) (limit window : UInt32) (s : CapState) : CapState × Bool :=
  let current := rateWindow now window counter
  let store := fun updated => { s with
    rateCounters := s.rateCounters.modify akTidHash RateCounter.tid counter.tid fun _ => updated }
  if current.count ≥ limit then (store current,false)
  else (store { current with count := current.count + 1 },true)

def akRateLimitCheck (env : RateEnv) (tid : TokenId) (limit window : UInt32) (s : CapState) : CapState × Bool :=
  let now := nowMs env.clock
  match akRateFindLocked s tid with
  | some counter => rateCharge now counter limit window s
  | none =>
      let room := rateMakeRoom now s
      if !room.2 then (room.1,false)
      else if !env.alloc then (room.1,false)
      else
        let counter : RateCounter := ⟨tid,0,window,now⟩
        rateCharge now counter limit window
          { room.1 with
            rateCounters := room.1.rateCounters.insert akTidHash RateCounter.tid counter
            rateEntryCount := room.1.rateEntryCount + 1 }

structure VerifyEnv where
  clock : UInt64
  hmacAlloc : Bool

structure ValidateEnv where
  verify : VerifyEnv
  rate : RateEnv

def expiryMs (cap : AkCapability) : UInt64 := cap.issuedMs + cap.ttlMs.toUInt64

def akCapabilityVerify (env : VerifyEnv) (cap : Option AkCapability) (s : CapState) : Int :=
  match cap with
  | none => akECapMissing
  | some cap =>
      match akKeyGet s cap.kid with
      | none => akECapInvalid
      | some slot =>
          let computed := akHmacSha256 env.hmacAlloc (s.keys slot).secret.toList (akCapabilityCanonicalize cap)
          if !constantTimeCompare cap.mac.toList computed.toList then akECapInvalid
          else if nowMs env.clock > expiryMs cap then akECapExpired
          else 0

structure Request where
  type : CapType
  resource : CString
  method : Option CString
  runId : Option TokenId

def holdsType (cap : AkCapability) (required : CapType) : Bool :=
  cap.type == required || cap.type == .admin || cap.type == .any

/-- An empty method list allows every method. -/
def allowsMethod (cap : AkCapability) (method : Option CString) : Bool :=
  match method with
  | none => true
  | some name => cap.methods.length == 0 || cap.methods.any fun allowed => allowed == name

def boundToRun (cap : AkCapability) (runId : Option TokenId) : Bool :=
  match runId with
  | none => true
  | some run => akTokenIdEqual cap.runId (Block.zero 16) || akTokenIdEqual cap.runId run

def akCapabilityCheckScope (env : RateEnv) (cap : AkCapability) (request : Request) (s : CapState) : CapState × Int :=
  if !holdsType cap request.type then (s,akECapScope)
  else if !akPatternMatch (.ofBuffer cap.resource) request.resource then (s,akECapScope)
  else if !allowsMethod cap request.method then (s,akECapScope)
  else if !boundToRun cap request.runId then (s,akECapRunMismatch)
  else if cap.rateLimit > 0 then
    let charge := akRateLimitCheck env cap.tid cap.rateLimit cap.rateWindowMs s
    if charge.2 then (charge.1,0) else (charge.1,akECapRate)
  else (s,0)

/-- The resource of a request is never null here: every caller passes a string. -/
def akCapabilityValidate (env : ValidateEnv) (cap : Option AkCapability) (request : Request) (s : CapState) :
    CapState × Int :=
  match cap with
  | none => (s,akECapMissing)
  | some token =>
      let verified := akCapabilityVerify env.verify cap s
      if verified < 0 then (s,verified)
      else if akRevocationCheck s token.tid then (s,akECapRevoked)
      else akCapabilityCheckScope env.rate token request s

structure CreateEnv where
  alloc : Bool
  clock : UInt64
  tid : TokenId
  hmacAlloc : Bool

structure CreateArgs where
  type : UInt32
  resource : CString
  methods : Option (List CString)
  ttlMs : UInt32
  rateLimit : UInt32
  rateWindowMs : UInt32
  runId : Option TokenId

def copiedMethods (methods : Option (List CString)) : List CString := (methods.getD []).take 8

def clampTtl (ttlMs : UInt32) : UInt32 := if ttlMs > akMaxCapTtlMs then akMaxCapTtlMs else ttlMs

def unsignedToken (env : CreateEnv) (args : CreateArgs) (kid : UInt8)
    (short : args.resource.1.length < 255) (names : ∀ name ∈ copiedMethods args.methods, name.1.length < 32) :
    AkCapability where
  type := ⟨args.type.toUInt8⟩
  resource := args.resource.1
  methods := copiedMethods args.methods
  issuedMs := nowMs env.clock
  ttlMs := clampTtl args.ttlMs
  rateLimit := args.rateLimit
  rateWindowMs := args.rateWindowMs
  runId := args.runId.getD (Block.zero 16)
  tid := env.tid
  kid := kid
  mac := Block.zero 32
  resource_lt := by omega
  methods_le := by simp [copiedMethods]
  method_lt := names

def sign (hmacAlloc : Bool) (secret : Secret) (cap : AkCapability) : AkCapability :=
  { cap with mac := akHmacSha256 hmacAlloc secret.toList (akCapabilityCanonicalize cap) }

def akCapabilityCreate (env : CreateEnv) (args : CreateArgs) (s : CapState) : Option AkCapability :=
  if args.type > 255 then none
  else if args.ttlMs = 0 then none
  else if !env.alloc then none
  else if short : args.resource.1.length < 255 then
    if names : ∀ name ∈ copiedMethods args.methods, name.1.length < 32 then
      let key := akKeyGetActive s
      some (sign env.hmacAlloc key.secret (unsignedToken env args key.kid short names))
    else none
  else none

def akCapabilityRemainingTtl (clock : UInt64) (cap : AkCapability) : UInt32 :=
  if nowMs clock ≥ expiryMs cap then 0 else (expiryMs cap - nowMs clock).toUInt32

structure DelegateEnv where
  verify : VerifyEnv
  remainingClock : UInt64
  create : CreateEnv

structure DelegateArgs where
  type : UInt32
  resource : CString
  methods : Option (List CString)
  ttlMs : UInt32
  rateLimit : UInt32
  rateWindowMs : UInt32

def akCapabilityDelegate (env : DelegateEnv) (parent : Option AkCapability) (args : DelegateArgs) (s : CapState) :
    Option AkCapability :=
  match parent with
  | none => none
  | some holder =>
      if akCapabilityVerify env.verify parent s < 0 then none
      else if args.type ≠ holder.type.code.toUInt32 then none
      else if args.ttlMs > akCapabilityRemainingTtl env.remainingClock holder then none
      else if args.rateLimit > holder.rateLimit then none
      else if !akPatternMatch (.ofBuffer holder.resource) args.resource then none
      else if !(args.methods.getD []).all fun name => holder.methods.any fun allowed => allowed == name then none
      else akCapabilityCreate env.create
        ⟨args.type,args.resource,args.methods,args.ttlMs,args.rateLimit,args.rateWindowMs,some holder.runId⟩ s

/-- The tag of a token is the one the key with its id computes. -/
def Authentic (hmacAlloc : Bool) (cap : AkCapability) (s : CapState) : Prop :=
  ∃ slot, akKeyGet s cap.kid = some slot ∧
    cap.mac = akHmacSha256 hmacAlloc (s.keys slot).secret.toList (akCapabilityCanonicalize cap)

variable (now : UInt64) (counter : RateCounter) (env : RateEnv) (tid : TokenId) (cap : AkCapability)
  (request : Request) (s : CapState)

theorem compare_macs (a b : Mac) : constantTimeCompare a.toList b.toList = true ↔ a = b := by
  rw [constantTimeCompare_iff _ _ (by simp only [List.Vector.toList_length])]
  exact ⟨fun same => Subtype.ext same,fun same => same ▸ rfl⟩

theorem akCapabilityVerify_eq_zero_iff (env : VerifyEnv) (cap : AkCapability) (s : CapState) :
    akCapabilityVerify env (some cap) s = 0 ↔
      Authentic env.hmacAlloc cap s ∧ nowMs env.clock ≤ expiryMs cap := by
  unfold akCapabilityVerify Authentic
  dsimp only
  cases found : akKeyGet s cap.kid with
  | none => simp [akECapInvalid]
  | some slot =>
    simp only [Option.some.injEq,exists_eq_left']
    split
    · rename_i forged
      have forged : ¬ constantTimeCompare cap.mac.toList
          (akHmacSha256 env.hmacAlloc (s.keys slot).secret.toList (akCapabilityCanonicalize cap)).toList = true := by
        simpa using forged
      rw [compare_macs] at forged
      simp [akECapInvalid,forged]
    rename_i genuine
    have genuine : constantTimeCompare cap.mac.toList
        (akHmacSha256 env.hmacAlloc (s.keys slot).secret.toList (akCapabilityCanonicalize cap)).toList = true := by
      simpa using genuine
    rw [compare_macs] at genuine
    split
    · rename_i late
      simp [akECapExpired,UInt64.not_le.mpr late]
    · rename_i timely
      exact iff_of_true rfl ⟨genuine,UInt64.not_lt.mp timely⟩

theorem akCapabilityVerify_nonpos (env : VerifyEnv) (cap : Option AkCapability) (s : CapState) :
    akCapabilityVerify env cap s ≤ 0 := by
  unfold akCapabilityVerify
  split
  · decide
  split
  · decide
  dsimp only
  split
  · decide
  split <;> decide

theorem akCapabilityVerify_nonneg_iff (env : VerifyEnv) (cap : Option AkCapability) (s : CapState) :
    ¬ akCapabilityVerify env cap s < 0 ↔ akCapabilityVerify env cap s = 0 := by
  have bound := akCapabilityVerify_nonpos env cap s
  omega

/-- The request is inside the static scope of the token, the run binding included. -/
def InScope (cap : AkCapability) (request : Request) : Prop :=
  holdsType cap request.type = true ∧ Covers (cstr cap.resource) request.resource.1 ∧
    allowsMethod cap request.method = true ∧ boundToRun cap request.runId = true

/-- The rate limiter lets a use through; zero means no limit. -/
def WithinRate (env : RateEnv) (cap : AkCapability) (s : CapState) : Prop :=
  cap.rateLimit = 0 ∨ (akRateLimitCheck env cap.tid cap.rateLimit cap.rateWindowMs s).2 = true

theorem akCapabilityCheckScope_inside (inside : InScope cap request) :
    akCapabilityCheckScope env cap request s =
      if cap.rateLimit > 0 then
        ((akRateLimitCheck env cap.tid cap.rateLimit cap.rateWindowMs s).1,
          if (akRateLimitCheck env cap.tid cap.rateLimit cap.rateWindowMs s).2 then 0 else akECapRate)
      else (s,0) := by
  obtain ⟨type,resource,method,run⟩ := inside
  have covered : akPatternMatch (.ofBuffer cap.resource) request.resource = true := (akPatternMatch_iff _ _).mpr resource
  simp only [akCapabilityCheckScope,type,covered,method,run,Bool.not_true,Bool.false_eq_true,if_false]
  split
  · split <;> rfl
  · rfl

theorem akCapabilityCheckScope_outside (outside : ¬InScope cap request) :
    ∃ code, (code < 0 ∧ code ≠ akECapRate) ∧ akCapabilityCheckScope env cap request s = (s,code) := by
  unfold akCapabilityCheckScope
  split
  · exact ⟨_,by decide,rfl⟩
  split
  · exact ⟨_,by decide,rfl⟩
  split
  · exact ⟨_,by decide,rfl⟩
  split
  · exact ⟨_,by decide,rfl⟩
  rename_i type resource method run
  simp only [Bool.not_eq_true,Bool.not_eq_false'] at type resource method run
  exact absurd ⟨type,(akPatternMatch_iff _ _).mp resource,method,run⟩ outside

theorem akCapabilityCheckScope_eq_zero_iff :
    (akCapabilityCheckScope env cap request s).2 = 0 ↔ InScope cap request ∧ WithinRate env cap s := by
  by_cases inside : InScope cap request
  · rw [akCapabilityCheckScope_inside env cap request s inside]
    split
    · rename_i limited
      have limited : cap.rateLimit ≠ 0 := UInt32.pos_iff_ne_zero.mp limited
      simp [inside,WithinRate,limited,akECapRate]
    rename_i unlimited
    have unlimited : cap.rateLimit = 0 := by
      by_contra positive
      exact unlimited (UInt32.pos_iff_ne_zero.mpr positive)
    simp [inside,WithinRate,unlimited]
  · obtain ⟨code,negative,refused⟩ := akCapabilityCheckScope_outside env cap request s inside
    rw [refused]
    exact iff_of_false (Int.ne_of_lt negative.1) fun both => inside both.1

theorem akCapabilityValidate_eq_zero_iff (env : ValidateEnv) (cap : AkCapability) (request : Request) (s : CapState) :
    (akCapabilityValidate env (some cap) request s).2 = 0 ↔
      (Authentic env.verify.hmacAlloc cap s ∧ nowMs env.verify.clock ≤ expiryMs cap) ∧
        akRevocationFindLocked s cap.tid = none ∧ InScope cap request ∧ WithinRate env.rate cap s := by
  rw [← akCapabilityVerify_eq_zero_iff,← akCapabilityCheckScope_eq_zero_iff]
  unfold akCapabilityValidate
  dsimp only
  by_cases verified : akCapabilityVerify env.verify (some cap) s = 0
  · rw [if_neg (by omega)]
    cases entry : akRevocationFindLocked s cap.tid with
    | none => simp [akRevocationCheck,entry,verified]
    | some found => simp [akRevocationCheck,entry,akECapRevoked]
  have negative : akCapabilityVerify env.verify (some cap) s < 0 := by
    by_contra nonneg
    exact verified ((akCapabilityVerify_nonneg_iff _ _ _).mp nonneg)
  rw [if_pos negative]
  simp [verified]

structure OnlyRates (s s' : CapState) : Prop where
  same : s' = { s with rateCounters := s'.rateCounters, rateEntryCount := s'.rateEntryCount }

theorem OnlyRates.refl : OnlyRates s s := ⟨rfl⟩

theorem OnlyRates.trans {first second third : CapState} (left : OnlyRates first second)
    (right : OnlyRates second third) : OnlyRates first third := by
  obtain ⟨left⟩ := left
  obtain ⟨right⟩ := right
  rw [left] at right
  exact ⟨right⟩

theorem OnlyRates.revocations {s s' : CapState} (frame : OnlyRates s s') : s'.revocations = s.revocations := by
  rw [frame.same]

variable (limit window : UInt32)

theorem rateCharge_frame (s : CapState) :
    OnlyRates s (rateCharge now counter limit window s).1 := by
  unfold rateCharge
  dsimp only
  split <;> exact ⟨rfl⟩

theorem rateMakeRoom_frame : OnlyRates s (rateMakeRoom now s).1 := by
  unfold rateMakeRoom
  split <;> exact ⟨rfl⟩

theorem akRateLimitCheck_frame (s : CapState) :
    OnlyRates s (akRateLimitCheck env tid limit window s).1 := by
  have room := rateMakeRoom_frame (nowMs env.clock) s
  unfold akRateLimitCheck
  dsimp only
  split
  · exact rateCharge_frame _ _ _ _ s
  split
  · exact room
  split
  · exact room
  exact (room.trans ⟨rfl⟩).trans (rateCharge_frame _ _ _ _ _)

theorem akCapabilityCheckScope_frame : OnlyRates s (akCapabilityCheckScope env cap request s).1 := by
  by_cases inside : InScope cap request
  · rw [akCapabilityCheckScope_inside env cap request s inside]
    split
    · exact akRateLimitCheck_frame _ _ _ _ s
    · exact .refl s
  · obtain ⟨_,_,refused⟩ := akCapabilityCheckScope_outside env cap request s inside
    rw [refused]
    exact .refl s

theorem akCapabilityValidate_frame (env : ValidateEnv) (cap : Option AkCapability) (request : Request)
    (s : CapState) : OnlyRates s (akCapabilityValidate env cap request s).1 := by
  unfold akCapabilityValidate
  split
  · exact .refl s
  dsimp only
  split
  · exact .refl s
  split
  · exact .refl s
  exact akCapabilityCheckScope_frame _ _ _ s

theorem rateCharge_admits (s s' : CapState) :
    (rateCharge now counter limit window s).2 = (rateCharge now counter limit window s').2 := by
  unfold rateCharge
  dsimp only
  split <;> rfl

theorem rateMakeRoom_admits (s' : CapState) (counters : s'.rateCounters = s.rateCounters)
    (count : s'.rateEntryCount = s.rateEntryCount) : (rateMakeRoom now s').2 = (rateMakeRoom now s).2 := by
  unfold rateMakeRoom akRateSweepLocked
  rw [counters,count]
  split <;> rfl

theorem akRateLimitCheck_admits (s s' : CapState)
    (counters : s'.rateCounters = s.rateCounters) (count : s'.rateEntryCount = s.rateEntryCount) :
    (akRateLimitCheck env tid limit window s').2 = (akRateLimitCheck env tid limit window s).2 := by
  have find : akRateFindLocked s' tid = akRateFindLocked s tid := by rw [akRateFindLocked,counters,akRateFindLocked]
  have room := rateMakeRoom_admits (nowMs env.clock) s s' counters count
  unfold akRateLimitCheck
  dsimp only
  rw [find]
  split
  · exact rateCharge_admits _ _ _ _ _ _
  rw [room]
  split
  · rfl
  split
  · rfl
  exact rateCharge_admits _ _ _ _ _ _

end AuthorityKernel.Capability
