import AuthorityKernel.Capability.Validate
import AuthorityKernel.Capability.KeyInvariant

/-! The capability subsystem over time: tokens are issued, delegated, revoked and
validated, keys rotate, and the kernel restarts with a clock that begins again
while tokens, the audit log and the saved keys live on. -/
namespace AuthorityKernel.Capability
open Library

structure LogEntry where
  op : UInt16
  pid : TokenId
  tsMs : UInt64
deriving DecidableEq

def revocationOp : UInt16 := 0xFFFF

structure LogEnv where
  clock : UInt64
  appended : Bool

def akAuditLogRevocation (env : LogEnv) (tid : TokenId) (log : List LogEntry) : List LogEntry :=
  if env.appended then log ++ [⟨revocationOp,tid,nowMs env.clock⟩] else log

structure LoadEnv where
  queryAlloc : Bool
  insertClock : Nat → UInt64
  reasonAlloc : Nat → Bool
  entryAlloc : Nat → Bool
  sweepClock : UInt64

def replayEntry (env : LoadEnv) (s : CapState) (indexed : LogEntry × Nat) : CapState :=
  (akRevocationInsertLocked (env.insertClock indexed.2) (env.entryAlloc indexed.2) indexed.1.pid indexed.1.tsMs
    (if env.reasonAlloc indexed.2 then some (ascii "(recovered from log)") else none) s).1

def revocationEntries (log : List LogEntry) : List LogEntry := log.filter fun entry => entry.op == revocationOp

def akRevocationLoadFromLog (env : LoadEnv) (log : List LogEntry) (s : CapState) : CapState :=
  if !s.initialized then s
  else if log.isEmpty then s
  else if !env.queryAlloc || (revocationEntries log).isEmpty then s
  else akRevocationSweepLocked (nowMs env.sweepClock)
    ((revocationEntries log).zipIdx.foldl (replayEntry env) s)

/-- One machine across restarts. `issued` collects every token ever handed out,
`log` and `blob` are what persists, `clock` is the last reading of this boot. -/
structure World where
  caps : CapState
  issued : List AkCapability
  log : List LogEntry
  blob : Option Bytes
  clock : UInt64

structure RestartEnv where
  initClock : UInt64
  random : Secret
  importClock : UInt64
  load : LoadEnv

inductive Step
  | create (env : CreateEnv) (args : CreateArgs)
  | delegate (env : DelegateEnv) (parent : Option AkCapability) (args : DelegateArgs)
  | revoke (env : RevokeEnv) (logEnv : LogEnv) (tid : TokenId) (reason : CString)
  | revokeRun (env : RevokeEnv) (logEnv : LogEnv) (runId : TokenId) (reason : CString)
  | sweep (clock : UInt64)
  | rotate (clock : UInt64) (random : Secret)
  | validate (env : ValidateEnv) (cap : Option AkCapability) (request : Request)
  | exportKeys (alloc : Bool)
  | restart (env : RestartEnv)

def readings (log : List LogEntry) : Step → List UInt64
  | .create env _ => [env.clock]
  | .delegate env _ _ => [env.verify.clock,env.remainingClock,env.create.clock]
  | .revoke env logEnv _ _ => [env.clock,env.sweepClock,logEnv.clock]
  | .revokeRun env logEnv _ _ => [env.clock,env.sweepClock,logEnv.clock]
  | .sweep clock => [clock]
  | .rotate clock _ => [clock]
  | .validate env _ _ => [env.verify.clock,env.rate.clock]
  | .exportKeys _ => []
  | .restart env => [env.initClock,env.importClock] ++
      (List.range (revocationEntries log).length).map env.load.insertClock ++ [env.load.sweepClock]

def restarted (env : RestartEnv) (blob : Option Bytes) (log : List LogEntry) : CapState :=
  akRevocationLoadFromLog env.load log
    (akKeysImport env.importClock blob (akKeysInit env.initClock env.random .static)).1

def effect (w : World) : Step → World
  | .create env args => { w with issued := w.issued ++ (akCapabilityCreate env args w.caps).toList }
  | .delegate env parent args => { w with issued := w.issued ++ (akCapabilityDelegate env parent args w.caps).toList }
  | .revoke env logEnv tid reason =>
      { w with
        caps := (akRevocationAdd env tid reason w.caps).1
        log := akAuditLogRevocation logEnv tid w.log }
  | .revokeRun env logEnv runId reason =>
      { w with
        caps := (akRevocationRevokeRun env runId reason w.caps).1
        log := akAuditLogRevocation logEnv runId w.log }
  | .sweep clock => { w with caps := akRevocationSweepLocked (nowMs clock) w.caps }
  | .rotate clock random => { w with caps := akKeyRotate clock random w.caps }
  | .validate env cap request => { w with caps := (akCapabilityValidate env cap request w.caps).1 }
  | .exportKeys alloc => { w with blob := (akKeysExport alloc w.caps).or w.blob }
  | .restart env => { w with caps := restarted env w.blob w.log }

def worldStep (w : World) (step : Step) : World :=
  { effect w step with clock := (readings w.log step).getLastD w.clock }

def clockBefore (w : World) : Step → List UInt64
  | .restart _ => []
  | _ => [w.clock]

def Timely (w : World) (step : Step) : Prop := (clockBefore w step ++ readings w.log step).Pairwise (· ≤ ·)

instance (w : World) (step : Step) : Decidable (Timely w step) :=
  inferInstanceAs (Decidable (List.Pairwise (· ≤ ·) (clockBefore w step ++ readings w.log step)))

def InBoot : Step → Prop
  | .restart _ => False
  | _ => True

def booted (clock : UInt64) (random : Secret) : World where
  caps := akKeysInit clock random .static
  issued := []
  log := []
  blob := none
  clock := clock

def reached (clock : UInt64) (random : Secret) (steps : List Step) : World :=
  Run.run worldStep (booted clock random) steps

variable {cap : AkCapability} {s : CapState} {args : CreateArgs} {env : CreateEnv} {step : Step} {w : World}

theorem akCapabilityCreate_spec (created : akCapabilityCreate env args s = some cap) :
    ∃ short names, cap = sign env.hmacAlloc (akKeyGetActive s).secret
      (unsignedToken env args (akKeyGetActive s).kid short names) := by
  unfold akCapabilityCreate at created
  split at created
  · simp at created
  split at created
  · simp at created
  split at created
  · simp at created
  split at created
  · rename_i short
    split at created
    · rename_i names
      exact ⟨short,names,(Option.some.inj created).symm⟩
    · simp at created
  · simp at created

theorem clampTtl_le (ttlMs : UInt32) : clampTtl ttlMs ≤ akMaxCapTtlMs := by
  unfold clampTtl
  split
  · exact UInt32.le_refl _
  · rename_i small
    exact UInt32.not_lt.mp small

structure IssuedWell (cap : AkCapability) : Prop where
  ttl : cap.ttlMs ≤ akMaxCapTtlMs
  stamped : ∃ clock, cap.issuedMs = nowMs clock

theorem akCapabilityDelegate_created {env : DelegateEnv} {parent : Option AkCapability} {args : DelegateArgs}
    (delegated : akCapabilityDelegate env parent args s = some cap) :
    ∃ holder, parent = some holder ∧ akCapabilityCreate env.create
      ⟨args.type,args.resource,args.methods,args.ttlMs,args.rateLimit,args.rateWindowMs,some holder.runId⟩ s =
        some cap := by
  unfold akCapabilityDelegate at delegated
  cases parent with
  | none => simp at delegated
  | some holder =>
    refine ⟨holder,rfl,?_⟩
    dsimp only at delegated
    repeat (split at delegated; · simp at delegated)
    exact delegated

theorem IssuedWell.expiry (well : IssuedWell cap) :
    (expiryMs cap).toNat = cap.issuedMs.toNat + cap.ttlMs.toNat ∧ cap.ttlMs.toNat ≤ 604800000 := by
  obtain ⟨ttl,clock,stamped⟩ := well
  have small := nowMs_le clock
  have bound : cap.ttlMs.toNat ≤ 604800000 := UInt32.le_iff_toNat_le.mp ttl
  refine ⟨?_,bound⟩
  rw [expiryMs,UInt64.toNat_add,UInt32.toNat_toUInt64,stamped]
  omega

theorem le_getLastD {start : UInt64} {list : List UInt64} (sorted : (start :: list).Pairwise (· ≤ ·)) :
    start ≤ list.getLastD start ∧ ∀ reading ∈ list, reading ≤ list.getLastD start := by
  rcases List.eq_nil_or_concat' list with rfl | ⟨front,last,rfl⟩
  · exact ⟨UInt64.le_refl _,by simp⟩
  rw [List.pairwise_cons,List.pairwise_append] at sorted
  obtain ⟨first,_,_,before⟩ := sorted
  simp only [List.getLastD_concat]
  refine ⟨first last (by simp),fun reading member => ?_⟩
  rcases List.mem_append.mp member with inner | end_
  · exact before reading inner last (by simp)
  · rw [List.mem_singleton.mp end_]
    exact UInt64.le_refl _

theorem Timely.inBoot (timely : Timely w step) (inBoot : InBoot step) :
    (w.clock :: readings w.log step).Pairwise (· ≤ ·) := by
  cases step with
  | restart env => exact inBoot.elim
  | _ => exact timely

theorem worldStep_clock (timely : Timely w step) (inBoot : InBoot step) :
    w.clock ≤ (worldStep w step).clock ∧ ∀ reading ∈ readings w.log step, reading ≤ (worldStep w step).clock :=
  le_getLastD (timely.inBoot inBoot)

theorem akCapabilityCreate_authentic (env : CreateEnv) (args : CreateArgs) (s : CapState) (cap : AkCapability)
    (invariant : KeyInvariant s) (created : akCapabilityCreate env args s = some cap) :
    Authentic env.hmacAlloc cap s := by
  obtain ⟨short,names,rfl⟩ := akCapabilityCreate_spec created
  exact ⟨s.activeKid,(invariant.unique _ _).mpr ⟨rfl,invariant.live⟩,rfl⟩

theorem star_nul_free : (0 : UInt8) ∉ ascii "*" := by decide

theorem star_fits : (ascii "*").length < 255 := by decide

def weekArgs (runId : Option TokenId) : CreateArgs where
  type := 3
  resource := ⟨ascii "*",star_nul_free⟩
  methods := none
  ttlMs := 604800000
  rateLimit := 0
  rateWindowMs := 0
  runId := runId

def plainCreate (clock : UInt64) (tid : TokenId) : CreateEnv := ⟨true,clock,tid,true⟩
def plainRevoke (clock : UInt64) : RevokeEnv := ⟨clock,clock,true,true⟩
def plainLog (clock : UInt64) : LogEnv := ⟨clock,true⟩
def plainValidate (clock : UInt64) : ValidateEnv := ⟨⟨clock,true⟩,⟨clock,true⟩⟩

def weekToken (clock : UInt64) (tid : TokenId) (runId : Option TokenId) (kid : UInt8) (secret : Secret) : AkCapability :=
  sign true secret (unsignedToken (plainCreate clock tid) (weekArgs runId) kid
    star_fits (by simp [weekArgs,copiedMethods]))

def anyTool : Request := ⟨.tool,⟨ascii "fetch",by decide⟩,none,none⟩

theorem weekToken_inScope (clock : UInt64) (tid : TokenId) (runId : Option TokenId) (kid : UInt8) (secret : Secret) :
    InScope (weekToken clock tid runId kid secret) anyTool :=
  ⟨rfl,Glob.denotes_lone_star _,rfl,rfl⟩

theorem weekToken_admitted {clock : UInt64} {tid : TokenId} {runId : Option TokenId} {kid : UInt8} {secret : Secret}
    {now : UInt64} (authentic : Authentic true (weekToken clock tid runId kid secret) s)
    (unexpired : nowMs now ≤ nowMs clock + 604800000) (clear : akRevocationFindLocked s tid = none) :
    (akCapabilityValidate (plainValidate now) (some (weekToken clock tid runId kid secret)) anyTool s).2 = 0 := by
  rw [akCapabilityValidate_eq_zero_iff]
  exact ⟨⟨authentic,unexpired⟩,clear,weekToken_inScope clock tid runId kid secret,Or.inl rfl⟩

end AuthorityKernel.Capability
