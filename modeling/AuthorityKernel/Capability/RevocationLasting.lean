import AuthorityKernel.Capability.Lifecycle

/-! Within one boot a revoked token stays unusable: its entry outlives it, because
entries are kept for longer than any token lives. Revoking a run enters the run
id among the token ids, where validation never looks a run id up. -/
namespace AuthorityKernel.Capability
open Library

theorem akKeyRotate_revocations (clock : UInt64) (random : Secret) (s : CapState) :
    (akKeyRotate clock random s).revocations = s.revocations := by
  unfold akKeyRotate
  dsimp only
  split
  · rfl
  · split <;> rfl

variable {tid : TokenId} {w : World}

theorem worldStep_find {step : Step} (inBoot : InBoot step) {entry : RevocationEntry}
    (found : akRevocationFindLocked w.caps tid = some entry) :
    akRevocationFindLocked (worldStep w step).caps tid = some entry ∨
      ∃ reading ∈ readings w.log step, entry.revokedMs.toNat + 691200000 < (nowMs reading).toNat := by
  cases step with
  | create | delegate | exportKeys => exact Or.inl found
  | revoke env _ target reason | revokeRun env _ target reason =>
    rcases akRevocationInsertLocked_find env.sweepClock env.entryAlloc target tid (nowMs env.clock)
      (if env.reasonAlloc then some reason.1 else none) w.caps entry found with kept | dropped
    · exact Or.inl kept
    · exact Or.inr ⟨env.sweepClock,by simp [readings],dropped⟩
  | sweep clock =>
    rcases akRevocationSweepLocked_find (nowMs clock) found with kept | dropped
    · exact Or.inl kept
    · exact Or.inr ⟨clock,by simp [readings],dropped⟩
  | rotate clock random =>
    left
    change akRevocationFindLocked (akKeyRotate clock random w.caps) tid = some entry
    rw [akRevocationFindLocked,akKeyRotate_revocations]
    exact found
  | validate env cap request =>
    left
    change akRevocationFindLocked (akCapabilityValidate env cap request w.caps).1 tid = some entry
    rw [akRevocationFindLocked,(akCapabilityValidate_frame env cap request w.caps).revocations]
    exact found
  | restart env => exact inBoot.elim

theorem worldStep_issues {step : Step} {cap : AkCapability} (issued : cap ∈ (worldStep w step).issued) :
    cap ∈ w.issued ∨ ∃ env args, env.clock ∈ readings w.log step ∧ akCapabilityCreate env args w.caps = some cap := by
  cases step with
  | create env args =>
    rcases List.mem_append.mp issued with old | new
    · exact .inl old
    · exact .inr ⟨env,args,by simp [readings],Option.mem_toList.mp new⟩
  | delegate env parent args =>
    rcases List.mem_append.mp issued with old | new
    · exact .inl old
    · obtain ⟨holder,_,created⟩ := akCapabilityDelegate_created (Option.mem_toList.mp new)
      exact .inr ⟨env.create,_,by simp [readings],created⟩
  | _ => exact .inl issued

theorem worldStep_issuedWell (w : World) (step : Step) (well : ∀ cap ∈ w.issued, IssuedWell cap) :
    ∀ cap ∈ (worldStep w step).issued, IssuedWell cap := by
  intro cap issued
  rcases worldStep_issues issued with old | ⟨env,args,_,created⟩
  · exact well cap old
  · obtain ⟨_,_,rfl⟩ := akCapabilityCreate_spec created
    exact ⟨clampTtl_le args.ttlMs,env.clock,rfl⟩

def Barred (tid : TokenId) (t : Nat) (w : World) : Prop :=
  (∃ entry, akRevocationFindLocked w.caps tid = some entry ∧ entry.revokedMs.toNat = t) ∨
    t + 691200000 < (nowMs w.clock).toNat

def InBootTimely (w : World) (step : Step) : Prop := Timely w step ∧ InBoot step

theorem worldStep_barred (tid : TokenId) (t : Nat) (w : World) (step : Step) (allowed : InBootTimely w step)
    (barred : Barred tid t w) : Barred tid t (worldStep w step) := by
  obtain ⟨forward,past⟩ := worldStep_clock allowed.1 allowed.2
  have advance : ∀ reading, reading ≤ (worldStep w step).clock →
      (nowMs reading).toNat ≤ (nowMs (worldStep w step).clock).toNat := fun reading later =>
    UInt64.le_iff_toNat_le.mp (nowMs_mono later)
  rcases barred with ⟨entry,found,rfl⟩ | expired
  · rcases worldStep_find allowed.2 found with kept | ⟨reading,member,dropped⟩
    · exact Or.inl ⟨entry,kept,rfl⟩
    · exact Or.inr (lt_of_lt_of_le dropped (advance reading (past reading member)))
  · exact Or.inr (lt_of_lt_of_le expired (advance _ forward))

/-- A token whose id is in the table, or that has expired, is refused from then on. -/
theorem refused_of_out {cap : AkCapability} (out : (∃ entry, akRevocationFindLocked w.caps cap.tid = some entry) ∨
    (expiryMs cap).toNat < (nowMs w.clock).toNat) (env : ValidateEnv) (later : w.clock ≤ env.verify.clock)
    (request : Request) : (akCapabilityValidate env (some cap) request w.caps).2 ≠ 0 := by
  intro admitted
  obtain ⟨⟨_,unexpired⟩,absent,_⟩ := (akCapabilityValidate_eq_zero_iff env cap request w.caps).mp admitted
  rcases out with ⟨entry,found⟩ | expired
  · rw [found] at absent
    simp at absent
  · have forward := UInt64.le_iff_toNat_le.mp (nowMs_mono later)
    have bound := UInt64.le_iff_toNat_le.mp unexpired
    omega

theorem Barred.refused {t : Nat} (barred : Barred tid t w) (cap : AkCapability) (same : cap.tid = tid)
    (well : IssuedWell cap) (early : cap.issuedMs.toNat ≤ t) (env : ValidateEnv) (later : w.clock ≤ env.verify.clock)
    (request : Request) : (akCapabilityValidate env (some cap) request w.caps).2 ≠ 0 := by
  obtain ⟨expiry,ttl⟩ := well.expiry
  refine refused_of_out ?_ env later request
  rw [same]
  exact barred.imp (fun ⟨entry,found,_⟩ => ⟨entry,found⟩) fun expired => by omega

theorem reached_issuedWell {clock : UInt64} {random : Secret} {steps : List Step} :
    ∀ cap ∈ (reached clock random steps).issued, IssuedWell cap :=
  Run.invariant_run_always worldStep_issuedWell _ _ (by simp [booted])

theorem revoke_barred {env : RevokeEnv} (logEnv : LogEnv) {reason : CString}
    (success : (akRevocationAdd env tid reason w.caps).2 = true) :
    Barred tid (nowMs env.clock).toNat (worldStep w (.revoke env logEnv tid reason)) :=
  Or.inl ⟨_,akRevocationInsertLocked_inserted _ _ _ _ _ _ success,rfl⟩

/-- In every run of one boot, once a revocation of a token id has succeeded, no
token with that id issued at or before the revocation is ever validated again. -/
theorem revocation_permanent_within_boot (clock : UInt64) (random : Secret) (history later : List Step)
    (env : RevokeEnv) (logEnv : LogEnv) (tid : TokenId) (reason : CString)
    (timely : Run.Guarded worldStep InBootTimely (booted clock random)
      (history ++ .revoke env logEnv tid reason :: later))
    (success : (akRevocationAdd env tid reason (reached clock random history).caps).2 = true)
    (cap : AkCapability)
    (issued : cap ∈ (reached clock random (history ++ .revoke env logEnv tid reason :: later)).issued)
    (same : cap.tid = tid) (early : cap.issuedMs ≤ nowMs env.clock) (validateEnv : ValidateEnv)
    (now : (reached clock random (history ++ .revoke env logEnv tid reason :: later)).clock ≤ validateEnv.verify.clock)
    (request : Request) :
    (akCapabilityValidate validateEnv (some cap) request
      (reached clock random (history ++ .revoke env logEnv tid reason :: later)).caps).2 ≠ 0 := by
  have well := reached_issuedWell cap issued
  rw [Run.guarded_append,Run.guarded_cons] at timely
  have first := revoke_barred logEnv success
  have barred := Run.invariant_run (worldStep_barred tid (nowMs env.clock).toNat) _ later timely.2.2 first
  rw [reached,Run.run_append,Run.run_cons] at now ⊢
  exact barred.refused cap same well (UInt64.le_iff_toNat_le.mp early) validateEnv now request

/-- A token issued at boot, revoked at once, and presented again after a sweep nine
days later. -/
theorem revoked_week_token_refused :
    (akCapabilityValidate (plainValidate (9 * 86400000 * 1000000))
      (some (weekToken 0 (Block.zero 16) none 0 (Block.zero 32))) anyTool
      (reached 0 (Block.zero 32)
        ([.create (plainCreate 0 (Block.zero 16)) (weekArgs none)] ++
          .revoke (plainRevoke 0) (plainLog 0) (Block.zero 16) ⟨ascii "leaked",by decide⟩ ::
          [.sweep (9 * 86400000 * 1000000)])).caps).2 ≠ 0 :=
  revocation_permanent_within_boot 0 (Block.zero 32) [.create (plainCreate 0 (Block.zero 16)) (weekArgs none)]
    [.sweep (9 * 86400000 * 1000000)] (plainRevoke 0) (plainLog 0) (Block.zero 16) ⟨ascii "leaked",by decide⟩
    ⟨⟨by decide,trivial⟩,⟨by decide,trivial⟩,⟨by decide,trivial⟩,trivial⟩ rfl _
    (List.mem_append_right _ (Option.mem_toList.mpr rfl)) rfl (by decide) _ (by decide) _

def IssuedByNow (w : World) : Prop := ∀ cap ∈ w.issued, cap.issuedMs ≤ nowMs w.clock

theorem worldStep_issuedByNow (w : World) (step : Step) (allowed : InBootTimely w step) (byNow : IssuedByNow w) :
    IssuedByNow (worldStep w step) := by
  obtain ⟨forward,past⟩ := worldStep_clock allowed.1 allowed.2
  intro cap issued
  rcases worldStep_issues issued with old | ⟨env,_,read,created⟩
  · exact UInt64.le_trans (byNow cap old) (nowMs_mono forward)
  · obtain ⟨short,names,rfl⟩ := akCapabilityCreate_spec created
    exact nowMs_mono (past env.clock read)

theorem akRevocationAdd_other (env : RevokeEnv) {target : TokenId} (reason : CString) {s : CapState}
    {validateEnv : ValidateEnv} {cap : AkCapability} {request : Request} (different : target ≠ cap.tid)
    (admitted : (akCapabilityValidate validateEnv (some cap) request s).2 = 0) :
    (akCapabilityValidate validateEnv (some cap) request (akRevocationAdd env target reason s).1).2 = 0 := by
  rw [akCapabilityValidate_eq_zero_iff] at admitted ⊢
  obtain ⟨⟨authentic,unexpired⟩,absent,scope,rate⟩ := admitted
  obtain ⟨same⟩ := akRevocationInsertLocked_frame env.sweepClock env.entryAlloc target (nowMs env.clock)
    (if env.reasonAlloc then some reason.1 else none) s
  change (akRevocationAdd env target reason s).1 = _ at same
  refine ⟨⟨?_,unexpired⟩,akRevocationInsertLocked_find_none _ _ _ _ different absent,scope,?_⟩
  · rw [same]
    exact authentic
  · rcases rate with unlimited | admits
    · exact Or.inl unlimited
    · right
      rw [akRateLimitCheck_admits _ _ _ _ s _ (by rw [same]) (by rw [same])]
      exact admits

/-- For a token that was valid when its run was revoked, the revocation of the run
keeps it out for the rest of the boot exactly when the token's own id is the run id. -/
theorem run_revocation_effective_iff (clock : UInt64) (random : Secret) (history : List Step)
    (env : RevokeEnv) (logEnv : LogEnv) (reason : CString) (cap : AkCapability)
    (timely : Run.Guarded worldStep InBootTimely (booted clock random)
      (history ++ [.revokeRun env logEnv cap.runId reason]))
    (success : (akRevocationRevokeRun env cap.runId reason (reached clock random history).caps).2 = true)
    (issued : cap ∈ (reached clock random history).issued) (validEnv : ValidateEnv) (validRequest : Request)
    (during : logEnv.clock ≤ validEnv.verify.clock)
    (valid : (akCapabilityValidate validEnv (some cap) validRequest (reached clock random history).caps).2 = 0) :
    (∀ later validateEnv request,
      Run.Guarded worldStep InBootTimely (booted clock random)
        (history ++ .revokeRun env logEnv cap.runId reason :: later) →
      (reached clock random (history ++ .revokeRun env logEnv cap.runId reason :: later)).clock ≤
        validateEnv.verify.clock →
      (akCapabilityValidate validateEnv (some cap) request
        (reached clock random (history ++ .revokeRun env logEnv cap.runId reason :: later)).caps).2 ≠ 0) ↔
      cap.tid = cap.runId := by
  obtain ⟨before,atRevoke,_⟩ := (Run.guarded_append _ _ _).mp timely
  have unfolded : ∀ later, reached clock random (history ++ .revokeRun env logEnv cap.runId reason :: later) =
      Run.run worldStep (worldStep (reached clock random history) (.revokeRun env logEnv cap.runId reason)) later := by
    intro later
    rw [reached,Run.run_append,Run.run_cons]
    rfl
  constructor
  · intro refused
    by_contra different
    apply refused [] validEnv validRequest timely
    · rw [unfolded]
      exact during
    · rw [unfolded]
      exact akRevocationAdd_other env reason (Ne.symm different) valid
  · intro same later validateEnv request guarded now
    rw [unfolded] at now ⊢
    rw [Run.guarded_append,Run.guarded_cons] at guarded
    have byNow : IssuedByNow (reached clock random history) :=
      Run.invariant_run worldStep_issuedByNow (booted clock random) history before (by simp [IssuedByNow,booted])
    have early : cap.issuedMs ≤ nowMs env.clock := by
      have sorted := atRevoke.1.inBoot atRevoke.2
      exact UInt64.le_trans (byNow cap issued) (nowMs_mono ((List.pairwise_cons.mp sorted).1 _ (by simp [readings])))
    have first := revoke_barred logEnv success
    have barred := Run.invariant_run (worldStep_barred cap.runId (nowMs env.clock).toNat) _ later guarded.2.2 first
    exact barred.refused cap same (reached_issuedWell cap issued)
      (UInt64.le_iff_toNat_le.mp early) validateEnv now request

def idOnes : TokenId := ⟨List.replicate 16 1,rfl⟩
def idTwos : TokenId := ⟨List.replicate 16 2,rfl⟩

theorem booted_weekToken_admitted (tid : TokenId) (runId : Option TokenId) :
    (akCapabilityValidate (plainValidate 0) (some (weekToken 0 tid runId 0 (Block.zero 32))) anyTool
      (booted 0 (Block.zero 32)).caps).2 = 0 := by
  apply weekToken_admitted
  · exact akCapabilityCreate_authentic (plainCreate 0 tid) (weekArgs runId) _ _
      (akKeysInit_invariant 0 (Block.zero 32) .static) rfl
  · decide
  · rfl

def ownRun (later : List Step) : List Step :=
  [.create (plainCreate 0 idOnes) (weekArgs (some idOnes))] ++
    .revokeRun (plainRevoke 0) (plainLog 0) idOnes ⟨ascii "stop",by decide⟩ :: later

/-- A run whose id happens to be the token's own id is the one case that works. -/
theorem run_revocation_of_equal_ids :
    (weekToken 0 idOnes (some idOnes) 0 (Block.zero 32)).tid = idOnes ∧ (∀ later validateEnv request,
      Run.Guarded worldStep InBootTimely (booted 0 (Block.zero 32)) (ownRun later) →
      (reached 0 (Block.zero 32) (ownRun later)).clock ≤ validateEnv.verify.clock →
      (akCapabilityValidate validateEnv (some (weekToken 0 idOnes (some idOnes) 0 (Block.zero 32))) request
        (reached 0 (Block.zero 32) (ownRun later)).caps).2 ≠ 0) :=
  ⟨rfl,(run_revocation_effective_iff 0 (Block.zero 32) [.create (plainCreate 0 idOnes) (weekArgs (some idOnes))]
    (plainRevoke 0) (plainLog 0) ⟨ascii "stop",by decide⟩ (weekToken 0 idOnes (some idOnes) 0 (Block.zero 32))
    ⟨⟨by decide,trivial⟩,⟨by decide,trivial⟩,trivial⟩ rfl
    (List.mem_append_right _ (Option.mem_toList.mpr rfl)) (plainValidate 0) anyTool (by decide)
    (booted_weekToken_admitted idOnes (some idOnes))).mpr rfl⟩

/-- A token of a run that has been revoked is admitted as before. -/
theorem revoked_run_token_admitted :
    (akRevocationRevokeRun (plainRevoke 0) idOnes ⟨ascii "stop",by decide⟩
      (reached 0 (Block.zero 32) [.create (plainCreate 0 idTwos) (weekArgs (some idOnes))]).caps).2 = true ∧
    (weekToken 0 idTwos (some idOnes) 0 (Block.zero 32)).runId = idOnes ∧
    (akCapabilityValidate (plainValidate 0) (some (weekToken 0 idTwos (some idOnes) 0 (Block.zero 32))) anyTool
      (reached 0 (Block.zero 32) [.create (plainCreate 0 idTwos) (weekArgs (some idOnes)),
        .revokeRun (plainRevoke 0) (plainLog 0) idOnes ⟨ascii "stop",by decide⟩]).caps).2 = 0 :=
  ⟨rfl,rfl,akRevocationAdd_other (plainRevoke 0) _ (by decide)
    (booted_weekToken_admitted idTwos (some idOnes))⟩

end AuthorityKernel.Capability
