import AuthorityKernel.Capability.KeyBlob
import AuthorityKernel.Capability.RevocationLasting

/-! Revocation across restarts. The log brings every revoked id back, stamped with
the clock of the boot that revoked it, while a token keeps the issue time of its own
boot. The entry outlives the token only if the token was revoked on a clock that
had come within the retention time of its expiry. -/
namespace AuthorityKernel.Capability
open Library

/-- An entry made at `revokedMs` is retained until the token has expired. -/
def Outlasts (cap : AkCapability) (revokedMs : UInt64) : Prop :=
  (expiryMs cap).toNat ≤ revokedMs.toNat + 691200000

def FreshId (w : World) (tid : TokenId) : Prop :=
  (∀ entry ∈ w.log, entry.pid ≠ tid) ∧ akRevocationFindLocked w.caps tid = none

/-- Every token issued so far under the id has at most the retention time to live. -/
def RevokedInTime (w : World) (clock : UInt64) (tid : TokenId) : Prop :=
  ∀ cap ∈ w.issued, cap.tid = tid → Outlasts cap (nowMs clock)

/-- The condition under which a step lets no revocation lapse. -/
def StepKeeps (w : World) (step : Step) : Prop :=
  Timely w step ∧ match step with
    | .create env _ => FreshId w env.tid
    | .delegate env _ _ => FreshId w env.create.tid
    | .revoke env _ tid _ => RevokedInTime w env.clock tid
    | .revokeRun env _ runId _ => RevokedInTime w env.clock runId
    | .restart env => env.load.queryAlloc = true ∧ ∀ n, env.load.entryAlloc n = true
    | _ => True

/-- What the log and the table hold against an issued token outlasts it. -/
structure Dated (w : World) : Prop where
  logged : ∀ cap ∈ w.issued, ∀ entry ∈ revocationEntries w.log, entry.pid = cap.tid → Outlasts cap entry.tsMs
  recorded : ∀ cap ∈ w.issued, ∀ entry, Recorded w.caps entry → entry.tid = cap.tid → Outlasts cap entry.revokedMs

variable {cap : AkCapability} {s : CapState} {log : List LogEntry} {entry : LogEntry} {tid : TokenId} {w : World}

variable (step : Step) (env : RestartEnv) (clock : UInt64) (blob : Option Bytes)

theorem akAuditLogRevocation_entries {env : LogEnv}
    (member : entry ∈ revocationEntries (akAuditLogRevocation env tid log)) :
    entry ∈ revocationEntries log ∨ entry = ⟨revocationOp,tid,nowMs env.clock⟩ := by
  unfold akAuditLogRevocation at member
  split at member
  · rw [revocationEntries,List.filter_append,List.mem_append] at member
    rcases member with old | new
    · exact Or.inl old
    · exact Or.inr (List.mem_singleton.mp (List.mem_of_mem_filter new))
  · exact Or.inl member

theorem revoke_dated {env : RevokeEnv} {logEnv : LogEnv} (reason : CString)
    (forward : env.clock ≤ logEnv.clock) (inTime : RevokedInTime w env.clock tid) (dated : Dated w) :
    Dated { w with
      caps := (akRevocationAdd env tid reason w.caps).1
      log := akAuditLogRevocation logEnv tid w.log } where
  logged := by
    intro cap issued entry member same
    rcases akAuditLogRevocation_entries member with old | rfl
    · exact dated.logged cap issued entry old same
    have short := inTime cap issued same.symm
    have later := UInt64.le_iff_toNat_le.mp (nowMs_mono forward)
    unfold Outlasts at short ⊢
    dsimp only
    omega
  recorded := by
    intro cap issued entry inside same
    rcases akRevocationInsertLocked_recorded _ _ _ _ _ _ _ inside with rfl | old
    · exact inTime cap issued same.symm
    · exact dated.recorded cap issued entry old same

theorem issue_dated (w : World) (token : Option AkCapability) (tid : TokenId)
    (drawn : ∀ cap, token = some cap → cap.tid = tid) (fresh : FreshId w tid) (dated : Dated w) :
    Dated { w with issued := w.issued ++ token.toList } where
  logged := by
    intro cap issued entry member same
    rcases List.mem_append.mp issued with old | new
    · exact dated.logged cap old entry member same
    · rw [drawn cap (Option.mem_toList.mp new)] at same
      exact absurd same (fresh.1 entry (List.mem_of_mem_filter member))
  recorded := by
    intro cap issued entry inside same
    rcases List.mem_append.mp issued with old | new
    · exact dated.recorded cap old entry inside same
    rw [drawn cap (Option.mem_toList.mp new)] at same
    have found := ChainTable.lookup_isSome_of_stores _ _ inside
    rw [same] at found
    have absent := fresh.2
    rw [akRevocationFindLocked] at absent
    rw [absent] at found
    simp at found

theorem akCapabilityCreate_tid (env : CreateEnv) (args : CreateArgs) (s : CapState) (cap : AkCapability)
    (created : akCapabilityCreate env args s = some cap) : cap.tid = env.tid := by
  obtain ⟨short,names,rfl⟩ := akCapabilityCreate_spec created
  rfl

theorem replay_recorded (env : LoadEnv) (entries : List (LogEntry × Nat)) (s : CapState) (entry : RevocationEntry)
    (recorded : Recorded (entries.foldl (replayEntry env) s) entry) :
    Recorded s entry ∨ ∃ source ∈ entries, entry.tid = source.1.pid ∧ entry.revokedMs = source.1.tsMs := by
  induction entries generalizing s with
  | nil => exact Or.inl recorded
  | cons first rest ih =>
    rcases ih (replayEntry env s first) recorded with here | ⟨source,member,same⟩
    · rcases akRevocationInsertLocked_recorded _ _ _ _ _ _ _ here with rfl | old
      · exact Or.inr ⟨first,List.mem_cons_self,rfl,rfl⟩
      · exact Or.inl old
    · exact Or.inr ⟨source,List.mem_cons_of_mem _ member,same⟩

theorem import_revocations (s : CapState) :
    (akKeysImport clock blob s).1.revocations = s.revocations ∧
      (akKeysImport clock blob s).1.revocationCount = s.revocationCount ∧
      (akKeysImport clock blob s).1.initialized = s.initialized := by
  unfold akKeysImport
  split
  · exact ⟨rfl,rfl,rfl⟩
  split
  · exact ⟨rfl,rfl,rfl⟩
  split <;> exact ⟨rfl,rfl,rfl⟩

theorem imported_not_recorded (entry : RevocationEntry) :
    ¬ Recorded (akKeysImport env.importClock blob (akKeysInit env.initClock env.random .static)).1 entry := by
  rw [Recorded,(import_revocations _ _ _).1]
  exact List.not_mem_nil

theorem restarted_recorded {env : RestartEnv} {blob : Option Bytes} {entry : RevocationEntry}
    (recorded : Recorded (restarted env blob log) entry) :
    ∃ source ∈ revocationEntries log, entry.tid = source.pid ∧ entry.revokedMs = source.tsMs := by
  unfold restarted akRevocationLoadFromLog at recorded
  split at recorded
  · exact absurd recorded (imported_not_recorded env blob entry)
  split at recorded
  · exact absurd recorded (imported_not_recorded env blob entry)
  split at recorded
  · exact absurd recorded (imported_not_recorded env blob entry)
  have replayed := akRevocationSweepLocked_recorded recorded
  rcases replay_recorded _ _ _ _ replayed with before | ⟨source,member,same⟩
  · exact absurd before (imported_not_recorded env blob entry)
  · exact ⟨source.1,(List.mem_zipIdx' member).2 ▸ List.getElem_mem _,same⟩

theorem worldStep_dated (w : World) (step : Step) (keeps : StepKeeps w step) (dated : Dated w) :
    Dated (worldStep w step) := by
  obtain ⟨timely,condition⟩ := keeps
  -- The clock, which `effect` leaves out, does not matter here.
  suffices after : Dated (effect w step) from ⟨after.logged,after.recorded⟩
  cases step with
  | create env args =>
    exact issue_dated w _ env.tid (akCapabilityCreate_tid env args w.caps) condition dated
  | delegate env parent args =>
    apply issue_dated w _ env.create.tid _ condition dated
    intro cap delegated
    obtain ⟨holder,_,created⟩ := akCapabilityDelegate_created delegated
    exact akCapabilityCreate_tid _ _ _ _ created
  | revoke _ _ _ reason | revokeRun _ _ _ reason =>
    have sorted := (List.pairwise_cons.mp (timely.inBoot trivial)).2
    exact revoke_dated reason ((List.pairwise_cons.mp sorted).1 _ (by simp)) condition dated
  | sweep clock =>
    exact ⟨dated.logged,fun cap issued entry inside same =>
      dated.recorded cap issued entry (akRevocationSweepLocked_recorded inside) same⟩
  | rotate clock random =>
    refine ⟨dated.logged,fun cap issued entry inside same => dated.recorded cap issued entry ?_ same⟩
    change ChainTable.Stores _ _ (akKeyRotate clock random w.caps).revocations entry at inside
    rw [akKeyRotate_revocations] at inside
    exact inside
  | validate env cap request =>
    refine ⟨dated.logged,fun cap issued entry inside same => dated.recorded cap issued entry ?_ same⟩
    change ChainTable.Stores _ _ (akCapabilityValidate env _ request w.caps).1.revocations entry at inside
    rw [(akCapabilityValidate_frame env _ request w.caps).revocations] at inside
    exact inside
  | exportKeys alloc => exact ⟨dated.logged,dated.recorded⟩
  | restart env =>
    refine ⟨dated.logged,fun cap issued entry inside same => ?_⟩
    obtain ⟨source,member,sameId,sameTime⟩ := restarted_recorded inside
    have outlasts := dated.logged cap issued source member (sameId ▸ same)
    rw [← sameTime] at outlasts
    exact outlasts

def Out (cap : AkCapability) (s : CapState) (clock : UInt64) : Prop :=
  (∃ entry, akRevocationFindLocked s cap.tid = some entry) ∨ (expiryMs cap).toNat < (nowMs clock).toNat

theorem Outlasts.expired {revokedMs reading clock : UInt64} (outlasts : Outlasts cap revokedMs)
    (dropped : revokedMs.toNat + 691200000 < (nowMs reading).toNat) (past : reading ≤ clock)
    : (expiryMs cap).toNat < (nowMs clock).toNat := by
  have forward := UInt64.le_iff_toNat_le.mp (nowMs_mono past)
  unfold Outlasts at outlasts
  omega

theorem find_outlasts {entry : RevocationEntry}
    (recorded : ∀ entry, Recorded s entry → entry.tid = cap.tid → Outlasts cap entry.revokedMs)
    (found : akRevocationFindLocked s cap.tid = some entry) : Outlasts cap entry.revokedMs :=
  recorded entry (ChainTable.stores_of_lookup _ _ _ found) (ChainTable.lookup_key _ _ _ found)

theorem akRevocationInsertLocked_present (tid : TokenId) (revokedMs : UInt64) (reason : Option Bytes) (s : CapState) :
    ∃ entry, akRevocationFindLocked (akRevocationInsertLocked clock true tid revokedMs reason s).1 tid = some entry := by
  cases found : akRevocationFindLocked s tid with
  | some entry =>
    refine ⟨entry,?_⟩
    rw [akRevocationInsertLocked,if_pos (by simp [found])]
    exact found
  | none =>
    refine ⟨_,akRevocationInsertLocked_inserted clock true tid revokedMs reason s ?_⟩
    rw [akRevocationInsertLocked,if_neg (by simp [found])]
    rfl

theorem replay_out (env : LoadEnv) (allocs : ∀ n, env.entryAlloc n = true) (limit : UInt64)
    (cap : AkCapability) (entries : List (LogEntry × Nat)) (s : CapState)
    (early : ∀ source ∈ entries, env.insertClock source.2 ≤ limit)
    (dated : ∀ source ∈ entries, source.1.pid = cap.tid → Outlasts cap source.1.tsMs)
    (recorded : ∀ entry, Recorded s entry → entry.tid = cap.tid → Outlasts cap entry.revokedMs)
    (start : Out cap s limit ∨ ∃ source ∈ entries, source.1.pid = cap.tid) :
    Out cap (entries.foldl (replayEntry env) s) limit := by
  induction entries generalizing s with
  | nil => simpa using start
  | cons first rest ih =>
    apply ih (replayEntry env s first)
    · exact fun source member => early source (List.mem_cons_of_mem _ member)
    · exact fun source member => dated source (List.mem_cons_of_mem _ member)
    · intro entry inside same
      rcases akRevocationInsertLocked_recorded _ _ _ _ _ _ _ inside with rfl | old
      · exact dated first List.mem_cons_self same
      · exact recorded entry old same
    · rcases start with (⟨entry,found⟩ | expired) | ⟨source,member,same⟩
      · left
        rcases akRevocationInsertLocked_find (env.insertClock first.2) (env.entryAlloc first.2) first.1.pid cap.tid
          first.1.tsMs (if env.reasonAlloc first.2 then some (ascii "(recovered from log)") else none) s entry found
          with kept | dropped
        · exact Or.inl ⟨entry,kept⟩
        · exact Or.inr ((find_outlasts recorded found).expired dropped (early first List.mem_cons_self))
      · exact Or.inl (Or.inr expired)
      · rcases List.mem_cons.mp member with rfl | later
        · left
          left
          unfold replayEntry
          rw [allocs,same]
          exact akRevocationInsertLocked_present _ _ _ _ _
        · exact Or.inr ⟨source,later,same⟩

theorem restarted_out (w : World) (env : RestartEnv) (timely : Timely w (.restart env))
    (query : env.load.queryAlloc = true) (allocs : ∀ n, env.load.entryAlloc n = true) (cap : AkCapability)
    (dated : ∀ entry ∈ revocationEntries w.log, entry.pid = cap.tid → Outlasts cap entry.tsMs)
    (logged : ∃ entry ∈ revocationEntries w.log, entry.pid = cap.tid) :
    Out cap (restarted env w.blob w.log) env.load.sweepClock := by
  obtain ⟨known,member,same⟩ := logged
  have before : ∀ n < (revocationEntries w.log).length, env.load.insertClock n ≤ env.load.sweepClock := by
    intro n bound
    have sorted : (([env.initClock,env.importClock] ++
        (List.range (revocationEntries w.log).length).map env.load.insertClock) ++
          [env.load.sweepClock]).Pairwise (· ≤ ·) := timely
    exact (List.pairwise_append.mp sorted).2.2 _
      (List.mem_append_right _ (List.mem_map_of_mem (List.mem_range.mpr bound))) _ (by simp)
  have source : ∀ indexed ∈ (revocationEntries w.log).zipIdx,
      indexed.1 ∈ revocationEntries w.log ∧ indexed.2 < (revocationEntries w.log).length := by
    intro indexed inside
    obtain ⟨bound,entry⟩ := List.mem_zipIdx' inside
    exact ⟨entry ▸ List.getElem_mem _,bound⟩
  have recorded : ∀ entry, Recorded ((revocationEntries w.log).zipIdx.foldl (replayEntry env.load)
        (akKeysImport env.importClock w.blob (akKeysInit env.initClock env.random .static)).1) entry →
      entry.tid = cap.tid → Outlasts cap entry.revokedMs := by
    intro entry inside sameId
    rcases replay_recorded _ _ _ _ inside with old | ⟨indexed,place,sameTid,sameTime⟩
    · exact absurd old (imported_not_recorded env w.blob entry)
    · rw [sameTime]
      exact dated indexed.1 (source indexed place).1 (sameTid ▸ sameId)
  have replayed := replay_out env.load allocs env.load.sweepClock cap (revocationEntries w.log).zipIdx
    (akKeysImport env.importClock w.blob (akKeysInit env.initClock env.random .static)).1
    (fun indexed inside => before indexed.2 (source indexed inside).2)
    (fun indexed inside => dated indexed.1 (source indexed inside).1)
    (fun entry inside => absurd inside (imported_not_recorded env w.blob entry))
    (Or.inr (by
      obtain ⟨n,bound,rfl⟩ := List.mem_iff_getElem.mp member
      exact ⟨(_,n),List.mk_mem_zipIdx_iff_getElem?.mpr (List.getElem?_eq_getElem bound),same⟩))
  have present : w.log.isEmpty = false := by
    rw [List.isEmpty_eq_false_iff_exists_mem]
    exact ⟨known,List.mem_of_mem_filter member⟩
  have some : (revocationEntries w.log).isEmpty = false :=
    List.isEmpty_eq_false_iff_exists_mem.mpr ⟨known,member⟩
  have ready : (akKeysImport env.importClock w.blob (akKeysInit env.initClock env.random .static)).1.initialized = true :=
    (import_revocations _ _ _).2.2
  rw [restarted,akRevocationLoadFromLog,if_neg (by simp [ready]),if_neg (by simp [present]),
    if_neg (by simp [query,some])]
  rcases replayed with ⟨entry,found⟩ | expired
  · rcases akRevocationSweepLocked_find (nowMs env.load.sweepClock) found with kept | dropped
    · exact Or.inl ⟨entry,kept⟩
    · exact Or.inr ((find_outlasts recorded found).expired dropped (UInt64.le_refl _))
  · exact Or.inr expired

/-- A token that has been revoked and logged, in any boot. -/
structure Forbidden (cap : AkCapability) (w : World) : Prop where
  dated : Dated w
  issued : cap ∈ w.issued
  logged : ∃ entry ∈ revocationEntries w.log, entry.pid = cap.tid
  out : Out cap w.caps w.clock

theorem worldStep_issued (issued : cap ∈ w.issued) : cap ∈ (worldStep w step).issued := by
  cases step with
  | create | delegate => exact List.mem_append_left _ issued
  | _ => exact issued

theorem worldStep_log (logged : entry ∈ revocationEntries w.log) :
    entry ∈ revocationEntries (worldStep w step).log := by
  have appended : ∀ env tid, entry ∈ revocationEntries (akAuditLogRevocation env tid w.log) := by
    intro env tid
    unfold akAuditLogRevocation
    split
    · rw [revocationEntries,List.filter_append]
      exact List.mem_append_left _ logged
    · exact logged
  cases step with
  | revoke _ logEnv tid | revokeRun _ logEnv tid => exact appended logEnv tid
  | _ => exact logged

theorem worldStep_out {step : Step} (timely : Timely w step) (inBoot : InBoot step)
    (forbidden : Forbidden cap w) : Out cap (worldStep w step).caps (worldStep w step).clock := by
  obtain ⟨forward,past⟩ := worldStep_clock timely inBoot
  rcases forbidden.out with ⟨entry,found⟩ | expired
  · rcases worldStep_find inBoot found with kept | ⟨reading,member,dropped⟩
    · exact Or.inl ⟨entry,kept⟩
    · have outlasts := find_outlasts (forbidden.dated.recorded cap forbidden.issued) found
      exact Or.inr (outlasts.expired dropped (past reading member))
  · have later := UInt64.le_iff_toNat_le.mp (nowMs_mono forward)
    exact Or.inr (lt_of_lt_of_le expired later)

theorem worldStep_forbidden (cap : AkCapability) (w : World) (step : Step) (keeps : StepKeeps w step)
    (forbidden : Forbidden cap w) : Forbidden cap (worldStep w step) where
  dated := worldStep_dated w step keeps forbidden.dated
  issued := worldStep_issued step forbidden.issued
  logged := by
    obtain ⟨entry,member,same⟩ := forbidden.logged
    exact ⟨entry,worldStep_log step member,same⟩
  out := by
    cases step with
    | restart env =>
      have last : (worldStep w (.restart env)).clock = env.load.sweepClock := by
        rw [worldStep,readings,List.getLastD_concat]
      rw [last]
      exact restarted_out w env keeps.1 keeps.2.1 keeps.2.2 cap
        (forbidden.dated.logged cap forbidden.issued) forbidden.logged
    | _ => exact worldStep_out keeps.1 trivial forbidden

theorem Forbidden.refused (forbidden : Forbidden cap w) (env : ValidateEnv) (later : w.clock ≤ env.verify.clock)
    (request : Request) : (akCapabilityValidate env (some cap) request w.caps).2 ≠ 0 :=
  refused_of_out forbidden.out env later request

theorem booted_dated (random : Secret) : Dated (booted clock random) :=
  ⟨by simp [booted],by simp [booted]⟩

/-- In every run, over any number of boots, in which each step meets `StepKeeps`: a
token whose id was entered in the table and in the log is never validated again. -/
theorem revocation_survives_restarts (clock : UInt64) (random : Secret) (history later : List Step)
    (env : RevokeEnv) (logEnv : LogEnv) (reason : CString) (cap : AkCapability)
    (keeps : Run.Guarded worldStep StepKeeps (booted clock random)
      (history ++ .revoke env logEnv cap.tid reason :: later))
    (issued : cap ∈ (reached clock random history).issued)
    (entered : akRevocationCheck (akRevocationAdd env cap.tid reason (reached clock random history).caps).1
      cap.tid = true)
    (logged : logEnv.appended = true) (validateEnv : ValidateEnv)
    (now : (reached clock random (history ++ .revoke env logEnv cap.tid reason :: later)).clock ≤
      validateEnv.verify.clock)
    (request : Request) :
    (akCapabilityValidate validateEnv (some cap) request
      (reached clock random (history ++ .revoke env logEnv cap.tid reason :: later)).caps).2 ≠ 0 := by
  rw [Run.guarded_append,Run.guarded_cons] at keeps
  obtain ⟨before,atRevoke,after⟩ := keeps
  have dated := Run.invariant_run worldStep_dated _ history before (booted_dated clock random)
  have first : Forbidden cap (worldStep (reached clock random history) (.revoke env logEnv cap.tid reason)) :=
    { dated := worldStep_dated _ _ atRevoke dated
      issued := worldStep_issued _ issued
      logged := ⟨⟨revocationOp,cap.tid,nowMs logEnv.clock⟩,by
        change _ ∈ revocationEntries (akAuditLogRevocation logEnv cap.tid (reached clock random history).log)
        simp [akAuditLogRevocation,logged,revocationEntries],rfl⟩
      out := Or.inl ((akRevocationCheck_eq_true _ _).mp entered) }
  have forbidden := Run.invariant_run (worldStep_forbidden cap) _ later after first
  rw [reached,Run.run_append,Run.run_cons] at now ⊢
  exact forbidden.refused validateEnv now request

def plainRestart : RestartEnv where
  initClock := 0
  random := ⟨List.replicate 32 7,rfl⟩
  importClock := 0
  load := ⟨true,fun _ => 0,fun _ => true,fun _ => true,0⟩

/-- A token issued at boot is revoked, and the next boot refuses it. -/
theorem revoked_week_token_refused_next_boot :
    (akCapabilityValidate (plainValidate 0) (some (weekToken 0 idOnes none 0 (Block.zero 32))) anyTool
      (reached 0 (Block.zero 32)
        ([.create (plainCreate 0 idOnes) (weekArgs none),.exportKeys true] ++
          .revoke (plainRevoke 0) (plainLog 0) idOnes ⟨ascii "leaked",by decide⟩ ::
          [.restart plainRestart])).caps).2 ≠ 0 :=
  revocation_survives_restarts 0 (Block.zero 32)
    [.create (plainCreate 0 idOnes) (weekArgs none),.exportKeys true] [.restart plainRestart] (plainRevoke 0)
    (plainLog 0) ⟨ascii "leaked",by decide⟩ (weekToken 0 idOnes none 0 (Block.zero 32))
    ⟨⟨by decide,by simp [booted],rfl⟩,⟨by decide,trivial⟩,
      ⟨by decide,fun cap issued _ => by
        rw [List.mem_singleton.mp (show cap ∈ [weekToken 0 idOnes none 0 (Block.zero 32)] from issued)]
        unfold Outlasts
        decide⟩,
      ⟨by decide,rfl,fun _ => rfl⟩,trivial⟩
    (List.mem_append_right _ (Option.mem_toList.mpr rfl)) rfl rfl _ (by decide) _

def fillerId (n : Nat) : TokenId := ⟨leBytes 16 n,leBytes_length 16 n⟩

theorem fillerId_ne (m n : Nat) (different : m ≠ n) (small : m < 1024) (small' : n < 1024) :
    fillerId m ≠ fillerId n := by
  intro same
  have bytes : leBytes 16 m = leBytes 16 n := congrArg Subtype.val same
  have bytes := congrArg leNat bytes
  rw [leNat_leBytes,leNat_leBytes,Nat.mod_eq_of_lt (by omega),Nat.mod_eq_of_lt (by omega)] at bytes
  exact different bytes

theorem fillerId_ne_idOnes (n : Nat) (small : n < 1024) : fillerId n ≠ idOnes := by
  intro same
  have bytes : leBytes 16 n = List.replicate 16 1 := congrArg Subtype.val same
  have bytes := congrArg leNat bytes
  have large : leNat (List.replicate 16 1) = 1334440654591915542993625911497130241 := by decide
  rw [leNat_leBytes,Nat.mod_eq_of_lt (by omega),large] at bytes
  omega

def noise : CString := ⟨ascii "noise",by decide⟩

@[irreducible] def fillers (n : Nat) : List Step :=
  (List.range n).map fun i => .revoke (plainRevoke 0) (plainLog 0) (fillerId i) noise

structure Filled (keys : Fin 4 → Key) (count n : Nat) (w : World) : Prop where
  clock : w.clock = 0
  keys : w.caps.keys = keys
  count : w.caps.revocationCount.toNat = count
  stamps : ∀ entry, Recorded w.caps entry → entry.revokedMs = 0
  absent : ∀ i, n ≤ i → i < 1024 → akRevocationFindLocked w.caps (fillerId i) = none

theorem akRevocationAdd_fresh (reason : CString) (absent : akRevocationFindLocked s tid = none)
    (room : s.revocationCount.toNat < 1024) :
    (akRevocationAdd (plainRevoke clock) tid reason s).1 =
      { s with
        revocations := s.revocations.insert akTidHash RevocationEntry.tid ⟨tid,nowMs clock,some reason.1⟩
        revocationCount := s.revocationCount + 1 } := by
  have below : ¬ s.revocationCount ≥ akRevocationSweepThreshold := by
    rw [ge_iff_le,UInt64.le_iff_toNat_le]
    change ¬ 1024 ≤ s.revocationCount.toNat
    omega
  rw [akRevocationAdd,akRevocationInsertLocked,if_neg (by simp [absent]),if_neg below]
  rfl

theorem revoke_filled (keys : Fin 4 → Key) (count n m : Nat) (w : World) (filled : Filled keys count n w)
    (room : count < 1024) (tid : TokenId) (absent : akRevocationFindLocked w.caps tid = none) (order : n ≤ m)
    (others : ∀ i, m ≤ i → i < 1024 → tid ≠ fillerId i) :
    Filled keys (count + 1) m (worldStep w (.revoke (plainRevoke 0) (plainLog 0) tid noise)) ∧
      Timely w (.revoke (plainRevoke 0) (plainLog 0) tid noise) := by
  have number := filled.count
  have added := akRevocationAdd_fresh 0 noise absent (by omega)
  refine ⟨⟨rfl,?_,?_,?_,?_⟩,?_⟩
  · change (akRevocationAdd _ _ _ _).1.keys = keys
    rw [added]
    exact filled.keys
  · change (akRevocationAdd _ _ _ _).1.revocationCount.toNat = _
    rw [added,UInt64.toNat_add]
    change (_ + 1) % 2 ^ 64 = _
    omega
  · intro entry inside
    rcases akRevocationInsertLocked_recorded _ _ _ _ _ _ _ inside with rfl | old
    · rfl
    · exact filled.stamps entry old
  · intro i after small
    exact akRevocationInsertLocked_find_none _ _ _ _ (others i after small)
      (filled.absent i (by omega) small)
  · change List.Pairwise (· ≤ ·) [w.clock,0,0,0]
    rw [filled.clock]
    decide

theorem fillers_filled {keys : Fin 4 → Key} {n : Nat} (start : Filled keys 1 0 w) (bound : n ≤ 1023) :
    Filled keys (1 + n) n (Run.run worldStep w (fillers n)) ∧ Run.Guarded worldStep Timely w (fillers n) := by
  induction n with
  | zero =>
    rw [fillers]
    exact ⟨start,trivial⟩
  | succ n ih =>
    obtain ⟨filled,timely⟩ := ih (by omega)
    have order : fillers (n + 1) = fillers n ++
        [.revoke (plainRevoke 0) (plainLog 0) (fillerId n) noise] := by
      simp [fillers,List.range_succ]
    obtain ⟨next,nextTimely⟩ := revoke_filled keys (1 + n) n (n + 1) _ filled (by omega) (fillerId n)
      (filled.absent n (le_refl n) (by omega)) (by omega)
      (fun i after small => fillerId_ne n i (by omega) (by omega) small)
    rw [order,Run.run_append,Run.guarded_append]
    exact ⟨next,timely,nextTimely,trivial⟩

theorem sweep_forgets (now : UInt64) (s : CapState) (stamps : ∀ entry, Recorded s entry → entry.revokedMs = 0)
    (late : akRevocationRetainMs < now) (tid : TokenId) :
    akRevocationFindLocked (akRevocationSweepLocked now s) tid = none := by
  rw [Option.eq_none_iff_forall_not_mem]
  intro entry found
  have inside := ChainTable.stores_of_lookup _ _ _ found
  rw [akRevocationSweepLocked,if_neg (UInt64.not_lt.mpr (UInt64.le_of_lt late))] at inside
  obtain ⟨recorded,kept⟩ := (ChainTable.stores_sweep _ _ _).mp inside
  rw [stamps entry recorded] at kept
  have stale : 0 < now - akRevocationRetainMs := by
    rw [UInt64.lt_iff_toNat_lt,UInt64.toNat_sub_of_le _ _ (UInt64.le_of_lt late)]
    have gap := UInt64.lt_iff_toNat_lt.mp late
    change 0 < _
    omega
  simp [stale] at kept

def threeDays : UInt64 := 3 * 86400000 * 1000000
def nineDays : UInt64 := 9 * 86400000 * 1000000

def carriedOver : List Step :=
  [.create (plainCreate threeDays idOnes) (weekArgs none),.exportKeys true,.restart plainRestart]

@[irreducible] def crowded : List Step :=
  fillers 1023 ++ [.revoke (plainRevoke nineDays) (plainLog nineDays) (fillerId 1023) noise]

theorem restarted_nil :
    restarted env blob [] = (akKeysImport env.importClock blob (akKeysInit env.initClock env.random .static)).1 := by
  unfold restarted akRevocationLoadFromLog
  split
  · rfl
  · rfl

theorem carriedOver_caps :
    (reached 0 (Block.zero 32) carriedOver).caps =
      (akKeysImport plainRestart.importClock (some (blobOf (booted 0 (Block.zero 32)).caps))
        (akKeysInit plainRestart.initClock plainRestart.random .static)).1 := by
  have rebooted : ∀ w, (worldStep w (.restart plainRestart)).caps = restarted plainRestart w.blob w.log :=
    fun _ => rfl
  have saved : (reached 0 (Block.zero 32) (carriedOver.take 2)).blob = some (blobOf (booted 0 (Block.zero 32)).caps) := rfl
  have quiet : (reached 0 (Block.zero 32) (carriedOver.take 2)).log = [] := rfl
  rw [← restarted_nil,← saved,← quiet]
  exact rebooted _

theorem carried_authentic (s : CapState)
    (same : s.keys = (reached 0 (Block.zero 32) carriedOver).caps.keys) :
    Authentic true (weekToken threeDays idOnes none 0 (Block.zero 32)) s := by
  obtain ⟨imported,restored,slots⟩ := akKeysImport_blobOf plainRestart.importClock (booted 0 (Block.zero 32)).caps
    (akKeysInit plainRestart.initClock plainRestart.random .static) rfl
    (akKeysInit_invariant 0 (Block.zero 32) .static).distinct rfl
  rw [carriedOver_caps,restored] at same
  obtain ⟨kid,retired,secret⟩ := slots 0
  have secret : (s.keys 0).secret = Block.zero 32 := by
    rw [same]
    exact secret rfl
  refine ⟨0,?_,?_⟩
  · rw [akKeyGet_eq_some_iff,same]
    exact ⟨⟨kid,retired⟩,fun j before => absurd before (Nat.not_lt_zero _)⟩
  · rw [secret]
    rfl

theorem carriedOver_filled :
    Filled (reached 0 (Block.zero 32) carriedOver).caps.keys 0 0 (reached 0 (Block.zero 32) carriedOver) := by
  obtain ⟨table,count,_⟩ := import_revocations plainRestart.importClock
    (some (blobOf (booted 0 (Block.zero 32)).caps)) (akKeysInit plainRestart.initClock plainRestart.random .static)
  rw [← carriedOver_caps] at table count
  refine ⟨rfl,rfl,?_,?_,?_⟩
  · rw [count]
    rfl
  · intro entry inside
    rw [Recorded,table] at inside
    exact absurd inside List.not_mem_nil
  · intro i _ _
    rw [akRevocationFindLocked,table]
    rfl

theorem crowded_forgets (keys : Fin 4 → Key) (w : World) (filled : Filled keys 1024 1023 w) :
    (worldStep w (.revoke (plainRevoke nineDays) (plainLog nineDays) (fillerId 1023) noise)).caps.keys = keys ∧
    akRevocationFindLocked
      (worldStep w (.revoke (plainRevoke nineDays) (plainLog nineDays) (fillerId 1023) noise)).caps idOnes = none := by
  have full : w.caps.revocationCount ≥ akRevocationSweepThreshold := by
    rw [ge_iff_le,UInt64.le_iff_toNat_le,filled.count]
    decide
  have forgotten := sweep_forgets (nowMs nineDays) w.caps filled.stamps (by decide) idOnes
  have swept : (akRevocationSweepLocked (nowMs nineDays) w.caps).keys = w.caps.keys := by
    unfold akRevocationSweepLocked
    split <;> rfl
  have added : (akRevocationAdd (plainRevoke nineDays) (fillerId 1023) noise w.caps).1 =
      { akRevocationSweepLocked (nowMs nineDays) w.caps with
        revocations := (akRevocationSweepLocked (nowMs nineDays) w.caps).revocations.insert akTidHash RevocationEntry.tid
          ⟨fillerId 1023,nowMs nineDays,some noise.1⟩
        revocationCount := (akRevocationSweepLocked (nowMs nineDays) w.caps).revocationCount + 1 } := by
    rw [akRevocationAdd,akRevocationInsertLocked,
      if_neg (by simp [filled.absent 1023 (le_refl _) (by decide)]),if_pos full]
    rfl
  constructor
  · change (akRevocationAdd _ _ _ _).1.keys = keys
    rw [added]
    exact swept.trans filled.keys
  · change akRevocationFindLocked (akRevocationAdd _ _ _ _).1 idOnes = none
    rw [added]
    exact (ChainTable.lookup_insert_other _ ⟨fillerId 1023,nowMs nineDays,some noise.1⟩ idOnes
      (fillerId_ne_idOnes 1023 (by decide))).trans forgotten

theorem crowded_run (keys : Fin 4 → Key) (w : World) (start : Filled keys 1 0 w) :
    Run.Guarded worldStep Timely w crowded ∧ (Run.run worldStep w crowded).caps.keys = keys ∧
      akRevocationFindLocked (Run.run worldStep w crowded).caps idOnes = none := by
  obtain ⟨filled,timely⟩ := fillers_filled start (le_refl _)
  rw [crowded,Run.guarded_append,Run.run_append]
  generalize Run.run worldStep w (fillers 1023) = after at filled
  refine ⟨⟨timely,?_,trivial⟩,crowded_forgets keys after filled⟩
  change List.Pairwise (· ≤ ·) [after.clock,nineDays,nineDays,nineDays]
  rw [filled.clock]
  decide

/-- A token of an earlier boot, revoked at clock zero and logged, is admitted again on
the ninth day: its entry was swept a day before the token expires. -/
theorem revoked_token_admitted_after_restart :
    Run.Guarded worldStep Timely (booted 0 (Block.zero 32))
      (carriedOver ++ .revoke (plainRevoke 0) (plainLog 0) idOnes noise :: crowded) ∧
    weekToken threeDays idOnes none 0 (Block.zero 32) ∈ (reached 0 (Block.zero 32) carriedOver).issued ∧
    akRevocationCheck (akRevocationAdd (plainRevoke 0) idOnes noise (reached 0 (Block.zero 32) carriedOver).caps).1
      idOnes = true ∧
    (akCapabilityValidate (plainValidate nineDays) (some (weekToken threeDays idOnes none 0 (Block.zero 32))) anyTool
      (reached 0 (Block.zero 32)
        (carriedOver ++ .revoke (plainRevoke 0) (plainLog 0) idOnes noise :: crowded)).caps).2 = 0 := by
  have clear : akRevocationFindLocked (reached 0 (Block.zero 32) carriedOver).caps idOnes = none := by
    rw [akRevocationFindLocked,carriedOver_caps,(import_revocations _ _ _).1]
    rfl
  obtain ⟨first,firstTimely⟩ := revoke_filled _ 0 0 0 _ carriedOver_filled (by decide) idOnes clear (le_refl _)
    (fun i _ small => (fillerId_ne_idOnes i small).symm)
  obtain ⟨timely,keys,forgotten⟩ := crowded_run _ _ first
  refine ⟨?_,List.mem_append_right _ (Option.mem_toList.mpr rfl),?_,?_⟩
  · rw [Run.guarded_append,Run.guarded_cons]
    exact ⟨⟨by decide,by decide,by decide,trivial⟩,firstTimely,timely⟩
  · exact (akRevocationCheck_eq_true _ _).mpr (akRevocationInsertLocked_present _ _ _ _ _)
  · rw [reached,Run.run_append,Run.run_cons]
    exact weekToken_admitted (carried_authentic _ keys) (by decide) forgotten

end AuthorityKernel.Capability
