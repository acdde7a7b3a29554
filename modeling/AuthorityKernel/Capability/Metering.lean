import AuthorityKernel.Capability.Validate

/-! The counter of a rate-limited token under the checks made of it. Every check that gets
past the static part of the validation is one use, whoever makes it. -/
namespace AuthorityKernel.Capability
open Library

structure Metered (env : ValidateEnv) (cap : AkCapability) (request : Request) (s : CapState) : Prop where
  authentic : Authentic env.verify.hmacAlloc cap s
  unexpired : nowMs env.verify.clock ≤ expiryMs cap
  present : akRevocationFindLocked s cap.tid = none
  scope : InScope cap request

variable {cap : AkCapability} {s : CapState} {request : Request} {count : UInt32} {start : UInt64} {env : ValidateEnv}

theorem Metered.frame {s' : CapState} (frame : OnlyRates s s') :
    Metered env cap request s' ↔ Metered env cap request s := by
  have same := frame.same
  constructor
  · rintro ⟨authentic,unexpired,present,scope⟩
    rw [same] at authentic present
    exact ⟨authentic,unexpired,present,scope⟩
  · rintro ⟨authentic,unexpired,present,scope⟩
    rw [same]
    exact ⟨authentic,unexpired,present,scope⟩

theorem akCapabilityVerify_ne_rate (env : VerifyEnv) (cap : Option AkCapability) (s : CapState) :
    akCapabilityVerify env cap s ≠ akECapRate := by
  unfold akCapabilityVerify
  split
  · decide
  split
  · decide
  dsimp only
  split
  · decide
  split <;> decide

/-- Before the limiter a check fails, for another reason than the rate. -/
theorem akCapabilityValidate_unmetered (outside : ¬ Metered env cap request s) :
    ∃ code, code ≠ 0 ∧ code ≠ akECapRate ∧ akCapabilityValidate env (some cap) request s = (s,code) := by
  unfold akCapabilityValidate
  dsimp only
  split
  · rename_i failed
    exact ⟨_,Int.ne_of_lt failed,akCapabilityVerify_ne_rate _ _ _,rfl⟩
  rename_i verified
  split
  · exact ⟨_,by decide,by decide,rfl⟩
  rename_i unrevoked
  by_cases scope : InScope cap request
  · obtain ⟨authentic,unexpired⟩ := (akCapabilityVerify_eq_zero_iff env.verify cap s).mp
      ((akCapabilityVerify_nonneg_iff env.verify (some cap) s).mp verified)
    refine (outside ⟨authentic,unexpired,?_,scope⟩).elim
    simpa [akRevocationCheck] using unrevoked
  · obtain ⟨code,⟨negative,other⟩,refused⟩ := akCapabilityCheckScope_outside env.rate cap request s scope
    exact ⟨code,Int.ne_of_lt negative,other,refused⟩

theorem akCapabilityValidate_metered (metered : Metered env cap request s) (limited : 0 < cap.rateLimit) :
    akCapabilityValidate env (some cap) request s =
      ((akRateLimitCheck env.rate cap.tid cap.rateLimit cap.rateWindowMs s).1,
        if (akRateLimitCheck env.rate cap.tid cap.rateLimit cap.rateWindowMs s).2 then 0 else akECapRate) := by
  obtain ⟨authentic,unexpired,present,scope⟩ := metered
  have verified := (akCapabilityVerify_eq_zero_iff env.verify cap s).mpr ⟨authentic,unexpired⟩
  unfold akCapabilityValidate
  dsimp only
  rw [verified,if_neg (by decide),if_neg (by simp [akRevocationCheck,present]),
    akCapabilityCheckScope_inside env.rate cap request s scope,if_pos limited]

def Counts (cap : AkCapability) (start : UInt64) (count : UInt32) (s : CapState) : Prop :=
  akRateFindLocked s cap.tid = some ⟨cap.tid,count,cap.rateWindowMs,start⟩

def InWindow (cap : AkCapability) (start : UInt64) (clock : UInt64) : Prop :=
  nowMs clock - start ≤ cap.rateWindowMs.toUInt64

theorem rateWindow_inside {clock : UInt64} (inside : InWindow cap start clock) (count : UInt32) :
    rateWindow (nowMs clock) cap.rateWindowMs ⟨cap.tid,count,cap.rateWindowMs,start⟩ =
      ⟨cap.tid,count,cap.rateWindowMs,start⟩ := by
  exact if_neg (UInt64.not_lt.mpr inside)

theorem rateCharge_found {now : UInt64} {counter current : RateCounter}
    (found : akRateFindLocked s cap.tid = some counter) (window : rateWindow now cap.rateWindowMs counter = current)
    (own : current.tid = cap.tid) :
    (current.count < cap.rateLimit →
      (rateCharge now counter cap.rateLimit cap.rateWindowMs s).2 = true ∧
        akRateFindLocked (rateCharge now counter cap.rateLimit cap.rateWindowMs s).1 cap.tid =
          some { current with count := current.count + 1 }) ∧
    (cap.rateLimit ≤ current.count →
      (rateCharge now counter cap.rateLimit cap.rateWindowMs s).2 = false ∧
        akRateFindLocked (rateCharge now counter cap.rateLimit cap.rateWindowMs s).1 cap.tid = some current) := by
  have key : counter.tid = cap.tid := ChainTable.lookup_key _ _ _ found
  unfold rateCharge
  rw [window,key]
  constructor
  · intro below
    rw [if_neg (UInt32.not_le.mpr below)]
    exact ⟨rfl,ChainTable.lookup_modify_found _ _ _ _ found own⟩
  · intro full
    rw [if_pos full]
    exact ⟨rfl,ChainTable.lookup_modify_found _ _ _ _ found own⟩

theorem akRateLimitCheck_counts {env : RateEnv} (counts : Counts cap start count s)
    (inside : InWindow cap start env.clock) :
    (count < cap.rateLimit →
      (akRateLimitCheck env cap.tid cap.rateLimit cap.rateWindowMs s).2 = true ∧
        Counts cap start (count + 1) (akRateLimitCheck env cap.tid cap.rateLimit cap.rateWindowMs s).1) ∧
    (cap.rateLimit ≤ count →
      (akRateLimitCheck env cap.tid cap.rateLimit cap.rateWindowMs s).2 = false ∧
        Counts cap start count (akRateLimitCheck env cap.tid cap.rateLimit cap.rateWindowMs s).1) := by
  have charge := rateCharge_found counts (rateWindow_inside inside count) rfl
  unfold akRateLimitCheck
  rw [show akRateFindLocked s cap.tid = _ from counts]
  exact charge

/-- The next use of the token begins a window: it has no counter, and there is room and
memory for one, or its counter is of a window that is over. -/
def OpensWindow (env : RateEnv) (cap : AkCapability) (s : CapState) : Prop :=
  match akRateFindLocked s cap.tid with
  | none => (rateMakeRoom (nowMs env.clock) s).2 = true ∧ env.alloc = true
  | some counter => cap.rateWindowMs.toUInt64 < nowMs env.clock - counter.windowStartMs

theorem akRateLimitCheck_opens {env : RateEnv} (opens : OpensWindow env cap s) (limited : 0 < cap.rateLimit) :
    (akRateLimitCheck env cap.tid cap.rateLimit cap.rateWindowMs s).2 = true ∧
      Counts cap (nowMs env.clock) 1 (akRateLimitCheck env cap.tid cap.rateLimit cap.rateWindowMs s).1 := by
  unfold OpensWindow at opens
  unfold akRateLimitCheck
  cases found : akRateFindLocked s cap.tid with
  | none =>
    rw [found] at opens
    obtain ⟨room,memory⟩ := opens
    dsimp only
    rw [room,memory,if_neg (by decide),if_neg (by decide)]
    have inside : InWindow cap (nowMs env.clock) env.clock := by
      unfold InWindow
      rw [UInt64.sub_self]
      exact UInt64.zero_le
    refine (rateCharge_found ?_ (rateWindow_inside inside 0) rfl).1 limited
    exact ChainTable.lookup_insert_same (rateMakeRoom (nowMs env.clock) s).1.rateCounters
      (⟨cap.tid,0,cap.rateWindowMs,nowMs env.clock⟩ : RateCounter)
  | some counter =>
    rw [found] at opens
    have key : counter.tid = cap.tid := ChainTable.lookup_key _ _ _ found
    have window : rateWindow (nowMs env.clock) cap.rateWindowMs counter =
        ⟨cap.tid,0,cap.rateWindowMs,nowMs env.clock⟩ := by
      unfold rateWindow
      rw [if_pos opens,← key]
    exact (rateCharge_found found window rfl).1 limited

structure Check where
  env : ValidateEnv
  request : Request

def recheck (cap : Option AkCapability) (s : CapState) (check : Check) : CapState :=
  (akCapabilityValidate check.env cap check.request s).1

/-- The limiter refuses none of the checks. -/
def unthrottled (cap : AkCapability) : CapState → List Check → Bool
  | _,[] => true
  | s,check :: rest => (akCapabilityValidate check.env (some cap) check.request s).2 != akECapRate &&
      unthrottled cap (recheck (some cap) s check) rest

theorem recheck_counts (check : Check) (counts : Counts cap start count s) (limited : 0 < cap.rateLimit)
    (inside : InWindow cap start check.env.rate.clock) (metered : Metered check.env cap check.request s) :
    (count < cap.rateLimit → Counts cap start (count + 1) (recheck (some cap) s check)) ∧
    (cap.rateLimit ≤ count → Counts cap start count (recheck (some cap) s check) ∧
      (akCapabilityValidate check.env (some cap) check.request s).2 = akECapRate) := by
  unfold recheck
  rw [akCapabilityValidate_metered metered limited]
  obtain ⟨charged,full⟩ := akRateLimitCheck_counts counts inside
  exact ⟨fun below => (charged below).2,fun reached => ⟨(full reached).2,if_neg (by simp [(full reached).1])⟩⟩

/-- The count stays and no check is refused for the rate exactly if no check gets to the limiter. -/
theorem rechecks_count {checks : List Check} (counts : Counts cap start count s) (below : count ≤ cap.rateLimit)
    (limited : 0 < cap.rateLimit) (inside : ∀ check ∈ checks, InWindow cap start check.env.rate.clock) :
    ∃ final, Counts cap start final (checks.foldl (recheck (some cap)) s) ∧ count ≤ final ∧
      (final = count ∧ unthrottled cap s checks = true ↔ ∀ check ∈ checks, ¬ Metered check.env cap check.request s) := by
  induction checks generalizing count s with
  | nil => exact ⟨count,counts,UInt32.le_refl count,iff_of_true ⟨rfl,rfl⟩ nofun⟩
  | cons check rest ih =>
    have later := fun other member => inside other (List.mem_cons_of_mem check member)
    rw [List.foldl_cons,unthrottled,List.forall_mem_cons]
    by_cases metered : Metered check.env cap check.request s
    · obtain ⟨charged,refused⟩ := recheck_counts check counts limited (inside check List.mem_cons_self) metered
      by_cases room : count < cap.rateLimit
      · have next : (count + 1).toNat = count.toNat + 1 := by
          have bound := cap.rateLimit.toNat_lt
          have less := UInt32.lt_iff_toNat_lt.mp room
          rw [UInt32.toNat_add,UInt32.toNat_one,Nat.mod_eq_of_lt (by omega)]
        have reached : count + 1 ≤ cap.rateLimit := by
          rw [UInt32.le_iff_toNat_le,next]
          exact UInt32.lt_iff_toNat_lt.mp room
        obtain ⟨final,ends,more,_⟩ := ih (charged room) reached later
        have above : count < final := by
          rw [UInt32.lt_iff_toNat_lt]
          rw [UInt32.le_iff_toNat_le,next] at more
          omega
        exact ⟨final,ends,UInt32.le_of_lt above,
          iff_of_false (fun same => absurd same.1 (UInt32.ne_of_lt above).symm) fun none => none.1 metered⟩
      · obtain ⟨same,rate⟩ := refused (UInt32.not_lt.mp room)
        obtain ⟨final,ends,more,_⟩ := ih same below later
        exact ⟨final,ends,more,iff_of_false (by simp [rate]) fun none => none.1 metered⟩
    · obtain ⟨code,_,other,answer⟩ := akCapabilityValidate_unmetered metered
      have idle : recheck (some cap) s check = s := congrArg Prod.fst answer
      obtain ⟨final,ends,more,same⟩ := ih counts below later
      rw [idle,answer,bne_iff_ne.mpr other,Bool.true_and]
      exact ⟨final,ends,more,same.trans ⟨fun none => ⟨metered,none⟩,And.right⟩⟩

end AuthorityKernel.Capability
