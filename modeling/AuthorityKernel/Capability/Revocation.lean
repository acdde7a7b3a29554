import AuthorityKernel.Capability.State

/-! The revocation table: lookup by full token id, idempotent insertion, and the
sweep that drops entries past the retention time. -/
namespace AuthorityKernel.Capability
open Library

def akRevocationFindLocked (s : CapState) (tid : TokenId) : Option RevocationEntry :=
  s.revocations.lookup akTidHash RevocationEntry.tid tid

def akRevocationSweepLocked (now : UInt64) (s : CapState) : CapState :=
  if now < akRevocationRetainMs then s
  else
    let cutoff := now - akRevocationRetainMs
    let dropped := (s.revocations.entries.filter fun entry => entry.revokedMs < cutoff).length
    { s with
      revocations := s.revocations.sweep fun entry => !(entry.revokedMs < cutoff)
      revocationCount := s.revocationCount - UInt64.ofNat dropped }

/-- Returns whether a new entry was made: not when the token is already present
and not when the entry cannot be allocated. `clock` is the reading of the
opportunistic sweep. -/
def akRevocationInsertLocked (clock : UInt64) (alloc : Bool) (tid : TokenId) (revokedMs : UInt64)
    (reason : Option Bytes) (s : CapState) : CapState × Bool :=
  if (akRevocationFindLocked s tid).isSome then (s,false)
  else
    let swept := if s.revocationCount ≥ akRevocationSweepThreshold
      then akRevocationSweepLocked (nowMs clock) s else s
    if alloc then
      ({ swept with
         revocations := swept.revocations.insert akTidHash RevocationEntry.tid ⟨tid,revokedMs,reason⟩
         revocationCount := swept.revocationCount + 1 },true)
    else (swept,false)

def akRevocationCheck (s : CapState) (tid : TokenId) : Bool := (akRevocationFindLocked s tid).isSome

structure RevokeEnv where
  clock : UInt64
  sweepClock : UInt64
  reasonAlloc : Bool
  entryAlloc : Bool

/-- The flag is the result of the insertion, which the source drops. -/
def akRevocationAdd (env : RevokeEnv) (tid : TokenId) (reason : CString) (s : CapState) : CapState × Bool :=
  akRevocationInsertLocked env.sweepClock env.entryAlloc tid (nowMs env.clock)
    (if env.reasonAlloc then some reason.1 else none) s

/-- The run id is entered in the table of token ids. -/
def akRevocationRevokeRun (env : RevokeEnv) (runId : TokenId) (reason : CString) (s : CapState) : CapState × Bool :=
  akRevocationAdd env runId reason s

variable (now clock : UInt64) (alloc : Bool)

theorem akRevocationCheck_eq_true (s : CapState) (tid : TokenId) :
    akRevocationCheck s tid = true ↔ ∃ entry, akRevocationFindLocked s tid = some entry := by
  rw [akRevocationCheck,Option.isSome_iff_exists]

theorem akRevocationRetainMs_toNat : akRevocationRetainMs.toNat = 691200000 := by decide

variable {s : CapState} {entry : RevocationEntry} {tid : TokenId}

theorem akRevocationSweepLocked_find (found : akRevocationFindLocked s tid = some entry) :
    akRevocationFindLocked (akRevocationSweepLocked now s) tid = some entry ∨
      entry.revokedMs.toNat + 691200000 < now.toNat := by
  unfold akRevocationSweepLocked
  split
  · exact Or.inl found
  rename_i old
  have old : akRevocationRetainMs ≤ now := UInt64.not_lt.mp old
  by_cases stale : entry.revokedMs < now - akRevocationRetainMs
  · right
    rw [UInt64.lt_iff_toNat_lt,UInt64.toNat_sub_of_le _ _ old,akRevocationRetainMs_toNat] at stale
    omega
  · left
    exact ChainTable.lookup_sweep_of_keep _ _ _ _ found (by simp [stale])

theorem akRevocationInsertLocked_find (tid other : TokenId) (revokedMs : UInt64) (reason : Option Bytes)
    (s : CapState) (entry : RevocationEntry) (found : akRevocationFindLocked s other = some entry) :
    akRevocationFindLocked (akRevocationInsertLocked clock alloc tid revokedMs reason s).1 other = some entry ∨
      entry.revokedMs.toNat + 691200000 < (nowMs clock).toNat := by
  unfold akRevocationInsertLocked
  split
  · exact Or.inl found
  rename_i absent
  have different : tid ≠ other := by
    rintro rfl
    rw [found] at absent
    exact absent rfl
  have swept : ∀ after, after = (if s.revocationCount ≥ akRevocationSweepThreshold
        then akRevocationSweepLocked (nowMs clock) s else s) →
      akRevocationFindLocked after other = some entry ∨
        entry.revokedMs.toNat + 691200000 < (nowMs clock).toNat := by
    rintro after rfl
    split
    · exact akRevocationSweepLocked_find _ found
    · exact Or.inl found
  rcases swept _ rfl with kept | dropped
  · left
    dsimp only
    split
    · rw [akRevocationFindLocked,ChainTable.lookup_insert_other _ _ _ different]
      exact kept
    · exact kept
  · exact Or.inr dropped

theorem akRevocationInsertLocked_inserted (tid : TokenId) (revokedMs : UInt64) (reason : Option Bytes) (s : CapState)
    (inserted : (akRevocationInsertLocked clock alloc tid revokedMs reason s).2 = true) :
    akRevocationFindLocked (akRevocationInsertLocked clock alloc tid revokedMs reason s).1 tid =
      some ⟨tid,revokedMs,reason⟩ := by
  unfold akRevocationInsertLocked at inserted ⊢
  split
  · rename_i present
    rw [if_pos present] at inserted
    simp at inserted
  rename_i absent
  rw [if_neg absent] at inserted
  dsimp only at inserted ⊢
  split
  · exact ChainTable.lookup_insert_same _ _
  · rename_i failed
    rw [if_neg failed] at inserted
    simp at inserted

structure OnlyRevocations (s s' : CapState) : Prop where
  same : s' = { s with revocations := s'.revocations, revocationCount := s'.revocationCount }

theorem akRevocationSweepLocked_frame (s : CapState) : OnlyRevocations s (akRevocationSweepLocked now s) := by
  unfold akRevocationSweepLocked
  split <;> exact ⟨rfl⟩

theorem akRevocationInsertLocked_frame (tid : TokenId) (revokedMs : UInt64) (reason : Option Bytes) (s : CapState) :
    OnlyRevocations s (akRevocationInsertLocked clock alloc tid revokedMs reason s).1 := by
  obtain ⟨swept⟩ := akRevocationSweepLocked_frame (nowMs clock) s
  unfold akRevocationInsertLocked
  split
  · exact ⟨rfl⟩
  dsimp only
  split <;> split
  · exact ⟨by rw [swept]⟩
  · exact ⟨rfl⟩
  · exact ⟨swept⟩
  · exact ⟨rfl⟩

theorem akRevocationInsertLocked_find_none {other : TokenId} (revokedMs : UInt64) (reason : Option Bytes)
    (different : tid ≠ other) (absent : akRevocationFindLocked s other = none) :
    akRevocationFindLocked (akRevocationInsertLocked clock alloc tid revokedMs reason s).1 other = none := by
  have swept : akRevocationFindLocked (akRevocationSweepLocked (nowMs clock) s) other = none := by
    unfold akRevocationSweepLocked
    split
    · exact absent
    · exact ChainTable.lookup_sweep_eq_none _ _ _ absent
  unfold akRevocationInsertLocked
  split
  · exact absent
  dsimp only
  split <;> split
  · rw [akRevocationFindLocked,ChainTable.lookup_insert_other _ _ _ different]
    exact swept
  · rw [akRevocationFindLocked,ChainTable.lookup_insert_other _ _ _ different]
    exact absent
  · exact swept
  · exact absent

def Recorded (s : CapState) (entry : RevocationEntry) : Prop :=
  ChainTable.Stores akTidHash RevocationEntry.tid s.revocations entry

theorem akRevocationSweepLocked_recorded {now : UInt64} (recorded : Recorded (akRevocationSweepLocked now s) entry)
    : Recorded s entry := by
  unfold akRevocationSweepLocked at recorded
  split at recorded
  · exact recorded
  · exact ((ChainTable.stores_sweep _ _ _).mp recorded).1

theorem akRevocationInsertLocked_recorded (tid : TokenId) (revokedMs : UInt64) (reason : Option Bytes) (s : CapState)
    (entry : RevocationEntry)
    (recorded : Recorded (akRevocationInsertLocked clock alloc tid revokedMs reason s).1 entry) :
    entry = ⟨tid,revokedMs,reason⟩ ∨ Recorded s entry := by
  have swept : ∀ after, after = (if s.revocationCount ≥ akRevocationSweepThreshold
      then akRevocationSweepLocked (nowMs clock) s else s) → Recorded after entry → Recorded s entry := by
    rintro after rfl inside
    split at inside
    · exact akRevocationSweepLocked_recorded inside
    · exact inside
  unfold akRevocationInsertLocked at recorded
  split at recorded
  · exact Or.inr recorded
  dsimp only at recorded
  split at recorded
  · rcases ChainTable.stores_insert _ _ _ recorded with new | old
    · exact Or.inl new
    · exact Or.inr (swept _ rfl old)
  · exact Or.inr (swept _ rfl recorded)

end AuthorityKernel.Capability
