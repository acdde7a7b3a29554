import AuthorityKernel.Net.Enforce

/-! The outgoing byte budget over a run of sends. A ledger beside the context records
what the sends that were let through amount to, and whether each of them had room. -/
namespace AuthorityKernel.Net
open Library Budget

def outUsed (ctx : NetContext) : UInt64 := (ctx.budget.map fun tracker => tracker.used .netBytesOut).getD 0
def outLimit (ctx : NetContext) : UInt64 := (ctx.budget.map fun tracker => tracker.limits .netBytesOut).getD 0

def charged (ctx : NetContext) (len : UInt64) : NetContext :=
  { ctx with
    budget := ctx.budget.map fun tracker =>
      { tracker with used := Function.update tracker.used .netBytesOut (tracker.used .netBytesOut + len) } }

def Metered (ctx : NetContext) : Prop := akNetPolicyActive (some ctx) = true ∧ ctx.budget.isSome = true

/-- The machine-word comparison that refuses a send. -/
def OverLimit (ctx : NetContext) (len : UInt64) : Prop :=
  0 < (outLimit ctx).toNat ∧ (outLimit ctx).toNat < ((outUsed ctx).toNat + len.toNat) % 2 ^ 64

instance (ctx : NetContext) (len : UInt64) : Decidable (OverLimit ctx len) :=
  inferInstanceAs (Decidable (_ ∧ _))

/-- There is room for the bytes, counted without a word size. -/
def HasRoom (ctx : NetContext) (len : UInt64) : Prop := (outUsed ctx).toNat + len.toNat ≤ (outLimit ctx).toNat

instance (ctx : NetContext) (len : UInt64) : Decidable (HasRoom ctx len) :=
  inferInstanceAs (Decidable (_ ≤ _))

theorem charged_metered (ctx : NetContext) (len : UInt64) (metered : Metered ctx) : Metered (charged ctx len) := by
  obtain ⟨active,tracked⟩ := metered
  refine ⟨active,?_⟩
  rw [charged,Option.isSome_map]
  exact tracked

variable {detectSecrets : Bytes → Bool} {ctx : NetContext} {outgoing : Outgoing}

theorem charged_used (len : UInt64) (metered : Metered ctx) : outUsed (charged ctx len) = outUsed ctx + len := by
  obtain ⟨tracker,tracked⟩ := Option.isSome_iff_exists.mp metered.2
  simp [outUsed,charged,tracked]

theorem akNetFilterSend_metered (detectSecrets : Bytes → Bool) (outgoing : Outgoing) (metered : Metered ctx) :
    akNetFilterSend detectSecrets (some ctx) outgoing =
      if OverLimit ctx outgoing.len then (some ctx,akEBudgetExceeded)
      else (some (charged ctx outgoing.len),if holdsSecret detectSecrets outgoing then akEDlpBlock else 0) := by
  obtain ⟨active,tracked⟩ := metered
  obtain ⟨tracker,tracked⟩ := Option.isSome_iff_exists.mp tracked
  have compared : (tracker.limits .netBytesOut > 0 && tracker.used .netBytesOut + outgoing.len > tracker.limits .netBytesOut)
      = decide (OverLimit ctx outgoing.len) := by
    simp [OverLimit,outLimit,outUsed,tracked,UInt64.lt_iff_toNat_lt]
  unfold akNetFilterSend chargeOut
  simp only [active,tracked,compared,Bool.not_true,Bool.false_eq_true,if_false]
  by_cases overLimit : OverLimit ctx outgoing.len
  · simp [overLimit]
  · simp [overLimit,charged,tracked]

/-- `sent` adds up the lengths of the sends that returned 0 and `roomy` says whether
each of them had room. -/
structure Ledger where
  ctx : NetContext
  sent : Nat
  roomy : Bool

def sendStep (detectSecrets : Bytes → Bool) (ledger : Ledger) (outgoing : Outgoing) : Ledger :=
  let answer := akNetFilterSend detectSecrets (some ledger.ctx) outgoing
  let passed := answer.2 == 0
  { ctx := answer.1.getD ledger.ctx
    sent := if passed then ledger.sent + outgoing.len.toNat else ledger.sent
    roomy := ledger.roomy && (!passed || decide (HasRoom ledger.ctx outgoing.len)) }

/-- Every send that was let through had room, and the counter stands at its start
plus exactly those sends. -/
def Accounted (start : UInt64) (ledger : Ledger) : Prop :=
  ledger.roomy = true ∧ (outUsed ledger.ctx).toNat = start.toNat + ledger.sent

/-- A send that the budget treats as it should: the comparison refuses it, or it has
room and nothing to hide. -/
def WellBudgeted (detectSecrets : Bytes → Bool) (ledger : Ledger) (outgoing : Outgoing) : Prop :=
  OverLimit ledger.ctx outgoing.len ∨
    (holdsSecret detectSecrets outgoing = false ∧ HasRoom ledger.ctx outgoing.len)

variable {ledger : Ledger}

theorem sendStep_over (detectSecrets : Bytes → Bool) (metered : Metered ledger.ctx)
    (overLimit : OverLimit ledger.ctx outgoing.len) : sendStep detectSecrets ledger outgoing = ledger := by
  have answer := akNetFilterSend_metered detectSecrets outgoing metered
  rw [if_pos overLimit] at answer
  have failed : (akEBudgetExceeded == 0) = false := by decide
  simp [sendStep,answer,failed]

theorem sendStep_secret (metered : Metered ledger.ctx) (within : ¬ OverLimit ledger.ctx outgoing.len)
    (secret : holdsSecret detectSecrets outgoing = true) :
    sendStep detectSecrets ledger outgoing = { ledger with ctx := charged ledger.ctx outgoing.len } := by
  have answer := akNetFilterSend_metered detectSecrets outgoing metered
  rw [if_neg within,if_pos secret] at answer
  have failed : (akEDlpBlock == 0) = false := by decide
  simp [sendStep,answer,failed]

theorem sendStep_passed (metered : Metered ledger.ctx) (within : ¬ OverLimit ledger.ctx outgoing.len)
    (clean : holdsSecret detectSecrets outgoing = false) :
    sendStep detectSecrets ledger outgoing =
      ⟨charged ledger.ctx outgoing.len,ledger.sent + outgoing.len.toNat,
        ledger.roomy && decide (HasRoom ledger.ctx outgoing.len)⟩ := by
  have answer := akNetFilterSend_metered detectSecrets outgoing metered
  rw [if_neg within,clean,if_neg (by decide)] at answer
  simp [sendStep,answer]

theorem sendStep_metered (detectSecrets : Bytes → Bool) (ledger : Ledger) (outgoing : Outgoing)
    (metered : Metered ledger.ctx) : Metered (sendStep detectSecrets ledger outgoing).ctx := by
  by_cases overLimit : OverLimit ledger.ctx outgoing.len
  · rw [sendStep_over detectSecrets metered overLimit]
    exact metered
  cases secret : holdsSecret detectSecrets outgoing with
  | true =>
    rw [sendStep_secret metered overLimit secret]
    exact charged_metered _ _ metered
  | false =>
    rw [sendStep_passed metered overLimit secret]
    exact charged_metered _ _ metered

theorem holdsSecret_length (secret : holdsSecret detectSecrets outgoing = true) : 0 < outgoing.len.toNat := by
  unfold holdsSecret at secret
  split at secret
  · simp at secret
  · simp only [Bool.and_eq_true,decide_eq_true_eq] at secret
    exact UInt64.lt_iff_toNat_lt.mp secret.1

theorem sendStep_accounted_iff (detectSecrets : Bytes → Bool) (start : UInt64) (ledger : Ledger) (outgoing : Outgoing)
    (metered : Metered ledger.ctx) (accounted : Accounted start ledger) :
    Accounted start (sendStep detectSecrets ledger outgoing) ↔ WellBudgeted detectSecrets ledger outgoing := by
  obtain ⟨roomy,total⟩ := accounted
  have used := congrArg UInt64.toNat (charged_used outgoing.len metered)
  rw [UInt64.toNat_add] at used
  by_cases overLimit : OverLimit ledger.ctx outgoing.len
  · rw [sendStep_over detectSecrets metered overLimit]
    exact iff_of_true ⟨roomy,total⟩ (Or.inl overLimit)
  cases secret : holdsSecret detectSecrets outgoing with
  | true =>
    -- the charge stays although the send is blocked
    have positive := holdsSecret_length secret
    have small := outgoing.len.toNat_lt
    rw [sendStep_secret metered overLimit secret]
    simp only [Accounted,WellBudgeted,overLimit,secret,used]
    constructor
    · rintro ⟨_,same⟩
      omega
    · simp
  | false =>
    have limit := (outLimit ledger.ctx).toNat_lt
    rw [sendStep_passed metered overLimit secret]
    simp only [Accounted,WellBudgeted,overLimit,secret,used,roomy,Bool.true_and,decide_eq_true_eq,false_or,true_and]
    constructor
    · exact fun both => both.1
    · intro room
      unfold HasRoom at room
      exact ⟨room,by omega⟩

/-- Along every run of sends under an active policy with a tracker, every send let
through had room and the counter equals its start plus the sends let through, exactly
if each send is refused by the comparison of machine words or has room and holds no secret. -/
theorem outgoing_bytes_accounted_iff (detectSecrets : Bytes → Bool) (ctx : NetContext) (sends : List Outgoing)
    (metered : Metered ctx) :
    Run.Throughout (sendStep detectSecrets) (Accounted (outUsed ctx)) ⟨ctx,0,true⟩ sends ↔
      Run.Guarded (sendStep detectSecrets) (WellBudgeted detectSecrets) ⟨ctx,0,true⟩ sends := by
  exact Run.throughout_iff_guarded (sendStep_metered detectSecrets) (sendStep_accounted_iff detectSecrets (outUsed ctx))
    _ sends metered ⟨rfl,rfl⟩

def freshContext : NetContext := ⟨none,some [],some akBudgetTrackerInit⟩

/-- Two sends within the default limit. -/
theorem small_sends_accounted : Metered freshContext ∧
    Run.Throughout (sendStep fun _ => false) (Accounted (outUsed freshContext)) ⟨freshContext,0,true⟩
      [⟨some (ascii "hello"),5⟩,⟨none,1024⟩] :=
  ⟨⟨rfl,rfl⟩,(outgoing_bytes_accounted_iff (fun _ => false) freshContext [⟨some (ascii "hello"),5⟩,⟨none,1024⟩]
    ⟨rfl,rfl⟩).mpr ⟨Or.inr ⟨rfl,by decide⟩,Or.inr ⟨rfl,by decide⟩,trivial⟩⟩

/-- After one byte, a send of 2^64 - 1 bytes wraps the sum to 0: it passes a limit of
ten megabytes and leaves the counter at 0. -/
theorem wrapped_send_passes :
    let first := akNetFilterSend (fun _ => false) (some freshContext) ⟨none,1⟩
    let second := akNetFilterSend (fun _ => false) first.1 ⟨none,0xffffffffffffffff⟩
    first.2 = 0 ∧ second.2 = 0 ∧ (second.1.map outUsed) = some 0 ∧ (second.1.map outLimit) = some 10485760 :=
  ⟨by decide,by decide,by decide,by decide⟩

end AuthorityKernel.Net
