import AuthorityKernel.Capability.Keys
import AuthorityKernel.Library.Guards
import AuthorityKernel.Library.Run
import Mathlib.Data.List.MinMax

/-! What the key store is for: one active key, and key ids that name live keys
without ambiguity. Initialisation and import establish it; a rotation keeps it
exactly when it does not overwrite the active slot and its new id is free. -/
namespace AuthorityKernel.Capability
open Library

/-- Exactly one slot is active, it is the designated one and not retired, live
key ids are pairwise distinct, and so a lookup finds the one live key of an id. -/
structure KeyInvariant (s : CapState) : Prop where
  oneActive : ∃! i, (s.keys i).active = true
  designated : (s.keys s.activeKid).active = true
  live : (s.keys s.activeKid).retired = false
  distinct : ∀ i j, (s.keys i).retired = false → (s.keys j).retired = false →
    (s.keys i).kid = (s.keys j).kid → i = j
  unique : ∀ kid i, akKeyGet s kid = some i ↔ (s.keys i).kid = kid ∧ (s.keys i).retired = false

theorem find?_finRange (n : Nat) (p : Fin n → Bool) (i : Fin n) :
    (List.finRange n).find? p = some i ↔ p i = true ∧ ∀ j < i, p j = false := by
  rw [List.find?_eq_some_iff_getElem]
  constructor
  · rintro ⟨holds,k,bound,same,earlier⟩
    refine ⟨holds,fun j before => ?_⟩
    have position : k = i := by simpa using congrArg Fin.val same
    have found := earlier j (by omega)
    simpa using found
  · rintro ⟨holds,earlier⟩
    refine ⟨holds,i,by simp,by simp,fun j before => ?_⟩
    have inside : j < n := lt_trans before i.isLt
    simpa using earlier ⟨j,inside⟩ before

theorem akKeyGet_eq_some_iff (s : CapState) (kid : UInt8) (i : Fin 4) :
    akKeyGet s kid = some i ↔ ((s.keys i).kid = kid ∧ (s.keys i).retired = false) ∧
      ∀ j < i, (s.keys j).kid = kid → (s.keys j).retired = true := by
  rw [akKeyGet,find?_finRange]
  simp

theorem KeyInvariant.of_fields (s : CapState)
    (active : ∀ i, (s.keys i).active = true ↔ i = s.activeKid)
    (live : (s.keys s.activeKid).retired = false)
    (distinct : ∀ i j, (s.keys i).retired = false → (s.keys j).retired = false →
      (s.keys i).kid = (s.keys j).kid → i = j) : KeyInvariant s where
  oneActive := ⟨s.activeKid,(active _).mpr rfl,fun i on => (active i).mp on⟩
  designated := (active _).mpr rfl
  live := live
  distinct := distinct
  unique := by
    intro kid i
    rw [akKeyGet_eq_some_iff]
    constructor
    · intro found
      exact found.1
    · intro here
      refine ⟨here,fun j before same => ?_⟩
      by_contra alive
      have alive : (s.keys j).retired = false := by simpa using alive
      have equal := distinct j i alive here.2 (same.trans here.1.symm)
      exact absurd equal (ne_of_lt before)

theorem KeyInvariant.active_iff {s : CapState} (invariant : KeyInvariant s) (i : Fin 4) :
    (s.keys i).active = true ↔ i = s.activeKid := by
  constructor
  · intro on
    exact invariant.oneActive.unique on invariant.designated
  · rintro rfl
    exact invariant.designated

/-- Creation times come from the clock, so they stay below `UINT64_MAX`. -/
def Stamped (s : CapState) : Prop := ∀ i, (s.keys i).createdMs < 0xffffffffffffffff

theorem nowMs_lt_max (clock : UInt64) : nowMs clock < 0xffffffffffffffff := by
  have bound := nowMs_le clock
  rw [UInt64.lt_iff_toNat_lt]
  have top : (0xffffffffffffffff : UInt64).toNat = 18446744073709551615 := rfl
  omega

def Replaceable (now : UInt64) (key : Key) : Prop := key.retired = true ∨ now > key.expiresMs

def Oldest (keys : Fin 4 → Key) (slot : Fin 4) : Prop :=
  (∀ j < slot, (keys slot).createdMs < (keys j).createdMs) ∧
    ∀ j, (keys slot).createdMs ≤ (keys j).createdMs

def Chosen (now : UInt64) (s : CapState) (slot : Fin 4) : Prop :=
  (Replaceable now (s.keys slot) ∧ ∀ j < slot, ¬ Replaceable now (s.keys j)) ∨
    ((∀ j, ¬ Replaceable now (s.keys j)) ∧ Oldest s.keys slot)

/-- The rotation is not due, or it leaves the active slot alone and the new key
id differs from the id of every key that stays live. -/
def RotateSafe (clock : UInt64) (s : CapState) : Prop :=
  nowMs clock - s.lastRotationMs < akKeyRotationMs ∨
    ∀ slot, Chosen (nowMs clock) s slot → slot ≠ s.activeKid ∧
      ∀ j, j ≠ slot → ¬ Replaceable (nowMs clock) (s.keys j) → (s.keys j).kid ≠ s.keyCounter.toUInt8

@[simp] theorem retireExpired_retired (now : UInt64) (key : Key) :
    (retireExpired now key).retired = true ↔ Replaceable now key := by
  unfold retireExpired Replaceable
  split
  · rename_i due
    simp at due
    simp [due]
  rename_i keep
  simp at keep
  constructor
  · exact Or.inl
  · rintro (retired | late)
    · exact retired
    · exact keep late

@[simp] theorem retireExpired_kid (now : UInt64) (key : Key) : (retireExpired now key).kid = key.kid := by
  unfold retireExpired
  split <;> rfl

@[simp] theorem retireExpired_createdMs (now : UInt64) (key : Key) :
    (retireExpired now key).createdMs = key.createdMs := by
  unfold retireExpired
  split <;> rfl

@[simp] theorem retireExpired_active (now : UInt64) (key : Key) :
    (retireExpired now key).active = key.active := by
  unfold retireExpired
  split <;> rfl

variable (keys : Fin 4 → Key)

theorem firstRetired_eq_some_iff (i : Fin 4) :
    firstRetired keys = some i ↔ (keys i).retired = true ∧ ∀ j < i, (keys j).retired = false :=
  find?_finRange 4 _ i

theorem firstRetired_eq_none_iff :
    firstRetired keys = none ↔ ∀ j, (keys j).retired = false := by
  simp [firstRetired,List.find?_eq_none]

theorem oldestSlot_eq (stamped : ∀ i, (keys i).createdMs < 0xffffffffffffffff) :
    oldestSlot keys = (List.finRange 4).argmin fun i => (keys i).createdMs.toNat := by
  let best : Option (Fin 4) → UInt64 × Option (Fin 4) := fun slot =>
    (slot.elim 0xffffffffffffffff fun i => (keys i).createdMs,slot)
  have step : ∀ slot i, oldestStep keys (best slot) i =
      best (List.argAux (fun i j => (keys i).createdMs.toNat < (keys j).createdMs.toNat) slot i) := by
    intro slot i
    cases slot with
    | none => exact if_pos (stamped i)
    | some j =>
      simp only [oldestStep,best,List.argAux,Option.elim_some,UInt64.lt_iff_toNat_lt]
      split <;> rfl
  exact congrArg Prod.snd (@List.foldl_hom _ _ _ best _ _ (List.finRange 4) none step)

theorem oldestSlot_spec (stamped : ∀ i, (keys i).createdMs < 0xffffffffffffffff) :
    ∃ i, oldestSlot keys = some i ∧ Oldest keys i := by
  rw [oldestSlot_eq keys stamped]
  cases found : (List.finRange 4).argmin fun i => (keys i).createdMs.toNat with
  | none => exact absurd (List.argmin_eq_none.mp found) (by decide)
  | some i =>
    obtain ⟨_,least,first⟩ := List.argmin_eq_some_iff.mp found
    refine ⟨i,rfl,fun j before => ?_,fun j => UInt64.le_iff_toNat_le.mpr (least j (List.mem_finRange j))⟩
    by_contra later
    have order := first j (List.mem_finRange j) (UInt64.le_iff_toNat_le.mp (UInt64.not_lt.mp later))
    rw [List.idxOf_finRange,List.idxOf_finRange] at order
    exact absurd before (not_lt_of_ge order)

variable {i j : Fin 4}

theorem Oldest.unique {keys : Fin 4 → Key} (first : Oldest keys i) (second : Oldest keys j) :
    i = j := by
  rcases lt_trichotomy i j with before | same | before
  · exact absurd (first.2 j) (UInt64.not_le.mpr (second.1 i before))
  · exact same
  · exact absurd (second.2 i) (UInt64.not_le.mpr (first.1 j before))

theorem Chosen.unique {now : UInt64} {s : CapState} (first : Chosen now s i)
    (second : Chosen now s j) : i = j := by
  rcases first with ⟨freeI,earlierI⟩ | ⟨noneFree,oldestI⟩
  · rcases second with ⟨freeJ,earlierJ⟩ | ⟨noneFree,_⟩
    · rcases lt_trichotomy i j with before | same | before
      · exact absurd freeI (earlierJ i before)
      · exact same
      · exact absurd freeJ (earlierI j before)
    · exact absurd freeI (noneFree i)
  · rcases second with ⟨freeJ,_⟩ | ⟨_,oldestJ⟩
    · exact absurd freeJ (noneFree j)
    · exact oldestI.unique oldestJ

theorem rotateSlot_spec (now : UInt64) (s : CapState) (stamped : Stamped s) :
    ∃ slot, rotateSlot (fun i => retireExpired now (s.keys i)) = some slot ∧ Chosen now s slot := by
  unfold rotateSlot
  cases first : firstRetired fun i => retireExpired now (s.keys i) with
  | some slot =>
    rw [firstRetired_eq_some_iff] at first
    refine ⟨slot,rfl,Or.inl ⟨(retireExpired_retired _ _).mp first.1,fun j before free => ?_⟩⟩
    have kept := first.2 j before
    rw [(retireExpired_retired _ _).mpr free] at kept
    exact absurd kept (by simp)
  | none =>
    rw [firstRetired_eq_none_iff] at first
    obtain ⟨slot,found,oldest⟩ := oldestSlot_spec (fun i => retireExpired now (s.keys i)) (fun i => by simpa using stamped i)
    refine ⟨slot,by simpa using found,Or.inr ⟨fun j free => ?_,by simpa [Oldest] using oldest⟩⟩
    have kept := first j
    rw [(retireExpired_retired _ _).mpr free] at kept
    exact absurd kept (by simp)

def rotated (clock : UInt64) (random : Secret) (s : CapState) (slot : Fin 4) : CapState :=
  let installed := Function.update (fun i => retireExpired (nowMs clock) (s.keys i)) slot
    (newKey (nowMs clock) random s.keyCounter)
  { s with
    keys := Function.update installed s.activeKid { installed s.activeKid with active := false }
    activeKid := slot
    lastRotationMs := nowMs clock
    keyCounter := s.keyCounter + 1 }

section

variable (clock : UInt64) (random : Secret) (s : CapState)

theorem akKeyRotate_cases (stamped : Stamped s) :
    (nowMs clock - s.lastRotationMs < akKeyRotationMs ∧ akKeyRotate clock random s = s) ∨
      (¬ nowMs clock - s.lastRotationMs < akKeyRotationMs ∧ ∃ slot, Chosen (nowMs clock) s slot ∧
        akKeyRotate clock random s = rotated clock random s slot) := by
  by_cases early : nowMs clock - s.lastRotationMs < akKeyRotationMs
  · exact Or.inl ⟨early,by simp [akKeyRotate,early]⟩
  · obtain ⟨slot,found,chosen⟩ := rotateSlot_spec (nowMs clock) s stamped
    exact Or.inr ⟨early,slot,chosen,by simp [akKeyRotate,early,found,rotated]⟩

variable {slot : Fin 4}

theorem rotated_keys (elsewhere : slot ≠ s.activeKid) (i : Fin 4) :
    (rotated clock random s slot).keys i =
      if i = slot then newKey (nowMs clock) random s.keyCounter
      else if i = s.activeKid then { retireExpired (nowMs clock) (s.keys i) with active := false }
      else retireExpired (nowMs clock) (s.keys i) := by
  unfold rotated
  by_cases new : i = slot
  · subst new
    simp [Function.update_apply,elsewhere]
  by_cases old : i = s.activeKid
  · subst old
    simp [new]
  · simp [Function.update_apply,new,old]

theorem rotated_retired (elsewhere : slot ≠ s.activeKid) (different : i ≠ slot) :
    ((rotated clock random s slot).keys i).retired = false ↔ ¬ Replaceable (nowMs clock) (s.keys i) := by
  rw [rotated_keys clock random s elsewhere i,if_neg different,← Bool.not_eq_true,
    ← retireExpired_retired]
  split <;> rfl

theorem rotated_kid (elsewhere : slot ≠ s.activeKid) (different : i ≠ slot) :
    ((rotated clock random s slot).keys i).kid = (s.keys i).kid := by
  rw [rotated_keys clock random s elsewhere i,if_neg different]
  split <;> simp

theorem rotated_new (slot : Fin 4) (elsewhere : slot ≠ s.activeKid) :
    (rotated clock random s slot).keys slot = newKey (nowMs clock) random s.keyCounter := by
  rw [rotated_keys clock random s elsewhere slot,if_pos rfl]

theorem rotated_active (slot : Fin 4) (elsewhere : slot ≠ s.activeKid) (invariant : KeyInvariant s)
    (i : Fin 4) : ((rotated clock random s slot).keys i).active = true ↔ i = slot := by
  rw [rotated_keys clock random s elsewhere i]
  split
  · rename_i new
    simp [newKey,new]
  rename_i different
  split
  · simp [different]
  · rename_i notOld
    simp [different,invariant.active_iff,notOld]

end

theorem live_of_not_replaceable {now : UInt64} {key : Key} (kept : ¬ Replaceable now key) :
    key.retired = false := by
  cases flag : key.retired with
  | false => rfl
  | true => exact absurd (Or.inl flag) kept

section

variable (clock : UInt64) (random : Secret) (s : CapState)

theorem rotated_over_active : ¬ KeyInvariant (rotated clock random s s.activeKid) := by
  intro invariant
  have flag := invariant.designated
  simp [rotated] at flag

theorem rotated_distinct_iff (slot : Fin 4) (elsewhere : slot ≠ s.activeKid) (invariant : KeyInvariant s) :
    KeyInvariant (rotated clock random s slot) ↔ ∀ j, j ≠ slot →
      ¬ Replaceable (nowMs clock) (s.keys j) → (s.keys j).kid ≠ s.keyCounter.toUInt8 := by
  have fresh := rotated_new clock random s slot elsewhere
  constructor
  · intro after j different kept same
    apply different
    apply after.distinct j slot ((rotated_retired clock random s elsewhere different).mpr kept)
    · rw [fresh]; rfl
    · rw [fresh,rotated_kid clock random s elsewhere different,same]; rfl
  · intro free
    apply KeyInvariant.of_fields
    · exact rotated_active clock random s slot elsewhere invariant
    · change ((rotated clock random s slot).keys slot).retired = false
      rw [fresh]; rfl
    · intro i j aliveI aliveJ same
      -- Two surviving old keys were distinct before; the new id is free by assumption.
      by_cases newI : i = slot
      · by_cases newJ : j = slot
        · rw [newI,newJ]
        · have kept := (rotated_retired clock random s elsewhere newJ).mp aliveJ
          rw [newI,fresh,rotated_kid clock random s elsewhere newJ] at same
          exact absurd same.symm (free j newJ kept)
      have keptI := (rotated_retired clock random s elsewhere newI).mp aliveI
      rw [rotated_kid clock random s elsewhere newI] at same
      by_cases newJ : j = slot
      · rw [newJ,fresh] at same
        exact absurd same (free i newI keptI)
      · have keptJ := (rotated_retired clock random s elsewhere newJ).mp aliveJ
        rw [rotated_kid clock random s elsewhere newJ] at same
        exact invariant.distinct i j (live_of_not_replaceable keptI) (live_of_not_replaceable keptJ) same

theorem akKeyRotate_invariant_iff (stamped : Stamped s) (invariant : KeyInvariant s) :
    KeyInvariant (akKeyRotate clock random s) ↔ RotateSafe clock s := by
  rcases akKeyRotate_cases clock random s stamped with ⟨early,same⟩ | ⟨due,slot,chosen,same⟩
  · rw [same]
    exact iff_of_true invariant (Or.inl early)
  rw [same]
  have only : RotateSafe clock s ↔ slot ≠ s.activeKid ∧ ∀ j, j ≠ slot →
      ¬ Replaceable (nowMs clock) (s.keys j) → (s.keys j).kid ≠ s.keyCounter.toUInt8 := by
    constructor
    · rintro (early | safe)
      · exact absurd early due
      · exact safe slot chosen
    · intro safe
      refine Or.inr fun other otherChosen => ?_
      rw [← chosen.unique otherChosen]
      exact safe
  rw [only]
  by_cases overwrites : slot = s.activeKid
  · rw [overwrites]
    exact iff_of_false (rotated_over_active clock random s) (fun safe => safe.1 rfl)
  · rw [rotated_distinct_iff clock random s slot overwrites invariant]
    exact ⟨fun free => ⟨overwrites,free⟩,fun safe => safe.2⟩

theorem akKeyRotate_stamped (stamped : Stamped s) : Stamped (akKeyRotate clock random s) := by
  rcases akKeyRotate_cases clock random s stamped with ⟨_,same⟩ | ⟨_,slot,_,same⟩
  · rw [same]
    exact stamped
  rw [same]
  intro i
  have new := nowMs_lt_max clock
  have old := stamped i
  simp only [rotated,Function.update_apply]
  split
  · split
    · exact new
    · simpa using stamped s.activeKid
  · split
    · exact new
    · simpa using old

theorem akKeysInit_invariant : KeyInvariant (akKeysInit clock random s) := by
  apply KeyInvariant.of_fields
  · intro i
    by_cases first : i = 0 <;> simp [akKeysInit,first]
  · simp [akKeysInit]
  · intro i j aliveI aliveJ _
    by_cases firstI : i = 0 <;> by_cases firstJ : j = 0 <;> simp_all [akKeysInit]

theorem akKeysInit_stamped (stamped : Stamped s) : Stamped (akKeysInit clock random s) := by
  intro i
  by_cases first : i = 0
  · simpa [akKeysInit,first] using nowMs_lt_max clock
  · simpa [akKeysInit,first] using stamped i

end

theorem akKeysSetSeed_stamped (seed : Option Bytes) : Stamped (akKeysSetSeed seed .static) := by
  intro i
  have zero : (0 : UInt64) < 0xffffffffffffffff := by decide
  unfold akKeysSetSeed
  split
  · exact zero
  · exact zero
  · split <;> exact zero

theorem importActive_spec {blob : Bytes} {active : Fin 4} (accepted : importActive blob = some active) :
    slotByte blob active 2 = 0 ∧ ambiguousKids blob = false := by
  obtain ⟨_,accepted⟩ := Guards.passed accepted nofun
  obtain ⟨_,accepted⟩ := Guards.passed accepted nofun
  obtain ⟨_,accepted⟩ := Guards.passed accepted nofun
  split at accepted
  · obtain ⟨live,accepted⟩ := Guards.passed accepted nofun
    obtain ⟨clear,accepted⟩ := Guards.passed accepted nofun
    rw [← Option.some.inj accepted]
    exact ⟨by simpa using live,by simpa using clear⟩
  · simp at accepted

theorem kids_distinct {blob : Bytes} (clear : ambiguousKids blob = false)
    (aliveI : slotByte blob i 2 = 0) (aliveJ : slotByte blob j 2 = 0)
    (same : slotByte blob i 0 = slotByte blob j 0) : i = j := by
  have apart : ∀ a b : Fin 4, a < b → slotByte blob a 2 = 0 → slotByte blob b 2 = 0 →
      slotByte blob b 0 ≠ slotByte blob a 0 := by
    simp only [ambiguousKids,List.any_eq_false,List.mem_finRange,true_implies,Bool.and_eq_true,beq_iff_eq,
      decide_eq_true_eq,not_and,Bool.not_eq_true] at clear
    intro a b before aliveA aliveB
    exact clear a aliveA b ⟨before,aliveB⟩
  rcases lt_trichotomy i j with before | equal | before
  · exact absurd same.symm (apart i j before aliveI aliveJ)
  · exact equal
  · exact absurd same (apart j i before aliveJ aliveI)

section

variable (blob : Bytes) (now : UInt64) (active i : Fin 4)

@[simp] theorem importKey_kid : (importKey blob now active i).kid = slotByte blob i 0 := by
  unfold importKey
  split <;> rfl

@[simp] theorem importKey_active : (importKey blob now active i).active = (i == active) := by
  unfold importKey
  split <;> rfl

@[simp] theorem importKey_retired : (importKey blob now active i).retired = false ↔ slotByte blob i 2 = 0 := by
  unfold importKey
  split
  · rename_i gone
    have gone : slotByte blob i 2 ≠ 0 := by simpa using gone
    simp [gone]
  · rename_i alive
    have alive : slotByte blob i 2 = 0 := by simpa using alive
    simp [alive]

theorem importKey_createdMs_le : (importKey blob now active i).createdMs ≤ now := by
  unfold importKey
  split
  · exact UInt64.zero_le
  split
  · exact UInt64.le_refl _
  split
  · exact UInt64.zero_le
  rename_i positive
  grind

end

theorem akKeysImport_cases (clock : UInt64) (blob : Option Bytes) (s : CapState) :
    akKeysImport clock blob s = (s,false) ∨ ∃ bytes active counter, importActive bytes = some active ∧
      akKeysImport clock blob s = ({ s with
        keys := importKey bytes (nowMs clock) active
        activeKid := active
        keyCounter := counter
        lastRotationMs := nowMs clock },true) := by
  unfold akKeysImport
  split
  · exact Or.inl rfl
  split
  · exact Or.inl rfl
  split
  · exact Or.inl rfl
  rename_i active accepted
  exact Or.inr ⟨_,active,_,accepted,rfl⟩

theorem akKeysImport_invariant (clock : UInt64) (blob : Option Bytes) (s : CapState)
    (invariant : KeyInvariant s) : KeyInvariant (akKeysImport clock blob s).1 := by
  rcases akKeysImport_cases clock blob s with same | ⟨bytes,active,counter,accepted,same⟩
  · rw [same]
    exact invariant
  rw [same]
  obtain ⟨live,clear⟩ := importActive_spec accepted
  apply KeyInvariant.of_fields
  · simp
  · simpa using live
  · intro i j aliveI aliveJ same
    exact kids_distinct clear (by simpa using aliveI) (by simpa using aliveJ) (by simpa using same)

theorem akKeysImport_stamped (clock : UInt64) (blob : Option Bytes) (s : CapState) (stamped : Stamped s) :
    Stamped (akKeysImport clock blob s).1 := by
  rcases akKeysImport_cases clock blob s with same | ⟨bytes,active,counter,_,same⟩
  · rw [same]
    exact stamped
  · rw [same]
    exact fun i => UInt64.lt_of_le_of_lt (importKey_createdMs_le _ _ _ i) (nowMs_lt_max clock)

inductive KeyStep
  | init (clock : UInt64) (random : Secret)
  | rotate (clock : UInt64) (random : Secret)
  | exportKeys (alloc : Bool)
  | importKeys (clock : UInt64) (blob : Option Bytes)

def keyStep (s : CapState) : KeyStep → CapState
  | .init clock random => akKeysInit clock random s
  | .rotate clock random => akKeyRotate clock random s
  | .exportKeys _ => s
  | .importKeys clock blob => (akKeysImport clock blob s).1

def KeyStepSafe (s : CapState) : KeyStep → Prop
  | .rotate clock _ => RotateSafe clock s
  | _ => True

theorem keyStep_stamped (s : CapState) (input : KeyStep) (stamped : Stamped s) : Stamped (keyStep s input) := by
  cases input with
  | init clock random => exact akKeysInit_stamped clock random s stamped
  | rotate clock random => exact akKeyRotate_stamped clock random s stamped
  | exportKeys alloc => exact stamped
  | importKeys clock blob => exact akKeysImport_stamped clock blob s stamped

theorem keyStep_invariant_iff (s : CapState) (input : KeyStep) (stamped : Stamped s)
    (invariant : KeyInvariant s) : KeyInvariant (keyStep s input) ↔ KeyStepSafe s input := by
  cases input with
  | init clock random => exact iff_of_true (akKeysInit_invariant clock random s) trivial
  | rotate clock random => exact akKeyRotate_invariant_iff clock random s stamped invariant
  | exportKeys alloc => exact iff_of_true invariant trivial
  | importKeys clock blob => exact iff_of_true (akKeysImport_invariant clock blob s invariant) trivial

/-- From the first initialisation on, with or without a staged seed, the key store
invariant holds after every call exactly when every rotation that is due leaves
the active slot alone and draws an id no live key carries. -/
theorem keyStore_invariant_iff_rotations_safe (seed : Option Bytes) (clock : UInt64) (random : Secret)
    (steps : List KeyStep) :
    Run.Throughout keyStep KeyInvariant (akKeysInit clock random (akKeysSetSeed seed .static)) steps ↔
      Run.Guarded keyStep KeyStepSafe (akKeysInit clock random (akKeysSetSeed seed .static)) steps := by
  exact Run.throughout_iff_guarded keyStep_stamped keyStep_invariant_iff _ _
    (akKeysInit_stamped clock random _ (akKeysSetSeed_stamped seed)) (akKeysInit_invariant clock random _)

/-- A first rotation six days after boot: the initial key has expired, its slot is
the first free one, and the flag of the new key is cleared right after it is set. -/
theorem late_first_rotation_leaves_no_active_key :
    ¬ KeyInvariant (keyStep (akKeysInit 0 (Block.zero 32) .static)
      (.rotate (6 * 86400000 * 1000000) (Block.zero 32))) := by
  intro invariant
  have flag := invariant.designated
  exact absurd flag (by decide)

end AuthorityKernel.Capability
