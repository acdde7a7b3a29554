import AuthorityKernel.Capability.KeyInvariant
import Mathlib.Data.List.GetD

/-! The saved key set comes back: importing an exported blob restores every live
key under its id, with new lifetimes. -/
namespace AuthorityKernel.Capability
open Library

variable (clock : UInt64) (random : Secret) (s : CapState) (i : Fin 4)

@[simp] theorem exportSlot_length (key : Key) : (exportSlot key).length = akKeysSlotSize := by
  have secret : key.secret.toList.length = 32 := List.Vector.toList_length _
  cases flag : key.retired <;> simp [exportSlot,flag,secret,akKeysSlotSize]

@[simp] theorem exportHeader_length : (exportHeader s).length = 16 := by
  simp [exportHeader]

def blobOf (s : CapState) : Bytes := exportHeader s ++ (List.finRange 4).flatMap fun i => exportSlot (s.keys i)

theorem getD_flatMap {n width : Nat} (record : Fin n → Bytes) (wide : ∀ i, (record i).length = width)
    (i : Fin n) (offset : Nat) (inside : offset < width) :
    ((List.finRange n).flatMap record).getD (i * width + offset) 0 = (record i).getD offset 0 := by
  induction n with
  | zero => exact i.elim0
  | succ n ih =>
    rw [List.finRange_succ,List.flatMap_cons,List.flatMap_map]
    cases i using Fin.cases with
    | zero =>
      rw [List.getD_append _ _ _ _ (by simp [wide,inside])]
      simp
    | succ j =>
      have beyond : (record 0).length ≤ (j.succ : Nat) * width + offset := by
        rw [wide,Fin.val_succ,Nat.add_mul,Nat.one_mul]
        omega
      rw [List.getD_append_right _ _ _ _ beyond,wide]
      have shifted : (j.succ : Nat) * width + offset - width = j * width + offset := by
        rw [Fin.val_succ,Nat.add_mul,Nat.one_mul]
        omega
      rw [shifted]
      exact ih (fun k => record k.succ) (fun k => wide k.succ) j

theorem slotByte_blobOf (offset : Nat) (inside : offset < akKeysSlotSize) :
    slotByte (blobOf s) i offset = (exportSlot (s.keys i)).getD offset 0 := by
  rw [slotByte,blobOf,List.getD_append_right _ _ _ _ (by simp; omega),exportHeader_length]
  have shifted : 16 + (i : Nat) * akKeysSlotSize + offset - 16 = i * akKeysSlotSize + offset := by omega
  rw [shifted]
  exact getD_flatMap (fun i => exportSlot (s.keys i)) (fun i => exportSlot_length _) i offset inside

theorem slotByte_blobOf_kid : slotByte (blobOf s) i 0 = (s.keys i).kid := by
  rw [slotByte_blobOf s i 0 (by decide)]
  rfl

theorem slotByte_blobOf_retired : slotByte (blobOf s) i 2 = 0 ↔ (s.keys i).retired = false := by
  rw [slotByte_blobOf s i 2 (by decide)]
  change (if (s.keys i).retired then (1 : UInt8) else 0) = 0 ↔ _
  cases (s.keys i).retired <;> simp

theorem slotSecret_blobOf (live : (s.keys i).retired = false) : slotSecret (blobOf s) i = (s.keys i).secret := by
  apply Subtype.ext
  change (List.range 32).map (fun n => slotByte (blobOf s) i (24 + n)) = (s.keys i).secret.toList
  have size : (s.keys i).secret.toList.length = 32 := List.Vector.toList_length _
  apply List.ext_getElem
  · simp [size]
  · intro n first second
    have slot : exportSlot (s.keys i) =
        ([(s.keys i).kid,if (s.keys i).active then 1 else 0,if (s.keys i).retired then 1 else 0] ++
          List.replicate 5 0 ++ u64Bytes (s.keys i).createdMs ++ u64Bytes (s.keys i).expiresMs) ++
          (s.keys i).secret.toList := by
      simp [exportSlot,live]
    rw [List.getElem_map,List.getElem_range,slotByte_blobOf s i (24 + n) (by simp [akKeysSlotSize]; omega),slot,
      List.getD_append_right _ _ _ _ (by simp)]
    have position : 24 + n - 24 = n := by omega
    simp only [List.length_append,List.length_cons,List.length_nil,List.length_replicate,u64Bytes_length]
    exact (congrArg (List.getD _ · 0) position).trans (List.getD_eq_getElem _ _ second)

theorem blobOf_length : (blobOf s).length = akKeysBlobSize := by
  rw [blobOf,List.length_append,exportHeader_length,List.length_flatMap]
  simp [akKeysBlobSize]
  omega

def Unambiguous (s : CapState) : Prop := ∀ i j, (s.keys i).retired = false → (s.keys j).retired = false →
  (s.keys i).kid = (s.keys j).kid → i = j

theorem ambiguousKids_blobOf : ambiguousKids (blobOf s) = false ↔ Unambiguous s := by
  constructor
  · intro clear i j liveI liveJ same
    rw [← slotByte_blobOf_retired] at liveI liveJ
    rw [← slotByte_blobOf_kid s i,← slotByte_blobOf_kid s j] at same
    exact kids_distinct clear liveI liveJ same
  · intro distinct
    simp only [ambiguousKids,List.any_eq_false,List.mem_finRange,true_implies,Bool.and_eq_true,beq_iff_eq,
      decide_eq_true_eq,not_and,Bool.not_eq_true,slotByte_blobOf_kid,slotByte_blobOf_retired]
    rintro i liveI j ⟨before,liveJ⟩ same
    exact absurd (distinct j i liveJ liveI same) (ne_of_gt before)

theorem importActive_blobOf (live : (s.keys s.activeKid).retired = false) :
    importActive (blobOf s) = if ambiguousKids (blobOf s) then none else some s.activeKid := by
  have magic : leNat (slice (blobOf s) 0 4) = akKeysBlobMagic := by
    have front : slice (blobOf s) 0 4 = leBytes 4 akKeysBlobMagic := by
      rw [blobOf,exportHeader,slice,List.drop_zero,List.append_assoc,List.append_assoc]
      exact List.take_left' (leBytes_length _ _)
    rw [front,leNat_leBytes]
    decide
  have version : (blobOf s).getD 4 0 = akKeysBlobVersion := rfl
  have named : ((blobOf s).getD 5 0).toNat = s.activeKid := by
    change (UInt8.ofNat s.activeKid).toNat = s.activeKid
    rw [UInt8.toNat_ofNat']
    omega
  have live := (slotByte_blobOf_retired s s.activeKid).mpr live
  have inside : ((blobOf s).getD 5 0).toNat < 4 := by
    rw [named]
    exact s.activeKid.isLt
  have slot : (⟨((blobOf s).getD 5 0).toNat,inside⟩ : Fin 4) = s.activeKid := Fin.ext named
  unfold importActive
  rw [if_neg (by simp [blobOf_length]),if_neg (fun wrong => wrong magic),if_neg (fun wrong => wrong version),dif_pos inside]
  rw [slot,if_neg (by simp [live])]

theorem akKeysImport_blobOf (fresh : CapState) (live : (s.keys s.activeKid).retired = false)
    (distinct : Unambiguous s) (ready : fresh.initialized = true) :
    ∃ imported, akKeysImport clock (some (blobOf s)) fresh = (imported,true) ∧ ∀ i,
      (imported.keys i).kid = (s.keys i).kid ∧ (imported.keys i).retired = (s.keys i).retired ∧
        ((s.keys i).retired = false → (imported.keys i).secret = (s.keys i).secret) := by
  unfold akKeysImport
  dsimp only
  rw [if_neg (by simp [ready]),importActive_blobOf s live,(ambiguousKids_blobOf s).mpr distinct]
  refine ⟨_,rfl,fun i => ⟨?_,?_,fun live => ?_⟩⟩
  · exact (importKey_kid _ _ _ i).trans (slotByte_blobOf_kid s i)
  · have flag := (importKey_retired (blobOf s) (nowMs clock) s.activeKid i).trans (slotByte_blobOf_retired s i)
    cases old : (s.keys i).retired with
    | false => exact flag.mpr old
    | true => exact Bool.eq_true_of_not_eq_false fun live => by simp [flag.mp live] at old
  · have kept := (slotByte_blobOf_retired s i).mpr live
    change (importKey (blobOf s) (nowMs clock) s.activeKid i).secret = _
    rw [importKey,if_neg (by simp [kept])]
    exact slotSecret_blobOf s i live

/-- A token naming key `kid` is checked against `key`. -/
def Verifies (s : CapState) (kid : UInt8) (key : Secret) : Prop :=
  ∃ i, akKeyGet s kid = some i ∧ (s.keys i).secret = key

theorem Verifies.of_slots {s t : CapState} (slots : ∀ i, (t.keys i).kid = (s.keys i).kid ∧
      (t.keys i).retired = (s.keys i).retired ∧
        ((s.keys i).retired = false → (t.keys i).secret = (s.keys i).secret)) (kid : UInt8) (key : Secret) :
    Verifies t kid key ↔ Verifies s kid key := by
  have same : ∀ i, akKeyGet t kid = some i ↔ akKeyGet s kid = some i := by
    intro i
    simp only [akKeyGet_eq_some_iff,(slots _).1,(slots _).2.1]
  apply exists_congr
  intro i
  rw [same]
  apply and_congr_right
  intro found
  rw [(slots i).2.2 ((akKeyGet_eq_some_iff s kid i).mp found).1.2]

theorem verifies_boot (kid : UInt8) (key : Secret) :
    Verifies (akKeysInit clock random s) kid key ↔ kid = 0 ∧ key = s.keysSeed.getD random := by
  unfold Verifies
  simp only [(akKeysInit_invariant clock random s).unique]
  constructor
  · rintro ⟨i,⟨named,live⟩,secret⟩
    by_cases first : i = 0
    · subst first
      exact ⟨named.symm,secret.symm⟩
    · simp [akKeysInit,first] at live
  · rintro ⟨rfl,rfl⟩
    exact ⟨0,⟨rfl,rfl⟩,rfl⟩

/-- The active slot holds a live key in every store that calls can lead to. -/
structure Running (s : CapState) : Prop where
  ready : s.initialized = true
  stamped : Stamped s
  live : (s.keys s.activeKid).retired = false

theorem keyStep_running (input : KeyStep) (running : Running s) : Running (keyStep s input) := by
  have stamped := keyStep_stamped s input running.stamped
  cases input with
  | init clock random => exact ⟨rfl,stamped,(akKeysInit_invariant clock random s).live⟩
  | rotate clock random =>
    simp only [keyStep] at stamped ⊢
    rcases akKeyRotate_cases clock random s running.stamped with ⟨_,same⟩ | ⟨_,slot,_,same⟩
    · rw [same]
      exact running
    refine ⟨?_,stamped,?_⟩
    · rw [same]
      exact running.ready
    · rw [same]
      by_cases overwrites : slot = s.activeKid <;> simp [rotated,newKey,Function.update_apply,overwrites]
  | exportKeys alloc => exact running
  | importKeys clock blob =>
    simp only [keyStep] at stamped ⊢
    rcases akKeysImport_cases clock blob s with same | ⟨bytes,active,counter,accepted,same⟩
    · rw [same]
      exact running
    refine ⟨?_,stamped,?_⟩
    · rw [same]
      exact running.ready
    · rw [same]
      exact (importKey_retired bytes (nowMs clock) active active).mpr (importActive_spec accepted).1

/-- A saved store comes back with its verifying keys exactly when its live ids are
distinct, or by chance the only pair it could verify is the one the new boot
starts with; and a blob that is refused changes nothing. -/
theorem exported_keys_return_iff (seed bootSeed : Option Bytes) (clock bootClock importClock : UInt64)
    (random bootRandom : Secret) (steps : List KeyStep) :
    let s := Run.run keyStep (akKeysInit clock random (akKeysSetSeed seed .static)) steps
    let boot := akKeysSetSeed bootSeed .static
    let fresh := akKeysInit bootClock bootRandom boot
    (∃ blob, akKeysExport true s = some blob ∧
      ((∀ kid key, Verifies (akKeysImport importClock (some blob) fresh).1 kid key ↔ Verifies s kid key) ↔
        Unambiguous s ∨ ∀ kid key, Verifies s kid key ↔ kid = 0 ∧ key = boot.keysSeed.getD bootRandom)) ∧
      ∀ clock blob before, (akKeysImport clock (some blob) before).2 = false →
        (akKeysImport clock (some blob) before).1 = before := by
  intro s boot fresh
  have running : Running s := Run.invariant_run_always keyStep_running _ steps
    ⟨rfl,akKeysInit_stamped clock random _ (akKeysSetSeed_stamped seed),(akKeysInit_invariant clock random _).live⟩
  refine ⟨⟨blobOf s,by simp [akKeysExport,running.ready,blobOf],?_⟩,?_⟩
  · by_cases distinct : Unambiguous s
    · obtain ⟨imported,restored,slots⟩ := akKeysImport_blobOf importClock s fresh running.live distinct rfl
      rw [restored]
      exact iff_of_true (Verifies.of_slots slots) (Or.inl distinct)
    · have refused : akKeysImport importClock (some (blobOf s)) fresh = (fresh,false) := by
        have ambiguous : ambiguousKids (blobOf s) = true := by
          simpa using mt (ambiguousKids_blobOf s).mp distinct
        rw [akKeysImport,importActive_blobOf s running.live,ambiguous]
        rfl
      simp only [refused,fresh,verifies_boot]
      constructor
      · intro same
        exact Or.inr fun kid key => (same kid key).symm
      · rintro (only | same)
        · exact absurd only distinct
        · exact fun kid key => (same kid key).symm
  · intro clock blob before refused
    rcases akKeysImport_cases clock (some blob) before with same | ⟨_,_,_,_,same⟩
    · rw [same]
    · rw [same] at refused
      contradiction

/-- The framing checks do not compare the counter with the ids: this blob's one live
key has the id that the next rotation draws. -/
def trailingBlob : Bytes :=
  let s := akKeysInit 0 (Block.zero 32) .static
  blobOf { s with keys := fun i => { s.keys i with kid := 1 } }

def trailing : List KeyStep :=
  [.importKeys 0 (some trailingBlob),.rotate ((akKeyRotationMs + 1) * 1000000) (Block.zero 32)]

theorem repeated_id_is_not_restored :
    let fresh := akKeysInit 0 (Block.zero 32) .static
    let s := Run.run keyStep fresh trailing
    Verifies s 1 (Block.zero 32) ∧
      ¬ Verifies (akKeysImport 0 (akKeysExport true s) fresh).1 1 (Block.zero 32) := by
  refine ⟨⟨0,by decide +kernel⟩,?_⟩
  rintro ⟨i,found,_⟩
  revert i
  decide +kernel

end AuthorityKernel.Capability
