import AuthorityKernel.Memory.Conditions
import AuthorityKernel.Memory.Search

/-! Calls that keep the mapped ranges in order and apart: what they map is a proper range with no
empty node inside, where the search for a free range would be misled. -/
namespace AuthorityKernel.Memory

structure Fits (rm : Vmaps) (q : Range) : Prop where
  proper : q.start < q.stop
  small : q.stop < addressSpace
  free : Free rm q

def orderly (p : Process) : Demands where
  fixed q := Free p.vmaps q
  placed q := Fits p.vmaps q
  searched region size := Roomy p.vmaps region p.randomize size ∧
    ∀ gap, (searchGaps p.vmaps region).find? (Gap.takes p.randomize size) = some gap →
      Free p.vmaps ⟨gap.start,gap.reach p.randomize size⟩
  source _ := True
  removed _ := True

variable {addr length : Nat} {q new : Range} {source : RemapSource} {flags : UInt32}

section Calls

variable {env : Surroundings} {p : Process} {answer : Except Int Nat} {rm after : Vmaps}

theorem fits_searched {region : Range} {size a : Nat} {random : Range → UInt64} (ordered : WellOrdered p.vmaps)
    (met : (orderly p).searched region size) (limit : region.stop ≤ userLimit) (whole : size % pageSize = 0)
    (some : 0 < size) (found : processGetVirtRangeLocked random p.randomize p.vmaps size region = Option.some a)
    (known : a ≠ invalidPhysical) : Fits p.vmaps (irangel a size) := by
  have small : region.stop < addressSpace := Nat.lt_of_le_of_lt limit (by decide)
  obtain ⟨gap,taken,above,reach,placed⟩ := search_found ordered small whole met.1 found known
  have below := placed.below
  rw [irangel_of_lt (by omega)]
  have inside : Range.Within ⟨a,a + size⟩ ⟨gap.start,gap.reach p.randomize size⟩ := ⟨above,reach⟩
  have ends : a + size < addressSpace := by omega
  exact ⟨Nat.lt_add_of_pos_right some,ends,(met.2 gap taken).within inside⟩

theorem proper_of_valid {len : Nat} (some : 0 < len) (short : len < addressSpace)
    (valid : validateMmapRange p (irangel addr len) = true) : (irangel addr len).start < (irangel addr len).stop := by
  simp only [validateMmapRange,rangeValid,Bool.and_eq_true,decide_eq_true_eq] at valid
  obtain ⟨⟨forwards,-⟩,-⟩ := valid
  simp only [irangel] at forwards ⊢
  unfold addressSpace at *
  omega

theorem mmapRange_fits (ordered : WellOrdered p.vmaps) (some : 0 < pad length)
    (ranged : MmapRange env p (orderly p) addr length flags q) : Fits p.vmaps q := by
  cases ranged with
  | fixed asked shape valid met =>
    rw [shape] at valid met ⊢
    exact ⟨proper_of_valid some (pad_lt _) valid,irangel_stop_lt _ _,met⟩
  | hinted free shape room met => exact met
  | searched free vaddr found known shape met =>
    rw [shape]
    exact fits_searched ordered met (mmapRegion_limit flags) (pad_whole _) some found known

theorem mmapRange_shape {demands : Demands} (proper : q.start < q.stop)
    (ranged : MmapRange env p demands addr length flags q) : q = ⟨q.start,q.start + pad length⟩ := by
  have shaped : ∀ start, q = irangel start (pad length) → q = ⟨q.start,q.start + pad length⟩ := by
    intro start shape
    rw [shape] at proper ⊢
    exact irangel_of_proper (pad_lt _) proper
  cases ranged with
  | fixed _ shape | hinted _ shape => exact shaped _ shape
  | searched free vaddr found known shape met => exact shaped _ shape

theorem remapRange_fits (ordered : WellOrdered p.vmaps) (whole : source.size % pageSize = 0)
    (ranged : RemapRange env p (orderly p) source new) : Fits p.vmaps new := by
  cases ranged with
  | placed met => exact met
  | searched vnew found known some shape met =>
    rw [shape]
    exact fits_searched ordered met (le_refl _) whole some found known

theorem pageAt_setFault (rm : Vmaps) (start fault x : Nat) : pageAt (setFault rm start fault) x = pageAt rm x := by
  unfold pageAt setFault
  have holds : (fun node : Vmap => decide (node.r.Holds x)) ∘
      (fun node => if node.start == start then { node with value.fault := fault } else node) =
      fun node => decide (node.r.Holds x) := by
    funext node
    simp only [Function.comp]
    split
    · rfl
    · rfl
  rw [List.find?_map,holds,Option.map_map]
  congr 1
  funext node
  simp only [Function.comp]
  split
  · rfl
  · rfl

theorem removed_orderly {memory : Records} {unmap : Bool} {cleared : Vmaps} (ordered : WellOrdered rm)
    (small : q.stop < addressSpace) (fits : Fits rm new)
    (done : processRemoveRangeLocked memory unmap q rm = some cleared) :
    WellOrdered cleared ∧ Fits cleared new ∧
      ∀ x page, pageAt cleared x = some page → pageAt rm x = some page := by
  have became := removeRange_became ordered small done
  refine ⟨became.ordered,⟨fits.proper,fits.small,became.free fits.free⟩,fun x page shown => ?_⟩
  rw [became.shown x] at shown
  split at shown
  · cases shown
  · exact shown

theorem mmapInsert_pages {backing : Backing} {k : Vmap} (ordered : WellOrdered rm) (fits : Fits rm k.r)
    (done : mmapInsert env flags backing k rm = some after) :
    WellOrdered after ∧ ∀ x page, pageAt after x = some page →
      (k.r.Holds x ∧ page = pageOf k x) ∨ (¬ k.r.Holds x ∧ pageAt rm x = some page) := by
  obtain ⟨cleared,mapped,start,clear,allocated,rfl⟩ := mmapInsert_done done
  have ready : WellOrdered cleared ∧ Fits cleared k.r ∧
      ∀ x page, pageAt cleared x = some page → pageAt rm x = some page := by
    unfold mmapClear at clear
    split at clear
    · exact removed_orderly ordered fits.small fits clear
    · cases clear
      exact ⟨ordered,fits,fun _ _ shown => shown⟩
  obtain ⟨stays,there,old⟩ := ready
  have became := became_allocate stays there.proper there.small there.free allocated
  refine ⟨ordered_setFault became.ordered start _,fun x page shown => ?_⟩
  rw [pageAt_setFault,became.shown x] at shown
  split at shown
  · rename_i holds
    exact Or.inl ⟨holds,(Option.some.inj shown).symm⟩
  · rename_i misses
    exact Or.inr ⟨misses,old x page shown⟩

theorem remapTo_pages {fixed moves : Bool} (ordered : WellOrdered rm) (small : source.old.stop < addressSpace)
    (fits : Fits rm new) (done : remapTo env rm source new fixed moves = some (answer,after)) :
    WellOrdered after ∧ ∀ x page, pageAt after x = some page →
      (new.Holds x ∧ answer = .ok new.start ∧ page = pageOf { source.vmap with r := new } x) ∨
      ((answer = .ok new.start → ¬ new.Holds x) ∧ pageAt rm x = some page) := by
  obtain ⟨taken,cleared,first,second,last⟩ := remapTo_done done
  obtain ⟨stays,there,old⟩ := removed_orderly ordered small fits first
  have ready : WellOrdered cleared ∧ Fits cleared new ∧
      ∀ x page, pageAt cleared x = some page → pageAt taken x = some page := by
    unfold remapClear at second
    split at second
    · exact removed_orderly stays there.small there second
    · cases second
      exact ⟨stays,there,fun _ _ shown => shown⟩
  obtain ⟨clean,room,older⟩ := ready
  rcases last with ⟨start,allocated,yes⟩ | ⟨-,rfl,no⟩
  · have became := @became_allocate env.memory cleared after start { source.vmap with r := new } clean room.proper
      room.small room.free allocated
    refine ⟨became.ordered,fun x page shown => ?_⟩
    rw [became.shown x] at shown
    split at shown
    · rename_i holds
      exact Or.inl ⟨holds,yes,(Option.some.inj shown).symm⟩
    · rename_i misses
      exact Or.inr ⟨fun _ => misses,old x page (older x page shown)⟩
  · refine ⟨clean,fun x page shown => Or.inr ⟨fun same => ?_,old x page (older x page shown)⟩⟩
    rw [no] at same
    cases same

end Calls

end AuthorityKernel.Memory
