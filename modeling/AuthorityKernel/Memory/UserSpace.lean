import AuthorityKernel.Library.Run
import AuthorityKernel.Memory.Bounds
import AuthorityKernel.Memory.Conditions
import AuthorityKernel.Memory.Search

/-! Which runs of memory calls keep the mapped ranges in user space. A hint is not checked against
the limits of user space, a fixed address of `mremap` is not checked at all, and an empty mapped
range hides those behind it, so a run is confined under a condition on each call. -/
namespace AuthorityKernel.Memory

open Library.Run

/-- A range where a mapping can go: in user space, away from every node outside, and with no empty node inside. -/
structure Available (low : Nat) (rm : Vmaps) (q : Range) : Prop where
  user : InUser low q
  far : Far low rm q
  free : Free rm q

/-- The search through a region takes a gap that has room, and no empty node lies where it may choose. -/
structure Searchable (low : Nat) (rm : Vmaps) (randomize : Bool) (region : Range) (size : Nat) : Prop where
  above : low ≤ region.start
  far : Far low rm region
  roomy : Roomy rm region randomize size
  free : ∀ gap, (searchGaps rm region).find? (Gap.takes randomize size) = some gap →
    Free rm ⟨gap.start,gap.reach randomize size⟩

/-- What confines a call: it stays away from the nodes outside user space, and what it maps is available. -/
def confining (p : Process) : Demands where
  fixed q := Far p.mmapMinAddr p.vmaps q ∧ Free p.vmaps q
  placed q := Available p.mmapMinAddr p.vmaps q
  searched region size := Searchable p.mmapMinAddr p.vmaps p.randomize region size
  source vm := InBounds p.mmapMinAddr vm.r
  removed q := Far p.mmapMinAddr p.vmaps q

variable {addr : Nat} {q new : Range} {flags : UInt32} {rm : Vmaps}

section Calls

variable {env : Surroundings} {p : Process} {answer : Except Int Nat} {after : Vmaps} {low : Nat}

theorem Searchable.available {region : Range} {size a : Nat} {random : Range → UInt64} (ordered : WellOrdered p.vmaps)
    (searchable : Searchable low p.vmaps p.randomize region size) (limit : region.stop ≤ userLimit)
    (whole : size % pageSize = 0) (some : 0 < size)
    (found : processGetVirtRangeLocked random p.randomize p.vmaps size region = Option.some a)
    (known : a ≠ invalidPhysical) : Available low p.vmaps (irangel a size) := by
  have small : region.stop < addressSpace := Nat.lt_of_le_of_lt limit (by decide)
  obtain ⟨gap,taken,above,reach,placed⟩ := search_found ordered small whole searchable.roomy found known
  have below := placed.below
  rw [irangel_of_lt (by omega)]
  have within : Range.Within ⟨a,a + size⟩ region := ⟨placed.above,below⟩
  have inside : Range.Within ⟨a,a + size⟩ ⟨gap.start,gap.reach p.randomize size⟩ := ⟨above,reach⟩
  exact ⟨⟨searchable.above.trans placed.above,Nat.lt_add_of_pos_right some,below.trans limit⟩,
    searchable.far.within within,(searchable.free gap taken).within inside⟩

theorem validateMmapRange_user {len : Nat} (some : 0 < len) (short : len < addressSpace)
    (valid : validateMmapRange p (irangel addr len) = true) : InUser p.mmapMinAddr (irangel addr len) := by
  simp only [validateMmapRange,rangeValid,Bool.and_eq_true,decide_eq_true_eq] at valid
  obtain ⟨⟨forwards,above⟩,below⟩ := valid
  refine ⟨above,?_,below⟩
  simp only [irangel] at forwards ⊢
  unfold addressSpace at *
  omega

theorem mmapped_available {length : Nat} (ordered : WellOrdered p.vmaps) (some : 0 < pad length)
    (ranged : MmapRange env p (confining p) addr length flags q) : Available p.mmapMinAddr p.vmaps q := by
  cases ranged with
  | fixed asked shape valid met =>
    refine ⟨?_,met.1,met.2⟩
    rw [shape] at valid ⊢
    exact validateMmapRange_user some (pad_lt _) valid
  | hinted free shape room met => exact met
  | searched free vaddr found known shape met =>
    rw [shape]
    exact met.available ordered (mmapRegion_limit flags) (pad_whole _) some found known

theorem keeps_setFault (rm : Vmaps) (start fault : Nat) : Keeps low rm (setFault rm start fault) :=
  fun _ member => Or.inl (mem_setFault member)

theorem sound_setFault (sound : Sound low rm) (start fault : Nat) : Sound low (setFault rm start fault) := by
  refine ⟨ordered_setFault sound.toWellOrdered start fault,fun node member bounds => ?_⟩
  obtain ⟨old,among,same⟩ := mem_setFault member
  rw [← same] at bounds ⊢
  exact (sound.isolated old among bounds).keeps (keeps_setFault rm start fault)

theorem available_removed {memory : Records} {unmap : Bool} {cleared : Vmaps} (sound : Sound low rm)
    (small : q.stop < addressSpace) (far : Far low rm q) (available : Available low rm new)
    (done : processRemoveRangeLocked memory unmap q rm = some cleared) :
    Sound low cleared ∧ Keeps low rm cleared ∧ Available low cleared new := by
  obtain ⟨stays,keeps⟩ := sound_removeRange sound small far done
  exact ⟨stays,keeps,available.user,available.far.keeps keeps,
    (removeRange_became sound.toWellOrdered small done).free available.free⟩

theorem sound_mmapInsert {backing : Backing} {k : Vmap} (sound : Sound low rm) (available : Available low rm k.r)
    (done : mmapInsert env flags backing k rm = some after) : Sound low after ∧ Keeps low rm after := by
  obtain ⟨cleared,mapped,start,clear,allocated,rfl⟩ := mmapInsert_done done
  have ready : Sound low cleared ∧ Keeps low rm cleared ∧ Available low cleared k.r := by
    unfold mmapClear at clear
    split at clear
    · exact available_removed sound available.user.small available.far available clear
    · cases clear
      exact ⟨sound,Keeps.refl _,available⟩
  obtain ⟨stays,keeps,there⟩ := ready
  obtain ⟨sounder,more⟩ := sound_allocate stays there.user there.far there.free allocated
  exact ⟨sound_setFault sounder start _,(keeps.trans more).trans (keeps_setFault mapped start _)⟩

theorem sound_remapTo {source : RemapSource} {fixed moves : Bool} (sound : Sound low rm)
    (small : source.old.stop < addressSpace) (far : Far low rm source.old) (available : Available low rm new)
    (done : remapTo env rm source new fixed moves = some (answer,after)) : Sound low after ∧ Keeps low rm after := by
  obtain ⟨taken,cleared,first,second,last⟩ := remapTo_done done
  obtain ⟨stays,keeps,there⟩ := available_removed sound small far available first
  have ready : Sound low cleared ∧ Keeps low taken cleared ∧ Available low cleared new := by
    unfold remapClear at second
    split at second
    · exact available_removed stays there.user.small there.far there second
    · cases second
      exact ⟨stays,Keeps.refl _,there⟩
  obtain ⟨clean,more,open'⟩ := ready
  rcases last with ⟨start,allocated,-⟩ | ⟨-,rfl,-⟩
  · obtain ⟨sounder,most⟩ := @sound_allocate low env.memory cleared after { source.vmap with r := new } start clean
      open'.user open'.far open'.free allocated
    exact ⟨sounder,(keeps.trans more).trans most⟩
  · exact ⟨clean,keeps.trans more⟩

theorem sound_mremap {oldAddress oldSize newSize newAddress : UInt64} (sound : Sound p.mmapMinAddr p.vmaps)
    (meets : CallMeets (confining p) p (.mremap oldAddress oldSize newSize flags newAddress))
    (done : mremap env p oldAddress.toNat oldSize.toNat newSize.toNat flags newAddress.toNat = some (answer,after)) :
    Sound p.mmapMinAddr after ∧ Keeps p.mmapMinAddr p.vmaps after := by
  have ordered := sound.toWellOrdered
  rcases mremap_done done with ⟨-,rfl⟩ | ⟨source,found,rest⟩
  · exact ⟨sound,Keeps.refl _⟩
  obtain ⟨member,holds,within,-,size,-⟩ := remapSource_ok ordered oldAddress.toNat_lt found
  have small : source.old.stop < addressSpace :=
    Nat.lt_of_le_of_lt within.2 (sound.small source.vmap member)
  rcases rest with ⟨-,-,-,rfl⟩ | ⟨-,asked,smaller,cut⟩ | ⟨new,fixed,moves,target,moved⟩
  · exact ⟨sound,Keeps.refl _⟩
  · have far := shrunk_meets ordered meets found asked smaller
    exact @sound_removeRange p.mmapMinAddr env.memory p.vmaps after
      ⟨(source.old.start + source.size) % addressSpace,source.old.stop⟩ true sound small far cut
  obtain ⟨bounds,ranged⟩ := target_meets ordered meets found target
  have far := (sound.isolated source.vmap member bounds).within within
  refine sound_remapTo sound small far ?_ moved
  cases ranged with
  | placed met => exact met
  | searched vnew chosen known some shape met =>
    have whole : source.size % pageSize = 0 := size ▸ remapSource_whole source.vmap
    rw [shape]
    exact met.available ordered (le_refl _) whole some chosen known

theorem sound_handle {call : Call} (sound : Sound p.mmapMinAddr p.vmaps) (meets : CallMeets (confining p) p call)
    (done : handle env p call = some (answer,after)) :
    Sound p.mmapMinAddr after ∧ Keeps p.mmapMinAddr p.vmaps after := by
  have ordered := sound.toWellOrdered
  cases call with
  | mmap addr length prot flags fd offset =>
    rw [handle] at done
    rcases mmap_done done with ⟨-,rfl⟩ | ⟨vmflags,place,q,backing,k,mapped,inserted,-⟩
    · exact ⟨sound,Keeps.refl _⟩
    · obtain ⟨fault,rfl⟩ := mmapCustom_ok mapped.record
      have some : 0 < pad length.toNat := Nat.pos_of_ne_zero mapped.len
      exact sound_mmapInsert sound (mmapped_available ordered some (mmapped_meets meets mapped)) inserted
  | mremap oldAddress oldSize newSize flags newAddress => exact sound_mremap sound meets done
  | mprotect addr len prot =>
    have word : addr.toNat < addressSpace := addr.toNat_lt
    rcases mprotect_done word done with rfl | ⟨-,below,whole,-,looped⟩
    · exact ⟨sound,Keeps.refl _⟩
    have small : addr.toNat + pad len.toNat < addressSpace := below.trans (by decide)
    have far : Far p.mmapMinAddr p.vmaps ⟨addr.toNat,addr.toNat + pad len.toNat⟩ := by
      rw [← irangel_of_lt small]
      exact meets
    exact sound_updateFlagsLoop sound far (Nat.le_add_right _ _) small
      (fun r _ starts => ⟨le_refl _,starts,rfl⟩) looped
  | munmap addr length =>
    rcases munmap_done done with ⟨-,rfl⟩ | ⟨-,-,removed⟩
    · exact ⟨sound,Keeps.refl _⟩
    · exact sound_removeRange sound (irangel_stop_lt _ _) meets removed
  | madvise addr length advice =>
    rcases madvise_done done with rfl | ⟨-,whole,clearMask,setMask,-,looped⟩
    · exact ⟨sound,Keeps.refl _⟩
    · have small := irangel_stop_lt addr.toNat (pad length.toNat)
      exact sound_updateFlagsLoop sound meets (Nat.le_of_lt (wholeRange_valid ordered small whole)) small
        (fun r ends starts => ⟨starts,le_refl _,ends⟩) looped

end Calls

theorem WellOrdered.pairwise_apart (ordered : WellOrdered rm) : rm.Pairwise (fun a b => a.r.Apart b.r) :=
  ordered.sorted.imp_of_mem fun first second less => ordered.apart _ first _ second (Nat.ne_of_lt less)

/-- The mapped ranges of a process are pairwise disjoint, and each is one it started with or a
non-empty range of user space. -/
def Confined (low : Nat) (start : Vmaps) (state : Option Process) : Prop :=
  ∀ p ∈ state, p.vmaps.Pairwise (fun a b => a.r.Apart b.r) ∧ Keeps low start p.vmaps

/-- A call is made in a map where no node outside user space borders one inside, and meets the conditions. -/
def Careful (state : Option Process) (input : Surroundings × Call) : Prop :=
  ∀ p ∈ state, (∀ node ∈ p.vmaps, InBounds p.mmapMinAddr node.r → Far p.mmapMinAddr p.vmaps node.r) ∧
    CallMeets (confining p) p input.2

/-- In every run whose calls all meet the conditions, the mapped ranges stay disjoint and in user space. -/
theorem careful_runs_stay_in_user_space (p : Process) (ordered : WellOrdered p.vmaps)
    (inputs : List (Surroundings × Call)) (careful : Guarded callStep Careful (some p) inputs) :
    Throughout callStep (Confined p.mmapMinAddr p.vmaps) (some p) inputs := by
  have kept : ∀ state input, Careful state input → (∀ q ∈ state, q.mmapMinAddr = p.mmapMinAddr ∧
      WellOrdered q.vmaps ∧ Keeps p.mmapMinAddr p.vmaps q.vmaps) → ∀ q ∈ callStep state input,
      q.mmapMinAddr = p.mmapMinAddr ∧ WellOrdered q.vmaps ∧ Keeps p.mmapMinAddr p.vmaps q.vmaps := by
    intro state input careful holds q member
    obtain ⟨before,present,mapped⟩ := Option.bind_eq_some_iff.mp member
    obtain ⟨⟨answer,after⟩,returned,rfl⟩ := Option.map_eq_some_iff.mp mapped
    obtain ⟨same,ordered,keeps⟩ := holds before present
    obtain ⟨isolated,meets⟩ := careful before present
    obtain ⟨sound,more⟩ := sound_handle ⟨ordered,isolated⟩ meets returned
    rw [same] at more
    exact ⟨same,sound.toWellOrdered,keeps.trans more⟩
  have initial : ∀ q ∈ some p, q.mmapMinAddr = p.mmapMinAddr ∧ WellOrdered q.vmaps ∧
      Keeps p.mmapMinAddr p.vmaps q.vmaps := by
    intro q member
    obtain rfl := Option.mem_some.mp member
    exact ⟨rfl,ordered,Keeps.refl _⟩
  refine (throughout_of_guarded kept (some p) inputs careful initial).imp fun state holds q member => ?_
  obtain ⟨-,ordered,keeps⟩ := holds q member
  exact ⟨ordered.pairwise_apart,keeps⟩

/-- The second mapping replaces the middle page of the first. -/
theorem fixed_mapping_stays_in_user_space :
    Throughout callStep (Confined pageSize []) (some freshProcess)
      [(plainSurroundings,.mmap 0x10000 0x3000 3 0x32 .bad 0),
        (plainSurroundings,.mmap 0x11000 0x1000 3 0x32 .bad 0)] := by
  have fixed : isFixed 0x32 = true := by decide
  refine careful_runs_stay_in_user_space freshProcess ordered_empty _ ⟨fun p member => ?_,fun p member => ?_,trivial⟩
  · obtain rfl := Option.mem_some.mp member
    simp only [CallMeets,fixed,if_true]
    exact ⟨fun _ m => (List.not_mem_nil m).elim,fun _ m => (List.not_mem_nil m).elim,
      fun _ m => (List.not_mem_nil m).elim⟩
  · rw [callStep,Option.bind_some] at member
    obtain ⟨⟨answer,after⟩,done,rfl⟩ := Option.map_eq_some_iff.mp member
    obtain rfl := threePages_mapped done
    simp only [CallMeets,fixed,if_true,confining,Far,Free]
    decide

/-- An anonymous mapping with a hint above user space is put there. -/
theorem hint_maps_above_user_space :
    ¬ Throughout callStep (Confined pageSize []) (some freshProcess)
      [(plainSurroundings,.mmap 0xffff800000000000 0x1000 3 0x22 .bad 0)] := by
  intro all
  have reached : (callStep (some freshProcess) (plainSurroundings,.mmap 0xffff800000000000 0x1000 3 0x22 .bad 0)).map
      (fun q => q.vmaps.map Node.r) = some [⟨0xffff800000000000,0xffff800000001000⟩] := by decide +kernel
  obtain ⟨q,present,ranges⟩ := Option.map_eq_some_iff.mp reached
  obtain ⟨node,member,range⟩ := List.mem_map.mp (ranges ▸ List.mem_singleton.mpr rfl :
    (⟨0xffff800000000000,0xffff800000001000⟩ : Range) ∈ q.vmaps.map Node.r)
  rcases (all.2 q present).2 node member with ⟨old,none,-⟩ | user
  · exact List.not_mem_nil none
  · rw [range] at user
    exact absurd user.2.2 (by decide)

end AuthorityKernel.Memory
