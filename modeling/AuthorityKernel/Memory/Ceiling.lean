import AuthorityKernel.Library.Run
import AuthorityKernel.Memory.Orderly

/-! The rights a page can get. `mmap` computes which flags a mapping may have; every later change of
rights is checked against the flags in the record, which are copied through splits, joins and moves. -/
namespace AuthorityKernel.Memory

open Library.Run Library.Bits

/-- The protection bits of the flags are all in the ceiling. -/
def Under (flags ceiling : UInt32) : Prop := flags &&& vmapFlagProtMask &&& ~~~ceiling = 0

instance (flags ceiling : UInt32) : Decidable (Under flags ceiling) := inferInstanceAs (Decidable (_ = _))

variable {fd : Descriptor} {q : Range} {flags a top clearMask setMask prot : UInt32} {addr length : UInt64}

theorem under_iff {ceiling : UInt32} :
    Under flags ceiling ↔ ∀ i, bit flags i = true → bit vmapFlagProtMask i = true → bit ceiling i = true := by
  rw [Under,and_not_eq_zero]
  simp only [bit_and,Bool.and_eq_true,and_imp]

/-- For each address, the flags that were allowed when `mmap` mapped the page there. -/
abbrev Ceilings := Nat → Option UInt32

def mmapAllowed (p : Process) (prot flags : UInt32) (fd : Descriptor) (offset : Nat) : Option UInt32 :=
  match mmapFlags prot flags with
  | .error _ => none
  | .ok vmflags => match mmapBacking p flags vmflags fd offset with
    | .error _ => none
    | .ok backing => some backing.allowed

/-- The page at an address of a moved mapping was the page at the same distance from the old start,
and a page that was added goes with the first one. -/
def movedFrom (old : Range) (a x : Nat) : Nat :=
  if old.Holds (old.start + (x - a)) then old.start + (x - a) else old.start

/-- The ceilings after `mremap` returned an address: a mapping that moves or grows takes them along. -/
def movedCeilings (ceilings : Ceilings) (vm : Vmap) (oldAddress oldSize newSize : Nat) (flags : UInt32) (a : Nat) :
    Ceilings := fun x =>
  let size := newLength vm oldAddress oldSize newSize
  if (hasFlag flags mremapFixed = true ∨ pad oldSize < size) ∧ Range.Holds ⟨a,a + size⟩ x then
    ceilings (movedFrom (oldRange vm oldAddress oldSize newSize) a x)
  else ceilings x

def newCeilings (p : Process) (ceilings : Ceilings) : Call → Except Int Nat → Ceilings
  | .mmap _ length prot flags fd offset,.ok a => fun x =>
    if Range.Holds ⟨a,a + pad length.toNat⟩ x then mmapAllowed p prot flags fd offset.toNat else ceilings x
  | .mremap oldAddress oldSize newSize flags _,.ok a =>
    match rangemapLookup p.vmaps oldAddress.toNat with
    | none => ceilings
    | some vm => movedCeilings ceilings vm oldAddress.toNat oldSize.toNat newSize.toNat flags a
  | _,_ => ceilings

def ceilingStep (state : Option (Process × Ceilings)) (input : Surroundings × Call) : Option (Process × Ceilings) :=
  state.bind fun (p,ceilings) => (handle input.1 p input.2).map fun (answer,after) =>
    ({ p with vmaps := after },newCeilings p ceilings input.2 answer)

/-- No mapped range gives a page more rights than its ceiling, and in a process with protected
execution no anonymous page is executable. -/
def Ceilinged (state : Option (Process × Ceilings)) : Prop :=
  ∀ p ceilings, state = some (p,ceilings) → ∀ node ∈ p.vmaps, ∀ x, node.r.Holds x →
    ∀ top, ceilings x = some top → Under node.value.flags top ∧
      (p.execProtected = true → hasFlag node.value.flags vmapMmapTypeAnonymous = true →
        hasFlag node.value.flags vmapFlagExec = false)

structure Rightful (anonymous flags allowed top : UInt32) : Prop where
  under : Under flags top
  allowed : Under allowed top
  exact : hasFlag flags vmapMmapTypeAnonymous = true → top = anonymous

structure Kept (p : Process) (ceilings : Ceilings) : Prop where
  ordered : WellOrdered p.vmaps
  rightful : ∀ x page top, pageAt p.vmaps x = some page → ceilings x = some top →
    Rightful (anonPerms p) page.flags page.allowedFlags top

section Bits

theorem under_or {b : UInt32} (first : Under a top) (second : Under b top) : Under (a ||| b) top := by
  rw [under_iff] at *
  intro i isSet masked
  rw [bit_or,Bool.or_eq_true] at isSet
  rcases isSet with left | right
  · exact first i left masked
  · exact second i right masked

theorem under_self (top : UInt32) : Under top top := under_iff.mpr fun _ isSet _ => isSet

theorem under_of_apart (top : UInt32) (apart : a &&& vmapFlagProtMask = 0) : Under a top := by
  rw [Under,apart]
  simp

theorem under_recoloured (first : Under flags top) (second : Under setMask top) :
    Under ((flags &&& ~~~clearMask) ||| setMask) top := by
  refine under_or ?_ second
  rw [under_iff] at *
  intro i isSet masked
  rw [bit_and,Bool.and_eq_true] at isSet
  exact first i isSet.1 masked

theorem under_of_allowed {allowed : UInt32} (fine : hasFlag (protFlags prot) (~~~allowed) = false)
    (under : Under allowed top) : Under (protFlags prot) top := by
  have inside : protFlags prot &&& ~~~allowed = 0 := by simpa [hasFlag] using fine
  rw [under_iff] at *
  intro i isSet masked
  exact under i (and_not_eq_zero.mp inside i isSet) masked

theorem not_exec_of_under (under : Under flags (vmapFlagReadable ||| vmapFlagWritable)) :
    hasFlag flags vmapFlagExec = false := by
  have none : flags &&& vmapFlagExec = 0 := by
    refine and_eq_zero.mpr fun i isSet => Bool.eq_false_iff.mpr fun exec => ?_
    have masked : bit vmapFlagProtMask i = true := and_not_eq_zero.mp (by decide) i exec
    have allowed := under_iff.mp under i isSet masked
    have apart := and_eq_zero.mp (by decide : (vmapFlagReadable ||| vmapFlagWritable) &&& vmapFlagExec = 0) i allowed
    rw [exec] at apart
    cases apart
  simp [hasFlag,none]

end Bits

theorem record_rightful {p : Process} {vmflags : UInt32} {offset : Nat} {backing : Backing}
    (flagged : mmapFlags prot flags = .ok vmflags) (backed : mmapBacking p flags vmflags fd offset = .ok backing)
    (fine : hasFlag (vmflags &&& vmapFlagProtMask) (~~~backing.allowed) = false) :
    Rightful (anonPerms p) (backing.record offset).flags (backing.record offset).allowedFlags backing.allowed := by
  have asked : Under vmflags backing.allowed := by
    rw [Under]
    simpa [hasFlag] using fine
  have untyped := mmapFlags_untyped flagged
  have plain : vmflags &&& vmapMmapTypeAnonymous = 0 := by
    rw [and_eq_zero] at untyped ⊢
    intro i isSet
    have none := untyped i isSet
    simp only [bit_or,Bool.or_eq_false_iff] at none
    exact none.1.1
  have typed : ∀ kind, kind &&& vmapFlagProtMask = 0 → kind &&& vmapMmapTypeAnonymous = 0 → backing.kind = kind →
      backing.flags = vmflags →
      Rightful (anonPerms p) (backing.record offset).flags (backing.record offset).allowedFlags backing.allowed := by
    intro kind apart other isKind same
    have whole : Under (backing.flags ||| backing.kind) backing.allowed := by
      rw [isKind,same]
      exact under_or asked (under_of_apart _ apart)
    refine ⟨whole,under_or whole (under_self _),fun anonymous => ?_⟩
    have none : (vmflags ||| kind) &&& vmapMmapTypeAnonymous = 0 := or_and_eq_zero plain other
    simp only [Backing.record,isKind,same,hasFlag,none] at anonymous
    exact absurd anonymous (by decide)
  rcases mmapBacking_ok backed with ⟨kind,same,-,perms⟩ | ⟨kind,same,-⟩ | ⟨kind,same,-⟩
  · have whole : Under (backing.flags ||| backing.kind) backing.allowed := by
      rw [kind,same]
      exact under_or (under_or asked (under_of_apart _ (by decide))) (under_of_apart _ (by decide))
    exact ⟨whole,under_or whole (under_self _),fun _ => perms⟩
  · exact typed _ (by decide) (by decide) kind same
  · exact typed _ (by decide) (by decide) kind same

section Calls

variable {env : Surroundings} {p : Process} {ceilings : Ceilings} {answer : Except Int Nat} {after : Vmaps}

theorem covered_of_no_gaps (small : q.stop < addressSpace) (nodes : List Vmap)
    (starts : ∀ node ∈ nodes, node.start < addressSpace) (lastedge : Nat) (none : gapsFrom q lastedge nodes = false)
    {x : Nat} (above : lastedge ≤ x) (inside : q.Holds x) : ∃ node ∈ nodes, node.r.Holds x := by
  have low : q.start ≤ x := inside.1
  have high : x < q.stop := inside.2
  induction nodes generalizing lastedge with
  | nil =>
    have gap : rangesIntersect ⟨lastedge,q.stop⟩ q = false := none
    have met := (rangesIntersect_iff ⟨lastedge,q.stop⟩ q small).mpr (by dsimp only; omega)
    rw [gap] at met
    cases met
  | cons node rest ih =>
    simp only [gapsFrom,Bool.or_eq_false_iff] at none
    by_cases before : x < node.start
    · have gap : rangesIntersect ⟨lastedge,node.start⟩ q = false := none.1
      have met := (rangesIntersect_iff ⟨lastedge,node.start⟩ q (starts node List.mem_cons_self)).mpr
        (by dsimp only; omega)
      rw [gap] at met
      cases met
    · by_cases here : x < node.r.stop
      · exact ⟨node,List.mem_cons_self,Nat.le_of_not_lt before,here⟩
      · obtain ⟨other,among,holds⟩ := ih (fun other among => starts other (List.mem_cons_of_mem _ among)) node.r.stop
          none.2 (Nat.le_of_not_lt here)
        exact ⟨other,List.mem_cons_of_mem _ among,holds⟩

theorem kept_recoloured (kept : Kept p ceilings) (ordered : WellOrdered after)
    (shown : ∀ x, pageAt after x = recolouredIn p.vmaps clearMask setMask q.Holds x)
    (cleared : clearMask &&& vmapMmapTypeAnonymous = 0) (added : setMask &&& vmapMmapTypeAnonymous = 0)
    (fine : ∀ x page top, q.Holds x → pageAt p.vmaps x = some page → ceilings x = some top → Under setMask top) :
    Kept { p with vmaps := after } ceilings := by
  refine ⟨ordered,fun x page top here ceiling => ?_⟩
  rw [shown x,recolouredIn] at here
  split at here
  · rename_i holds
    obtain ⟨before,present,rfl⟩ := Option.map_eq_some_iff.mp here
    obtain ⟨under,allowed,exact'⟩ := kept.rightful x before top present ceiling
    refine ⟨under_recoloured under (fine x before top holds present ceiling),allowed,fun anonymous => exact' ?_⟩
    simpa only [hasFlag,Page.recoloured,masked_apart cleared added] using anonymous
  · exact kept.rightful x page top here ceiling

theorem kept_mprotect {len : UInt64} (kept : Kept p ceilings)
    (done : mprotect env p addr.toNat len.toNat prot = some (answer,after)) :
    Kept { p with vmaps := after } ceilings := by
  have word : addr.toNat < addressSpace := addr.toNat_lt
  rcases mprotect_done word done with rfl | ⟨-,below,whole,fine,looped⟩
  · exact kept
  have small : addr.toNat + pad len.toNat < addressSpace := below.trans (by decide)
  obtain ⟨ordered,-,shown⟩ := @updateFlagsLoop_became env.memory (fun _ => ⟨addr.toNat,addr.toNat + pad len.toNat⟩) _ _
    ⟨addr.toNat,addr.toNat + pad len.toNat⟩ p.vmaps _ _ kept.ordered (Nat.le_add_right _ _) small
    (fun r _ starts => ⟨le_refl _,starts,rfl⟩) looped
  have untyped : protFlags prot &&& vmapMmapTypeAnonymous = 0 := by
    rw [and_eq_zero]
    intro i isSet
    exact and_eq_zero.mp (by decide) i (and_not_eq_zero.mp (protFlags_within prot) i isSet)
  refine kept_recoloured kept ordered shown (by decide) untyped fun x page top holds present ceiling => ?_
  have none : gapsFrom ⟨addr.toNat,addr.toNat + pad len.toNat⟩ addr.toNat
      (foreachOfRange p.vmaps ⟨addr.toNat,addr.toNat + pad len.toNat⟩) = false := by
    simp only [wholeRange,Bool.and_eq_true,Bool.not_eq_true',rangemapRangeFindGaps] at whole
    exact whole.1
  obtain ⟨node,visited,here⟩ := @covered_of_no_gaps ⟨addr.toNat,addr.toNat + pad len.toNat⟩ small _
    (fun node visited => by
      have member := (mem_foreachOfRange kept.ordered visited).1
      exact Nat.lt_of_le_of_lt (kept.ordered.valid node member) (kept.ordered.small node member))
    _ none x holds.1 holds
  have member := (mem_foreachOfRange kept.ordered visited).1
  have same := pageAt_of_mem kept.ordered member here
  have allowed := (kept.rightful x _ top same ceiling).allowed
  exact under_of_allowed (fine node visited) allowed

theorem kept_madvise {advice : UInt32} (kept : Kept p ceilings)
    (done : madvise env p addr.toNat length.toNat advice = some (answer,after)) :
    Kept { p with vmaps := after } ceilings := by
  rcases madvise_done done with rfl | ⟨-,whole,clearMask,setMask,masks,looped⟩
  · exact kept
  have small := irangel_stop_lt addr.toNat (pad length.toNat)
  obtain ⟨ordered,-,shown⟩ := updateFlagsLoop_became kept.ordered
    (Nat.le_of_lt (wholeRange_valid kept.ordered small whole)) small (fun r ends starts => ⟨starts,le_refl _,ends⟩) looped
  simp only [List.mem_cons,Prod.mk.injEq,List.not_mem_nil,or_false] at masks
  rcases masks with ⟨-,rfl,rfl⟩ | ⟨-,rfl,rfl⟩
  · exact kept_recoloured kept ordered shown (by decide) (by decide) fun _ _ _ _ _ _ => under_of_apart _ (by decide)
  · exact kept_recoloured kept ordered shown (by decide) (by decide) fun _ _ _ _ _ _ => under_of_apart _ (by decide)

theorem kept_removed {unmap : Bool} {q : Range} (kept : Kept p ceilings) (small : q.stop < addressSpace)
    (done : processRemoveRangeLocked env.memory unmap q p.vmaps = some after) :
    Kept { p with vmaps := after } ceilings := by
  have became := removeRange_became kept.ordered small done
  refine ⟨became.ordered,fun x page top shown ceiling => kept.rightful x page top ?_ ceiling⟩
  rw [became.shown x] at shown
  split at shown
  · cases shown
  · exact shown

theorem kept_mmap {offset : UInt64} (kept : Kept p ceilings)
    (meets : CallMeets (orderly p) p (.mmap addr length prot flags fd offset))
    (done : mmap env p addr.toNat length.toNat prot flags fd offset.toNat = some (answer,after)) :
    Kept { p with vmaps := after } (newCeilings p ceilings (.mmap addr length prot flags fd offset) answer) := by
  rcases mmap_done done with ⟨⟨error,rfl⟩,rfl⟩ | ⟨vmflags,place,q,backing,k,mapped,inserted,rfl⟩
  · exact kept
  have some : 0 < pad length.toNat := Nat.pos_of_ne_zero mapped.len
  have ranged := mmapped_meets meets mapped
  have fits := mmapRange_fits kept.ordered some ranged
  have shape := mmapRange_shape fits.proper ranged
  obtain ⟨fault,rfl⟩ := mmapCustom_ok mapped.record
  obtain ⟨ordered,pages⟩ := mmapInsert_pages kept.ordered fits inserted
  have rightful := record_rightful mapped.flagged mapped.backed mapped.allowed
  have computed : mmapAllowed p prot flags fd offset.toNat = Option.some backing.allowed := by
    simp only [mmapAllowed,mapped.flagged,mapped.backed]
  -- inside the range the ceiling is the one just computed, outside it is the old one
  have ceiling : ∀ x top, newCeilings p ceilings (.mmap addr length prot flags fd offset) (.ok q.start) x =
      Option.some top → if q.Holds x then top = backing.allowed else ceilings x = Option.some top := by
    intro x top same
    simp only [newCeilings,← shape,computed] at same
    split at same
    · rename_i holds
      rw [if_pos holds]
      exact (Option.some.inj same).symm
    · rename_i misses
      rw [if_neg misses]
      exact same
  refine ⟨ordered,fun x page top here same => ?_⟩
  have known := ceiling x top same
  rcases pages x page here with ⟨holds,rfl⟩ | ⟨misses,old⟩
  · rw [if_pos holds] at known
    rw [known]
    exact rightful
  · rw [if_neg misses] at known
    exact kept.rightful x page top old known

theorem movedFrom_within {old : Range} {vm : Vmap} (within : old.Within vm.r) (first : vm.r.Holds old.start)
    (a x : Nat) : vm.r.Holds (movedFrom old a x) := by
  unfold movedFrom
  split
  · rename_i holds
    exact within.holds holds
  · exact first

theorem kept_mremap {oldAddress oldSize newSize newAddress : UInt64} (kept : Kept p ceilings)
    (meets : CallMeets (orderly p) p (.mremap oldAddress oldSize newSize flags newAddress))
    (done : mremap env p oldAddress.toNat oldSize.toNat newSize.toNat flags newAddress.toNat = some (answer,after)) :
    Kept { p with vmaps := after }
      (newCeilings p ceilings (.mremap oldAddress oldSize newSize flags newAddress) answer) := by
  have ordered := kept.ordered
  rcases mremap_done done with ⟨⟨error,rfl⟩,rfl⟩ | ⟨source,found,rest⟩
  · exact kept
  obtain ⟨member,holds,within,old,size,start⟩ := remapSource_ok ordered oldAddress.toNat_lt found
  have looked := remapSource_lookup found
  have small : source.old.stop < addressSpace :=
    Nat.lt_of_le_of_lt within.2 (ordered.small source.vmap member)
  have stays : ∀ a, ¬ (hasFlag flags mremapFixed = true ∨ pad oldSize.toNat < source.size) →
      newCeilings p ceilings (.mremap oldAddress oldSize newSize flags newAddress) (.ok a) = ceilings := by
    intro a still
    funext x
    simp only [newCeilings,looked,movedCeilings,← size]
    rw [if_neg fun both => still both.1]
  rcases rest with ⟨rfl,asked,same,rfl⟩ | ⟨rfl,asked,smaller,cut⟩ | ⟨new,fixed,moves,target,moved⟩
  · rw [stays _ (by simp [asked,same])]
    exact kept
  · rw [stays _ (by simp [asked]; omega)]
    exact @kept_removed env p ceilings after true
      ⟨(source.old.start + source.size) % addressSpace,source.old.stop⟩ kept small cut
  have moving : hasFlag flags mremapFixed = true ∨ pad oldSize.toNat < source.size := by
    cases target with
    | fixed asked aligned away shape => exact Or.inl asked
    | grown _ larger | relocated _ larger => exact Or.inr larger
  have whole : source.size % pageSize = 0 := size ▸ remapSource_whole source.vmap
  have fits := remapRange_fits ordered whole (target_meets ordered meets found target).2
  have shape : new = ⟨new.start,new.start + source.size⟩ := by
    have proper := fits.proper
    have short : source.size < addressSpace := by
      rw [size,newLength]
      split
      · exact pad_lt _
      · exact pad_lt _
    cases target with
    | fixed _ _ _ shape | grown _ _ _ shape => rw [shape] at proper ⊢; exact irangel_of_proper short proper
    | relocated asked larger collides vnew chosen known shape =>
      rw [shape] at proper ⊢
      exact irangel_of_proper short proper
  obtain ⟨orderedAfter,pages⟩ := remapTo_pages ordered small fits moved
  have first : source.vmap.r.Holds source.old.start := by rw [start]; exact holds
  -- a page of the new range has the ceiling of a page of the node it comes from
  have ceiling : ∀ x top, answer = .ok new.start → new.Holds x →
      newCeilings p ceilings (.mremap oldAddress oldSize newSize flags newAddress) answer x = some top →
      ceilings (movedFrom source.old new.start x) = some top := by
    intro x top yes inside same
    rw [yes] at same
    simp only [newCeilings,looked,movedCeilings,← size,← old] at same
    rwa [if_pos ⟨moving,shape ▸ inside⟩] at same
  have others : ∀ x top, (answer = .ok new.start → ¬ new.Holds x) →
      newCeilings p ceilings (.mremap oldAddress oldSize newSize flags newAddress) answer x = some top →
      ceilings x = some top := by
    intro x top outside same
    rcases (remapTo_done moved) with ⟨_,_,-,-,⟨_,-,yes⟩ | ⟨-,-,no⟩⟩
    · rw [yes] at same
      simp only [newCeilings,looked,movedCeilings,← size,← old] at same
      rwa [if_neg fun both => outside yes (shape ▸ both.2)] at same
    · rw [no] at same
      exact same
  refine ⟨orderedAfter,fun x page top here same => ?_⟩
  rcases pages x page here with ⟨inside,yes,rfl⟩ | ⟨outside,old⟩
  · have origin := pageAt_of_mem ordered member (movedFrom_within within first new.start x)
    have rightful : Rightful (anonPerms p) source.vmap.value.flags source.vmap.value.allowedFlags top :=
      kept.rightful _ _ top origin (ceiling x top yes inside same)
    exact rightful
  · exact kept.rightful x page top old (others x top outside same)

theorem kept_handle {call : Call} (kept : Kept p ceilings) (meets : CallMeets (orderly p) p call)
    (done : handle env p call = some (answer,after)) :
    Kept { p with vmaps := after } (newCeilings p ceilings call answer) := by
  cases call with
  | mmap addr length prot flags fd offset =>
    rw [handle] at done
    exact kept_mmap kept meets done
  | mremap oldAddress oldSize newSize flags newAddress => exact kept_mremap kept meets done
  | mprotect addr len prot => exact kept_mprotect kept done
  | munmap addr length =>
    rcases munmap_done done with ⟨-,rfl⟩ | ⟨-,-,removed⟩
    · exact kept
    · exact kept_removed kept (irangel_stop_lt _ _) removed
  | madvise addr length advice => exact kept_madvise kept done

end Calls

/-- What a call maps keeps the map in order. -/
def OrderlyCall (state : Option (Process × Ceilings)) (input : Surroundings × Call) : Prop :=
  ∀ p ceilings, state = some (p,ceilings) → CallMeets (orderly p) p input.2

def guardedProcess : Process :=
  ⟨[⟨⟨0x20000,0x20000⟩,⟨vmapFlagReadable ||| vmapFlagWritable,accessPermAll,0,none,0,0⟩⟩],pageSize,true,false⟩

def programFile : OpenFile := ⟨1,7,true,false,true,false,false⟩

end AuthorityKernel.Memory
