import AuthorityKernel.Memory.Vmaps

/-! What the operations on mapped ranges do. A range that is mapped joins its neighbours or gets a
record of its own; in either case the map stays in order and shows the same as before outside
the range. -/
namespace AuthorityKernel.Memory

def Follows (rm : Vmaps) (point : Nat) : Option Vmap → Prop
  | none => ∀ other ∈ rm, other.start ≤ point
  | some next => next ∈ rm ∧ point < next.start ∧ ∀ other ∈ rm, point < other.start → next.start ≤ other.start

variable {rm : Vmaps}

theorem follows_above (ordered : WellOrdered rm) (point : Nat) :
    Follows rm point (Ordered.above Node.start point rm).head? := by
  cases found : (Ordered.above Node.start point rm).head? with
  | none => exact Ordered.above_head_none ordered.sorted found
  | some next => exact Ordered.above_head ordered.sorted found

variable {point x : Nat} {next : Option Vmap} {vm node a b : Vmap}

theorem follows_next (ordered : WellOrdered rm) (found : lookupMaxLte rm point = some vm) :
    Follows rm point (nextNode rm vm) := by
  obtain ⟨-,below,largest⟩ := Ordered.floor_some ordered.sorted found
  have after := follows_above ordered vm.start
  unfold nextNode
  cases next : (Ordered.above Node.start vm.start rm).head? with
  | none =>
    rw [next] at after
    exact fun other member => (after other member).trans below
  | some node =>
    rw [next] at after
    obtain ⟨member,high,least⟩ := after
    refine ⟨member,?_,fun other among passes => least other among (Nat.lt_of_le_of_lt below passes)⟩
    by_contra under
    exact absurd (largest node member (by omega)) (by omega)

theorem follows_first (ordered : WellOrdered rm) (missing : lookupMaxLte rm point = none) :
    Follows rm point rm.head? := by
  have high := Ordered.floor_none ordered.sorted missing
  cases first : rm with
  | nil => exact fun other member => absurd member List.not_mem_nil
  | cons node rest =>
    have sorted := ordered.sorted
    rw [first] at high sorted
    refine ⟨List.mem_cons_self,high node List.mem_cons_self,fun other member _ => ?_⟩
    rcases List.mem_cons.mp member with rfl | later
    · exact le_refl _
    · exact Nat.le_of_lt ((List.pairwise_cons.mp sorted).1 other later)

/-- The ways in which a range is mapped: the nodes that go, by their starts, and the one that comes. -/
inductive Merge (rm : Vmaps) (k : Vmap) : List Nat → Vmap → Prop
  | fresh (stale : Nat) : Merge rm k [] { k with value.fault := stale }
  | extended (vm : Vmap) (member : vm ∈ rm) (adjoins : vm.r.stop = k.r.start)
    (same : vmapCompareAttributes vm k = true) : Merge rm k [vm.start] { vm with r := ⟨vm.r.start,k.r.stop⟩ }
  | joined (vm next : Vmap) (member : vm ∈ rm) (adjoins : vm.r.stop = k.r.start)
    (same : vmapCompareAttributes vm k = true) (among : next ∈ rm) (borders : k.r.stop = next.r.start)
    (alike : vmapCompareAttributes next k = true) :
    Merge rm k [vm.start,next.start] { vm with r := ⟨vm.r.start,next.r.stop⟩ }
  | advanced (next : Vmap) (among : next ∈ rm) (borders : k.r.stop = next.r.start)
    (alike : vmapCompareAttributes next k = true) :
    Merge rm k [next.start] ⟨⟨k.r.start,next.r.stop⟩,(advancedBy next (next.start - k.start)).value⟩

structure Allocated (rm : Vmaps) (k : Vmap) (after : Vmaps) (start : Nat) (drops : List Nat) (new : Vmap) : Prop where
  clear : ∀ other ∈ rm, other.r.Apart k.r
  merge : Merge rm k drops new
  fits : ∀ other ∈ rm, other.start ∉ drops → other.start ≠ new.start ∧ other.r.Apart new.r
  shape : after = swap rm drops new
  key : start = new.start

theorem advancedBy_start (vm : Vmap) (shift : Nat) : (advancedBy vm shift).start = vm.start := by
  unfold advancedBy
  split
  · show vm.r.start = vm.r.start
    rfl
  · rfl

section Allocation

variable {memory : Records} {rm after : Vmaps} {k new : Vmap} {start : Nat} {drops : List Nat}

variable (ordered : WellOrdered rm)

include ordered

theorem allocated_insertVmap (proper : k.r.start < k.r.stop) (small : k.r.stop < addressSpace)
    (free : Free rm k.r) (done : insertVmap memory rm k = .done after start) :
    ∃ drops new, Allocated rm k after start drops new := by
  unfold insertVmap at done
  split at done
  · rename_i stale _
    obtain ⟨unmet,fresh,shape,key⟩ := insert_done done
    have clear := apart_of_unmet ordered proper small free unmet
    exact ⟨[],_,clear,.fresh stale,fun other member _ => ⟨fresh other member,clear other member⟩,shape,key⟩
  · cases done

theorem allocated_advanceVmap (proper : k.r.start < k.r.stop)
    (small : k.r.stop < addressSpace) (free : Free rm k.r)
    (below : ∀ other ∈ rm, other.start ≤ k.start → other.r.stop ≤ k.start) (follows : Follows rm k.start next)
    (done : advanceVmap memory rm next k = .done after start) :
    ∃ drops new, Allocated rm k after start drops new := by
  cases next with
  | none => exact allocated_insertVmap ordered proper small free done
  | some next =>
    obtain ⟨member,passes,least⟩ := follows
    simp only [advanceVmap] at done
    split at done
    · rename_i borders
      simp only [Bool.and_eq_true,beq_iff_eq] at borders
      have adjoin : k.r.stop = next.r.start := borders.1
      split at done
      · cases done
      obtain ⟨-,fresh,shape,key⟩ := reinsert_done done
      rw [advancedBy_start] at fresh shape
      have apart : ∀ other ∈ rm, other.r.stop ≤ k.start ∨ next.start ≤ other.start := by
        intro other among
        by_cases early : other.start ≤ k.start
        · exact Or.inl (below other among early)
        · exact Or.inr (least other among (by omega))
      refine ⟨[next.start],_,?_,.advanced next member adjoin borders.2,?_,shape,key⟩
      · exact fun other among => (apart other among).imp_right adjoin.le.trans
      · intro other among kept
        have different : other.start ≠ next.start := by simpa using kept
        refine ⟨fresh other among different,(apart other among).imp_right fun late => ?_⟩
        have ends : next.r.stop ≤ other.start :=
          ordered.stop_le among member (Nat.lt_of_le_of_ne late (Ne.symm different))
        exact ends
    · exact allocated_insertVmap ordered proper small free done

theorem allocated_extendVmap (found : lookupMaxLte rm k.start = some vm)
    (adjoin : vm.r.stop = k.r.start) (same : vmapCompareAttributes vm k = true) (follows : Follows rm k.start next)
    (done : extendVmap rm vm next k = .done after start) : ∃ drops new, Allocated rm k after start drops new := by
  obtain ⟨member,-,largest⟩ := Ordered.floor_some ordered.sorted found
  have valid := ordered.valid vm member
  -- what does not start past the range ends before the node that is extended, or is that node
  have early : ∀ other ∈ rm, other.start ≤ k.start → other.start ≠ vm.start → other.r.stop ≤ vm.start :=
    fun other among before different =>
      ordered.stop_le member among (Nat.lt_of_le_of_ne (largest other among before) different)
  have clearBelow : ∀ other ∈ rm, other.start ≤ k.start → other.r.stop ≤ k.start := by
    intro other among before
    by_cases different : other.start = vm.start
    · rw [Ordered.Sorted.unique ordered.sorted among member different]
      exact adjoin.le
    · exact ((early other among before different).trans valid).trans adjoin.le
  have narrow : ∀ {wider : Nat}, (∀ other ∈ rm, k.start < other.start → wider ≤ other.start) → ∀ other ∈ rm,
      other.start ≠ vm.start → other.r.Apart ⟨vm.r.start,wider⟩ := by
    intro wider late other among different
    by_cases before : other.start ≤ k.start
    · exact Or.inl (early other among before different)
    · exact Or.inr (late other among (by omega))
  cases next with
  | none =>
    obtain ⟨-,fresh,shape,key⟩ := reinsert_done done
    refine ⟨[vm.start],_,fun other among => Or.inl (clearBelow other among (follows other among)),
      .extended vm member adjoin same,fun other among kept => ?_,shape,key⟩
    have different : other.start ≠ vm.start := by simpa using kept
    exact ⟨fresh other among different,Or.inl (early other among (follows other among) different)⟩
  | some next =>
    obtain ⟨among,passes,least⟩ := follows
    simp only [extendVmap] at done
    split at done
    · cases done
    rename_i room
    have clear : ∀ other ∈ rm, other.r.Apart k.r := by
      intro other left
      by_cases before : other.start ≤ k.start
      · exact Or.inl (clearBelow other left before)
      · exact Or.inr ((Nat.le_of_not_lt room).trans (least other left (by omega)))
    split at done
    · rename_i borders
      simp only [Bool.and_eq_true,beq_iff_eq] at borders
      have touch : k.r.stop = next.r.start := borders.1.symm
      obtain ⟨-,fresh,shape,key⟩ := reinsert_done done
      refine ⟨[vm.start,next.start],_,clear,.joined vm next member adjoin same among touch borders.2,?_,?_,key⟩
      · intro other left kept
        simp only [List.mem_cons,List.not_mem_nil,or_false,not_or] at kept
        refine ⟨fresh other (mem_remove.mpr ⟨left,kept.2⟩) kept.1,?_⟩
        by_cases before : other.start ≤ k.start
        · exact Or.inl (early other left before kept.1)
        have late := least other left (by omega)
        have ends : next.r.stop ≤ other.start :=
          ordered.stop_le left among (Nat.lt_of_le_of_ne late (Ne.symm kept.2))
        exact Or.inr ends
      · rw [shape,swap,swap,rangemapRemoveNode,List.filter_filter]
        congr 2
        funext other
        simp [bne,beq_eq_decide]
    · obtain ⟨-,fresh,shape,key⟩ := reinsert_done done
      refine ⟨[vm.start],_,clear,.extended vm member adjoin same,fun other left kept => ?_,shape,key⟩
      have different : other.start ≠ vm.start := by simpa using kept
      exact ⟨fresh other left different,narrow (fun other left passed =>
        (Nat.le_of_not_lt room).trans (least other left passed)) other left different⟩

theorem allocated_of_done (proper : k.r.start < k.r.stop) (small : k.r.stop < addressSpace)
    (free : Free rm k.r) (done : allocateVmapLocked memory rm k = .done after start) :
    ∃ drops new, Allocated rm k after start drops new := by
  unfold allocateVmapLocked at done
  split at done
  · rename_i missing
    have high := Ordered.floor_none ordered.sorted missing
    exact allocated_advanceVmap ordered proper small free
      (fun other member before => absurd (high other member) (by omega)) (follows_first ordered missing) done
  rename_i vm found
  obtain ⟨member,-,largest⟩ := Ordered.floor_some ordered.sorted found
  split at done
  · cases done
  rename_i ends
  split at done
  · rename_i borders
    simp only [Bool.and_eq_true,beq_iff_eq] at borders
    exact allocated_extendVmap ordered found borders.1 borders.2 (follows_next ordered found) done
  refine allocated_advanceVmap ordered proper small free ?_ (follows_next ordered found) done
  intro other among before
  by_cases same : other.start = vm.start
  · rw [Ordered.Sorted.unique ordered.sorted among member same]
    omega
  have earlier := ordered.stop_le member among (Nat.lt_of_le_of_ne (largest other among before) same)
  have reaches := ordered.valid vm member
  have starts : vm.start = vm.r.start := rfl
  omega

theorem Merge.covers (merge : Merge rm k drops new)
    (proper : k.r.start < k.r.stop) (x : Nat) :
    new.r.Holds x ↔ k.r.Holds x ∨ ∃ node ∈ rm, node.start ∈ drops ∧ node.r.Holds x := by
  have unique : ∀ {node other : Vmap}, node ∈ rm → other ∈ rm → other.start = node.start → other = node :=
    fun member among same => Ordered.Sorted.unique ordered.sorted among member same
  cases merge with
  | fresh stale => simp
  | extended vm member adjoins same =>
    have valid := ordered.valid vm member
    simp only [List.mem_singleton,Range.Holds]
    constructor
    · rintro ⟨first,second⟩
      by_cases inside : k.r.start ≤ x
      · exact Or.inl ⟨inside,second⟩
      · exact Or.inr ⟨vm,member,rfl,first,by omega⟩
    · rintro (⟨first,second⟩ | ⟨node,among,start,first,second⟩)
      · exact ⟨by omega,second⟩
      · obtain rfl := unique member among start
        exact ⟨first,by omega⟩
  | joined vm next member adjoins same among borders alike =>
    have valid := ordered.valid vm member
    have validNext := ordered.valid next among
    simp only [List.mem_cons,List.not_mem_nil,or_false,Range.Holds]
    constructor
    · rintro ⟨first,second⟩
      by_cases before : x < k.r.start
      · exact Or.inr ⟨vm,member,Or.inl rfl,first,by omega⟩
      · by_cases after : k.r.stop ≤ x
        · exact Or.inr ⟨next,among,Or.inr rfl,by omega,second⟩
        · exact Or.inl ⟨by omega,by omega⟩
    · rintro (⟨first,second⟩ | ⟨node,left,start | start,first,second⟩)
      · exact ⟨by omega,by omega⟩
      · obtain rfl := unique member left start
        exact ⟨first,by omega⟩
      · obtain rfl := unique among left start
        exact ⟨by omega,second⟩
  | advanced next among borders alike =>
    have valid := ordered.valid next among
    simp only [List.mem_singleton,Range.Holds]
    constructor
    · rintro ⟨first,second⟩
      by_cases inside : x < k.r.stop
      · exact Or.inl ⟨first,inside⟩
      · exact Or.inr ⟨next,among,rfl,by omega,second⟩
    · rintro (⟨first,second⟩ | ⟨node,left,start,first,second⟩)
      · exact ⟨first,by omega⟩
      · obtain rfl := unique among left start
        exact ⟨by omega,second⟩

theorem Merge.dropped (merge : Merge rm k drops new)
    (proper : k.r.start < k.r.stop) (member : node ∈ rm) (gone : node.start ∈ drops) :
    node.r.Near k.r ∧ vmapCompareAttributes node k = true := by
  have valid := ordered.valid node member
  cases merge with
  | fresh stale => exact absurd gone List.not_mem_nil
  | extended _ among _ same | advanced _ among _ same =>
    obtain rfl := Ordered.Sorted.unique ordered.sorted member among (List.mem_singleton.mp gone)
    exact ⟨⟨by omega,by omega⟩,same⟩
  | joined vm next left adjoins same among borders alike =>
    simp only [List.mem_cons,List.not_mem_nil,or_false] at gone
    rcases gone with isVm | isNext
    · obtain rfl := Ordered.Sorted.unique ordered.sorted member left isVm
      exact ⟨⟨by omega,by omega⟩,same⟩
    · obtain rfl := Ordered.Sorted.unique ordered.sorted member among isNext
      exact ⟨⟨by omega,by omega⟩,alike⟩

theorem Merge.bounds (merge : Merge rm k drops new)
    (proper : k.r.start < k.r.stop) (small : k.r.stop < addressSpace) :
    new.r.start < new.r.stop ∧ new.r.stop < addressSpace := by
  cases merge with
  | fresh stale => exact ⟨proper,small⟩
  | extended vm member adjoins same =>
    have valid := ordered.valid vm member
    exact ⟨by dsimp only; omega,small⟩
  | joined vm next member adjoins same among borders alike =>
    have valid := ordered.valid vm member
    have validNext := ordered.valid next among
    exact ⟨by dsimp only; omega,ordered.small next among⟩
  | advanced next among borders alike =>
    have valid := ordered.valid next among
    exact ⟨by dsimp only; omega,ordered.small next among⟩

end Allocation

structure Page where
  flags : UInt32
  allowedFlags : UInt32
  cacheNode : Option Nat
  offset : Nat
deriving DecidableEq

def fileOffset (v : Vmap) (x : Nat) : Nat :=
  if v.value.cacheNode.isSome then (v.value.nodeOffset + (x - v.start)) % addressSpace else 0

def pageOf (v : Vmap) (x : Nat) : Page := ⟨v.value.flags,v.value.allowedFlags,v.value.cacheNode,fileOffset v x⟩

def Shows (rm : Vmaps) (x : Nat) (page : Page) : Prop := ∃ node ∈ rm, node.r.Holds x ∧ page = pageOf node x

def pageAt (rm : Vmaps) (x : Nat) : Option Page := (rm.find? (fun node => node.r.Holds x)).map (pageOf · x)

theorem WellOrdered.same_node (ordered : WellOrdered rm) (first : a ∈ rm) (second : b ∈ rm)
    (holds : a.r.Holds x) (also : b.r.Holds x) : a = b := by
  by_cases same : a.start = b.start
  · exact Ordered.Sorted.unique ordered.sorted first second same
  · exact absurd also ((ordered.apart a first b second same).not_holds holds)

theorem pageAt_eq_some (ordered : WellOrdered rm) (x : Nat) (page : Page) :
    pageAt rm x = some page ↔ Shows rm x page := by
  unfold pageAt
  constructor
  · intro found
    obtain ⟨node,lookup,rfl⟩ := Option.map_eq_some_iff.mp found
    exact ⟨node,List.mem_of_find?_eq_some lookup,by simpa using List.find?_some lookup,rfl⟩
  · rintro ⟨node,member,holds,rfl⟩
    cases lookup : rm.find? (fun node => node.r.Holds x) with
    | none =>
      have missing := List.find?_eq_none.mp lookup node member
      exact absurd holds (by simpa using missing)
    | some other =>
      have also : other.r.Holds x := by simpa using List.find?_some lookup
      obtain rfl := ordered.same_node (List.mem_of_find?_eq_some lookup) member also holds
      rfl

theorem pageAt_eq_none (x : Nat) : pageAt rm x = none ↔ ∀ node ∈ rm, ¬ node.r.Holds x := by
  simp [pageAt]

theorem fileOffset_eq (v : Vmap) (inside : v.start ≤ x) (small : v.start < addressSpace) :
    fileOffset v x = if v.value.cacheNode.isSome then (nodeVstart v + x) % addressSpace else 0 := by
  unfold fileOffset nodeVstart
  have sum : v.value.nodeOffset + addressSpace - v.start + x =
      v.value.nodeOffset + (x - v.start) + addressSpace := by omega
  rw [Nat.mod_add_mod,sum,Nat.add_mod_right]

theorem compare_iff (a b : Vmap) : vmapCompareAttributes a b = true ↔ a.value.flags = b.value.flags ∧
    a.value.allowedFlags = b.value.allowedFlags ∧ a.value.cacheNode = b.value.cacheNode ∧ a.value.fd = b.value.fd ∧
      (a.value.cacheNode = none ∨ nodeVstart a = nodeVstart b) := by
  simp only [vmapCompareAttributes,Bool.and_eq_true,Bool.or_eq_true,beq_iff_eq,Option.isNone_iff_eq_none]
  tauto

theorem pageOf_eq_of_compare (same : vmapCompareAttributes a b = true) (first : a.start ≤ x) (second : b.start ≤ x)
    (small : x < addressSpace) : pageOf a x = pageOf b x := by
  obtain ⟨flags,allowed,backing,-,base⟩ := (compare_iff a b).mp same
  have offsets : fileOffset a x = fileOffset b x := by
    rw [fileOffset_eq a first (by omega),fileOffset_eq b second (by omega),← backing]
    rcases base with none | equal
    · simp [none]
    · rw [equal]
  rw [pageOf,pageOf,flags,allowed,backing,offsets]

theorem compare_symm (same : vmapCompareAttributes a b = true) : vmapCompareAttributes b a = true := by
  obtain ⟨flags,allowed,backing,file,base⟩ := (compare_iff a b).mp same
  refine (compare_iff b a).mpr ⟨flags.symm,allowed.symm,backing.symm,file.symm,?_⟩
  rcases base with none | equal
  · exact Or.inl (backing ▸ none)
  · exact Or.inr equal.symm

theorem compare_trans {c : Vmap} (first : vmapCompareAttributes a b = true)
    (second : vmapCompareAttributes b c = true) : vmapCompareAttributes a c = true := by
  obtain ⟨flags,allowed,backing,file,base⟩ := (compare_iff a b).mp first
  obtain ⟨flags',allowed',backing',file',base'⟩ := (compare_iff b c).mp second
  refine (compare_iff a c).mpr
    ⟨flags.trans flags',allowed.trans allowed',backing.trans backing',file.trans file',?_⟩
  rcases base with none | equal
  · exact Or.inl none
  · rcases base' with none | equal'
    · exact Or.inl (backing.trans none)
    · exact Or.inr (equal.trans equal')

theorem nodeVstart_advanced (next : Vmap) (stop start : Nat) (before : start ≤ next.start)
    (small : next.start < addressSpace) (backed : next.value.cacheNode.isSome) :
    nodeVstart ⟨⟨start,stop⟩,(advancedBy next (next.start - start)).value⟩ = nodeVstart next := by
  have shifted : (advancedBy next (next.start - start)).value.nodeOffset =
      (next.value.nodeOffset + addressSpace - (next.start - start)) % addressSpace := by
    simp only [advancedBy,backed,if_true]
  have starts : Node.start (⟨⟨start,stop⟩,(advancedBy next (next.start - start)).value⟩ : Vmap) = start := rfl
  unfold nodeVstart
  rw [starts,shifted]
  have cut : (next.value.nodeOffset + addressSpace - (next.start - start)) % addressSpace + addressSpace - start =
      (next.value.nodeOffset + addressSpace - (next.start - start)) % addressSpace + (addressSpace - start) := by omega
  rw [cut,Nat.mod_add_mod]
  have sum : next.value.nodeOffset + addressSpace - (next.start - start) + (addressSpace - start) =
      next.value.nodeOffset + addressSpace - next.start + addressSpace := by omega
  rw [sum,Nat.add_mod_right]

theorem compare_advanced {next : Vmap} (stop : Nat) {start : Nat} (before : start ≤ next.start)
    (small : next.start < addressSpace) :
    vmapCompareAttributes ⟨⟨start,stop⟩,(advancedBy next (next.start - start)).value⟩ next = true := by
  cases backed : next.value.cacheNode.isSome with
  | false =>
    have none : next.value.cacheNode = none := by simpa using backed
    have same : (advancedBy next (next.start - start)).value = next.value := by
      simp only [advancedBy,backed,Bool.false_eq_true,if_false]
    refine (compare_iff _ _).mpr ?_
    rw [same]
    exact ⟨rfl,rfl,rfl,rfl,Or.inl none⟩
  | true =>
    refine (compare_iff _ _).mpr ⟨?_,?_,?_,?_,Or.inr (nodeVstart_advanced next stop start before small backed)⟩
    all_goals simp only [advancedBy,backed,if_true]

section Showing

variable {memory : Records} {rm after : Vmaps} {k : Vmap} {start : Nat} {drops : List Nat} {new : Vmap}

theorem Allocated.ordered (allocated : Allocated rm k after start drops new)
    (ordered : WellOrdered rm) (proper : k.r.start < k.r.stop) (small : k.r.stop < addressSpace) :
    WellOrdered after := by
  obtain ⟨wide,fit⟩ := allocated.merge.bounds ordered proper small
  rw [allocated.shape]
  exact ordered_swap ordered (Nat.le_of_lt wide) fit allocated.fits

variable (ordered : WellOrdered rm)

include ordered

theorem Merge.page (merge : Merge rm k drops new) (small : k.r.stop < addressSpace)
    (holds : k.r.Holds x) : pageOf new x = pageOf k x := by
  have below : x < addressSpace := holds.2.trans small
  have starts : k.r.start ≤ x := holds.1
  cases merge with
  | fresh stale => rfl
  | extended vm member adjoins same | joined vm _ member adjoins same =>
    have valid := ordered.valid vm member
    have first : vm.start ≤ x := by
      show vm.r.start ≤ x
      omega
    exact pageOf_eq_of_compare same first starts below
  | advanced next among borders alike =>
    have before : k.r.start ≤ next.start := by
      show k.r.start ≤ next.r.start
      have := holds.2
      omega
    have copied := compare_advanced next.r.stop before (by show next.r.start < _; omega)
    exact pageOf_eq_of_compare (compare_trans copied alike) holds.1 starts below

theorem Merge.old_page (merge : Merge rm k drops new) (proper : k.r.start < k.r.stop)
    (member : node ∈ rm) (dropped : node.start ∈ drops) (holds : node.r.Holds x) : pageOf new x = pageOf node x := by
  have below : x < addressSpace := holds.2.trans (ordered.small node member)
  have starts : node.start ≤ x := holds.1
  cases merge with
  | fresh stale => exact absurd dropped List.not_mem_nil
  | extended vm among adjoins same =>
    obtain rfl := Ordered.Sorted.unique ordered.sorted member among (List.mem_singleton.mp dropped)
    rfl
  | joined vm next left adjoins same among borders alike =>
    simp only [List.mem_cons,List.not_mem_nil,or_false] at dropped
    rcases dropped with isVm | isNext
    · obtain rfl := Ordered.Sorted.unique ordered.sorted member left isVm
      rfl
    obtain rfl := Ordered.Sorted.unique ordered.sorted member among isNext
    have valid := ordered.valid vm left
    have first : vm.start ≤ x := by
      show vm.r.start ≤ x
      have := holds.1
      omega
    exact pageOf_eq_of_compare (compare_trans same (compare_symm alike)) first starts below
  | advanced next among borders alike =>
    obtain rfl := Ordered.Sorted.unique ordered.sorted member among (List.mem_singleton.mp dropped)
    have before : k.r.start ≤ node.start := by
      show k.r.start ≤ node.r.start
      omega
    have copied := compare_advanced node.r.stop before (Nat.lt_of_le_of_lt starts below)
    have first : k.r.start ≤ x := before.trans starts
    exact pageOf_eq_of_compare copied first starts below

theorem Allocated.shows (allocated : Allocated rm k after start drops new)
    (proper : k.r.start < k.r.stop) (small : k.r.stop < addressSpace) (x : Nat) (page : Page) :
    Shows after x page ↔ (k.r.Holds x ∧ page = pageOf k x) ∨ Shows rm x page := by
  have covers := allocated.merge.covers ordered proper x
  constructor
  · rintro ⟨node,member,holds,rfl⟩
    rw [allocated.shape] at member
    rcases mem_swap.mp member with rfl | ⟨old,-⟩
    · rcases covers.mp holds with inside | ⟨other,among,dropped,also⟩
      · exact Or.inl ⟨inside,allocated.merge.page ordered small inside⟩
      · exact Or.inr ⟨other,among,also,allocated.merge.old_page ordered proper among dropped also⟩
    · exact Or.inr ⟨node,old,holds,rfl⟩
  · rw [allocated.shape]
    rintro (⟨inside,rfl⟩ | ⟨node,member,holds,rfl⟩)
    · exact ⟨new,mem_swap.mpr (Or.inl rfl),covers.mpr (Or.inl inside),
        (allocated.merge.page ordered small inside).symm⟩
    · by_cases dropped : node.start ∈ drops
      · exact ⟨new,mem_swap.mpr (Or.inl rfl),covers.mpr (Or.inr ⟨node,member,dropped,holds⟩),
          (allocated.merge.old_page ordered proper member dropped holds).symm⟩
      · exact ⟨node,mem_swap.mpr (Or.inr ⟨member,dropped⟩),holds,rfl⟩

theorem pageAt_of_mem (member : node ∈ rm) (holds : node.r.Holds x) :
    pageAt rm x = some (pageOf node x) :=
  (pageAt_eq_some ordered x _).mpr ⟨node,member,holds,rfl⟩

theorem Allocated.pageAt (allocated : Allocated rm k after start drops new)
    (proper : k.r.start < k.r.stop) (small : k.r.stop < addressSpace) (x : Nat) :
    pageAt after x = if k.r.Holds x then some (pageOf k x) else Memory.pageAt rm x := by
  have orderedAfter := allocated.ordered ordered proper small
  have shows := allocated.shows ordered proper small x
  refine Option.ext fun page => ?_
  rw [pageAt_eq_some orderedAfter,shows]
  split
  · rename_i holds
    have free : ¬ Shows rm x page := fun ⟨node,member,also,_⟩ => (allocated.clear node member).not_holds also holds
    simp only [holds,true_and,free,or_false,Option.some.injEq]
    exact eq_comm
  · rename_i misses
    simp only [misses,false_and,false_or]
    exact (pageAt_eq_some ordered x page).symm

theorem pageAt_remove (member : node ∈ rm) (x : Nat) :
    pageAt (rangemapRemoveNode rm node) x = if node.r.Holds x then none else pageAt rm x := by
  split
  · rename_i holds
    refine (pageAt_eq_none x).mpr fun other kept also => ?_
    obtain ⟨among,different⟩ := mem_remove.mp kept
    exact different (congrArg Node.start (ordered.same_node among member also holds))
  rename_i misses
  refine Option.ext fun page => ?_
  rw [pageAt_eq_some (ordered_remove ordered node),pageAt_eq_some ordered]
  constructor
  · rintro ⟨other,kept,holds,shown⟩
    exact ⟨other,(mem_remove.mp kept).1,holds,shown⟩
  · rintro ⟨other,among,holds,shown⟩
    refine ⟨other,mem_remove.mpr ⟨among,fun same => misses ?_⟩,holds,shown⟩
    rwa [← Ordered.Sorted.unique ordered.sorted among member same]

theorem pageAt_swap (member : node ∈ rm) (orderedAfter : WellOrdered
    (swap rm [node.start] new)) (x : Nat) : pageAt (swap rm [node.start] new) x =
      if new.r.Holds x then some (pageOf new x) else if node.r.Holds x then none else pageAt rm x := by
  split
  · rename_i holds
    exact pageAt_of_mem orderedAfter (mem_swap.mpr (Or.inl rfl)) holds
  rename_i misses
  rw [← pageAt_remove ordered member x]
  refine Option.ext fun page => ?_
  rw [pageAt_eq_some orderedAfter,pageAt_eq_some (ordered_remove ordered node)]
  constructor
  · rintro ⟨other,kept,holds,shown⟩
    rcases mem_swap.mp kept with rfl | ⟨among,different⟩
    · exact absurd holds misses
    · exact ⟨other,mem_remove.mpr ⟨among,by simpa using different⟩,holds,shown⟩
  · rintro ⟨other,kept,holds,shown⟩
    obtain ⟨among,different⟩ := mem_remove.mp kept
    exact ⟨other,mem_swap.mpr (Or.inr ⟨among,by simpa using different⟩),holds,shown⟩

end Showing

end AuthorityKernel.Memory
