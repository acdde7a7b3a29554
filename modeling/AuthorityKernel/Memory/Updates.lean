import AuthorityKernel.Memory.Cuts

/-! The loop of `mprotect` and `madvise`: each turn looks up the node at the start of what is left
of the range, changes its flags and goes on where the record of that node ends. The record of a
node that was cut ends where the range starts, and the next turn finds the changed part. -/
namespace AuthorityKernel.Memory

section Records

variable {memory : Records} {rm after : Vmaps} {q : Range} {node : Vmap} {start stop : Nat}

def Reaches (rm : Vmaps) (start stop : Nat) : Prop := ∃ node ∈ rm, node.start = start ∧ stop ≤ node.r.stop

theorem reaches_allocate {k : Vmap} {key : Nat} (ordered : WellOrdered rm) (proper : k.r.start < k.r.stop)
    (small : k.r.stop < addressSpace) (free : Free rm k.r) (before : start < k.r.start) (reached : Reaches rm start stop)
    (done : allocateVmapLocked memory rm k = .done after key) : Reaches after start stop := by
  obtain ⟨node,member,starts,ends⟩ := reached
  obtain ⟨drops,new,allocated⟩ := allocated_of_done ordered proper small free done
  rw [allocated.shape]
  by_cases gone : node.start ∈ drops
  · refine ⟨new,mem_swap.mpr (Or.inl rfl),?_⟩
    have same : ∀ {other : Vmap}, other ∈ rm → node.start = other.start → node = other :=
      fun among equal => Ordered.Sorted.unique ordered.sorted member among equal
    -- the node that is advanced starts past the range
    cases allocated.merge with
    | fresh stale => exact absurd gone List.not_mem_nil
    | extended vm among adjoins alike =>
      obtain rfl := same among (List.mem_singleton.mp gone)
      exact ⟨starts,by dsimp only; omega⟩
    | joined vm next left adjoins alike among borders equal =>
      have valid := ordered.valid next among
      simp only [List.mem_cons,List.not_mem_nil,or_false] at gone
      rcases gone with isVm | isNext
      · obtain rfl := same left isVm
        exact ⟨starts,by dsimp only; omega⟩
      · have late : next.start = next.r.start := rfl
        omega
    | advanced next among borders equal =>
      have late : next.start = next.r.start := rfl
      have isNext : node.start = next.start := List.mem_singleton.mp gone
      omega
  · exact ⟨node,mem_swap.mpr (Or.inr ⟨member,gone⟩),starts,ends⟩

theorem record_of_find (ordered : WellOrdered after) (reached : Reaches after start q.start)
    (record : (after.find? (fun other => other.start == start)).map (fun other => other.r.stop) = some stop) :
    ∃ other ∈ after, other.start = start ∧ other.r.stop = stop ∧ q.start ≤ stop := by
  obtain ⟨other,found,rfl⟩ := Option.map_eq_some_iff.mp record
  have starts : other.start = start := by simpa using List.find?_some found
  obtain ⟨node,member,same,ends⟩ := reached
  obtain rfl := Ordered.Sorted.unique ordered.sorted member (List.mem_of_find?_eq_some found) (same.trans starts.symm)
  exact ⟨node,member,starts,rfl,ends⟩

variable {clearMask setMask : UInt32}

theorem Rebuilt.reaches {front : Vmap} {pieces : List Vmap} (rebuilt : Rebuilt memory rm node (some front) pieces after)
    (ordered : WellOrdered rm) (member : node ∈ rm) (late : ∀ piece ∈ pieces, front.start < piece.r.start) :
    Reaches after front.start front.r.stop := by
  generalize isKept : some front = kept at rebuilt
  induction rebuilt with
  | removed => cases isKept
  | moved part done =>
    cases isKept
    rw [(reinsert_done done).2.2.1]
    exact ⟨front,mem_swap.mpr (Or.inl rfl),rfl,le_refl _⟩
  | mapped part rebuilt done ih =>
    obtain ⟨first,rest⟩ := List.forall_mem_cons.mp late
    have became := rebuilt.became ordered member
    exact reaches_allocate became.ordered part.proper (Nat.lt_of_le_of_lt part.within.2 (ordered.small node member))
      (became.free (free_within ordered member part.within)) first (ih rest isKept) done

theorem Recolouring.record (ordered : WellOrdered rm) (member : node ∈ rm)
    (recolouring : Recolouring memory q clearMask setMask rm node after stop) :
    stop = node.r.stop ∨ ∃ other ∈ after, other.start = node.r.start ∧ other.r.stop = stop ∧ q.start ≤ stop := by
  have orderedAfter := (recolouring.became ordered member).ordered
  cases recolouring with
  | same already shape ends => exact Or.inl ends
  | parts other rebuilt each covers record =>
    rcases record with ends | ⟨⟨front,rfl,shape⟩,late,record⟩
    · exact Or.inl ends
    have starts : front.start = node.r.start := by rw [Node.start,shape]
    have reached := rebuilt.reaches ordered member (starts ▸ late)
    rw [starts,shape] at reached
    exact Or.inr (record_of_find orderedAfter reached record)

theorem Recolouring.settled (ordered : WellOrdered rm) (member : node ∈ rm)
    (meet : max q.start node.r.start < min q.stop node.r.stop)
    (recolouring : Recolouring memory q clearMask setMask rm node after stop) {x : Nat} (holds : q.Holds x)
    (low : node.r.start ≤ x) (high : x < stop) :
    (pageAt after x).map (Page.recoloured clearMask setMask) = pageAt after x := by
  have became := recolouring.became ordered member
  have changed : ∀ y, q.Holds y → node.r.Holds y →
      pageAt after y = some ((pageOf node y).recoloured clearMask setMask) := by
    intro y inside here
    rw [became.shown y,recolouredIn,if_pos ⟨inside,here⟩,pageAt_of_mem ordered member here]
    rfl
  by_cases here : x < node.r.stop
  · rw [changed x holds ⟨low,here⟩,Option.map_some,recoloured_again]
  rcases recolouring.record ordered member with ends | ⟨other,among,starts,ends,reaches⟩
  · omega
  -- the record covers the start of the range, where the flags are changed
  have starts : other.r.start = node.r.start := starts
  obtain ⟨first,second⟩ := holds
  have edge : other.r.Holds (max q.start node.r.start) := ⟨by omega,by omega⟩
  have far : other.r.Holds x := ⟨by omega,by omega⟩
  have shown := changed (max q.start node.r.start) ⟨by omega,by omega⟩ ⟨by omega,by omega⟩
  rw [pageAt_of_mem became.ordered among edge] at shown
  have flags : other.value.flags = (node.value.flags &&& ~~~clearMask) ||| setMask :=
    congrArg Page.flags (Option.some.inj shown)
  rw [pageAt_of_mem became.ordered among far,Option.map_some]
  have again := recoloured_again (pageOf node x) clearMask setMask
  have word : (((node.value.flags &&& ~~~clearMask) ||| setMask) &&& ~~~clearMask) ||| setMask =
      (node.value.flags &&& ~~~clearMask) ||| setMask := congrArg Page.flags again
  have fixed : (pageOf other x).recoloured clearMask setMask = pageOf other x := by
    simp only [Page.recoloured,pageOf,flags,word]
  rw [fixed]

end Records

theorem lookup_holds {rm : Vmaps} (ordered : WellOrdered rm) {point : Nat} (small : point + 1 < addressSpace) {vm : Vmap}
    (found : rangemapLookup rm point = some vm) : vm ∈ rm ∧ vm.r.Holds point := by
  have wraps : (point + 1) % addressSpace = point + 1 := Nat.mod_eq_of_lt small
  rw [rangemapLookup,wraps] at found
  obtain ⟨member,met⟩ := mem_foreachOfRange ordered (List.mem_of_head? found)
  have meet := (rangesIntersect_iff ⟨point,point + 1⟩ vm.r small).mp met
  dsimp only at meet
  exact ⟨member,by omega,by omega⟩

section Loop

variable {memory : Records} {cut : Range → Range} {clearMask setMask : UInt32}

/-- What a turn works on ends with the range and starts no later than what is left of it. -/
def Narrows (cut : Range → Range) (q : Range) : Prop :=
  ∀ r : Range, r.stop = q.stop → q.start ≤ r.start →
    q.start ≤ (cut r).start ∧ (cut r).start ≤ r.start ∧ (cut r).stop = q.stop

variable {q : Range} {rm after : Vmaps}

theorem updateFlagsLoop_rule {P : Range → Vmaps → Prop} (small : q.stop < addressSpace) (narrows : Narrows cut q)
    (step : ∀ r rm vm after stop, WellOrdered rm → r.stop = q.stop → q.start ≤ r.start → P r rm → vm ∈ rm →
      vm.r.Holds r.start → max (cut r).start vm.r.start < min (cut r).stop vm.r.stop →
      Recolouring memory (cut r) clearMask setMask rm vm after stop → P ⟨min r.stop stop,r.stop⟩ after) :
    ∀ turns (r : Range) rm after, WellOrdered rm → r.stop = q.stop → q.start ≤ r.start → r.start ≤ r.stop → P r rm →
      updateFlagsLoop memory cut clearMask setMask turns r rm = some after →
      WellOrdered after ∧ ∃ rest : Range, rest.start = q.stop ∧ P rest after
  | 0,_,_,_,_,_,_,_,_,done => by cases done
  | turns + 1,r,rm,after,ordered,ends,starts,valid,holds,done => by
    obtain ⟨begins,before,stops⟩ := narrows r ends starts
    rw [updateFlagsLoop] at done
    split at done
    · rename_i empty
      cases done
      refine ⟨ordered,r,?_,holds⟩
      simp only [rangeEmpty,rangeSpan_of_le r valid (ends ▸ small),beq_iff_eq] at empty
      omega
    rename_i left
    simp only [rangeEmpty,rangeSpan_of_le r valid (ends ▸ small),beq_iff_eq] at left
    simp only [Option.bind_eq_bind,Option.bind_eq_some_iff] at done
    obtain ⟨vm,found,⟨changed,stop⟩,updated,rest⟩ := done
    obtain ⟨member,inside⟩ := lookup_holds ordered (by omega) found
    have low : vm.r.start ≤ r.start := inside.1
    have high : r.start < vm.r.stop := inside.2
    have meet : max (cut r).start vm.r.start < min (cut r).stop vm.r.stop := by omega
    have fits : (cut r).stop < addressSpace := stops ▸ small
    have recolouring := recolouring_of_done fits ((rangesIntersect_iff _ _ fits).mpr meet) updated
    have reaches : q.start ≤ stop := by
      rcases recolouring.record ordered member with same | ⟨other,-,-,-,far⟩
      · omega
      · omega
    exact updateFlagsLoop_rule small narrows step turns ⟨min r.stop stop,r.stop⟩ changed after
      (recolouring.became ordered member).ordered ends (by dsimp only; omega) (by dsimp only; omega)
      (step r rm vm changed stop ordered ends starts holds member inside meet recolouring) rest

/-- How far the loop has come: before the rest of the range the flags are changed, and from there on
they may be. -/
structure Recoloured (q : Range) (clearMask setMask : UInt32) (rm : Vmaps) (r : Range) (current : Vmaps) : Prop where
  grown : ∀ node ∈ current, node ∈ rm ∨ node.r.start < node.r.stop
  outside : ∀ x, ¬ q.Holds x → pageAt current x = pageAt rm x
  behind : ∀ x, q.Holds x → x < r.start → pageAt current x = (pageAt rm x).map (Page.recoloured clearMask setMask)
  either : ∀ x, q.Holds x → pageAt current x = pageAt rm x ∨
    pageAt current x = (pageAt rm x).map (Page.recoloured clearMask setMask)

theorem recoloured_twice (page : Option Page) :
    (page.map (Page.recoloured clearMask setMask)).map (Page.recoloured clearMask setMask) =
      page.map (Page.recoloured clearMask setMask) := by
  cases page with
  | none => rfl
  | some page => simp only [Option.map_some,recoloured_again]

theorem Recoloured.step {r : Range} {current : Vmaps} {vm : Vmap} {stop : Nat}
    (inside : q.start ≤ (cut r).start ∧ (cut r).start ≤ r.start ∧ (cut r).stop = q.stop) (ordered : WellOrdered current)
    (recoloured : Recoloured q clearMask setMask rm r current) (member : vm ∈ current) (holds : vm.r.Holds r.start)
    (meet : max (cut r).start vm.r.start < min (cut r).stop vm.r.stop)
    (recolouring : Recolouring memory (cut r) clearMask setMask current vm after stop) :
    Recoloured q clearMask setMask rm ⟨min r.stop stop,r.stop⟩ after := by
  have became := recolouring.became ordered member
  have either : ∀ x, q.Holds x → pageAt after x = pageAt rm x ∨
      pageAt after x = (pageAt rm x).map (Page.recoloured clearMask setMask) := by
    intro x within
    rw [became.shown x,recolouredIn]
    split
    · rcases recoloured.either x within with same | changed
      · rw [same]
        exact Or.inr rfl
      · rw [changed,recoloured_twice]
        exact Or.inr rfl
    · exact recoloured.either x within
  refine ⟨fun node kept => ?_,fun x away => ?_,fun x within before => ?_,either⟩
  · rcases became.grown node kept with old | wide
    · exact recoloured.grown node old
    · exact Or.inr wide
  · have apart : ¬ ((cut r).Holds x ∧ vm.r.Holds x) := by
      simp only [Range.holds_iff] at *
      omega
    rw [became.shown x,recolouredIn,if_neg apart]
    exact recoloured.outside x away
  · by_cases early : x < r.start
    · rw [became.shown x,recolouredIn,recoloured.behind x within early]
      split
      · exact recoloured_twice _
      · rfl
    · -- between the start of the rest and the end of the record
      have low : vm.r.start ≤ x := holds.1.trans (Nat.le_of_not_lt early)
      have high : x < stop := Nat.lt_of_lt_of_le before (Nat.min_le_right _ _)
      have here : (cut r).Holds x := ⟨inside.2.1.trans (Nat.le_of_not_lt early),inside.2.2 ▸ within.2⟩
      have settled := recolouring.settled ordered member meet here low high
      rcases either x within with same | changed
      · rw [← settled,same]
      · exact changed

theorem updateFlagsLoop_became {turns : Nat} (ordered : WellOrdered rm) (valid : q.start ≤ q.stop)
    (small : q.stop < addressSpace) (narrows : Narrows cut q)
    (done : updateFlagsLoop memory cut clearMask setMask turns q rm = some after) :
    WellOrdered after ∧ (∀ node ∈ after, node ∈ rm ∨ node.r.start < node.r.stop) ∧
      ∀ x, pageAt after x = recolouredIn rm clearMask setMask q.Holds x := by
  have start : Recoloured q clearMask setMask rm q rm :=
    ⟨fun _ member => Or.inl member,fun _ _ => rfl,fun _ within before => absurd within.1 (Nat.not_le_of_lt before),
      fun _ _ => Or.inl rfl⟩
  obtain ⟨stays,rest,last,recoloured⟩ := updateFlagsLoop_rule small narrows
    (fun r _ _ _ _ ordered ends starts holds member within meet recolouring =>
      holds.step (narrows r ends starts) ordered member within meet recolouring)
    turns q rm after ordered rfl (le_refl _) valid start done
  refine ⟨stays,recoloured.grown,fun x => ?_⟩
  unfold recolouredIn
  split
  · rename_i within
    exact recoloured.behind x within (last ▸ within.2)
  · rename_i away
    exact recoloured.outside x away

end Loop

end AuthorityKernel.Memory
