import Mathlib.Algebra.Ring.Nat
import AuthorityKernel.Library.Ranges

/-! Range maps (`runtime/range.h`, `runtime/range.c`): nodes in the order of their start
addresses, looked up by address and by range. Addresses are 64-bit, so the end of a range
wraps around, and a walk over a range stops at the first node that does not meet it. -/
namespace AuthorityKernel.Memory

def addressSpace : Nat := 2 ^ 64

def irangel (start len : Nat) : Range := ⟨start,(start + len) % addressSpace⟩

def rangeIntersection (a b : Range) : Range :=
  let start := max a.start b.start
  let stop := min a.stop b.stop
  if stop ≤ start then ⟨0,0⟩ else ⟨start,stop⟩

def rangeSpan (r : Range) : Nat := (r.stop + addressSpace - r.start) % addressSpace

def rangeEmpty (r : Range) : Bool := rangeSpan r == 0

def rangesIntersect (a b : Range) : Bool := !rangeEmpty (rangeIntersection a b)

def rangeContains (a b : Range) : Bool := a.start ≤ b.start && b.stop ≤ a.stop

def rangeValid (r : Range) : Bool := r.start ≤ r.stop

structure Node (α : Type) where
  r : Range
  value : α
deriving DecidableEq

variable {α : Type}

def Node.start (node : Node α) : Nat := node.r.start

/-- The nodes of a map from the smallest start on, as the tree lists them. -/
abbrev RangeMap (α : Type) := List (Node α)

def lookupMaxLte (rm : RangeMap α) (point : Nat) : Option (Node α) := Ordered.floor Node.start point rm

def nextNode (rm : RangeMap α) (node : Node α) : Option (Node α) := (Ordered.above Node.start node.start rm).head?

def fromAtOrNext (rm : RangeMap α) (point : Nat) : List (Node α) :=
  ((lookupMaxLte rm point).toList ++ Ordered.above Node.start point rm).dropWhile (fun node => node.r.stop ≤ point)

def foreachOfRange (rm : RangeMap α) (q : Range) : List (Node α) :=
  (fromAtOrNext rm q.start).takeWhile (fun node => rangesIntersect q node.r)

def rangemapLookup (rm : RangeMap α) (point : Nat) : Option (Node α) :=
  (foreachOfRange rm ⟨point,(point + 1) % addressSpace⟩).head?

def rangemapRangeIntersects (rm : RangeMap α) (q : Range) : Bool := !(foreachOfRange rm q).isEmpty

inductive MapResult (α : Type) where
  | done (rm : RangeMap α) (start : Nat)
  | refused
  | halted

/-- The tree holds one node for each start; a second one with the same start stops the kernel. -/
def rangemapInsert (rm : RangeMap α) (node : Node α) : MapResult α :=
  if !(foreachOfRange rm node.r).isEmpty then .refused
  else if rm.any (fun other => other.start == node.start) then .halted
  else .done (Ordered.place Node.start node rm) node.start

def rangemapRemoveNode (rm : RangeMap α) (node : Node α) : RangeMap α :=
  rm.filter (fun other => other.start != node.start)

def rangemapReinsert (rm : RangeMap α) (node : Node α) (k : Range) : MapResult α :=
  match rangemapInsert (rangemapRemoveNode rm node) { node with r := k } with
  | .done after start => .done after start
  | _ => .halted

/-- `rangemap_range_lookup_internal` with a gap handler and no node handler: whether the walk
over the range finds a free part. -/
def gapsFrom (q : Range) : Nat → List (Node α) → Bool
  | lastedge,[] => !rangeEmpty (rangeIntersection ⟨lastedge,q.stop⟩ q)
  | lastedge,node :: rest =>
    !rangeEmpty (rangeIntersection ⟨lastedge,node.start⟩ q) || gapsFrom q node.r.stop rest

def rangemapRangeFindGaps (rm : RangeMap α) (q : Range) : Bool := gapsFrom q q.start (foreachOfRange rm q)

/-- The nodes of a map are in order, each ends no earlier than it starts, and no two meet. A node
may be empty. -/
structure WellOrdered (rm : RangeMap α) : Prop where
  sorted : Ordered.Sorted Node.start rm
  valid : ∀ node ∈ rm, node.r.start ≤ node.r.stop
  small : ∀ node ∈ rm, node.r.stop < addressSpace
  apart : ∀ node ∈ rm, ∀ other ∈ rm, node.start ≠ other.start → node.r.Apart other.r

theorem ordered_empty : WellOrdered ([] : RangeMap α) :=
  ⟨List.Pairwise.nil,fun _ m => (List.not_mem_nil m).elim,fun _ m => (List.not_mem_nil m).elim,
    fun _ m => (List.not_mem_nil m).elim⟩

theorem rangeIntersection_of_lt (a b : Range) (meet : max a.start b.start < min a.stop b.stop) :
    rangeIntersection a b = ⟨max a.start b.start,min a.stop b.stop⟩ := by
  have proper : ¬ min a.stop b.stop ≤ max a.start b.start := by omega
  simp only [rangeIntersection,if_neg proper]

theorem rangeIntersection_of_ge (a b : Range) (miss : min a.stop b.stop ≤ max a.start b.start) :
    rangeIntersection a b = ⟨0,0⟩ := by
  simp only [rangeIntersection,if_pos miss]

theorem rangeSpan_of_le (r : Range) (valid : r.start ≤ r.stop) (small : r.stop < addressSpace) :
    rangeSpan r = r.stop - r.start := by
  have cut : r.stop + addressSpace - r.start = r.stop - r.start + addressSpace := by omega
  rw [rangeSpan,cut,Nat.add_mod_right,Nat.mod_eq_of_lt (by omega)]

theorem rangesIntersect_iff (a b : Range) (small : a.stop < addressSpace) :
    rangesIntersect a b = true ↔ max a.start b.start < min a.stop b.stop := by
  by_cases meet : max a.start b.start < min a.stop b.stop
  · have span : rangeSpan (rangeIntersection a b) ≠ 0 := by
      rw [rangeIntersection_of_lt a b meet,rangeSpan_of_le _ (by dsimp only; omega) (by dsimp only; omega)]
      dsimp only
      omega
    simp [rangesIntersect,rangeEmpty,span,meet]
  · rw [rangesIntersect,rangeIntersection_of_ge a b (by omega)]
    simp only [meet,iff_false]
    decide

variable {drops : List Nat} {start : Nat} {node new : Node α} {q : Range} {rm after : RangeMap α}

theorem mem_foreachOfRange (ordered : WellOrdered rm) (visited : node ∈ foreachOfRange rm q) :
    node ∈ rm ∧ rangesIntersect q node.r = true := by
  have met := @List.mem_takeWhile_imp _ (fun node : Node α => rangesIntersect q node.r) _ _ visited
  refine ⟨?_,met⟩
  have walked := (List.dropWhile_sublist _).subset ((List.takeWhile_sublist _).subset visited)
  rcases List.mem_append.mp walked with floor | later
  · exact (Ordered.floor_some ordered.sorted (Option.mem_toList.mp floor)).1
  · exact ((Ordered.mem_above ordered.sorted q.start node).mp later).1

theorem walk_sorted (ordered : WellOrdered rm) (point : Nat) :
    Ordered.Sorted Node.start ((lookupMaxLte rm point).toList ++ Ordered.above Node.start point rm) := by
  refine List.pairwise_append.mpr ⟨?_,List.Pairwise.sublist (List.dropWhile_sublist _) ordered.sorted,?_⟩
  · cases lookupMaxLte rm point with
    | none => exact List.Pairwise.nil
    | some _ => exact List.pairwise_singleton _ _
  · intro floor first later high
    have low := (Ordered.floor_some ordered.sorted (Option.mem_toList.mp first)).2.1
    exact Nat.lt_of_le_of_lt low ((Ordered.mem_above ordered.sorted point later).mp high).2

theorem WellOrdered.stop_le (ordered : WellOrdered rm) {other : Node α} (member : node ∈ rm) (among : other ∈ rm)
    (before : other.start < node.start) : other.r.stop ≤ node.start := by
  have valid := ordered.valid node member
  have starts : other.r.start < node.r.start := before
  rcases ordered.apart other among node member (Nat.ne_of_lt before) with left | right
  · exact left
  · omega

theorem floor_of_holds (ordered : WellOrdered rm) {point : Nat} (member : node ∈ rm) (holds : node.r.Holds point) :
    lookupMaxLte rm point = some node := by
  cases found : lookupMaxLte rm point with
  | none => exact absurd holds.1 (Nat.not_le_of_lt (Ordered.floor_none ordered.sorted found node member))
  | some floor =>
    obtain ⟨among,low,largest⟩ := Ordered.floor_some ordered.sorted found
    by_cases same : node.start = floor.start
    · exact congrArg some (Ordered.Sorted.unique ordered.sorted among member same.symm)
    · have below := Nat.lt_of_le_of_ne (largest node member holds.1) same
      exact absurd (Nat.lt_of_lt_of_le holds.2 (ordered.stop_le among member below)) (Nat.not_lt_of_le low)

/-- The walk goes over the nodes that end after the point: the floor of the point and those above. -/
theorem mem_fromAtOrNext (ordered : WellOrdered rm) {point : Nat} :
    node ∈ fromAtOrNext rm point ↔ node ∈ rm ∧ point < node.r.stop := by
  have high : ∀ other ∈ Ordered.above Node.start point rm, other ∈ rm ∧ point < other.r.stop := by
    intro other above
    obtain ⟨member,late⟩ := (Ordered.mem_above ordered.sorted point other).mp above
    exact ⟨member,Nat.lt_of_lt_of_le late (ordered.valid other member)⟩
  constructor
  · intro walked
    unfold fromAtOrNext at walked
    cases found : lookupMaxLte rm point with
    | none =>
      rw [found] at walked
      exact high node ((List.dropWhile_sublist _).subset walked)
    | some floor =>
      rw [found,Option.toList_some,List.singleton_append,List.dropWhile_cons] at walked
      split at walked
      · exact high node ((List.dropWhile_sublist _).subset walked)
      rename_i ends
      rcases List.mem_cons.mp walked with rfl | above
      · exact ⟨(Ordered.floor_some ordered.sorted found).1,by simpa using ends⟩
      · exact high node above
  · rintro ⟨member,ends⟩
    refine Ordered.mem_dropWhile ?_ (by simpa using ends)
    by_cases late : point < node.start
    · exact List.mem_append_right _ ((Ordered.mem_above ordered.sorted point node).mpr ⟨member,late⟩)
    · refine List.mem_append_left _ (Option.mem_toList.mpr ?_)
      exact floor_of_holds ordered member ⟨Nat.le_of_not_lt late,ends⟩

def Free (rm : RangeMap α) (q : Range) : Prop :=
  ∀ node ∈ rm, node.r.start = node.r.stop → ¬ (q.start < node.start ∧ node.start < q.stop)

/-- A walk over a range meets every node that meets the range, unless an empty node strictly inside
it ends the walk early. -/
theorem foreachOfRange_of_meets (ordered : WellOrdered rm) (small : q.stop < addressSpace) (free : Free rm q)
    (member : node ∈ rm) (meet : max q.start node.r.start < min q.stop node.r.stop) : node ∈ foreachOfRange rm q := by
  have walked : node ∈ fromAtOrNext rm q.start := (mem_fromAtOrNext ordered).mpr ⟨member,by omega⟩
  have sorted : Ordered.Sorted Node.start (fromAtOrNext rm q.start) :=
    List.Pairwise.sublist (List.dropWhile_sublist _) (walk_sorted ordered q.start)
  have split := @List.takeWhile_append_dropWhile _ (fun node => rangesIntersect q node.r) (fromAtOrNext rm q.start)
  rw [← split] at walked
  refine (List.mem_append.mp walked).resolve_right fun late => ?_
  cases rest : (fromAtOrNext rm q.start).dropWhile (fun node => rangesIntersect q node.r) with
  | nil => simp [rest] at late
  | cons first others =>
    -- the walk ended at a node that ends after the start of the range and starts no later than this one
    have unmet := List.head?_dropWhile_not (fun node => rangesIntersect q node.r) (fromAtOrNext rm q.start)
    have inWalk : first ∈ fromAtOrNext rm q.start := (List.dropWhile_sublist _).subset (rest ▸ List.mem_cons_self)
    obtain ⟨among,ends⟩ := (mem_fromAtOrNext ordered).mp inWalk
    have starts : first.r.start ≤ node.r.start := by
      have tail := List.Pairwise.sublist (List.dropWhile_sublist (fun node => rangesIntersect q node.r)) sorted
      rw [rest] at late tail
      rcases List.mem_cons.mp late with rfl | later
      · exact le_refl _
      · exact Nat.le_of_lt ((List.pairwise_cons.mp tail).1 node later)
    have valid := ordered.valid first among
    have wide : first.r.start < first.r.stop := by
      by_contra empty
      refine free first among (by omega) ?_
      show q.start < first.r.start ∧ first.r.start < q.stop
      omega
    rw [rest] at unmet
    have met := (rangesIntersect_iff q first.r small).mpr (by omega)
    exact absurd unmet (by simp [met])

theorem apart_of_unmet (ordered : WellOrdered rm) (proper : q.start < q.stop) (small : q.stop < addressSpace)
    (free : Free rm q) (unmet : foreachOfRange rm q = []) (node : Node α) (member : node ∈ rm) : node.r.Apart q := by
  by_contra meets
  unfold Range.Apart at meets
  have valid := ordered.valid node member
  by_cases wide : node.r.start < node.r.stop
  · have visited := foreachOfRange_of_meets ordered small free member (by omega)
    simp [unmet] at visited
  · refine free node member (by omega) ?_
    show q.start < node.r.start ∧ node.r.start < q.stop
    omega

def swap (rm : RangeMap α) (drops : List Nat) (new : Node α) : RangeMap α :=
  Ordered.place Node.start new (rm.filter (fun node => !drops.contains node.start))

theorem mem_swap : node ∈ swap rm drops new ↔ node = new ∨ (node ∈ rm ∧ node.start ∉ drops) := by
  simp [swap,Ordered.mem_place,List.mem_filter]

theorem ordered_of_members (ordered : WellOrdered rm) (sorted : Ordered.Sorted Node.start after)
    (members : ∀ node, node ∈ after ↔ node = new ∨ (node ∈ rm ∧ node.start ∉ drops)) (valid : new.r.start ≤ new.r.stop)
    (small : new.r.stop < addressSpace) (fits : ∀ node ∈ rm, node.start ∉ drops → node.r.Apart new.r) :
    WellOrdered after := by
  refine ⟨sorted,?_,?_,?_⟩
  · intro node member
    rcases (members node).mp member with rfl | old
    · exact valid
    · exact ordered.valid node old.1
  · intro node member
    rcases (members node).mp member with rfl | old
    · exact small
    · exact ordered.small node old.1
  · intro a first b second different
    rcases (members a).mp first with rfl | older
    · rcases (members b).mp second with rfl | old
      · exact absurd rfl different
      · exact (fits b old.1 old.2).symm
    · rcases (members b).mp second with rfl | old
      · exact fits a older.1 older.2
      · exact ordered.apart a older.1 b old.1 different

theorem ordered_swap (ordered : WellOrdered rm) (valid : new.r.start ≤ new.r.stop) (small : new.r.stop < addressSpace)
    (fits : ∀ node ∈ rm, node.start ∉ drops → node.start ≠ new.start ∧ node.r.Apart new.r) :
    WellOrdered (swap rm drops new) := by
  refine ordered_of_members ordered ?_ (fun _ => mem_swap) valid small fun node old kept => (fits node old kept).2
  refine Ordered.place_sorted (List.Pairwise.sublist List.filter_sublist ordered.sorted) new fun node member => ?_
  obtain ⟨old,kept⟩ := List.mem_filter.mp member
  exact (fits node old (by simpa using kept)).1

theorem ordered_remove (ordered : WellOrdered rm) (node : Node α) : WellOrdered (rangemapRemoveNode rm node) where
  sorted := List.Pairwise.sublist List.filter_sublist ordered.sorted
  valid other member := ordered.valid other (List.mem_filter.mp member).1
  small other member := ordered.small other (List.mem_filter.mp member).1
  apart a first b second := ordered.apart a (List.mem_filter.mp first).1 b (List.mem_filter.mp second).1

theorem mem_remove {other : Node α} : other ∈ rangemapRemoveNode rm node ↔ other ∈ rm ∧ other.start ≠ node.start := by
  simp [rangemapRemoveNode,List.mem_filter]

theorem insert_done (done : rangemapInsert rm node = .done after start) :
    foreachOfRange rm node.r = [] ∧ (∀ other ∈ rm, other.start ≠ node.start) ∧ after = swap rm [] node ∧
      start = node.start := by
  unfold rangemapInsert at done
  split at done
  · cases done
  rename_i unmet
  split at done
  · cases done
  rename_i fresh
  refine ⟨by simpa using unmet,by simpa using fresh,?_,by cases done; rfl⟩
  cases done
  simp [swap]

theorem reinsert_done {k : Range} (done : rangemapReinsert rm node k = .done after start) :
    foreachOfRange (rangemapRemoveNode rm node) k = [] ∧
      (∀ other ∈ rm, other.start ≠ node.start → other.start ≠ k.start) ∧
      after = swap rm [node.start] { node with r := k } ∧ start = k.start := by
  unfold rangemapReinsert at done
  split at done
  · rename_i inserted
    cases done
    obtain ⟨unmet,fresh,shape,key⟩ := insert_done inserted
    refine ⟨unmet,fun other member different => fresh other (mem_remove.mpr ⟨member,different⟩),?_,key⟩
    rw [shape]
    simp [swap,rangemapRemoveNode,bne,beq_eq_decide]
  · cases done

end AuthorityKernel.Memory
