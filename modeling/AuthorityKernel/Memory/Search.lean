import AuthorityKernel.Memory.Effects

/-! The choice of a free range (`process_get_virt_range_locked`). The search goes through the gaps
between the mapped ranges of a region and takes the first one whose room is enough. The room is
reckoned with wrap-around: a gap smaller than the guard gap and the page that are taken off has
room for anything. -/
namespace AuthorityKernel.Memory

/-- A free range, with how far below its end a mapping has to stay. -/
structure Gap where
  start : Nat
  stop : Nat
  guard : Nat
deriving DecidableEq

def gapsBetween (region : Range) : Nat → List Vmap → List Gap
  | lastedge,[] => if lastedge < region.stop then [⟨lastedge,region.stop,0⟩] else []
  | lastedge,node :: rest =>
    if lastedge < node.start then ⟨lastedge,node.start,guardGap node⟩ :: gapsBetween region node.r.stop rest
    else gapsBetween region node.r.stop rest

def searchGaps (rm : Vmaps) (region : Range) : List Gap := gapsBetween region region.start (foreachOfRange rm region)

def Gap.room (gap : Gap) (randomize : Bool) : Nat :=
  (gap.stop + 2 * addressSpace - gap.guard - (if randomize then pageSize else 0) - gap.start) % addressSpace

def Gap.pages (gap : Gap) (size : Nat) : Nat :=
  (gap.room true + 2 * pageSize + addressSpace - size) % addressSpace / pageSize

def Gap.reach (gap : Gap) (randomize : Bool) (size : Nat) : Nat :=
  (if randomize then gap.start + (gap.pages size - 1) * pageSize else gap.start) + size

def Gap.takes (randomize : Bool) (size : Nat) (gap : Gap) : Bool := size ≤ gap.room randomize

def Gap.choose (random : Range → UInt64) (randomize : Bool) (size : Nat) (gap : Gap) : Option Nat :=
  vmapSelectAddr random randomize size ⟨gap.start,(gap.stop + addressSpace - gap.guard) % addressSpace⟩

/-- The range of this size at an address lies in the region, meets no mapped range and ends the
guard gap below every stack that follows it. -/
structure Placed (rm : Vmaps) (region : Range) (size a : Nat) : Prop where
  above : region.start ≤ a
  below : a + size ≤ region.stop
  clear : ∀ node ∈ rm, ¬ max a node.r.start < min (a + size) node.r.stop
  guarded : ∀ node ∈ rm, hasFlag node.value.flags vmapFlagStack = true → a + size ≤ node.start →
    a + size + processStackGuardGap ≤ node.start

/-- Every place in the gap is right: there is room for the guard gap, and up to the highest place
nothing is mapped. -/
structure Gap.Serves (rm : Vmaps) (randomize : Bool) (size : Nat) (gap : Gap) : Prop where
  fits : gap.start + size + gap.guard ≤ gap.stop
  counted : randomize = true → gap.stop + pageSize < gap.start + gap.guard + addressSpace + size
  clear : ∀ node ∈ rm, gap.start ≤ node.start → node.r.start < node.r.stop → 0 < size →
    gap.reach randomize size ≤ node.start
  guarded : ∀ node ∈ rm, hasFlag node.value.flags vmapFlagStack = true → gap.start + size ≤ node.start →
    gap.reach randomize size + processStackGuardGap ≤ node.start

/-- A gap of a region: nothing mapped before it reaches into it, and it ends with the region or where
a mapped range starts. -/
structure Gap.Lies (rm : Vmaps) (region : Range) (gap : Gap) : Prop where
  low : region.start ≤ gap.start
  proper : gap.start < gap.stop
  high : gap.stop ≤ region.stop
  before : ∀ node ∈ rm, node.start < gap.start → node.r.stop ≤ gap.start
  bound : (gap.stop = region.stop ∧ gap.guard = 0) ∨
    ∃ node ∈ rm, node.start = gap.stop ∧ node.r.start < node.r.stop ∧ gap.guard = guardGap node

variable {randomize : Bool} {a : Nat} {node : Vmap}

section OneGap

variable {rm : Vmaps} {region : Range} {gap : Gap} {size : Nat}

theorem Gap.Lies.guard_le (lies : gap.Lies rm region) : gap.guard ≤ processStackGuardGap := by
  rcases lies.bound with ⟨-,none⟩ | ⟨node,-,-,-,same⟩
  · rw [none]
    exact Nat.zero_le _
  rw [same,guardGap]
  split
  · exact le_refl _
  · exact Nat.zero_le _

variable (random : Range → UInt64)

theorem Gap.choose_eq (randomize : Bool) (proper : gap.start < gap.stop)
    (small : gap.stop < addressSpace) (guard : gap.guard ≤ processStackGuardGap) :
    gap.choose random randomize size =
      if gap.room randomize < size then some invalidPhysical
      else if randomize then
        if gap.pages size = 0 then none
        else some ((gap.start + (random ⟨gap.start,(gap.stop + addressSpace - gap.guard) % addressSpace⟩).toNat %
          gap.pages size * pageSize) % addressSpace)
      else some gap.start := by
  have limit : processStackGuardGap < addressSpace := by decide
  have page : pageSize < addressSpace := by decide
  cases randomize with
  | false =>
    have span : rangeSpan ⟨gap.start,(gap.stop + addressSpace - gap.guard) % addressSpace⟩ = gap.room false := by
      simp only [rangeSpan,Gap.room,Bool.false_eq_true,if_false,Nat.sub_zero]
      unfold addressSpace at small limit ⊢
      omega
    simp only [Gap.choose,vmapSelectAddr,span,Bool.false_eq_true,if_false]
  | true =>
    have span : rangeSpan ⟨gap.start,((gap.stop + addressSpace - gap.guard) % addressSpace + addressSpace - pageSize) %
        addressSpace⟩ = gap.room true := by
      simp only [rangeSpan,Gap.room,if_true]
      unfold addressSpace at small limit page ⊢
      omega
    simp only [Gap.choose,vmapSelectAddr,span,if_true,beq_iff_eq]
    rfl

theorem Gap.pages_fit (whole : size % pageSize = 0) (takes : gap.takes true size = true)
    (fits : gap.start + size + gap.guard ≤ gap.stop)
    (counted : gap.stop + pageSize < gap.start + gap.guard + addressSpace + size) :
    0 < gap.pages size ∧ gap.start + (gap.pages size - 1) * pageSize + size + gap.guard ≤ gap.stop := by
  simp only [Gap.takes,Gap.room,if_true,decide_eq_true_eq] at takes
  simp only [Gap.pages,Gap.room,if_true]
  unfold addressSpace pageSize at *
  omega

theorem Gap.Lies.crowded (lies : gap.Lies rm region) (crowded : gap.stop < gap.start + size + gap.guard) :
    ¬ Placed rm region size gap.start := by
  intro placed
  rcases lies.bound with ⟨ends,none⟩ | ⟨node,member,starts,wide,guard⟩
  · have below := placed.below
    omega
  have starts : node.r.start = gap.stop := starts
  have proper := lies.proper
  have apart := placed.clear node member
  have ends : gap.start + size ≤ node.start := by
    omega
  by_cases stack : hasFlag node.value.flags vmapFlagStack = true
  · have kept := placed.guarded node member stack ends
    have same : guardGap node = processStackGuardGap := by simp only [guardGap,stack,if_true]
    omega
  · have same : guardGap node = 0 := by simp [guardGap,stack]
    omega

theorem Gap.Serves.placed (lies : gap.Lies rm region) (serves : gap.Serves rm randomize size) (low : gap.start ≤ a)
    (high : a + size ≤ gap.reach randomize size) (inside : a + size ≤ gap.stop) : Placed rm region size a where
  above := lies.low.trans low
  below := inside.trans lies.high
  clear node member meets := by
    by_cases early : node.start < gap.start
    · have ends := lies.before node member early
      omega
    · have reach := serves.clear node member (Nat.le_of_not_lt early) (by omega) (by omega)
      have key : node.start = node.r.start := rfl
      omega
  guarded node member stack ends := by
    have reach := serves.guarded node member stack (by omega)
    omega

def Gap.place (gap : Gap) (i : Nat) : Nat := gap.start + i * pageSize

theorem Gap.Lies.fits (lies : gap.Lies rm region) (placed : Placed rm region size gap.start) :
    gap.start + size + gap.guard ≤ gap.stop := by
  by_contra crowded
  exact lies.crowded (Nat.lt_of_not_le crowded) placed

theorem Gap.Lies.serves {last : Nat} (ordered : WellOrdered rm) (lies : gap.Lies rm region)
    (small : gap.stop < addressSpace) (whole : size % pageSize = 0) (fits : gap.start + size + gap.guard ≤ gap.stop)
    (reach : gap.reach randomize size = gap.place last + size) (bound : gap.place last + size ≤ gap.stop)
    (counted : randomize = true → gap.stop + pageSize < gap.start + gap.guard + addressSpace + size)
    (placed : ∀ i ≤ last, gap.place i = invalidPhysical ∨ Placed rm region size (gap.place i)) :
    gap.Serves rm randomize size := by
  have proper := lies.proper
  refine ⟨fits,counted,fun node member after wide some => ?_,fun node member stack after => ?_⟩
  · by_contra short
    rw [reach] at short
    have key : node.start = node.r.start := rfl
    have right : ∀ i ≤ last, Placed rm region size (gap.place i) := by
      intro i least
      rcases placed i least with none | right
      · simp only [Gap.place,invalidPhysical] at none bound
        unfold pageSize addressSpace at *
        omega
      · exact right
    -- the place that covers the start of the mapped range
    by_cases inside : (node.start - gap.start) / pageSize ≤ last
    · have meets := (right _ inside).clear node member
      simp only [Gap.place] at meets short
      unfold pageSize at *
      omega
    have meets := (right last (le_refl _)).clear node member
    simp only [Gap.place] at meets short
    unfold pageSize at *
    omega
  · by_contra short
    rw [reach] at short
    have kept : ∀ i ≤ last, gap.place i = invalidPhysical ∨ ¬ gap.place i + size ≤ node.start ∨
        gap.place i + size + processStackGuardGap ≤ node.start := by
      intro i least
      rcases placed i least with none | right
      · exact Or.inl none
      · by_cases ends : gap.place i + size ≤ node.start
        · exact Or.inr (Or.inr (right.guarded node member stack ends))
        · exact Or.inr (Or.inl ends)
    have starts : node.start < addressSpace :=
      Nat.lt_of_le_of_lt (ordered.valid node member) (ordered.small node member)
    -- the highest place that ends before the stack, or the one below it
    have highest := kept (min last ((node.start - size - gap.start) / pageSize)) (Nat.min_le_left _ _)
    have below := kept (min last ((node.start - size - gap.start) / pageSize) - 1) (by omega)
    simp only [Gap.place,processStackGuardGap,invalidPhysical] at highest below short bound
    unfold pageSize addressSpace at *
    omega

/-- The outcome of a search is right: it finds nothing, or a range that is placed right. -/
def Selected (rm : Vmaps) (region : Range) (size : Nat) (found : Option Nat) : Prop :=
  ∃ a, found = some a ∧ (a = invalidPhysical ∨ Placed rm region size a)

theorem random_of (i : Nat) (small : i < addressSpace) : (UInt64.ofNat i).toNat = i := by
  simp only [UInt64.toNat_ofNat']
  exact Nat.mod_eq_of_lt small

theorem Gap.choose_place (proper : gap.start < gap.stop) (small : gap.stop < addressSpace)
    (guard : gap.guard ≤ processStackGuardGap) (takes : gap.takes true size = true) {i : Nat}
    (among : i < gap.pages size) (inside : gap.place i < addressSpace)
    (drawn : (random ⟨gap.start,(gap.stop + addressSpace - gap.guard) % addressSpace⟩).toNat % gap.pages size = i) :
    gap.choose random true size = some (gap.place i) := by
  have room : ¬ gap.room true < size := by simpa [Gap.takes] using takes
  rw [Gap.choose_eq random true proper small guard,if_neg room,if_pos rfl,if_neg (by omega),drawn]
  exact congrArg some (Nat.mod_eq_of_lt inside)

theorem Gap.choose_start (proper : gap.start < gap.stop) (small : gap.stop < addressSpace)
    (guard : gap.guard ≤ processStackGuardGap) (takes : gap.takes false size = true) :
    gap.choose random false size = some gap.start := by
  have room : ¬ gap.room false < size := by simpa [Gap.takes] using takes
  rw [Gap.choose_eq random false proper small guard,if_neg room,if_neg Bool.false_ne_true]

theorem Gap.Serves.chosen (lies : gap.Lies rm region) (small : gap.stop < addressSpace) (whole : size % pageSize = 0)
    (takes : gap.takes randomize size = true) (serves : gap.Serves rm randomize size) (random : Range → UInt64) :
    ∃ a, gap.choose random randomize size = some a ∧ Placed rm region size a ∧ a ≤ gap.stop ∧ gap.start ≤ a ∧
      a + size ≤ gap.reach randomize size := by
  have fits := serves.fits
  cases randomize with
  | false =>
    have found := gap.choose_start random lies.proper small lies.guard_le takes
    have reach : gap.start + size ≤ gap.reach false size := by simp [Gap.reach]
    exact ⟨gap.start,found,serves.placed lies (le_refl _) reach (by omega),Nat.le_of_lt lies.proper,le_refl _,reach⟩
  | true =>
    obtain ⟨some,bound⟩ := gap.pages_fit whole takes serves.fits (serves.counted rfl)
    generalize drawn : (random ⟨gap.start,(gap.stop + addressSpace - gap.guard) % addressSpace⟩).toNat %
      gap.pages size = i
    have among : i < gap.pages size := drawn ▸ Nat.mod_lt _ some
    have low : gap.place i ≤ gap.place (gap.pages size - 1) :=
      Nat.add_le_add_left (Nat.mul_le_mul_right _ (by omega)) _
    have top : gap.place (gap.pages size - 1) + size + gap.guard ≤ gap.stop := bound
    have found := gap.choose_place random lies.proper small lies.guard_le takes among (by omega) drawn
    refine ⟨gap.place i,found,?_,by omega,Nat.le_add_right _ _,Nat.add_le_add_right low size⟩
    exact serves.placed lies (Nat.le_add_right _ _) (Nat.add_le_add_right low size) (by omega)

theorem Gap.Lies.serves_of_selected (ordered : WellOrdered rm) (lies : gap.Lies rm region)
    (small : gap.stop < addressSpace) (whole : size % pageSize = 0) (takes : gap.takes randomize size = true)
    (selected : ∀ random, Selected rm region size (gap.choose random randomize size)) :
    gap.Serves rm randomize size := by
  have proper := lies.proper
  have known : gap.start ≠ invalidPhysical := by
    unfold invalidPhysical
    omega
  have outcome : ∀ {random a}, gap.choose random randomize size = some a →
      a = invalidPhysical ∨ Placed rm region size a := by
    intro random a found
    obtain ⟨other,same,right⟩ := selected random
    rwa [Option.some.inj (found.symm.trans same)]
  cases randomize with
  | false =>
    have first := (outcome (gap.choose_start (fun _ => 0) proper small lies.guard_le takes)).resolve_left known
    have fits := lies.fits first
    have start : gap.place 0 = gap.start := by simp [Gap.place]
    have reach : gap.reach false size = gap.place 0 + size := by simp [Gap.reach,start]
    refine lies.serves ordered small whole fits reach (by rw [start]; omega) (fun no => by cases no) fun i least => ?_
    rw [Nat.le_zero.mp least,start]
    exact Or.inr first
  | true =>
    have drawn : 0 < gap.pages size := by
      by_contra none
      have room : ¬ gap.room true < size := by simpa [Gap.takes] using takes
      obtain ⟨a,found,-⟩ := selected fun _ => 0
      rw [Gap.choose_eq _ true proper small lies.guard_le,if_neg room,if_pos rfl,if_pos (by omega)] at found
      cases found
    have start : gap.place 0 = gap.start := by simp [Gap.place]
    have first : Placed rm region size gap.start := by
      have found := gap.choose_place (fun _ => 0) proper small lies.guard_le takes drawn
        (by rw [start]; exact proper.trans small) (Nat.zero_mod _)
      rw [start] at found
      exact (outcome found).resolve_left known
    have fits := lies.fits first
    have counted : gap.stop + pageSize < gap.start + gap.guard + addressSpace + size := by
      by_contra wraps
      simp only [Gap.pages,Gap.room,if_true] at drawn
      unfold addressSpace pageSize at *
      omega
    obtain ⟨-,bound⟩ := gap.pages_fit whole takes fits counted
    have top : gap.place (gap.pages size - 1) + size + gap.guard ≤ gap.stop := bound
    refine lies.serves ordered small whole fits (rfl : gap.reach true size = gap.place (gap.pages size - 1) + size) (by omega)
      (fun _ => counted) fun i least => ?_
    have inside : gap.place i < addressSpace := by
      have low : gap.place i ≤ gap.place (gap.pages size - 1) :=
        Nat.add_le_add_left (Nat.mul_le_mul_right _ least) _
      omega
    have among : i < gap.pages size := by omega
    have word : i < addressSpace := by
      unfold pageSize at *
      omega
    exact outcome (gap.choose_place (fun _ => UInt64.ofNat i) proper small lies.guard_le takes among inside
      (by rw [random_of i word,Nat.mod_eq_of_lt among]))

end OneGap

section Walk

variable {rm : Vmaps} {region : Range} {size : Nat}

theorem WellOrdered.stop_mono (ordered : WellOrdered rm) {other : Vmap} (member : node ∈ rm) (among : other ∈ rm)
    (before : other.start < node.r.stop) : other.r.stop ≤ node.r.stop := by
  have valid := ordered.valid node member
  by_cases same : other.start = node.start
  · rw [Ordered.Sorted.unique ordered.sorted among member same]
  rcases ordered.apart other among node member same with left | right
  · omega
  · have key : other.start = other.r.start := rfl
    omega

theorem gapsBetween_lies (ordered : WellOrdered rm) (nodes : List Vmap) (lastedge : Nat)
    (low : region.start ≤ lastedge)
    (met : ∀ node ∈ nodes, node ∈ rm ∧ max region.start node.r.start < min region.stop node.r.stop)
    (before : ∀ node ∈ rm, node.start < lastedge → (∃ first ∈ nodes.head?, first.start ≤ lastedge) ∨
      node.r.stop ≤ lastedge) :
    ∀ gap ∈ gapsBetween region lastedge nodes, gap.Lies rm region := by
  induction nodes generalizing lastedge with
  | nil =>
    intro gap member
    simp only [gapsBetween] at member
    split at member
    · rename_i proper
      obtain rfl := List.mem_singleton.mp member
      refine ⟨low,proper,le_refl _,fun node among early => ?_,Or.inl ⟨rfl,rfl⟩⟩
      exact (before node among early).resolve_left (by simp)
    · exact absurd member List.not_mem_nil
  | cons node rest ih =>
    obtain ⟨here,meets⟩ := met node List.mem_cons_self
    have later : ∀ gap ∈ gapsBetween region node.r.stop rest, gap.Lies rm region :=
      ih node.r.stop (by omega) (fun other among => met other (List.mem_cons_of_mem _ among))
        (fun other among early => Or.inr (ordered.stop_mono here among early))
    intro gap member
    simp only [gapsBetween] at member
    split at member
    · rename_i proper
      rcases List.mem_cons.mp member with rfl | among
      · have wide : node.r.start < node.r.stop := by omega
        have high : node.start ≤ region.stop := by
          show node.r.start ≤ region.stop
          omega
        refine ⟨low,proper,high,fun other among early => ?_,Or.inr ⟨node,here,rfl,wide,rfl⟩⟩
        refine (before other among early).resolve_left ?_
        rintro ⟨first,found,starts⟩
        obtain rfl : node = first := by simpa using found
        omega
      · exact later gap among
    · exact later gap member

theorem first_of_walk (ordered : WellOrdered rm) (proper : region.start < region.stop)
    (small : region.stop < addressSpace) (member : node ∈ rm) (early : node.start < region.start) :
    (∃ first ∈ (foreachOfRange rm region).head?, first.start ≤ region.start) ∨ node.r.stop ≤ region.start := by
  by_cases ends : node.r.stop ≤ region.start
  · exact Or.inr ends
  have key : node.start = node.r.start := rfl
  have floor := floor_of_holds ordered member ⟨Nat.le_of_lt early,Nat.lt_of_not_le ends⟩
  have met : rangesIntersect region node.r = true := (rangesIntersect_iff region node.r small).mpr (by omega)
  refine Or.inl ⟨node,?_,Nat.le_of_lt early⟩
  have walk : fromAtOrNext rm region.start = node :: Ordered.above Node.start region.start rm := by
    simp only [fromAtOrNext,floor,Option.toList_some,List.singleton_append]
    rw [List.dropWhile_cons_of_neg (by simpa using ends)]
  simp [foreachOfRange,walk,met]

theorem searchGaps_lie (ordered : WellOrdered rm) (small : region.stop < addressSpace) :
    ∀ gap ∈ searchGaps rm region, gap.Lies rm region := by
  have met : ∀ node ∈ foreachOfRange rm region, node ∈ rm ∧ max region.start node.r.start < min region.stop node.r.stop :=
    fun node visited => ⟨(mem_foreachOfRange ordered visited).1,
      (rangesIntersect_iff region node.r small).mp (mem_foreachOfRange ordered visited).2⟩
  by_cases proper : region.start < region.stop
  · exact gapsBetween_lies ordered _ region.start (le_refl _) met
      (fun node member early => first_of_walk ordered proper small member early)
  have none : foreachOfRange rm region = [] := by
    refine List.eq_nil_iff_forall_not_mem.mpr fun node visited => ?_
    have meets := (met node visited).2
    omega
  simp [searchGaps,none,gapsBetween,proper]

/-- The gaps are tried in order; one in which nothing is chosen is passed over. -/
def firstChoice (random : Range → UInt64) (randomize : Bool) (size : Nat) : List Gap → Option Nat
  | [] => some invalidPhysical
  | gap :: rest => (gap.choose random randomize size).bind fun chosen =>
    if chosen = invalidPhysical then firstChoice random randomize size rest else some chosen

theorem passed_over (found : Option Nat) :
    (found.bind fun chosen => if chosen = invalidPhysical then some invalidPhysical else some chosen) = found := by
  cases found with
  | none => rfl
  | some chosen =>
    rw [Option.bind_some]
    split
    · rename_i same
      rw [same]
    · rfl

theorem virtRangeFrom_eq (random : Range → UInt64) (randomize : Bool) (nodes : List Vmap) (lastedge : Nat)
    (low : region.start ≤ lastedge) (small : region.stop < addressSpace)
    (met : ∀ node ∈ nodes, max region.start node.r.start < min region.stop node.r.stop) :
    virtRangeFrom random randomize size region lastedge invalidPhysical nodes =
      firstChoice random randomize size (gapsBetween region lastedge nodes) := by
  -- the part of the region up to an edge inside it, if there is any
  have part : ∀ last edge, region.start ≤ last → edge ≤ region.stop → last < edge →
      rangeIntersection ⟨last,edge⟩ region = ⟨last,edge⟩ ∧ rangeEmpty ⟨last,edge⟩ = false ∧
        (last == invalidPhysical) = false := by
    intro last edge low inside proper
    refine ⟨?_,?_,?_⟩
    · rw [rangeIntersection_of_lt _ _ (by dsimp only; omega)]
      rw [Nat.max_eq_left low,Nat.min_eq_left inside]
    · simp only [rangeEmpty,rangeSpan_of_le ⟨last,edge⟩ (Nat.le_of_lt proper) (by dsimp only; omega),
        beq_eq_false_iff_ne]
      omega
    · simp only [beq_eq_false_iff_ne,invalidPhysical]
      omega
  have nothing : ∀ last edge, ¬ last < edge → rangeIntersection ⟨last,edge⟩ region = ⟨0,0⟩ :=
    fun last edge past => rangeIntersection_of_ge _ _ (by dsimp only; omega)
  have empty : rangeEmpty ⟨0,0⟩ = true := by decide
  induction nodes generalizing lastedge with
  | nil =>
    rw [virtRangeFrom,gapsBetween]
    by_cases proper : lastedge < region.stop
    · obtain ⟨shape,some,known⟩ := part lastedge region.stop low (le_refl _) proper
      have whole : (region.stop + addressSpace - 0) % addressSpace = region.stop := by
        rw [Nat.sub_zero,Nat.add_mod_right,Nat.mod_eq_of_lt small]
      simp only [shape,some,known,Bool.false_eq_true,if_false,if_pos proper,firstChoice,passed_over,Gap.choose,whole]
    · simp only [nothing _ _ proper,empty,if_true,beq_self_eq_true,if_neg proper,firstChoice]
  | cons node rest ih =>
    have meets := met node List.mem_cons_self
    have inside : node.start ≤ region.stop := by
      show node.r.start ≤ region.stop
      omega
    have later := ih node.r.stop (by omega) (fun other among => met other (List.mem_cons_of_mem _ among))
    rw [virtRangeFrom,gapsBetween]
    by_cases proper : lastedge < node.start
    · obtain ⟨shape,some,known⟩ := part lastedge node.start low inside proper
      simp only [shape,some,known,Bool.false_eq_true,if_false,if_pos proper,Option.bind_eq_bind,firstChoice,Gap.choose,
        beq_iff_eq,← later]
      congr 1
      funext chosen
      split
      · rename_i none
        rw [none]
      · rfl
    · simp only [nothing _ _ proper,empty,if_true,beq_self_eq_true,if_neg proper,later]

theorem gapsBetween_ends (nodes : List Vmap) (lastedge : Nat)
    (met : ∀ node ∈ nodes, max region.start node.r.start < min region.stop node.r.stop) :
    (gapsBetween region lastedge nodes).Pairwise fun gap _ => gap.stop < region.stop := by
  induction nodes generalizing lastedge with
  | nil =>
    rw [gapsBetween]
    split
    · exact List.pairwise_singleton _ _
    · exact List.Pairwise.nil
  | cons node rest ih =>
    have meets := met node List.mem_cons_self
    have inside : node.start < region.stop := by
      show node.r.start < region.stop
      omega
    have later := ih node.r.stop fun other among => met other (List.mem_cons_of_mem _ among)
    rw [gapsBetween]
    split
    · exact List.pairwise_cons.mpr ⟨fun _ _ => inside,later⟩
    · exact later

/-- The outcome is decided in the first gap with enough room. Only the last gap can end with the region. -/
theorem firstChoice_cases (random : Range → UInt64) (randomize : Bool) (small : region.stop < addressSpace)
    (gaps : List Gap) (lie : ∀ gap ∈ gaps, gap.Lies rm region) (ends : gaps.Pairwise fun gap _ => gap.stop < region.stop) :
    (gaps.find? (Gap.takes randomize size) = none ∧
        firstChoice random randomize size gaps = some invalidPhysical) ∨
      ∃ gap rest, gaps.find? (Gap.takes randomize size) = some gap ∧ gap.Lies rm region ∧
        (gap.stop < region.stop ∨ firstChoice random randomize size rest = some invalidPhysical) ∧
        firstChoice random randomize size gaps = (gap.choose random randomize size).bind fun chosen =>
          if chosen = invalidPhysical then firstChoice random randomize size rest else some chosen := by
  induction gaps with
  | nil => exact Or.inl ⟨rfl,rfl⟩
  | cons gap rest ih =>
    have lies := lie gap List.mem_cons_self
    cases taken : gap.takes randomize size with
    | true =>
      refine Or.inr ⟨gap,rest,List.find?_cons_of_pos taken,lies,?_,rfl⟩
      cases rest with
      | nil => exact Or.inr rfl
      | cons next rest => exact Or.inl (List.rel_of_pairwise_cons ends List.mem_cons_self)
    | false =>
      have room : gap.room randomize < size := by simpa [Gap.takes] using taken
      have passed : gap.choose random randomize size = some invalidPhysical := by
        rw [Gap.choose_eq random randomize lies.proper (Nat.lt_of_le_of_lt lies.high small) lies.guard_le,if_pos room]
      rw [firstChoice,passed,Option.bind_some,if_pos rfl,List.find?_cons_of_neg (by simp [taken])]
      exact ih (fun other among => lie other (List.mem_cons_of_mem _ among)) (List.pairwise_cons.mp ends).2

/-- The first gap with enough room serves. -/
def Roomy (rm : Vmaps) (region : Range) (randomize : Bool) (size : Nat) : Prop :=
  ∀ gap, (searchGaps rm region).find? (Gap.takes randomize size) = some gap → gap.Serves rm randomize size

theorem search_cases (ordered : WellOrdered rm) (small : region.stop < addressSpace) (random : Range → UInt64)
    (randomize : Bool) :
    ((searchGaps rm region).find? (Gap.takes randomize size) = none ∧
        processGetVirtRangeLocked random randomize rm size region = some invalidPhysical) ∨
      ∃ gap rest, (searchGaps rm region).find? (Gap.takes randomize size) = some gap ∧ gap.Lies rm region ∧
        (gap.stop < region.stop ∨ rest = some invalidPhysical) ∧
        processGetVirtRangeLocked random randomize rm size region = (gap.choose random randomize size).bind fun chosen =>
          if chosen = invalidPhysical then rest else some chosen := by
  have met : ∀ node ∈ foreachOfRange rm region, max region.start node.r.start < min region.stop node.r.stop :=
    fun node visited => (rangesIntersect_iff region node.r small).mp (mem_foreachOfRange ordered visited).2
  have walk : processGetVirtRangeLocked random randomize rm size region =
      firstChoice random randomize size (searchGaps rm region) :=
    virtRangeFrom_eq random randomize _ region.start (le_refl _) small met
  rw [walk]
  rcases firstChoice_cases random randomize small _ (searchGaps_lie ordered small) (gapsBetween_ends _ region.start met)
    with none | ⟨gap,rest,found⟩
  · exact Or.inl none
  · exact Or.inr ⟨gap,_,found⟩

theorem Gap.Serves.search {gap : Gap} {rest : Option Nat} (lies : gap.Lies rm region)
    (small : region.stop < addressSpace) (whole : size % pageSize = 0) (serves : gap.Serves rm randomize size)
    (takes : gap.takes randomize size = true) (random : Range → UInt64)
    (ends : gap.stop < region.stop ∨ rest = some invalidPhysical) :
    ∃ a, ((gap.choose random randomize size).bind fun chosen => if chosen = invalidPhysical then rest else some chosen) =
      some a ∧ gap.start ≤ a ∧ a + size ≤ gap.reach randomize size ∧ Placed rm region size a := by
  have high := lies.high
  obtain ⟨a,found,right,below,above,reach⟩ := serves.chosen lies (Nat.lt_of_le_of_lt high small) whole takes random
  refine ⟨a,?_,above,reach,right⟩
  rw [found,Option.bind_some]
  split
  · rename_i same
    rcases ends with inside | last
    · simp only [invalidPhysical] at same
      omega
    · rw [last,same]
  · rfl

/-- The search gives a right outcome for every random number exactly when the first gap in which it
reckons with enough room has that room, up to the highest place in it. -/
theorem search_selects_iff_roomy (rm : Vmaps) (ordered : WellOrdered rm) (region : Range)
    (small : region.stop < addressSpace) (size : Nat) (whole : size % pageSize = 0) (randomize : Bool) :
    (∀ random, Selected rm region size (processGetVirtRangeLocked random randomize rm size region)) ↔
      Roomy rm region randomize size := by
  have cases random := @search_cases rm region size ordered small random randomize
  constructor
  · intro selected gap found
    have lies := searchGaps_lie ordered small gap (List.mem_of_find?_eq_some found)
    refine lies.serves_of_selected ordered (Nat.lt_of_le_of_lt lies.high small) whole (List.find?_some found)
      fun random => ?_
    obtain ⟨a,same,right⟩ := selected random
    rcases cases random with ⟨none,-⟩ | ⟨gap,rest,first,-,-,outcome⟩
    · cases none.symm.trans found
    obtain rfl := Option.some.inj (first.symm.trans found)
    obtain ⟨chosen,drawn,last⟩ := Option.bind_eq_some_iff.mp (outcome.symm.trans same)
    refine ⟨chosen,drawn,?_⟩
    split at last
    · rename_i none
      exact Or.inl none
    · rwa [Option.some.inj last]
  · intro roomy random
    rcases cases random with ⟨-,outcome⟩ | ⟨gap,rest,first,lies,ends,outcome⟩
    · exact ⟨_,outcome,Or.inl rfl⟩
    · obtain ⟨a,found,-,-,right⟩ := (roomy gap first).search lies small whole (List.find?_some first) random ends
      exact ⟨a,outcome.trans found,Or.inr right⟩

theorem search_found {random : Range → UInt64} (ordered : WellOrdered rm) (small : region.stop < addressSpace)
    (whole : size % pageSize = 0) (roomy : Roomy rm region randomize size)
    (found : processGetVirtRangeLocked random randomize rm size region = some a) (known : a ≠ invalidPhysical) :
    ∃ gap, (searchGaps rm region).find? (Gap.takes randomize size) = some gap ∧ gap.start ≤ a ∧
      a + size ≤ gap.reach randomize size ∧ Placed rm region size a := by
  rcases search_cases ordered small random randomize with ⟨-,none⟩ | ⟨gap,rest,first,lies,ends,outcome⟩
  · exact absurd (Option.some.inj (found.symm.trans none)) known
  · obtain ⟨b,chosen,right⟩ := (roomy gap first).search lies small whole (List.find?_some first) random ends
    obtain rfl := Option.some.inj (found.symm.trans (outcome.trans chosen))
    exact ⟨gap,first,right⟩

/-- Four pages at the start of the region, and a stack far above them. -/
def stackedMap : Vmaps :=
  [⟨⟨0x100000000,0x100004000⟩,⟨vmapFlagMmap ||| vmapMmapTypeAnonymous,vmapFlagProtMask,0,none,0,0⟩⟩,
    ⟨⟨0x200000000,0x200020000⟩,⟨vmapFlagMmap ||| vmapFlagStack ||| vmapMmapTypeAnonymous,vmapFlagProtMask,0,none,0,0⟩⟩]

theorem search_selects_below_stack : WellOrdered stackedMap ∧
    ∀ random, Selected stackedMap processVirtualMmapRange pageSize
      (processGetVirtRangeLocked random true stackedMap pageSize processVirtualMmapRange) := by
  have ordered : WellOrdered stackedMap :=
    ⟨List.pairwise_pair.mpr (by decide),by decide,by decide,by decide⟩
  refine ⟨ordered,
    (search_selects_iff_roomy stackedMap ordered processVirtualMmapRange (by decide) pageSize (by decide) true).mpr ?_⟩
  intro gap found
  have first : (searchGaps stackedMap processVirtualMmapRange).find? (Gap.takes true pageSize) =
      some ⟨0x100004000,0x200000000,processStackGuardGap⟩ := by decide +kernel
  rw [first] at found
  obtain rfl := Option.some.inj found
  exact ⟨by decide,fun _ => by decide,by decide,by decide⟩

/-- A stack 64 KiB above the start of the region: less than the guard gap is free below it. -/
def lowStack : Vmap :=
  ⟨⟨0x100010000,0x100030000⟩,⟨vmapFlagMmap ||| vmapFlagStack ||| vmapMmapTypeAnonymous,vmapFlagProtMask,0,none,0,0⟩⟩

theorem search_overlaps_low_stack : WellOrdered [lowStack] ∧ (32 * pageSize) % pageSize = 0 ∧
    ¬ ∀ random, Selected [lowStack] processVirtualMmapRange (32 * pageSize)
      (processGetVirtRangeLocked random false [lowStack] (32 * pageSize) processVirtualMmapRange) := by
  have found : processGetVirtRangeLocked (fun _ => 0) false [lowStack] (32 * pageSize) processVirtualMmapRange =
      some 0x100000000 := by decide +kernel
  refine ⟨⟨List.pairwise_singleton _ _,by decide,by decide,?_⟩,by decide,fun all => ?_⟩
  · intro node member other among different
    obtain rfl := List.mem_singleton.mp member
    obtain rfl := List.mem_singleton.mp among
    exact absurd rfl different
  · obtain ⟨a,same,none | placed⟩ := all fun _ => 0
    · rw [found] at same
      obtain rfl := Option.some.inj same
      exact absurd none (by decide)
    · rw [found] at same
      obtain rfl := Option.some.inj same
      exact placed.clear lowStack (List.mem_singleton.mpr rfl) (by decide)

end Walk

end AuthorityKernel.Memory
