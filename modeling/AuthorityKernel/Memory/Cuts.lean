import AuthorityKernel.Library.Bits
import AuthorityKernel.Memory.Effects

/-! What it does to a map to cut a part out of a node, to cut a range out of the map, and to change
the flags of the part of a node inside a range. -/
namespace AuthorityKernel.Memory

theorem asserted_some {result : MapResult Attributes} {rm : Vmaps} (done : asserted result = some rm) :
    ∃ start, result = .done rm start := by
  cases result with
  | done after start => exact ⟨start,congrArg (MapResult.done · start) (Option.some.inj done)⟩
  | refused | halted => cases done

def Page.recoloured (clearMask setMask : UInt32) (page : Page) : Page :=
  { page with flags := (page.flags &&& ~~~clearMask) ||| setMask }

theorem alterVmapKey_some {source value : Attributes} {flags : UInt32} {delta : Nat}
    (altered : alterVmapKey source flags delta = some value) : value.flags = flags ∧
      value.allowedFlags = source.allowedFlags ∧ value.cacheNode = source.cacheNode ∧
      (source.cacheNode.isSome → value.nodeOffset = (source.nodeOffset + delta) % addressSpace) := by
  have offset : ∀ backed : Bool, backed = true →
      (if backed then (source.nodeOffset + delta) % addressSpace else 0) = (source.nodeOffset + delta) % addressSpace :=
    fun backed yes => by rw [yes]; rfl
  simp only [alterVmapKey] at altered
  generalize tail : hasFlag source.flags vmapFlagTailBss = flagged at altered
  cases flagged with
  | true =>
    rw [if_pos rfl] at altered
    by_cases room : delta < source.fd
    · rw [if_pos room] at altered
      obtain rfl := Option.some.inj altered
      exact ⟨rfl,rfl,rfl,offset _⟩
    · rw [if_neg room] at altered
      cases altered
  | false =>
    rw [if_neg Bool.false_ne_true] at altered
    obtain rfl := Option.some.inj altered
    exact ⟨rfl,rfl,rfl,offset _⟩

theorem pageOf_part {node : Vmap} {part : Range} {value : Attributes}
    (allowed : value.allowedFlags = node.value.allowedFlags) (backing : value.cacheNode = node.value.cacheNode)
    (offset : node.value.cacheNode.isSome →
      value.nodeOffset = (node.value.nodeOffset + (part.start - node.start)) % addressSpace)
    (inside : node.start ≤ part.start) {x : Nat} (holds : part.start ≤ x) :
    pageOf ⟨part,value⟩ x = { pageOf node x with flags := value.flags } := by
  have same : fileOffset ⟨part,value⟩ x = fileOffset node x := by
    have starts : Node.start (⟨part,value⟩ : Vmap) = part.start := rfl
    simp only [fileOffset,backing,starts]
    split
    · rename_i backed
      rw [offset backed,Nat.mod_add_mod]
      congr 1
      omega
    · rfl
  simp only [pageOf,allowed,backing,same]

/-- A piece of a node shows what the node showed, up to the flags. -/
structure Part (node piece : Vmap) : Prop where
  within : piece.r.Within node.r
  proper : piece.r.start < piece.r.stop
  page : ∀ x, piece.r.start ≤ x → pageOf piece x = { pageOf node x with flags := piece.value.flags }

theorem part_altered {node : Vmap} {flags : UInt32} {part : Range} {value : Attributes}
    (altered : alterVmapKey node.value flags (part.start - node.start) = some value) (within : part.Within node.r)
    (proper : part.start < part.stop) : Part node ⟨part,value⟩ ∧ value.flags = flags := by
  obtain ⟨same,allowed,backing,offset⟩ := alterVmapKey_some altered
  exact ⟨⟨within,proper,fun x => pageOf_part allowed backing offset within.1⟩,same⟩

/-- How a node gives way to parts of itself: its record goes or is moved to the part it keeps, and the
pieces are mapped anew, the last one first. -/
inductive Rebuilt (memory : Records) (rm : Vmaps) (node : Vmap) : Option Vmap → List Vmap → Vmaps → Prop
  | removed : Rebuilt memory rm node none [] (rangemapRemoveNode rm node)
  | moved {kept : Vmap} {after : Vmaps} {start : Nat} (part : Part node kept)
    (done : rangemapReinsert rm { node with value := kept.value } kept.r = .done after start) :
    Rebuilt memory rm node (some kept) [] after
  | mapped {piece : Vmap} {kept : Option Vmap} {pieces : List Vmap} {cut after : Vmaps} {start : Nat}
    (part : Part node piece) (rebuilt : Rebuilt memory rm node kept pieces cut)
    (done : allocateVmapLocked memory cut piece = .done after start) : Rebuilt memory rm node kept (piece :: pieces) after

/-- What removing a range leaves of a node that meets it. With a part on both sides of the range the
one behind gets a record of its own. -/
structure Removal (memory : Records) (q : Range) (rm : Vmaps) (node : Vmap) (after : Vmaps) (kept : Option Vmap)
    (pieces : List Vmap) : Prop where
  rebuilt : Rebuilt memory rm node kept pieces after
  each : ∀ piece ∈ pieces ++ kept.toList, piece.r.Apart q ∧ piece.value.flags = node.value.flags
  covers : ∀ x, node.r.Holds x → q.Holds x ∨ ∃ piece ∈ pieces ++ kept.toList, piece.r.Holds x
  same : ∀ part ∈ kept, part.value.fd = node.value.fd ∧ part.value.fault = node.value.fault
  single : ¬ (node.r.start < q.start ∧ q.stop < node.r.stop) → pieces = []

/-- What changing the flags in a range makes of a node that meets it: the same, or its parts. The
number is the end of the node's record afterwards. -/
inductive Recolouring (memory : Records) (q : Range) (clearMask setMask : UInt32) (rm : Vmaps) (node : Vmap)
    (after : Vmaps) (stop : Nat) : Prop where
  | same (already : node.value.flags &&& clearMask = setMask) (shape : after = rm) (ends : stop = node.r.stop)
  | parts (other : node.value.flags &&& clearMask ≠ setMask) {kept : Option Vmap} {pieces : List Vmap}
    (rebuilt : Rebuilt memory rm node kept pieces after)
    (each : ∀ piece ∈ pieces ++ kept.toList,
      (piece.r.Within q ∧ piece.value.flags = (node.value.flags &&& ~~~clearMask) ||| setMask) ∨
        (piece.r.Apart q ∧ piece.value.flags = node.value.flags))
    (covers : ∀ x, node.r.Holds x → ∃ piece ∈ pieces ++ kept.toList, piece.r.Holds x)
    (record : stop = node.r.stop ∨ (∃ front ∈ kept, front.r = ⟨node.r.start,q.start⟩) ∧
      (∀ piece ∈ pieces, node.r.start < piece.r.start) ∧
      (after.find? (fun other => other.start == node.r.start)).map (fun other => other.r.stop) = some stop)

variable {unmap : Bool} {clearMask setMask : UInt32}

section Cutting

variable {memory : Records} {rm cut after : Vmaps} {q part : Range} {node : Vmap} {start : Nat}

theorem intersection_of_met (small : q.stop < addressSpace) (met : rangesIntersect q node.r = true) :
    rangeIntersection q node.r = ⟨max q.start node.r.start,min q.stop node.r.stop⟩ ∧
      max q.start node.r.start < min q.stop node.r.stop := by
  have meet := (rangesIntersect_iff q node.r small).mp met
  exact ⟨rangeIntersection_of_lt q node.r meet,meet⟩

theorem allocateTail_some {origin : Nat} (done : allocateTail memory cut node origin = some after) :
    (node.r.stop ≤ origin ∧ after = cut) ∨ (origin < node.r.stop ∧ ∃ rest start,
      alterVmapKey node.value node.value.flags (origin - node.r.start) = some rest ∧
        allocateVmapLocked memory cut ⟨⟨origin,node.r.stop⟩,rest⟩ = .done after start) := by
  unfold allocateTail at done
  split at done
  · rename_i proper
    obtain ⟨rest,behind,last⟩ := Option.bind_eq_some_iff.mp done
    obtain ⟨key,mapped⟩ := asserted_some last
    exact Or.inr ⟨proper,rest,key,behind,mapped⟩
  · rename_i past
    cases done
    exact Or.inl ⟨Nat.le_of_not_lt past,rfl⟩

theorem trimmed_front {start : Nat} (inside : q.start ≤ node.r.stop) (first : node.r.start < q.start)
    (moved : rangemapReinsert rm node ⟨node.r.start,q.start⟩ = .done cut start) :
    Rebuilt memory rm node (some ⟨⟨node.r.start,q.start⟩,node.value⟩) [] cut :=
  .moved ⟨⟨le_refl _,inside⟩,first,fun _ _ => rfl⟩ moved

theorem removal_of_done (small : q.stop < addressSpace) (met : rangesIntersect q node.r = true)
    (done : vmapRemoveIntersection memory unmap q rm node = some after) :
    ∃ kept pieces, Removal memory q rm node after kept pieces := by
  obtain ⟨shape,meet⟩ := intersection_of_met small met
  simp only [vmapRemoveIntersection,shape] at done
  split at done
  · cases done
  split at done
  · have first : max q.start node.r.start = q.start := by omega
    rw [first] at done
    obtain ⟨cut,trimmed,last⟩ := Option.bind_eq_some_iff.mp done
    obtain ⟨low,moved⟩ := asserted_some trimmed
    have before := @trimmed_front memory rm cut q node low (by omega) (by omega) moved
    rcases allocateTail_some last with ⟨past,rfl⟩ | ⟨left,rest,high,behind,mapped⟩
    · refine ⟨_,_,before,by simp [Range.Apart],fun x holds => ?_,by simp,fun _ => rfl⟩
      simp [Range.holds_iff] at holds ⊢
      omega
    have ends : min q.stop node.r.stop = q.stop := by omega
    rw [ends] at behind mapped
    obtain ⟨part,flags⟩ := @part_altered node _ ⟨q.stop,node.r.stop⟩ rest behind ⟨by dsimp only; omega,le_refl _⟩
      (by dsimp only; omega)
    refine ⟨_,_,.mapped part before mapped,by simp [Range.Apart,flags],fun x holds => ?_,by simp,fun no => ?_⟩
    · simp [Range.holds_iff] at holds ⊢
      omega
    · omega
  · split at done
    · have ends : min q.stop node.r.stop = q.stop := by omega
      rw [ends] at done
      obtain ⟨high,moved⟩ := asserted_some done
      have inside : node.r.start ≤ q.stop := by omega
      have back : Part node ⟨⟨q.stop,node.r.stop⟩,shiftedBy node.value (q.stop - node.r.start)⟩ :=
        ⟨⟨inside,le_refl _⟩,by dsimp only; omega,fun x =>
          @pageOf_part node ⟨q.stop,node.r.stop⟩ (shiftedBy node.value (q.stop - node.r.start)) rfl rfl (fun _ => rfl) inside x⟩
      refine ⟨_,_,.moved back moved,by simp [Range.Apart,shiftedBy],fun x holds => ?_,by simp [shiftedBy],fun _ => rfl⟩
      simp [Range.holds_iff] at holds ⊢
      omega
    · cases done
      refine ⟨_,_,.removed,by simp,fun x holds => Or.inl ?_,by simp,fun _ => rfl⟩
      simp only [Range.holds_iff] at holds ⊢
      omega

theorem recolouring_of_done {stop : Nat} (small : q.stop < addressSpace) (met : rangesIntersect q node.r = true)
    (done : vmapUpdateFlagsIntersection memory q clearMask setMask rm node = some (after,stop)) :
    Recolouring memory q clearMask setMask rm node after stop := by
  obtain ⟨shape,meet⟩ := intersection_of_met small met
  simp only [vmapUpdateFlagsIntersection,shape] at done
  split at done
  · rename_i already
    cases done
    exact .same (by simpa using already) rfl rfl
  rename_i other
  have other : node.value.flags &&& clearMask ≠ setMask := by simpa using other
  split at done
  · have first : max q.start node.r.start = q.start := by omega
    simp only [Option.bind_eq_bind,Option.bind_eq_some_iff,first] at done
    obtain ⟨cut,trimmed,value,altered,changed,recoloured,whole,tailed,record,found,result⟩ := done
    cases result
    obtain ⟨low,moved⟩ := asserted_some trimmed
    obtain ⟨mid,mapped⟩ := asserted_some recoloured
    have before := @trimmed_front memory rm cut q node low (by omega) (by omega) moved
    have recorded : (after.find? (fun other => other.start == node.r.start)).map (fun other => other.r.stop) =
        some record.r.stop := by rw [found]; rfl
    obtain ⟨part,flags⟩ := @part_altered node _ ⟨q.start,min q.stop node.r.stop⟩ value altered
      ⟨by dsimp only; omega,by dsimp only; omega⟩ (by dsimp only; omega)
    have painted := Rebuilt.mapped part before mapped
    rcases allocateTail_some tailed with ⟨past,rfl⟩ | ⟨left,rest,high,behind,restored⟩
    · refine .parts other painted ?_ (fun x holds => ?_) (Or.inr ⟨by simp,by simp; omega,recorded⟩)
      · rw [List.singleton_append,List.forall_mem_cons,Option.toList_some,List.forall_mem_singleton]
        exact ⟨.inl ⟨⟨Nat.le_refl _,Nat.min_le_left _ _⟩,flags⟩,.inr ⟨.inl (Nat.le_refl _),rfl⟩⟩
      · simp [Range.holds_iff] at holds ⊢
        omega
    have ends : min q.stop node.r.stop = q.stop := by omega
    rw [ends] at behind restored
    obtain ⟨last,same⟩ := @part_altered node _ ⟨q.stop,node.r.stop⟩ rest behind ⟨by dsimp only; omega,le_refl _⟩
      (by dsimp only; omega)
    refine .parts other (.mapped last painted restored) ?_ (fun x holds => ?_)
      (Or.inr ⟨by simp,by simp; omega,recorded⟩)
    · simp [Range.Apart,Range.Within,flags,same,ends]
    · simp [Range.holds_iff] at holds ⊢
      omega
  · have first : max q.start node.r.start = node.r.start := by omega
    split at done
    · have ends : min q.stop node.r.stop = q.stop := by omega
      simp only [Option.bind_eq_bind,Option.bind_eq_some_iff,first,ends] at done
      obtain ⟨value,altered,rest,behind,cut,trimmed,changed,recoloured,result⟩ := done
      cases result
      obtain ⟨high,moved⟩ := asserted_some trimmed
      obtain ⟨low,mapped⟩ := asserted_some recoloured
      obtain ⟨back,same⟩ := @part_altered node _ ⟨q.stop,node.r.stop⟩ rest behind ⟨by dsimp only; omega,le_refl _⟩
        (by dsimp only; omega)
      obtain ⟨front,flags⟩ := @part_altered node _ ⟨node.r.start,q.stop⟩ value altered ⟨le_refl _,by dsimp only; omega⟩
        (by dsimp only; omega)
      refine .parts other (.mapped front (.moved back moved) mapped) ?_ (fun x holds => ?_) (Or.inl rfl)
      · simp [Range.Apart,Range.Within,flags,same]
        omega
      · simp [Range.holds_iff] at holds ⊢
        omega
    · simp only [Option.bind_eq_bind,Option.bind_eq_some_iff] at done
      obtain ⟨changed,recoloured,result⟩ := done
      cases result
      obtain ⟨low,mapped⟩ := asserted_some recoloured
      have all : Part node { node with value.flags := (node.value.flags &&& ~~~clearMask) ||| setMask } :=
        ⟨⟨le_refl _,le_refl _⟩,by dsimp only; omega,fun _ _ => rfl⟩
      refine .parts other (.mapped all .removed mapped) ?_ (fun x holds => ⟨_,List.mem_cons_self,holds⟩) (Or.inl rfl)
      simp [Range.Within]
      omega

end Cutting

structure Became (rm after : Vmaps) (touched : Range → Prop) (shows : Nat → Option Page) : Prop where
  ordered : WellOrdered after
  grown : ∀ node ∈ after, node ∈ rm ∨ node.r.start < node.r.stop
  kept : ∀ node ∈ rm, touched node.r ∨ node ∈ after
  shown : ∀ x, pageAt after x = shows x

section Turning

variable {memory : Records} {rm cut after : Vmaps} {q part : Range} {node : Vmap} {start : Nat}
  {touched : Range → Prop} {shows : Nat → Option Page}

theorem Became.free (became : Became rm after touched shows) (free : Free rm q) : Free after q := by
  intro other member empty
  rcases became.grown other member with old | proper
  · exact free other old empty
  · exact absurd empty (Nat.ne_of_lt proper)

theorem Became.congr {others : Nat → Option Page} (became : Became rm after touched shows)
    (same : ∀ x, shows x = others x) : Became rm after touched others :=
  ⟨became.ordered,became.grown,became.kept,fun x => (became.shown x).trans (same x)⟩

theorem free_within (ordered : WellOrdered rm) (member : node ∈ rm) (within : part.Within node.r) : Free rm part := by
  rintro other among empty ⟨after,before⟩
  obtain ⟨first,second⟩ := within
  have starts : other.start = other.r.start := rfl
  have different : other.start ≠ node.start := by
    show other.r.start ≠ node.r.start
    omega
  rcases ordered.apart other among node member different with left | right
  · omega
  · omega

theorem became_allocate {k : Vmap} (ordered : WellOrdered rm) (proper : k.r.start < k.r.stop)
    (small : k.r.stop < addressSpace) (free : Free rm k.r) (done : allocateVmapLocked memory rm k = .done after start) :
    Became rm after (·.Near k.r) (fun x => if k.r.Holds x then some (pageOf k x) else pageAt rm x) := by
  obtain ⟨drops,new,allocated⟩ := allocated_of_done ordered proper small free done
  refine ⟨allocated.ordered ordered proper small,fun other member => ?_,fun other member => ?_,
    allocated.pageAt ordered proper small⟩
  · rw [allocated.shape] at member
    rcases mem_swap.mp member with rfl | old
    · exact Or.inr (allocated.merge.bounds ordered proper small).1
    · exact Or.inl old.1
  · by_cases gone : other.start ∈ drops
    · exact Or.inl (allocated.merge.dropped ordered proper member gone).1
    · rw [allocated.shape]
      exact Or.inr (mem_swap.mpr (Or.inr ⟨member,gone⟩))

theorem near_or_kept {drop : Vmap} (ordered : WellOrdered rm) (member : node ∈ rm) {other : Vmap}
    (among : other ∈ rm) (same : drop.start = node.start) :
    other.r.Near node.r ∨ (other ∈ rm ∧ other.start ∉ [drop.start]) := by
  by_cases gone : other.start = node.start
  · obtain rfl := Ordered.Sorted.unique ordered.sorted among member gone
    have valid := ordered.valid other among
    exact Or.inl ⟨valid,valid⟩
  · exact Or.inr ⟨among,by simpa [same] using gone⟩

theorem became_shrink {value : Attributes} (ordered : WellOrdered rm) (member : node ∈ rm) (within : part.Within node.r)
    (proper : part.start < part.stop) (done : rangemapReinsert rm { node with value } part = .done after start) :
    Became rm after (·.Near node.r) (fun x => if part.Holds x then some (pageOf ⟨part,value⟩ x)
      else if node.r.Holds x then none else pageAt rm x) := by
  obtain ⟨-,fresh,shape,-⟩ := reinsert_done done
  have shape : after = swap rm [node.start] ⟨part,value⟩ := shape
  have ended := ordered.small node member
  have orderedAfter : WellOrdered after := by
    rw [shape]
    refine ordered_swap ordered (Nat.le_of_lt proper) (Nat.lt_of_le_of_lt within.2 ended) ?_
    intro other among kept
    have different : other.start ≠ node.start := by simpa using kept
    exact ⟨fresh other among different,(ordered.apart other among node member different).within within⟩
  subst shape
  refine ⟨orderedAfter,fun other kept => ?_,fun other among => ?_,pageAt_swap ordered member orderedAfter⟩
  · rcases mem_swap.mp kept with rfl | old
    · exact Or.inr proper
    · exact Or.inl old.1
  · rcases near_or_kept ordered member among rfl with near | stays
    · exact Or.inl near
    · exact Or.inr (mem_swap.mpr (Or.inr stays))

variable {close : Range → Prop}

theorem Became.trans {others : Nat → Option Page} (first : Became rm cut touched shows)
    (second : Became cut after close others) : Became rm after (fun r => touched r ∨ close r) others := by
  refine ⟨second.ordered,fun other kept => ?_,fun other among => ?_,second.shown⟩
  · rcases second.grown other kept with old | wide
    · exact first.grown other old
    · exact Or.inr wide
  · rcases first.kept other among with near | still
    · exact Or.inl (Or.inl near)
    · exact (second.kept other still).imp Or.inr id

theorem Became.imp (became : Became rm after touched shows) (implies : ∀ r, touched r → close r) :
    Became rm after close shows :=
  ⟨became.ordered,became.grown,fun other among => (became.kept other among).imp (implies _) id,became.shown⟩

def shownBy (pieces : List Vmap) (rest : Option Page) (x : Nat) : Option Page :=
  pieces.foldr (fun piece rest => if piece.r.Holds x then some (pageOf piece x) else rest) rest

theorem shownBy_cases (pieces : List Vmap) (rest : Option Page) (x : Nat) :
    (∃ piece ∈ pieces, piece.r.Holds x ∧ shownBy pieces rest x = some (pageOf piece x)) ∨
      ((∀ piece ∈ pieces, ¬ piece.r.Holds x) ∧ shownBy pieces rest x = rest) := by
  induction pieces with
  | nil => exact Or.inr ⟨nofun,rfl⟩
  | cons piece pieces ih =>
    by_cases holds : piece.r.Holds x
    · exact Or.inl ⟨piece,List.mem_cons_self,holds,if_pos holds⟩
    have later : shownBy (piece :: pieces) rest x = shownBy pieces rest x := if_neg holds
    rw [later]
    rcases ih with ⟨other,member,found⟩ | ⟨none,same⟩
    · exact Or.inl ⟨other,List.mem_cons_of_mem _ member,found⟩
    · exact Or.inr ⟨List.forall_mem_cons.mpr ⟨holds,none⟩,same⟩

variable {kept : Option Vmap} {pieces : List Vmap}

theorem Rebuilt.parts (rebuilt : Rebuilt memory rm node kept pieces after) :
    ∀ piece ∈ pieces ++ kept.toList, Part node piece := by
  induction rebuilt with
  | removed => exact nofun
  | moved part done => simpa using part
  | mapped part rebuilt done ih => exact List.forall_mem_cons.mpr ⟨part,ih⟩

theorem Rebuilt.became (rebuilt : Rebuilt memory rm node kept pieces after) (ordered : WellOrdered rm)
    (member : node ∈ rm) : Became rm after (·.Near node.r)
      (fun x => shownBy (pieces ++ kept.toList) (if node.r.Holds x then none else pageAt rm x) x) := by
  induction rebuilt with
  | removed =>
    refine ⟨ordered_remove ordered node,fun other kept => Or.inl (mem_remove.mp kept).1,fun other among => ?_,
      pageAt_remove ordered member⟩
    rcases near_or_kept ordered member among rfl with near | stays
    · exact Or.inl near
    · exact Or.inr (mem_remove.mpr ⟨stays.1,by simpa using stays.2⟩)
  | moved part done => exact became_shrink ordered member part.within part.proper done
  | mapped part rebuilt done ih =>
    have small := Nat.lt_of_le_of_lt part.within.2 (ordered.small node member)
    have next := became_allocate ih.ordered part.proper small (ih.free (free_within ordered member part.within)) done
    refine ((ih.trans next).imp fun r either => either.elim id (·.within part.within)).congr fun x => ?_
    rw [ih.shown x]
    rfl

theorem Removal.became (ordered : WellOrdered rm) (member : node ∈ rm)
    (removal : Removal memory q rm node after kept pieces) :
    Became rm after (·.Near node.r) (fun x => if q.Holds x ∧ node.r.Holds x then none else pageAt rm x) := by
  refine (removal.rebuilt.became ordered member).congr fun x => ?_
  rcases shownBy_cases (pieces ++ kept.toList) (if node.r.Holds x then none else pageAt rm x) x with
    ⟨piece,among,holds,shown⟩ | ⟨none,shown⟩
  · have part := removal.rebuilt.parts piece among
    obtain ⟨apart,flags⟩ := removal.each piece among
    have inside : node.r.Holds x := part.within.holds holds
    rw [shown,if_neg (fun both => apart.not_holds holds both.1),pageAt_of_mem ordered member inside,part.page x holds.1,
      flags]
    rfl
  rw [shown]
  by_cases holds : node.r.Holds x
  · rcases removal.covers x holds with inside | ⟨piece,among,also⟩
    · rw [if_pos holds,if_pos ⟨inside,holds⟩]
    · exact absurd also (none piece among)
  · rw [if_neg holds,if_neg (fun both => holds both.2)]

theorem Rebuilt.others (rebuilt : Rebuilt memory rm node kept [] after) {other : Vmap} (among : other ∈ rm)
    (different : other.start ≠ node.start) : other ∈ after := by
  cases rebuilt with
  | removed => exact mem_remove.mpr ⟨among,different⟩
  | moved part done =>
    rw [(reinsert_done done).2.2.1]
    exact mem_swap.mpr (Or.inr ⟨among,List.mem_singleton.not.mpr different⟩)

theorem foreachOfRange_sorted (ordered : WellOrdered rm) (q : Range) :
    Ordered.Sorted Node.start (foreachOfRange rm q) :=
  List.Pairwise.sublist ((List.takeWhile_sublist _).trans (List.dropWhile_sublist _)) (walk_sorted ordered q.start)

variable {P : List Vmap → Vmaps → Prop}

theorem removeAll_rule (small : q.stop < addressSpace) (nodes visited : List Vmap)
    (step : ∀ visited current node after kept pieces, WellOrdered current → node ∈ nodes → node ∈ current →
      P visited current → Removal memory q current node after kept pieces → P (visited ++ [node]) after)
    (rm : Vmaps) (ordered : WellOrdered rm) (sorted : Ordered.Sorted Node.start nodes) (present : ∀ node ∈ nodes, node ∈ rm)
    (met : ∀ node ∈ nodes, rangesIntersect q node.r = true) (start : P visited rm)
    (done : nodes.foldlM (vmapRemoveIntersection memory unmap q) rm = some after) : P (visited ++ nodes) after := by
  induction nodes generalizing rm visited with
  | nil =>
    cases done
    rwa [List.append_nil]
  | cons node rest ih =>
    rw [List.foldlM_cons] at done
    obtain ⟨cut,first,last⟩ := Option.bind_eq_some_iff.mp done
    have member := present node List.mem_cons_self
    have meets := met node List.mem_cons_self
    obtain ⟨kept,pieces,removal⟩ := removal_of_done small meets first
    have later := List.pairwise_cons.mp sorted
    rw [List.append_cons]
    refine ih _ (fun visited current other after kept pieces ordered among =>
        step visited current other after kept pieces ordered (List.mem_cons_of_mem _ among))
      cut (removal.became ordered member).ordered later.2 (fun other among => ?_)
      (fun other among => met other (List.mem_cons_of_mem _ among))
      (step visited rm node cut kept pieces ordered List.mem_cons_self member start removal) last
    -- a node still to be cut starts inside the range, so this one ends inside it
    have old := present other (List.mem_cons_of_mem _ among)
    have starts := (rangesIntersect_iff q other.r small).mp (met other (List.mem_cons_of_mem _ among))
    have ends : node.r.stop ≤ other.r.start := ordered.stop_le old member (later.1 other among)
    obtain rfl := removal.single (by omega)
    exact removal.rebuilt.others old (Nat.ne_of_gt (later.1 other among))

theorem removeRange_rule (ordered : WellOrdered rm) (small : q.stop < addressSpace)
    (step : ∀ visited current node after kept pieces, WellOrdered current → node ∈ rm → node ∈ current →
      P visited current → Removal memory q current node after kept pieces → P (visited ++ [node]) after)
    (start : P [] rm) (done : processRemoveRangeLocked memory unmap q rm = some after) : P (foreachOfRange rm q) after :=
  removeAll_rule small _ []
    (fun visited current node after kept pieces ordered' among =>
      step visited current node after kept pieces ordered' (mem_foreachOfRange ordered among).1)
    rm ordered (foreachOfRange_sorted ordered q) (fun _ among => (mem_foreachOfRange ordered among).1)
    (fun _ among => (mem_foreachOfRange ordered among).2) start done

theorem removeRange_became (ordered : WellOrdered rm) (small : q.stop < addressSpace)
    (done : processRemoveRangeLocked memory unmap q rm = some after) :
    Became rm after (fun r => ∃ node ∈ foreachOfRange rm q, r.Near node.r)
      (fun x => if q.Holds x ∧ (foreachOfRange rm q).any (fun node => node.r.Holds x) then none else pageAt rm x) := by
  refine removeRange_rule (P := fun visited current => Became rm current (fun r => ∃ node ∈ visited, r.Near node.r)
    (fun x => if q.Holds x ∧ visited.any (fun node => node.r.Holds x) then none else pageAt rm x)) ordered small ?_ ?_ done
  · intro visited current node after kept pieces stays _ member became removal
    refine ((became.trans (removal.became stays member)).imp ?_).congr fun x => ?_
    · rintro r (⟨other,among,near⟩ | near)
      · exact ⟨other,List.mem_append_left _ among,near⟩
      · exact ⟨node,by simp,near⟩
    · rw [became.shown x]
      by_cases within : q.Holds x
      · by_cases here : node.r.Holds x <;> simp [within,here]
      · simp [within]
  · refine ⟨ordered,fun _ member => Or.inl member,fun _ member => Or.inr member,fun x => ?_⟩
    rw [List.any_nil,if_neg (fun both => Bool.false_ne_true both.2)]

def recolouredIn (rm : Vmaps) (clearMask setMask : UInt32) (changed : Nat → Prop) [DecidablePred changed] (x : Nat) :
    Option Page :=
  if changed x then (pageAt rm x).map (Page.recoloured clearMask setMask) else pageAt rm x

theorem recoloured_of_set {page : Page} (done : page.flags &&& clearMask = setMask) :
    page.recoloured clearMask setMask = page := by
  rw [Page.recoloured,← done,Library.Bits.masked_own]

theorem recoloured_again (page : Page) (clearMask setMask : UInt32) :
    (page.recoloured clearMask setMask).recoloured clearMask setMask = page.recoloured clearMask setMask := by
  simp only [Page.recoloured,Library.Bits.masked_again]

theorem Recolouring.became {stop : Nat} (ordered : WellOrdered rm) (member : node ∈ rm)
    (recolouring : Recolouring memory q clearMask setMask rm node after stop) :
    Became rm after (·.Near node.r) (recolouredIn rm clearMask setMask (fun x => q.Holds x ∧ node.r.Holds x)) := by
  unfold recolouredIn
  cases recolouring with
  | same already shape ends =>
    subst shape
    refine ⟨ordered,fun _ old => Or.inl old,fun _ old => Or.inr old,fun x => ?_⟩
    split
    · rename_i both
      have word : (pageOf node x).flags &&& clearMask = setMask := already
      rw [pageAt_of_mem ordered member both.2,Option.map_some,recoloured_of_set word]
    · rfl
  | @parts other kept pieces rebuilt each covers record =>
    refine (rebuilt.became ordered member).congr fun x => ?_
    rcases shownBy_cases (pieces ++ kept.toList) (if node.r.Holds x then none else pageAt rm x) x with
      ⟨piece,among,holds,shown⟩ | ⟨none,shown⟩
    · have part := rebuilt.parts piece among
      have inside : node.r.Holds x := part.within.holds holds
      rw [shown,pageAt_of_mem ordered member inside,part.page x holds.1]
      rcases each piece among with ⟨within,flags⟩ | ⟨apart,flags⟩
      · rw [if_pos ⟨within.holds holds,inside⟩,flags]
        rfl
      · rw [if_neg (fun both => apart.not_holds holds both.1),flags]
        rfl
    · have misses : ¬ node.r.Holds x := by
        intro holds
        obtain ⟨piece,among,also⟩ := covers x holds
        exact none piece among also
      rw [shown,if_neg misses,if_neg (fun both => misses both.2)]

end Turning

end AuthorityKernel.Memory
