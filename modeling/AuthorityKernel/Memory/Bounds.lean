import AuthorityKernel.Memory.Updates

/-! What the operations on mapped ranges keep, as long as each range they are given lies away from
every node outside user space: every node that is not an old one is a non-empty range of user
space. This is read off what the map shows: a new node covers only addresses that were mapped
inside user space or are mapped now. -/
namespace AuthorityKernel.Memory

variable {low : Nat}

def InBounds (low : Nat) (r : Range) : Prop := low ≤ r.start ∧ r.start ≤ r.stop ∧ r.stop ≤ userLimit

def InUser (low : Nat) (r : Range) : Prop := low ≤ r.start ∧ r.start < r.stop ∧ r.stop ≤ userLimit

instance (low : Nat) (r : Range) : Decidable (InBounds low r) := inferInstanceAs (Decidable (_ ∧ _ ∧ _))
instance (low : Nat) (r : Range) : Decidable (InUser low r) := inferInstanceAs (Decidable (_ ∧ _ ∧ _))

/-- No node that reaches out of user space meets or borders the range. -/
def Far (low : Nat) (rm : Vmaps) (q : Range) : Prop := ∀ node ∈ rm, ¬ InBounds low node.r → ¬ node.r.Near q

/-- The range of every node is one of the first map or a non-empty range of user space. -/
def Keeps (low : Nat) (before after : Vmaps) : Prop :=
  ∀ node ∈ after, (∃ old ∈ before, old.r = node.r) ∨ InUser low node.r

/-- The nodes are in order and apart, and a node that reaches out of user space borders none inside. -/
structure Sound (low : Nat) (rm : Vmaps) : Prop extends WellOrdered rm where
  isolated : ∀ node ∈ rm, InBounds low node.r → Far low rm node.r

variable {x : Nat} {r : Range} {new : Range → Prop} {clearMask setMask : UInt32} {node : Vmap}

theorem InUser.inBounds (user : InUser low r) : InBounds low r := ⟨user.1,Nat.le_of_lt user.2.1,user.2.2⟩

theorem InUser.small (user : InUser low r) : r.stop < addressSpace :=
  Nat.lt_of_le_of_lt user.2.2 (by decide)

theorem Keeps.refl (rm : Vmaps) : Keeps low rm rm := fun node member => Or.inl ⟨node,member,rfl⟩

theorem Keeps.trans {first second third : Vmaps} (early : Keeps low first second) (late : Keeps low second third) :
    Keeps low first third := by
  intro node member
  rcases late node member with ⟨old,kept,same⟩ | user
  · rw [← same]
    exact early old kept
  · exact Or.inr user

theorem Far.keeps {before after : Vmaps} {q : Range} (far : Far low before q) (keeps : Keeps low before after) :
    Far low after q := by
  intro node member outside
  rcases keeps node member with ⟨old,kept,same⟩ | user
  · rw [← same] at outside ⊢
    exact far old kept outside
  · exact absurd user.inBounds outside

theorem Far.within {rm : Vmaps} {q part : Range} (far : Far low rm q) (inside : part.Within q) : Far low rm part :=
  fun node member outside near => far node member outside (near.within inside)

theorem Far.inBounds {rm : Vmaps} {q : Range} (far : Far low rm q) (member : node ∈ rm) (near : node.r.Near q) :
    InBounds low node.r := by
  by_contra outside
  exact far node member outside near

section Turning

variable {rm after : Vmaps} {touched : Range → Prop} {shows : Nat → Option Page}

theorem covered (became : Became rm after touched shows)
    (spared : ∀ node ∈ rm, ¬ InBounds low node.r → ¬ touched node.r)
    (source : ∀ x page, shows x = some page → (∃ node ∈ rm, node.r.Holds x) ∨ ∃ u, new u ∧ u.Holds x)
    (member : node ∈ after) (fresh : node ∉ rm) (holds : node.r.Holds x) :
    ∃ r, r.Holds x ∧ ((∃ old ∈ rm, old.r = r ∧ InBounds low r) ∨ new r) := by
  have shown := became.shown x
  rw [pageAt_of_mem became.ordered member holds] at shown
  rcases source x _ shown.symm with ⟨old,among,also⟩ | ⟨u,isNew,inside⟩
  · refine ⟨old.r,also,Or.inl ⟨old,among,rfl,?_⟩⟩
    by_contra outside
    have stays := (became.kept old among).resolve_left (spared old among outside)
    exact fresh (became.ordered.same_node member stays holds also ▸ among)
  · exact ⟨u,inside,Or.inr isNew⟩

theorem Became.sound (sound : Sound low rm) (became : Became rm after touched shows)
    (spared : ∀ node ∈ rm, ¬ InBounds low node.r → ¬ touched node.r)
    (source : ∀ x page, shows x = some page → (∃ node ∈ rm, node.r.Holds x) ∨ ∃ u, new u ∧ u.Holds x)
    (user : ∀ u, new u → InUser low u ∧ Far low rm u) : Sound low after ∧ Keeps low rm after := by
  -- every address of a new node lies in a range of user space that no node outside borders
  have inside : ∀ node ∈ after, node ∉ rm → ∀ x, node.r.Holds x →
      ∃ r : Range, r.Holds x ∧ InBounds low r ∧ Far low rm r := by
    intro node member fresh x holds
    obtain ⟨r,also,⟨old,among,rfl,bounds⟩ | isNew⟩ := covered became spared source member fresh holds
    · exact ⟨old.r,also,bounds,sound.isolated old among bounds⟩
    · exact ⟨r,also,(user r isNew).1.inBounds,(user r isNew).2⟩
  have users : ∀ node ∈ after, node ∈ rm ∨ InUser low node.r := by
    intro node member
    by_cases old : node ∈ rm
    · exact Or.inl old
    have wide := (became.grown node member).resolve_left old
    obtain ⟨first,holds,bounds,-⟩ := inside node member old node.r.start ⟨le_refl _,wide⟩
    obtain ⟨last,also,limits,-⟩ := inside node member old (node.r.stop - 1) ⟨by omega,by omega⟩
    have low : first.start ≤ node.r.start := holds.1
    have high : node.r.stop - 1 < last.stop := also.2
    exact Or.inr ⟨bounds.1.trans low,wide,by have := limits.2.2; omega⟩
  refine ⟨⟨became.ordered,fun node member bounds other among outside near => ?_⟩,fun node member => ?_⟩
  · have kept : other ∈ rm := (users other among).resolve_right fun user => outside user.inBounds
    by_cases old : node ∈ rm
    · exact sound.isolated node old bounds other kept outside near
    have wide := (became.grown node member).resolve_left old
    have different : other.start ≠ node.start := by
      intro same
      obtain rfl := Ordered.Sorted.unique became.ordered.sorted among member same
      exact old kept
    have valid := became.ordered.valid other among
    obtain ⟨touches,reaches⟩ := near
    rcases became.ordered.apart other among node member different with before | behind
    · obtain ⟨r,⟨first,last⟩,-,far⟩ := inside node member old node.r.start ⟨le_refl _,wide⟩
      exact far other kept outside ⟨by omega,by omega⟩
    · obtain ⟨r,⟨first,last⟩,-,far⟩ := inside node member old (node.r.stop - 1) ⟨by omega,by omega⟩
      exact far other kept outside ⟨by omega,by omega⟩
  · rcases users node member with old | user
    · exact Or.inl ⟨node,old,rfl⟩
    · exact Or.inr user

end Turning

section Operations

variable {memory : Records} {rm after : Vmaps} {q : Range}

theorem mapped_of_page {page : Page} (ordered : WellOrdered rm) (shown : pageAt rm x = some page) :
    ∃ node ∈ rm, node.r.Holds x := by
  obtain ⟨node,member,holds,-⟩ := (pageAt_eq_some ordered x page).mp shown
  exact ⟨node,member,holds⟩

theorem sound_allocate {k : Vmap} {start : Nat} (sound : Sound low rm) (user : InUser low k.r) (far : Far low rm k.r)
    (free : Free rm k.r) (done : allocateVmapLocked memory rm k = .done after start) :
    Sound low after ∧ Keeps low rm after := by
  have became := became_allocate sound.toWellOrdered user.2.1 user.small free done
  refine became.sound sound far (fun x page shown => ?_) (fun u (same : u = k.r) => same ▸ ⟨user,far⟩)
  split at shown
  · rename_i holds
    exact Or.inr ⟨k.r,rfl,holds⟩
  · exact Or.inl (mapped_of_page sound.toWellOrdered shown)

theorem sound_removeRange {unmap : Bool} (sound : Sound low rm) (small : q.stop < addressSpace) (far : Far low rm q)
    (done : processRemoveRangeLocked memory unmap q rm = some after) : Sound low after ∧ Keeps low rm after := by
  have became := removeRange_became sound.toWellOrdered small done
  refine became.sound sound ?_ (fun x page shown => ?_) (fun u (no : False) => no.elim)
  · rintro node member outside ⟨other,visited,near⟩
    obtain ⟨among,met⟩ := mem_foreachOfRange sound.toWellOrdered visited
    have meet := (rangesIntersect_iff q other.r small).mp met
    have bounds := far.inBounds among ⟨by omega,by omega⟩
    exact sound.isolated other among bounds node member outside near
  · split at shown
    · cases shown
    · exact Or.inl (mapped_of_page sound.toWellOrdered shown)

theorem sound_recolouring {stop : Nat} (sound : Sound low rm) (member : node ∈ rm) (bounds : InBounds low node.r)
    (recolouring : Recolouring memory q clearMask setMask rm node after stop) :
    Sound low after ∧ Keeps low rm after := by
  have became := recolouring.became sound.toWellOrdered member
  refine became.sound sound (sound.isolated node member bounds) (fun x page shown => ?_) (fun u (no : False) => no.elim)
  unfold recolouredIn at shown
  split at shown
  · obtain ⟨old,here,-⟩ := Option.map_eq_some_iff.mp shown
    exact Or.inl (mapped_of_page sound.toWellOrdered here)
  · exact Or.inl (mapped_of_page sound.toWellOrdered shown)

theorem sound_updateFlagsLoop {cut : Range → Range} {turns : Nat} (sound : Sound low rm) (far : Far low rm q)
    (valid : q.start ≤ q.stop) (small : q.stop < addressSpace) (narrows : Narrows cut q)
    (done : updateFlagsLoop memory cut clearMask setMask turns q rm = some after) :
    Sound low after ∧ Keeps low rm after := by
  obtain ⟨_,_,_,_,result⟩ := @updateFlagsLoop_rule memory cut clearMask setMask q
    (fun r current => r.start ≤ r.stop ∧ Sound low current ∧ Keeps low rm current) small narrows
    (fun r current vm next stop _ ends starts ⟨valid,sounder,keeps⟩ member holds meet recolouring => by
      have bounds := (far.keeps keeps).inBounds member ⟨by have := holds.1; omega,by have := holds.2; omega⟩
      obtain ⟨stays,kept⟩ := sound_recolouring sounder member bounds recolouring
      exact ⟨Nat.min_le_left _ _,stays,keeps.trans kept⟩)
    turns q rm after sound.toWellOrdered rfl (le_refl _) valid ⟨valid,sound,Keeps.refl rm⟩ done
  exact result

end Operations

end AuthorityKernel.Memory
