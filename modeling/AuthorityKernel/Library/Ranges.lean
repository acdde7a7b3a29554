import Mathlib.Data.List.Perm.Basic
import Mathlib.Data.List.TakeWhile

/-! Half-open ranges, and tables kept in the order of a key. A table answers which entry has
the largest key up to a point and which has the smallest key after it. -/
namespace AuthorityKernel

structure Range where
  start : Nat
  stop : Nat
deriving DecidableEq, Repr

namespace Range

def Apart (a b : Range) : Prop := a.stop ≤ b.start ∨ b.stop ≤ a.start

def Near (a b : Range) : Prop := a.start ≤ b.stop ∧ b.start ≤ a.stop

def Holds (r : Range) (x : Nat) : Prop := r.start ≤ x ∧ x < r.stop

def Within (a b : Range) : Prop := b.start ≤ a.start ∧ a.stop ≤ b.stop

instance (a b : Range) : Decidable (a.Apart b) := inferInstanceAs (Decidable (_ ∨ _))
instance (a b : Range) : Decidable (a.Near b) := inferInstanceAs (Decidable (_ ∧ _))
instance (r : Range) (x : Nat) : Decidable (r.Holds x) := inferInstanceAs (Decidable (_ ∧ _))

variable {x : Nat}

theorem holds_iff {r : Range} : r.Holds x ↔ r.start ≤ x ∧ x < r.stop := Iff.rfl

variable {a b : Range}

theorem Apart.symm (apart : a.Apart b) : b.Apart a := Or.symm apart

theorem Apart.not_holds (apart : a.Apart b) (inside : a.Holds x) : ¬ b.Holds x := by
  rintro ⟨first,second⟩
  obtain ⟨low,high⟩ := inside
  rcases apart with before | after
  · omega
  · omega

theorem Apart.within {part : Range} (apart : a.Apart b) (inside : part.Within b) : a.Apart part := by
  obtain ⟨low,high⟩ := inside
  rcases apart with before | after
  · exact Or.inl (by omega)
  · exact Or.inr (by omega)

theorem Within.holds (inside : a.Within b) (holds : a.Holds x) : b.Holds x :=
  ⟨inside.1.trans holds.1,Nat.lt_of_lt_of_le holds.2 inside.2⟩

theorem Near.within {part : Range} (near : a.Near part) (inside : part.Within b) : a.Near b := by
  obtain ⟨low,high⟩ := inside
  obtain ⟨first,second⟩ := near
  exact ⟨by omega,by omega⟩

end Range

namespace Ordered

variable {α : Type*} (key : α → Nat)

def Sorted (table : List α) : Prop := table.Pairwise (fun a b => key a < key b)

variable {table : List α}

theorem Sorted.unique {key : α → Nat} (sorted : Sorted key table) {a b : α} (first : a ∈ table)
    (second : b ∈ table) (same : key a = key b) : a = b := by
  induction table with
  | nil => exact absurd first List.not_mem_nil
  | cons entry rest ih =>
    have ordered := List.pairwise_cons.mp sorted
    rcases List.mem_cons.mp first with rfl | later
    · rcases List.mem_cons.mp second with rfl | after
      · rfl
      · exact absurd same (Nat.ne_of_lt (ordered.1 b after))
    · rcases List.mem_cons.mp second with rfl | after
      · exact absurd same.symm (Nat.ne_of_lt (ordered.1 a later))
      · exact ih ordered.2 later after

theorem mem_dropWhile {drops : α → Bool} {entry : α} (member : entry ∈ table)
    (kept : drops entry = false) : entry ∈ table.dropWhile drops := by
  rw [← @List.takeWhile_append_dropWhile _ drops table] at member
  rcases List.mem_append.mp member with taken | left
  · have drop := List.mem_takeWhile_imp taken
    rw [kept] at drop
    exact absurd drop Bool.false_ne_true
  · exact left

def floor (point : Nat) (table : List α) : Option α := (table.takeWhile (fun a => key a ≤ point)).getLast?

def above (point : Nat) (table : List α) : List α := table.dropWhile (fun a => key a ≤ point)

def place (entry : α) (table : List α) : List α :=
  table.takeWhile (fun a => key a < key entry) ++ entry :: table.dropWhile (fun a => key a < key entry)

variable {key}

variable {point : Nat} {rest : List α}

theorem above_cons_le {first : α} (low : key first ≤ point) :
    above key point (first :: rest) = above key point rest := by
  simp [above,low]

theorem above_cons_gt {first : α} (high : point < key first) :
    above key point (first :: rest) = first :: rest := by
  simp [above,high]

section

variable {table : List α} (sorted : Sorted key table)
include sorted

theorem mem_above (point : Nat) (entry : α) : entry ∈ above key point table ↔ entry ∈ table ∧ point < key entry := by
  induction table with
  | nil => simp [above]
  | cons first rest ih =>
    have ordered := List.pairwise_cons.mp sorted
    by_cases low : key first ≤ point
    · rw [above_cons_le low,ih ordered.2,List.mem_cons]
      constructor
      · rintro ⟨member,high⟩
        exact ⟨Or.inr member,high⟩
      · rintro ⟨rfl | member,high⟩
        · omega
        · exact ⟨member,high⟩
    have high : point < key first := by omega
    rw [above_cons_gt high]
    refine ⟨fun member => ⟨member,?_⟩,fun both => both.1⟩
    rcases List.mem_cons.mp member with rfl | member
    · exact high
    · exact high.trans (ordered.1 entry member)

theorem above_head {entry : α} (found : (above key point table).head? = some entry) :
    entry ∈ table ∧ point < key entry ∧ ∀ other ∈ table, point < key other → key entry ≤ key other := by
  have member := (mem_above sorted point entry).mp (List.mem_of_mem_head? found)
  refine ⟨member.1,member.2,fun other among high => ?_⟩
  have kept := (mem_above sorted point other).mpr ⟨among,high⟩
  have ordered : Sorted key (above key point table) := List.Pairwise.sublist (List.dropWhile_sublist _) sorted
  cases tail : above key point table with
  | nil => simp [tail] at found
  | cons first rest =>
    rw [tail] at found kept ordered
    obtain rfl : first = entry := by simpa using found
    rcases List.mem_cons.mp kept with rfl | later
    · exact le_refl _
    · exact Nat.le_of_lt ((List.pairwise_cons.mp ordered).1 other later)

theorem above_head_none (missing : (above key point table).head? = none) (entry : α)
    (member : entry ∈ table) : key entry ≤ point := by
  have empty : above key point table = [] := by simpa using missing
  by_contra high
  have kept := (mem_above sorted point entry).mpr ⟨member,by omega⟩
  rw [empty] at kept
  exact absurd kept List.not_mem_nil

theorem mem_below (point : Nat) (entry : α) (member : entry ∈ table) (low : key entry ≤ point) :
    entry ∈ table.takeWhile (fun a => key a ≤ point) := by
  have split : table.takeWhile (fun a => key a ≤ point) ++ above key point table = table :=
    List.takeWhile_append_dropWhile
  rw [← split] at member
  rcases List.mem_append.mp member with below | above
  · exact below
  · have high := ((mem_above sorted point entry).mp above).2
    omega

theorem floor_some {entry : α} (found : floor key point table = some entry) :
    entry ∈ table ∧ key entry ≤ point ∧ ∀ other ∈ table, key other ≤ point → key other ≤ key entry := by
  have member := List.mem_of_getLast? found
  have low : key entry ≤ point := by simpa using List.mem_takeWhile_imp member
  refine ⟨(List.takeWhile_sublist _).subset member,low,fun other among small => ?_⟩
  have kept := mem_below sorted point other among small
  have ordered : Sorted key (table.takeWhile (fun a => key a ≤ point)) :=
    List.Pairwise.sublist (List.takeWhile_sublist _) sorted
  obtain ⟨front,shape⟩ := List.getLast?_eq_some_iff.mp found
  rw [shape] at kept ordered
  rcases List.mem_append.mp kept with earlier | last
  · exact Nat.le_of_lt ((List.pairwise_append.mp ordered).2.2 other earlier entry (List.mem_singleton_self _))
  · rw [List.mem_singleton.mp last]

theorem floor_none (missing : floor key point table = none) (entry : α) (member : entry ∈ table) :
    point < key entry := by
  have empty : table.takeWhile (fun a => key a ≤ point) = [] := by simpa [floor] using missing
  by_contra low
  have kept := mem_below sorted point entry member (by omega)
  rw [empty] at kept
  exact absurd kept List.not_mem_nil

end

theorem place_perm (entry : α) (table : List α) : (place key entry table).Perm (entry :: table) := by
  have split : table.takeWhile (fun a => key a < key entry) ++ table.dropWhile (fun a => key a < key entry) = table :=
    List.takeWhile_append_dropWhile
  have moved : (place key entry table).Perm _ := List.perm_middle
  rwa [split] at moved

theorem mem_place (entry other : α) (table : List α) :
    other ∈ place key entry table ↔ other = entry ∨ other ∈ table := by
  rw [(place_perm entry table).mem_iff,List.mem_cons]

theorem place_cons_lt {entry first : α} (low : key first < key entry) :
    place key entry (first :: rest) = first :: place key entry rest := by
  simp [place,low]

theorem place_cons_ge {entry first : α} (high : key entry ≤ key first) :
    place key entry (first :: rest) = entry :: first :: rest := by
  have kept : ¬ key first < key entry := by omega
  simp [place,kept]

theorem place_sorted (sorted : Sorted key table) (entry : α)
    (fresh : ∀ other ∈ table, key other ≠ key entry) : Sorted key (place key entry table) := by
  induction table with
  | nil => exact List.pairwise_singleton _ _
  | cons first rest ih =>
    have ordered := List.pairwise_cons.mp sorted
    by_cases low : key first < key entry
    · rw [place_cons_lt low]
      refine List.pairwise_cons.mpr ⟨fun other member => ?_,ih ordered.2 fun other member =>
        fresh other (List.mem_cons_of_mem _ member)⟩
      rcases (mem_place entry other rest).mp member with rfl | member
      · exact low
      · exact ordered.1 other member
    have high : key entry < key first := by
      have apart := fresh first List.mem_cons_self
      omega
    rw [place_cons_ge (Nat.le_of_lt high)]
    refine List.pairwise_cons.mpr ⟨fun other member => ?_,sorted⟩
    rcases List.mem_cons.mp member with rfl | member
    · exact high
    · exact high.trans (ordered.1 other member)

end Ordered

end AuthorityKernel
