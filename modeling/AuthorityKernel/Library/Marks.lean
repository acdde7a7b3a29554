import Mathlib.Data.List.Nodup
import Mathlib.Data.Set.Insert

/-! A set kept twice: as a list without order and as one bit for each hash value of its
members. The two agree on a domain of keys exactly while no two of them share a
hash value. -/
namespace AuthorityKernel.Library

structure Marks (α ι : Type*) where
  bits : ι → Bool
  keys : List α

namespace Marks
variable {α ι : Type*} [DecidableEq α] [DecidableEq ι] (hash : α → ι)

def empty : Marks α ι := ⟨fun _ => false,[]⟩

def mark (capacity : Nat) (key : α) (marks : Marks α ι) : Marks α ι :=
  if marks.bits (hash key) then marks
  else
    { bits := Function.update marks.bits (hash key) true
      keys := if marks.keys.length < capacity then marks.keys ++ [key] else marks.keys }

def unmark (key : α) (marks : Marks α ι) : Marks α ι where
  bits := Function.update marks.bits (hash key) false
  keys := marks.keys.erase key

def marked (key : α) (marks : Marks α ι) : Bool := marks.bits (hash key)

omit [DecidableEq α] in
theorem marked_mark (capacity : Nat) {key other : α} (marks : Marks α ι) (same : hash key = hash other) :
    (marks.mark hash capacity key).marked hash other = true := by
  rw [mark,marked,← same]
  split
  · assumption
  · exact Function.update_self _ _ _

/-- Bits and list both hold exactly a set, as far as a domain of keys can tell. -/
structure Holds (domain : Set α) (set : Set α) (marks : Marks α ι) : Prop where
  bits : ∀ key ∈ domain, marks.marked hash key = true ↔ key ∈ set
  keys : ∀ key, key ∈ marks.keys ↔ key ∈ set
  nodup : marks.keys.Nodup
  inside : set ⊆ domain

omit [DecidableEq α] [DecidableEq ι] in
theorem holds_empty (domain : Set α) : Holds hash domain ∅ (empty : Marks α ι) :=
  ⟨by simp [marked,empty],by simp [empty],List.nodup_nil,Set.empty_subset _⟩

variable {hash} {domain : Set α} (apart : Set.InjOn hash domain)
include apart

omit [DecidableEq α] in
theorem Holds.mark {set : Set α} {marks : Marks α ι} (holds : Holds hash domain set marks) (capacity : Nat)
    (key : α) (known : key ∈ domain) (room : marks.keys.length < capacity) :
    Holds hash domain (insert key set) (marks.mark hash capacity key) := by
  unfold Marks.mark
  by_cases already : marks.bits (hash key) = true
  · have member := (holds.bits key known).mp already
    rw [if_pos already,Set.insert_eq_of_mem member]
    exact holds
  have absent : key ∉ set := fun member => already ((holds.bits key known).mpr member)
  rw [if_neg already,if_pos room]
  refine ⟨fun other inside => ?_,fun other => ?_,?_,Set.insert_subset known holds.inside⟩
  · simp only [marked,Function.update_apply]
    by_cases same : hash other = hash key
    · rw [if_pos same,apart inside known same]
      simp
    · have differs : other ≠ key := fun equal => same (congrArg hash equal)
      rw [if_neg same,Set.mem_insert_iff,← holds.bits other inside]
      simp [differs,marked]
  · rw [List.mem_append,holds.keys,List.mem_singleton,Set.mem_insert_iff,or_comm]
  · refine List.nodup_append.mpr ⟨holds.nodup,List.nodup_singleton key,fun old member new alone equal => ?_⟩
    rw [List.mem_singleton.mp alone] at equal
    exact absent ((holds.keys key).mp (equal ▸ member))

theorem Holds.unmark {set : Set α} {marks : Marks α ι} (holds : Holds hash domain set marks) (key : α)
    (known : key ∈ domain) : Holds hash domain (set \ {key}) (marks.unmark hash key) := by
  refine ⟨fun other inside => ?_,fun other => ?_,holds.nodup.erase key,fun other member => holds.inside member.1⟩
  · simp only [marked,Marks.unmark,Function.update_apply]
    by_cases same : hash other = hash key
    · rw [if_pos same,apart inside known same]
      simp
    · have differs : other ≠ key := fun equal => same (congrArg hash equal)
      rw [if_neg same,Set.mem_sdiff,← holds.bits other inside]
      simp [differs,marked]
  · rw [Marks.unmark,holds.nodup.mem_erase_iff,holds.keys,Set.mem_sdiff,Set.mem_singleton_iff,and_comm]

theorem Holds.unmark_all {set : Set α} {marks : Marks α ι} (holds : Holds hash domain set marks) (gone : List α)
    (known : ∀ key ∈ gone, key ∈ domain) :
    Holds hash domain {key ∈ set | key ∉ gone} (gone.foldl (fun marks key => marks.unmark hash key) marks) := by
  induction gone generalizing set marks with
  | nil => simpa using holds
  | cons key rest ih =>
    have next := ih (holds.unmark apart key (known key List.mem_cons_self))
      (fun other member => known other (List.mem_cons_of_mem _ member))
    have same : {other ∈ set \ {key} | other ∉ rest} = {other ∈ set | other ∉ key :: rest} := by
      ext other
      simp [and_assoc]
    rw [List.foldl_cons,← same]
    exact next

end Marks

end AuthorityKernel.Library
