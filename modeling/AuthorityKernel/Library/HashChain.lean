import Mathlib.Data.List.Induction

/-! Hash chains over arbitrary entries: each entry carries the hash of the one before it
and its own, which covers both. A chain is read from its start; its tip, the hash of the
last entry, determines all of it as far as hashes determine entries. -/
namespace AuthorityKernel.Library.HashChain

structure Scheme (ε η : Type*) where
  prev : ε → η
  this : ε → η
  digest : η → ε → η

variable {ε η : Type*} (scheme : Scheme ε η)

def Linked : η → List ε → Prop
  | _, [] => True
  | start, entry :: rest =>
      scheme.prev entry = start ∧ scheme.this entry = scheme.digest (scheme.prev entry) entry ∧
        Linked (scheme.this entry) rest

def tip (start : η) (entries : List ε) : η := entries.foldl (fun _ entry => scheme.this entry) start

variable {scheme}

variable (start : η) (entries : List ε) (entry : ε)

@[simp] theorem tip_nil : tip scheme start [] = start := rfl

@[simp] theorem tip_snoc : tip scheme start (entries ++ [entry]) = scheme.this entry := by
  simp [tip]

theorem linked_append (first second : List ε) :
    Linked scheme start (first ++ second) ↔
      Linked scheme start first ∧ Linked scheme (tip scheme start first) second := by
  induction first generalizing start with
  | nil => simp [Linked]
  | cons entry rest ih =>
    rw [List.cons_append,Linked,ih,Linked]
    simp only [tip,List.foldl_cons,and_assoc]

theorem linked_snoc :
    Linked scheme start (entries ++ [entry]) ↔
      Linked scheme start entries ∧ scheme.prev entry = tip scheme start entries ∧
        scheme.this entry = scheme.digest (scheme.prev entry) entry := by
  rw [linked_append,Linked]
  simp [Linked]

theorem linked_digest {start : η} {entries : List ε} (linked : Linked scheme start entries) {entry : ε}
    (member : entry ∈ entries) : scheme.this entry = scheme.digest (scheme.prev entry) entry := by
  obtain ⟨before,after,rfl⟩ := List.append_of_mem member
  rw [linked_append,Linked] at linked
  exact linked.2.2.1

theorem linked_unique (first second : List ε) (size : first.length = second.length)
    (linkedFirst : Linked scheme start first) (linkedSecond : Linked scheme start second)
    (sameTip : tip scheme start first = tip scheme start second)
    (faithful : ∀ entry ∈ first, ∀ other ∈ second, scheme.this entry = scheme.this other → entry = other) :
    first = second := by
  induction first using List.reverseRecOn generalizing second with
  | nil => exact (List.length_eq_zero_iff.mp size.symm).symm
  | append_singleton before entry ih =>
    -- The last entries are equal by their hashes, so the chains before them have one tip.
    induction second using List.reverseRecOn with
    | nil => simp at size
    | append_singleton before' entry' _ =>
      rw [tip_snoc,tip_snoc] at sameTip
      have same : entry = entry' := faithful entry (by simp) entry' (by simp) sameTip
      rw [linked_snoc] at linkedFirst linkedSecond
      have tips : tip scheme start before = tip scheme start before' := by
        rw [← linkedFirst.2.1,← linkedSecond.2.1,same]
      have sizes : before.length = before'.length := by simpa using size
      have front := ih before' sizes linkedFirst.1 linkedSecond.1 tips fun one memberOne other memberOther =>
        faithful one (by simp [memberOne]) other (by simp [memberOther])
      rw [front,same]

end AuthorityKernel.Library.HashChain
