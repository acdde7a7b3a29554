import AuthorityKernel.Library.Bytes

/-! Files under batches of adjacent writes, each of which may land in full, in part or not at
all. As long as nothing lands behind a torn write, a batch leaves what one write of a leading
part of its bytes would. -/
namespace AuthorityKernel.Library

def overwrite (file : Bytes) (offset : Nat) (bytes : Bytes) : Bytes :=
  if bytes = [] then file
  else file.take offset ++ List.replicate (offset - file.length) 0 ++ bytes ++ file.drop (offset + bytes.length)

/-- Adjacent writes from an offset on, of which only leading parts land. -/
def landWrites (landed : Nat → Nat) : Nat → Bytes → Nat → List Bytes → Bytes
  | _, file, _, [] => file
  | place, file, offset, write :: rest =>
      landWrites landed (place + 1) (overwrite file offset (write.take (landed place))) (offset + write.length) rest

variable (image file : Bytes) (offset : Nat)

@[simp] theorem overwrite_nil : overwrite file offset [] = file := rfl

theorem infix_overwrite (bytes part : Bytes) (inside : part <:+: bytes) : part <:+: overwrite file offset bytes := by
  unfold overwrite
  split
  · rename_i empty
    rw [empty,List.infix_nil] at inside
    exact inside ▸ List.nil_infix
  · refine inside.trans ?_
    exact (List.suffix_append _ bytes).isInfix.trans (List.prefix_append _ _).isInfix

theorem overwrite_at (lead tail bytes : Bytes) :
    overwrite (lead ++ tail) lead.length bytes = lead ++ bytes ++ tail.drop bytes.length := by
  by_cases none : bytes = []
  · subst none
    simp
  have noGap : lead.length - (lead ++ tail).length = 0 := by
    rw [List.length_append]
    omega
  rw [overwrite,if_neg none,noGap,List.take_left,List.drop_append]
  simp

theorem overwrite_append (first second : Bytes) (offset : Nat) :
    overwrite (overwrite file offset first) (offset + first.length) second = overwrite file offset (first ++ second) := by
  by_cases none : first = []
  · subst none
    simp
  have written : ∀ bytes : Bytes, bytes ≠ [] → overwrite file offset bytes =
      (file.take offset ++ List.replicate (offset - file.length) 0 ++ bytes) ++ file.drop (offset + bytes.length) := by
    intro bytes some
    rw [overwrite,if_neg some]
  have size : (file.take offset ++ List.replicate (offset - file.length) 0 ++ first).length =
      offset + first.length := by
    rw [List.length_append,List.length_append,List.length_take,List.length_replicate]
    omega
  rw [written first none,written (first ++ second) (by simp [none]),← size,overwrite_at,size,List.drop_drop,
    List.length_append,Nat.add_assoc]
  simp

theorem take_overlay (held count : Nat) (inside : held ≤ image.length) :
    image.take count ++ (image.take held).drop (image.take count).length =
      image.take (max held (min count image.length)) := by
  rw [List.length_take]
  by_cases beyond : held ≤ count
  · have covered : (image.take held).drop (min count image.length) = [] := by
      apply List.drop_eq_nil_of_le
      rw [List.length_take]
      omega
    rw [covered,List.append_nil,Nat.max_eq_right (by omega)]
    rcases Nat.le_total count image.length with short | long
    · rw [Nat.min_eq_left short]
    · rw [Nat.min_eq_right long,List.take_of_length_le long,List.take_length]
  · have first : image.take count = (image.take held).take count := by
      rw [List.take_take,Nat.min_eq_left (by omega)]
    rw [Nat.min_eq_left (by omega),Nat.max_eq_left (by omega),first,List.take_append_drop]

theorem overwrite_image (held offset count : Nat) (inside : held ≤ image.length) (reached : offset ≤ held) :
    overwrite (image.take held) offset ((image.drop offset).take count) =
      image.take (max held (min (offset + count) image.length)) := by
  have size : (image.take offset).length = offset := by
    rw [List.length_take]
    omega
  have cut : ∀ extent, offset ≤ extent →
      image.take extent = image.take offset ++ (image.drop offset).take (extent - offset) := by
    intro extent beyond
    rw [← List.take_add,Nat.add_sub_cancel' beyond]
  have piece := take_overlay (image.drop offset) (held - offset) count (by rw [List.length_drop]; omega)
  have written := overwrite_at (image.take offset) ((image.drop offset).take (held - offset))
    ((image.drop offset).take count)
  rw [size] at written
  rw [cut held reached,written,List.append_assoc,piece,cut _ (le_max_of_le_left reached)]
  congr 2
  rw [List.length_drop]
  omega

/-- A write that does not land in full is the last of which anything lands. -/
def LandsInOrder (size landed : Nat → Nat) : Prop :=
  ∀ place later, place < later → landed place < size place → landed later = 0

theorem landWrites_none (landed : Nat → Nat) (place offset : Nat) (file : Bytes) (writes : List Bytes)
    (none : ∀ later, place ≤ later → landed later = 0) : landWrites landed place file offset writes = file := by
  induction writes generalizing place offset with
  | nil => rfl
  | cons write rest ih =>
    rw [landWrites,none place (Nat.le_refl _),List.take_zero,overwrite_nil]
    exact ih (place + 1) _ fun later beyond => none later (by omega)

theorem landWrites_inOrder (size landed : Nat → Nat) (ordered : LandsInOrder size landed) (place offset : Nat)
    (file : Bytes) (writes : List Bytes)
    (sizes : ∀ i write, writes[i]? = some write → write.length = size (place + i)) :
    ∃ count, landWrites landed place file offset writes = overwrite file offset (writes.flatten.take count) := by
  induction writes generalizing place offset file with
  | nil => exact ⟨0,rfl⟩
  | cons write rest ih =>
    have width : write.length = size place := sizes 0 write rfl
    rw [landWrites,List.flatten_cons]
    by_cases torn : landed place < size place
    · refine ⟨landed place,?_⟩
      rw [landWrites_none landed _ _ _ rest fun later beyond => ordered place later (by omega) torn,
        List.take_append_of_le_length (by omega)]
    have later : ∀ i other, rest[i]? = some other → other.length = size (place + 1 + i) := by
      intro i other found
      rw [Nat.add_assoc,Nat.add_comm 1]
      exact sizes (i + 1) other found
    have whole : write.take (landed place) = write := List.take_of_length_le (by omega)
    obtain ⟨count,same⟩ := ih (place + 1) (offset + write.length) (overwrite file offset write) later
    refine ⟨write.length + count,?_⟩
    rw [whole,same,overwrite_append,List.take_length_add_append]

end AuthorityKernel.Library
