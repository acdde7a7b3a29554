import AuthorityKernel.Library.Bytes

/-! Blocks in the LZ4 format. A block is a list of sequences, each a run of literals and
a copy of bytes already produced, and ends in a run of literals alone. A length is
written in a nibble of the token, and continued behind it when the nibble is full. -/
namespace AuthorityKernel.Library.Lz4

structure Sequence where
  literals : Bytes
  offset : Nat
  matched : Nat

def copyBack (offset : Nat) : Nat → Bytes → Bytes
  | 0, out => out
  | count + 1, out => copyBack offset count (out ++ [out.getD (out.length - offset) 0])

def Sequence.expand (out : Bytes) (s : Sequence) : Bytes := copyBack s.offset s.matched (out ++ s.literals)

def expand (out : Bytes) (sequences : List Sequence) : Bytes := sequences.foldl Sequence.expand out

variable (out : Bytes) (sequences : List Sequence) (s : Sequence)

@[simp] theorem copyBack_length (offset count : Nat) (out : Bytes) :
    (copyBack offset count out).length = out.length + count := by
  induction count generalizing out with
  | zero => rfl
  | succ count ih =>
    rw [copyBack,ih,List.length_append,List.length_singleton]
    omega

theorem Sequence.expand_length : (s.expand out).length = out.length + s.literals.length + s.matched := by
  rw [Sequence.expand,copyBack_length,List.length_append]

theorem expand_length_le : out.length ≤ (expand out sequences).length := by
  induction sequences generalizing out with
  | nil => exact le_refl _
  | cons s rest ih =>
    have longer := ih (s.expand out)
    rw [Sequence.expand_length] at longer
    exact le_trans (by omega) longer

theorem copyBack_take (text : Bytes) (offset position count : Nat) (back : 0 < offset) (within : offset ≤ position)
    (inside : position + count ≤ text.length)
    (compared : ∀ k < count, text.getD (position + k) 0 = text.getD (position - offset + k) 0) :
    copyBack offset count (text.take position) = text.take (position + count) := by
  induction count generalizing position with
  | zero => rfl
  | succ count ih =>
    have short : (text.take position).length = position := List.length_take_of_le (by omega)
    have next : (text.take position).getD (position - offset) 0 = text.getD position 0 := by
      rw [List.getD_eq_getElem?_getD,List.getElem?_take_of_lt (by omega),← List.getD_eq_getElem?_getD]
      exact (compared 0 (by omega)).symm
    have longer : text.take position ++ [text.getD position 0] = text.take (position + 1) := by
      rw [List.take_add_one,List.getD_eq_getElem?_getD,List.getElem?_eq_getElem (by omega)]
      rfl
    rw [copyBack,short,next,longer]
    rw [ih (position + 1) (by omega) (by omega),Nat.add_assoc,Nat.add_comm 1]
    intro k small
    have later := compared (k + 1) (by omega)
    rw [show position + 1 + k = position + (k + 1) by omega,
      show position + 1 - offset + k = position - offset + (k + 1) by omega]
    exact later

variable {src rest : Bytes} {length : Nat}

section Lengths

def lengthTail (length : Nat) : Bytes :=
  if length < 15 then [] else List.replicate ((length - 15) / 255) 255 ++ [UInt8.ofNat ((length - 15) % 255)]

/-- Adds bytes up to the first that is not full; a total past 64 bits is refused. -/
def readTail (total : Nat) : Bytes → Option (Nat × Bytes)
  | [] => none
  | byte :: rest =>
      if 2 ^ 64 ≤ total + byte.toNat then none
      else if byte = 255 then readTail (total + 255) rest
      else some (total + byte.toNat,rest)

def readLength (nibble least : Nat) (src : Bytes) : Option (Nat × Bytes) :=
  if nibble = 15 then readTail (nibble + least) src else some (nibble + least,src)

theorem readTail_full (total count : Nat) (last : UInt8) (rest : Bytes) (partly : last ≠ 255)
    (small : total + 255 * count + last.toNat < 2 ^ 64) :
    readTail total (List.replicate count 255 ++ last :: rest) = some (total + 255 * count + last.toNat,rest) := by
  induction count generalizing total with
  | zero =>
    rw [List.replicate_zero,List.nil_append,readTail,if_neg (by omega),if_neg partly]
    rfl
  | succ count ih =>
    have full : (255 : UInt8).toNat = 255 := rfl
    rw [List.replicate_succ,List.cons_append,readTail,if_neg (by omega),if_pos rfl,ih _ (by omega)]
    congr 2
    omega

theorem readLength_lengthTail (length least : Nat) (rest : Bytes) (small : length + least < 2 ^ 64) :
    readLength (min length 15) least (lengthTail length ++ rest) = some (length + least,rest) := by
  unfold readLength lengthTail
  by_cases short : length < 15
  · rw [if_pos short,Nat.min_eq_left (by omega),if_neg (by omega)]
    rfl
  have last : (UInt8.ofNat ((length - 15) % 255)).toNat = (length - 15) % 255 := by
    rw [UInt8.toNat_ofNat']
    omega
  have partly : UInt8.ofNat ((length - 15) % 255) ≠ 255 := by
    intro full
    have value := congrArg UInt8.toNat full
    rw [last] at value
    exact absurd value (by change _ ≠ 255; omega)
  rw [if_neg short,Nat.min_eq_right (by omega),if_pos rfl,List.append_assoc]
  rw [List.cons_append,List.nil_append,readTail_full _ _ _ _ partly (by rw [last]; omega),last]
  congr 2
  omega

theorem readTail_shorter {total : Nat} (read : readTail total src = some (length,rest)) : rest.length < src.length := by
  fun_induction readTail total src with
  | case1 | case2 => simp at read
  | case3 total src _ ih => exact lt_trans (ih read) (Nat.lt_succ_self _)
  | case4 total byte src _ _ =>
    simp only [Option.some.injEq,Prod.mk.injEq] at read
    rw [← read.2]
    exact Nat.lt_succ_self _

theorem readLength_shorter {nibble least : Nat} (read : readLength nibble least src = some (length,rest))
    : rest.length ≤ src.length := by
  unfold readLength at read
  split at read
  · exact le_of_lt (readTail_shorter read)
  · simp only [Option.some.injEq,Prod.mk.injEq] at read
    rw [read.2]

theorem lengthTail_ratio (length : Nat) : length ≤ 15 + 255 * (lengthTail length).length := by
  unfold lengthTail
  split
  · omega
  · rw [List.length_append,List.length_replicate,List.length_singleton]
    omega

theorem lengthTail_bound (length : Nat) : 255 * (lengthTail length).length ≤ length + 240 := by
  unfold lengthTail
  split
  · simp
  · rw [List.length_append,List.length_replicate,List.length_singleton]
    omega

end Lengths

section Blocks

def token (literals matched : Nat) : UInt8 := UInt8.ofNat (16 * min literals 15 + min matched 15)

theorem token_high (literals matched : Nat) : (token literals matched).toNat / 16 = min literals 15 := by
  rw [token,UInt8.toNat_ofNat']
  omega

theorem token_low (literals matched : Nat) : (token literals matched).toNat % 16 = min matched 15 := by
  rw [token,UInt8.toNat_ofNat']
  omega

def Sequence.bytes (s : Sequence) : Bytes :=
  token s.literals.length (s.matched - 4) :: (lengthTail s.literals.length ++ s.literals ++ leBytes 2 s.offset ++
    lengthTail (s.matched - 4))

def lastBytes (literals : Bytes) : Bytes := token literals.length 0 :: (lengthTail literals.length ++ literals)

structure Sequence.Writable (s : Sequence) : Prop where
  back : 0 < s.offset
  near : s.offset < 2 ^ 16
  long : 4 ≤ s.matched
  small : s.literals.length + s.matched < 2 ^ 64

/-- The sequences can be written, and each copies from what is there by then. -/
def Valid (out : Bytes) : List Sequence → Prop
  | [] => True
  | s :: rest => s.Writable ∧ s.offset ≤ out.length + s.literals.length ∧ Valid (s.expand out) rest

theorem expand_snoc : expand out (sequences ++ [s]) = s.expand (expand out sequences) := by
  rw [expand,List.foldl_append]
  rfl

theorem valid_snoc (valid : Valid out sequences) (writable : s.Writable)
    (reach : s.offset ≤ (expand out sequences).length + s.literals.length) : Valid out (sequences ++ [s]) := by
  induction sequences generalizing out with
  | nil => exact ⟨writable,reach,trivial⟩
  | cons first rest ih => exact ⟨valid.1,valid.2.1,ih (first.expand out) valid.2.2 reach⟩

theorem Valid.long (valid : Valid out sequences) : ∀ s ∈ sequences, 4 ≤ s.matched := by
  induction sequences generalizing out with
  | nil => simp
  | cons first rest ih =>
    intro s member
    rcases List.mem_cons.mp member with rfl | later
    · exact valid.1.long
    · exact ih _ valid.2.2 s later

theorem Sequence.bytes_ratio : s.literals.length + s.matched ≤ 1024 * s.bytes.length := by
  have matched := lengthTail_ratio (s.matched - 4)
  simp only [Sequence.bytes,List.length_cons,List.length_append,leBytes_length]
  omega

theorem expand_ratio :
    (expand out sequences).length ≤ out.length + 1024 * (sequences.flatMap Sequence.bytes).length := by
  induction sequences generalizing out with
  | nil => exact Nat.le_add_right _ _
  | cons s rest ih =>
    have rests := ih (s.expand out)
    have first := s.bytes_ratio
    rw [Sequence.expand_length] at rests
    rw [List.flatMap_cons,List.length_append]
    exact le_trans rests (by omega)

theorem Sequence.bytes_bound (long : 4 ≤ s.matched) :
    255 * s.bytes.length ≤ 256 * (s.literals.length + s.matched) := by
  have literals := lengthTail_bound s.literals.length
  have matched := lengthTail_bound (s.matched - 4)
  simp only [Sequence.bytes,List.length_cons,List.length_append,leBytes_length]
  by_cases short : s.matched - 4 < 15
  · have none : (lengthTail (s.matched - 4)).length = 0 := by rw [lengthTail,if_pos short]; rfl
    omega
  · omega

theorem expand_bound (long : ∀ s ∈ sequences, 4 ≤ s.matched) :
    255 * (sequences.flatMap Sequence.bytes).length + 256 * out.length ≤ 256 * (expand out sequences).length := by
  induction sequences generalizing out with
  | nil => simp [expand]
  | cons s rest ih =>
    have rests := ih (s.expand out) (fun s' member => long s' (List.mem_cons_of_mem _ member))
    have first := s.bytes_bound (long s List.mem_cons_self)
    rw [Sequence.expand_length] at rests
    rw [List.flatMap_cons,List.length_append]
    exact le_trans (by omega) rests

theorem lastBytes_bound (literals : Bytes) : 255 * (lastBytes literals).length ≤ 256 * literals.length + 495 := by
  have tail := lengthTail_bound literals.length
  simp only [lastBytes,List.length_cons,List.length_append]
  omega

end Blocks

end AuthorityKernel.Library.Lz4
