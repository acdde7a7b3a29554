import AuthorityKernel.Wasm.Reader

/-! The three LEB128 readers against the numbers of the WebAssembly binary format. -/
namespace AuthorityKernel.Wasm
open Library

/-- The grammar of the binary format as a decoder of the number a byte string starts with and the length of
its code: what the last byte may be, and means, is a parameter; a byte with the high bit set is followed by a
number of seven bits fewer. -/
def codedNumber (last : Nat → Nat → Option Int) : Nat → Bytes → Option (Int × Nat)
  | _,[] => none
  | width,byte :: rest =>
      if byte.toNat < 128 then (last width byte.toNat).map (·,1)
      else if 7 < width then
        (codedNumber last (width - 7) rest).map fun code => (128 * code.1 + (byte.toNat - 128),code.2 + 1)
      else none

def unsignedEnd (width byte : Nat) : Option Int := if byte < 2 ^ width then some byte else none

def signedEnd (width byte : Nat) : Option Int :=
  if byte < 64 then if byte < 2 ^ (width - 1) then some byte else none
  else if 128 - 2 ^ (width - 1) ≤ byte then some (byte - 128) else none

structure ReadsNumbers (data : Bytes) (pos : Nat) : Prop where
  u32 : rdU32 ⟨data,data.length⟩ pos =
    (codedNumber unsignedEnd 32 (data.drop pos)).map fun code => (code.1.toNat,pos + code.2)
  s32 : rdS32 ⟨data,data.length⟩ pos =
    (codedNumber signedEnd 32 (data.drop pos)).map fun code => ((code.1 % 2 ^ 32).toNat,pos + code.2)
  s64 : rdS64 ⟨data,data.length⟩ pos =
    (codedNumber signedEnd 64 (data.drop pos)).map fun code => ((code.1 % 2 ^ 64).toNat,pos + code.2)

/-- The code ends in a byte with bits beyond the width that are not copies of the sign. -/
def surplus (width : Nat) : Bytes → Bool
  | [] => false
  | byte :: rest =>
      if byte.toNat < 128 then 2 ^ (width - 1) ≤ byte.toNat ∧ byte.toNat < 128 - 2 ^ (width - 1)
      else 7 < width ∧ surplus (width - 7) rest

theorem byte_bits (byte : UInt8) : (byte &&& 0x80 = 0 ↔ byte.toNat < 128) ∧ (byte &&& 0x7f).toNat = byte.toNat % 128 ∧
    (byte &&& 0x70 = 0 ↔ byte.toNat % 128 < 16) ∧ (byte &&& 0x40 = 0 ↔ byte.toNat % 128 < 64) := by
  have all : ∀ n : Fin 256, let byte := UInt8.ofNat n
      (byte &&& 0x80 = 0 ↔ byte.toNat < 128) ∧ (byte &&& 0x7f).toNat = byte.toNat % 128 ∧
        (byte &&& 0x70 = 0 ↔ byte.toNat % 128 < 16) ∧ (byte &&& 0x40 = 0 ↔ byte.toNat % 128 < 64) := by
    decide +kernel
  simpa using all ⟨byte.toNat,byte.toNat_lt⟩

variable {data rest : Bytes} {byte : UInt8}

theorem rdByte_eq (data : Bytes) (pos : Nat) :
    rdByte ⟨data,data.length⟩ pos = (data.drop pos).head?.map (·,pos + 1) := by
  rw [List.head?_drop,rdByte]
  by_cases inside : pos < data.length
  · simp [inside]
  · simp [inside]

variable (width left shift result pos : Nat)

theorem group_added (shift : Nat) (high : 128 ≤ byte.toNat) (n : Int) :
    ((result + byte.toNat % 128 * 2 ^ shift : Nat) : Int) + n * 2 ^ (shift + 7) =
      result + (128 * n + (byte.toNat - 128)) * 2 ^ shift := by
  have low : byte.toNat % 128 = byte.toNat - 128 := by
    have := byte.toNat_lt
    omega
  rw [low]
  push_cast [high]
  ring

theorem drop_next {pos : Nat} (here : data.drop pos = byte :: rest) : data.drop (pos + 1) = rest := by
  rw [← List.drop_drop,here]
  rfl

theorem rdU32Loop_eq (due : shift + 7 * left = 35) (room : shift < 32) :
    rdU32Loop ⟨data,data.length⟩ left shift result pos = (codedNumber unsignedEnd (32 - shift) (data.drop pos)).map
      fun code => (((result : Int) + code.1 * 2 ^ shift).toNat,pos + code.2) := by
  induction left generalizing shift result pos with
  | zero => omega
  | succ left ih =>
    rw [rdU32Loop,rdByte_eq]
    cases here : data.drop pos with
    | nil => rfl
    | cons byte rest =>
      obtain ⟨ends,low,spare,-⟩ := byte_bits byte
      simp only [List.head?_cons,Option.map_some,codedNumber,ends,low]
      by_cases short : byte.toNat < 128
      · have fits : byte.toNat < 2 ^ (32 - shift) ↔ ¬ (left = 0 ∧ 16 ≤ byte.toNat) := by
          cases left with
          | zero =>
            obtain rfl : shift = 28 := by omega
            simp
          | succ left =>
            have wide := Nat.pow_le_pow_right (show 0 < 2 by decide) (show 7 ≤ 32 - shift by omega)
            simp
            omega
        simp only [short,ne_eq,spare,Nat.mod_eq_of_lt short,Nat.not_lt,unsignedEnd,fits,if_true]
        split
        · simp_all
        · simp
          norm_cast
      · cases left with
        | zero => simp [short,rdU32Loop,show ¬ 7 < 32 - shift by omega]
        | succ left =>
          rw [if_neg (by simp),if_neg short,ih _ _ _ (by omega) (by omega),drop_next here,if_neg short,if_pos (by omega),
            Option.map_map,Nat.sub_sub]
          congr 1
          funext code
          rw [group_added result shift (Nat.not_lt.mp short),Nat.add_assoc,Nat.add_comm 1]
          rfl

theorem signedEnd_of_fine {width byte : Nat} (short : byte < 128)
    (fine : ¬ (2 ^ (width - 1) ≤ byte ∧ byte < 128 - 2 ^ (width - 1))) :
    signedEnd width byte = some (if byte < 64 then (byte : Int) else byte - 128) := by
  unfold signedEnd
  split
  · rw [if_pos (by omega)]
  · rw [if_pos (by omega)]

theorem sign_filled (byte : Nat) :
    (result + byte * 2 ^ shift + if shift + 7 < width ∧ ¬ byte < 64 then 2 ^ width - 2 ^ (shift + 7) else 0) %
      2 ^ width = ((result + (if byte < 64 then (byte : Int) else byte - 128) * 2 ^ shift) % 2 ^ width).toNat := by
  rw [← Int.toNat_natCast (_ % _)]
  congr 1
  by_cases low : byte < 64
  · simp [low]
  by_cases inside : shift + 7 < width
  · have fits := Nat.pow_le_pow_right (show 0 < 2 by decide) (Nat.le_of_lt inside)
    simp only [low,inside,not_false_eq_true,and_self,reduceIte]
    push_cast [fits]
    rw [← Int.add_emod_right (result + (byte - 128) * 2 ^ shift)]
    congr 1
    ring
  have wrap : (2 : Int) ^ (shift + 7) = 2 ^ width * 2 ^ (shift + 7 - width) := by
    rw [← pow_add,Nat.add_sub_cancel' (Nat.not_lt.mp inside)]
  simp only [low,inside,false_and,reduceIte]
  push_cast
  rw [← Int.add_mul_emod_self_left (result + (byte - 128) * 2 ^ shift) (2 ^ width) (2 ^ (shift + 7 - width)),← wrap]
  congr 1
  ring

theorem rdSignedLoop_eq (room : shift < width)
    (enough : width ≤ shift + 7 * left) (tight : shift + 7 * left < width + 7)
    (fine : surplus (width - shift) (data.drop pos) = false) :
    rdSignedLoop width ⟨data,data.length⟩ left shift result pos =
      (codedNumber signedEnd (width - shift) (data.drop pos)).map
        fun code => ((((result : Int) + code.1 * 2 ^ shift) % 2 ^ width).toNat,pos + code.2) := by
  induction left generalizing shift result pos with
  | zero => omega
  | succ left ih =>
    rw [rdSignedLoop,rdByte_eq]
    cases here : data.drop pos with
    | nil => rfl
    | cons byte rest =>
      rw [here] at fine
      obtain ⟨ends,low,-,sign⟩ := byte_bits byte
      simp only [List.head?_cons,Option.map_some,codedNumber,ends,low]
      by_cases short : byte.toNat < 128
      · have last := signedEnd_of_fine short (by simpa [surplus,short] using fine)
        simp only [short,ne_eq,sign,Nat.mod_eq_of_lt short,if_true,last,Option.map_some,sign_filled]
      simp [surplus,short] at fine
      cases left with
      | zero => simp [short,rdSignedLoop,show ¬ 7 < width - shift by omega]
      | succ left =>
        rw [if_neg short,ih _ _ _ (by omega) (by omega) (by omega)
          (by simpa only [drop_next here,Nat.sub_sub] using fine (by omega)),drop_next here,if_neg short,
          if_pos (by omega),Option.map_map,Nat.sub_sub]
        congr 1
        funext code
        rw [group_added result shift (Nat.not_lt.mp short),Nat.add_assoc,Nat.add_comm 1]
        rfl

theorem codedNumber_surplus {width : Nat} (stray : surplus width data) : codedNumber signedEnd width data = none := by
  induction data generalizing width with
  | nil => rfl
  | cons byte rest ih =>
    by_cases short : byte.toNat < 128
    · simp [surplus,short] at stray
      simp [codedNumber,short,signedEnd,Nat.not_lt.mpr stray.1,Nat.not_le.mpr stray.2]
    · simp [surplus,short] at stray
      simp [codedNumber,short,ih stray.2]

theorem rdSignedLoop_surplus (room : shift < width)
    (enough : width ≤ shift + 7 * left) (stray : surplus (width - shift) (data.drop pos)) :
    (rdSignedLoop width ⟨data,data.length⟩ left shift result pos).isSome := by
  induction left generalizing shift result pos with
  | zero => omega
  | succ left ih =>
    rw [rdSignedLoop,rdByte_eq]
    cases here : data.drop pos with
    | nil => simp [here,surplus] at stray
    | cons byte rest =>
      rw [here] at stray
      simp only [List.head?_cons,Option.map_some,byte_bits byte]
      by_cases short : byte.toNat < 128
      · simp [short]
      · simp [surplus,short] at stray
        rw [if_neg short]
        exact ih _ _ _ (by omega) (by omega) (by simpa only [drop_next here,Nat.sub_sub] using stray.2)

theorem signed_reads_iff (room : 0 < width) (enough : width ≤ 7 * left)
    (tight : 7 * left < width + 7) :
    rdSignedLoop width ⟨data,data.length⟩ left 0 0 pos = (codedNumber signedEnd width (data.drop pos)).map
      (fun code => ((code.1 % 2 ^ width).toNat,pos + code.2)) ↔ surplus width (data.drop pos) = false := by
  constructor
  · intro reads
    by_contra stray
    rw [Bool.not_eq_false] at stray
    have accepted := rdSignedLoop_surplus width left 0 0 pos room (by omega) (by simpa using stray)
    rw [reads,codedNumber_surplus stray] at accepted
    cases accepted
  · intro fine
    simpa using rdSignedLoop_eq width left 0 0 pos room (by omega) (by omega) (by simpa using fine)

theorem reads_numbers_iff (data : Bytes) (pos : Nat) :
    ReadsNumbers data pos ↔ surplus 32 (data.drop pos) = false ∧ surplus 64 (data.drop pos) = false := by
  have s32 := @signed_reads_iff data 32 5 pos (by decide) (by decide) (by decide)
  have s64 := @signed_reads_iff data 64 10 pos (by decide) (by decide) (by decide)
  constructor
  · intro reads
    exact ⟨s32.mp reads.s32,s64.mp reads.s64⟩
  · intro ⟨fine,fine'⟩
    exact ⟨by simpa [rdU32] using rdU32Loop_eq 5 0 0 pos rfl (by decide),s32.mpr fine,s64.mpr fine'⟩

def overwide : Bytes := [0x80,0x80,0x80,0x80,0x08]

theorem overwide_accepted : rdS32 ⟨overwide,overwide.length⟩ 0 = some (2147483648,5) ∧
    codedNumber signedEnd 32 overwide = none ∧ ¬ ReadsNumbers overwide 0 := by
  refine ⟨by decide,by decide,fun reads => ?_⟩
  exact absurd reads.s32 (by decide)

end AuthorityKernel.Wasm
