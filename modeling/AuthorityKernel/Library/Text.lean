import AuthorityKernel.Library.Bytes
import Mathlib.Data.Nat.Digits.Defs

/-! Printed numbers, hex dumps and escaped strings, with the facts that make a
text built from them readable in one way only: a field is recovered from the
first or the last separator it cannot contain. -/
namespace AuthorityKernel.Library

def isDigit (byte : UInt8) : Bool := 48 ≤ byte && byte ≤ 57

def decimalNat (n : Nat) : Bytes :=
  if n = 0 then [48] else ((Nat.digits 10 n).map fun digit => UInt8.ofNat (48 + digit)).reverse

def decimalInt (value : Int) : Bytes :=
  if value < 0 then 45 :: decimalNat value.natAbs else decimalNat value.natAbs

def hexDigit (nibble : Nat) : UInt8 :=
  if nibble < 10 then UInt8.ofNat (48 + nibble) else UInt8.ofNat (87 + nibble)

def hexByte (byte : UInt8) : Bytes := [hexDigit (byte.toNat / 16),hexDigit (byte.toNat % 16)]

def hexBytes (bytes : Bytes) : Bytes := bytes.flatMap hexByte

def hexValue (digit : UInt8) : Option UInt8 :=
  if 48 ≤ digit ∧ digit ≤ 57 then some (digit - 48)
  else if 97 ≤ digit ∧ digit ≤ 102 then some (digit - 87)
  else if 65 ≤ digit ∧ digit ≤ 70 then some (digit - 55)
  else none

def unhexByte (high low : UInt8) : Option UInt8 :=
  match hexValue high, hexValue low with
  | some upper, some lower => some (upper <<< 4 ||| lower)
  | _, _ => none

def unhexBytes : Bytes → Option Bytes
  | [] => some []
  | [_] => none
  | high :: low :: rest =>
      match unhexByte high low, unhexBytes rest with
      | some byte, some bytes => some (byte :: bytes)
      | _, _ => none

variable (n : Nat) (bytes : Bytes) (byte : UInt8) (value : Int)

theorem unhexBytes_length (text bytes : Bytes) (read : unhexBytes text = some bytes) :
    text.length = 2 * bytes.length := by
  fun_induction unhexBytes text generalizing bytes with
  | case1 => cases read; rfl
  | case2 | case4 => contradiction
  | case3 high low rest byte bytes' tail _ ih =>
    cases read
    rw [List.length_cons,List.length_cons,List.length_cons,ih bytes' tail]
    omega

def escaped (bytes : Bytes) : Bytes :=
  bytes.flatMap fun byte => if byte = 34 || byte = 92 then [92,byte] else [byte]

theorem split_first {α : Type*} (separator : α) (left left' right right' : List α)
    (same : left ++ separator :: right = left' ++ separator :: right')
    (free : separator ∉ left) (free' : separator ∉ left') : left = left' ∧ right = right' := by
  induction left generalizing left' with
  | nil =>
    cases left' with
    | nil => simpa using same
    | cons head tail =>
      have clash : separator = head := by simpa using congrArg List.head? same
      exact absurd (clash ▸ List.mem_cons_self) free'
  | cons head tail ih =>
    cases left' with
    | nil =>
      have clash : head = separator := by simpa using congrArg List.head? same
      exact absurd (clash ▸ List.mem_cons_self) free
    | cons head' tail' =>
      rw [List.cons_append,List.cons_append,List.cons.injEq] at same
      obtain ⟨sameHead,sameTail⟩ := same
      obtain ⟨first,second⟩ := ih tail' sameTail (fun member => free (List.mem_cons_of_mem _ member))
        (fun member => free' (List.mem_cons_of_mem _ member))
      exact ⟨by rw [sameHead,first],second⟩

theorem split_last {α : Type*} (separator : α) (left left' right right' : List α)
    (same : left ++ separator :: right = left' ++ separator :: right')
    (free : separator ∉ right) (free' : separator ∉ right') : left = left' ∧ right = right' := by
  have reversed : right.reverse ++ separator :: left.reverse = right'.reverse ++ separator :: left'.reverse := by
    simpa using congrArg List.reverse same
  obtain ⟨first,second⟩ := split_first separator _ _ _ _ reversed (by simpa using free) (by simpa using free')
  exact ⟨List.reverse_inj.mp second,List.reverse_inj.mp first⟩

theorem digit_byte (digit : Nat) (small : digit < 10) :
    (UInt8.ofNat (48 + digit)).toNat = 48 + digit := by
  rw [UInt8.toNat_ofNat']
  omega

theorem decimalNat_digit {n : Nat} {byte : UInt8} (member : byte ∈ decimalNat n) :
    48 ≤ byte.toNat ∧ byte.toNat ≤ 57 := by
  unfold decimalNat at member
  split at member
  · rw [List.mem_singleton] at member
    subst member
    decide
  rw [List.mem_reverse,List.mem_map] at member
  obtain ⟨digit,inside,rfl⟩ := member
  have small := Nat.digits_lt_base (by decide) inside
  rw [digit_byte digit small]
  omega

theorem digits_text_injective (first second : List Nat) (small : ∀ d ∈ first, d < 10)
    (small' : ∀ d ∈ second, d < 10)
    (same : (first.map fun digit => UInt8.ofNat (48 + digit)) = second.map fun digit => UInt8.ofNat (48 + digit)) :
    first = second := by
  induction first generalizing second with
  | nil => exact (List.map_eq_nil_iff.mp same.symm).symm
  | cons digit rest ih =>
    cases second with
    | nil => simp at same
    | cons digit' rest' =>
      rw [List.map_cons,List.map_cons,List.cons.injEq] at same
      have value := congrArg UInt8.toNat same.1
      rw [digit_byte digit (small _ (by simp)),digit_byte digit' (small' _ (by simp))] at value
      have tail := ih rest' (fun d member => small d (by simp [member]))
        (fun d member => small' d (by simp [member])) same.2
      rw [tail,show digit = digit' by omega]

theorem decimalNat_ne_zero_text (positive : n ≠ 0) : decimalNat n ≠ [48] := by
  intro same
  rw [decimalNat,if_neg positive] at same
  have text : ((Nat.digits 10 n).map fun digit => UInt8.ofNat (48 + digit)) =
      [0].map fun digit => UInt8.ofNat (48 + digit) := by
    simpa using congrArg List.reverse same
  have digits := digits_text_injective _ _ (fun d member => Nat.digits_lt_base (by decide) member)
    (by simp) text
  have value := Nat.ofDigits_digits 10 n
  rw [digits] at value
  exact positive (by simpa [Nat.ofDigits] using value.symm)

theorem decimalNat_injective {n m : Nat} (same : decimalNat n = decimalNat m) : n = m := by
  by_cases zeroN : n = 0
  · by_cases zeroM : m = 0
    · rw [zeroN,zeroM]
    · rw [show decimalNat n = [48] by simp [decimalNat,zeroN]] at same
      exact absurd same.symm (decimalNat_ne_zero_text m zeroM)
  by_cases zeroM : m = 0
  · rw [show decimalNat m = [48] by simp [decimalNat,zeroM]] at same
    exact absurd same (decimalNat_ne_zero_text n zeroN)
  rw [decimalNat,decimalNat,if_neg zeroN,if_neg zeroM] at same
  have digits := digits_text_injective _ _ (fun d member => Nat.digits_lt_base (by decide) member)
    (fun d member => Nat.digits_lt_base (by decide) member) (List.reverse_inj.mp same)
  exact Nat.digits_inj_iff.mp digits

theorem decimalNat_ne_nil : decimalNat n ≠ [] := by
  unfold decimalNat
  split
  · simp
  · rename_i positive
    simpa [Nat.digits_eq_nil_iff_eq_zero] using positive

theorem decimalNat_length_one_iff : (decimalNat n).length = 1 ↔ n < 10 := by
  unfold decimalNat
  split
  · rename_i zero
    simp [zero]
  rename_i positive
  rw [List.length_reverse,List.length_map]
  by_cases small : n < 10
  · simp [Nat.digits_of_lt 10 n positive small,small]
  have more : Nat.digits 10 (n / 10) ≠ [] := by
    rw [Nat.digits_ne_nil_iff_ne_zero]
    omega
  rw [Nat.digits_def' (by decide) (by omega),List.length_cons]
  have longer := List.length_pos_iff.mpr more
  omega

theorem decimalInt_byte {value : Int} {byte : UInt8} (member : byte ∈ decimalInt value) :
    byte.toNat = 45 ∨ (48 ≤ byte.toNat ∧ byte.toNat ≤ 57) := by
  unfold decimalInt at member
  split at member
  · rcases List.mem_cons.mp member with rfl | digit
    · exact Or.inl rfl
    · exact Or.inr (decimalNat_digit digit)
  · exact Or.inr (decimalNat_digit member)

theorem decimalInt_injective {first second : Int} (same : decimalInt first = decimalInt second) :
    first = second := by
  have noSign : ∀ n rest, decimalNat n ≠ 45 :: rest := by
    intro n rest text
    have bounds := decimalNat_digit (text ▸ List.mem_cons_self)
    exact absurd bounds.1 (by decide)
  unfold decimalInt at same
  split at same <;> split at same
  · have abs := decimalNat_injective (List.tail_eq_of_cons_eq same)
    omega
  · exact absurd same.symm (noSign _ _)
  · exact absurd same (noSign _ _)
  · have abs := decimalNat_injective same
    omega

theorem hexBytes_length : (hexBytes bytes).length = 2 * bytes.length := by
  induction bytes with
  | nil => rfl
  | cons byte rest ih =>
    rw [hexBytes,List.flatMap_cons,List.length_append,← hexBytes,ih,List.length_cons]
    simp only [hexByte,List.length_cons,List.length_nil]
    omega

theorem hexDigit_injective (a b : Nat) (smallA : a < 16) (smallB : b < 16)
    (same : hexDigit a = hexDigit b) : a = b := by
  have value := congrArg UInt8.toNat same
  unfold hexDigit at value
  split at value <;> split at value <;> rw [UInt8.toNat_ofNat',UInt8.toNat_ofNat'] at value <;> omega

theorem hexValue_hexDigit (nibble : Nat) (small : nibble < 16) :
    hexValue (hexDigit nibble) = some (UInt8.ofNat nibble) := by
  have all : ∀ value : Fin 16, hexValue (hexDigit value) = some (UInt8.ofNat value) := by decide
  exact all ⟨nibble,small⟩

theorem unhexByte_hexDigits :
    unhexByte (hexDigit (byte.toNat / 16)) (hexDigit (byte.toNat % 16)) = some byte := by
  have range := byte.toNat_lt
  have high := hexValue_hexDigit (byte.toNat / 16) (by omega)
  have low := hexValue_hexDigit (byte.toNat % 16) (by omega)
  have joined : ∀ value : Fin 256, UInt8.ofNat (value / 16) <<< 4 ||| UInt8.ofNat (value % 16) = UInt8.ofNat value := by
    decide +kernel
  unfold unhexByte
  rw [high,low]
  exact congrArg some ((joined ⟨byte.toNat,range⟩).trans UInt8.ofNat_toNat)

theorem unhexBytes_hexBytes : unhexBytes (hexBytes bytes) = some bytes := by
  induction bytes with
  | nil => rfl
  | cons byte rest ih =>
    change unhexBytes (hexDigit (byte.toNat / 16) :: hexDigit (byte.toNat % 16) :: hexBytes rest) = _
    rw [unhexBytes,unhexByte_hexDigits,ih]

def hexWord : Nat → Nat → Bytes
  | 0, _ => []
  | digits + 1, value => hexWord digits (value / 16) ++ [hexDigit (value % 16)]

theorem hexWord_injective (digits first second : Nat) (small : first < 16 ^ digits) (small' : second < 16 ^ digits)
    (same : hexWord digits first = hexWord digits second) : first = second := by
  induction digits generalizing first second with
  | zero => omega
  | succ digits ih =>
    rw [pow_succ] at small small'
    obtain ⟨high,low⟩ := List.append_inj' same rfl
    have highs := ih (first / 16) (second / 16) (by omega) (by omega) high
    have lows := hexDigit_injective _ _ (Nat.mod_lt _ (by omega)) (Nat.mod_lt _ (by omega)) (List.cons.inj low).1
    omega

theorem hexBytes_injective (first second : Bytes) (same : hexBytes first = hexBytes second) : first = second := by
  have read := unhexBytes_hexBytes first
  rw [same,unhexBytes_hexBytes] at read
  exact (Option.some.inj read).symm

theorem escaped_cons (rest : Bytes) :
    escaped (byte :: rest) = (if byte = 34 || byte = 92 then [92,byte] else [byte]) ++ escaped rest := rfl

theorem escaped_injective (first second : Bytes) (same : escaped first = escaped second) :
    first = second := by
  induction first generalizing second with
  | nil =>
    cases second with
    | nil => rfl
    | cons byte rest => rw [escaped_cons] at same; split at same <;> simp [escaped] at same
  | cons byte rest ih =>
    cases second with
    | nil => rw [escaped_cons] at same; split at same <;> simp [escaped] at same
    | cons byte' rest' =>
      rw [escaped_cons,escaped_cons] at same
      split at same <;> split at same
      · simp only [List.cons_append,List.nil_append,List.cons.injEq,true_and] at same
        rw [same.1,ih rest' same.2]
      · rename_i _ plain
        simp only [List.cons_append,List.nil_append,List.cons.injEq] at same
        simp [← same.1] at plain
      · rename_i plain _
        simp only [List.cons_append,List.nil_append,List.cons.injEq] at same
        simp [same.1] at plain
      · simp only [List.cons_append,List.nil_append,List.cons.injEq] at same
        rw [same.1,ih rest' same.2]

theorem escaped_quote (before after : Bytes) (split : escaped bytes = before ++ 34 :: after) :
    ∃ front, before = front ++ [92] := by
  induction bytes generalizing before with
  | nil => simp [escaped] at split
  | cons byte rest ih =>
    rw [escaped_cons] at split
    split at split
    · rename_i special
      cases before with
      | nil => simp at split
      | cons first before =>
        simp only [List.cons_append,List.nil_append,List.cons.injEq] at split
        obtain ⟨slash,tail⟩ := split
        cases before with
        | nil => exact ⟨[],by rw [← slash]; rfl⟩
        | cons second before =>
          rw [List.cons_append,List.cons.injEq] at tail
          obtain ⟨front,found⟩ := ih before tail.2
          exact ⟨first :: second :: front,by rw [found]; rfl⟩
    · rename_i plain
      cases before with
      | nil =>
        simp only [List.cons_append,List.nil_append,List.cons.injEq] at split
        simp [split.1] at plain
      | cons first before =>
        simp only [List.cons_append,List.nil_append,List.cons.injEq] at split
        obtain ⟨front,found⟩ := ih before split.2
        exact ⟨first :: front,by rw [found]; rfl⟩

theorem escaped_not_longer (left left' first second : Bytes) (mark : UInt8) (plain : mark ≠ 92)
    (same : left ++ mark :: 34 :: escaped first = left' ++ mark :: 34 :: escaped second) :
    (escaped first).length ≤ (escaped second).length := by
  by_contra longer
  obtain ⟨middle,whole⟩ : ∃ middle, escaped first = middle ++ escaped second := by
    have ends : escaped first <:+ left ++ mark :: 34 :: escaped first := ⟨left ++ [mark,34],by simp⟩
    have ends' : escaped second <:+ left ++ mark :: 34 :: escaped first := ⟨left' ++ [mark,34],by simp [same]⟩
    obtain ⟨middle,joined⟩ := List.suffix_of_suffix_length_le ends' ends (by omega)
    exact ⟨middle,joined.symm⟩
  have cut : left ++ mark :: 34 :: middle = left' ++ [mark,34] := by
    rw [whole] at same
    have regrouped : (left ++ mark :: 34 :: middle) ++ escaped second = (left' ++ [mark,34]) ++ escaped second := by
      simpa using same
    exact List.append_cancel_right regrouped
  rcases List.eq_nil_or_concat middle with rfl | ⟨inner,last,rfl⟩
  · rw [whole] at longer
    simp at longer
  have regrouped : (left ++ mark :: 34 :: inner) ++ [last] = (left' ++ [mark]) ++ [34] := by simpa using cut
  obtain ⟨inside,quote⟩ := List.append_inj' regrouped rfl
  have quote : last = 34 := by simpa using quote
  -- The opening quote would sit inside the longer escaped text, behind a backslash.
  obtain ⟨front,slash⟩ := escaped_quote first inner (escaped second) (by rw [whole,quote]; simp)
  have shifted : (left ++ mark :: 34 :: front) ++ [92] = left' ++ [mark] := by simpa [slash] using inside
  have clash : [(92 : UInt8)] = [mark] := (List.append_inj' shifted rfl).2
  exact plain (List.cons.inj clash).1.symm

theorem split_escaped {left left' first second : Bytes} {mark : UInt8} (plain : mark ≠ 92)
    (same : left ++ mark :: 34 :: escaped first = left' ++ mark :: 34 :: escaped second) :
    left = left' ∧ first = second := by
  have sizes := le_antisymm (escaped_not_longer left left' first second mark plain same)
    (escaped_not_longer left' left second first mark plain same.symm)
  obtain ⟨front,back⟩ := List.append_inj' same (by simp [sizes])
  simp only [List.cons.injEq,true_and] at back
  exact ⟨front,escaped_injective _ _ back⟩

theorem not_mem_decimalInt (outside : byte.toNat ≠ 45 ∧ ¬ (48 ≤ byte.toNat ∧ byte.toNat ≤ 57))
    : byte ∉ decimalInt value := by
  intro member
  rcases decimalInt_byte member with sign | digit
  · exact outside.1 sign
  · exact outside.2 digit

theorem colon_free_decimalInt : (58 : UInt8) ∉ decimalInt value :=
  not_mem_decimalInt 58 value (by decide)

theorem comma_free_decimalInt : (44 : UInt8) ∉ decimalInt value :=
  not_mem_decimalInt 44 value (by decide)

theorem toInt64_injective {x y : UInt64} (same : x.toInt64.toInt = y.toInt64.toInt) : x = y :=
  congrArg Int64.toUInt64 (Int64.toInt_inj.mp same)

theorem split_number (left left' label : Bytes) (value value' : Int)
    (same : left ++ (label ++ [58]) ++ decimalInt value = left' ++ (label ++ [58]) ++ decimalInt value') :
    left = left' ∧ value = value' := by
  have regrouped : (left ++ label) ++ 58 :: decimalInt value = (left' ++ label) ++ 58 :: decimalInt value' := by
    simpa using same
  obtain ⟨front,number⟩ := split_last 58 _ _ _ _ regrouped (colon_free_decimalInt _) (colon_free_decimalInt _)
  exact ⟨List.append_cancel_right front,decimalInt_injective number⟩

theorem split_hex {n : Nat} {left left' label : Bytes} {id id' : Block n}
    (same : left ++ label ++ hexBytes id.toList = left' ++ label ++ hexBytes id'.toList) :
    left = left' ∧ id = id' := by
  have widths : (hexBytes id.toList).length = (hexBytes id'.toList).length := by
    rw [hexBytes_length,hexBytes_length,List.Vector.toList_length,List.Vector.toList_length]
  obtain ⟨front,digits⟩ := List.append_inj' same widths
  exact ⟨List.append_cancel_right front,Subtype.ext (hexBytes_injective _ _ digits)⟩

end AuthorityKernel.Library
