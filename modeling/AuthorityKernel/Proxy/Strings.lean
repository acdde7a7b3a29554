import AuthorityKernel.Library.JsonText
import AuthorityKernel.Proxy.Requests

/-! Strings on their way to the host and back: every byte is written as itself, as a
short escape or as four hex digits, and the reader takes back what is ASCII. -/
namespace AuthorityKernel.Proxy
open Library Json

inductive Escaped (byte : UInt8) : Bytes → Prop
  | plain (ordinary : 32 ≤ byte ∧ byte < 127 ∧ byte ≠ 34 ∧ byte ≠ 92) : Escaped byte [byte]
  | short (letter : UInt8) (back : plainEscape letter = some byte) : Escaped byte [92,letter]
  | unit : Escaped byte (92 :: 117 :: 48 :: 48 :: hexByte byte)

variable (byte : UInt8) (text rest : Bytes)

theorem jsonEscapeByte_escaped : Escaped byte (jsonEscapeByte byte) := by
  unfold jsonEscapeByte
  split
  · subst byte; exact .short 34 rfl
  split
  · subst byte; exact .short 92 rfl
  split
  · subst byte; exact .short 110 rfl
  split
  · subst byte; exact .short 114 rfl
  split
  · subst byte; exact .short 116 rfl
  split
  · rename_i quote backslash _ _ _ printed
    exact .plain ⟨printed.1,printed.2,quote,backslash⟩
  · exact .unit

theorem jsonUnescapeString_plain (ordinary : byte ≠ backslashByte) :
    jsonUnescapeString (byte :: rest) = byte :: jsonUnescapeString rest := by
  cases rest with
  | nil => rfl
  | cons next rest =>
    rw [jsonUnescapeString.eq_def]
    exact if_neg ordinary

theorem asciiEscape_hexByte :
    ∃ high low, hexByte byte = [high,low] ∧
      asciiEscape 48 48 high low = if byte < 128 then some byte else none := by
  refine ⟨_,_,rfl,?_⟩
  have all : ∀ n : Fin 256, asciiEscape 48 48 (hexDigit (n / 16)) (hexDigit (n % 16)) =
      if UInt8.ofNat n < 128 then some (UInt8.ofNat n) else none := by decide +kernel
  simpa using all ⟨byte.toNat,byte.toNat_lt⟩

/-- An escape of seven bits is read back; of the others only the backslash is passed on. -/
theorem jsonUnescapeString_escaped (escaped : Escaped byte text) :
    if byte < 128 then jsonUnescapeString (text ++ rest) = byte :: jsonUnescapeString rest
    else ∃ behind, jsonUnescapeString (text ++ rest) = 92 :: behind := by
  have backslash : (92 : UInt8) = backslashByte := rfl
  cases escaped with
  | plain ordinary =>
    rw [if_pos (UInt8.lt_trans ordinary.2.1 (by decide))]
    exact jsonUnescapeString_plain byte rest ordinary.2.2.2
  | short letter back =>
    have small : byte < 128 := by
      unfold plainEscape at back
      repeat (split at back <;> (try cases back) <;> (try decide))
    rw [if_pos small,List.cons_append,List.cons_append,jsonUnescapeString.eq_def]
    dsimp only
    rw [if_pos backslash,back]
    rfl
  | unit =>
    obtain ⟨high,low,digits,read⟩ := asciiEscape_hexByte byte
    rw [digits]
    simp only [List.cons_append,List.nil_append]
    rw [jsonUnescapeString,if_pos backslash]
    have unknown : plainEscape 117 = none := rfl
    simp only [unknown,if_true,read]
    by_cases seven : byte < 128
    · simp [seven]
    · simp [seven]

theorem utf8EncodeChar_seven (seven : byte < 127) :
    String.utf8EncodeChar (Char.ofNat byte.toNat) = [byte] ∧ (Char.ofNat byte.toNat).toNat = byte.toNat := by
  have all : ∀ n : Fin 127, String.utf8EncodeChar (Char.ofNat n) = [UInt8.ofNat n] ∧
      (Char.ofNat n).toNat = n := by decide +kernel
  simpa using all ⟨byte.toNat,UInt8.lt_iff_toNat_lt.mp seven⟩

theorem Escaped.body {byte : UInt8} {text : Bytes} (escaped : Escaped byte text) (rest : Bytes)
    (body : JsonText.StringBody rest) : JsonText.StringBody (text ++ rest) := by
  cases escaped with
  | plain ordinary =>
    obtain ⟨low,high,quote,backslash⟩ := ordinary
    obtain ⟨encoded,value⟩ := utf8EncodeChar_seven byte high
    rw [← encoded]
    refine .character _ rest ⟨?_,?_,?_⟩ body
    · rw [value]
      exact UInt8.le_iff_toNat_le.mp low
    · intro same
      exact quote (UInt8.toNat_inj.mp (by rw [← value,same]; rfl))
    · intro same
      exact backslash (UInt8.toNat_inj.mp (by rw [← value,same]; rfl))
  | short letter back =>
    refine .short letter rest ?_ body
    unfold plainEscape at back
    repeat (split at back <;> (try subst letter) <;> (try decide))
    cases back
  | unit =>
    refine .unit (48 :: 48 :: hexByte byte) rest rfl ?_ body
    have all : ∀ n : Fin 16, (hexValue (hexDigit n)).isSome := by decide
    have high := all ⟨byte.toNat / 16,Nat.div_lt_of_lt_mul byte.toNat_lt⟩
    have low := all ⟨byte.toNat % 16,Nat.mod_lt _ (by decide)⟩
    simp only [hexByte,List.mem_cons,List.not_mem_nil,or_false]
    rintro digit (rfl | rfl | rfl | rfl)
    · rfl
    · rfl
    · exact high
    · exact low

/-- What stands between the quotes is a JSON string body for every text, but it is read back
as the text only if all its bytes are ASCII. -/
theorem escaped_strings_return_iff (text : Bytes) :
    ∃ body, jsonEscapeString text = 34 :: (body ++ [34]) ∧
      (jsonUnescapeString body = text ↔ ∀ byte ∈ text, byte < 128) ∧ JsonText.StringBody body := by
  refine ⟨text.flatMap jsonEscapeByte,rfl,?_⟩
  induction text with
  | nil => exact ⟨by simp [jsonUnescapeString],.nil⟩
  | cons byte text ih =>
    have escaped := jsonEscapeByte_escaped byte
    have read := jsonUnescapeString_escaped byte _ (text.flatMap jsonEscapeByte) escaped
    rw [List.flatMap_cons]
    refine ⟨?_,escaped.body _ ih.2⟩
    rw [List.forall_mem_cons]
    split at read
    · rename_i seven
      rw [read,← ih.1]
      simp [seven]
    rename_i eight
    obtain ⟨behind,read⟩ := read
    rw [read]
    refine iff_of_false (fun same => ?_) (fun all => eight all.1)
    rw [← (List.cons.inj same).1] at eight
    exact eight (by decide)

/-- The two bytes of an accented letter come back as twelve. -/
theorem accented_letter_lost :
    jsonEscapeString [0xC3,0xA9] = ascii "\"\\u00c3\\u00a9\"" ∧
      jsonUnescapeString (ascii "\\u00c3\\u00a9") = ascii "\\u00c3\\u00a9" := by
  decide +kernel

end AuthorityKernel.Proxy
