import AuthorityKernel.Library.JsonText
import AuthorityKernel.Policy.Parse

/-! The tokens of policy documents: strings, keys and the values that are skipped. For each
scanner, what it makes of a token it should read, and the token that stands behind what it read. -/
namespace AuthorityKernel.Policy
open Library Library.JsonText Json

def decode : List Piece → Option Bytes
  | [] => some []
  | .plain byte _ :: rest => (decode rest).map (byte :: ·)
  | .escape byte :: rest => (unescape byte).bind fun char => (decode rest).map (char :: ·)

structure Quoted where
  pieces : List Piece
  bytes : Bytes
  decodes : decode pieces = some bytes

def Quoted.text (quoted : Quoted) : Bytes := literal quoted.pieces

def Quoted.held (quoted : Quoted) (size : Nat) : CString := .ofBuffer (quoted.bytes.take (size - 1))

variable (depth : Nat) (inString : Bool) (quoted : Quoted) (blanks : Blanks) (byte : UInt8)

theorem pjSkipWs_blanks (rest : Bytes) (stops : ∀ byte ∈ rest.head?, blank byte = false) :
    pjSkipWs (blanks.1 ++ rest) = rest := dropWhile_blanks blanks rest stops

theorem pjSkipWs_split (p : Bytes) : ∃ blanks : Blanks, p = blanks.1 ++ pjSkipWs p :=
  ⟨leadingBlanks p,(leadingBlanks_append p).symm⟩

theorem pjSkipWs_head (p : Bytes) : ∀ byte ∈ (pjSkipWs p).head?, blank byte = false := by
  intro byte first
  have stopped := List.head?_dropWhile_not blank p
  rw [show (p.dropWhile blank).head? = some byte from first] at stopped
  exact stopped

theorem pjSkipWs_idem (p : Bytes) : pjSkipWs (pjSkipWs p) = pjSkipWs p :=
  pjSkipWs_blanks ⟨[],by simp⟩ (pjSkipWs p) (pjSkipWs_head p)

theorem stringChars_plain (ordinary : byte ≠ 34 ∧ byte ≠ 92) (rest : Bytes) :
    stringChars (byte :: rest) = (stringChars rest).map fun read => (byte :: read.1,read.2) := by
  rw [stringChars.eq_def]
  dsimp only
  rw [if_neg (show ¬byte = quoteByte from ordinary.1),if_neg (show ¬byte = backslashByte from ordinary.2)]

theorem stringChars_escape (rest : Bytes) :
    stringChars (92 :: byte :: rest) =
      (unescape byte).bind fun char => (stringChars rest).map fun read => (char :: read.1,read.2) := by
  rw [stringChars.eq_def]
  dsimp only
  rw [if_neg (by decide),if_pos (show (92 : UInt8) = backslashByte from rfl)]
  cases unescape byte <;> rfl

theorem stringChars_body (pieces : List Piece) (rest : Bytes) :
    stringChars (bodyText pieces ++ 34 :: rest) = (decode pieces).map fun bytes => (bytes,rest) := by
  induction pieces with
  | nil =>
    refine (stringChars.eq_def _).trans ?_
    exact if_pos rfl
  | cons piece pieces ih =>
    cases piece with
    | plain byte ordinary =>
      refine (stringChars_plain byte ordinary (bodyText pieces ++ 34 :: rest)).trans ?_
      rw [ih,decode]
      cases decode pieces <;> rfl
    | escape byte =>
      refine (stringChars_escape byte (bodyText pieces ++ 34 :: rest)).trans ?_
      rw [ih,decode]
      cases unescape byte with
      | none => rfl
      | some char => cases decode pieces <;> rfl

theorem stringChars_split (p bytes rest : Bytes) (read : stringChars p = some (bytes,rest)) :
    ∃ pieces, decode pieces = some bytes ∧ p = bodyText pieces ++ 34 :: rest := by
  fun_induction stringChars p generalizing bytes with
  | case1 | case3 | case4 => cases read
  | case2 tail =>
    cases read
    exact ⟨[],rfl,rfl⟩
  | case5 next after char known _ ih =>
    obtain ⟨⟨inner,behind⟩,found,same⟩ := Option.map_eq_some_iff.mp read
    cases same
    obtain ⟨pieces,decodes,rfl⟩ := ih inner found
    exact ⟨.escape next :: pieces,by simp [decode,known,decodes],rfl⟩
  | case6 byte tail unquoted plain ih =>
    obtain ⟨⟨inner,behind⟩,found,same⟩ := Option.map_eq_some_iff.mp read
    cases same
    obtain ⟨pieces,decodes,rfl⟩ := ih inner found
    exact ⟨.plain byte ⟨unquoted,plain⟩ :: pieces,by simp [decode,decodes],rfl⟩

theorem pjParseString_quoted (rest : Bytes) (maxLen : Nat) :
    pjParseString (quoted.text ++ rest) maxLen = some (quoted.held maxLen,rest) := by
  rw [Quoted.text,literal_append,pjParseString,if_pos (show (34 : UInt8) = quoteByte from rfl),stringChars_body,
    quoted.decodes]
  rfl

theorem pjParseString_split (p : Bytes) (maxLen : Nat) (name : CString) (rest : Bytes)
    (read : pjParseString p maxLen = some (name,rest)) :
    ∃ quoted : Quoted, p = quoted.text ++ rest ∧ name = quoted.held maxLen := by
  cases p with
  | nil => cases read
  | cons byte tail =>
    rw [pjParseString] at read
    split at read
    · rename_i quote
      obtain ⟨⟨bytes,behind⟩,found,same⟩ := Option.map_eq_some_iff.mp read
      cases same
      obtain ⟨pieces,decodes,rfl⟩ := stringChars_split tail bytes behind found
      exact ⟨⟨pieces,bytes,decodes⟩,by rw [Quoted.text,literal_append,quote]; rfl,rfl⟩
    · cases read

theorem Quoted.text_head (rest : Bytes) : (quoted.text ++ rest).head? = some 34 := by
  rw [text,literal_append]
  rfl

/-! A scanner that has read all of a text leaves what is put behind the text, and what it
leaves of a text is the text without a part that it reads to the end. -/

theorem skipString_append (t u rest : Bytes) (read : skipString t = some u) :
    skipString (t ++ rest) = some (u ++ rest) := by
  fun_induction skipString t <;> simp_all [skipString.eq_def (_ :: _)]

theorem skipString_split (p rest : Bytes) (read : skipString p = some rest) :
    ∃ t, p = t ++ rest ∧ skipString t = some [] := by
  fun_induction skipString p with
  | case1 | case3 => cases read
  | case2 tail =>
    cases read
    exact ⟨[quoteByte],rfl,rfl⟩
  | case4 byte after unquoted ih =>
    obtain ⟨t,rfl,whole⟩ := ih read
    exact ⟨backslashByte :: byte :: t,rfl,by simp [skipString.eq_def (_ :: _),unquoted,whole]⟩
  | case5 byte tail unquoted plain ih =>
    obtain ⟨t,rfl,whole⟩ := ih read
    exact ⟨byte :: t,rfl,by simp [skipString.eq_def (_ :: _),unquoted,plain,whole]⟩

theorem skipNested_append (t u rest : Bytes) (read : skipNested depth inString t = some u)
    : skipNested depth inString (t ++ rest) = some (u ++ rest) := by
  fun_induction skipNested depth inString t <;> simp_all [skipNested.eq_def _ _ (_ :: _)]

theorem skipNested_split {depth : Nat} {inString : Bool} {p rest : Bytes}
    (read : skipNested depth inString p = some rest) :
    ∃ t, p = t ++ rest ∧ skipNested depth inString t = some [] := by
  fun_induction skipNested depth inString p with
  | case1 | case3 | case6 => cases read
  | case2 depth tail ih =>
    obtain ⟨t,rfl,whole⟩ := ih read
    exact ⟨quoteByte :: t,rfl,by simp [skipNested.eq_def _ _ (_ :: _),whole]⟩
  | case4 depth byte after unquoted ih =>
    obtain ⟨t,rfl,whole⟩ := ih read
    exact ⟨backslashByte :: byte :: t,rfl,by simp [skipNested.eq_def _ _ (_ :: _),unquoted,whole]⟩
  | case5 depth byte tail unquoted plain ih =>
    obtain ⟨t,rfl,whole⟩ := ih read
    exact ⟨byte :: t,rfl,by simp [skipNested.eq_def _ _ (_ :: _),unquoted,plain,whole]⟩
  | case7 depth inString byte tail outside opens deep ih =>
    obtain ⟨t,rfl,whole⟩ := ih read
    exact ⟨byte :: t,rfl,by simp_all [skipNested.eq_def _ _ (_ :: _)]⟩
  | case8 depth inString byte tail outside notOpen closes last =>
    cases read
    exact ⟨[byte],rfl,by simp_all [skipNested.eq_def _ _ (_ :: _)]⟩
  | case9 _ _ byte _ _ _ _ _ ih | case11 _ _ byte _ _ _ _ _ ih =>
    obtain ⟨t,rfl,whole⟩ := ih read
    exact ⟨byte :: t,rfl,by simp_all [skipNested.eq_def _ _ (_ :: _)]⟩
  | case10 depth inString tail outside notOpen notClose ih =>
    obtain ⟨t,rfl,whole⟩ := ih read
    exact ⟨quoteByte :: t,rfl,by simp_all [skipNested.eq_def _ _ (_ :: _)]⟩

def Follows (rest : Bytes) : Prop := ∀ byte ∈ rest.head?, blank byte = true ∨ byte = 44 ∨ byte = 125 ∨ byte = 34

def Skippable (t : Bytes) : Prop := pjSkipValue t = some []

def numberByte (byte : UInt8) : Bool := isDigit byte || byte == 46

variable {rest p t : Bytes}

theorem Follows.noNumber (follows : Follows rest) : ∀ byte ∈ rest.head?, numberByte byte = false := by
  intro byte first
  rcases follows byte first with isBlank | rfl | rfl | rfl
  · simp only [blank,Bool.or_eq_true,beq_iff_eq] at isBlank
    rcases isBlank with ((rfl | rfl) | rfl) | rfl <;> rfl
  · rfl
  · rfl
  · rfl

theorem dropWhile_number {text rest : Bytes} (all : text.dropWhile numberByte = [])
    (follows : Follows rest) : (text ++ rest).dropWhile numberByte = rest := by
  rw [List.dropWhile_append_of_pos (List.dropWhile_eq_nil_iff.mp all)]
  cases rest with
  | nil => rfl
  | cons byte rest => rw [List.dropWhile_cons_of_neg (by rw [follows.noNumber byte rfl]; exact Bool.false_ne_true)]

def skippedWords : List Bytes := [ascii "true",ascii "false",ascii "null"]

inductive SkipsToken : Bytes → Bytes → Prop
  | string {tail rest : Bytes} (read : skipString tail = some rest) : SkipsToken (34 :: tail) rest
  | nested {byte : UInt8} {tail rest : Bytes} (opens : isOpen byte = true)
      (read : skipNested 0 false (byte :: tail) = some rest) : SkipsToken (byte :: tail) rest
  | number {byte : UInt8} {tail : Bytes} (first : byte = 45 ∨ isDigit byte = true) :
      SkipsToken (byte :: tail) (tail.dropWhile numberByte)
  | word {text rest : Bytes} (known : text ∈ skippedWords) : SkipsToken (text ++ rest) rest

theorem skips_word {text p rest : Bytes} (known : text ∈ skippedWords) (leads : text.isPrefixOf p = true)
    (read : some (p.drop text.length) = some rest) : SkipsToken p rest := by
  obtain ⟨behind,rfl⟩ := List.isPrefixOf_iff_prefix.mp leads
  rw [List.drop_left] at read
  cases read
  exact .word known

theorem SkipsToken.of_skip (p rest : Bytes) (read : pjSkipValue p = some rest) : SkipsToken (pjSkipWs p) rest := by
  unfold pjSkipValue at read
  split at read
  · cases read
  rename_i byte tail blanks
  rw [blanks]
  split at read
  · rename_i quote
    rw [quote]
    exact .string read
  split at read
  · rename_i opens
    exact .nested opens read
  split at read
  · rename_i minus
    cases read
    exact .number (Or.inl minus)
  split at read
  · rename_i digit
    cases read
    rw [List.dropWhile_cons_of_pos (by rw [digit]; rfl)]
    exact .number (Or.inr digit)
  split at read
  · rename_i leads
    exact skips_word (by simp [skippedWords]) leads read
  split at read
  · rename_i leads
    exact skips_word (by simp [skippedWords]) leads read
  split at read
  · rename_i leads
    exact skips_word (by simp [skippedWords]) leads read
  · cases read

theorem isOpen_iff : isOpen byte = true ↔ byte = 123 ∨ byte = 91 := by
  simp [isOpen]

theorem digit_plain (digit : isDigit byte = true) : byte ≠ quoteByte ∧ isOpen byte = false ∧ byte ≠ 45 := by
  refine ⟨?_,?_,?_⟩
  · rintro rfl
    exact absurd digit (by decide)
  · rw [← Bool.not_eq_true,isOpen_iff]
    rintro (rfl | rfl) <;> exact absurd digit (by decide)
  · rintro rfl
    exact absurd digit (by decide)

theorem SkipsToken.skip (skips : SkipsToken (pjSkipWs p) rest) : pjSkipValue p = some rest := by
  unfold pjSkipValue
  generalize pjSkipWs p = token at skips
  cases skips with
  | string read => exact (if_pos rfl).trans read
  | @nested byte tail _ opens read =>
    have unquoted : byte ≠ quoteByte := by
      rintro rfl
      exact absurd opens (by decide)
    dsimp only
    rw [if_neg unquoted,if_pos opens]
    exact read
  | @number byte tail first =>
    rcases first with rfl | digit
    · rfl
    have plain := digit_plain byte digit
    dsimp only
    rw [if_neg plain.1,plain.2.1,if_neg Bool.false_ne_true,if_neg plain.2.2,if_pos digit,
      List.dropWhile_cons_of_pos (by rw [digit]; rfl)]
    rfl
  | @word text rest known =>
    simp only [skippedWords,List.mem_cons,List.not_mem_nil,or_false] at known
    rcases known with rfl | rfl | rfl
    all_goals rfl

theorem SkipsToken.append (skips : SkipsToken p []) (follows : Follows rest) : SkipsToken (p ++ rest) rest := by
  generalize left : ([] : Bytes) = nothing at skips
  cases skips with
  | string read => exact .string (by simpa [← left] using skipString_append _ _ rest read)
  | nested opens read => exact .nested opens (by simpa [← left] using skipNested_append _ _ _ _ rest read)
  | @number byte tail first =>
    have read := dropWhile_number left.symm follows
    have passed : SkipsToken (byte :: (tail ++ rest)) ((tail ++ rest).dropWhile numberByte) := .number first
    rwa [read] at passed
  | @word text behind known =>
    subst left
    rw [List.append_nil]
    exact .word known

theorem SkipsToken.split (skips : SkipsToken p rest) : ∃ t, p = t ++ rest ∧ SkipsToken t [] := by
  cases skips with
  | string read =>
    obtain ⟨t,rfl,whole⟩ := skipString_split _ _ read
    exact ⟨34 :: t,rfl,.string whole⟩
  | @nested byte tail _ opens read =>
    obtain ⟨t,same,whole⟩ := skipNested_split read
    cases t with
    | nil => cases whole
    | cons first t =>
      obtain ⟨rfl,rfl⟩ := List.cons.inj same
      exact ⟨byte :: t,rfl,.nested opens whole⟩
  | @number byte tail first =>
    refine ⟨byte :: tail.takeWhile numberByte,by rw [List.cons_append,List.takeWhile_append_dropWhile],?_⟩
    have all : (tail.takeWhile numberByte).dropWhile numberByte = [] :=
      List.dropWhile_eq_nil_iff.mpr fun byte => List.mem_takeWhile_imp
    have passed : SkipsToken (byte :: tail.takeWhile numberByte) ((tail.takeWhile numberByte).dropWhile numberByte) :=
      .number first
    rwa [all] at passed
  | @word text rest known =>
    refine ⟨text,rfl,?_⟩
    have passed : SkipsToken (text ++ []) [] := .word known
    rwa [List.append_nil] at passed

theorem SkipsToken.head (skips : SkipsToken p rest) : ∃ byte tail, p = byte :: tail ∧ blank byte = false := by
  cases skips with
  | string => exact ⟨34,_,rfl,rfl⟩
  | @nested byte _ _ opens =>
    refine ⟨byte,_,rfl,?_⟩
    rcases (isOpen_iff byte).mp opens with rfl | rfl <;> rfl
  | @number byte _ first =>
    refine ⟨byte,_,rfl,?_⟩
    rcases first with rfl | digit
    · rfl
    · rw [← Bool.not_eq_true]
      simp only [blank,Bool.or_eq_true,beq_iff_eq]
      rintro (((rfl | rfl) | rfl) | rfl) <;> exact absurd digit (by decide)
  | word known =>
    simp only [skippedWords,List.mem_cons,List.not_mem_nil,or_false] at known
    rcases known with rfl | rfl | rfl
    all_goals exact ⟨_,_,rfl,rfl⟩

theorem pjSkipWs_append (p : Bytes) : pjSkipWs (blanks.1 ++ p) = pjSkipWs p :=
  List.dropWhile_append_of_pos blanks.2

theorem pjSkipValue_append (p : Bytes) : pjSkipValue (blanks.1 ++ p) = pjSkipValue p := by
  simp only [pjSkipValue,pjSkipWs_append]

theorem Skippable.head (skippable : Skippable t) :
    ∃ (blanks : Blanks) (byte : UInt8) (tail : Bytes), t = blanks.1 ++ byte :: tail ∧ blank byte = false := by
  obtain ⟨blanks,whole⟩ := pjSkipWs_split t
  obtain ⟨byte,tail,first,stops⟩ := (SkipsToken.of_skip t [] skippable).head
  exact ⟨blanks,byte,tail,first ▸ whole,stops⟩

theorem Skippable.skipWs (skippable : Skippable t) (rest : Bytes) : pjSkipWs (t ++ rest) = pjSkipWs t ++ rest := by
  obtain ⟨blanks,byte,tail,rfl,stops⟩ := skippable.head
  rw [List.append_assoc,pjSkipWs_blanks blanks _ (by rintro _ ⟨⟩; exact stops),
    pjSkipWs_blanks blanks _ (by rintro _ ⟨⟩; exact stops)]

theorem Skippable.append (skippable : Skippable t) (follows : Follows rest) :
    pjSkipValue (t ++ rest) = some rest := by
  apply SkipsToken.skip
  rw [skippable.skipWs rest]
  exact (SkipsToken.of_skip t [] skippable).append follows

theorem pjSkipValue_split {p rest : Bytes} (read : pjSkipValue p = some rest) :
    ∃ t, p = t ++ rest ∧ Skippable t := by
  obtain ⟨t,same,token⟩ := (SkipsToken.of_skip p rest read).split
  obtain ⟨blanks,whole⟩ := pjSkipWs_split p
  refine ⟨blanks.1 ++ t,by rw [List.append_assoc,← same]; exact whole,?_⟩
  obtain ⟨byte,tail,first,stops⟩ := token.head
  rw [Skippable,pjSkipValue_append]
  apply SkipsToken.skip
  rw [first] at token ⊢
  rw [← List.nil_append (byte :: tail),pjSkipWs_blanks ⟨[],by simp⟩ _ (by rintro _ ⟨⟩; exact stops)]
  exact token

theorem parseKey_quoted (key : Quoted) (gap : Blanks) (rest : Bytes) (maxLen : Nat) :
    parseKey (key.text ++ (gap.1 ++ 58 :: rest)) maxLen = some (key.held maxLen,rest) := by
  rw [parseKey,pjParseString_quoted]
  dsimp only
  rw [pjSkipWs_blanks gap (58 :: rest) (by rintro _ ⟨⟩; rfl)]
  rfl

theorem parseKey_split {p : Bytes} {maxLen : Nat} {name : CString} {rest : Bytes}
    (read : parseKey p maxLen = some (name,rest)) :
    ∃ (key : Quoted) (gap : Blanks), p = key.text ++ (gap.1 ++ 58 :: rest) ∧ name = key.held maxLen := by
  unfold parseKey at read
  split at read
  · cases read
  rename_i name' after parsed
  obtain ⟨key,rfl,rfl⟩ := pjParseString_split p maxLen name' after parsed
  split at read
  · cases read
  rename_i byte tail blanks
  split at read
  · rename_i colon
    cases read
    obtain ⟨gap,whole⟩ := pjSkipWs_split after
    rw [blanks,colon] at whole
    exact ⟨key,gap,by rw [whole],rfl⟩
  · cases read

end AuthorityKernel.Policy
