import AuthorityKernel.Library.Guards
import AuthorityKernel.Library.Text

/-! The escapers for HTML, URLs, shell commands and SQL, each beside a reader of its target
language that refuses what is not escaped. -/
namespace AuthorityKernel.Sanitize
open Library

/-- A buffer `factor` times as long is filled byte by byte. -/
def encodeBytes (factor : Nat) (code : UInt8 → Bytes) (alloc : Bool) (input : Option Bytes) : Option Bytes :=
  match input with
  | none => none
  | some src =>
      if src ≠ [] ∧ (2 ^ 64 - 1) / factor < src.length then none else if alloc then some (src.flatMap code) else none

def htmlCode (byte : UInt8) : Bytes :=
  if byte = 60 then ascii "&lt;"
  else if byte = 62 then ascii "&gt;"
  else if byte = 38 then ascii "&amp;"
  else if byte = 34 then ascii "&quot;"
  else if byte = 39 then ascii "&#x27;"
  else [byte]

def akSanitizeHtml : Bool → Option Bytes → Option Bytes := encodeBytes 6 htmlCode

def hexChars (nibble : Nat) : UInt8 := (ascii "0123456789ABCDEF").getD nibble 0

def isUrlSafe (byte : UInt8) : Bool :=
  (65 ≤ byte && byte ≤ 90) || (97 ≤ byte && byte ≤ 122) || (48 ≤ byte && byte ≤ 57) ||
    byte == 45 || byte == 95 || byte == 46 || byte == 126

def urlCode (byte : UInt8) : Bytes :=
  if isUrlSafe byte then [byte] else [37,hexChars (byte.toNat / 16),hexChars (byte.toNat % 16)]

def akSanitizeUrl : Bool → Option Bytes → Option Bytes := encodeBytes 3 urlCode

def cmdCode (byte : UInt8) : Bytes := if byte = 39 then [39,92,39,39] else [byte]

def akSanitizeCmd (alloc : Bool) (input : Option Bytes) : Option Bytes :=
  match input with
  | none => none
  | some src =>
      if 2 ^ 64 ≤ src.length + src.count 39 * 3 + 2 then none
      else if alloc then some (39 :: (src.flatMap cmdCode ++ [39])) else none

def sqlCode (byte : UInt8) : Bytes :=
  if byte = 39 then [39,39]
  else if byte = 34 then [92,34]
  else if byte = 92 then [92,92]
  else if byte = 0 then [92,48]
  else if byte = 10 then [92,110]
  else if byte = 13 then [92,114]
  else if byte = 26 then [92,90]
  else [byte]

/-- Semicolons and comment starts are refused. -/
def sqlRefuses : Bytes → Bool
  | [] => false
  | byte :: rest => byte == 59 || (byte == 45 && rest.head? == some 45) || sqlRefuses rest

def akSanitizeSql (alloc : Bool) (input : Option Bytes) : Option Bytes :=
  match input with
  | none => none
  | some src => if sqlRefuses src then none else encodeBytes 2 sqlCode alloc input

/-! ### The target languages -/

def reference (name : Bytes) : Option UInt8 :=
  [(ascii "lt",60),(ascii "gt",62),(ascii "amp",38),(ascii "quot",34),(ascii "#x27",39)].lookup name

/-- Text with character references; `name` is what was read of a reference so far. -/
def htmlText (name : Option Bytes) : Bytes → Option Bytes
  | [] => if name = none then some [] else none
  | byte :: rest =>
      match name with
      | none =>
          if byte = 38 then htmlText (some []) rest
          else if byte ∈ [60,62,34,39] then none
          else (byte :: ·) <$> htmlText none rest
      | some name =>
          if byte = 59 then (reference name).bind fun value => (value :: ·) <$> htmlText none rest
          else htmlText (some (name ++ [byte])) rest

/-- Unreserved characters and percent escapes. -/
def percentText : Bytes → Option Bytes
  | [] => some []
  | 37 :: high :: low :: rest => (unhexByte high low).bind fun value => (value :: ·) <$> percentText rest
  | byte :: rest => if isUrlSafe byte then (byte :: ·) <$> percentText rest else none

/-- One word: quoted pieces, escaped characters and plain ones. -/
def shellWord (quoted : Bool) : Bytes → Option Bytes
  | [] => if quoted then none else some []
  | byte :: rest =>
      if byte = 39 then shellWord (!quoted) rest
      else if quoted || (isUrlSafe byte && byte != 126) then (byte :: ·) <$> shellWord quoted rest
      else if byte = 92 then
        match rest with
        | [] => none
        | char :: rest => (char :: ·) <$> shellWord false rest
      else none

/-- The rest of a string literal: its first undoubled quote is its last byte. -/
def sqlLiteral (backslash : Bool) : Bytes → Bool
  | [] => false
  | [byte] => byte == 39
  | byte :: next :: rest =>
      if byte = 39 then next == 39 && sqlLiteral backslash rest
      else if byte = 92 ∧ backslash then sqlLiteral backslash rest
      else sqlLiteral backslash (next :: rest)

variable (backslash : Bool) (byte : UInt8) (rest : Bytes)

theorem htmlText_htmlCode :
    htmlText none (htmlCode byte ++ rest) = (byte :: ·) <$> htmlText none rest := by
  unfold htmlCode
  split
  · subst byte; rfl
  split
  · subst byte; rfl
  split
  · subst byte; rfl
  split
  · subst byte; rfl
  split
  · subst byte; rfl
  rename_i less greater amp quote apostrophe
  rw [List.singleton_append,htmlText,if_neg amp,if_neg (by simp [less,greater,quote,apostrophe])]

theorem percentText_urlCode :
    percentText (urlCode byte ++ rest) = (byte :: ·) <$> percentText rest := by
  have read : ∀ n : Fin 256, unhexByte (hexChars (n / 16)) (hexChars (n % 16)) = some (UInt8.ofNat n) := by
    decide +kernel
  have read : unhexByte (hexChars (byte.toNat / 16)) (hexChars (byte.toNat % 16)) = some byte := by
    simpa using read ⟨byte.toNat,byte.toNat_lt⟩
  unfold urlCode
  split
  · rename_i safe
    rw [List.singleton_append,percentText,if_pos safe]
    rintro high low after rfl
    exact absurd safe (by decide)
  · simp only [List.cons_append,List.nil_append]
    rw [percentText,read]
    rfl

theorem shellWord_quote (quoted : Bool) (rest : Bytes) : shellWord quoted (39 :: rest) = shellWord (!quoted) rest := by
  rw [shellWord.eq_def]
  rfl

theorem shellWord_cmdCode :
    shellWord true (cmdCode byte ++ rest) = (byte :: ·) <$> shellWord true rest := by
  unfold cmdCode
  split
  · subst byte
    have strange : isUrlSafe 92 = false := rfl
    simp [shellWord_quote,shellWord,strange]
  rename_i plain
  rw [List.singleton_append,shellWord.eq_def]
  dsimp only
  rw [if_neg plain,if_pos (by simp)]

theorem sqlLiteral_sqlCode (filled : rest ≠ []) :
    sqlLiteral backslash (sqlCode byte ++ rest) = sqlLiteral backslash rest := by
  obtain ⟨next,rest,rfl⟩ := List.exists_cons_of_ne_nil filled
  have escape : ∀ char, char ≠ 39 →
      sqlLiteral backslash (92 :: char :: next :: rest) = sqlLiteral backslash (next :: rest) := by
    intro char quote
    cases backslash <;> simp [sqlLiteral,quote]
  unfold sqlCode
  split
  · rfl
  split
  · exact escape 34 (by decide)
  split
  · exact escape 92 (by decide)
  split
  · exact escape 48 (by decide)
  split
  · exact escape 110 (by decide)
  split
  · exact escape 114 (by decide)
  split
  · exact escape 90 (by decide)
  rename_i quote _ plain _ _ _ _
  simp [sqlLiteral,quote,plain]

theorem sqlLiteral_flatMap (input : Bytes) :
    sqlLiteral backslash (input.flatMap sqlCode ++ [39]) = true := by
  induction input with
  | nil => rfl
  | cons byte input ih => rw [List.flatMap_cons,List.append_assoc,sqlLiteral_sqlCode _ _ _ (by simp),ih]

theorem flatMap_read {code : UInt8 → Bytes} {read : Bytes → Option Bytes} {tail : Bytes}
    (one : ∀ byte rest, read (code byte ++ rest) = (byte :: ·) <$> read rest) (last : read tail = some [])
    (input : Bytes) : read (input.flatMap code ++ tail) = some input := by
  induction input with
  | nil => exact last
  | cons byte input ih => rw [List.flatMap_cons,List.append_assoc,one,ih]; rfl

theorem encodeBytes_eq {factor : Nat} {code : UInt8 → Bytes} {alloc : Bool} {input out : Bytes}
    (done : encodeBytes factor code alloc (some input) = some out) : input.flatMap code = out := by
  obtain ⟨_,done⟩ := Guards.passed done nofun
  split at done
  · exact Option.some.inj done
  · contradiction

theorem encodeBytes_isSome {factor : Nat} (code : UInt8 → Bytes) {input : Bytes}
    (fits : input.length ≤ (2 ^ 64 - 1) / factor) : (encodeBytes factor code true (some input)).isSome = true := by
  rw [encodeBytes,if_neg fun long => Nat.not_lt.mpr fits long.2]
  rfl

theorem akSanitizeCmd_isSome (input : Bytes) (fits : 4 * input.length + 2 < 2 ^ 64) :
    (akSanitizeCmd true (some input)).isSome = true := by
  have quotes : input.count 39 ≤ input.length := List.count_le_length
  rw [akSanitizeCmd,if_neg (by omega)]
  rfl

/-- What the escapers write is read back as their input, with nothing left that the target
language would take for itself, and an SQL text is the inside of one literal. With memory
for the output, every input that can be held is escaped; only SQL refuses some. -/
theorem escapes_read_back (alloc : Bool) (input : Bytes) :
    (∀ out, akSanitizeHtml alloc (some input) = some out → htmlText none out = some input) ∧
    (∀ out, akSanitizeUrl alloc (some input) = some out → percentText out = some input) ∧
    (∀ out, akSanitizeCmd alloc (some input) = some out → shellWord false out = some input) ∧
    (∀ out backslash, akSanitizeSql alloc (some input) = some out → sqlLiteral backslash (out ++ [39]) = true) ∧
    (alloc = true → 6 * input.length < 2 ^ 64 →
      (akSanitizeHtml alloc (some input)).isSome = true ∧ (akSanitizeUrl alloc (some input)).isSome = true ∧
        (akSanitizeCmd alloc (some input)).isSome = true ∧
        ((akSanitizeSql alloc (some input)).isSome = true ↔ sqlRefuses input = false)) := by
  refine ⟨fun out done => ?_,fun out done => ?_,fun out done => ?_,fun out backslash done => ?_,?_⟩
  · rw [← encodeBytes_eq done,← List.append_nil (input.flatMap htmlCode)]
    exact flatMap_read htmlText_htmlCode rfl input
  · rw [← encodeBytes_eq done,← List.append_nil (input.flatMap urlCode)]
    exact flatMap_read percentText_urlCode rfl input
  · obtain ⟨_,done⟩ := Guards.passed done nofun
    split at done
    · rw [← Option.some.inj done,shellWord_quote]
      exact flatMap_read shellWord_cmdCode rfl input
    · contradiction
  · obtain ⟨_,done⟩ := Guards.passed done nofun
    rw [← encodeBytes_eq done]
    exact sqlLiteral_flatMap backslash input
  · rintro rfl fits
    refine ⟨encodeBytes_isSome htmlCode (by omega),encodeBytes_isSome urlCode (by omega),
      akSanitizeCmd_isSome input (by omega),?_⟩
    have encoded : (encodeBytes 2 sqlCode true (some input)).isSome = true := encodeBytes_isSome sqlCode (by omega)
    cases refuses : sqlRefuses input <;> simp [akSanitizeSql,refuses,encoded]

example : akSanitizeSql true (some (ascii "O'Hara\\")) = some (ascii "O''Hara\\\\") := by decide +kernel

end AuthorityKernel.Sanitize
