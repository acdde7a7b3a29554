import AuthorityKernel.Library.Text

/-! The pieces JSON texts are made of: blanks and quoted strings. A string is kept as it is
written, escape by escape, so that its text can be told apart from what it stands for. -/
namespace AuthorityKernel.Library.JsonText

def blank (byte : UInt8) : Bool := byte == 32 || byte == 9 || byte == 10 || byte == 13

abbrev Blanks := { text : Bytes // ∀ byte ∈ text, blank byte = true }

/-- A byte that stands for itself, or a backslash with the byte behind it. -/
inductive Piece
  | plain (byte : UInt8) (ordinary : byte ≠ 34 ∧ byte ≠ 92)
  | escape (byte : UInt8)

def Piece.text : Piece → Bytes
  | .plain byte _ => [byte]
  | .escape byte => [92,byte]

def bodyText (pieces : List Piece) : Bytes := pieces.flatMap Piece.text

def literal (pieces : List Piece) : Bytes := 34 :: (bodyText pieces ++ [34])

theorem literal_append (pieces : List Piece) (rest : Bytes) :
    literal pieces ++ rest = 34 :: (bodyText pieces ++ 34 :: rest) := by
  simp [literal]

theorem dropWhile_blanks (blanks : Blanks) (rest : Bytes) (stops : ∀ byte ∈ rest.head?, blank byte = false) :
    (blanks.1 ++ rest).dropWhile blank = rest := by
  rw [List.dropWhile_append_of_pos blanks.2]
  cases rest with
  | nil => rfl
  | cons byte rest => rw [List.dropWhile_cons_of_neg (by rw [stops byte rfl]; exact Bool.false_ne_true)]

def leadingBlanks (text : Bytes) : Blanks := ⟨text.takeWhile blank,fun _ => List.mem_takeWhile_imp⟩

theorem leadingBlanks_append (text : Bytes) : (leadingBlanks text).1 ++ text.dropWhile blank = text :=
  List.takeWhile_append_dropWhile

/-- What may stand between the quotes of a JSON string: characters other than controls, the quote and the
backslash, in UTF-8, and the escapes. -/
inductive StringBody : Bytes → Prop
  | nil : StringBody []
  | character (char : Char) (rest : Bytes) (ordinary : 32 ≤ char.toNat ∧ char ≠ '"' ∧ char ≠ '\\')
      (body : StringBody rest) : StringBody (String.utf8EncodeChar char ++ rest)
  | short (letter : UInt8) (rest : Bytes) (known : letter ∈ ascii "\"\\/bfnrt") (body : StringBody rest) :
      StringBody (92 :: letter :: rest)
  | unit (digits rest : Bytes) (four : digits.length = 4) (hex : ∀ digit ∈ digits, (hexValue digit).isSome)
      (body : StringBody rest) : StringBody (92 :: 117 :: (digits ++ rest))

end AuthorityKernel.Library.JsonText
