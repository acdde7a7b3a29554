import AuthorityKernel.Library.Lz4
import AuthorityKernel.Library.Scan
import AuthorityKernel.Library.Guards

/-! The compressor and the decompressor for stored objects. The compressor looks up
earlier places with the same four bytes in a table of hashes and writes a sequence for
each match it finds; the decompressor checks every length against both buffers. -/
namespace AuthorityKernel.State
open Library Library.Lz4

def lz4MaxInputSize : Nat := 0x7E000000

def akCompressMaxInput : Nat := 0xFFFFFFFF

def akCompressMinSize : Nat := 64

def akDecompressMaxSize : Nat := 256 * 1024 * 1024

def akCompressMaxRatio : Nat := 1024

def lz4Hash (sequence : UInt32) : Nat := ((sequence * 2654435761) >>> 20).toNat

def read32 (text : Bytes) (position : Nat) : UInt32 := UInt32.ofNat (fieldAt text position 4)

def countBytes (text : Bytes) (p1 p2 : Nat) : Nat → Nat
  | 0 => 0
  | left + 1 => if text.getD p1 0 = text.getD p2 0 then countBytes text (p1 + 1) (p2 + 1) left + 1 else 0

/-- Eight bytes at a time, and the rest one by one. -/
def countMatch (text : Bytes) (p1 p2 : Nat) : Nat → Nat
  | left + 8 =>
      if slice text p1 8 = slice text p2 8 then countMatch text (p1 + 8) (p2 + 8) left + 8
      else countBytes text p1 p2 8
  | left => countBytes text p1 p2 left

/-- Where the search is, how far its input has been written, and the last place of each hash. -/
structure Search where
  ip : Nat
  anchor : Nat
  table : Nat → Nat
  output : Bytes

def Search.ref (text : Bytes) (s : Search) : Nat :=
  let refIdx := s.table (lz4Hash (read32 text s.ip))
  if text.length < refIdx + 4 then 0 else refIdx

def Search.matches (text : Bytes) (s : Search) : Bool :=
  0 < s.ref text && s.ip - s.ref text < 65535 && s.ref text + 4 ≤ text.length &&
    read32 text (s.ref text) == read32 text s.ip

def Search.found (text : Bytes) (s : Search) : Sequence :=
  ⟨slice text s.anchor (s.ip - s.anchor),s.ip - s.ref text,
    4 + countMatch text (s.ip + 4) (s.ref text + 4) (text.length - 5 - (s.ip + 4))⟩

def searchStep (text : Bytes) (s : Search) : Search :=
  let table := Function.update s.table (lz4Hash (read32 text s.ip)) s.ip
  if s.matches text then
    let ip := s.ip + (s.found text).matched
    ⟨ip,ip,
      if ip < text.length - 12 ∧ 2 ≤ ip ∧ ip + 2 ≤ text.length then
        Function.update table (lz4Hash (read32 text (ip - 2))) (ip - 2)
      else table,
      s.output ++ (s.found text).bytes⟩
  else { s with ip := s.ip + 1, table }

def searchLoop (text : Bytes) : Nat → Search → Search
  | 0, s => s
  | fuel + 1, s =>
      if s.ip < text.length - 12 ∧ s.ip + 4 ≤ text.length then searchLoop text fuel (searchStep text s) else s

def searchStart (text : Bytes) : Search :=
  ⟨if 4 ≤ text.length then 1 else 0,0,fun _ => 0,leBytes 4 text.length⟩

def akCompressLz4 (alloc : Bool) (input : Bytes) : Option Bytes :=
  if input.length = 0 then if alloc then some [0,0,0,0] else none
  else if lz4MaxInputSize < input.length then none
  else if akCompressMaxInput < input.length then none
  else if !alloc then none
  else
    let done := searchLoop input input.length (searchStart input)
    some (done.output ++ lastBytes (input.drop done.anchor))

def akCompressBound (inputSize : Nat) : Nat := inputSize + inputSize / 255 + 16

def akCompressWorthwhile (inputSize : Nat) : Bool := akCompressMinSize ≤ inputSize

/-- One sequence; the literals alone when the input ends behind them. -/
def decompressTurn (originalSize : Nat) (out : Bytes) : Bytes → Scan.Turn UInt8 Bytes Bytes
  | [] => .done out
  | token :: src =>
      if originalSize ≤ out.length then .done out
      else
        match readLength (token.toNat / 16) 0 src with
        | none => .fail
        | some (literals,src) =>
            if src.length < literals ∨ originalSize < out.length + literals then .fail
            else
              let out := out ++ src.take literals
              match src.drop literals with
              | [] => .done out
              | [_] => .fail
              | low :: high :: src =>
                  let offset := leNat [low,high]
                  if offset = 0 ∨ out.length < offset then .fail
                  else
                    match readLength (token.toNat % 16) 4 src with
                    | none => .fail
                    | some (matched,src) =>
                        if originalSize < out.length + matched then .fail
                        else .again (copyBack offset matched out) src

def akDecompressLz4Sized (outputAlloc : Bool) (compressed : Bytes) (originalSize : Nat) : Option Bytes :=
  if originalSize = 0 then if outputAlloc then some [] else none
  else if akDecompressMaxSize < originalSize then none
  else if 0 < compressed.length ∧ akCompressMaxRatio < originalSize / compressed.length then none
  else if !outputAlloc then none
  else (Scan.scan (decompressTurn originalSize) [] compressed).filter fun out => out.length == originalSize

def akDecompressLz4 (viewAlloc outputAlloc : Bool) (compressed : Bytes) : Option Bytes :=
  if compressed.length < 4 then none
  else
    let originalSize := (read32 compressed 0).toNat
    let data := compressed.drop 4
    if originalSize = 0 then if outputAlloc then some [] else none
    else if akDecompressMaxSize < originalSize then none
    else if 0 < data.length ∧ akCompressMaxRatio < originalSize / data.length then none
    else if !viewAlloc then none
    else akDecompressLz4Sized outputAlloc data originalSize

variable (originalSize : Nat) (out : Bytes)

section Compression

theorem countBytes_le (text : Bytes) (p1 p2 left : Nat) : countBytes text p1 p2 left ≤ left := by
  fun_induction countBytes text p1 p2 left <;> omega

theorem countBytes_equal (text : Bytes) (p1 p2 left k : Nat) (below : k < countBytes text p1 p2 left) :
    text.getD (p1 + k) 0 = text.getD (p2 + k) 0 := by
  fun_induction countBytes text p1 p2 left generalizing k with
  | case1 | case3 => omega
  | case2 p1 p2 left equal ih =>
    cases k with
    | zero => exact equal
    | succ k =>
      have later := ih k (by omega)
      rwa [Nat.add_right_comm,Nat.add_assoc p1,Nat.add_right_comm,Nat.add_assoc p2] at later

theorem countMatch_spec (text : Bytes) (p1 p2 left : Nat) :
    countMatch text p1 p2 left ≤ left ∧
      ∀ k < countMatch text p1 p2 left, text.getD (p1 + k) 0 = text.getD (p2 + k) 0 := by
  fun_induction countMatch text p1 p2 left with
  | case1 p1 p2 left equal ih =>
    refine ⟨by omega,fun k below => ?_⟩
    by_cases first : k < 8
    · rw [← slice_getD text p1 first,equal,slice_getD text p2 first]
    · have later := ih.2 (k - 8) (by omega)
      rwa [show p1 + 8 + (k - 8) = p1 + k by omega,show p2 + 8 + (k - 8) = p2 + k by omega] at later
  | case2 p1 p2 left differ =>
    have short := countBytes_le text p1 p2 8
    exact ⟨by omega,countBytes_equal text p1 p2 8⟩
  | case3 p1 p2 left _ => exact ⟨countBytes_le text p1 p2 left,countBytes_equal text p1 p2 left⟩

theorem read32_equal {text : Bytes} {first second : Nat} (inside : first + 4 ≤ text.length)
    (inside' : second + 4 ≤ text.length) (same : read32 text first = read32 text second) {k : Nat} (below : k < 4) :
    text.getD (first + k) 0 = text.getD (second + k) 0 := by
  have sizes := slice_length inside
  have sizes' := slice_length inside'
  have small : fieldAt text first 4 < UInt32.size := by
    have range := leNat_lt (slice text first 4)
    rwa [sizes] at range
  have small' : fieldAt text second 4 < UInt32.size := by
    have range := leNat_lt (slice text second 4)
    rwa [sizes'] at range
  have numbers : fieldAt text first 4 = fieldAt text second 4 := by
    rw [← UInt32.toNat_ofNat_of_lt small,← UInt32.toNat_ofNat_of_lt small']
    exact congrArg UInt32.toNat same
  rw [← slice_getD text first below,← slice_getD text second below,
    leNat_injective _ _ (sizes.trans sizes'.symm) numbers]

/-- The output so far stands for the input before the anchor, and the table knows
places before `ip` only. -/
structure Search.Sound (text : Bytes) (s : Search) : Prop where
  order : s.anchor ≤ s.ip
  room : s.anchor < text.length
  entries : ∀ h, 0 < s.table h → s.table h < s.ip
  written : ∃ sequences, s.output = leBytes 4 text.length ++ sequences.flatMap Sequence.bytes ∧
    Valid [] sequences ∧ expand [] sequences = text.take s.anchor

theorem searchStart_sound (text : Bytes) (filled : text.length ≠ 0) : (searchStart text).Sound text where
  order := Nat.zero_le _
  room := Nat.pos_of_ne_zero filled
  entries := fun _ positive => absurd positive (lt_irrefl 0)
  written := ⟨[],(List.append_nil _).symm,trivial,rfl⟩

theorem slice_literals (text : Bytes) {anchor ip : Nat} (order : anchor ≤ ip) :
    text.take anchor ++ slice text anchor (ip - anchor) = text.take ip := by
  rw [slice,← List.take_add,Nat.add_sub_cancel' order]

theorem Search.matches_spec {text : Bytes} {s : Search} (sound : s.Sound text) (found : s.matches text = true) :
    0 < s.ref text ∧ s.ref text < s.ip ∧ s.ip - s.ref text < 65535 ∧ s.ref text + 4 ≤ text.length ∧
      read32 text (s.ref text) = read32 text s.ip := by
  unfold Search.matches at found
  simp only [Bool.and_eq_true,decide_eq_true_eq,beq_iff_eq] at found
  obtain ⟨⟨⟨positive,near⟩,inside⟩,same⟩ := found
  refine ⟨positive,?_,near,inside,same⟩
  have entry := sound.entries (lz4Hash (read32 text s.ip))
  unfold Search.ref at positive ⊢
  dsimp only at positive ⊢
  split at positive
  · omega
  · rename_i fits
    rw [if_neg fits]
    exact entry positive

theorem Search.found_inside {text : Bytes} {s : Search} (early : s.ip < text.length - 12) :
    s.ip + (s.found text).matched ≤ text.length - 5 := by
  have counted := (countMatch_spec text (s.ip + 4) (s.ref text + 4) (text.length - 5 - (s.ip + 4))).1
  change s.ip + (4 + countMatch _ _ _ _) ≤ _
  omega

section Found

variable (text : Bytes) (s : Search) (sound : s.Sound text) (early : s.ip < text.length - 12)
    (found : s.matches text = true) (small : text.length < 2 ^ 63)
include sound early found

theorem Search.found_expand :
    (s.found text).expand (text.take s.anchor) = text.take (s.ip + (s.found text).matched) := by
  obtain ⟨positive,before,near,inside,same⟩ := Search.matches_spec sound found
  have ends := Search.found_inside early
  have literals := slice_literals text sound.order
  unfold Sequence.expand
  rw [show (s.found text).literals = slice text s.anchor (s.ip - s.anchor) from rfl,literals]
  apply copyBack_take
  · change 0 < s.ip - s.ref text
    omega
  · exact Nat.sub_le _ _
  · omega
  · intro k below
    have start : s.ip - (s.found text).offset = s.ref text := by
      change s.ip - (s.ip - s.ref text) = s.ref text
      omega
    rw [start]
    -- the first four bytes were compared as a word, the others one by one
    by_cases first : k < 4
    · exact read32_equal (by omega) inside same.symm first
    have counted := (countMatch_spec text (s.ip + 4) (s.ref text + 4) (text.length - 5 - (s.ip + 4))).2 (k - 4)
    change k < 4 + countMatch _ _ _ _ at below
    have equal := counted (by omega)
    rwa [show s.ip + 4 + (k - 4) = s.ip + k by omega,show s.ref text + 4 + (k - 4) = s.ref text + k by omega] at equal

include small

theorem Search.found_writable : (s.found text).Writable := by
  obtain ⟨positive,before,near,inside,same⟩ := Search.matches_spec sound found
  have ends := Search.found_inside early
  have order := sound.order
  have literals : (s.found text).literals.length = s.ip - s.anchor := slice_length (by omega)
  refine ⟨?_,?_,Nat.le_add_right 4 _,by omega⟩
  · change 0 < s.ip - s.ref text
    omega
  · change s.ip - s.ref text < 2 ^ 16
    omega

end Found

theorem searchStep_entries (text : Bytes) (s : Search) (sound : s.Sound text) (h : Nat) :
    0 < (searchStep text s).table h → (searchStep text s).table h < (searchStep text s).ip := by
  have looked : ∀ i, Function.update s.table (lz4Hash (read32 text s.ip)) s.ip i ≤ s.ip := by
    intro i
    have entry := sound.entries i
    rw [Function.update_apply]
    split <;> omega
  have known := looked h
  intro positive
  unfold searchStep at positive ⊢
  split
  · dsimp only
    have long : 4 ≤ (s.found text).matched := Nat.le_add_right 4 _
    split
    · rw [Function.update_apply]
      split <;> omega
    · omega
  · exact Nat.lt_succ_of_le known

theorem searchStep_sound (text : Bytes) (s : Search) (sound : s.Sound text) (early : s.ip < text.length - 12)
    (small : text.length < 2 ^ 63) : (searchStep text s).Sound text := by
  have entries := searchStep_entries text s sound
  have order := sound.order
  cases found : s.matches text with
  | false =>
    have step : searchStep text s = { s with
        ip := s.ip + 1
        table := Function.update s.table (lz4Hash (read32 text s.ip)) s.ip } := by
      simp [searchStep,found]
    rw [step] at entries ⊢
    exact ⟨Nat.le_succ_of_le order,sound.room,entries,sound.written⟩
  | true =>
    have ends := Search.found_inside early
    obtain ⟨sequences,output,valid,stands⟩ := sound.written
    have grown : (searchStep text s).output = s.output ++ (s.found text).bytes := by simp [searchStep,found]
    have moved : (searchStep text s).anchor = s.ip + (s.found text).matched := by simp [searchStep,found]
    have moved' : (searchStep text s).ip = s.ip + (s.found text).matched := by simp [searchStep,found]
    refine ⟨by omega,by omega,entries,sequences ++ [s.found text],?_,?_,?_⟩
    · rw [grown,output,List.flatMap_append,List.flatMap_singleton,List.append_assoc]
    · apply valid_snoc _ _ _ valid (Search.found_writable text s sound early found small)
      have literals : (s.found text).literals.length = s.ip - s.anchor := slice_length (by omega)
      rw [stands,List.length_take_of_le (by omega),literals]
      change s.ip - s.ref text ≤ _
      omega
    · rw [expand_snoc,stands,Search.found_expand text s sound early found,moved]

theorem searchLoop_sound (text : Bytes) (fuel : Nat) (s : Search) (sound : s.Sound text) (small : text.length < 2 ^ 63) :
    (searchLoop text fuel s).Sound text := by
  induction fuel generalizing s with
  | zero => exact sound
  | succ fuel ih =>
    rw [searchLoop]
    split
    · rename_i early
      exact ih _ (searchStep_sound text s sound early.1 small)
    · exact sound

theorem searchStep_advances (text : Bytes) (s : Search) : s.ip < (searchStep text s).ip := by
  unfold searchStep
  split
  · have long : 4 ≤ (s.found text).matched := Nat.le_add_right 4 _
    dsimp only
    omega
  · exact Nat.lt_succ_self _

theorem searchLoop_finished (text : Bytes) (fuel : Nat) (s : Search) (enough : text.length ≤ s.ip + fuel) :
    text.length - 12 ≤ (searchLoop text fuel s).ip := by
  induction fuel generalizing s with
  | zero =>
    rw [searchLoop]
    omega
  | succ fuel ih =>
    rw [searchLoop]
    split
    · have further := searchStep_advances text s
      exact ih _ (by omega)
    · omega

end Compression

section Decompression

theorem decompressTurn_consuming : Scan.Consuming (decompressTurn originalSize) := by
  intro out src next rest went
  unfold decompressTurn at went
  split at went
  · simp at went
  rename_i token behind
  obtain ⟨-,went⟩ := Guards.passed went nofun
  split at went
  · simp at went
  rename_i literals src' read
  have first := readLength_shorter read
  obtain ⟨-,went⟩ := Guards.passed went nofun
  split at went
  · simp at went
  · simp at went
  rename_i low high src'' parted
  have dropped := congrArg List.length parted
  rw [List.length_drop,List.length_cons,List.length_cons] at dropped
  obtain ⟨-,went⟩ := Guards.passed went nofun
  split at went
  · simp at went
  rename_i matched last read'
  have second := readLength_shorter read'
  obtain ⟨-,went⟩ := Guards.passed went nofun
  cases went
  rw [List.length_cons]
  omega

theorem decompressTurn_sequence (s : Sequence) (rest : Bytes) (writable : s.Writable)
    (reach : s.offset ≤ out.length + s.literals.length)
    (fits : out.length + s.literals.length + s.matched ≤ originalSize) :
    decompressTurn originalSize out (s.bytes ++ rest) = .again (s.expand out) rest := by
  obtain ⟨back,near,long,small⟩ := writable
  obtain ⟨low,high,offset⟩ : ∃ low high, leBytes 2 s.offset = [low,high] := ⟨_,_,rfl⟩
  have value : leNat [low,high] = s.offset := by
    rw [← offset,leNat_leBytes]
    exact Nat.mod_eq_of_lt near
  have literals := readLength_lengthTail s.literals.length 0
    (s.literals ++ ([low,high] ++ (lengthTail (s.matched - 4) ++ rest))) (by omega)
  have matched := readLength_lengthTail (s.matched - 4) 4 rest (by omega)
  rw [Nat.sub_add_cancel long] at matched
  have layout : s.bytes ++ rest = token s.literals.length (s.matched - 4) :: (lengthTail s.literals.length ++
      (s.literals ++ ([low,high] ++ (lengthTail (s.matched - 4) ++ rest)))) := by
    rw [Sequence.bytes,offset]
    simp only [List.cons_append,List.append_assoc]
  rw [layout]
  simp only [decompressTurn]
  rw [if_neg (by omega),token_high,literals]
  dsimp only [Nat.add_zero]
  rw [if_neg (by rw [List.length_append]; omega),List.take_left,List.drop_left]
  simp only [List.cons_append,List.nil_append]
  rw [value,if_neg (by rw [List.length_append]; omega),token_low,matched]
  dsimp only
  rw [if_neg (by rw [List.length_append]; omega)]
  rfl

theorem decompressTurn_last {originalSize : Nat} {out literals : Bytes} (filled : literals ≠ [])
    (fits : out.length + literals.length ≤ originalSize) (small : literals.length < 2 ^ 64) :
    decompressTurn originalSize out (lastBytes literals) = .done (out ++ literals) := by
  have positive := List.length_pos_iff.mpr filled
  have read := readLength_lengthTail literals.length 0 literals (by omega)
  unfold lastBytes
  simp only [decompressTurn]
  rw [if_neg (by omega),token_high,read]
  dsimp only [Nat.add_zero]
  rw [if_neg (by omega),List.drop_length,List.take_length]

theorem decompress_block (sequences : List Sequence) (literals : Bytes) (valid : Valid out sequences)
    (filled : literals ≠ []) (fits : (expand out sequences).length + literals.length = originalSize)
    (small : originalSize < 2 ^ 64) :
    Scan.scan (decompressTurn originalSize) out (sequences.flatMap Sequence.bytes ++ lastBytes literals) =
      some (expand out sequences ++ literals) := by
  induction sequences generalizing out with
  | nil =>
    have sizes : out.length + literals.length = originalSize := fits
    rw [Scan.scan_eq (decompressTurn_consuming originalSize),List.flatMap_nil,List.nil_append,
      decompressTurn_last filled (by omega) (by omega)]
    rfl
  | cons s rest ih =>
    have longer := expand_length_le (s.expand out) rest
    rw [Sequence.expand_length] at longer
    have sizes : (expand (s.expand out) rest).length + literals.length = originalSize := fits
    rw [Scan.scan_eq (decompressTurn_consuming originalSize),List.flatMap_cons,List.append_assoc,
      decompressTurn_sequence originalSize out s _ valid.1 valid.2.1 (by omega)]
    exact ih (s.expand out) valid.2.2 sizes

end Decompression

theorem akCompressLz4_spec {input compressed : Bytes} (filled : input.length ≠ 0)
    (done : akCompressLz4 true input = some compressed) :
    input.length ≤ lz4MaxInputSize ∧ ∃ sequences literals, Valid [] sequences ∧ literals ≠ [] ∧
      expand [] sequences ++ literals = input ∧
      compressed = leBytes 4 input.length ++ (sequences.flatMap Sequence.bytes ++ lastBytes literals) := by
  unfold akCompressLz4 at done
  rw [if_neg filled] at done
  obtain ⟨fits,done⟩ := Guards.passed done nofun
  have small : input.length < 2 ^ 63 := by
    unfold lz4MaxInputSize at fits
    omega
  obtain ⟨-,done⟩ := Guards.passed done nofun
  rw [if_neg (by decide)] at done
  have sound := searchLoop_sound input input.length _ (searchStart_sound input filled) small
  generalize searchLoop input input.length (searchStart input) = found at sound done
  obtain ⟨sequences,output,valid,stands⟩ := sound.written
  refine ⟨by omega,sequences,input.drop found.anchor,valid,?_,?_,?_⟩
  · exact List.ne_nil_of_length_pos (by rw [List.length_drop]; have room := sound.room; omega)
  · rw [stands,List.take_append_drop]
  · rw [← Option.some.inj done,output,List.append_assoc]

theorem akCompressLz4_within_bound (input compressed : Bytes) (filled : input.length ≠ 0)
    (done : akCompressLz4 true input = some compressed) : compressed.length ≤ akCompressBound input.length + 4 := by
  obtain ⟨_,sequences,literals,valid,_,stands,rfl⟩ := akCompressLz4_spec filled done
  have sizes := congrArg List.length stands
  have body := expand_bound [] sequences (Valid.long [] sequences valid)
  have last := lastBytes_bound literals
  rw [List.length_append] at sizes
  unfold akCompressBound
  rw [List.length_append,List.length_append,leBytes_length]
  rw [List.length_nil] at body
  omega

theorem akDecompressLz4_akCompressLz4 {input compressed : Bytes} (filled : input.length ≠ 0)
    (limit : input.length ≤ akDecompressMaxSize) (done : akCompressLz4 true input = some compressed) :
    akDecompressLz4 true true compressed = some input := by
  obtain ⟨_,sequences,literals,valid,some,stands,rfl⟩ := akCompressLz4_spec filled done
  have sizes := congrArg List.length stands
  rw [List.length_append] at sizes
  have ratio := expand_ratio [] sequences
  have last : literals.length ≤ (lastBytes literals).length := by
    simp only [lastBytes,List.length_cons,List.length_append]
    omega
  have small : input.length < 256 ^ 4 := by
    unfold akDecompressMaxSize at limit
    omega
  have header : (read32 (leBytes 4 input.length ++ (sequences.flatMap Sequence.bytes ++ lastBytes literals)) 0).toNat =
      input.length := by
    rw [read32,fieldAt_head,Nat.mod_eq_of_lt small]
    exact UInt32.toNat_ofNat_of_lt small
  have body : (leBytes 4 input.length ++ (sequences.flatMap Sequence.bytes ++ lastBytes literals)).drop 4 =
      sequences.flatMap Sequence.bytes ++ lastBytes literals :=
    List.drop_left' (leBytes_length 4 input.length)
  have modest : ¬ (0 < (sequences.flatMap Sequence.bytes ++ lastBytes literals).length ∧ akCompressMaxRatio <
      input.length / (sequences.flatMap Sequence.bytes ++ lastBytes literals).length) := by
    rintro ⟨_,above⟩
    have bound : input.length ≤ 1024 * (sequences.flatMap Sequence.bytes ++ lastBytes literals).length := by
      rw [List.length_append]
      rw [List.length_nil] at ratio
      omega
    exact absurd (Nat.div_le_of_le_mul (by rwa [Nat.mul_comm] at bound)) (Nat.not_le.mpr above)
  have block := decompress_block input.length [] sequences literals valid some sizes (by omega)
  unfold akDecompressLz4
  rw [if_neg (by rw [List.length_append,leBytes_length]; omega)]
  rw [header,body,if_neg filled,if_neg (by omega),if_neg modest,if_neg (by decide)]
  unfold akDecompressLz4Sized
  rw [if_neg filled,if_neg (by omega),if_neg modest,if_neg (by decide),block,stands]
  simp [Option.filter]

/-- Every input within the limit is compressed, within the bound, and comes back. -/
theorem lz4_round_trip (input : Bytes) (limit : input.length ≤ akDecompressMaxSize) :
    ∃ compressed, akCompressLz4 true input = some compressed ∧ compressed.length ≤ akCompressBound input.length + 4 ∧
      akDecompressLz4 true true compressed = some input := by
  by_cases filled : input.length = 0
  · rw [List.length_eq_zero_iff.mp filled]
    exact ⟨[0,0,0,0],rfl,by decide,by decide⟩
  obtain ⟨compressed,done⟩ : ∃ compressed, akCompressLz4 true input = some compressed := by
    unfold akDecompressMaxSize at limit
    rw [akCompressLz4,if_neg filled,if_neg (by rw [lz4MaxInputSize]; omega),
      if_neg (by rw [akCompressMaxInput]; omega)]
    exact ⟨_,rfl⟩
  exact ⟨compressed,done,akCompressLz4_within_bound input compressed filled done,
    akDecompressLz4_akCompressLz4 filled limit done⟩

/-- Forty equal bytes are a match of the first. -/
theorem lz4_round_trip_repeated :
    ∃ compressed, akCompressLz4 true (List.replicate 40 97) = some compressed ∧ compressed.length < 40 ∧
      akDecompressLz4 true true compressed = some (List.replicate 40 97) := by
  obtain ⟨compressed,done,_,back⟩ := lz4_round_trip (List.replicate 40 97) (by decide)
  have short : (akCompressLz4 true (List.replicate 40 97)).all (·.length < 40) = true := by decide +kernel
  rw [done] at short
  exact ⟨compressed,done,of_decide_eq_true short,back⟩

end AuthorityKernel.State
