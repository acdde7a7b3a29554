import Mathlib.Algebra.Ring.Nat
import Mathlib.Tactic.Common

/-! Reads of ranges that need not start and end with blocks (`filesystem_read_linear`). The first and the last
block go through buffers of their own, the whole blocks between them straight to the destination. -/
namespace AuthorityKernel.Fs.Linear

/-- What `filesystem_read_sg` is asked for: the range, and the buffers in their order, which are one block, a
part of the destination and one block. A part of length 0 is no buffer. -/
structure Request where
  start : Nat
  stop : Nat
  headBuf : Bool
  offset : Nat
  trimmed : Nat
  tailBuf : Bool
  size : Nat

/-- The size of a buffer is a u32. -/
def filesystemReadLinear (block start stop : Nat) : Request :=
  let head := block - start % block
  let headLen := if head = block then 0 else head
  let first := if head = block then start else start - (block - head)
  let last := if head ≠ block ∧ stop < (first + block) % 2 ^ 64 then (first + block) % 2 ^ 64 else stop
  let tailLen := last % block
  let trimmed := (stop - start + 2 * 2 ^ 64 - headLen - tailLen) % 2 ^ 64
  { start := first
    stop := if tailLen = 0 then last else (last + (block - tailLen)) % 2 ^ 64
    headBuf := head ≠ block
    offset := headLen
    -- an s64, negative from 2 ^ 63 on
    trimmed := if trimmed < 2 ^ 63 then trimmed % 2 ^ 32 else 0
    tailBuf := tailLen ≠ 0
    size := block % 2 ^ 32 }

/-- What a byte of memory holds: a byte of the file, what a buffer held when it was allocated, or what was there. -/
inductive Cell
  | file (pos : Nat)
  | stale
  | untouched
  deriving DecidableEq

def filled (pos size i : Nat) : Cell := if i < size then .file (pos + i) else .stale

def memcpy (offset : Int) (source : Nat → Cell) (len : Nat) (dest : Int → Cell) (i : Int) : Cell :=
  if offset ≤ i ∧ i < offset + len then source (i - offset).toNat else dest i

/-- The memory at and around the destination, by the distance from its start. The buffers are filled in order with
the bytes of the range; then `filesystem_read_complete` copies what is wanted of the first and the last block. -/
def destAfter (block start stop : Nat) : Int → Cell :=
  let r := filesystemReadLinear block start stop
  let pos := if r.headBuf then r.start + r.size else r.start
  let count := stop - start
  let headLen := block - start % block
  let tailLen := stop % block
  let dest := memcpy r.offset (fun i => .file (pos + i)) r.trimmed fun _ => .untouched
  let dest := if r.headBuf then memcpy 0 (fun i => filled r.start r.size (block - headLen + i)) (min headLen count) dest
    else dest
  if r.tailBuf then memcpy (count - tailLen) (filled (pos + r.trimmed) r.size) tailLen dest else dest

structure Reads (block start stop : Nat) : Prop where
  bytes : ∀ i : Nat, i < stop - start → destAfter block start stop i = .file (start + i)
  within : ∀ i : Int, i < 0 ∨ (stop - start : Nat) ≤ i → destAfter block start stop i = .untouched
  blocks : block ∣ (filesystemReadLinear block start stop).start ∧ block ∣ (filesystemReadLinear block start stop).stop

/-- The whole blocks of a range. -/
def middle (block start stop : Nat) : Nat := stop - stop % block - (start + (block - start % block) % block)

variable {block start stop limit : Nat}

theorem blocks_apart {x y : Nat} (one : block ∣ x) (two : block ∣ y) : x = y ∨ x + block ≤ y ∨ y + block ≤ x := by
  obtain ⟨m,rfl⟩ := one
  obtain ⟨n,rfl⟩ := two
  rcases Nat.lt_trichotomy m n with less | same | more
  · exact Or.inr (Or.inl (Nat.mul_le_mul_left block less))
  · exact Or.inl (congrArg _ same)
  · exact Or.inr (Or.inr (Nat.mul_le_mul_left block more))

/-- A head of `h` bytes, `m` bytes of whole blocks and a tail of `t` bytes, or a part of one block. -/
structure Parts (block start stop h m t : Nat) : Prop where
  request : ∃ ends, block ∣ ends ∧ filesystemReadLinear block start stop =
    ⟨start - start % block,ends,h ≠ 0,h,if m < 2 ^ 63 then m % 2 ^ 32 else 0,t ≠ 0,block % 2 ^ 32⟩
  head : h = 0 ∧ start % block = 0 ∨ start % block + h = block
  whole : m = 0 ∨ block ≤ m
  tail : t = 0 ∨ stop % block = t
  sum : h + m + t = stop - start ∨ stop - start < h ∧ m = 0 ∧ t = 0

theorem exists_parts (positive : 0 < block) (half : block ≤ 2 ^ 63) (order : start < stop) (inside : stop ≤ limit)
    (whole : block ∣ limit) (small : limit < 2 ^ 64) : ∃ h t, Parts block start stop h (middle block start stop) t := by
  have low := Nat.mod_lt start positive
  have high := Nat.mod_lt stop positive
  have base := Nat.dvd_sub_mod (n := block) start
  have top := Nat.dvd_sub_mod (n := block) stop
  have first := Nat.mod_le start block
  have last := Nat.mod_le stop block
  have room := blocks_apart base whole
  have padded : block ∣ if stop % block = 0 then stop else (stop + (block - stop % block)) % 2 ^ 64 := by
    split
    · exact Nat.dvd_of_mod_eq_zero (by assumption)
    have room := blocks_apart top whole
    have ends : stop + (block - stop % block) = stop - stop % block + block := by omega
    rw [Nat.mod_eq_of_lt (by omega),ends]
    exact Nat.dvd_add top (Nat.dvd_refl block)
  by_cases aligned : start % block = 0
  · have apart := blocks_apart (Nat.dvd_of_mod_eq_zero aligned) top
    have blocks : middle block start stop = stop - stop % block - start := by simp [middle,aligned]
    have trimmed : (stop - start + 2 * 2 ^ 64 - stop % block) % 2 ^ 64 = middle block start stop := by omega
    refine ⟨0,stop % block,⟨_,padded,?_⟩,Or.inl ⟨rfl,aligned⟩,by omega,by omega,by omega⟩
    simp [filesystemReadLinear,aligned,-Nat.reducePow,trimmed]
  have gap : (block - start % block) % block = block - start % block := Nat.mod_eq_of_lt (by omega)
  have cut : block - start % block ≠ block := by omega
  have back : block - (block - start % block) = start % block := by omega
  have next : start - start % block + block = start + (block - start % block) := by omega
  have wrap : (start + (block - start % block)) % 2 ^ 64 = start + (block - start % block) :=
    Nat.mod_eq_of_lt (by omega)
  have edge : block ∣ start + (block - start % block) := next ▸ Nat.dvd_add base (Nat.dvd_refl block)
  have blocks : middle block start stop = stop - stop % block - (start + (block - start % block)) := by
    rw [middle,gap]
  have some : block - start % block ≠ 0 := by omega
  by_cases short : stop < start + (block - start % block)
  · have none : middle block start stop = 0 := by omega
    have trimmed : ¬ (stop - start + 2 * 2 ^ 64 - (block - start % block)) % 2 ^ 64 < 2 ^ 63 := by omega
    refine ⟨block - start % block,0,⟨_,edge,?_⟩,by omega,Or.inl none,Or.inl rfl,by omega⟩
    simp [filesystemReadLinear,cut,back,next,wrap,short,Nat.mod_eq_zero_of_dvd edge,-Nat.reducePow,trimmed,none,some]
  have apart := blocks_apart edge top
  have trimmed : (stop - start + 2 * 2 ^ 64 - (block - start % block) - stop % block) % 2 ^ 64 =
      middle block start stop := by omega
  refine ⟨block - start % block,stop % block,⟨_,padded,?_⟩,by omega,by omega,Or.inr rfl,by omega⟩
  simp [filesystemReadLinear,cut,back,next,wrap,short,-Nat.reducePow,trimmed,some]

section Read

variable {h m t : Nat} (parts : Parts block start stop h m t) (positive : 0 < block) (order : start < stop)

include parts positive order

theorem Parts.reads (few : block < 2 ^ 32) (short : m < 2 ^ 32) : Reads block start stop := by
  obtain ⟨⟨ends,edge,request⟩,head,whole,tail,sum⟩ := parts
  have high := Nat.mod_lt stop positive
  have low := Nat.mod_lt start positive
  have first := Nat.mod_le start block
  rw [Nat.mod_eq_of_lt few,if_pos (by omega),Nat.mod_eq_of_lt short] at request
  refine ⟨fun i inside => ?_,fun i outside => ?_,?_⟩
  · simp only [destAfter,request,memcpy,filled,ite_apply,decide_eq_true_eq]
    split_ifs
    all_goals first | exact congrArg Cell.file (by omega) | omega
  · simp only [destAfter,request,memcpy,filled,ite_apply,decide_eq_true_eq]
    split_ifs
    all_goals first | rfl | omega
  · rw [request]
    exact ⟨Nat.dvd_sub_mod start,edge⟩

theorem Parts.misses (even : block < 2 ^ 32 ∨ block % 2 ^ 32 = 0) (large : ¬(block < 2 ^ 32 ∧ m < 2 ^ 32)) :
    ¬ Reads block start stop := by
  obtain ⟨⟨ends,edge,request⟩,head,whole,tail,sum⟩ := parts
  have cut : (if m < 2 ^ 63 then m % 2 ^ 32 else 0) < 2 ^ 32 := by
    split <;> omega
  generalize (if m < 2 ^ 63 then m % 2 ^ 32 else 0) = mid at cut request
  intro reads
  by_cases short : m < 2 ^ 32
  · have missed := reads.bytes 0 (by omega)
    have empty : block % 2 ^ 32 = 0 := by omega
    simp only [destAfter,request,memcpy,filled,ite_apply,decide_eq_true_eq,empty] at missed
    split_ifs at missed <;> omega
  · have missed := reads.bytes (h + m - 1) (by omega)
    simp only [destAfter,request,memcpy,filled,ite_apply,decide_eq_true_eq] at missed
    split_ifs at missed <;> omega

end Read

theorem linear_reads_iff (k start stop limit : Nat) (order : start < stop) (inside : stop ≤ limit) (whole : 2 ^ k ∣ limit)
    (small : limit < 2 ^ 64) : Reads (2 ^ k) start stop ↔ 2 ^ k < 2 ^ 32 ∧ middle (2 ^ k) start stop < 2 ^ 32 := by
  have fits := Nat.le_of_dvd (by omega) whole
  have half : 2 ^ k ≤ 2 ^ 63 := Nat.pow_le_pow_right (by decide)
    (Nat.lt_succ_iff.mp ((Nat.pow_lt_pow_iff_right (by decide)).mp (Nat.lt_of_le_of_lt fits small)))
  obtain ⟨h,t,parts⟩ := exists_parts (Nat.two_pow_pos k) half order inside whole small
  constructor
  · intro reads
    by_contra large
    refine parts.misses (Nat.two_pow_pos k) order ?_ large reads
    rcases Nat.lt_or_ge k 32 with less | more
    · exact Or.inl (Nat.pow_lt_pow_right (by decide) less)
    · exact Or.inr (Nat.mod_eq_zero_of_dvd (Nat.pow_dvd_pow 2 more))
  · rintro ⟨few,short⟩
    exact parts.reads (Nat.two_pow_pos k) order few short

/-- A range of 4 GiB gets a buffer of size zero. -/
theorem huge_read_skipped : ¬ Reads 512 0 (2 ^ 32) := by
  intro reads
  exact absurd (reads.bytes 0 (by decide)) (by decide)

theorem short_read : Reads (2 ^ 9) 100 1100 :=
  (linear_reads_iff 9 100 1100 1536 (by decide) (by decide) (by decide) (by decide)).mpr (by decide)

end AuthorityKernel.Fs.Linear
