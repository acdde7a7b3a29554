import Mathlib.Algebra.Ring.Nat
import Mathlib.Data.Nat.Log

/-! The allocation bitmaps of bitmap.c. Bits are tested and set a word at a time under masks; blocks are
searched from the lowest place, at steps of the least power of two not below their size. -/
namespace AuthorityKernel.Memory.Bitmaps

-- `bitmap_extend` adds zeroed words, so a word not yet in the buffer is read as zero
abbrev Words := Nat → BitVec 64

structure Bitmap where
  maxbits : BitVec 64
  words : Words

def bit (words : Words) (i : Nat) : Bool := (words (i / 64)).getLsbD (i % 64)

def mask (order : BitVec 64) : BitVec 64 := (1#64 <<< order) - 1

-- `none` is the answer false; a test never writes
def wordOp (words : Words) (w : Nat) (mask : BitVec 64) (set val : Bool) : Option Words :=
  if set then some fun i => if i = w then if val then words w ||| mask else words w &&& ~~~mask else words i
  else
    let masked := mask &&& words w
    if (if val then masked else masked ^^^ mask) ≠ mask then none else some words

def forRangeInMap (words : Words) (start nbits : BitVec 64) (set val : Bool) : Option Words :=
  let stop := start + nbits
  let head := start &&& 63
  let tail := stop &&& 63
  if nbits = 0 then some words
  else
    let single := head + nbits ≤ 64
    let first := if head ≠ 0 then ~~~(mask head) else -1
    let first := if tail ≠ 0 ∧ single then first &&& mask tail else first
    (wordOp words (start.toNat / 64) first set val).bind fun words =>
      if single then some words
      else
        let w := (start + (64 - head)).toNat / 64
        let wend := stop.toNat / 64
        ((List.range' w (wend - w)).foldlM (fun words w => wordOp words w (-1) set val) words).bind fun words =>
          if tail ≠ 0 then wordOp words wend (mask tail) set val else some words

def bitmapRangeCheckAndSet (b : Bitmap) (start nbits : BitVec 64) (validate set : Bool) :
    Option Words :=
  if start ≥ b.maxbits ∨ start + nbits > b.maxbits then none
  else if validate ∧ (forRangeInMap b.words start nbits false !set).isNone then none
  else forRangeInMap b.words start nbits true set

def findOrder (n : BitVec 64) : BitVec 64 := if n > 1 then BitVec.ofNat 64 ((n - 1).toNat.log2 + 1) else 0

-- the places of one word: `some none` is INVALID_PHYSICAL, `none` goes on to the next word
def searchWord (bit last stride bw : BitVec 64) : Nat → BitVec 64 → BitVec 64 → Option (Option (BitVec 64))
  | 0,_,_ => none
  | turns + 1,mask,offset =>
    if bit + offset > last then some none
    else if bw &&& mask = 0 then some (some (bit + offset))
    else if offset + stride < 64 then searchWord bit last stride bw turns (mask <<< stride) (offset + stride)
    else none

-- `none` is a search still running when the fuel ends, or a failed assertion
def search (b : Bitmap) (nbits stride last : BitVec 64) : Nat → BitVec 64 → Option (Option (BitVec 64) × Words)
  | 0,_ => none
  | fuel + 1,bit =>
    if bit ≤ last then
      if stride ≥ 64 then
        if (forRangeInMap b.words bit nbits false false).isSome then
          (forRangeInMap b.words bit nbits true true).map fun words => (some bit,words)
        else search b nbits stride last fuel (bit + stride)
      else
        let offset := bit &&& 63
        let bit := bit - offset
        let bw := b.words (bit.toNat / 64)
        if bw = -1 then search b nbits stride last fuel (bit + 64)
        else match searchWord bit last stride bw 64 (mask nbits <<< offset) offset with
          | some none => some (none,b.words)
          | some (some found) => (forRangeInMap b.words found nbits true true).map fun words => (some found,words)
          | none => search b nbits stride last fuel (bit + 64)
    else some (none,b.words)

def bitmapAllocInternal (b : Bitmap) (nbits startbit endbit : BitVec 64) (fuel : Nat) :
    Option (Option (BitVec 64) × Words) :=
  let stride := 1#64 <<< findOrder nbits
  let endbit := if endbit < b.maxbits then endbit else b.maxbits
  if startbit + nbits > endbit then some (none,b.words)
  else search b nbits stride (endbit - nbits) fuel startbit

def bitmapAlloc (b : Bitmap) (nbits : BitVec 64) (fuel : Nat) : Option (Option (BitVec 64) × Words) :=
  bitmapAllocInternal b nbits 0 b.maxbits fuel

/-- A place for `n` bits: aligned, inside the bitmap and clear. -/
structure Place (b : Bitmap) (n p : Nat) : Prop where
  aligned : 2 ^ Nat.clog 2 n ∣ p
  inside : p + n ≤ b.maxbits.toNat
  clear : ∀ i, p ≤ i → i < p + n → bit b.words i = false

/-- The lowest place is taken and nothing else changed, or there is none. -/
def Taken (b : Bitmap) (n : Nat) : Option (BitVec 64) × Words → Prop
  | (some p,after) => Place b n p.toNat ∧ (∀ q < p.toNat, ¬ Place b n q) ∧
      ∀ i, bit after i = (bit b.words i || decide (p.toNat ≤ i ∧ i < p.toNat + n))
  | (none,after) => (∀ q, ¬ Place b n q) ∧ after = b.words

structure RangeKept (b : Bitmap) (start nbits : BitVec 64) : Prop where
  inside : ∀ validate set after, bitmapRangeCheckAndSet b start nbits validate set = some after →
    ∀ i, b.maxbits.toNat ≤ i → bit after i = bit b.words i
  validated : ∀ set, (bitmapRangeCheckAndSet b start nbits true set).isSome ↔
    start < b.maxbits ∧ start.toNat + nbits.toNat ≤ b.maxbits.toNat ∧
      ∀ i, start.toNat ≤ i ∧ i < start.toNat + nbits.toNat → bit b.words i = !set

/-- The bits of the region are tested for `val`, or given it, and nothing else happens. -/
def Does (region : Nat → Prop) (set val : Bool) (words : Words) (result : Option Words) : Prop :=
  if set then ∃ after, result = some after ∧ ∀ i, (region i → bit after i = val) ∧ (¬ region i → bit after i = bit words i)
  else (result = some words ∧ ∀ i, region i → bit words i = val) ∨ (result = none ∧ ∃ i, region i ∧ bit words i ≠ val)

variable {b : Bitmap} {n start nbits : BitVec 64} {words : Words} {w : Nat} {m : BitVec 64} {set val : Bool}
  {region other : Nat → Prop} {result : Option Words}

theorem Does.congr (does : Does region set val words result) (same : ∀ i, region i ↔ other i) :
    Does other set val words result := by
  rwa [← funext fun i => propext (same i)]

theorem Does.bind {next : Words → Option Words} (first : Does region set val words result)
    (second : ∀ words, Does other set val words (next words)) :
    Does (fun i => region i ∨ other i) set val words (result.bind next) := by
  cases set with
  | false =>
    rcases first with ⟨rfl,all⟩ | ⟨rfl,i,here,differs⟩
    · rcases second words with ⟨same,more⟩ | ⟨failed,i,here,differs⟩
      · exact .inl ⟨same,fun i => Or.rec (all i) (more i)⟩
      · exact .inr ⟨failed,i,.inr here,differs⟩
    · exact .inr ⟨rfl,i,.inl here,differs⟩
  | true =>
    obtain ⟨after,rfl,bits⟩ := first
    obtain ⟨final,same,later⟩ := second after
    refine ⟨final,same,fun i => ⟨fun here => ?_,fun outside => ?_⟩⟩
    · by_cases written : other i
      · exact (later i).1 written
      · exact ((later i).2 written).trans ((bits i).1 (here.resolve_right written))
    · exact ((later i).2 fun here => outside (.inr here)).trans ((bits i).2 fun here => outside (.inl here))

theorem Does.idle (none : ∀ i, ¬ region i) : Does region set val words (some words) := by
  cases set with
  | false => exact .inl ⟨rfl,fun i here => absurd here (none i)⟩
  | true => exact ⟨words,rfl,fun i => ⟨fun here => absurd here (none i),fun _ => rfl⟩⟩

theorem tested_iff {word : BitVec 64} : (if val then m &&& word else (m &&& word) ^^^ m) = m ↔
    ∀ k, m.getLsbD k = true → word.getLsbD k = val := by
  constructor
  · intro same k masked
    have here := congrArg (BitVec.getLsbD · k) same
    cases val <;> simpa [masked] using here
  · intro all
    apply BitVec.eq_of_getLsbD_eq
    intro k _
    have here := all k
    cases val <;> cases masked : m.getLsbD k <;> simp_all

theorem wordOp_does (words : Words) (w : Nat) (m : BitVec 64) (set val : Bool) :
    Does (fun i => i / 64 = w ∧ m.getLsbD (i % 64) = true) set val words (wordOp words w m set val) := by
  cases set with
  | true =>
    refine ⟨_,rfl,fun i => ?_⟩
    have inside := Nat.mod_lt i (show 0 < 64 by decide)
    by_cases here : i / 64 = w
    · cases val <;> cases masked : m.getLsbD (i % 64) <;>
        simp [bit,here,masked,inside,-BitVec.getLsbD_eq_getElem]
    · simp [bit,here]
  | false =>
    by_cases passed : (if val then m &&& words w else (m &&& words w) ^^^ m) = m
    · refine .inl ⟨by simp [wordOp,passed],fun i here => ?_⟩
      rw [bit,here.1]
      exact tested_iff.mp passed _ here.2
    refine .inr ⟨by simp [wordOp,passed],?_⟩
    obtain ⟨k,differs⟩ := not_forall.mp (mt tested_iff.mpr passed)
    obtain ⟨masked,differs⟩ := Classical.not_imp.mp differs
    have below : k < 64 := BitVec.lt_of_getLsbD masked
    have place : (64 * w + k) / 64 = w ∧ (64 * w + k) % 64 = k := by omega
    exact ⟨64 * w + k,⟨place.1,by rwa [place.2]⟩,by rwa [bit,place.1,place.2]⟩

theorem getLsbD_full {k : Nat} (below : k < 64) : (-1 : BitVec 64).getLsbD k = true := by
  rw [show (-1 : BitVec 64) = BitVec.allOnes 64 from rfl,BitVec.getLsbD_allOnes]
  exact decide_eq_true below

theorem words_does (words : Words) (w count : Nat) (set val : Bool) :
    Does (fun i => w ≤ i / 64 ∧ i / 64 < w + count) set val words
      ((List.range' w count).foldlM (fun words w => wordOp words w (-1) set val) words) := by
  induction count generalizing w words with
  | zero => exact .idle fun i => by omega
  | succ count ih =>
    rw [List.range'_succ,List.foldlM_cons]
    refine ((wordOp_does words w (-1) set val).bind fun words => ih words (w + 1)).congr fun i => ?_
    rw [getLsbD_full (Nat.mod_lt i (by decide))]
    simp only [and_true]
    omega

theorem getLsbD_mask {order : BitVec 64} (small : order.toNat < 64) (k : Nat) :
    (mask order).getLsbD k = decide (k < order.toNat) := by
  have power : 2 ^ order.toNat < 2 ^ 64 := Nat.pow_lt_pow_right (by decide) small
  have positive := Nat.two_pow_pos order.toNat
  have value : (mask order).toNat = 2 ^ order.toNat - 1 := by
    rw [mask,BitVec.toNat_sub,BitVec.shiftLeft_eq',BitVec.toNat_shiftLeft,Nat.shiftLeft_eq]
    change (2 ^ 64 - 1 + 1 * 2 ^ order.toNat % 2 ^ 64) % 2 ^ 64 = _
    omega
  rw [BitVec.getLsbD,value,Nat.testBit_two_pow_sub_one]

theorem toNat_and_63 (x : BitVec 64) : (x &&& 63).toNat = x.toNat % 64 :=
  Nat.and_two_pow_sub_one_eq_mod x.toNat 6

/-- Of a range that does not wrap, the words are taken as they lie in it. -/
theorem forRangeInMap_does (words : Words) (set val : Bool) (whole : start.toNat + nbits.toNat < 2 ^ 64) :
    Does (fun i => start.toNat ≤ i ∧ i < start.toNat + nbits.toNat) set val words
      (forRangeInMap words start nbits set val) := by
  have stop := BitVec.toNat_add_of_lt whole
  have head := toNat_and_63 start
  have tail := toNat_and_63 (start + nbits)
  rw [stop] at tail
  unfold forRangeInMap
  by_cases empty : nbits = 0
  · rw [if_pos empty,empty]
    exact .idle fun i here => absurd here.2 (Nat.not_lt.mpr here.1)
  rw [if_neg empty]
  have filled : nbits.toNat ≠ 0 := fun zero => empty (BitVec.eq_of_toNat_eq zero)
  generalize start &&& 63 = first at head ⊢
  generalize (start + nbits) &&& 63 = last at tail ⊢
  have single : first + nbits ≤ 64 ↔ start.toNat % 64 + nbits.toNat ≤ 64 := by
    rw [BitVec.le_def,BitVec.toNat_add,head,Nat.mod_eq_of_lt (by omega)]
    rfl
  have lower (k : Nat) (below : k < 64) :
      (if first ≠ 0 then ~~~(mask first) else -1).getLsbD k = true ↔ start.toNat % 64 ≤ k := by
    by_cases zero : first = 0
    · rw [if_neg (not_not.mpr zero),getLsbD_full below]
      rw [zero] at head
      exact iff_of_true rfl (Nat.le_trans (Nat.le_of_eq head.symm) (Nat.zero_le k))
    · rw [if_pos zero,BitVec.getLsbD_not,getLsbD_mask (by omega)]
      simp [below,head]
  have upper (k : Nat) (zero : last ≠ 0) : (mask last).getLsbD k = true ↔ k < (start.toNat + nbits.toNat) % 64 := by
    rw [getLsbD_mask (by omega),tail]
    exact decide_eq_true_iff
  have ends : last = 0 ↔ (start.toNat + nbits.toNat) % 64 = 0 := by
    rw [← tail]
    exact BitVec.toNat_inj.symm
  by_cases alone : first + nbits ≤ 64
  · simp only [alone,and_true,if_true]
    rw [single] at alone
    rw [Option.bind_fun_some]
    refine (wordOp_does words _ _ set val).congr fun i => ?_
    have below := Nat.mod_lt i (show 64 > 0 by decide)
    by_cases zero : last = 0
    · rw [if_neg (not_not.mpr zero),lower _ below]
      rw [ends] at zero
      omega
    · rw [if_pos zero,BitVec.getLsbD_and,Bool.and_eq_true,lower _ below,upper _ zero]
      rw [ends] at zero
      omega
  · simp only [alone,and_false,if_false]
    rw [single] at alone
    have next : (start + (64 - first)).toNat / 64 = start.toNat / 64 + 1 := by
      have large : first.toNat ≤ 64 := by omega
      rw [BitVec.toNat_add,BitVec.toNat_sub_of_le large,head,Nat.mod_eq_of_lt]
      · change (start.toNat + (64 - _)) / 64 = _
        omega
      · change start.toNat + (64 - _) < _
        omega
    have final (words : Words) : Does (fun i => i / 64 = (start.toNat + nbits.toNat) / 64 ∧
        i % 64 < (start.toNat + nbits.toNat) % 64) set val words
        (if last ≠ 0 then wordOp words ((start + nbits).toNat / 64) (mask last) set val else some words) := by
      by_cases zero : last = 0
      · rw [if_neg (not_not.mpr zero)]
        exact .idle fun i => by rw [ends.mp zero]; omega
      · rw [if_pos zero]
        refine (wordOp_does words _ _ set val).congr fun i => ?_
        rw [upper _ zero,stop]
    refine ((wordOp_does words _ _ set val).bind fun words =>
      (words_does words _ _ set val).bind final).congr fun i => ?_
    rw [lower _ (Nat.mod_lt i (by decide)),next,stop]
    omega

theorem tested_range_iff (whole : start.toNat + nbits.toNat < 2 ^ 64) :
    (forRangeInMap words start nbits false val).isSome ↔
      ∀ i, start.toNat ≤ i ∧ i < start.toNat + nbits.toNat → bit words i = val := by
  rcases forRangeInMap_does words false val whole with ⟨same,all⟩ | ⟨failed,i,here,differs⟩
  · rw [same]
    exact iff_of_true rfl all
  · rw [failed]
    exact iff_of_false (by simp) fun all => differs (all i here)

theorem set_range (words : Words) (val : Bool) (whole : start.toNat + nbits.toNat < 2 ^ 64) :
    ∃ after, forRangeInMap words start nbits true val = some after ∧ ∀ i,
      (start.toNat ≤ i ∧ i < start.toNat + nbits.toNat → bit after i = val) ∧
      (¬ (start.toNat ≤ i ∧ i < start.toNat + nbits.toNat) → bit after i = bit words i) :=
  forRangeInMap_does words true val whole

theorem rangeKept (regular : b.maxbits ≤ start ∨ start.toNat + nbits.toNat < 2 ^ 64) : RangeKept b start nbits := by
  by_cases refused : start ≥ b.maxbits ∨ start + nbits > b.maxbits
  · refine ⟨fun validate set after accepted => ?_,fun set => iff_of_false ?_ ?_⟩
    · simp [bitmapRangeCheckAndSet,refused] at accepted
    · simp [bitmapRangeCheckAndSet,refused]
    · rintro ⟨below,fits,_⟩
      have beyond := refused.resolve_left (BitVec.not_le.mpr below)
      rw [gt_iff_lt,BitVec.lt_def,BitVec.toNat_add_of_lt (regular.resolve_left (BitVec.not_le.mpr below))] at beyond
      omega
  obtain ⟨below,fits⟩ := not_or.mp refused
  have whole := regular.resolve_left below
  rw [gt_iff_lt,BitVec.lt_def,BitVec.toNat_add_of_lt whole,Nat.not_lt] at fits
  constructor
  · intro validate set after accepted i beyond
    rw [bitmapRangeCheckAndSet,if_neg refused] at accepted
    split at accepted
    · cases accepted
    · obtain ⟨written,same,bits⟩ := set_range b.words set whole
      obtain rfl := Option.some.inj (same.symm.trans accepted)
      exact (bits i).2 (by omega)
  · intro set
    obtain ⟨written,same,_⟩ := set_range b.words set whole
    rw [bitmapRangeCheckAndSet,if_neg refused,same,← tested_range_iff whole]
    cases forRangeInMap b.words start nbits false !set <;> simp [BitVec.not_le.mp below,fits]

/-- Where no word fails, no range does. -/
theorem forRangeInMap_isSome {fine : Words → Prop}
    (step : ∀ words w m, fine words → ∃ after, wordOp words w m set val = some after ∧ fine after)
    (start nbits : BitVec 64) (begins : fine words) : (forRangeInMap words start nbits set val).isSome := by
  have loop (places : List Nat) {words : Words} (begins : fine words) :
      ∃ after, places.foldlM (fun words w => wordOp words w (-1) set val) words = some after ∧ fine after := by
    induction places generalizing words with
    | nil => exact ⟨words,rfl,begins⟩
    | cons w rest ih =>
      obtain ⟨after,done,fine⟩ := step words w (-1) begins
      rw [List.foldlM_cons,done]
      exact ih fine
  unfold forRangeInMap
  dsimp only
  split
  · rfl
  obtain ⟨_,done,begins⟩ := step words _ _ begins
  rw [done,Option.bind_some]
  split
  · rfl
  obtain ⟨_,done,begins⟩ := loop _ begins
  rw [done,Option.bind_some]
  split
  · obtain ⟨_,done,_⟩ := step _ _ _ begins
    rw [done]
    rfl
  · rfl

/-- A clear bitmap passes the test of a range that wraps, although no such range is in it. -/
theorem wrapped_range_passes {maxbits : BitVec 64} (below : start < maxbits)
    (wraps : ¬ start.toNat + nbits.toNat < 2 ^ 64) :
    (bitmapRangeCheckAndSet ⟨maxbits,fun _ => 0⟩ start nbits true true).isSome := by
  have accepted : ¬ (start ≥ maxbits ∨ start + nbits > maxbits) := by
    have stop : (start + nbits).toNat = start.toNat + nbits.toNat - 2 ^ 64 := by
      rw [BitVec.toNat_add]
      omega
    rw [gt_iff_lt,BitVec.lt_def,stop]
    rw [BitVec.lt_def] at below
    rw [ge_iff_le,BitVec.le_def]
    omega
  have clear := @forRangeInMap_isSome (fun _ => 0) false false (fun words => words = fun _ => 0)
    (fun words w m zero => ⟨words,by simp [wordOp,zero],zero⟩) start nbits rfl
  rw [bitmapRangeCheckAndSet,if_neg accepted,if_neg]
  · exact @forRangeInMap_isSome _ true true (fun _ => True) (fun words w m _ => ⟨_,rfl,trivial⟩) start nbits trivial
  · simpa [Option.isSome_iff_ne_none] using clear

theorem range_kept_iff (maxbits start nbits : BitVec 64) :
    (∀ words, RangeKept ⟨maxbits,words⟩ start nbits) ↔ maxbits ≤ start ∨ start.toNat + nbits.toNat < 2 ^ 64 := by
  constructor
  · intro kept
    by_contra irregular
    obtain ⟨below,wraps⟩ := not_or.mp irregular
    have passed := ((kept _).validated true).mp (wrapped_range_passes (BitVec.not_le.mp below) wraps)
    omega
  · intro regular words
    exact rangeKept regular

theorem findOrder_toNat (positive : 1 ≤ n) : (findOrder n).toNat = Nat.clog 2 n.toNat := by
  rw [BitVec.le_def] at positive
  unfold findOrder
  by_cases more : n > 1
  · rw [if_pos more]
    rw [gt_iff_lt,BitVec.lt_def] at more
    change 1 < _ at more
    have less : (n - 1).toNat = n.toNat - 1 := BitVec.toNat_sub_of_le positive
    have small : (n.toNat - 1).log2 < 64 := (Nat.log2_lt (by omega)).mpr (by omega)
    rw [less,BitVec.toNat_ofNat,Nat.mod_eq_of_lt (by omega)]
    apply Nat.le_antisymm
    · rw [Nat.succ_le_iff,Nat.lt_clog_iff_pow_lt (by decide)]
      have power := Nat.log2_self_le (show n.toNat - 1 ≠ 0 by omega)
      omega
    · rw [Nat.clog_le_iff_le_pow (by decide)]
      have power := @Nat.lt_log2_self (n.toNat - 1)
      omega
  · rw [if_neg more]
    rw [gt_iff_lt,BitVec.lt_def,Nat.not_lt] at more
    rw [Nat.clog_of_right_le_one more]
    rfl

theorem stride_toNat (positive : 1 ≤ n) (half : n.toNat ≤ 2 ^ 63) :
    (1#64 <<< findOrder n).toNat = 2 ^ Nat.clog 2 n.toNat := by
  have order : Nat.clog 2 n.toNat ≤ 63 := Nat.clog_le_of_le_pow half
  have power := Nat.pow_le_pow_right (show 2 > 0 by decide) order
  rw [BitVec.shiftLeft_eq',BitVec.toNat_shiftLeft,findOrder_toNat positive,Nat.shiftLeft_eq]
  change 1 * 2 ^ _ % 2 ^ 64 = _
  omega

/-- No place begins before `p`. -/
def NoneBelow (b : Bitmap) (n p : Nat) : Prop := ∀ q < p, ¬ Place b n q

theorem NoneBelow.next {p n : Nat} (none : NoneBelow b n p) (aligned : 2 ^ Nat.clog 2 n ∣ p) (here : ¬ Place b n p) :
    NoneBelow b n (p + 2 ^ Nat.clog 2 n) := by
  intro q below place
  rcases Nat.lt_trichotomy q p with before | rfl | behind
  · exact none q before place
  · exact here place
  obtain ⟨c,rfl⟩ := aligned
  obtain ⟨d,rfl⟩ := place.aligned
  rw [← Nat.mul_succ] at below
  have low := Nat.lt_of_mul_lt_mul_left behind
  have high := Nat.lt_of_mul_lt_mul_left below
  omega

theorem NoneBelow.all {p n : Nat} (none : NoneBelow b n p) (last : b.maxbits.toNat < p + n) (q : Nat) : ¬ Place b n q := by
  intro place
  rcases Nat.lt_or_ge q p with before | behind
  · exact none q before place
  · have inside := place.inside
    omega

theorem taken_of_place {p : BitVec 64} (place : Place b n.toNat p.toNat) (lowest : NoneBelow b n.toNat p.toNat) :
    ∃ result, (forRangeInMap b.words p n true true).map (fun words => (some p,words)) = some result ∧
      Taken b n.toNat result := by
  have bound := b.maxbits.isLt
  obtain ⟨after,written,bits⟩ := @set_range p n b.words true (Nat.lt_of_le_of_lt place.inside bound)
  refine ⟨(some p,after),by rw [written]; rfl,place,lowest,fun i => ?_⟩
  by_cases inside : p.toNat ≤ i ∧ i < p.toNat + n.toNat
  · simp [(bits i).1 inside,inside]
  · simp [(bits i).2 inside,inside]

def Searched (b : Bitmap) (n stop : Nat) : Option (Option (BitVec 64)) → Prop
  | some none => ∀ q, ¬ Place b n q
  | some (some p) => Place b n p.toNat ∧ NoneBelow b n p.toNat
  | none => NoneBelow b n stop

section Search

variable {stride last : BitVec 64} (positive : 1 ≤ n.toNat) (size : stride.toNat = 2 ^ Nat.clog 2 n.toNat)
  (ends : last.toNat + n.toNat = b.maxbits.toNat)

include size in
theorem size_le_stride : n.toNat ≤ stride.toNat := by
  rw [size]
  exact Nat.le_pow_clog (by decide) _

include size in
theorem stride_dvd_word (small : stride.toNat < 64) : stride.toNat ∣ 64 := by
  rw [size] at small ⊢
  have order : Nat.clog 2 n.toNat < 6 := (Nat.pow_lt_pow_iff_right (by decide)).mp small
  exact Nat.pow_dvd_pow 2 (Nat.le_of_lt order)

include positive in
theorem clear_iff_masked {base offset : BitVec 64} (word : base.toNat % 64 = 0) (inside : offset.toNat + n.toNat ≤ 64)
    (small : n.toNat < 64) :
    (∀ i, base.toNat + offset.toNat ≤ i → i < base.toNat + offset.toNat + n.toNat → bit b.words i = false) ↔
      b.words (base.toNat / 64) &&& (mask n <<< offset) = 0 := by
  have masked (k : Nat) (below : k < 64) :
      (mask n <<< offset).getLsbD k = true ↔ offset.toNat ≤ k ∧ k < offset.toNat + n.toNat := by
    rw [BitVec.shiftLeft_eq',BitVec.getLsbD_shiftLeft]
    simp [below,getLsbD_mask small]
    omega
  constructor
  · intro clear
    apply BitVec.eq_of_getLsbD_eq
    intro k below
    rw [BitVec.getLsbD_and,show (0 : BitVec 64).getLsbD k = false from BitVec.getLsbD_zero,Bool.and_eq_false_iff]
    by_cases here : offset.toNat ≤ k ∧ k < offset.toNat + n.toNat
    · left
      have same := clear (base.toNat + k) (by omega) (by omega)
      rwa [bit,show (base.toNat + k) / 64 = base.toNat / 64 by omega,show (base.toNat + k) % 64 = k by omega] at same
    · exact .inr (Bool.eq_false_iff.mpr fun set => here ((masked k below).mp set))
  · intro zero i from' before
    have same := congrArg (BitVec.getLsbD · (i % 64)) zero
    have set := (masked (i % 64) (Nat.mod_lt i (by decide))).mpr (by omega)
    simp only [BitVec.getLsbD_and,set,Bool.and_true] at same
    rw [bit,show i / 64 = base.toNat / 64 by omega,same]
    exact BitVec.getLsbD_zero

include positive size ends in
theorem searchWord_spec (small : stride.toNat < 64) {base : BitVec 64} (word : base.toNat % 64 = 0) (turns : Nat)
    (offset : BitVec 64) (enough : 64 ≤ offset.toNat + turns) (inside : offset.toNat < 64)
    (aligned : stride.toNat ∣ offset.toNat) (before : NoneBelow b n.toNat (base.toNat + offset.toNat)) :
    Searched b n.toNat (base.toNat + 64)
      (searchWord base last stride (b.words (base.toNat / 64)) turns (mask n <<< offset) offset) := by
  have least := size_le_stride size
  induction turns generalizing offset with
  | zero => omega
  | succ turns ih =>
    have sum := BitVec.toNat_add_of_lt (x := base) (y := offset) (by omega)
    have divides := stride_dvd_word size small
    have room : offset.toNat + stride.toNat ≤ 64 := by
      have step := Nat.le_of_dvd (by omega) ((Nat.dvd_sub_iff_left (Nat.le_of_lt inside) aligned).mpr divides)
      omega
    have begins : 2 ^ Nat.clog 2 n.toNat ∣ base.toNat + offset.toNat := by
      rw [← size]
      exact Nat.dvd_add (Nat.dvd_trans divides (Nat.dvd_of_mod_eq_zero word)) aligned
    rw [searchWord]
    by_cases beyond : base + offset > last
    · rw [if_pos beyond]
      rw [gt_iff_lt,BitVec.lt_def,sum] at beyond
      exact before.all (by omega)
    rw [if_neg beyond]
    rw [gt_iff_lt,BitVec.lt_def,sum,Nat.not_lt] at beyond
    have clear := @clear_iff_masked b n positive base offset word (by omega) (by omega)
    by_cases free : b.words (base.toNat / 64) &&& (mask n <<< offset) = 0
    · rw [if_pos free]
      have place : Place b n.toNat (base.toNat + offset.toNat) := ⟨begins,by omega,clear.mpr free⟩
      rw [Searched,sum]
      exact ⟨place,before⟩
    rw [if_neg free]
    have later := before.next begins fun place => free (clear.mp place.clear)
    rw [← size,Nat.add_assoc] at later
    have step := BitVec.toNat_add_of_lt (x := offset) (y := stride) (by omega)
    by_cases more : offset + stride < 64
    · rw [if_pos more]
      have shifted : (mask n <<< offset) <<< stride = mask n <<< (offset + stride) := by
        rw [BitVec.shiftLeft_eq',BitVec.shiftLeft_eq',BitVec.shiftLeft_eq',step,BitVec.shiftLeft_add]
      rw [BitVec.lt_def,step] at more
      change _ < 64 at more
      rw [shifted]
      exact ih (offset + stride) (by omega) (by omega) (by rw [step]; exact Nat.dvd_add aligned (Nat.dvd_refl _))
        (by rwa [step])
    · rw [if_neg more]
      rw [BitVec.lt_def,step] at more
      change ¬ _ < 64 at more
      rwa [show offset.toNat + stride.toNat = 64 by omega] at later

def Finds (b : Bitmap) (n stride last p : BitVec 64) : Prop :=
  ∃ fuel result, search b n stride last fuel p = some result ∧ Taken b n.toNat result

/-- The places are tried from the lowest; a whole word that is taken has none. -/
theorem search_spec (positive : 1 ≤ n.toNat) (size : stride.toNat = 2 ^ Nat.clog 2 n.toNat)
    (ends : last.toNat + n.toNat = b.maxbits.toNat) (half : b.maxbits.toNat ≤ 2 ^ 63) (left : Nat) (p : BitVec 64)
    (bounded : last.toNat < p.toNat + left) (aligned : stride.toNat ∣ p.toNat) (word : stride.toNat < 64 → p.toNat % 64 = 0)
    (before : NoneBelow b n.toNat p.toNat) : Finds b n stride last p := by
  have least := size_le_stride size
  have past {p : BitVec 64} (before : NoneBelow b n.toNat p.toNat) (beyond : last.toNat < p.toNat) :
      Finds b n stride last p := by
    have outside : ¬ p ≤ last := Nat.not_le.mpr beyond
    exact ⟨1,(none,b.words),by rw [search,if_neg outside],before.all (by omega),rfl⟩
  induction left generalizing p with
  | zero => exact past before bounded
  | succ left ih =>
    rcases Nat.lt_or_ge last.toNat p.toNat with beyond | reach
    · exact past before beyond
    have inside : p ≤ last := reach
    have whole : p.toNat + n.toNat < 2 ^ 64 := by omega
    have bound : stride.toNat ≤ 2 ^ 63 := by
      rw [size]
      exact Nat.pow_le_pow_right (by decide) (Nat.clog_le_of_le_pow (by omega))
    by_cases wide : stride ≥ 64
    · have step := BitVec.toNat_add_of_lt (x := p) (y := stride) (by omega)
      by_cases free : (forRangeInMap b.words p n false false).isSome
      · have clear := (tested_range_iff whole).mp free
        obtain ⟨result,done,taken⟩ := taken_of_place
          ⟨size ▸ aligned,by omega,fun i low high => clear i ⟨low,high⟩⟩ before
        exact ⟨1,result,by rw [search,if_pos inside,if_pos wide,if_pos free,done],taken⟩
      have later := before.next (size ▸ aligned) fun place =>
        free ((tested_range_iff whole).mpr fun i here => place.clear i here.1 here.2)
      rw [← size,← step] at later
      obtain ⟨fuel,result,done,taken⟩ := ih (p + stride) (by omega)
        (by rw [step]; exact Nat.dvd_add aligned (Nat.dvd_refl _)) (fun small => absurd wide (Nat.not_le.mpr small)) later
      exact ⟨fuel + 1,result,by rw [search,if_pos inside,if_pos wide,if_neg free,done],taken⟩
    · have small : stride.toNat < 64 := Nat.not_le.mp wide
      have step : (p + 64).toNat = p.toNat + 64 := by
        rw [BitVec.toNat_add,Nat.mod_eq_of_lt]
        · rfl
        · change p.toNat + 64 < _
          omega
      have start : p &&& 63 = 0 := by
        apply BitVec.eq_of_toNat_eq
        rw [toNat_and_63]
        exact word small
      have next (later : NoneBelow b n.toNat (p.toNat + 64)) :
          Finds b n stride last (p + 64) := by
        rw [← step] at later
        refine ih (p + 64) (by omega) ?_ (fun _ => by rw [step]; have := word small; omega) later
        rw [step]
        exact Nat.dvd_add aligned (stride_dvd_word size small)
      have unfolded (fuel : Nat) : search b n stride last (fuel + 1) p =
          if b.words (p.toNat / 64) = -1 then search b n stride last fuel (p + 64)
          else match searchWord p last stride (b.words (p.toNat / 64)) 64 (mask n <<< (0 : BitVec 64)) 0 with
            | some none => some (none,b.words)
            | some (some found) => (forRangeInMap b.words found n true true).map fun words => (some found,words)
            | none => search b n stride last fuel (p + 64) := by
        rw [search,if_pos inside,if_neg wide,start]
        dsimp only
        rw [show p - 0 = p from BitVec.sub_zero p]
      by_cases full : b.words (p.toNat / 64) = -1
      · have later : NoneBelow b n.toNat (p.toNat + 64) := by
          intro q below place
          rcases Nat.lt_or_ge q p.toNat with low | high
          · exact before q low place
          have clear := place.clear q (Nat.le_refl q) (by omega)
          rw [bit,show q / 64 = p.toNat / 64 by omega,full,getLsbD_full (Nat.mod_lt q (by decide))] at clear
          contradiction
        obtain ⟨fuel,result,done,taken⟩ := next later
        exact ⟨fuel + 1,result,by rw [unfolded,if_pos full,done],taken⟩
      · have searched := @searchWord_spec b n stride last positive size ends small p (word small) 64 0 (by decide)
          (by decide) (Nat.dvd_zero _) before
        cases found : searchWord p last stride (b.words (p.toNat / 64)) 64 (mask n <<< (0 : BitVec 64)) 0 with
        | none =>
          rw [found] at searched
          obtain ⟨fuel,result,done,taken⟩ := next searched
          exact ⟨fuel + 1,result,by rw [unfolded,if_neg full,found]; exact done,taken⟩
        | some answer =>
          rw [found] at searched
          cases answer with
          | none => exact ⟨1,(none,b.words),by rw [unfolded,if_neg full,found],searched,rfl⟩
          | some place =>
            obtain ⟨result,done,taken⟩ := taken_of_place searched.1 searched.2
            exact ⟨1,result,by rw [unfolded,if_neg full,found]; exact done,taken⟩

end Search

theorem bitmapAlloc_taken (half : b.maxbits ≤ 1#64 <<< 63) (positive : 1 ≤ n) :
    ∃ fuel result, bitmapAlloc b n fuel = some result ∧ Taken b n.toNat result := by
  rw [BitVec.le_def] at half positive
  change _ ≤ 2 ^ 63 at half
  unfold bitmapAlloc bitmapAllocInternal
  rw [show 0 + n = n from BitVec.zero_add n,if_neg (BitVec.lt_irrefl _)]
  by_cases few : n > b.maxbits
  · refine ⟨0,(none,b.words),by rw [if_pos few],fun q place => ?_,rfl⟩
    have inside := place.inside
    rw [gt_iff_lt,BitVec.lt_def] at few
    omega
  simp only [if_neg few]
  rw [gt_iff_lt,BitVec.lt_def,Nat.not_lt] at few
  have ends : (b.maxbits - n).toNat = b.maxbits.toNat - n.toNat := BitVec.toNat_sub_of_le few
  exact search_spec positive (stride_toNat positive (by omega)) (by omega) half ((b.maxbits - n).toNat + 1) 0 (by omega)
    (Nat.dvd_zero _) (fun _ => rfl) fun q below => absurd below (Nat.not_lt_zero q)

def thirdTaken : Bitmap := ⟨64,fun _ => 4⟩

end AuthorityKernel.Memory.Bitmaps
