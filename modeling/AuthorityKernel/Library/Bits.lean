import Mathlib.Data.Nat.Basic

/-! Flag words of 32 bits read bit by bit. -/
namespace AuthorityKernel.Library.Bits

def bit (w : UInt32) (i : Nat) : Bool := w.toBitVec.getLsbD i

@[simp] theorem bit_and (a b : UInt32) (i : Nat) : bit (a &&& b) i = (bit a i && bit b i) := by
  simp only [bit,UInt32.toBitVec_and,BitVec.getLsbD_and]

@[simp] theorem bit_or (a b : UInt32) (i : Nat) : bit (a ||| b) i = (bit a i || bit b i) := by
  simp only [bit,UInt32.toBitVec_or,BitVec.getLsbD_or]

variable {i : Nat} {w a b mask : UInt32}

theorem bit_lt (isSet : bit w i = true) : i < 32 := BitVec.lt_of_getLsbD isSet

theorem bit_not (w : UInt32) (inside : i < 32) : bit (~~~w) i = !bit w i := by
  simp only [bit,UInt32.toBitVec_not,BitVec.getLsbD_not,inside,decide_true,Bool.true_and]

@[simp] theorem bit_zero (i : Nat) : bit 0 i = false := by
  simp [bit]

theorem eq_of_bits (same : ∀ i < 32, bit a i = bit b i) : a = b :=
  UInt32.toBitVec_inj.mp (BitVec.eq_of_getLsbD_eq same)

theorem and_eq_zero : a &&& b = 0 ↔ ∀ i, bit a i = true → bit b i = false := by
  constructor
  · intro none i isSet
    have here := congrArg (bit · i) none
    simpa [isSet] using here
  · intro apart
    apply eq_of_bits
    intro i inside
    cases first : bit a i with
    | false => simp [first]
    | true => simp [first,apart i first]

theorem and_not_eq_zero : a &&& ~~~b = 0 ↔ ∀ i, bit a i = true → bit b i = true := by
  rw [and_eq_zero]
  constructor
  · intro apart i isSet
    have here := apart i isSet
    rwa [bit_not b (bit_lt isSet),Bool.not_eq_eq_eq_not,Bool.not_false] at here
  · intro inside i isSet
    rw [bit_not b (bit_lt isSet),inside i isSet,Bool.not_true]

theorem or_and_eq_zero (first : a &&& mask = 0) (second : b &&& mask = 0) : (a ||| b) &&& mask = 0 := by
  rw [and_eq_zero] at *
  intro i isSet
  rw [bit_or,Bool.or_eq_true] at isSet
  rcases isSet with left | right
  · exact first i left
  · exact second i right

theorem masked_apart {put other : UInt32} (cleared : mask &&& other = 0) (added : put &&& other = 0) :
    ((w &&& ~~~mask) ||| put) &&& other = w &&& other := by
  rw [and_eq_zero] at cleared added
  apply eq_of_bits
  intro i inside
  simp only [bit_and,bit_or,bit_not mask inside]
  cases masked : bit mask i with
  | true => simp [cleared i masked]
  | false =>
    cases puts : bit put i with
    | true => simp [added i puts]
    | false => simp

theorem masked_again (w mask put : UInt32) :
    (((w &&& ~~~mask) ||| put) &&& ~~~mask) ||| put = (w &&& ~~~mask) ||| put := by
  apply eq_of_bits
  intro i inside
  simp only [bit_or,bit_and,bit_not mask inside]
  cases bit w i <;> cases bit mask i <;> cases bit put i <;> rfl

theorem masked_own (w mask : UInt32) : (w &&& ~~~mask) ||| (w &&& mask) = w := by
  apply eq_of_bits
  intro i inside
  simp only [bit_or,bit_and,bit_not mask inside]
  cases bit w i <;> cases bit mask i <;> rfl

end AuthorityKernel.Library.Bits
