import AuthorityKernel.Types
import AuthorityKernel.Library.Bytes

/-! The anti-replay tracker of a context. Only numbers above the highest one seen are
accepted, so the bitmap of the window never changes an answer. -/
namespace AuthorityKernel.Dispatch
open Library

def seqWindowSize : UInt64 := 1024

structure SeqTracker where
  highestSeen : UInt64
  expectedNext : UInt64
  windowBase : UInt64
  seenBitmap : Block 128

def akSeqTrackerCreate : SeqTracker := ⟨0,1,0,Block.zero 128⟩

def bitMask (offset : UInt64) : UInt8 := 1 <<< (offset % 8).toUInt8

def bitSeen (bitmap : Block 128) (offset : UInt64) : Bool :=
  bitmap.1.getD (offset / 8).toNat 0 &&& bitMask offset != 0

def markSeen (bitmap : Block 128) (offset : UInt64) : Block 128 :=
  ⟨bitmap.1.modify (offset / 8).toNat (· ||| bitMask offset),by rw [List.length_modify,bitmap.2]⟩

/-- Whole bytes only: the bits below a byte boundary stay where they were. -/
def shiftBytes (bitmap : Block 128) (count : Nat) : Block 128 :=
  ⟨(bitmap.1.drop count ++ List.replicate count 0).take 128,by
    simp only [List.length_take,List.length_append,List.length_drop,List.length_replicate,bitmap.2]
    omega⟩

def inWindow (tracker : SeqTracker) (seq : UInt64) : Bool :=
  seq ≥ tracker.windowBase && seq < tracker.windowBase + seqWindowSize

/-- Marks a number of the window; others leave no trace. -/
def markInWindow (tracker : SeqTracker) (seq : UInt64) : SeqTracker :=
  if inWindow tracker seq then
    { tracker with seenBitmap := markSeen tracker.seenBitmap (seq - tracker.windowBase) }
  else tracker

def slideWindow (tracker : SeqTracker) (seq : UInt64) : SeqTracker :=
  if seq ≥ tracker.windowBase + seqWindowSize then
    let newBase := seq - seqWindowSize / 2
    let shift := newBase - tracker.windowBase
    { tracker with
      windowBase := newBase
      seenBitmap :=
        if shift ≥ seqWindowSize then Block.zero 128 else shiftBytes tracker.seenBitmap (shift / 8).toNat }
  else tracker

def akSeqTrackerCheck (tracker : SeqTracker) (seq : UInt64) : SeqTracker × Int :=
  if seq ≤ tracker.highestSeen then
    if inWindow tracker seq && bitSeen tracker.seenBitmap (seq - tracker.windowBase) then (tracker,akEReplay)
    else (markInWindow tracker seq,akEReplay)
  else
    let result := if seq > tracker.expectedNext then akESeqGap else 0
    let moved := { tracker with highestSeen := seq, expectedNext := seq + 1 }
    (markInWindow (slideWindow moved seq) seq,result)

section

variable (tracker : SeqTracker) (seq : UInt64)

@[simp] theorem markInWindow_highestSeen : (markInWindow tracker seq).highestSeen = tracker.highestSeen := by
  unfold markInWindow
  split <;> rfl

@[simp] theorem slideWindow_highestSeen : (slideWindow tracker seq).highestSeen = tracker.highestSeen := by
  unfold slideWindow
  split <;> rfl

theorem akSeqTrackerCheck_replay_iff : (akSeqTrackerCheck tracker seq).2 = akEReplay ↔ seq ≤ tracker.highestSeen := by
  unfold akSeqTrackerCheck
  split
  · rename_i seen
    refine iff_of_true ?_ seen
    split <;> rfl
  rename_i fresh
  refine iff_of_false ?_ fresh
  dsimp only
  split <;> decide

theorem akSeqTrackerCheck_fresh (fresh : ¬ seq ≤ tracker.highestSeen) :
    ((akSeqTrackerCheck tracker seq).2 = 0 ∨ (akSeqTrackerCheck tracker seq).2 = akESeqGap) ∧
      (akSeqTrackerCheck tracker seq).1.highestSeen = seq := by
  unfold akSeqTrackerCheck
  rw [if_neg fresh]
  constructor
  · split
    · exact Or.inr rfl
    · exact Or.inl rfl
  · simp

theorem akSeqTrackerCheck_seen (seen : seq ≤ tracker.highestSeen) :
    (akSeqTrackerCheck tracker seq).1.highestSeen = tracker.highestSeen := by
  unfold akSeqTrackerCheck
  rw [if_pos seen]
  split <;> simp

end

/-- The tracker after it was asked about each number in turn. -/
def presentAll (tracker : SeqTracker) (presented : List UInt64) : SeqTracker :=
  presented.foldl (fun now seq => (akSeqTrackerCheck now seq).1) tracker

/-- Refused or not, a number leaves room only for larger ones. -/
theorem accepted_iff_above_presented (tracker : SeqTracker) (presented : List UInt64) (seq : UInt64) :
    (akSeqTrackerCheck (presentAll tracker presented) seq).2 ≠ akEReplay ↔
      ∀ earlier ∈ tracker.highestSeen :: presented, earlier < seq := by
  induction presented generalizing tracker with
  | nil => simp [presentAll,akSeqTrackerCheck_replay_iff]
  | cons first rest ih =>
    refine (ih (akSeqTrackerCheck tracker first).1).trans ?_
    simp only [List.forall_mem_cons,← and_assoc]
    refine and_congr_left fun _ => ?_
    by_cases late : first ≤ tracker.highestSeen
    · rw [akSeqTrackerCheck_seen _ _ late]
      exact (and_iff_left_of_imp (UInt64.lt_of_le_of_lt late)).symm
    · rw [(akSeqTrackerCheck_fresh _ _ late).2]
      exact (and_iff_right_of_imp (UInt64.lt_trans (UInt64.not_le.mp late))).symm

end AuthorityKernel.Dispatch
