import Mathlib.Data.List.Basic

/-! Computations that read a counted run of entries from a growing position and stop at
the first error. -/
namespace AuthorityKernel.Library.Reads

variable {ε α β : Type}

theorem bind_ok {first : Except ε α} {next : α → Except ε β} {result : β} :
    (first >>= next) = .ok result ↔ ∃ value, first = .ok value ∧ next value = .ok result := by
  cases first with
  | error | ok => simp [bind,Except.bind]

theorem bind_error {first : Except ε α} {next : α → Except ε β} {error : ε} :
    (first >>= next) = .error error ↔ first = .error error ∨ ∃ value, first = .ok value ∧ next value = .error error := by
  cases first with
  | error | ok => simp [bind,Except.bind]

def readMany (entry : Nat → Nat → Except ε (α × Nat)) : (count index pos : Nat) → Except ε (List α × Nat)
  | 0, _, pos => .ok ([],pos)
  | count + 1, index, pos => do
      let first ← entry index pos
      let rest ← readMany entry count (index + 1) first.2
      return (first.1 :: rest.1,rest.2)

variable {entry : Nat → Nat → Except ε (α × Nat)}

theorem readMany_succ (count index pos : Nat) (entries : List α) (stop : Nat) :
    readMany entry (count + 1) index pos = .ok (entries,stop) ↔
      ∃ first next rest, entry index pos = .ok (first,next) ∧ readMany entry count (index + 1) next = .ok (rest,stop) ∧
        entries = first :: rest := by
  rw [readMany,bind_ok]
  constructor
  · rintro ⟨⟨first,next⟩,read,remaining⟩
    obtain ⟨⟨rest,after⟩,others,result⟩ := bind_ok.mp remaining
    cases result
    exact ⟨first,next,rest,read,others,rfl⟩
  · rintro ⟨first,next,rest,read,others,rfl⟩
    exact ⟨(first,next),read,bind_ok.mpr ⟨(rest,stop),others,rfl⟩⟩

theorem readMany_length (count index pos : Nat) (entries : List α) (stop : Nat)
    (read : readMany entry count index pos = .ok (entries,stop)) : entries.length = count := by
  induction count generalizing index pos entries with
  | zero =>
    cases read
    rfl
  | succ count ih =>
    obtain ⟨first,next,rest,_,others,rfl⟩ := (readMany_succ count index pos entries stop).mp read
    rw [List.length_cons,ih _ _ _ others]

theorem readMany_all {property : α → Prop}
    (each : ∀ index pos value next, entry index pos = .ok (value,next) → property value)
    (count index pos : Nat) (entries : List α) (stop : Nat)
    (read : readMany entry count index pos = .ok (entries,stop)) : ∀ value ∈ entries, property value := by
  induction count generalizing index pos entries with
  | zero =>
    cases read
    simp
  | succ count ih =>
    obtain ⟨first,next,rest,one,others,rfl⟩ := (readMany_succ count index pos entries stop).mp read
    intro value member
    rcases List.mem_cons.mp member with rfl | later
    · exact each _ _ _ _ one
    · exact ih _ _ _ others value later

theorem readMany_increasing {key : α → Nat}
    (each : ∀ index pos value next, entry index pos = .ok (value,next) → pos < key value ∧ key value ≤ next)
    (count index pos : Nat) (entries : List α) (stop : Nat)
    (read : readMany entry count index pos = .ok (entries,stop)) :
    entries.Pairwise (fun first second => key first < key second) ∧ ∀ value ∈ entries, pos < key value := by
  induction count generalizing index pos entries with
  | zero =>
    cases read
    exact ⟨List.Pairwise.nil,by simp⟩
  | succ count ih =>
    obtain ⟨first,next,rest,one,others,rfl⟩ := (readMany_succ count index pos entries stop).mp read
    obtain ⟨behind,before⟩ := each _ _ _ _ one
    obtain ⟨increasing,later⟩ := ih _ _ _ others
    refine ⟨List.Pairwise.cons (fun value member => Nat.lt_of_le_of_lt before (later value member)) increasing,?_⟩
    intro value member
    rcases List.mem_cons.mp member with rfl | other
    · exact behind
    · exact Nat.lt_trans (Nat.lt_of_lt_of_le behind before) (later value other)

theorem readMany_mono {other : Nat → Nat → Except ε (α × Nat)}
    (each : ∀ index pos result, entry index pos = .ok result → other index pos = .ok result)
    (count index pos : Nat) (result : List α × Nat) (read : readMany entry count index pos = .ok result) :
    readMany other count index pos = .ok result := by
  induction count generalizing index pos result with
  | zero => exact read
  | succ count ih =>
    obtain ⟨entries,stop⟩ := result
    obtain ⟨first,next,rest,one,others,rfl⟩ := (readMany_succ count index pos entries stop).mp read
    exact (readMany_succ count index pos _ stop).mpr ⟨first,next,rest,each _ _ _ one,ih _ _ _ others,rfl⟩

end AuthorityKernel.Library.Reads
