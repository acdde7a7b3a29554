import AuthorityKernel.Library.Glob
import AuthorityKernel.Library.Bytes

/-! Resource patterns: `*` stands for any string and `?` for any byte. -/
namespace AuthorityKernel
open Library

def starByte : UInt8 := 42
def anyByte : UInt8 := 63

def patternMatchInternal (pattern string : Bytes) : Bool := Glob.globMatch starByte anyByte pattern string

def akPatternMatchN (pattern string : Bytes) : Bool :=
  if pattern.length = 0 then string.length == 0
  else if pattern = [starByte] then true
  else patternMatchInternal pattern string

def akPatternMatch (pattern string : CString) : Bool := akPatternMatchN pattern.1 string.1

def Covers (pattern string : Bytes) : Prop := Glob.Denotes starByte anyByte pattern string

theorem akPatternMatchN_iff (pattern string : Bytes) : akPatternMatchN pattern string = true ↔ Covers pattern string := by
  unfold akPatternMatchN Covers
  split
  · rename_i empty
    rw [List.length_eq_zero_iff.mp empty,Glob.denotes_nil]
    simp
  split
  · rename_i lone
    rw [lone]
    exact iff_of_true rfl (Glob.denotes_lone_star string)
  · exact Glob.globMatch_iff pattern string

theorem akPatternMatch_iff (pattern string : CString) : akPatternMatch pattern string = true ↔ Covers pattern.1 string.1 :=
  akPatternMatchN_iff pattern.1 string.1

def retryStar (star : Option (Nat × Nat)) (resume : Nat → Nat → Option Bool) : Option Bool :=
  match star with
  | none => some false
  | some (starPi,starSi) => resume starPi (starSi + 1)

/-- The loop of `pattern_match_internal` on the source's own positions, with `star_pi` and `star_si` once
a star was met. No answer: the loop has not ended after so many turns. -/
def patternMatchLoop (pattern string : Bytes) : Nat → Nat → Nat → Option (Nat × Nat) → Option Bool
  | 0, _, _, _ => none
  | turns + 1, pi, si, star =>
      match string[si]? with
      | none => some ((pattern.drop pi).all (· = starByte))
      | some byte =>
          if pattern[pi]? = some starByte then patternMatchLoop pattern string turns (pi + 1) si (some (pi + 1,si))
          else if pattern[pi]? = some anyByte ∨ pattern[pi]? = some byte then
            patternMatchLoop pattern string turns (pi + 1) (si + 1) star
          else retryStar star fun starPi starSi => patternMatchLoop pattern string turns starPi starSi (some (starPi,starSi))

/-- A call of `ak_pattern_match_n` with pointers that may be null. -/
def patternMatchCall (turns : Nat) : Option Bytes → Option Bytes → Option Bool
  | some pattern, some string =>
      if pattern.length = 0 then some (string.length == 0)
      else if pattern = [starByte] then some true
      else patternMatchLoop pattern string turns 0 0 none
  | _, _ => some false

/-- What is left to do: the string behind the last star, and for each retry the whole pattern. -/
def leftToDo (pattern string : Bytes) (pi si : Nat) : Option (Nat × Nat) → Nat
  | none => (string.length - si + 1) * (pattern.length + 1) + (pattern.length - pi)
  | some (_,starSi) => (string.length - starSi) * (pattern.length + 1) + (pattern.length - pi)

theorem leftToDo_shorter {length size : Nat} (pattern : Bytes) (inside : size < length) :
    (length - size) * (pattern.length + 1) = (length - (size + 1)) * (pattern.length + 1) + (pattern.length + 1) := by
  rw [← Nat.succ_mul]
  congr 1
  omega

/-- With turns enough the loop ends, and the positions stand for the rests that `search` works on. -/
theorem patternMatchLoop_eq {pattern string : Bytes} {pi si turns : Nat} {star : Option (Nat × Nat)}
    (behind : ∀ saved ∈ star, saved.2 ≤ si) (enough : leftToDo pattern string pi si star < turns) :
    patternMatchLoop pattern string turns pi si star = some (Glob.search starByte anyByte turns (pattern.drop pi)
      (string.drop si) (star.map fun saved => (pattern.drop saved.1,string.drop saved.2))) := by
  induction turns generalizing pi si star with
  | zero => omega
  | succ turns ih =>
    rw [patternMatchLoop]
    split
    · rename_i past
      rw [List.drop_eq_nil_of_le (List.getElem?_eq_none_iff.mp past),Glob.search]
    rename_i byte here
    obtain ⟨inside,rfl⟩ := List.getElem?_eq_some_iff.mp here
    have retried : (retryStar star fun starPi starSi =>
        patternMatchLoop pattern string turns starPi starSi (some (starPi,starSi))) =
        some (Glob.backtrack (fun after text => Glob.search starByte anyByte turns after text (some (after,text)))
          (star.map fun saved => (pattern.drop saved.1,string.drop saved.2))) := by
      cases star with
      | none => rfl
      | some saved =>
        have shorter := leftToDo_shorter pattern (lt_of_le_of_lt (behind saved rfl) inside)
        rw [Option.map_some,Glob.backtrack,List.tail_drop]
        refine ih (fun saved member => by cases member; exact le_rfl) ?_
        simp only [leftToDo] at enough ⊢
        omega
    have shorter := leftToDo_shorter pattern inside
    rw [List.drop_eq_getElem_cons inside]
    cases place : pattern[pi]? with
    | none =>
      rw [List.drop_eq_nil_of_le (List.getElem?_eq_none_iff.mp place),Glob.search]
      simpa using retried
    | some symbol =>
      obtain ⟨within,rfl⟩ := List.getElem?_eq_some_iff.mp place
      rw [List.drop_eq_getElem_cons within,Glob.search]
      simp only [Option.some.injEq]
      split
      · rw [← List.drop_eq_getElem_cons inside]
        refine ih (fun saved member => by cases member; exact le_rfl) ?_
        cases star with
        | none =>
          simp only [leftToDo,Nat.add_mul,Nat.one_mul] at enough ⊢
          omega
        | some saved =>
          have earlier : (string.length - si) * (pattern.length + 1) ≤
              (string.length - saved.2) * (pattern.length + 1) :=
            Nat.mul_le_mul_right _ (Nat.sub_le_sub_left (behind saved rfl) _)
          simp only [leftToDo] at enough ⊢
          omega
      · split
        · refine ih (fun saved member => (behind saved member).trans (Nat.le_succ _)) ?_
          cases star with
          | none =>
            simp only [leftToDo,Nat.add_mul,Nat.one_mul] at enough ⊢
            omega
          | some saved =>
            simp only [leftToDo] at enough ⊢
            omega
        · exact retried

theorem pattern_match_n_decides_language (pattern string : Bytes) :
    ∃ answer enough, (∀ turns ≥ enough, patternMatchCall turns (some pattern) (some string) = some answer) ∧
      (answer = true ↔ Covers pattern string) := by
  refine ⟨akPatternMatchN pattern string,Glob.fuelFor pattern string,fun turns enough => ?_,
    akPatternMatchN_iff pattern string⟩
  rw [patternMatchCall,akPatternMatchN]
  split
  · rfl
  split
  · rfl
  have room : leftToDo pattern string 0 0 none < turns := by
    refine lt_of_lt_of_le ?_ enough
    simp only [leftToDo,Glob.fuelFor,Nat.sub_zero,Nat.add_mul,Nat.one_mul]
    omega
  rw [patternMatchLoop_eq (fun _ member => by cases member) room,patternMatchInternal,Option.some.injEq,
    Bool.eq_iff_iff,Glob.globMatch_iff]
  exact Glob.search_enough turns pattern string enough

end AuthorityKernel
