import Mathlib.Order.WellFounded
import Mathlib.Data.Fintype.EquivFin

/-! Calls that make other calls before they return, run with a bound on the depth of nesting. Over
finitely many different calls, one returns exactly if nothing it comes to is nested in itself. -/
namespace AuthorityKernel.Library.Nesting

open Relation

variable {κ β : Type} {eval : Nat → κ → Option β} {Nests : κ → κ → Prop}

/-- The call returns if nesting may go deep enough. -/
def Returns (eval : Nat → κ → Option β) (call : κ) : Prop := ∃ depth answer, eval depth call = some answer

/-- The call comes to a call that is nested in itself. -/
def Entangled (Nests : κ → κ → Prop) (call : κ) : Prop := ∃ inner, ReflTransGen Nests call inner ∧ TransGen Nests inner inner

variable {call : κ}

theorem Entangled.next (entangled : Entangled Nests call) :
    ∃ inner, Nests call inner ∧ Entangled Nests inner := by
  obtain ⟨inner,path,cycle⟩ := entangled
  rcases ReflTransGen.cases_head path with rfl | ⟨between,nests,rest⟩
  · obtain ⟨between,nests,back⟩ := TransGen.head'_iff.mp cycle
    exact ⟨between,nests,call,back,cycle⟩
  · exact ⟨between,nests,inner,rest,cycle⟩

def Descends (eval : Nat → κ → Option β) (Nests : κ → κ → Prop) : Prop :=
  ∀ depth call answer inner, eval depth call = some answer → Nests call inner →
    ∃ less < depth, ∃ result, eval less inner = some result

theorem descends_path (descends : Descends eval Nests) {inner : κ} (nested : TransGen Nests call inner)
    {depth : Nat} {answer : β} (returned : eval depth call = some answer) :
    ∃ less < depth, ∃ result, eval less inner = some result := by
  induction nested with
  | single nests => exact descends depth call answer _ returned nests
  | tail _ nests ih =>
    obtain ⟨between,small,result,same⟩ := ih
    obtain ⟨less,smaller,last,done⟩ := descends between _ result _ same nests
    exact ⟨less,smaller.trans small,last,done⟩

theorem not_returns_of_nested_in_itself (descends : Descends eval Nests) (nested : TransGen Nests call call) :
    ¬ Returns eval call := by
  rintro ⟨depth,answer,returned⟩
  induction depth using Nat.strong_induction_on generalizing answer with
  | _ depth ih =>
    obtain ⟨less,smaller,result,done⟩ := descends_path descends nested returned
    exact ih less smaller result done

theorem not_entangled_of_returns (descends : Descends eval Nests) (returns : Returns eval call) :
    ¬ Entangled Nests call := by
  rintro ⟨inner,path,cycle⟩
  refine not_returns_of_nested_in_itself descends cycle ?_
  rcases reflTransGen_iff_eq_or_transGen.mp path with rfl | nested
  · exact returns
  · obtain ⟨depth,answer,returned⟩ := returns
    obtain ⟨less,-,result,done⟩ := descends_path descends nested returned
    exact ⟨less,result,done⟩

theorem returns_of_not_entangled [Finite κ] {sound : κ → Prop}
    (keeps : ∀ call inner, sound call → Nests call inner → sound inner)
    (step : ∀ call, sound call → (∀ inner, Nests call inner → Returns eval inner) → Returns eval call)
    (start : sound call) (free : ¬ Entangled Nests call) : Returns eval call := by
  -- below a call that is not entangled, nesting is well-founded
  let Below : κ → κ → Prop := fun inner outer => TransGen Nests outer inner ∧ ¬ Entangled Nests outer
  have deeper : ∀ {a b : κ}, Nests a b → ¬ Entangled Nests a → ¬ Entangled Nests b :=
    fun nested free ⟨inner,path,cycle⟩ => free ⟨inner,.head nested path,cycle⟩
  have trans : IsTrans κ Below := ⟨fun _ _ _ first second => ⟨second.1.trans first.1,second.2⟩⟩
  have irrefl : Std.Irrefl Below := ⟨fun a below => below.2 ⟨a,.refl,below.1⟩⟩
  have founded : WellFounded Below := Finite.wellFounded_of_trans_of_irrefl Below
  induction call using founded.induction with
  | _ call ih =>
    exact step call start fun inner nests =>
      ih inner ⟨.single nests,free⟩ (keeps call inner start nests) (deeper nests free)

end AuthorityKernel.Library.Nesting
