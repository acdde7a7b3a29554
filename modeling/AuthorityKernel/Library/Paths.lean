import AuthorityKernel.Library.Bytes
import Mathlib.Data.List.Induction

/-! Where a path leads once its `.` and `..` components are resolved by name, and when a
path that starts out in a directory ends up inside it. -/
namespace AuthorityKernel.Library.Paths

variable {α : Type*}

inductive Component (α : Type*)
  | here
  | up
  | name (entry : α)

structure Place (α : Type*) where
  climbs : Nat
  names : List α
deriving DecidableEq

/-- Nothing is above the root. -/
def move (rooted : Bool) (place : Place α) : Component α → Place α
  | .here => place
  | .up =>
      match place.names with
      | [] => if rooted then place else ⟨place.climbs + 1,[]⟩
      | _ :: _ => ⟨place.climbs,place.names.dropLast⟩
  | .name entry => ⟨place.climbs,place.names ++ [entry]⟩

def walk (rooted : Bool) (place : Place α) (components : List (Component α)) : Place α :=
  components.foldl (move rooted) place

def follow (rooted : Bool) (place way : Place α) : Place α :=
  if way.climbs ≤ place.names.length then
    ⟨place.climbs,place.names.take (place.names.length - way.climbs) ++ way.names⟩
  else if rooted then ⟨place.climbs,way.names⟩
  else ⟨place.climbs + (way.climbs - place.names.length),way.names⟩

def Inside (dir place : Place α) : Prop := place.climbs = dir.climbs ∧ dir.names <+: place.names

instance [DecidableEq α] (dir place : Place α) : Decidable (Inside dir place) := inferInstanceAs (Decidable (_ ∧ _))

def Returns (rooted : Bool) (dir way : Place α) : Prop :=
  (way.climbs ≤ dir.names.length ∨ rooted = true) ∧
    dir.names.drop (dir.names.length - way.climbs) <+: way.names

variable (rooted : Bool) (place : Place α)

theorem move_up_empty {rooted : Bool} {place : Place α} (empty : place.names = []) :
    move rooted place .up = if rooted then place else ⟨place.climbs + 1,[]⟩ := by
  unfold move
  rw [empty]

theorem move_up_inner {rooted : Bool} {place : Place α} (inner : place.names ≠ []) :
    move rooted place .up = ⟨place.climbs,place.names.dropLast⟩ := by
  unfold move
  cases names : place.names with
  | nil => exact absurd names inner
  | cons first rest => simp

theorem follow_up_empty (climbs : Nat) :
    follow rooted place ⟨climbs + 1,[]⟩ = move rooted (follow rooted place ⟨climbs,[]⟩) .up := by
  unfold follow
  dsimp only
  by_cases below : climbs < place.names.length
  · -- still under the directory's first name
    rw [if_pos (Nat.succ_le_of_lt below),if_pos below.le,move_up_inner]
    · simp only [List.append_nil,List.dropLast_eq_take,List.take_take,List.length_take]
      rw [show min (min (place.names.length - climbs) place.names.length - 1) (place.names.length - climbs) =
        place.names.length - (climbs + 1) by omega]
    · simp only [List.append_nil,ne_eq,List.take_eq_nil_iff,not_or]
      exact ⟨by omega,List.ne_nil_of_length_pos (by omega)⟩
  rw [if_neg (by omega)]
  have out : (if climbs ≤ place.names.length then
      (⟨place.climbs,place.names.take (place.names.length - climbs) ++ []⟩ : Place α)
      else if rooted then ⟨place.climbs,[]⟩ else ⟨place.climbs + (climbs - place.names.length),[]⟩) =
      if rooted then ⟨place.climbs,[]⟩ else ⟨place.climbs + (climbs - place.names.length),[]⟩ := by
    split
    · have level : climbs = place.names.length := by omega
      simp [level]
    · rfl
  rw [out]
  cases rooted with
  | true => rfl
  | false =>
    rw [if_neg Bool.false_ne_true,if_neg Bool.false_ne_true,move_up_empty rfl,if_neg Bool.false_ne_true]
    rw [show climbs + 1 - place.names.length = climbs - place.names.length + 1 by omega]
    rfl

theorem follow_move (way : Place α) (component : Component α) :
    follow rooted place (move false way component) = move rooted (follow rooted place way) component := by
  cases component with
  | here => rfl
  | name entry =>
    unfold follow move
    dsimp only
    split
    · rw [List.append_assoc]
    · split <;> rfl
  | up =>
    obtain ⟨climbs,names⟩ := way
    by_cases empty : names = []
    · subst empty
      rw [move_up_empty rfl,if_neg Bool.false_ne_true,follow_up_empty]
    rw [move_up_inner empty]
    have deeper : (follow rooted place ⟨climbs,names⟩).names ≠ [] := by
      unfold follow
      split
      · simp [empty]
      · split <;> exact empty
    rw [move_up_inner deeper]
    unfold follow
    split
    · rw [List.dropLast_append_of_ne_nil empty]
    · split <;> rfl

theorem walk_eq_follow (components : List (Component α)) :
    walk rooted place components = follow rooted place (walk false ⟨0,[]⟩ components) := by
  induction components using List.reverseRecOn with
  | nil => simp [walk,follow]
  | append_singleton rest last ih =>
    unfold walk at ih ⊢
    rw [List.foldl_append,List.foldl_append,List.foldl_cons,List.foldl_cons,List.foldl_nil,List.foldl_nil,ih,follow_move]

theorem inside_follow_iff (dir way : Place α) : Inside dir (follow rooted dir way) ↔ Returns rooted dir way := by
  unfold follow
  split
  · rename_i within
    have split : dir.names <+: dir.names.take (dir.names.length - way.climbs) ++ way.names ↔
        dir.names.drop (dir.names.length - way.climbs) <+: way.names := by
      conv_lhs => arg 1; rw [← List.take_append_drop (dir.names.length - way.climbs) dir.names]
      exact List.prefix_append_right_inj _
    exact ⟨fun inside => ⟨Or.inl within,split.mp inside.2⟩,fun returns => ⟨rfl,split.mpr returns.2⟩⟩
  rename_i out
  have none : dir.names.length - way.climbs = 0 := by omega
  cases rooted with
  | true =>
    rw [if_pos rfl]
    unfold Inside Returns
    rw [none,List.drop_zero]
    exact ⟨fun inside => ⟨Or.inr rfl,inside.2⟩,fun returns => ⟨rfl,returns.2⟩⟩
  | false =>
    rw [if_neg Bool.false_ne_true]
    refine iff_of_false (fun inside => ?_) fun returns => ?_
    · have level : dir.climbs + (way.climbs - dir.names.length) = dir.climbs := inside.1
      omega
    · exact returns.1.elim out Bool.false_ne_true

/-! ### Paths of bytes -/

def component (name : Bytes) : Component Bytes :=
  if name = [] ∨ name = [46] then .here else if name = [46,46] then .up else .name name

def components (path : Bytes) : List (Component Bytes) := (path.splitOn 47).map component

def isRooted (path : Bytes) : Bool := path.head? == some 47

def resolve (path : Bytes) : Place Bytes := walk (isRooted path) ⟨0,[]⟩ (components path)

def wayOf (path : Bytes) : Place Bytes := walk false ⟨0,[]⟩ (components path)

def LiesInside (dir path : Bytes) : Prop := isRooted path = isRooted dir ∧ Inside (resolve dir) (resolve path)

instance (dir path : Bytes) : Decidable (LiesInside dir path) := inferInstanceAs (Decidable (_ ∧ _))

theorem isRooted_below (dir rest : Bytes) : isRooted (dir ++ 47 :: rest) = isRooted (dir ++ [47]) := by
  cases dir <;> rfl

theorem liesInside_below_iff (dir rest : Bytes) :
    LiesInside (dir ++ [47]) (dir ++ 47 :: rest) ↔
      Returns (isRooted (dir ++ [47])) (resolve (dir ++ [47])) (wayOf rest) := by
  have same : resolve (dir ++ 47 :: rest) =
      follow (isRooted (dir ++ [47])) (resolve (dir ++ [47])) (wayOf rest) := by
    unfold resolve wayOf
    rw [← walk_eq_follow,isRooted_below]
    unfold walk components
    rw [List.splitOn_append_cons_self,List.splitOn_append_cons_self,List.map_append,List.map_append,List.foldl_append,
      List.foldl_append]
    rfl
  unfold LiesInside
  rw [isRooted_below,same,inside_follow_iff]
  exact and_iff_right rfl

end AuthorityKernel.Library.Paths
