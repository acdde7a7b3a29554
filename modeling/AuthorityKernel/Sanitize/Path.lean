import AuthorityKernel.Library.Paths

/-! The path sanitizer and the paths it cannot confine: its component tests look at the raw
bytes from any position on, so what it drops can leave a `..` or a leading slash behind. -/
namespace AuthorityKernel.Sanitize
open Library Library.Paths

/-- One pass over the components; `skip` while slashes are passed over. -/
def copyComponents (skip : Bool) : Bytes → Bytes
  | [] => []
  | byte :: rest =>
      if byte = 47 then if skip then copyComponents true rest else 47 :: copyComponents true rest
      else if byte = 0 then copyComponents false rest
      else if byte = 46 then
        match rest with
        | [] => []
        | 47 :: after => copyComponents false after
        | [46] => []
        | 46 :: 47 :: after => copyComponents false after
        | rest => 46 :: copyComponents false rest
      else byte :: copyComponents false rest

def basePart (basePath : Option CString) : Bytes :=
  match basePath with
  | none => []
  | some base => if base.1 = [] ∨ base.1.getLast? = some 47 then base.1 else base.1 ++ [47]

def akSanitizePath (alloc : Bool) (input : Option Bytes) (basePath : Option CString) : Option Bytes :=
  match input with
  | none => none
  | some src =>
      if !alloc then none
      else
        let out := basePart basePath ++ copyComponents true src
        let baseLen := (basePath.elim [] (·.1)).length
        some (if src ≠ [] ∧ baseLen + 1 < out.length ∧ out.getLast? = some 47 then out.dropLast else out)

/-- The base path, and a relative path that stays below it. -/
def Confined (basePath : Option CString) (path : Bytes) : Prop :=
  ∃ relative, path = basePart basePath ++ relative ∧ relative.head? ≠ some 47 ∧ 0 ∉ relative ∧
    Component.up ∉ components relative

theorem mem_copyComponents (skip : Bool) (src : Bytes) (byte : UInt8) (member : byte ∈ copyComponents skip src) :
    byte ∈ src ∧ byte ≠ 0 := by
  fun_induction copyComponents skip src with
  | case1 => simp at member
  | _ => simp_all <;> grind

/-- What is copied of a component: not its NUL bytes and not the last two of its final dots. -/
def stem : Bytes → Bytes
  | [] => []
  | [46] => []
  | [46,46] => []
  | byte :: rest => if byte = 0 then stem rest else byte :: stem rest

/-- The slash behind a component that ends in a dot is dropped with the dot, so the next
component continues its name. -/
def joined : List Bytes → List Bytes
  | [] => []
  | [part] => [stem part]
  | part :: rest =>
      if part.getLast? = some 46 then (joined rest).modifyHead (stem part ++ ·) else stem part :: joined rest

/-- Of the names the components of the input are joined to, none is `..`, and an empty one is
first only if it is the last too. -/
def Spared (input : Bytes) : Prop :=
  let names := joined ((input.dropWhile (· == 47)).splitOn 47)
  [46,46] ∉ names ∧ (names.head? = some [] → names.tail = [])

instance (input : Bytes) : Decidable (Spared input) := inferInstanceAs (Decidable (_ ∧ _))

theorem joined_cons_cons (part next : Bytes) (rest : List Bytes) :
    joined (part :: next :: rest) =
      if part.getLast? = some 46 then (joined (next :: rest)).modifyHead (stem part ++ ·)
      else stem part :: joined (next :: rest) := rfl

theorem joined_ne_nil (part : Bytes) (rest : List Bytes) : joined (part :: rest) ≠ [] := by
  induction rest generalizing part with
  | nil => simp [joined]
  | cons next rest ih =>
    rw [joined_cons_cons]
    split
    · simpa using ih next
    · simp

theorem joined_splitOn_ne_nil (src : Bytes) : joined (src.splitOn 47) ≠ [] := by
  obtain ⟨part,parts,split⟩ := List.exists_cons_of_ne_nil (List.splitOn_ne_nil (47 : UInt8) src)
  rw [split]
  exact joined_ne_nil part parts

theorem joined_slash (rest : Bytes) : joined ((47 :: rest).splitOn 47) = [] :: joined (rest.splitOn 47) := by
  obtain ⟨next,parts,split⟩ := List.exists_cons_of_ne_nil (List.splitOn_ne_nil (47 : UInt8) rest)
  rw [List.splitOn_cons_eq_if_modifyHead,if_pos (by decide),split,joined_cons_cons,if_neg (by simp)]
  rfl

theorem joined_dots {dots : Bytes} (dotted : dots = [46] ∨ dots = [46,46]) (after : Bytes) :
    joined ((dots ++ 47 :: after).splitOn 47) = joined (after.splitOn 47) := by
  obtain ⟨next,parts,split⟩ := List.exists_cons_of_ne_nil (List.splitOn_ne_nil (47 : UInt8) after)
  obtain ⟨name,names,begun⟩ := List.exists_cons_of_ne_nil (joined_ne_nil next parts)
  rw [List.splitOn_append_cons_self,split]
  rcases dotted with rfl | rfl
  all_goals
    change (joined (next :: parts)).modifyHead ([] ++ ·) = joined (next :: parts)
    rw [begun]
    rfl

theorem joined_copy {byte : UInt8} {rest : Bytes} (inner : byte ≠ 47)
    (plain : byte = 46 → (rest.splitOn 47).head? ≠ some [] ∧ (rest.splitOn 47).head? ≠ some [46]) :
    joined ((byte :: rest).splitOn 47) =
      (joined (rest.splitOn 47)).modifyHead ((if byte = 0 then [] else [byte]) ++ ·) := by
  rw [List.splitOn_cons_eq_if_modifyHead,if_neg (by simpa using inner)]
  obtain ⟨part,parts,split⟩ := List.exists_cons_of_ne_nil (List.splitOn_ne_nil (47 : UInt8) rest)
  rw [split] at plain ⊢
  simp only [List.head?_cons,ne_eq,Option.some.injEq] at plain
  have stems : stem (byte :: part) = (if byte = 0 then [] else [byte]) ++ stem part := by
    rw [stem]
    · split <;> rfl
    · rintro rfl rfl
      exact (plain rfl).1 rfl
    · rintro rfl rfl
      exact (plain rfl).2 rfl
  have ends : (byte :: part).getLast? = some 46 ↔ part.getLast? = some 46 := by
    cases part with
    | nil => simpa using fun dot => (plain dot).1 rfl
    | cons next part => rw [List.getLast?_cons_cons]
  cases parts with
  | nil => simp [joined,stems]
  | cons next parts =>
    rw [List.modifyHead_cons,joined_cons_cons,joined_cons_cons,stems]
    simp only [ends]
    split
    · simp [Function.comp_def]
    · rfl

def named (names : List Bytes) : List Bytes := names.filter (· ≠ [])

/-- The lists begin alike and differ behind that in empty names only. -/
def SameNames (first second : List Bytes) : Prop :=
  first.head? = second.head? ∧ named first.tail = named second.tail ∧ (first.tail = [] ↔ second.tail = [])

theorem SameNames.named {first second : List Bytes} (same : SameNames first second) : named first = named second := by
  obtain ⟨heads,tails,_⟩ := same
  match first, second with
  | [], [] => rfl
  | [], _ :: _ => simp at heads
  | _ :: _, [] => simp at heads
  | name :: first, other :: second =>
    obtain rfl : name = other := Option.some.inj heads
    simp only [List.tail_cons] at tails
    simp only [Sanitize.named,List.filter_cons] at tails ⊢
    rw [tails]

theorem SameNames.modifyHead {first second : List Bytes} (same : SameNames first second) (change : Bytes → Bytes) :
    SameNames (first.modifyHead change) (second.modifyHead change) := by
  simpa [SameNames] using ⟨congrArg (Option.map change) same.1,same.2⟩

/-- The loop copies the joined names of its input, with a slash between them. -/
theorem copyComponents_names (skip : Bool) (src : Bytes) :
    named ((copyComponents skip src).splitOn 47) = named (joined (src.splitOn 47)) ∧
      (skip = false ∨ src.head? ≠ some 47 →
        SameNames ((copyComponents skip src).splitOn 47) (joined (src.splitOn 47))) := by
  have whole {out parts : List Bytes} {condition : Prop} (same : SameNames out parts) :
      named out = named parts ∧ (condition → SameNames out parts) := ⟨same.named,fun _ => same⟩
  have copied {byte : UInt8} {rest : Bytes} (inner : byte ≠ 47) (text : byte ≠ 0)
      (plain : byte = 46 → (rest.splitOn 47).head? ≠ some [] ∧ (rest.splitOn 47).head? ≠ some [46])
      (same : SameNames ((copyComponents false rest).splitOn 47) (joined (rest.splitOn 47))) :
      SameNames ((byte :: copyComponents false rest).splitOn 47) (joined ((byte :: rest).splitOn 47)) := by
    rw [joined_copy inner plain,List.splitOn_cons_eq_if_modifyHead,if_neg (by simpa using inner),if_neg text]
    exact same.modifyHead _
  fun_induction copyComponents skip src with
  | case1 => exact whole ⟨rfl,rfl,Iff.rfl⟩
  | case2 rest ih =>
    refine ⟨?_,by simp⟩
    rw [joined_slash]
    exact ih.1
  | case3 skip rest _ ih =>
    apply whole
    rw [joined_slash,List.splitOn_cons_eq_if_modifyHead,if_pos (by decide)]
    exact ⟨rfl,ih.1,iff_of_false (List.splitOn_ne_nil _ _) (joined_splitOn_ne_nil rest)⟩
  | case4 skip rest _ ih =>
    apply whole
    obtain ⟨name,names,begun⟩ := List.exists_cons_of_ne_nil (joined_splitOn_ne_nil rest)
    have same := ih.2 (Or.inl rfl)
    rw [begun] at same
    rw [joined_copy (by decide) (fun dot => absurd dot (by decide)),begun]
    exact same
  | case5 | case7 => exact whole ⟨rfl,rfl,Iff.rfl⟩
  | case6 skip after _ _ ih =>
    apply whole
    have dropped : joined ((46 :: 47 :: after).splitOn 47) = _ := joined_dots (Or.inl rfl) after
    rw [dropped]
    exact ih.2 (Or.inl rfl)
  | case8 skip after _ _ ih =>
    apply whole
    have dropped : joined ((46 :: 46 :: 47 :: after).splitOn 47) = _ := joined_dots (Or.inr rfl) after
    rw [dropped]
    exact ih.2 (Or.inl rfl)
  | case9 skip rest some slash dot dots _ _ ih =>
    refine whole (copied (by decide) (by decide) (fun _ => ?_) (ih.2 (Or.inl rfl)))
    cases rest with
    | nil => exact absurd rfl some
    | cons byte rest =>
      have inner : byte ≠ 47 := fun same => slash rest (by rw [same])
      rw [List.splitOn_cons_eq_if_modifyHead,if_neg (by simpa using inner)]
      cases rest with
      | nil => simpa using fun same => dot (by rw [same])
      | cons next rest =>
        rw [List.splitOn_cons_eq_if_modifyHead]
        split
        · rename_i stops
          simpa using fun same => dots rest (by rw [same,beq_iff_eq.mp stops])
        · simp
  | case10 skip byte rest slash nul dot ih =>
    exact whole (copied slash nul (fun same => absurd same dot) (ih.2 (Or.inl rfl)))

theorem copyComponents_front (src : Bytes) :
    copyComponents true src = copyComponents true (src.dropWhile (· == 47)) := by
  induction src with
  | nil => rfl
  | cons byte rest ih =>
    by_cases slash : byte = 47
    · subst byte
      rw [List.dropWhile_cons_of_pos (by decide),← ih,copyComponents.eq_def]
      rfl
    · rw [List.dropWhile_cons_of_neg (by simpa using slash)]

theorem up_mem_components_iff (path : Bytes) : Component.up ∈ components path ↔ [46,46] ∈ path.splitOn 47 := by
  have named (name : Bytes) : component name = .up ↔ name = [46,46] := by
    unfold component
    split
    · rename_i plain
      rcases plain with rfl | rfl <;> simp
    · split <;> simp [*]
  simp [components,named]

theorem up_mem_components_slash (path : Bytes) :
    Component.up ∈ components (path ++ [47]) ↔ Component.up ∈ components path := by
  rw [up_mem_components_iff,up_mem_components_iff,List.splitOn_append_cons_self]
  simp

/-- What the loop copies of an input stays below the base path exactly if the input is spared. -/
theorem spared_iff (input : Bytes) :
    Spared input ↔ Component.up ∉ components (copyComponents true input) ∧
      (copyComponents true input).head? ≠ some 47 := by
  have start : (input.dropWhile (· == 47)).head? ≠ some 47 := by
    intro slash
    have first := List.head?_dropWhile_not (· == (47 : UInt8)) input
    simp [slash] at first
  obtain ⟨names,same⟩ := copyComponents_names true (input.dropWhile (· == 47))
  rw [← copyComponents_front] at names same
  have same := same (Or.inr start)
  have member (names : List Bytes) : [46,46] ∈ names ↔ [46,46] ∈ named names := by simp [named]
  have slash : (copyComponents true input).head? = some 47 ↔
      ((copyComponents true input).splitOn 47).head? = some [] ∧ ((copyComponents true input).splitOn 47).tail ≠ [] := by
    cases copyComponents true input with
    | nil => simp
    | cons byte rest =>
      rw [List.splitOn_cons_eq_if_modifyHead]
      split
      · simp_all
      · simp_all
  rw [Spared,up_mem_components_iff,member,member ((copyComponents true input).splitOn 47),names,ne_eq,slash,
    same.1,ne_eq,same.2.2]
  tauto

theorem basePart_length (basePath : Option CString) :
    (basePart basePath).length ≤ (basePath.elim [] (·.1)).length + 1 := by
  unfold basePart
  split
  · exact Nat.zero_le _
  split
  · exact Nat.le_succ _
  simp

example : Spared (ascii "../etc/passwd") ∧ Spared (ascii "dir/a.txt") ∧ ¬ Spared (ascii "..//etc") := by decide +kernel

end AuthorityKernel.Sanitize
