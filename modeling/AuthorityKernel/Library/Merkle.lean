import Mathlib.Data.Nat.Factorization.Basic
import Mathlib.Tactic.Ring

/-! Hash trees that repeat the last node of a level of odd length. Nodes are combined
without collisions and are no leaves. A root then belongs to one list of leaves exactly if
the list is as long as a power of two and does not end in a repetition. -/
namespace AuthorityKernel.Library.Merkle

variable {α : Type} (node : α → α → α)

def pairUp : List α → List α
  | a :: b :: rest => node a b :: pairUp rest
  | [a] => [node a a]
  | [] => []

def level (j : Nat) (nodes : List α) : List α := (pairUp node)^[j] nodes

def climb : (fuel : Nat) → List α → List α
  | 0, nodes => nodes
  | fuel + 1, nodes => if nodes.length ≤ 1 then nodes else climb fuel (pairUp node nodes)

def IsRoot (nodes : List α) (root : α) : Prop :=
  ∃ depth, level node depth nodes = [root] ∧ ∀ j < depth, (level node j nodes).length ≠ 1

def Leaves (nodes : List α) : Prop := ∀ x ∈ nodes, ∀ a b, node a b ≠ x

def Repeats (nodes : List α) : Prop :=
  ∃ lead block j, lead ≠ [] ∧ block.length = 2 ^ j ∧ nodes = lead ++ block ++ block

theorem level_zero (nodes : List α) : level node 0 nodes = nodes := rfl

theorem level_succ (j : Nat) (nodes : List α) : level node (j + 1) nodes = level node j (pairUp node nodes) := rfl

theorem level_succ_last (j : Nat) (nodes : List α) : level node (j + 1) nodes = pairUp node (level node j nodes) :=
  Function.iterate_succ_apply' (pairUp node) j nodes

variable {nodes : List α}

theorem isRoot_unique {root other : α} (built : IsRoot node nodes root)
    (built' : IsRoot node nodes other) : root = other := by
  obtain ⟨depth,top,first⟩ := built
  obtain ⟨depth',top',first'⟩ := built'
  rcases Nat.lt_trichotomy depth depth' with before | rfl | behind
  · exact absurd (by rw [top]; rfl) (first' depth before)
  · exact (List.cons.inj (top.symm.trans top')).1
  · exact absurd (by rw [top']; rfl) (first depth' behind)

variable {j : Nat}

section Lengths

theorem pairUp_length (nodes : List α) : (pairUp node nodes).length = (nodes.length + 1) / 2 := by
  fun_induction pairUp node nodes with
  | case1 a b rest ih =>
    rw [List.length_cons,ih,List.length_cons,List.length_cons]
    omega
  | case2 | case3 => simp

theorem level_length (j : Nat) (nodes : List α) (filled : nodes ≠ []) :
    (level node j nodes).length = (nodes.length - 1) / 2 ^ j + 1 := by
  have positive := List.length_pos_iff.mpr filled
  induction j with
  | zero =>
    rw [level_zero,Nat.pow_zero,Nat.div_one]
    omega
  | succ j ih =>
    rw [level_succ_last,pairUp_length,ih,Nat.pow_succ,← Nat.div_div_eq_div_mul]
    omega

theorem length_le_of_level (filled : nodes ≠ []) (single : (level node j nodes).length = 1) :
    nodes.length ≤ 2 ^ j := by
  rw [level_length node j nodes filled] at single
  have short : nodes.length - 1 < 2 ^ j := by
    have zero : (nodes.length - 1) / 2 ^ j = 0 := by omega
    exact (Nat.div_eq_zero_iff_lt (Nat.two_pow_pos j)).mp zero
  omega

theorem depth_of_power {depth : Nat} (size : nodes.length = 2 ^ j)
    (single : (level node depth nodes).length = 1) (first : ∀ i < depth, (level node i nodes).length ≠ 1) : depth = j := by
  have filled : nodes ≠ [] := by
    have positive := Nat.two_pow_pos j
    exact List.length_pos_iff.mp (by omega)
  have least : j ≤ depth := by
    have bound := length_le_of_level node filled single
    rw [size] at bound
    exact (Nat.pow_le_pow_iff_right (by decide)).mp bound
  have reached : (level node j nodes).length = 1 := by
    have positive := Nat.two_pow_pos j
    rw [level_length node j nodes filled,size,Nat.div_eq_of_lt (by omega)]
  rcases Nat.lt_or_eq_of_le least with before | same
  · exact absurd reached (first j before)
  · exact same.symm

theorem climb_isRoot (fuel : Nat) (nodes : List α) (filled : nodes ≠ []) (enough : nodes.length ≤ fuel + 1) :
    ∃ root, climb node fuel nodes = [root] ∧ IsRoot node nodes root := by
  induction fuel generalizing nodes with
  | zero =>
    obtain ⟨root,rfl⟩ := List.length_eq_one_iff.mp (Nat.le_antisymm enough (List.length_pos_iff.mpr filled))
    exact ⟨root,rfl,0,rfl,fun j before => absurd before (Nat.not_lt_zero j)⟩
  | succ fuel ih =>
    unfold climb
    split
    · rename_i short
      obtain ⟨root,rfl⟩ := List.length_eq_one_iff.mp (Nat.le_antisymm short (List.length_pos_iff.mpr filled))
      exact ⟨root,rfl,0,rfl,fun j before => absurd before (Nat.not_lt_zero j)⟩
    rename_i long
    have size := pairUp_length node nodes
    obtain ⟨root,climbed,depth,top,first⟩ := ih (pairUp node nodes) (List.length_pos_iff.mp (by omega)) (by omega)
    refine ⟨root,climbed,depth + 1,top,fun j before => ?_⟩
    cases j with
    | zero =>
      rw [level_zero]
      omega
    | succ j => exact first j (by omega)

end Lengths

section Splitting

theorem pairUp_append (first second : List α) (paired : Even first.length) :
    pairUp node (first ++ second) = pairUp node first ++ pairUp node second := by
  fun_induction pairUp node first with
  | case1 a b rest ih =>
    have shorter : Even rest.length := by
      rw [List.length_cons,List.length_cons,add_assoc] at paired
      exact (Nat.even_add.mp paired).mpr even_two
    rw [List.cons_append,List.cons_append,pairUp,ih shorter,List.cons_append]
  | case2 a => simp at paired
  | case3 => rfl

theorem level_append (j : Nat) (first second : List α) (divides : 2 ^ j ∣ first.length) :
    level node j (first ++ second) = level node j first ++ level node j second := by
  induction j generalizing first second with
  | zero => rfl
  | succ j ih =>
    obtain ⟨count,size⟩ := divides
    have halved : first.length = 2 * (2 ^ j * count) := by rw [size,Nat.pow_succ]; ring
    rw [level_succ,level_succ,level_succ,pairUp_append node first second ⟨2 ^ j * count,by omega⟩]
    refine ih _ _ ⟨count,?_⟩
    rw [pairUp_length]
    omega

/-- Repeating the last block of a list whose blocks are odd in number changes nothing
above the blocks. -/
theorem level_repeat (j : Nat) (lead block : List α) (size : block.length = 2 ^ j) (count : Nat)
    (blocks : lead.length = 2 ^ j * count) (counted : 0 < count) (paired : Even count) :
    level node (j + 1) (lead ++ block ++ block) = level node (j + 1) (lead ++ block) := by
  have filled : block ≠ [] := by
    have positive := Nat.two_pow_pos j
    exact List.length_pos_iff.mp (by omega)
  obtain ⟨top,single⟩ : ∃ top, level node j block = [top] := by
    apply List.length_eq_one_iff.mp
    have positive := Nat.two_pow_pos j
    rw [level_length node j block filled,size,Nat.div_eq_of_lt (by omega)]
  have even : Even (level node j lead).length := by
    have positive := Nat.two_pow_pos j
    have whole : (2 ^ j * count - 1) / 2 ^ j + 1 = count := by
      obtain ⟨less,rfl⟩ := Nat.exists_eq_succ_of_ne_zero (by omega : count ≠ 0)
      rw [Nat.mul_succ,Nat.add_sub_assoc positive,Nat.mul_add_div positive,Nat.div_eq_of_lt (by omega)]
    have led : 0 < lead.length := by
      rw [blocks]
      exact Nat.mul_pos positive counted
    rw [level_length node j lead (List.length_pos_iff.mp led),blocks,whole]
    exact paired
  have below : level node j (lead ++ block ++ block) = level node j lead ++ [top,top] := by
    rw [List.append_assoc,level_append node j lead _ ⟨count,blocks⟩,level_append node j block block ⟨1,by omega⟩,single]
    rfl
  have below' : level node j (lead ++ block) = level node j lead ++ [top] := by
    rw [level_append node j lead block ⟨count,blocks⟩,single]
  rw [level_succ_last,level_succ_last,below,below',pairUp_append node _ _ even,pairUp_append node _ _ even]
  rfl

theorem isRoot_repeat {lead block : List α} (size : block.length = 2 ^ j) {count : Nat}
    (blocks : lead.length = 2 ^ j * count) (counted : 0 < count) (paired : Even count) (root : α) :
    IsRoot node (lead ++ block ++ block) root ↔ IsRoot node (lead ++ block) root := by
  have positive := Nat.two_pow_pos j
  have atLeast : 2 ^ j ≤ lead.length := by
    rw [blocks]
    exact Nat.le_mul_of_pos_right _ counted
  have wide : ∀ (others : List α) (i : Nat), i ≤ j → 2 ^ j < others.length → (level node i others).length ≠ 1 := by
    intro others i low long
    have filled : others ≠ [] := List.length_pos_iff.mp (by omega)
    intro single
    have bound := length_le_of_level node filled single
    have grows := Nat.pow_le_pow_right (by decide : 0 < 2) low
    omega
  have same : ∀ i, j < i → level node i (lead ++ block ++ block) = level node i (lead ++ block) := by
    intro i high
    obtain ⟨more,rfl⟩ := Nat.exists_eq_add_of_lt high
    have split : ∀ others : List α, level node (j + more + 1) others = level node more (level node (j + 1) others) := by
      intro others
      rw [show j + more + 1 = more + (j + 1) from by omega]
      exact Function.iterate_add_apply (pairUp node) more (j + 1) others
    rw [split,split,level_repeat node j lead block size count blocks counted paired]
  have longer : 2 ^ j < (lead ++ block ++ block).length := by
    rw [List.length_append,List.length_append]
    omega
  have long : 2 ^ j < (lead ++ block).length := by
    rw [List.length_append]
    omega
  constructor
  · rintro ⟨depth,top,first⟩
    have high : j < depth := by
      by_contra low
      exact wide _ depth (by omega) longer (by rw [top]; rfl)
    refine ⟨depth,same depth high ▸ top,fun i before => ?_⟩
    rcases Nat.lt_or_ge j i with above | below
    · exact same i above ▸ first i before
    · exact wide _ i below long
  · rintro ⟨depth,top,first⟩
    have high : j < depth := by
      by_contra low
      exact wide _ depth (by omega) long (by rw [top]; rfl)
    refine ⟨depth,(same depth high).trans top,fun i before => ?_⟩
    rcases Nat.lt_or_ge j i with above | below
    · rw [same i above]
      exact first i before
    · exact wide _ i below longer

theorem exists_longer (nodes : List α) (filled : nodes ≠ []) (odd : ∀ k, nodes.length ≠ 2 ^ k) :
    ∃ lead block, lead ≠ [] ∧ (∃ j, block.length = 2 ^ j) ∧ nodes = lead ++ block ∧
      ∀ root, IsRoot node (lead ++ block ++ block) root ↔ IsRoot node nodes root := by
  obtain ⟨j,count,uneven,size⟩ := Nat.exists_eq_two_pow_mul_odd (List.length_pos_iff.mpr filled).ne'
  obtain ⟨half,rfl⟩ := uneven
  have more : 0 < half := by
    rcases Nat.eq_zero_or_pos half with rfl | more
    · exact absurd size (by simpa using odd j)
    · exact more
  have positive := Nat.two_pow_pos j
  have whole : nodes.length = 2 ^ j * (2 * half) + 2 ^ j := by rw [size,Nat.mul_add,Nat.mul_one]
  have led : (nodes.take (2 ^ j * (2 * half))).length = 2 ^ j * (2 * half) := by
    rw [List.length_take]
    omega
  have ended : (nodes.drop (2 ^ j * (2 * half))).length = 2 ^ j := by
    rw [List.length_drop]
    omega
  have together := List.take_append_drop (2 ^ j * (2 * half)) nodes
  refine ⟨nodes.take (2 ^ j * (2 * half)),nodes.drop (2 ^ j * (2 * half)),?_,⟨j,ended⟩,together.symm,fun root => ?_⟩
  · apply List.length_pos_iff.mp
    rw [led]
    exact Nat.mul_pos positive (by omega)
  · have kept := isRoot_repeat node ended led (by omega) (even_two_mul half) root
    rw [together] at kept
    rw [together]
    exact kept

end Splitting

section Determined

variable {node} (injective : ∀ a b c d, node a b = node c d → a = c ∧ b = d)
include injective

theorem pairUp_injective (first second : List α) (size : first.length = second.length)
    (same : pairUp node first = pairUp node second) : first = second := by
  fun_induction pairUp node first generalizing second with
  | case1 a b rest ih =>
    match second with
    | [] => simp at size
    | [c] => simp at size
    | c :: d :: others =>
      obtain ⟨top,later⟩ := List.cons.inj same
      obtain ⟨rfl,rfl⟩ := injective a b c d top
      rw [ih others (by simpa using size) later]
  | case2 a =>
    match second with
    | [] => simp at size
    | [c] => rw [(injective a a c c (List.cons.inj same).1).1]
    | c :: d :: others => simp at size
  | case3 => exact (List.length_eq_zero_iff.mp size.symm).symm

theorem level_injective (j : Nat) (first second : List α) (size : first.length = second.length)
    (same : level node j first = level node j second) : first = second := by
  induction j generalizing first second with
  | zero => exact same
  | succ j ih =>
    rw [level_succ,level_succ] at same
    apply pairUp_injective injective first second size
    exact ih _ _ (by rw [pairUp_length,pairUp_length,size]) same

/-- The leftmost nodes lead from a root down to the first leaf. -/
theorem depth_unique (i j : Nat) (first second : List α) (leaves : Leaves node first)
    (leaves' : Leaves node second) (top : α) (rest rest' : List α)
    (left : level node i first = top :: rest) (right : level node j second = top :: rest') : i = j := by
  have step : ∀ (nodes : List α) (head : α) (others : List α), pairUp node nodes = head :: others →
      ∃ a b below, nodes = a :: below ∧ head = node a b := by
    intro nodes head others built
    match nodes with
    | [] => simp [pairUp] at built
    | [a] => exact ⟨a,a,[],rfl,(List.cons.inj built).1.symm⟩
    | a :: b :: below => exact ⟨a,b,b :: below,rfl,(List.cons.inj built).1.symm⟩
  induction i generalizing j top rest rest' with
  | zero =>
    cases j with
    | zero => rfl
    | succ j =>
      rw [level_succ_last] at right
      obtain ⟨a,b,_,_,rfl⟩ := step _ _ _ right
      rw [level_zero] at left
      exact absurd rfl (leaves (node a b) (by simp [left]) a b)
  | succ i ih =>
    rw [level_succ_last] at left
    obtain ⟨a,b,below,leftBelow,rfl⟩ := step _ _ _ left
    cases j with
    | zero =>
      rw [level_zero] at right
      exact absurd rfl (leaves' (node a b) (by simp [right]) a b)
    | succ j =>
      rw [level_succ_last] at right
      obtain ⟨c,d,below',rightBelow,combined⟩ := step _ _ _ right
      obtain ⟨rfl,_⟩ := injective a b c d combined
      rw [ih j a below below' leftBelow rightBelow]

/-- Lists that are filled up one after the other end at one as long as a power of two. -/
theorem eq_of_isRoot (nodes others : List α) (leaves : Leaves node nodes) (leaves' : Leaves node others)
    (filled : others ≠ []) (k : Nat) (size : nodes.length = 2 ^ k) (plain : ¬ Repeats nodes) (root : α)
    (built : IsRoot node nodes root) (built' : IsRoot node others root) : others = nodes := by
  obtain ⟨depth,top,first⟩ := built
  obtain rfl := depth_of_power node size (by rw [top]; rfl) first
  have bounded : ∀ list : List α, Leaves node list → list ≠ [] → IsRoot node list root →
      level node depth list = [root] ∧ list.length ≤ 2 ^ depth ∧ ∀ i, list.length = 2 ^ i → i = depth := by
    intro list listLeaves listFilled listBuilt
    obtain ⟨depth',top',first'⟩ := listBuilt
    obtain rfl := depth_unique injective depth depth' nodes list leaves listLeaves root [] [] top top'
    have single : (level node depth list).length = 1 := by rw [top']; rfl
    exact ⟨top',length_le_of_level node listFilled single,
      fun i power => (depth_of_power node power single first').symm⟩
  induction missing : 2 ^ depth - others.length using Nat.strong_induction_on generalizing others with
  | _ missing ih =>
    obtain ⟨top',short,depthOnly⟩ := bounded others leaves' filled built'
    by_cases power : ∃ i, others.length = 2 ^ i
    · obtain ⟨i,same⟩ := power
      obtain rfl := depthOnly i same
      exact level_injective injective i others nodes (same.trans size.symm) (top'.trans top.symm)
    push Not at power
    obtain ⟨lead,block,led,⟨j,blockSize⟩,rfl,kept⟩ := exists_longer node others filled power
    have grown : Leaves node (lead ++ block ++ block) := by
      intro x member
      apply leaves' x
      simp only [List.mem_append] at member ⊢
      tauto
    have positive := Nat.two_pow_pos j
    have full := ih (2 ^ depth - (lead ++ block ++ block).length) ?_ (lead ++ block ++ block) grown
      (by simp [led]) ((kept root).mpr built') rfl
    · exact absurd ⟨lead,block,j,led,blockSize,full.symm⟩ plain
    · have strict : (lead ++ block).length ≠ 2 ^ depth := power depth
      simp only [List.length_append] at missing short strict ⊢
      omega

theorem determined_iff (nodes : List α) (leaves : Leaves node nodes) (filled : nodes ≠ []) (root : α)
    (built : IsRoot node nodes root) :
    (∀ others, others ≠ [] → Leaves node others → IsRoot node others root → others = nodes) ↔
      (∃ k, nodes.length = 2 ^ k) ∧ ¬ Repeats nodes := by
  constructor
  · intro only
    have power : ∃ k, nodes.length = 2 ^ k := by
      by_contra none
      push Not at none
      obtain ⟨lead,block,led,⟨j,blockSize⟩,rfl,kept⟩ := exists_longer node nodes filled none
      have grown : Leaves node (lead ++ block ++ block) := by
        intro x member
        apply leaves x
        simp only [List.mem_append] at member ⊢
        tauto
      have same := congrArg List.length (only _ (by simp [led]) grown ((kept root).mpr built))
      have positive := Nat.two_pow_pos j
      simp only [List.length_append] at same
      omega
    refine ⟨power,?_⟩
    rintro ⟨lead,block,j,led,blockSize,rfl⟩
    obtain ⟨k,size⟩ := power
    have positive := Nat.two_pow_pos j
    have leadPositive := List.length_pos_iff.mpr led
    simp only [List.length_append,blockSize] at size
    -- what stands before the two blocks is an even number of blocks
    obtain ⟨more,rfl⟩ : ∃ more, k = j + 1 + more + 1 := by
      have large : 2 ^ (j + 1) < 2 ^ k := by
        rw [Nat.pow_succ]
        omega
      obtain ⟨more,step⟩ := Nat.exists_eq_add_of_lt ((Nat.pow_lt_pow_iff_right (by decide)).mp large)
      exact ⟨more,by omega⟩
    have blocks : lead.length = 2 ^ j * (2 * (2 ^ (more + 1) - 1)) := by
      have power : 2 ^ (j + 1 + more + 1) = 2 ^ j * (2 * 2 ^ (more + 1)) := by ring
      rw [power] at size
      rw [Nat.mul_sub,Nat.mul_sub]
      omega
    have counted : 0 < 2 * (2 ^ (more + 1) - 1) := by
      have large : 2 ^ 1 ≤ 2 ^ (more + 1) := Nat.pow_le_pow_right (by decide) (by omega)
      omega
    have shorter := (isRoot_repeat node blockSize blocks counted (even_two_mul _) root).mp built
    have same := congrArg List.length (only (lead ++ block) (by simp [led])
      (fun x member => leaves x (List.mem_append_left block member)) shorter)
    simp only [List.length_append] at same
    omega
  · rintro ⟨⟨k,size⟩,plain⟩ others othersFilled othersLeaves othersBuilt
    exact eq_of_isRoot injective nodes others leaves othersLeaves othersFilled k size plain root built othersBuilt

end Determined

end AuthorityKernel.Library.Merkle
