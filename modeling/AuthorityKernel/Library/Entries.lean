import AuthorityKernel.Library.Text

/-! Lists of entries that give each name between two marks, without escaping it. Such a list
is readable in one way only when no name has all the letters that separate two names. -/
namespace AuthorityKernel.Library.Entries

section Entries

variable {α τ : Type*} (lead : List α) (mark : α) (word : τ → List α)

def entry (item : List α × τ) : List α := lead ++ mark :: (item.1 ++ mark :: word item.2)

def entries (items : List (List α × τ)) : List α := items.flatMap (entry lead mark word)

def Led (text : List α) : Prop :=
  ∀ before after, text = before ++ mark :: after → mark ∉ before → lead ⊆ before

def Spans (name : List α) (tag : τ) : Prop := mark :: (word tag ++ lead) ⊆ name

variable {lead mark word}

theorem led_nil : Led lead mark [] := by
  intro before after same
  cases before <;> cases same

theorem Led.append {text rest : List α} (plain : mark ∉ text) (led : Led lead mark rest) :
    Led lead mark (text ++ rest) := by
  intro before after same free
  rcases List.append_eq_append_iff.mp same with ⟨middle,rfl,rest⟩ | ⟨middle,rfl,marked⟩
  · have inside := led middle after rest fun member => free (List.mem_append_right _ member)
    exact List.Subset.trans inside (List.subset_append_right _ _)
  cases middle with
  | nil => exact List.Subset.trans (led [] after marked.symm List.not_mem_nil) (List.nil_subset _)
  | cons letter middle =>
    cases marked
    exact absurd (List.mem_append_right _ List.mem_cons_self) plain

theorem led_lead (free : mark ∉ lead) (rest : List α) : Led lead mark (lead ++ mark :: rest) := by
  intro before after same plain
  rw [(split_first mark lead before rest after same free plain).1]
  exact List.Subset.refl _

theorem led_entries (free : mark ∉ lead) (items : List (List α × τ)) {behind : List α} (led : Led lead mark behind) :
    Led lead mark (entries lead mark word items ++ behind) := by
  cases items with
  | nil => exact led
  | cons item items =>
    rw [entries,List.flatMap_cons,entry,List.append_assoc,List.append_assoc,List.cons_append]
    exact led_lead free _

theorem passed_over (plain : ∀ tag, mark ∉ word tag) {tag : τ} {rest gap after : List α}
    (led : Led lead mark rest) (same : mark :: (word tag ++ rest) = gap ++ mark :: after) :
    gap = [] ∨ mark :: (word tag ++ lead) ⊆ gap := by
  cases gap with
  | nil => exact .inl rfl
  | cons letter gap =>
    rw [List.cons_append,List.cons.injEq] at same
    obtain ⟨rfl,same⟩ := same
    have past : ∃ middle, gap = word tag ++ middle ∧ rest = middle ++ mark :: after := by
      rcases List.append_eq_append_iff.mp same with ⟨middle,left,right⟩ | ⟨middle,left,right⟩
      · exact ⟨middle,left,right⟩
      cases middle with
      | nil => exact ⟨[],by rw [left,List.append_nil,List.append_nil],right.symm⟩
      | cons first middle =>
        cases right
        exact absurd (left ▸ List.mem_append_right _ List.mem_cons_self) (plain tag)
    obtain ⟨middle,rfl,rfl⟩ := past
    have inside : lead ⊆ middle := by
      by_cases marked : mark ∈ middle
      · obtain ⟨before,later,rfl,free⟩ := List.eq_append_cons_of_mem marked
        have reached := led before (later ++ mark :: after) (by simp) free
        exact List.Subset.trans reached (List.subset_append_left _ _)
      · exact led middle after rfl marked
    refine .inr (List.cons_subset_cons _ (List.append_subset.mpr ⟨List.subset_append_left _ _,?_⟩))
    exact List.Subset.trans inside (List.subset_append_right _ _)

theorem name_unique (plain : ∀ tag, mark ∉ word tag) {name name' rest rest' : List α} {tag tag' : τ}
    (led : Led lead mark rest) (led' : Led lead mark rest') (short : ¬Spans lead mark word name tag')
    (short' : ¬Spans lead mark word name' tag)
    (same : name ++ mark :: (word tag ++ rest) = name' ++ mark :: (word tag' ++ rest')) : name = name' := by
  rcases List.append_eq_append_iff.mp same with ⟨gap,longer,passed⟩ | ⟨gap,longer,passed⟩
  · rcases passed_over plain led passed with rfl | spans
    · rw [longer,List.append_nil]
    · exact absurd (longer ▸ List.Subset.trans spans (List.subset_append_right _ _)) short'
  · rcases passed_over plain led' passed with rfl | spans
    · rw [longer,List.append_nil]
    · exact absurd (longer ▸ List.Subset.trans spans (List.subset_append_right _ _)) short

theorem entries_unique {first : α} {others : List α} (begins : lead = first :: others) (free : mark ∉ lead)
    (plain : ∀ tag, mark ∉ word tag)
    (readable : ∀ tag tag' rest rest', word tag ++ rest = word tag' ++ rest' → tag = tag' ∧ rest = rest')
    {behind behind' : List α} (stops : behind.head? ≠ some first) (stops' : behind'.head? ≠ some first)
    (led : Led lead mark behind) (led' : Led lead mark behind') (items items' : List (List α × τ))
    (short : ∀ item ∈ items, ∀ tag, ¬Spans lead mark word item.1 tag)
    (short' : ∀ item ∈ items', ∀ tag, ¬Spans lead mark word item.1 tag)
    (same : entries lead mark word items ++ behind = entries lead mark word items' ++ behind') :
    items = items' ∧ behind = behind' := by
  have shape (item : List α × τ) (items : List (List α × τ)) (behind : List α) :
      entries lead mark word (item :: items) ++ behind =
        lead ++ mark :: (item.1 ++ mark :: (word item.2 ++ (entries lead mark word items ++ behind))) := by
    simp [entries,entry]
  induction items generalizing items' with
  | nil =>
    cases items' with
    | nil => exact ⟨rfl,same⟩
    | cons item items' =>
      rw [shape,begins] at same
      exact absurd (congrArg List.head? same) stops
  | cons item items ih =>
    cases items' with
    | nil =>
      rw [shape,begins] at same
      exact absurd (congrArg List.head? same).symm stops'
    | cons item' items' =>
      rw [shape,shape] at same
      have same := (List.cons.inj (List.append_cancel_left same)).2
      have name := name_unique plain (led_entries free items led) (led_entries free items' led')
        (short item List.mem_cons_self item'.2) (short' item' List.mem_cons_self item.2) same
      rw [name] at same
      obtain ⟨tag,same⟩ := readable _ _ _ _ (List.cons.inj (List.append_cancel_left same)).2
      obtain ⟨rest,same⟩ := ih items' (fun other member => short other (List.mem_cons_of_mem _ member))
        (fun other member => short' other (List.mem_cons_of_mem _ member)) same
      exact ⟨by rw [rest,Prod.ext name tag],same⟩

end Entries

theorem not_past {α : Type*} (separator : α) {middle gap right after : List α} (free : separator ∉ gap)
    (short : middle.length ≤ gap.length) (same : separator :: (gap ++ right) = middle ++ separator :: after) :
    middle = [] := by
  cases middle with
  | nil => rfl
  | cons letter middle =>
    have same := (List.cons.inj same).2
    rcases List.append_eq_append_iff.mp same with ⟨more,longer,_⟩ | ⟨more,longer,reached⟩
    · rw [longer,List.length_cons,List.length_append] at short
      omega
    cases more with
    | nil =>
      rw [longer,List.length_cons,List.length_append] at short
      exact absurd short (by simp)
    | cons next more =>
      cases reached
      exact absurd (longer ▸ List.mem_append_right _ List.mem_cons_self) free

theorem split_near {α : Type*} (separator : α) (left left' gap right right' : List α)
    (same : left ++ separator :: (gap ++ right) = left' ++ separator :: (gap ++ right')) (free : separator ∉ gap)
    (short : left.length ≤ gap.length) (short' : left'.length ≤ gap.length) : left = left' ∧ right = right' := by
  have first : left = left' := by
    rcases List.append_eq_append_iff.mp same with ⟨middle,longer,reached⟩ | ⟨middle,longer,reached⟩
    · have none := not_past separator free (by rw [longer,List.length_append] at short'; omega) reached
      rw [longer,none,List.append_nil]
    · have none := not_past separator free (by rw [longer,List.length_append] at short; omega) reached
      rw [longer,none,List.append_nil]
  rw [first] at same
  exact ⟨first,List.append_cancel_left (List.cons.inj (List.append_cancel_left same)).2⟩

end AuthorityKernel.Library.Entries
