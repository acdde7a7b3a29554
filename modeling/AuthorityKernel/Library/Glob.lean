import Mathlib.Data.List.Forall2
import Mathlib.Data.List.Infix
import Mathlib.Tactic.Ring

/-! Glob patterns over an arbitrary alphabet: one symbol stands for any string and
one for any single symbol. The language of a pattern is given by recursion; the
iterative matcher that remembers only the last star decides it. -/
namespace AuthorityKernel.Library.Glob

variable {α : Type*} [DecidableEq α] (star any : α)

/-- The language of a pattern. -/
def Denotes : List α → List α → Prop
  | [], text => text = []
  | symbol :: pattern, text =>
      if symbol = star then ∃ rest, rest <:+ text ∧ Denotes pattern rest
      else match text with
        | [] => False
        | head :: tail => (symbol = any ∨ symbol = head) ∧ Denotes pattern tail

def backtrack (resume : List α → List α → Bool) : Option (List α × List α) → Bool
  | none => false
  | some (after,text) => resume after text.tail

/-- The matcher's loop on the rest of the pattern and of the text. `saved` holds
the pattern behind the last star and the text that star was tried at. -/
def search : Nat → List α → List α → Option (List α × List α) → Bool
  | 0, _, _, _ => false
  | _ + 1, pattern, [], _ => pattern.all (· = star)
  | fuel + 1, [], _ :: _, saved => backtrack (fun after text => search fuel after text (some (after,text))) saved
  | fuel + 1, symbol :: rest, head :: tail, saved =>
      if symbol = star then search fuel rest (head :: tail) (some (rest,head :: tail))
      else if symbol = any ∨ symbol = head then search fuel rest tail saved
      else backtrack (fun after text => search fuel after text (some (after,text))) saved

def fuelFor (pattern text : List α) : Nat := (text.length + 2) * (pattern.length + 1)

def globMatch (pattern text : List α) : Bool :=
  search star any (fuelFor pattern text) pattern text none

variable {star any}

variable (plain : List α) (width fuel : Nat) (symbol : α) (pattern text : List α) (saved : Option (List α × List α))

theorem denotes_nil : Denotes star any [] text ↔ text = [] := Iff.rfl

theorem denotes_star :
    Denotes star any (star :: pattern) text ↔ ∃ rest, rest <:+ text ∧ Denotes star any pattern rest := by
  rw [Denotes.eq_def]
  exact iff_of_eq (if_pos rfl)

theorem denotes_cons_nil (plain : symbol ≠ star) : ¬ Denotes star any (symbol :: pattern) [] := by
  rw [Denotes,if_neg plain]
  exact id

theorem denotes_cons_cons (head : α) (pattern tail : List α) (plain : symbol ≠ star) :
    Denotes star any (symbol :: pattern) (head :: tail) ↔
      (symbol = any ∨ symbol = head) ∧ Denotes star any pattern tail := by
  rw [Denotes,if_neg plain]

theorem denotes_empty_text : Denotes star any pattern [] ↔ pattern.all (· = star) = true := by
  induction pattern with
  | nil => simp [Denotes]
  | cons symbol rest ih =>
    by_cases plain : symbol = star
    · subst plain
      rw [denotes_star]
      simp only [List.suffix_nil,exists_eq_left,ih]
      simp
    · simp [denotes_cons_nil symbol rest plain,plain]

theorem denotes_of_suffix (rest text : List α) (suffix : rest <:+ text)
    (holds : Denotes star any (star :: pattern) rest) : Denotes star any (star :: pattern) text := by
  rw [denotes_star] at holds ⊢
  obtain ⟨tail,inner,matched⟩ := holds
  exact ⟨tail,inner.trans suffix,matched⟩

theorem denotes_plain_append (free : star ∉ plain) (holds : Denotes star any (plain ++ pattern) text) :
    plain.length ≤ text.length ∧ Denotes star any pattern (text.drop plain.length) := by
  induction plain generalizing text with
  | nil => exact ⟨Nat.zero_le _,holds⟩
  | cons symbol rest ih =>
    have notStar : symbol ≠ star := fun same => free (same ▸ List.mem_cons_self)
    have restFree : star ∉ rest := fun member => free (List.mem_cons_of_mem _ member)
    cases text with
    | nil => exact absurd holds (denotes_cons_nil _ _ notStar)
    | cons head tail =>
      rw [List.cons_append,denotes_cons_cons _ _ _ _ notStar] at holds
      obtain ⟨bound,matched⟩ := ih tail restFree holds.2
      exact ⟨by simpa using bound,by simpa using matched⟩

section Bookkeeping

variable {β : Type*} {blank : β}

/-- Since the last star the loop has matched plain symbols one for one. -/
def Consistent (blank : β) (pattern text : List β) : Option (List β × List β) → Prop
  | none => True
  | some (after,full) => ∃ plain, after = plain ++ pattern ∧ blank ∉ plain ∧ plain.length ≤ full.length ∧
      text = full.drop plain.length

/-- How often the loop can still turn back. -/
def turns (text : List β) : Option (List β × List β) → Nat
  | none => text.length + 1
  | some (_,full) => full.length

def weight (width : Nat) (pattern text : List β) (saved : Option (List β × List β)) : Nat :=
  turns text saved * width + pattern.length

def Narrow (width : Nat) (pattern : List β) (saved : Option (List β × List β)) : Prop :=
  pattern.length < width ∧ ∀ after full, saved = some (after,full) → after.length < width

theorem exists_suffix_iff (property : List β → Prop) (text : List β) :
    (∃ rest, rest <:+ text ∧ property rest) ↔ property text ∨ ∃ rest, rest <:+ text.tail ∧ property rest := by
  cases text with
  | nil => simp
  | cons head tail => simp only [List.suffix_cons_iff,or_and_right,exists_or,exists_eq_left,List.tail_cons]

theorem consistent_step {symbol head : β} {rest tail : List β} {saved : Option (List β × List β)}
    (plainSymbol : symbol ≠ blank) (consistent : Consistent blank (symbol :: rest) (head :: tail) saved) :
    Consistent blank rest tail saved := by
  cases saved with
  | none => trivial
  | some pair =>
    obtain ⟨after,full⟩ := pair
    obtain ⟨plain,rfl,free,bound,dropped⟩ := consistent
    have size := congrArg List.length dropped
    simp only [List.length_cons,List.length_drop] at size
    refine ⟨plain ++ [symbol],by simp,?_,by simp; omega,?_⟩
    · simp only [List.mem_append,List.mem_singleton,not_or]
      exact ⟨free,Ne.symm plainSymbol⟩
    · have next := congrArg List.tail dropped
      simpa [List.tail_drop] using next

variable {width fuel : Nat} {symbol : β} {rest text : List β} {saved : Option (List β × List β)}

theorem narrow_step (narrow : Narrow width (symbol :: rest) saved) : Narrow width rest saved :=
  ⟨Nat.lt_of_succ_lt narrow.1,narrow.2⟩

theorem weight_step {head : β} (enough : weight width (symbol :: rest) (head :: text) saved < fuel + 1) :
    weight width rest text saved < fuel := by
  have fewer : turns text saved ≤ turns (head :: text) saved := by
    cases saved <;> simp [turns]
  have scaled := Nat.mul_le_mul_right width fewer
  simp only [weight,List.length_cons] at enough ⊢
  omega

theorem narrow_star (narrow : Narrow width (symbol :: rest) saved) : Narrow width rest (some (rest,text)) := by
  have shorter := (narrow_step narrow).1
  exact ⟨shorter,by rintro _ _ ⟨⟩; exact shorter⟩

theorem weight_star (consistent : Consistent blank (symbol :: rest) text saved)
    (enough : weight width (symbol :: rest) text saved < fuel + 1) :
    weight width rest text (some (rest,text)) < fuel := by
  have fewer : text.length ≤ turns text saved := by
    cases saved with
    | none => exact Nat.le_succ _
    | some pair =>
      obtain ⟨plain,_,_,_,rfl⟩ := consistent
      simp [turns]
  have scaled := Nat.mul_le_mul_right width fewer
  simp only [weight,List.length_cons] at enough ⊢
  change text.length * width + rest.length < fuel
  omega

end Bookkeeping

/-- What backtracking can still find: the pattern behind the last star against a
later part of the text it was tried at. -/
def Retry (star any : α) : Option (List α × List α) → Prop
  | none => False
  | some (after,text) => ∃ rest, rest <:+ text.tail ∧ Denotes star any after rest

/-- At the end of the text no retry can succeed that the stars left do not. -/
theorem retry_at_end {pattern : List α} {saved : Option (List α × List α)}
    (consistent : Consistent star pattern [] saved) (retry : Retry star any saved) :
    Denotes star any pattern [] := by
  cases saved with
  | none => exact retry.elim
  | some pair =>
    obtain ⟨after,full⟩ := pair
    obtain ⟨plain,rfl,free,bound,dropped⟩ := consistent
    obtain ⟨rest,suffix,matched⟩ := retry
    obtain ⟨consumed,remainder⟩ := denotes_plain_append plain pattern rest free matched
    have whole : full.length ≤ plain.length := List.drop_eq_nil_iff.mp dropped.symm
    have short : rest.length ≤ full.length - 1 := by simpa using suffix.length_le
    have empty : rest.drop plain.length = [] := List.drop_eq_nil_iff.mpr (by omega)
    rwa [empty] at remainder

/-- At a new star nothing is lost by forgetting the previous one. -/
theorem retry_at_star (consistent : Consistent star (star :: pattern) text saved)
    (retry : Retry star any saved) : Denotes star any (star :: pattern) text := by
  cases saved with
  | none => exact retry.elim
  | some pair =>
    obtain ⟨after,full⟩ := pair
    obtain ⟨plain,rfl,free,bound,rfl⟩ := consistent
    obtain ⟨rest,suffix,matched⟩ := retry
    obtain ⟨consumed,remainder⟩ := denotes_plain_append plain (star :: pattern) rest free matched
    apply denotes_of_suffix _ _ _ _ remainder
    have inside := suffix.trans (List.tail_suffix full)
    apply List.suffix_of_suffix_length_le ((List.drop_suffix _ rest).trans inside) (List.drop_suffix _ full)
    have shorter := inside.length_le
    simp only [List.length_drop]
    omega

theorem retry_step (after full : List α) :
    Denotes star any after full.tail ∨ Retry star any (some (after,full.tail)) ↔
      Retry star any (some (after,full)) :=
  (exists_suffix_iff (Denotes star any after) full.tail).symm

theorem search_iff (consistent : Consistent star pattern text saved) (narrow : Narrow width pattern saved)
    (enough : weight width pattern text saved < fuel) :
    search star any fuel pattern text saved = true ↔ Denotes star any pattern text ∨ Retry star any saved := by
  induction fuel generalizing pattern text saved with
  | zero => omega
  | succ fuel ih =>
    cases text with
    | nil =>
      rw [search,← @denotes_empty_text α _ star any]
      exact ⟨Or.inl,fun either => either.elim id (retry_at_end consistent)⟩
    | cons head tail =>
      have retried : backtrack (fun after text => search star any fuel after text (some (after,text))) saved = true ↔
          Retry star any saved := by
        cases saved with
        | none => simp [Retry,backtrack]
        | some pair =>
          obtain ⟨after,full⟩ := pair
          obtain ⟨plain,_,_,_,dropped⟩ := consistent
          have nonempty : full ≠ [] := by
            rintro rfl
            simp at dropped
          have size : full.length = full.tail.length + 1 := by
            have := List.length_pos_of_ne_nil nonempty
            simp only [List.length_tail]
            omega
          have lower : full.tail.length * width + after.length < fuel := by
            have bound := narrow.2 after full rfl
            simp only [weight,turns,size,Nat.add_mul,Nat.one_mul] at enough
            omega
          rw [← retry_step]
          exact ih after full.tail (some (after,full.tail)) ⟨[],rfl,by simp,by simp,rfl⟩
            ⟨narrow.2 after full rfl,by rintro _ _ ⟨⟩; exact narrow.2 after full rfl⟩ lower
      cases pattern with
      | nil =>
        rw [search,retried,denotes_nil]
        simp
      | cons symbol rest =>
        rw [search]
        by_cases wild : symbol = star
        · subst wild
          rw [if_pos rfl,ih rest (head :: tail) (some (rest,head :: tail)) ⟨[],rfl,by simp,by simp,rfl⟩
            (narrow_star narrow) (weight_star consistent enough)]
          rw [denotes_star,exists_suffix_iff]
          constructor
          · exact Or.inl
          · rintro (found | retry)
            · exact found
            · have found := retry_at_star rest (head :: tail) saved consistent retry
              rwa [denotes_star,exists_suffix_iff] at found
        · rw [if_neg wild,denotes_cons_cons _ _ _ _ wild]
          by_cases fits : symbol = any ∨ symbol = head
          · rw [if_pos fits,ih rest tail saved (consistent_step wild consistent) (narrow_step narrow)
              (weight_step enough)]
            simp only [fits,true_and]
          · rw [if_neg fits,retried]
            simp only [fits,false_and,false_or]

theorem search_enough (enough : fuelFor pattern text ≤ fuel) :
    search star any fuel pattern text none = true ↔ Denotes star any pattern text := by
  have lighter : weight (pattern.length + 1) pattern text none < fuelFor pattern text := by
    simp only [weight,turns,fuelFor,Nat.add_mul,Nat.one_mul]
    omega
  rw [search_iff (pattern.length + 1) _ _ _ none trivial ⟨Nat.lt_succ_self _,nofun⟩ (lighter.trans_le enough)]
  simp [Retry]

theorem globMatch_iff : globMatch star any pattern text = true ↔ Denotes star any pattern text :=
  search_enough _ pattern text le_rfl

theorem denotes_literal (noStar : star ∉ pattern) (noAny : any ∉ pattern) :
    Denotes star any pattern text ↔ text = pattern := by
  induction pattern generalizing text with
  | nil => exact denotes_nil text
  | cons symbol rest ih =>
    have plain : symbol ≠ star := fun same => noStar (same ▸ List.mem_cons_self)
    have fixed : symbol ≠ any := fun same => noAny (same ▸ List.mem_cons_self)
    cases text with
    | nil => simp [denotes_cons_nil symbol rest plain]
    | cons head tail =>
      rw [denotes_cons_cons _ _ _ _ plain,ih tail (fun member => noStar (List.mem_cons_of_mem _ member))
        (fun member => noAny (List.mem_cons_of_mem _ member))]
      simp [fixed,eq_comm]

theorem denotes_lone_star : Denotes star any [star] text := by
  rw [denotes_star]
  exact ⟨[],List.nil_suffix,rfl⟩

theorem denotes_self : Denotes star any pattern pattern := by
  induction pattern with
  | nil => rw [denotes_nil]
  | cons symbol rest ih =>
    by_cases isStar : symbol = star
    · subst isStar
      rw [denotes_star]
      exact ⟨rest,List.suffix_cons _ _,ih⟩
    · rw [denotes_cons_cons _ _ _ _ isStar]
      exact ⟨Or.inr rfl,ih⟩

theorem denotes_stars (empty : Denotes star any pattern []) : Denotes star any (star :: pattern) text := by
  rw [denotes_star]
  exact ⟨[],List.nil_suffix,empty⟩

theorem denotes_lone_any (distinct : any ≠ star) (text : List α) : Denotes star any [any] text ↔ text.length = 1 := by
  cases text with
  | nil => exact iff_of_false (denotes_cons_nil any [] distinct) (by simp)
  | cons head tail => simp [denotes_cons_cons any head [] tail distinct,denotes_nil]

theorem denotes_replicate_any (distinct : any ≠ star) (count : Nat) (text : List α) :
    Denotes star any (List.replicate count any) text ↔ text.length = count := by
  induction count generalizing text with
  | zero => simp [denotes_nil]
  | succ count ih =>
    cases text with
    | nil => exact iff_of_false (denotes_cons_nil any _ distinct) (by simp)
    | cons head tail => simp [List.replicate_succ,denotes_cons_cons any head _ tail distinct,ih]

variable (star any) in
structure Separates (pattern first second : List α) : Prop where
  onlyOne : ¬(Denotes star any pattern first ↔ Denotes star any pattern second)
  symbols : ∀ symbol ∈ pattern, symbol = any ∨ symbol ∈ first ∨ symbol ∈ second

theorem separates_length (distinct : any ≠ star) (first second : List α)
    (different : first.length ≠ second.length) :
    Separates star any (List.replicate first.length any) first second where
  onlyOne := by
    rw [denotes_replicate_any distinct,denotes_replicate_any distinct]
    exact fun same => different (same.mp rfl).symm
  symbols := fun symbol member => Or.inl (List.eq_of_mem_replicate member)

theorem separates_head (distinct : any ≠ star) (a b : α) (first second : List α) (different : a ≠ b)
    (plain : a ≠ star ∧ a ≠ any) :
    Separates star any (a :: List.replicate first.length any) (a :: first) (b :: second) where
  onlyOne := by
    rw [denotes_cons_cons a a _ first plain.1,denotes_cons_cons a b _ second plain.1,
      denotes_replicate_any distinct,denotes_replicate_any distinct]
    simp [plain.2,different]
  symbols := by
    intro symbol member
    rcases List.mem_cons.mp member with rfl | later
    · exact Or.inr (Or.inl List.mem_cons_self)
    · exact Or.inl (List.eq_of_mem_replicate later)

variable (star any) in
/-- The texts differ at most in which wildcard stands where. -/
def SameShape : List α → List α → Prop :=
  List.Forall₂ fun a b => a = b ∨ (a = star ∨ a = any) ∧ (b = star ∨ b = any)

theorem exists_separates (distinct : any ≠ star) (first second : List α) (different : ¬SameShape star any first second) :
    ∃ pattern, Separates star any pattern first second := by
  induction first generalizing second with
  | nil =>
    cases second with
    | nil => exact absurd .nil different
    | cons b second => exact ⟨_,separates_length distinct [] (b :: second) (by simp)⟩
  | cons a first ih =>
    cases second with
    | nil => exact ⟨_,separates_length distinct (a :: first) [] (by simp)⟩
    | cons b second =>
      by_cases lengths : first.length = second.length
      · by_cases heads : a = b ∨ (a = star ∨ a = any) ∧ (b = star ∨ b = any)
        · have tails : ¬SameShape star any first second := fun shape => different (.cons heads shape)
          obtain ⟨pattern,onlyOne,symbols⟩ := ih second tails
          refine ⟨any :: pattern,?_,?_⟩
          · rw [denotes_cons_cons any a _ first distinct,denotes_cons_cons any b _ second distinct]
            simpa using onlyOne
          · intro symbol member
            rcases List.mem_cons.mp member with rfl | later
            · exact Or.inl rfl
            · exact (symbols symbol later).imp_right (Or.imp (List.mem_cons_of_mem a) (List.mem_cons_of_mem b))
        · obtain ⟨unequal,notBoth⟩ := not_or.mp heads
          by_cases wild : a = star ∨ a = any
          · have plain : b ≠ star ∧ b ≠ any := not_or.mp fun other => notBoth ⟨wild,other⟩
            obtain ⟨onlyOne,symbols⟩ := separates_head distinct b a second first (Ne.symm unequal) plain
            exact ⟨_,fun both => onlyOne both.symm,fun symbol member => (symbols symbol member).imp_right Or.symm⟩
          · exact ⟨_,separates_head distinct a b first second unequal (not_or.mp wild)⟩
      · exact ⟨_,separates_length distinct (a :: first) (b :: second) (by simpa using lengths)⟩

omit [DecidableEq α] in
theorem SameShape.symm {first second : List α} (shape : SameShape star any first second) :
    SameShape star any second first := by
  refine List.Forall₂.flip (shape.imp fun a b same => ?_)
  rcases same with equal | ⟨wildFirst,wildSecond⟩
  · exact Or.inl equal.symm
  · exact Or.inr ⟨wildSecond,wildFirst⟩

theorem SameShape.covers {first second : List α} (shape : SameShape star any first second)
    (covered : Denotes star any pattern first) : Denotes star any pattern second := by
  induction pattern generalizing first second with
  | nil =>
    rw [denotes_nil] at covered ⊢
    subst covered
    exact List.forall₂_nil_left_iff.mp shape
  | cons symbol pattern ih =>
    by_cases isStar : symbol = star
    · subst isStar
      rw [denotes_star] at covered ⊢
      obtain ⟨rest,suffix,covered⟩ := covered
      rw [List.suffix_iff_eq_drop] at suffix
      have dropped := List.forall₂_drop (first.length - rest.length) shape
      rw [← suffix] at dropped
      exact ⟨second.drop (first.length - rest.length),List.drop_suffix _ _,ih dropped covered⟩
    cases shape with
    | nil => exact absurd covered (denotes_cons_nil symbol pattern isStar)
    | cons same rest =>
      rw [denotes_cons_cons _ _ _ _ isStar] at covered ⊢
      refine ⟨?_,ih rest covered.2⟩
      -- a wildcard in the text is covered by `any` alone
      rcases covered.1 with wild | equal
      · exact Or.inl wild
      · rcases same with heads | ⟨wildFirst,_⟩
        · exact Or.inr (equal.trans heads)
        · exact Or.inl (equal.trans (wildFirst.resolve_left (equal ▸ isStar)))

/-! Patterns one of which begins with the other. -/

theorem denotes_append (first second text : List α) :
    Denotes star any (first ++ second) text ↔
      ∃ left right, text = left ++ right ∧ Denotes star any first left ∧ Denotes star any second right := by
  induction first generalizing text with
  | nil => simp [denotes_nil]
  | cons symbol first ih =>
    by_cases isStar : symbol = star
    · subst isStar
      rw [List.cons_append,denotes_star]
      constructor
      · rintro ⟨_,⟨skipped,rfl⟩,inner⟩
        obtain ⟨left,right,rfl,matched,rest⟩ := (ih _).mp inner
        exact ⟨skipped ++ left,right,by rw [List.append_assoc],(denotes_star _ _).mpr ⟨left,⟨skipped,rfl⟩,matched⟩,rest⟩
      · rintro ⟨left,right,rfl,matched,rest⟩
        obtain ⟨suffix,⟨skipped,rfl⟩,inner⟩ := (denotes_star _ _).mp matched
        exact ⟨suffix ++ right,⟨skipped,by rw [List.append_assoc]⟩,(ih _).mpr ⟨suffix,right,rfl,inner,rest⟩⟩
    · constructor
      · intro covers
        cases text with
        | nil => exact absurd covers (denotes_cons_nil symbol _ isStar)
        | cons head tail =>
          rw [List.cons_append,denotes_cons_cons _ _ _ _ isStar] at covers
          obtain ⟨left,right,rfl,matched,rest⟩ := (ih tail).mp covers.2
          exact ⟨head :: left,right,rfl,(denotes_cons_cons _ _ _ _ isStar).mpr ⟨covers.1,matched⟩,rest⟩
      · rintro ⟨left,right,rfl,matched,rest⟩
        cases left with
        | nil => exact absurd matched (denotes_cons_nil symbol _ isStar)
        | cons head left =>
          rw [denotes_cons_cons _ _ _ _ isStar] at matched
          rw [List.cons_append,List.cons_append,denotes_cons_cons _ _ _ _ isStar]
          exact ⟨matched.1,(ih _).mpr ⟨left,right,rfl,matched.2,rest⟩⟩

theorem mem_of_denotes {symbol : α} (plain : symbol ≠ star ∧ symbol ≠ any) {pattern text : List α}
    (member : symbol ∈ pattern) (covers : Denotes star any pattern text) : symbol ∈ text := by
  obtain ⟨before,after,rfl⟩ := List.append_of_mem member
  obtain ⟨left,right,rfl,_,rest⟩ := (denotes_append _ _ _).mp covers
  cases right with
  | nil => exact absurd rest (denotes_cons_nil symbol after plain.1)
  | cons head tail =>
    rw [denotes_cons_cons _ _ _ _ plain.1] at rest
    obtain rfl : symbol = head := rest.1.resolve_left plain.2
    exact List.mem_append_right _ List.mem_cons_self

/-- The shortest text of a pattern, with its wildcards for one symbol left as they are. -/
def shortest (star : α) (pattern : List α) : List α := pattern.filter (· ≠ star)

theorem shortest_append (first second : List α) :
    shortest star (first ++ second) = shortest star first ++ shortest star second := List.filter_append ..

theorem denotes_shortest : Denotes star any pattern (shortest star pattern) := by
  induction pattern with
  | nil => rfl
  | cons symbol pattern ih =>
    by_cases isStar : symbol = star
    · subst isStar
      rw [denotes_star]
      exact ⟨shortest symbol pattern,by simp [shortest],ih⟩
    · rw [shortest,List.filter_cons_of_pos (by simpa using isStar),denotes_cons_cons _ _ _ _ isStar]
      exact ⟨Or.inr rfl,ih⟩

theorem shortest_length_le {pattern text : List α} (covers : Denotes star any pattern text) :
    (shortest star pattern).length ≤ text.length := by
  induction pattern generalizing text with
  | nil => exact Nat.zero_le _
  | cons symbol pattern ih =>
    by_cases isStar : symbol = star
    · subst isStar
      obtain ⟨rest,suffix,inner⟩ := (denotes_star _ _).mp covers
      rw [shortest,List.filter_cons_of_neg (by simp)]
      exact (ih inner).trans suffix.length_le
    cases text with
    | nil => exact absurd covers (denotes_cons_nil symbol pattern isStar)
    | cons head tail =>
      rw [denotes_cons_cons _ _ _ _ isStar] at covers
      rw [shortest,List.filter_cons_of_pos (by simpa using isStar)]
      exact Nat.succ_le_succ (ih covers.2)

/-- Only wildcards follow the last star. -/
def EndsOpen (star any : α) (pattern : List α) : Prop :=
  ∃ head tail, pattern = head ++ star :: tail ∧ ∀ symbol ∈ tail, symbol = star ∨ symbol = any

theorem denotes_open (distinct : any ≠ star) (tail text : List α)
    (wild : ∀ symbol ∈ tail, symbol = star ∨ symbol = any) :
    Denotes star any (star :: tail) text ↔ (shortest star tail).length ≤ text.length := by
  constructor
  · intro covers
    have least := shortest_length_le covers
    rwa [shortest,List.filter_cons_of_neg (by simp)] at least
  · intro long
    induction tail generalizing text with
    | nil => exact denotes_lone_star text
    | cons symbol tail ih =>
      have later := fun other member => wild other (List.mem_cons_of_mem symbol member)
      rcases wild symbol List.mem_cons_self with rfl | rfl
      · rw [shortest,List.filter_cons_of_neg (by simp)] at long
        rw [denotes_star]
        exact ⟨text,List.suffix_rfl,ih text later long⟩
      rw [shortest,List.filter_cons_of_pos (by simpa using distinct)] at long
      cases text with
      | nil => simp at long
      | cons head text =>
        -- The star leaves what the rest of the wildcards needs, and one symbol more.
        obtain ⟨rest,suffix,inner⟩ := (denotes_star _ _).mp (ih text later (Nat.le_of_succ_le_succ long))
        obtain ⟨skipped,rfl⟩ := suffix
        obtain ⟨init,last,same⟩ := (List.eq_nil_or_concat (head :: skipped)).resolve_left (List.cons_ne_nil _ _)
        rw [denotes_star]
        refine ⟨last :: rest,⟨init,?_⟩,(denotes_cons_cons _ _ _ _ distinct).mpr ⟨Or.inl rfl,inner⟩⟩
        rw [← List.cons_append,same,List.concat_eq_append,List.append_assoc]
        rfl

omit [DecidableEq α] in
theorem wild_anys {pattern : List α} (wild : ∀ symbol ∈ pattern, symbol = star ∨ symbol = any)
    (free : star ∉ pattern) : pattern = List.replicate pattern.length any := by
  refine List.eq_replicate_iff.mpr ⟨rfl,?_⟩
  intro symbol member
  exact (wild symbol member).resolve_left fun same => free (same ▸ member)

theorem denotes_nonempty_of_star (distinct : any ≠ star) {pattern : List α} (covers : Denotes star any pattern [star]) :
    pattern = [any] ∨ ∀ text ≠ [], Denotes star any pattern text := by
  have wild : ∀ symbol ∈ pattern, symbol = star ∨ symbol = any := by
    intro symbol member
    by_contra neither
    rw [not_or] at neither
    exact neither.1 (List.mem_singleton.mp (mem_of_denotes neither member covers))
  by_cases starred : star ∈ pattern
  · refine Or.inr fun text nonempty => ?_
    have long := (shortest_length_le covers).trans (List.length_pos_of_ne_nil nonempty)
    -- The first star follows wildcards for one symbol each.
    obtain ⟨before,after,rfl,free⟩ := List.eq_append_cons_of_mem starred
    have anys := wild_anys (fun symbol member => wild symbol (List.mem_append_left _ member)) free
    have kept : shortest star before = before := by
      rw [anys]
      simp [shortest,distinct]
    rw [shortest_append,List.length_append,kept,shortest,List.filter_cons_of_neg (by simp)] at long
    rw [denotes_append]
    refine ⟨text.take before.length,text.drop before.length,(List.take_append_drop _ _).symm,?_,?_⟩
    · rw [anys,denotes_replicate_any distinct,List.length_replicate,List.length_take]
      omega
    · rw [denotes_open distinct after _ fun symbol member => wild symbol (by simp [member]),List.length_drop]
      exact Nat.le_sub_of_add_le' long
  · have anys := wild_anys wild starred
    rw [anys,denotes_replicate_any distinct] at covers
    rw [← covers] at anys
    exact Or.inl anys

theorem denotes_append_stars (distinct : any ≠ star) (pattern stars text : List α) (ends : EndsOpen star any pattern)
    (all : ∀ symbol ∈ stars, symbol = star) :
    Denotes star any (pattern ++ stars) text ↔ Denotes star any pattern text := by
  have empty : Denotes star any stars [] := by
    rw [denotes_empty_text,List.all_eq_true]
    intro symbol member
    exact decide_eq_true (all symbol member)
  obtain ⟨head,tail,rfl,wild⟩ := ends
  rw [denotes_append]
  constructor
  · rintro ⟨left,right,rfl,covers,_⟩
    obtain ⟨first,second,rfl,before,inner⟩ := (denotes_append _ _ _).mp covers
    rw [denotes_append]
    refine ⟨first,second ++ right,by rw [List.append_assoc],before,?_⟩
    rw [denotes_open distinct tail _ wild] at inner ⊢
    rw [List.length_append]
    omega
  · intro covers
    exact ⟨text,[],by rw [List.append_nil],covers,empty⟩

theorem wild_end :
    ∃ front tail, pattern = front ++ tail ∧ (∀ symbol ∈ tail, symbol = star ∨ symbol = any) ∧
      (front = [] ∨ ∃ init last, front = init ++ [last] ∧ last ≠ star ∧ last ≠ any) := by
  induction pattern using List.reverseRecOn with
  | nil => exact ⟨[],[],rfl,by simp,.inl rfl⟩
  | append_singleton pattern symbol ih =>
    by_cases wild : symbol = star ∨ symbol = any
    · obtain ⟨front,tail,rfl,tailWild,ends⟩ := ih
      refine ⟨front,tail ++ [symbol],by rw [List.append_assoc],?_,ends⟩
      intro other member
      rcases List.mem_append.mp member with inside | last
      · exact tailWild other inside
      · rw [List.mem_singleton.mp last]
        exact wild
    · rw [not_or] at wild
      exact ⟨pattern ++ [symbol],[],by rw [List.append_nil],by simp,.inr ⟨pattern,symbol,rfl,wild⟩⟩

theorem endsOpen_of_longer (distinct : any ≠ star) {pattern : List α}
    (covers : Denotes star any pattern (shortest star pattern ++ [any])) : EndsOpen star any pattern := by
  obtain ⟨front,tail,rfl,wild,ends⟩ := @wild_end _ _ star any pattern
  by_cases starred : star ∈ tail
  · obtain ⟨before,after,rfl⟩ := List.append_of_mem starred
    exact ⟨front ++ before,after,by rw [List.append_assoc],fun symbol member => wild symbol (by simp [member])⟩
  -- Without a star the end has a fixed length, and what stands before it is a plain symbol.
  have allAny := wild_anys wild starred
  have kept : shortest star tail = tail := by
    refine List.filter_eq_self.mpr ?_
    intro symbol member
    simpa using fun same : symbol = star => starred (same ▸ member)
  exfalso
  rcases ends with rfl | ⟨init,last,rfl,plain⟩
  · rw [List.nil_append,kept,allAny,denotes_replicate_any distinct] at covers
    simp at covers
  obtain ⟨left,right,same,_,inner⟩ := (denotes_append _ _ _).mp (by rw [List.append_assoc] at covers; exact covers)
  cases right with
  | nil => exact denotes_cons_nil last tail plain.1 inner
  | cons head right =>
    rw [List.cons_append,List.nil_append,denotes_cons_cons _ _ _ _ plain.1,allAny,denotes_replicate_any distinct]
      at inner
    obtain rfl : last = head := inner.1.resolve_left plain.2
    have shape : shortest star (init ++ ([last] ++ tail)) ++ [any] =
        (shortest star init ++ [last]) ++ List.replicate (tail.length + 1) any := by
      have single : shortest star [last] = [last] := by simp [shortest,plain.1]
      rw [shortest_append,shortest_append,single,kept,List.replicate_succ',← allAny,List.append_assoc,
        List.append_assoc,List.append_assoc]
    rw [shape] at same
    have last := (List.append_inj_right' same (by simp [inner.2]))
    rw [List.replicate_succ] at last
    exact plain.2 (List.cons.inj last).1.symm

theorem denotes_cut_iff (distinct : any ≠ star) (pattern rest : List α) (lost : rest ≠ []) :
    (∀ text, (∀ symbol ∈ text, symbol = any ∨ symbol ∈ pattern) →
        (Denotes star any pattern text ↔ Denotes star any (pattern ++ rest) text)) ↔
      (∀ symbol ∈ rest, symbol = star) ∧ EndsOpen star any pattern := by
  constructor
  · intro same
    have inside : ∀ symbol ∈ shortest star pattern, symbol = any ∨ symbol ∈ pattern :=
      fun symbol member => Or.inr (List.mem_of_mem_filter member)
    have stars : ∀ symbol ∈ rest, symbol = star := by
      have covered := (same (shortest star pattern) inside).mp (denotes_shortest pattern)
      have least := shortest_length_le covered
      rw [shortest_append,List.length_append] at least
      have none : shortest star rest = [] := List.length_eq_zero_iff.mp (by omega)
      intro symbol member
      by_contra plain
      have kept : symbol ∈ shortest star rest := List.mem_filter.mpr ⟨member,by simpa using plain⟩
      rw [none] at kept
      cases kept
    refine ⟨stars,endsOpen_of_longer distinct ?_⟩
    refine (same _ ?_).mpr ?_
    · intro symbol member
      rcases List.mem_append.mp member with short | last
      · exact inside symbol short
      · exact Or.inl (List.mem_singleton.mp last)
    · rw [denotes_append]
      refine ⟨_,_,rfl,denotes_shortest pattern,?_⟩
      cases rest with
      | nil => exact absurd rfl lost
      | cons symbol rest =>
        obtain rfl := stars symbol List.mem_cons_self
        refine denotes_stars rest _ ?_
        rw [denotes_empty_text,List.all_eq_true]
        intro other member
        exact decide_eq_true (stars other (List.mem_cons_of_mem _ member))
  · rintro ⟨stars,ends⟩ text _
    exact (denotes_append_stars distinct pattern rest text ends stars).symm

end AuthorityKernel.Library.Glob
