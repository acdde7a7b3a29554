import Mathlib.Data.List.Basic

/-! Loops that read a text: a turn fails, finishes, or updates a state and goes on with
the rest. When every turn that goes on has read something, the length of the text
bounds the number of turns, and the loop can be unrolled without counting them. -/
namespace AuthorityKernel.Library.Scan

variable {τ σ ρ : Type*}

inductive Turn (τ σ ρ : Type*)
  | fail
  | done (result : ρ)
  | again (state : σ) (rest : List τ)

def loop (turn : σ → List τ → Turn τ σ ρ) : Nat → σ → List τ → Option ρ
  | 0, _, _ => none
  | fuel + 1, state, text =>
      match turn state text with
      | .fail => none
      | .done result => some result
      | .again next rest => loop turn fuel next rest

def scan (turn : σ → List τ → Turn τ σ ρ) (state : σ) (text : List τ) : Option ρ :=
  loop turn (text.length + 1) state text

def Consuming (turn : σ → List τ → Turn τ σ ρ) : Prop :=
  ∀ state text next rest, turn state text = .again next rest → rest.length < text.length

variable {turn : σ → List τ → Turn τ σ ρ}

theorem loop_stable (consuming : Consuming turn) (first second : Nat) (state : σ) (text : List τ)
    (firstEnough : text.length < first) (secondEnough : text.length < second) :
    loop turn first state text = loop turn second state text := by
  induction first generalizing second state text with
  | zero => omega
  | succ first ih =>
    obtain ⟨second,rfl⟩ : ∃ smaller, second = smaller + 1 := ⟨second - 1,by omega⟩
    unfold loop
    cases answer : turn state text with
    | fail | done => rfl
    | again next rest =>
      have shorter := consuming state text next rest answer
      exact ih second next rest (by omega) (by omega)

theorem scan_eq (consuming : Consuming turn) (state : σ) (text : List τ) :
    scan turn state text =
      match turn state text with
      | .fail => none
      | .done result => some result
      | .again next rest => scan turn next rest := by
  unfold scan
  rw [loop]
  cases answer : turn state text with
  | fail => rfl
  | done result => rfl
  | again next rest =>
    have shorter := consuming state text next rest answer
    exact loop_stable consuming _ _ next rest shorter (by omega)

/-- What a loop has read is the text of one item after another, when each turn that goes on reads an
item; an item that another follows is in the middle. -/
theorem scan_gathers {α : Type*} {itemText : α → List τ} {apply : σ → α → Option σ} {ends : α → List τ → Prop}
    {middle : α → Prop}
    (reads : ∀ state text next rest, turn state text = .again next rest →
      ∃ item, text = itemText item ++ rest ∧ apply state item = some next ∧ ends item rest)
    (follows : ∀ item state text next rest, ends item text → turn state text = .again next rest → middle item)
    (state : σ) (text : List τ) (result : ρ) (finished : scan turn state text = some result) :
    ∃ (items : List α) (last : σ) (rest : List τ), text = items.flatMap itemText ++ rest ∧
      items.foldlM apply state = some last ∧ turn last rest = .done result ∧
      (∀ item ∈ items, ∃ behind, ends item behind) ∧ (∀ item ∈ items.dropLast, middle item) ∧
      (items = [] ∨ ∃ next behind, turn state text = .again next behind) := by
  unfold scan at finished
  generalize text.length + 1 = fuel at finished
  induction fuel generalizing state text with
  | zero => cases finished
  | succ fuel ih =>
    rw [loop] at finished
    cases answer : turn state text with
    | fail => simp [answer] at finished
    | done value =>
      simp only [answer,Option.some.injEq] at finished
      exact ⟨[],state,text,rfl,rfl,finished ▸ answer,by simp,by simp,Or.inl rfl⟩
    | again next rest =>
      simp only [answer] at finished
      obtain ⟨item,split,applied,ended⟩ := reads state text next rest answer
      obtain ⟨items,last,left,whole,folded,done,each,inner,onward⟩ := ih next rest finished
      refine ⟨item :: items,last,left,by simp [split,whole],by simp [List.foldlM_cons,applied,folded],done,
        List.forall_mem_cons.mpr ⟨⟨rest,ended⟩,each⟩,?_,Or.inr ⟨next,rest,rfl⟩⟩
      rcases onward with rfl | ⟨after,behind,again⟩
      · simp
      cases items with
      | nil => simp
      | cons second others =>
        rw [List.dropLast_cons_cons]
        exact List.forall_mem_cons.mpr ⟨follows item next rest after behind ended again,inner⟩

end AuthorityKernel.Library.Scan
