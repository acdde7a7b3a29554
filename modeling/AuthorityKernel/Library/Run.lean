import Mathlib.Data.List.Basic

/-! Runs of a deterministic step function over a list of inputs, with the two
rules every temporal result of the development is an instance of: an invariant
preserved by allowed steps holds after every allowed run, and an invariant that
one step keeps exactly when the step is allowed holds throughout exactly the
allowed runs. -/
namespace AuthorityKernel.Library.Run

variable {σ ι : Type*}

def run (step : σ → ι → σ) (start : σ) (inputs : List ι) : σ := inputs.foldl step start

def Guarded (step : σ → ι → σ) (allowed : σ → ι → Prop) : σ → List ι → Prop
  | _, [] => True
  | state, input :: rest => allowed state input ∧ Guarded step allowed (step state input) rest

def Throughout (step : σ → ι → σ) (property : σ → Prop) : σ → List ι → Prop
  | state, [] => property state
  | state, input :: rest => property state ∧ Throughout step property (step state input) rest

variable {step : σ → ι → σ} {allowed : σ → ι → Prop} {property : σ → Prop}

variable (start : σ) (input : ι) (rest : List ι)

@[simp] theorem run_nil : run step start [] = start := rfl

@[simp] theorem run_cons : run step start (input :: rest) = run step (step start input) rest := rfl

theorem run_append (first second : List ι) :
    run step start (first ++ second) = run step (run step start first) second :=
  List.foldl_append

@[simp] theorem guarded_nil : Guarded step allowed start [] := trivial

theorem guarded_cons :
    Guarded step allowed start (input :: rest) ↔
      allowed start input ∧ Guarded step allowed (step start input) rest := Iff.rfl

theorem guarded_append (first second : List ι) :
    Guarded step allowed start (first ++ second) ↔
      Guarded step allowed start first ∧ Guarded step allowed (run step start first) second := by
  induction first generalizing start with
  | nil => simp
  | cons input rest ih => simp only [List.cons_append,guarded_cons,ih,run_cons,and_assoc]

theorem guarded_of_all {fine : ι → Prop} (start : σ) {inputs : List ι} (all : ∀ input ∈ inputs, fine input) :
    Guarded step (fun _ => fine) start inputs := by
  induction inputs generalizing start with
  | nil => trivial
  | cons input rest ih =>
    exact ⟨all input List.mem_cons_self,ih _ fun other member => all other (List.mem_cons_of_mem _ member)⟩

theorem invariant_run (preserved : ∀ state input, allowed state input → property state →
      property (step state input))
    (start : σ) (inputs : List ι) (guarded : Guarded step allowed start inputs)
    (initial : property start) : property (run step start inputs) := by
  induction inputs generalizing start with
  | nil => exact initial
  | cons input rest ih =>
    obtain ⟨head,tail⟩ := guarded
    exact ih (step start input) tail (preserved start input head initial)

theorem invariant_run_always (preserved : ∀ state input, property state → property (step state input))
    (start : σ) (inputs : List ι) (initial : property start) : property (run step start inputs) := by
  induction inputs generalizing start with
  | nil => exact initial
  | cons input rest ih => exact ih (step start input) (preserved start input initial)

theorem throughout_of_guarded (preserved : ∀ state input, allowed state input → property state →
      property (step state input))
    (start : σ) (inputs : List ι) (guarded : Guarded step allowed start inputs)
    (initial : property start) : Throughout step property start inputs := by
  induction inputs generalizing start with
  | nil => exact initial
  | cons input rest ih =>
    obtain ⟨head,tail⟩ := guarded
    exact ⟨initial,ih (step start input) tail (preserved start input head initial)⟩

theorem throughout_always (preserved : ∀ state input, property state → property (step state input)) (start : σ)
    (inputs : List ι) (initial : property start) : Throughout step property start inputs := by
  induction inputs generalizing start with
  | nil => exact initial
  | cons input rest ih => exact ⟨initial,ih (step start input) (preserved start input initial)⟩

theorem Throughout.imp {other : σ → Prop} (implies : ∀ state, property state → other state) {start : σ}
    {inputs : List ι} (holds : Throughout step property start inputs) : Throughout step other start inputs := by
  induction inputs generalizing start with
  | nil => exact implies start holds
  | cons input rest ih => exact ⟨implies start holds.1,ih holds.2⟩

theorem throughout_start (inputs : List ι) (holds : Throughout step property start inputs) : property start := by
  cases inputs with
  | nil => exact holds
  | cons input rest => exact holds.1

theorem throughout_iff_of_invariant {invariant : σ → Prop}
    (implied : ∀ state, invariant state → property state)
    (preserved : ∀ state input, invariant state → allowed state input → invariant (step state input))
    (needed : ∀ state input, invariant state → property (step state input) → allowed state input)
    (start : σ) (inputs : List ι) (initial : invariant start) :
    Throughout step property start inputs ↔ Guarded step allowed start inputs := by
  induction inputs generalizing start with
  | nil => exact iff_of_true (implied start initial) trivial
  | cons input rest ih =>
    constructor
    · intro holds
      have here := needed start input initial (throughout_start _ _ holds.2)
      exact ⟨here,(ih _ (preserved start input initial here)).mp holds.2⟩
    · intro guarded
      exact ⟨implied start initial,(ih _ (preserved start input initial guarded.1)).mpr guarded.2⟩

theorem throughout_iff_guarded {background : σ → Prop}
    (kept : ∀ state input, background state → background (step state input))
    (exactStep : ∀ state input, background state → property state →
      (property (step state input) ↔ allowed state input))
    (start : σ) (inputs : List ι) (base : background start) (initial : property start) :
    Throughout step property start inputs ↔ Guarded step allowed start inputs := by
  refine throughout_iff_of_invariant (?_ : ∀ state, background state ∧ property state → property state) ?_ ?_ _ _ ?_
  · exact fun state both => both.2
  · exact fun state input both here => ⟨kept state input both.1,(exactStep state input both.1 both.2).mpr here⟩
  · exact fun state input both next => (exactStep state input both.1 both.2).mp next
  · exact ⟨base,initial⟩

theorem throughout_iff_among {meets : σ → ι → Prop}
    (exactStep : ∀ state input, property state → meets state input → (property (step state input) ↔ allowed state input))
    (start : σ) (inputs : List ι) (among : Guarded step meets start inputs) (initial : property start) :
    Throughout step property start inputs ↔ Guarded step allowed start inputs := by
  induction inputs generalizing start with
  | nil => exact iff_of_true initial trivial
  | cons input rest ih =>
    obtain ⟨here,later⟩ := among
    have step := exactStep start input initial here
    constructor
    · rintro ⟨_,holds⟩
      have next := throughout_start _ _ holds
      exact ⟨step.mp next,(ih _ later next).mp holds⟩
    · rintro ⟨permitted,guarded⟩
      exact ⟨initial,(ih _ later (step.mpr permitted)).mpr guarded⟩

def outputs {ω : Type*} (step : σ → ι → σ) (output : σ → ι → Option ω) : σ → List ι → List ω
  | _, [] => []
  | state, input :: rest => (output state input).toList ++ outputs step output (step state input) rest

theorem outputs_append {ω : Type*} {output : σ → ι → Option ω} (start : σ) (first second : List ι) :
    outputs step output start (first ++ second) =
      outputs step output start first ++ outputs step output (run step start first) second := by
  induction first generalizing start with
  | nil => rfl
  | cons input rest ih => rw [List.cons_append,outputs,ih,outputs,List.append_assoc,run_cons]

theorem outputs_nodup {ω : Type*} {output : σ → ι → Option ω} (spent : σ → ω → Prop)
    (preserved : ∀ state input, allowed state input → property state → property (step state input))
    (fresh : ∀ state input produced, allowed state input → property state → output state input = some produced →
      ¬spent state produced ∧ spent (step state input) produced)
    (lasting : ∀ state input old, allowed state input → property state → spent state old →
      spent (step state input) old)
    (start : σ) (inputs : List ι) (guarded : Guarded step allowed start inputs) (initial : property start) :
    (outputs step output start inputs).Nodup ∧ ∀ produced ∈ outputs step output start inputs, ¬spent start produced := by
  induction inputs generalizing start with
  | nil => exact ⟨List.nodup_nil,fun _ member => absurd member List.not_mem_nil⟩
  | cons input rest ih =>
    obtain ⟨head,tail⟩ := guarded
    obtain ⟨distinct,unspent⟩ := ih (step start input) tail (preserved start input head initial)
    have later : ∀ produced ∈ outputs step output (step start input) rest, ¬spent start produced :=
      fun produced member old => unspent produced member (lasting start input produced head initial old)
    cases made : output start input with
    | none =>
      rw [outputs,made]
      exact ⟨distinct,later⟩
    | some produced =>
      obtain ⟨new,used⟩ := fresh start input produced head initial made
      rw [outputs,made]
      refine ⟨List.nodup_cons.mpr ⟨fun member => unspent produced member used,distinct⟩,?_⟩
      intro other member
      rcases List.mem_cons.mp member with rfl | further
      · exact new
      · exact later other further

theorem foldlM_foldl {step : σ → ι → Option σ} {act : σ → ι → σ}
    (does : ∀ state input next, step state input = some next → next = act state input) (inputs : List ι)
    (start final : σ) (ran : inputs.foldlM step start = some final) : final = inputs.foldl act start := by
  induction inputs generalizing start with
  | nil => exact (Option.some.inj ran).symm
  | cons input rest ih =>
    obtain ⟨next,stepped,ran⟩ := Option.bind_eq_some_iff.mp ran
    rw [List.foldl_cons,← does start input next stepped]
    exact ih next ran

theorem foldl_part {γ : Type*} {act : σ → ι → σ} (part : σ → γ) (put : σ → γ → σ) (change : γ → ι → γ)
    (acts : ∀ state input, act state input = put state (change (part state) input))
    (part_put : ∀ state value, part (put state value) = value)
    (put_put : ∀ state value value', put (put state value) value' = put state value')
    (put_part : ∀ state, put state (part state) = state) (inputs : List ι) (start : σ) :
    inputs.foldl act start = put start (inputs.foldl change (part start)) := by
  induction inputs generalizing start with
  | nil => exact (put_part start).symm
  | cons input rest ih => rw [List.foldl_cons,List.foldl_cons,ih,acts,part_put,put_put]

theorem foldl_view {γ : Type*} {act : σ → ι → σ} {view : σ → γ} {seen : γ → ι → γ}
    (sees : ∀ state input, view (act state input) = seen (view state) input) (inputs : List ι) (start : σ) :
    view (inputs.foldl act start) = inputs.foldl seen (view start) := by
  induction inputs generalizing start with
  | nil => rfl
  | cons input rest ih => rw [List.foldl_cons,List.foldl_cons,ih,sees]

end AuthorityKernel.Library.Run
