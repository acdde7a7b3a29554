import AuthorityKernel.Library.Merkle
import AuthorityKernel.State.Backend
import AuthorityKernel.State.Commit
import Mathlib.Algebra.Free

/-! Anchors: records that commit to the dirty objects and to the audit log, each naming
the root of the one before. Neither the root nor the chain determines as much as it
should: a root has several lists, and an anchor says nothing of its predecessor but the
root. -/
namespace AuthorityKernel.State.Anchors
open Library Library.Merkle Library.Run

/-- At most 65536 hashes are passed, so that no product of 32 bits wraps. -/
def computeMerkleRoot {α : Type} (node : α → α → α) (zero : α) (memory : Bool) : List α → α
  | [] => zero
  | [hash] => hash
  | hashes => if !memory then zero else (climb node hashes.length hashes).headD zero

section Commitment

variable {α : Type} (node : α → α → α) (zero : α)

theorem computeMerkleRoot_isRoot {hashes : List α} (filled : hashes ≠ []) :
    IsRoot node hashes (computeMerkleRoot node zero true hashes) := by
  match hashes with
  | [] => contradiction
  | [hash] => exact ⟨0,rfl,fun j before => absurd before (Nat.not_lt_zero j)⟩
  | first :: second :: rest =>
    obtain ⟨root,climbed,built⟩ := climb_isRoot node _ (first :: second :: rest) filled (Nat.le_succ _)
    simp only [computeMerkleRoot,climbed]
    exact built

theorem determined_without_memory {hashes : List α} (leaves : Leaves node hashes) (filled : hashes ≠ []) :
    (∀ others, others ≠ [] → Leaves node others →
      computeMerkleRoot node zero false hashes = computeMerkleRoot node zero false others → hashes = others) ↔
      ∃ hash, hash ≠ zero ∧ hashes = [hash] := by
  constructor
  · intro only
    match hashes with
    | [] => contradiction
    | [hash] =>
      refine ⟨hash,?_,rfl⟩
      rintro rfl
      have twice : Leaves node [hash,hash] := fun x member => leaves x (by simpa using member)
      simpa using only [hash,hash] (by simp) twice rfl
    | first :: second :: rest =>
      have grown : Leaves node (first :: second :: first :: rest) := by
        intro x member
        apply leaves x
        simp only [List.mem_cons] at member ⊢
        tauto
      have same := congrArg List.length (only (first :: second :: first :: rest) (by simp) grown rfl)
      simp at same
  · rintro ⟨hash,nonzero,rfl⟩ others othersFilled _ same
    match others with
    | [] => contradiction
    | [other] => exact congrArg (fun x => [x]) same
    | first :: second :: rest => exact absurd same nonzero

/-- The root of a list is the root of no other list exactly if the list is as long as a
power of two and does not end in a repetition, and memory suffices to compute it. -/
theorem merkle_root_commits_iff (injective : ∀ a b c d, node a b = node c d → a = c ∧ b = d) (memory : Bool)
    (hashes : List α) (leaves : Leaves node hashes) (filled : hashes ≠ []) :
    (∀ others, others ≠ [] → Leaves node others →
      computeMerkleRoot node zero memory hashes = computeMerkleRoot node zero memory others → hashes = others) ↔
      (memory = false → ∃ hash, hash ≠ zero ∧ hashes = [hash]) ∧ (∃ k, hashes.length = 2 ^ k) ∧ ¬ Repeats hashes := by
  cases memory with
  | true =>
    have built := computeMerkleRoot_isRoot node zero filled
    have roots : ∀ others, others ≠ [] → (computeMerkleRoot node zero true hashes = computeMerkleRoot node zero true others ↔
        IsRoot node others (computeMerkleRoot node zero true hashes)) := by
      intro others othersFilled
      have othersBuilt := computeMerkleRoot_isRoot node zero othersFilled
      exact ⟨fun same => same ▸ othersBuilt,fun same => isRoot_unique node same othersBuilt⟩
    have determined := determined_iff injective hashes leaves filled _ built
    constructor
    · intro only
      refine ⟨fun short => by contradiction,determined.mp fun others othersFilled othersLeaves same => ?_⟩
      exact (only others othersFilled othersLeaves ((roots others othersFilled).mpr same)).symm
    · rintro ⟨_,condition⟩ others othersFilled othersLeaves same
      exact (determined.mpr condition others othersFilled othersLeaves ((roots others othersFilled).mp same)).symm
  | false =>
    rw [determined_without_memory node zero leaves filled]
    constructor
    · rintro ⟨hash,nonzero,rfl⟩
      refine ⟨fun _ => ⟨hash,nonzero,rfl⟩,⟨0,rfl⟩,?_⟩
      rintro ⟨lead,block,j,led,size,same⟩
      have positive := Nat.two_pow_pos j
      have lengths := congrArg List.length same
      simp only [List.length_append,List.length_singleton] at lengths
      omega
    · rintro ⟨single,_⟩
      exact single rfl

end Commitment

/-- Hashes that never collide: trees over numbers. -/
abbrev Ideal := FreeMagma Nat

theorem ideal_injective (a b c d : Ideal) (same : a * b = c * d) : a = c ∧ b = d := by
  cases same
  exact ⟨rfl,rfl⟩

theorem ideal_leaves (numbers : List Nat) : Leaves (fun a b : Ideal => a * b) (numbers.map FreeMagma.of) := by
  intro x member a b same
  obtain ⟨number,_,rfl⟩ := List.mem_map.mp member
  cases same

theorem pair_root_commits :
    (∃ k, [(FreeMagma.of 0 : Ideal),FreeMagma.of 1].length = 2 ^ k) ∧
      ∀ others, others ≠ [] → Leaves (fun a b : Ideal => a * b) others →
        computeMerkleRoot (fun a b : Ideal => a * b) (FreeMagma.of 9) true [FreeMagma.of 0,FreeMagma.of 1] =
          computeMerkleRoot (fun a b : Ideal => a * b) (FreeMagma.of 9) true others →
        [FreeMagma.of 0,FreeMagma.of 1] = others := by
  refine ⟨⟨1,rfl⟩,?_⟩
  refine (merkle_root_commits_iff _ _ ideal_injective true _ (ideal_leaves [0,1]) (by simp)).mpr
    ⟨fun short => by contradiction,⟨1,rfl⟩,?_⟩
  rintro ⟨lead,block,j,led,size,same⟩
  have positive := Nat.two_pow_pos j
  have leadPositive := List.length_pos_iff.mpr led
  have lengths := congrArg List.length same
  simp only [List.length_append,List.length_map,List.length_cons,List.length_nil] at lengths
  omega

/-- The last of three hashes may be given twice. -/
theorem three_and_four_hashes_one_root :
    (∀ a b c d : Ideal, a * b = c * d → a = c ∧ b = d) ∧
      Leaves (fun a b : Ideal => a * b) [FreeMagma.of 0,FreeMagma.of 1,FreeMagma.of 2] ∧
      Leaves (fun a b : Ideal => a * b) [FreeMagma.of 0,FreeMagma.of 1,FreeMagma.of 2,FreeMagma.of 2] ∧
      computeMerkleRoot (fun a b : Ideal => a * b) (FreeMagma.of 9) true [FreeMagma.of 0,FreeMagma.of 1,FreeMagma.of 2] =
        computeMerkleRoot (fun a b : Ideal => a * b) (FreeMagma.of 9) true
          [FreeMagma.of 0,FreeMagma.of 1,FreeMagma.of 2,FreeMagma.of 2] ∧
      [(FreeMagma.of 0 : Ideal),FreeMagma.of 1,FreeMagma.of 2] ≠
        [FreeMagma.of 0,FreeMagma.of 1,FreeMagma.of 2,FreeMagma.of 2] :=
  ⟨ideal_injective,ideal_leaves [0,1,2],ideal_leaves [0,1,2,2],rfl,by simp⟩

abbrev Hash := Block akHashSize

def Hash.zero : Hash := Block.zero akHashSize

def objectHash (data : Bytes) : Hash := ⟨computeHash data,computeHash_length data⟩

structure Anchor where
  timestamp : UInt64
  sequence : UInt64
  heapRoot : Hash
  logRoot : Hash
  prevAnchor : Hash
deriving DecidableEq

structure AnchorState where
  sync : SyncState
  latest : Anchor

def akStateInit (backend : StorageBackend) : AnchorState := ⟨State.akStateInit backend,⟨0,0,.zero,.zero,.zero⟩⟩

structure FileHeader where
  sequence : UInt64
  timestamp : UInt64
  merkleRoot : Hash

/-- What a load that accepts the state file leaves of the anchors. The file does not tell the
root before, so the latest anchor keeps the one it had. -/
def akStateLoadFromDisk (header : FileHeader) (s : AnchorState) : AnchorState where
  sync := { s.sync with anchorSequence := max s.sync.anchorSequence header.sequence }
  latest := { s.latest with heapRoot := header.merkleRoot, sequence := header.sequence, timestamp := header.timestamp }

def started (backend : StorageBackend) : Option FileHeader → AnchorState
  | none => akStateInit backend
  | some header => akStateLoadFromDisk header (akStateInit backend)

structure EmitEnv where
  timestamp : UInt64
  serialize : UInt64 → Option Bytes
  hashesAlloc : Bool
  treeAlloc : Bool
  logHead : Hash

section Emission

variable (hash : Bytes → Hash)

/-- The root of the dirty objects; zeros if there are none or memory is short. -/
def heapRoot (env : EmitEnv) (ptrs : List UInt64) : Hash :=
  if ptrs = [] ∨ !env.hashesAlloc then .zero
  else
    computeMerkleRoot (fun left right => hash (left.1 ++ right.1)) .zero env.treeAlloc
      (ptrs.map fun ptr => (env.serialize ptr).elim .zero hash)

def akStateEmitAnchor (env : EmitEnv) (s : AnchorState) : AnchorState × Int :=
  let emitted := State.akStateEmitAnchor s.sync
  if !s.sync.initialized then (s,emitted.2)
  else
    (⟨emitted.1,⟨env.timestamp,emitted.1.anchorSequence,heapRoot hash env s.sync.dirty.keys,env.logHead,s.latest.heapRoot⟩⟩,
      emitted.2)

/-- Whatever its predecessor is, an anchor that is not the first is taken to be linked. -/
def akStateVerifyAnchorChain (s : AnchorState) : Bool :=
  if !s.sync.initialized then false
  else if s.sync.anchorSequence = 0 then s.latest.prevAnchor = Hash.zero
  else true

inductive AnchorStep
  | emit (env : EmitEnv)
  | markDirty (ptr : UInt64)
  | sync (env : SyncEnv)

def anchorStep (s : AnchorState) : AnchorStep → AnchorState
  | .emit env => (akStateEmitAnchor hash env s).1
  | .markDirty ptr => { s with sync := akStateMarkDirty ptr s.sync }
  | .sync env => { s with sync := (akStateSync env s.sync).1 }

def emission (s : AnchorState) : AnchorStep → Option Anchor
  | .emit env => if s.sync.initialized then some (akStateEmitAnchor hash env s).1.latest else none
  | _ => none

def anchors (s : AnchorState) (steps : List AnchorStep) : List Anchor :=
  outputs (anchorStep hash) (emission hash) s steps

/-- The latest anchor names the root of the one before it. -/
def LatestLinked (chain : List Anchor) : Prop :=
  ∀ front previous last, chain = front ++ [previous,last] → last.prevAnchor = previous.heapRoot

variable (s other : AnchorState) (steps : List AnchorStep)

variable (backend : StorageBackend) (header : Option FileHeader) (step : AnchorStep)

theorem anchors_cons (rest : List AnchorStep) :
    anchors hash s (step :: rest) = (emission hash s step).toList ++ anchors hash (anchorStep hash s step) rest := rfl

theorem anchorStep_latest :
    (anchorStep hash s step).latest = (emission hash s step).getD s.latest := by
  cases step with
  | emit env =>
    unfold anchorStep emission akStateEmitAnchor
    cases s.sync.initialized <;> rfl
  | markDirty | sync => rfl

theorem emission_prevAnchor {s : AnchorState} {step : AnchorStep} {anchor : Anchor}
    (emitted : emission hash s step = some anchor) : anchor.prevAnchor = s.latest.heapRoot := by
  cases step with
  | emit env =>
    unfold emission akStateEmitAnchor at emitted
    cases ready : s.sync.initialized with
    | false => simp [ready] at emitted
    | true =>
      simp only [ready] at emitted
      rw [← Option.some.inj emitted]
      rfl
  | markDirty | sync => contradiction

theorem run_latest :
    (run (anchorStep hash) s steps).latest = (anchors hash s steps).getLastD s.latest := by
  induction steps generalizing s with
  | nil => rfl
  | cons step rest ih =>
    rw [run_cons,ih,anchors_cons,anchorStep_latest]
    cases emission hash s step with
    | none => rfl
    | some anchor => rw [Option.toList_some,List.singleton_append,List.getLastD_cons,Option.getD_some]

theorem latest_linked (earlier : List Anchor) (some : anchors hash s steps ≠ []) :
    LatestLinked (earlier ++ s.latest :: anchors hash s steps) := by
  induction steps generalizing s earlier with
  | nil => exact absurd rfl some
  | cons step rest ih =>
    have latest := anchorStep_latest hash s step
    have later := ih (anchorStep hash s step)
    rw [anchors_cons] at some ⊢
    cases emitted : emission hash s step with
    | none =>
      rw [emitted,Option.getD_none] at latest
      rw [latest] at later
      rw [emitted] at some
      exact later earlier some
    | some anchor =>
      rw [emitted,Option.getD_some] at latest
      rw [latest] at later
      rw [Option.toList_some,List.singleton_append]
      by_cases more : anchors hash (anchorStep hash s step) rest = []
      · intro front previous last chain
        rw [more,List.append_eq_append_iff_of_size_eq_right (by rfl)] at chain
        obtain ⟨rfl,⟨⟩⟩ := chain
        exact emission_prevAnchor hash emitted
      · have linked := later (earlier ++ [s.latest]) more
        rwa [List.append_assoc] at linked

theorem anchors_congr (sync : s.sync = other.sync)
    (root : s.latest.heapRoot = other.latest.heapRoot) (steps : List AnchorStep) :
    anchors hash s steps = anchors hash other steps := by
  induction steps generalizing s other with
  | nil => rfl
  | cons step rest ih =>
    obtain ⟨state,latest⟩ := s
    obtain ⟨_,latest'⟩ := other
    subst sync
    dsimp only at root
    rw [anchors_cons,anchors_cons]
    cases step with
    | emit env =>
      simp only [anchorStep,emission,akStateEmitAnchor,root]
      cases state.initialized with
      | false => exact ih ⟨state,latest⟩ ⟨state,latest'⟩ rfl root
      | true => rfl
    | markDirty | sync => exact ih _ _ rfl root

theorem exists_first_emission (some : anchors hash s steps ≠ []) :
    ∃ before env after, steps = before ++ AnchorStep.emit env :: after ∧ anchors hash s before = [] ∧
      (run (anchorStep hash) s before).sync.initialized = true := by
  induction steps generalizing s with
  | nil => exact absurd rfl some
  | cons step rest ih =>
    rw [anchors_cons] at some
    cases emitted : emission hash s step with
    | none =>
      rw [emitted] at some
      obtain ⟨before,env,after,rfl,silent,ready⟩ := ih (anchorStep hash s step) some
      refine ⟨step :: before,env,after,rfl,?_,ready⟩
      rw [anchors_cons,emitted,silent]
      rfl
    | some anchor =>
      cases step with
      | emit env =>
        refine ⟨[],env,rest,rfl,rfl,?_⟩
        cases ready : s.sync.initialized with
        | false => simp [emission,ready] at emitted
        | true => exact ready
      | markDirty ptr => contradiction
      | sync env => contradiction

def AnchorStep.isEmit : AnchorStep → Bool
  | .emit _ => true
  | _ => false

theorem anchorStep_initialized :
    (anchorStep hash s step).sync.initialized = s.sync.initialized := by
  cases step with
  | emit env =>
    simp only [anchorStep,akStateEmitAnchor,State.akStateEmitAnchor]
    cases ready : s.sync.initialized <;> simp [ready]
  | markDirty ptr =>
    simp only [anchorStep,akStateMarkDirty]
    split <;> rfl
  | sync env => exact akStateSync_initialized env s.sync

theorem anchors_length (ready : s.sync.initialized = true) (steps : List AnchorStep) :
    (anchors hash s steps).length = steps.countP AnchorStep.isEmit := by
  induction steps generalizing s with
  | nil => rfl
  | cons step rest ih =>
    have later := ih (anchorStep hash s step) ((anchorStep_initialized hash s step).trans ready)
    rw [anchors_cons,List.length_append,later,List.countP_cons,Nat.add_comm]
    congr 1
    cases step with
    | emit env =>
      simp only [emission,ready]
      rfl
    | markDirty ptr => rfl
    | sync env => rfl

theorem exists_other_hash (head : Hash) : ∃ other : Hash, other ≠ head := by
  by_cases zero : head = Hash.zero
  · refine ⟨⟨List.replicate akHashSize 1,List.length_replicate⟩,?_⟩
    rw [zero]
    intro same
    have bytes := congrArg (fun h : Hash => h.1) same
    simp [Hash.zero,Block.zero,akHashSize] at bytes
  · exact ⟨Hash.zero,Ne.symm zero⟩

/-- A run with as many emissions and the same latest anchor has the same anchors. -/
def EarlierDetermined (steps : List AnchorStep) : Prop :=
  ∀ (backend' : StorageBackend) (others : List AnchorStep),
    others.countP AnchorStep.isEmit = steps.countP AnchorStep.isEmit →
    (run (anchorStep hash) (akStateInit backend') others).latest = (run (anchorStep hash) (akStateInit backend) steps).latest →
    anchors hash (akStateInit backend') others = anchors hash (akStateInit backend) steps

/-- Behind whatever an earlier boot emitted, a chain that verifies is linked. -/
def LinkedIfVerified (steps : List AnchorStep) : Prop :=
  ∀ earlier : List Anchor, (header = none → earlier = []) →
    akStateVerifyAnchorChain (run (anchorStep hash) (started backend header) steps) = true →
    LatestLinked (earlier ++ (started backend header).latest :: anchors hash (started backend header) steps)

/-- Of any run with more than one anchor there is another with a different first anchor and the
same latest one. -/
theorem earlier_determined_iff (steps : List AnchorStep) :
    EarlierDetermined hash backend steps ↔ steps.countP AnchorStep.isEmit ≤ 1 := by
  have counted : ∀ (backend' : StorageBackend) (others : List AnchorStep),
      others.countP AnchorStep.isEmit = (anchors hash (akStateInit backend') others).length :=
    fun backend' others => (anchors_length hash (akStateInit backend') rfl others).symm
  constructor
  · intro determined
    by_contra long
    rw [counted backend] at long
    have some : anchors hash (akStateInit backend) steps ≠ [] := by
      intro none
      rw [none] at long
      exact long (Nat.zero_le 1)
    obtain ⟨before,env,after,rfl,silent,ready⟩ := exists_first_emission hash _ steps some
    obtain ⟨head,differs⟩ := exists_other_hash env.logHead
    have emitted : ∀ env' : EmitEnv, anchors hash (akStateInit backend) (before ++ AnchorStep.emit env' :: after) =
        (akStateEmitAnchor hash env' (run (anchorStep hash) (akStateInit backend) before)).1.latest ::
          anchors hash (akStateEmitAnchor hash env' (run (anchorStep hash) (akStateInit backend) before)).1 after := by
      intro env'
      rw [anchors,outputs_append]
      change anchors hash _ before ++ _ = _
      rw [silent,List.nil_append]
      change anchors hash _ (AnchorStep.emit env' :: after) = _
      rw [anchors_cons,emission,if_pos ready]
      rfl
    have later := anchors_congr hash
      (akStateEmitAnchor hash { env with logHead := head } (run (anchorStep hash) (akStateInit backend) before)).1
      (akStateEmitAnchor hash env (run (anchorStep hash) (akStateInit backend) before)).1
      (by simp [akStateEmitAnchor,ready]) (by simp [akStateEmitAnchor,ready,heapRoot]) after
    have same := determined backend (before ++ AnchorStep.emit { env with logHead := head } :: after)
      (by rw [counted backend,counted backend,emitted,emitted,later,List.length_cons,List.length_cons]) ?_
    · rw [emitted,emitted] at same
      have roots := congrArg Anchor.logRoot (List.cons.inj same).1
      simp only [akStateEmitAnchor,ready] at roots
      exact differs roots
    · -- what follows the first emission is the same and not empty
      rw [run_latest,run_latest,emitted,emitted,later]
      rw [emitted] at long
      cases rest : anchors hash (akStateEmitAnchor hash env (run (anchorStep hash) (akStateInit backend) before)).1 after with
      | nil =>
        rw [rest] at long
        exact absurd (Nat.le_refl 1) long
      | cons second others => rw [List.getLastD_cons,List.getLastD_cons,List.getLastD_cons,List.getLastD_cons]
  · intro short backend' others size latest
    rw [counted backend] at short
    rw [counted backend',counted backend] at size
    rw [run_latest,run_latest] at latest
    match first : anchors hash (akStateInit backend) steps, second : anchors hash (akStateInit backend') others with
    | [], [] => rfl
    | [], _ :: _ => simp [first,second] at size
    | [_], [] => simp [first,second] at size
    | [one], [other] =>
      rw [first,second] at latest
      exact congrArg (fun x => [x]) latest
    | [_], _ :: _ :: _ => simp [first,second] at size
    | _ :: _ :: _, _ => simp [first] at short

theorem started_ready :
    (started backend header).sync.initialized = true ∧ (started backend header).latest.prevAnchor = Hash.zero := by
  cases header <;> exact ⟨rfl,rfl⟩

theorem unlinked_verified {s : AnchorState} (ready : s.sync.initialized = true) (first : s.latest.prevAnchor = Hash.zero)
    (none : anchors hash s steps = []) : akStateVerifyAnchorChain (run (anchorStep hash) s steps) = true := by
  have same : (run (anchorStep hash) s steps).sync.initialized = true :=
    invariant_run_always (fun state step before => (anchorStep_initialized hash state step).trans before) s steps ready
  rw [akStateVerifyAnchorChain,same,run_latest,none,List.getLastD_nil,first]
  simp

/-- The chain is taken to be linked although the file does not hold the root the loaded anchor
should name; an anchor of this boot names the root of the one before it. -/
theorem linked_if_verified_iff (steps : List AnchorStep) :
    LinkedIfVerified hash backend header steps ↔ header = none ∨ 1 ≤ steps.countP AnchorStep.isEmit := by
  obtain ⟨ready,first⟩ := started_ready backend header
  rw [← anchors_length hash _ ready steps]
  by_cases none : anchors hash (started backend header) steps = []
  · have verified := unlinked_verified hash steps ready first none
    rw [LinkedIfVerified,none]
    constructor
    · intro linked
      refine Or.inl (by_contra fun loaded => ?_)
      obtain ⟨root,differs⟩ := exists_other_hash Hash.zero
      have names := linked [⟨0,0,root,.zero,.zero⟩] (fun new => absurd new loaded) verified [] _ _ rfl
      exact differs (names.symm.trans first)
    · rintro (new | some) earlier alone _ front previous last chain
      · have lengths := congrArg List.length chain
        rw [alone new] at lengths
        simp at lengths
      · simp at some
  · exact iff_of_true (fun earlier _ _ => latest_linked hash _ steps earlier none)
      (Or.inr (List.length_pos_iff.mpr none))

end Emission

def emptyEmission (timestamp : UInt64) : AnchorStep := .emit ⟨timestamp,fun _ => none,true,true,Hash.zero⟩

end AuthorityKernel.State.Anchors
