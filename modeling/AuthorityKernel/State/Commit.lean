import AuthorityKernel.Json.Extract
import AuthorityKernel.Request
import AuthorityKernel.State.Dirty

/-! The commit call: it syncs the dirty objects, emits an anchor and reports whether
the state is durable. A sync that stored only part of the objects is reported as
durable too. -/
namespace AuthorityKernel.State
open Library Json

structure CommitEnv where
  sync : SyncEnv
  resultAlloc : Bool
  responseAlloc : Bool

/-- The anchor's record goes to the backend at best effort. -/
def akStateEmitAnchor (s : SyncState) : SyncState × Int :=
  if !s.initialized then (s,akEStateNotFound) else ({ s with anchorSequence := s.anchorSequence + 1 },0)

def commitText (objectsSynced : UInt64) (durable : Bool) (anchorSequence : UInt64) : Bytes :=
  ascii "\x7b\"objects_synced\":" ++ akU64ToDec objectsSynced ++
  (if durable then ascii ",\"durable\":true" else ascii ",\"durable\":false") ++
  ascii ",\"anchor_sequence\":" ++ akU64ToDec anchorSequence ++ ascii "\x7d"

def akStateHandleCommit (env : CommitEnv) (req : AkRequest) (s : SyncState) : SyncState × Option AkResponse :=
  let synced := akStateSync env.sync s
  let status := synced.2.status
  if status ≠ .completed ∧ status ≠ .inPart ∧ status ≠ .noBackend then
    (synced.1,akResponseError env.responseAlloc (some req) synced.2.errorCode)
  else
    let durable := status == .completed || status == .inPart
    let anchored := akStateEmitAnchor synced.1
    if anchored.2 ≠ 0 then (anchored.1,akResponseError env.responseAlloc (some req) anchored.2)
    else if !env.resultAlloc then (anchored.1,akResponseError env.responseAlloc (some req) akEStateSyncFailed)
    else
      (anchored.1,akResponseSuccess env.responseAlloc (some req)
        (some (commitText (UInt64.ofNat synced.2.objectsSynced) durable anchored.1.anchorSequence)))

/-- The response says `"durable":true`. -/
def ReportsDurable (answer : Option AkResponse) : Prop :=
  ∃ objectsSynced anchorSequence, answer.bind AkResponse.result = some (commitText objectsSynced true anchorSequence)

variable (alloc : Bool) (req : AkRequest) (env : SyncEnv) (s : SyncState)

theorem comma_free_dec (value : UInt64) : (44 : UInt8) ∉ akU64ToDec value := by
  intro member
  have bounds := decimalNat_digit member
  have comma : (44 : UInt8).toNat = 44 := rfl
  omega

theorem commitText_durable {objectsSynced first anchorSequence second : UInt64} {durable : Bool}
    (same : commitText objectsSynced durable anchorSequence = commitText first true second) : durable = true := by
  have split : ∀ (synced : UInt64) (flag : Bool) (sequence : UInt64), commitText synced flag sequence =
      ascii "\x7b\"objects_synced\":" ++ (akU64ToDec synced ++ 44 ::
        ((if flag then ascii "\"durable\":true" else ascii "\"durable\":false") ++
          (ascii ",\"anchor_sequence\":" ++ (akU64ToDec sequence ++ ascii "\x7d")))) := by
    intro synced flag sequence
    cases flag <;> simp [commitText,ascii]
  rw [split,split] at same
  obtain ⟨_,behind⟩ := split_first 44 _ _ _ _ (List.append_cancel_left same) (comma_free_dec _) (comma_free_dec _)
  cases durable with
  | true => rfl
  | false => simp [ascii] at behind

theorem reportsDurable_success (objectsSynced anchorSequence : UInt64) (durable : Bool) :
    ReportsDurable (akResponseSuccess alloc (some req) (some (commitText objectsSynced durable anchorSequence))) ↔
      alloc = true ∧ durable = true := by
  unfold ReportsDurable akResponseSuccess
  cases alloc with
  | false => simp
  | true =>
    simp only [if_true,Option.bind_some,response,Option.some.injEq,true_and]
    constructor
    · rintro ⟨first,second,same⟩
      exact commitText_durable same
    · rintro rfl
      exact ⟨objectsSynced,anchorSequence,rfl⟩

theorem reportsDurable_error (code : Int) : ¬ ReportsDurable (akResponseError alloc (some req) code) := by
  rintro ⟨first,second,same⟩
  cases alloc <;> simp [akResponseError,response] at same

def Stored (status : SyncStatus) : Prop := status = .completed ∨ status = .inPart

theorem commit_reports_iff (env : CommitEnv) (req : AkRequest) (s : SyncState) :
    ReportsDurable (akStateHandleCommit env req s).2 ↔
      Stored (akStateSync env.sync s).2.status ∧ (akStateSync env.sync s).1.initialized = true ∧
        env.resultAlloc = true ∧ env.responseAlloc = true := by
  have unsaid := reportsDurable_error env.responseAlloc req
  have spoken := reportsDurable_success env.responseAlloc req
  unfold akStateHandleCommit akStateEmitAnchor Stored
  dsimp only
  cases (akStateSync env.sync s).1.initialized <;> cases env.resultAlloc <;>
    cases status : (akStateSync env.sync s).2.status <;> simp [unsaid,spoken,akEStateNotFound]

theorem syncStatus_stored_iff (synced count : Nat) (some : count ≠ 0) : Stored (syncStatus synced count) ↔ synced ≠ 0 := by
  unfold Stored syncStatus
  split
  · simp
    omega
  · split <;> simp <;> omega

theorem akStateSync_stored_iff :
    Stored (akStateSync env s).2.status ↔ s.initialized = true ∧ s.backend ≠ .none ∧
      (s.dirty.keys = [] ∨ (env.copyAlloc = true ∧ acknowledgedPtrs env s.dirty.keys ≠ [])) := by
  cases ready : s.initialized with
  | false => simp [akStateSync,ready,Stored]
  | true =>
    by_cases unstored : s.backend = .none
    · simp [akStateSync,ready,unstored,Stored]
    by_cases clean : s.dirty.keys = []
    · simp [akStateSync,ready,unstored,clean,Stored]
    have filled : s.dirty.keys.length ≠ 0 := fun empty => clean (List.length_eq_zero_iff.mp empty)
    have sync : akStateSync env s = akStateSyncObjects env s.dirty.keys s := by
      simp [akStateSync,ready,unstored,clean]
    rw [sync]
    cases copied : env.copyAlloc with
    | false => simp [akStateSyncObjects,clean,copied,Stored]
    | true =>
      rw [(akStateSyncObjects_eq s clean copied).2.2,syncStatus_stored_iff _ _ filled]
      simp [unstored,clean]

theorem akStateSync_initialized (env : SyncEnv) (s : SyncState) : (akStateSync env s).1.initialized = s.initialized := by
  have clean : ∀ (ptrs : List UInt64) (t : SyncState),
      (ptrs.foldl (fun t ptr => akStateMarkClean ptr t) t).initialized = t.initialized := by
    intro ptrs
    induction ptrs with
    | nil => exact fun t => rfl
    | cons ptr rest ih =>
      intro t
      rw [List.foldl_cons,ih]
      unfold akStateMarkClean
      split <;> rfl
  unfold akStateSync akStateSyncObjects
  repeat' split
  all_goals first | rfl | exact (congrArg _ (syncObject_fold env _ _).1).trans (clean _ _)

theorem acknowledgedPtrs_ne_nil_iff (ptrs : List UInt64) :
    acknowledgedPtrs env ptrs ≠ [] ↔ ¬ ∀ place ∈ ptrs.zipIdx, acknowledged env place = false := by
  simp [acknowledgedPtrs,List.filter_eq_nil_iff]

theorem mem_acknowledgedPtrs_all_iff {ptrs : List UInt64} (once : ptrs.Nodup) :
    (∀ ptr ∈ ptrs, ptr ∈ acknowledgedPtrs env ptrs) ↔ ∀ place ∈ ptrs.zipIdx, acknowledged env place = true := by
  constructor
  · rintro all ⟨ptr,index⟩ place
    have here := List.mk_mem_zipIdx_iff_getElem?.mp place
    obtain ⟨⟨_,other⟩,stored,rfl⟩ := List.mem_map.mp (all ptr (List.mem_of_getElem? here))
    obtain ⟨listed,given⟩ := List.mem_filter.mp stored
    -- the pointer stands at one place only
    have there := List.mk_mem_zipIdx_iff_getElem?.mp listed
    rwa [(List.getElem?_inj (List.getElem?_eq_some_iff.mp here).1 once).mp (here.trans there.symm)]
  · exact fun all ptr listed => mem_acknowledgedPtrs all listed

def twoMarked : List DirtyCall := [.markDirty 1,.sync plainSync,.markDirty 2,.markDirty 3]

end AuthorityKernel.State
