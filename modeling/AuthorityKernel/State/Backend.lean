import AuthorityKernel.Library.Text
import AuthorityKernel.State.Dirty
import AuthorityKernel.State.Lz4

/-! Objects in the storage behind the host's proxy. An object is a file of hex digits: a
flag byte, a hash of the payload and the payload, compressed when that is shorter. What
was stored last under a pointer is what a read gives. -/
namespace AuthorityKernel.State
open Library Library.Run

def akHashSize : Nat := 32

def fnvPrime : UInt64 := 0x100000001b3

def fnvBasis : UInt64 := 0xcbf29ce484222325

def extendHash (s : UInt64 × Bytes) (i : Nat) : UInt64 × Bytes :=
  let byte := ((s.1 >>> UInt64.ofNat (i % 8 * 8)) &&& 0xff).toUInt8
  (if i % 8 = 7 then (s.1 ^^^ UInt64.ofNat i) * fnvPrime else s.1,s.2 ++ [byte])

def computeHash (data : Bytes) : Bytes :=
  let h := data.foldl (fun h byte => (h ^^^ byte.toUInt64) * fnvPrime) fnvBasis
  ((List.range akHashSize).foldl extendHash (h,[])).2

theorem extendHash_length (steps : List Nat) (s : UInt64 × Bytes) :
    (steps.foldl extendHash s).2.length = s.2.length + steps.length := by
  induction steps generalizing s with
  | nil => rfl
  | cons i rest ih =>
    rw [List.foldl_cons,ih,extendHash,List.length_append,List.length_singleton,List.length_cons]
    omega

@[simp] theorem computeHash_length (data : Bytes) : (computeHash data).length = akHashSize := by
  rw [computeHash,extendHash_length,List.length_range,List.length_nil,Nat.zero_add]

attribute [irreducible] computeHash

def virtioObjectPath (ptr : UInt64) : Bytes := ascii "/ak/state/obj_" ++ hexWord 16 ptr.toNat

theorem virtioObjectPath_injective (first second : UInt64) (same : virtioObjectPath first = virtioObjectPath second) :
    first = second :=
  UInt64.toNat_inj.mp (hexWord_injective 16 _ _ first.toNat_lt second.toNat_lt (List.append_cancel_left same))

attribute [irreducible] virtioObjectPath

/-- `files` is what the proxy's reads return: the content of the last acknowledged
write to each path. -/
structure BackendState where
  initialized : Bool
  backend : StorageBackend
  compressionEnabled : Bool
  files : Bytes → Option Bytes

structure PutEnv where
  connected : Bool
  compressAlloc : Bool
  contentAlloc : Bool
  reply : Int

structure GetEnv where
  connected : Bool
  reply : Int
  recAlloc : Bool
  resultAlloc : Bool
  viewAlloc : Bool
  outputAlloc : Bool

/-- Only an acknowledged write reaches the file. -/
def akProxyFsWrite (reply : Int) (path content : Bytes) (s : BackendState) : BackendState :=
  if reply < 0 then s else { s with files := Function.update s.files path (some content) }

def toStore (compressionEnabled compressAlloc : Bool) (value : Bytes) : Bytes × Bool :=
  if compressionEnabled && akCompressWorthwhile value.length then
    match akCompressLz4 compressAlloc value with
    | none => (value,false)
    | some compressed => if compressed.length < value.length then (compressed,true) else (value,false)
  else (value,false)

def storedRecord (stored : Bytes × Bool) : Bytes :=
  (if stored.2 then 1 else 0) :: (computeHash stored.1 ++ stored.1)

def akBackendPut (env : PutEnv) (ptr : UInt64) (value hash : Option Bytes) (s : BackendState) : BackendState × Int :=
  if !s.initialized || s.backend = .none then (s,akEStateNotFound)
  else
    match value, hash with
    | some value, some _ =>
        match s.backend with
        | .virtio =>
            if !env.connected then (s,akEStateBackendError)
            else if !env.contentAlloc then (s,akEStateBackendError)
            else
              let content := hexBytes (storedRecord (toStore s.compressionEnabled env.compressAlloc value))
              (akProxyFsWrite env.reply (virtioObjectPath ptr) content s,
                if env.reply < 0 then akEStateBackendError else 0)
        | _ => (s,akEStateBackendError)
    | _, _ => (s,akESchemaInvalid)

/-- There is no removing: an empty file stands for a deleted object. -/
def akBackendDelete (env : PutEnv) (ptr : UInt64) (s : BackendState) : BackendState × Int :=
  if !s.initialized || s.backend = .none then (s,akEStateNotFound)
  else
    match s.backend with
    | .virtio =>
        if !env.connected then (s,akEStateBackendError)
        else if !env.contentAlloc then (s,akEStateBackendError)
        else (akProxyFsWrite env.reply (virtioObjectPath ptr) [] s,if env.reply < 0 then akEStateBackendError else 0)
    | _ => (s,akEStateBackendError)

def openRecord (env : GetEnv) (record : Bytes) : Option Bytes :=
  let payload := record.drop (1 + akHashSize)
  if computeHash payload ≠ slice record 1 akHashSize then none
  else if !env.resultAlloc then none
  else if record.headD 0 &&& 1 ≠ 0 then akDecompressLz4 env.viewAlloc env.outputAlloc payload
  else some payload

def readContent (env : GetEnv) (content : Bytes) : Option Bytes :=
  if content.length % 2 = 1 ∨ content.length < 2 * (1 + akHashSize) then none
  else if !env.recAlloc then none
  else (unhexBytes content).bind (openRecord env)

def akBackendGet (env : GetEnv) (ptr : UInt64) (s : BackendState) : Option Bytes :=
  if !s.initialized || s.backend = .none then none
  else
    match s.backend with
    | .virtio =>
        if !env.connected then none
        else if env.reply < 0 then none
        else (s.files (virtioObjectPath ptr)).bind (readContent env)
    | _ => none

structure GetEnv.Served (env : GetEnv) : Prop where
  connected : env.connected = true
  answered : 0 ≤ env.reply
  record : env.recAlloc = true
  result : env.resultAlloc = true
  view : env.viewAlloc = true
  output : env.outputAlloc = true

theorem toStore_cases (compressionEnabled compressAlloc : Bool) (value : Bytes) :
    toStore compressionEnabled compressAlloc value = (value,false) ∨
      ∃ compressed, akCompressLz4 true value = some compressed ∧ value.length ≠ 0 ∧
        toStore compressionEnabled compressAlloc value = (compressed,true) := by
  unfold toStore
  split
  · rename_i worth
    have long : value.length ≠ 0 := by
      intro empty
      simp [akCompressWorthwhile,akCompressMinSize,empty] at worth
    cases done : akCompressLz4 compressAlloc value with
    | none => exact .inl rfl
    | some compressed =>
      dsimp only
      split
      · have memory : compressAlloc = true := by
          cases compressAlloc with
          | true => rfl
          | false => simp [akCompressLz4] at done
        rw [memory] at done
        exact .inr ⟨compressed,done,long,rfl⟩
      · exact .inl rfl
  · exact .inl rfl

theorem storedRecord_payload (stored : Bytes × Bool) : (storedRecord stored).drop (1 + akHashSize) = stored.1 := by
  rw [storedRecord,Nat.add_comm,List.drop_succ_cons]
  exact List.drop_left' (computeHash_length stored.1)

theorem storedRecord_hash (stored : Bytes × Bool) : slice (storedRecord stored) 1 akHashSize = computeHash stored.1 := by
  rw [slice,storedRecord,List.drop_succ_cons,List.drop_zero]
  exact List.take_left' (computeHash_length stored.1)

variable {s : BackendState} {value : Bytes} {env : GetEnv} {ptr : UInt64}

theorem openRecord_storedRecord (served : env.Served) (compressionEnabled compressAlloc : Bool)
    (limit : value.length ≤ akDecompressMaxSize) :
    openRecord env (storedRecord (toStore compressionEnabled compressAlloc value)) = some value := by
  unfold openRecord
  rw [storedRecord_payload,storedRecord_hash]
  rw [if_neg (by simp),if_neg (by rw [served.result]; decide)]
  rcases toStore_cases compressionEnabled compressAlloc value with plain | ⟨compressed,done,filled,packed⟩
  · rw [plain]
    simp [storedRecord]
  · rw [packed,served.view,served.output]
    simpa [storedRecord] using akDecompressLz4_akCompressLz4 filled limit done

theorem readContent_checked {content : Bytes} (read : readContent env content = some value) :
    ∃ record, unhexBytes content = some record ∧ 1 + akHashSize ≤ record.length ∧
      slice record 1 akHashSize = computeHash (record.drop (1 + akHashSize)) := by
  unfold readContent at read
  split at read
  · contradiction
  rename_i long
  split at read
  · contradiction
  obtain ⟨record,decoded,opened⟩ := Option.bind_eq_some_iff.mp read
  have sizes := unhexBytes_length content record decoded
  refine ⟨record,decoded,by omega,?_⟩
  by_contra differ
  rw [openRecord,if_pos (Ne.symm differ)] at opened
  contradiction

theorem akBackendPut_success {env : PutEnv} {hash : Option Bytes}
    (stored : (akBackendPut env ptr (some value) hash s).2 = 0) :
    s.initialized = true ∧ s.backend = .virtio ∧ (akBackendPut env ptr (some value) hash s).1 =
      akProxyFsWrite 0 (virtioObjectPath ptr)
        (hexBytes (storedRecord (toStore s.compressionEnabled env.compressAlloc value))) s := by
  unfold akBackendPut at stored ⊢
  split at stored
  · simp [akEStateNotFound] at stored
  rename_i ready
  rw [if_neg ready]
  cases hash with
  | none => simp [akESchemaInvalid] at stored
  | some hash =>
    cases kind : s.backend with
    | virtio =>
      simp only [kind] at stored ⊢
      split at stored
      · simp [akEStateBackendError] at stored
      rename_i connected
      split at stored
      · simp [akEStateBackendError] at stored
      rename_i memory
      split at stored
      · simp [akEStateBackendError] at stored
      rename_i acknowledged
      rw [if_neg connected,if_neg memory]
      refine ⟨?_,trivial,by simp only [akProxyFsWrite,if_neg acknowledged]; rfl⟩
      simpa [kind] using ready
    | none | s3 | redis | http => simp [kind,akEStateBackendError] at stored

inductive BackendCall
  | put (env : PutEnv) (ptr : UInt64) (value hash : Option Bytes)
  | delete (env : PutEnv) (ptr : UInt64)

def backendStep (s : BackendState) : BackendCall → BackendState
  | .put env ptr value hash => (akBackendPut env ptr value hash s).1
  | .delete env ptr => (akBackendDelete env ptr s).1

/-- The call is on another object, or the proxy does not acknowledge it. -/
def BackendCall.Spares (ptr : UInt64) : BackendCall → Prop
  | .put env other _ _ => other ≠ ptr ∨ env.reply < 0
  | .delete env other => other ≠ ptr ∨ env.reply < 0

structure SameFor (ptr : UInt64) (s s' : BackendState) : Prop where
  initialized : s'.initialized = s.initialized
  backend : s'.backend = s.backend
  file : s'.files (virtioObjectPath ptr) = s.files (virtioObjectPath ptr)

theorem akProxyFsWrite_file (path content : Bytes) (s : BackendState) :
    (akProxyFsWrite 0 path content s).files path = some content := by
  rw [akProxyFsWrite,if_neg (lt_irrefl 0)]
  exact Function.update_self _ _ _

theorem akProxyFsWrite_spares {reply : Int} {other : UInt64} (content : Bytes) (s : BackendState)
    (spared : other ≠ ptr ∨ reply < 0) : SameFor ptr s (akProxyFsWrite reply (virtioObjectPath other) content s) := by
  unfold akProxyFsWrite
  split
  · exact ⟨rfl,rfl,rfl⟩
  rename_i acknowledged
  have apart : virtioObjectPath ptr ≠ virtioObjectPath other := by
    intro same
    exact (spared.resolve_right acknowledged) (virtioObjectPath_injective _ _ same).symm
  exact ⟨rfl,rfl,Function.update_of_ne apart _ _⟩

theorem akBackendPut_cases (env : PutEnv) (ptr : UInt64) (value hash : Option Bytes) (s : BackendState) :
    (akBackendPut env ptr value hash s).1 = s ∨
      ∃ content, (akBackendPut env ptr value hash s).1 = akProxyFsWrite env.reply (virtioObjectPath ptr) content s := by
  unfold akBackendPut
  split
  · exact .inl rfl
  split
  · split
    · split
      · exact .inl rfl
      split
      · exact .inl rfl
      exact .inr ⟨_,rfl⟩
    · exact .inl rfl
  · exact .inl rfl

theorem akBackendDelete_cases (env : PutEnv) (ptr : UInt64) (s : BackendState) :
    (akBackendDelete env ptr s).1 = s ∨
      ∃ content, (akBackendDelete env ptr s).1 = akProxyFsWrite env.reply (virtioObjectPath ptr) content s := by
  unfold akBackendDelete
  split
  · exact .inl rfl
  split
  · split
    · exact .inl rfl
    split
    · exact .inl rfl
    exact .inr ⟨_,rfl⟩
  · exact .inl rfl

theorem backendStep_spares (s : BackendState) {call : BackendCall} (spared : call.Spares ptr) :
    SameFor ptr s (backendStep s call) := by
  cases call with
  | put env other value hash =>
    rcases akBackendPut_cases env other value hash s with unchanged | ⟨content,written⟩
    · rw [backendStep,unchanged]
      exact ⟨rfl,rfl,rfl⟩
    · rw [backendStep,written]
      exact akProxyFsWrite_spares content s spared
  | delete env other =>
    rcases akBackendDelete_cases env other s with unchanged | ⟨content,written⟩
    · rw [backendStep,unchanged]
      exact ⟨rfl,rfl,rfl⟩
    · rw [backendStep,written]
      exact akProxyFsWrite_spares content s spared

theorem SameFor.trans {s' s'' : BackendState} (first : SameFor ptr s s') (second : SameFor ptr s' s'') :
    SameFor ptr s s'' :=
  ⟨second.initialized.trans first.initialized,second.backend.trans first.backend,second.file.trans first.file⟩

theorem backend_run_spares (s : BackendState) {calls : List BackendCall} (spared : ∀ call ∈ calls, call.Spares ptr)
    : SameFor ptr s (run backendStep s calls) :=
  invariant_run (fun state _ fine same => same.trans (backendStep_spares state fine)) s calls
    (guarded_of_all s spared) ⟨rfl,rfl,rfl⟩

/-- What was stored last under a pointer is what a read of it gives, whatever was
stored elsewhere since, and whatever a read gives has passed its hash. -/
theorem stored_objects_unchanged (s : BackendState) :
    (∀ (env : PutEnv) (ptr : UInt64) (value : Bytes) (hash : Option Bytes), value.length ≤ akDecompressMaxSize →
      (akBackendPut env ptr (some value) hash s).2 = 0 →
      ∀ later : List BackendCall, (∀ call ∈ later, call.Spares ptr) → ∀ get : GetEnv, get.Served →
        akBackendGet get ptr (run backendStep (akBackendPut env ptr (some value) hash s).1 later) = some value) ∧
    ∀ (get : GetEnv) (ptr : UInt64) (value : Bytes), akBackendGet get ptr s = some value →
      ∃ content record, s.files (virtioObjectPath ptr) = some content ∧ unhexBytes content = some record ∧
        1 + akHashSize ≤ record.length ∧ slice record 1 akHashSize = computeHash (record.drop (1 + akHashSize)) := by
  constructor
  · intro env ptr value hash limit stored later spared get served
    obtain ⟨ready,kind,state⟩ := akBackendPut_success stored
    have same := backend_run_spares (akBackendPut env ptr (some value) hash s).1 spared
    generalize run backendStep (akBackendPut env ptr (some value) hash s).1 later = final at same
    rw [state] at same
    have ready' : final.initialized = true := same.initialized.trans ready
    have kind' : final.backend = .virtio := same.backend.trans kind
    have file := same.file.trans (akProxyFsWrite_file _ _ s)
    unfold akBackendGet
    rw [if_neg (by simp [ready',kind']),kind']
    rw [if_neg (by rw [served.connected]; decide),if_neg (not_lt.mpr served.answered),file,Option.bind_some]
    have long : 1 + akHashSize ≤ (storedRecord (toStore s.compressionEnabled env.compressAlloc value)).length := by
      rw [storedRecord,List.length_cons,List.length_append,computeHash_length]
      omega
    rw [readContent,hexBytes_length,if_neg (by omega),if_neg (by rw [served.record]; decide),unhexBytes_hexBytes,
      Option.bind_some]
    exact openRecord_storedRecord served _ _ limit
  · intro get ptr value read
    unfold akBackendGet at read
    split at read
    · contradiction
    split at read
    · split at read
      · contradiction
      split at read
      · contradiction
      obtain ⟨content,file,given⟩ := Option.bind_eq_some_iff.mp read
      obtain ⟨record,decoded,long,checked⟩ := readContent_checked given
      exact ⟨content,record,file,decoded,long,checked⟩
    · contradiction

/-- A hundred zeros, compressed on the way. -/
theorem zeros_come_back :
    akBackendGet ⟨true,0,true,true,true,true⟩ 7 (run backendStep
      (akBackendPut ⟨true,true,true,0⟩ 7 (some (List.replicate 100 0)) (some []) ⟨true,.virtio,true,fun _ => none⟩).1
      [.put ⟨true,true,true,0⟩ 8 (some [1,2,3]) (some []),.delete ⟨true,true,true,-1⟩ 7]) =
        some (List.replicate 100 0) :=
  (stored_objects_unchanged ⟨true,.virtio,true,fun _ => none⟩).1 ⟨true,true,true,0⟩ 7 (List.replicate 100 0) (some [])
    (by decide) rfl _ (by
      intro call member
      rcases List.mem_cons.mp member with rfl | later
      · exact .inl (by decide)
      · rw [List.mem_singleton.mp later]
        exact .inr (by decide)) _ ⟨rfl,by decide,rfl,rfl,rfl,rfl⟩

end AuthorityKernel.State
