import AuthorityKernel.Wasm.HostCalls

/-! Secrets for tools. The table of preloaded secrets is keyed by pointers, so a name preloaded again
stands in it twice, and every backend answers with the first entry of the walk. -/
namespace AuthorityKernel.Wasm.HostCalls
open Library Capability

inductive SecretBackend
  | env
  | file
  | virtio

/-- `preloaded` is in the order of the preloads. -/
structure Secrets where
  preloaded : List (CString × Bytes)
  backend : SecretBackend
  virtioFd : Int

/-- The channel of the virtio backend is closed. -/
def Secrets.Closed (s : Secrets) : Prop := s.backend = .virtio ∧ s.virtioFd < 0

/-- An order in which the table can be walked. -/
abbrev Secrets.Walk (s : Secrets) := { walk : List (CString × Bytes) // walk.Perm s.preloaded }

-- the key is the name with its terminator; `runtime_strncmp` stops at a NUL of both
def keyMatches (name : CString) (ref : Bytes) : Bool :=
  let key := name.1 ++ [0]
  ref.length ≤ key.length && cstr (key.take ref.length) == cstr ref &&
    (key.length == ref.length || key[ref.length]? == some 0)

def resolveFromPreloaded (walk : List (CString × Bytes)) (ref : Bytes) : Option Bytes :=
  (walk.find? fun entry => keyMatches entry.1 ref).map Prod.snd

def akSecretCheckCap (cap : Option AkCapability) (ref : Bytes) : Bool :=
  match cap with
  | none => false
  | some cap => cap.type = .secrets && akPatternMatch (.ofBuffer cap.resource) (.ofBuffer (ref.take 256))

def akSecretResolve (s : Secrets) (walk : s.Walk) (ref : Bytes) (cap : Option AkCapability) : Option Bytes :=
  if ref.length = 0 then none
  else if cap.isSome && !akSecretCheckCap cap ref then none
  else match s.backend with
    | .env | .file => resolveFromPreloaded walk.1 ref
    | .virtio => if s.virtioFd < 0 then none else resolveFromPreloaded walk.1 ref

/-- `cap` is the capability of the execution, `held` the agent's table of capabilities as it is walked. -/
structure SecretCall where
  env : HostEnv
  agent : ExecAgent
  cap : Option AkCapability
  held : List AkCapability
  args : Option Bytes
  caps : CapState

def SecretCall.validated (call : SecretCall) (cap : Option AkCapability) (name : Bytes) : CapState × Int :=
  validateHostCap call.env.validate (some ⟨some call.agent,cap⟩) .secrets (.ofBuffer name) "get" call.caps

def SecretCall.asked (call : SecretCall) : Option Bytes := call.args.bind (parseJsonString (ascii "name"))

/-- The capability that is passed on: the first for secrets in the agent's table. -/
def SecretCall.passed (call : SecretCall) : Option AkCapability := call.held.find? (·.type = .secrets)

def akHostSecretGet (s : Secrets) (walk : s.Walk) (call : SecretCall) : CapState × Except Int Bytes :=
  match call.asked with
  | none => (call.caps,.error akESchemaInvalid)
  | some name =>
    if name.length = 0 ∨ name.length ≥ 128 then (call.caps,.error akESchemaInvalid)
    else
      let check := call.validated call.cap name
      if check.2 ≠ 0 then (check.1,.error check.2)
      else match akSecretResolve s walk name call.passed with
        | none => (check.1,.error akEToolFail)
        | some value => (check.1,createJsonResult call.env.resultAlloc "value" value)

/-- Some capability of the agent is good for the name; that of the execution counts as one. -/
def SecretCall.Covered (call : SecretCall) (ref : Bytes) : Prop :=
  ∃ cap ∈ call.cap.toList ++ call.held, (call.validated (some cap) ref).2 = 0

/-- In whatever order the secrets are walked, the call succeeds exactly if the name is covered,
and then with the value preloaded last. -/
def Resolved (s : Secrets) (call : SecretCall) (ref : Bytes) : Prop :=
  ∀ walk : s.Walk, ((akHostSecretGet s walk call).2.isOk ↔ call.Covered ref) ∧
    ∀ entry result, s.preloaded.reverse.find? (·.1.1 = ref) = some entry → (akHostSecretGet s walk call).2 = .ok result →
      .ok result = createJsonResult true "value" entry.2

/-- The execution's own capability covers the name, so does the first of the agent's for
secrets, if it has any, and every preload of the name was of one value. -/
structure Served (s : Secrets) (call : SecretCall) (ref : Bytes) : Prop where
  fits : 0 < ref.length ∧ ref.length < 128
  granted : (call.validated call.cap ref).2 = 0
  passed : ∀ cap, call.passed = some cap → akSecretCheckCap (some cap) ref = true
  reachable : ¬ s.Closed
  single : ∀ entry ∈ s.preloaded, ∀ other ∈ s.preloaded, entry.1.1 = ref → other.1.1 = ref → entry.2 = other.2

variable {s : Secrets} {call : SecretCall}

/-- Of strings the key matches its own name only. -/
theorem keyMatches_iff (key ref : CString) : keyMatches key ref.1 = true ↔ key = ref := by
  constructor
  · intro matched
    simp only [keyMatches,Bool.and_eq_true,Bool.or_eq_true,beq_iff_eq,decide_eq_true_eq,cstr_take] at matched
    obtain ⟨⟨_,same⟩,ends⟩ := matched
    have stored : cstr (key.1 ++ [0]) = key.1 := by
      have nonzero : ∀ byte ∈ key.1, (byte != 0) = true := by
        intro byte member
        exact bne_iff_ne.mpr fun zero => key.2 (zero ▸ member)
      rw [cstr,List.takeWhile_append_of_pos nonzero]
      simp
    rw [stored,cstr_of_nul_free ref.2] at same
    have shorter : ref.1.length ≤ key.1.length := by
      rw [← same,List.length_take]
      exact Nat.min_le_right _ _
    rcases Nat.lt_or_eq_of_le shorter with inside | whole
    · -- the byte behind the match is one of the name
      rw [List.getElem?_append_left inside,List.getElem?_eq_getElem inside] at ends
      rcases ends with length | zero
      · simp only [List.length_append,List.length_singleton] at length
        omega
      · have inner := List.getElem_mem inside
        rw [Option.some.inj zero] at inner
        exact absurd inner key.2
    · rw [whole,List.take_length] at same
      exact Subtype.ext same
  · rintro rfl
    simp [keyMatches]

variable {walk : s.Walk} {ref : Bytes}

theorem akSecretResolve_some_iff {cap : Option AkCapability} {value : Bytes} :
    akSecretResolve s walk ref cap = some value ↔ ref ≠ [] ∧ (∀ held, cap = some held → akSecretCheckCap cap ref = true) ∧
      ¬ s.Closed ∧ resolveFromPreloaded walk.1 ref = some value := by
  unfold akSecretResolve Secrets.Closed
  by_cases empty : ref = []
  · simp [empty]
  rw [if_neg (by simpa using empty)]
  by_cases refused : (cap.isSome && !akSecretCheckCap cap ref) = true
  · rw [if_pos refused]
    cases cap with
    | none => contradiction
    | some held => simp_all
  rw [if_neg refused]
  have passes : ∀ held, cap = some held → akSecretCheckCap cap ref = true := by
    rintro held rfl
    simpa using refused
  rw [iff_true_intro passes]
  cases s.backend <;> simp [empty]

theorem akHostSecretGet_ok_iff (memory : call.env.resultAlloc = true) (asks : call.asked = some ref) {result : Bytes} :
    (akHostSecretGet s walk call).2 = .ok result ↔ (0 < ref.length ∧ ref.length < 128) ∧
      (call.validated call.cap ref).2 = 0 ∧ ∃ value, akSecretResolve s walk ref call.passed = some value ∧
        createJsonResult true "value" value = .ok result := by
  rw [akHostSecretGet,asks]
  dsimp only
  split
  · rename_i unfit
    exact iff_of_false (by simp) fun all => by omega
  rename_i fits
  split
  · rename_i refused
    exact iff_of_false (by simp) fun all => refused all.2.1
  rename_i granted
  have bounds : 0 < ref.length ∧ ref.length < 128 := by omega
  cases resolved : akSecretResolve s walk ref call.passed with
  | none => simp
  | some value => simp [bounds,not_not.mp granted,memory]

theorem createJsonResult_injective {key : String} {value other : Bytes}
    (same : createJsonResult true key value = createJsonResult true key other) : value = other := by
  simpa [createJsonResult] using same

theorem SecretCall.covered_of_granted (granted : (call.validated call.cap ref).2 = 0) : call.Covered ref := by
  cases held : call.cap with
  | none =>
    rw [held] at granted
    exact absurd granted (show akECapMissing ≠ 0 by decide)
  | some cap => exact ⟨cap,by simp [held],held ▸ granted⟩

/-- Any entry of the name can stand first in the table. -/
theorem exists_walk {entry : CString × Bytes} (member : entry ∈ s.preloaded) :
    ∃ walk : s.Walk, resolveFromPreloaded walk.1 entry.1.1 = some entry.2 := by
  refine ⟨⟨entry :: s.preloaded.erase entry,(List.perm_cons_erase member).symm⟩,?_⟩
  have own : keyMatches entry.1 entry.1.1 = true := (keyMatches_iff _ _).mpr rfl
  simp [resolveFromPreloaded,own]

theorem resolveFromPreloaded_listed (walk : s.Walk) {ref : CString} (known : ∃ entry ∈ s.preloaded, entry.1 = ref) :
    ∃ entry ∈ s.preloaded, entry.1 = ref ∧ resolveFromPreloaded walk.1 ref.1 = some entry.2 := by
  obtain ⟨entry,member,rfl⟩ := known
  have found : (walk.1.find? fun other => keyMatches other.1 entry.1.1).isSome := by
    rw [List.find?_isSome]
    exact ⟨entry,walk.2.mem_iff.mpr member,(keyMatches_iff _ _).mpr rfl⟩
  obtain ⟨first,found⟩ := Option.isSome_iff_exists.mp found
  refine ⟨first,walk.2.mem_iff.mp (List.mem_of_find?_eq_some found),?_,by rw [resolveFromPreloaded,found]; rfl⟩
  exact (keyMatches_iff _ _).mp (List.find?_some (p := fun other : CString × Bytes => keyMatches other.1 entry.1.1) found)

theorem host_resolved_iff {ref : CString} (memory : call.env.resultAlloc = true)
    (asks : call.asked = some ref.1) (known : ∃ entry ∈ s.preloaded, entry.1 = ref) :
    Resolved s call ref.1 ↔ ¬ call.Covered ref.1 ∨ Served s call ref.1 := by
  have answers {walk : s.Walk} : (akHostSecretGet s walk call).2.isOk ↔ ∃ result, (akHostSecretGet s walk call).2 = .ok result := by
    cases (akHostSecretGet s walk call).2 <;> simp [Except.isOk,Except.toBool]
  have values (value : Bytes) : ∃ result, createJsonResult true "value" value = .ok result := ⟨_,rfl⟩
  constructor
  · intro resolved
    by_cases covered : call.Covered ref.1
    · right
      obtain ⟨_,ok⟩ := answers.mp ((resolved ⟨s.preloaded,.refl _⟩).1.mpr covered)
      obtain ⟨fits,granted,_,answer,_⟩ := (akHostSecretGet_ok_iff memory asks).mp ok
      obtain ⟨named,passed,reachable,_⟩ := akSecretResolve_some_iff.mp answer
      have latest : (s.preloaded.reverse.find? (·.1.1 = ref.1)).isSome := by
        obtain ⟨entry,member,same⟩ := known
        rw [List.find?_isSome]
        exact ⟨entry,List.mem_reverse.mpr member,by simp [same]⟩
      obtain ⟨latest,last⟩ := Option.isSome_iff_exists.mp latest
      have single : ∀ entry ∈ s.preloaded, entry.1.1 = ref.1 → entry.2 = latest.2 := by
        intro entry member same
        obtain ⟨walk,first⟩ := exists_walk member
        rw [same] at first
        obtain ⟨result,text⟩ := values entry.2
        have ok := (akHostSecretGet_ok_iff memory asks).mpr
          ⟨fits,granted,entry.2,akSecretResolve_some_iff.mpr ⟨named,passed,reachable,first⟩,text⟩
        exact createJsonResult_injective (text.trans ((resolved walk).2 latest result last ok))
      refine ⟨fits,granted,fun cap held => held ▸ passed cap held,reachable,fun entry member other member' same same' => ?_⟩
      rw [single entry member same,single other member' same']
    · exact .inl covered
  · rintro (uncovered | served) walk
    · have failed : ∀ result, (akHostSecretGet s walk call).2 ≠ .ok result := fun result ok =>
        uncovered (call.covered_of_granted ((akHostSecretGet_ok_iff memory asks).mp ok).2.1)
      refine ⟨iff_of_false (fun ok => ?_) uncovered,fun _ result _ ok => absurd ok (failed result)⟩
      obtain ⟨result,ok⟩ := answers.mp ok
      exact failed result ok
    · obtain ⟨entry,member,same,first⟩ := resolveFromPreloaded_listed walk known
      have named : ref.1 ≠ [] := List.length_pos_iff.mp served.fits.1
      have answer : akSecretResolve s walk ref.1 call.passed = some entry.2 :=
        akSecretResolve_some_iff.mpr ⟨named,fun cap held => held ▸ served.passed cap held,served.reachable,first⟩
      refine ⟨iff_of_true (answers.mpr ?_) (call.covered_of_granted served.granted),fun latest result last ok => ?_⟩
      · obtain ⟨result,text⟩ := values entry.2
        exact ⟨result,(akHostSecretGet_ok_iff memory asks).mpr ⟨served.fits,served.granted,entry.2,answer,text⟩⟩
      · obtain ⟨_,_,value,other,text⟩ := (akHostSecretGet_ok_iff memory asks).mp ok
        obtain rfl := Option.some.inj (answer.symm.trans other)
        have listed := List.mem_reverse.mp (List.mem_of_find?_eq_some last)
        have own : latest.1.1 = ref.1 := by simpa using List.find?_some last
        rw [← text,served.single entry member latest listed (congrArg Subtype.val same) own]

def AlwaysChecked (s : Secrets) (ref : Bytes) (cap : Option AkCapability) : Prop :=
  ∀ (walk : s.Walk) value, akSecretResolve s walk ref cap = some value → akSecretCheckCap cap ref = true

theorem alwaysChecked_iff (s : Secrets) (ref : Bytes) (cap : Option AkCapability) : AlwaysChecked s ref cap ↔
    cap.isSome = true ∨ ref = [] ∨ s.Closed ∨ ∀ entry ∈ s.preloaded, keyMatches entry.1 ref = false := by
  cases cap with
  | some held => exact iff_of_true (fun walk value answer => (akSecretResolve_some_iff.mp answer).2.1 held rfl) (.inl rfl)
  | none =>
    constructor
    · intro never
      by_contra open'
      simp only [not_or,not_forall,Bool.not_eq_false] at open'
      obtain ⟨_,named,reachable,entry,member,matched⟩ := open'
      have found : (s.preloaded.find? fun other => keyMatches other.1 ref).isSome :=
        List.find?_isSome.mpr ⟨entry,member,matched⟩
      obtain ⟨first,found⟩ := Option.isSome_iff_exists.mp found
      have answer : akSecretResolve s ⟨s.preloaded,.refl _⟩ ref none = some first.2 :=
        akSecretResolve_some_iff.mpr ⟨named,nofun,reachable,by rw [resolveFromPreloaded,found]; rfl⟩
      exact Bool.false_ne_true (never _ _ answer)
    · rintro condition walk value answer
      obtain ⟨named,_,reachable,resolved⟩ := akSecretResolve_some_iff.mp answer
      obtain ⟨first,found,_⟩ := Option.map_eq_some_iff.mp resolved
      rcases condition with given | empty | closed | unknown
      · contradiction
      · exact absurd empty named
      · exact absurd closed reachable
      · have listed := walk.2.mem_iff.mp (List.mem_of_find?_eq_some found)
        exact absurd (List.find?_some found) (Bool.eq_false_iff.mp (unknown first listed))

def oneSecret : Secrets := ⟨[(name "B",[1])],.env,0⟩

theorem star_fits : (name "*").1.length < 255 := by decide

def anySecret : AkCapability := bootToken 4 (name "*") star_fits

def secretA : AkCapability := bootToken 4 (name "A") (by decide)

def secretCall (held : List AkCapability) : SecretCall :=
  ⟨plainHost [],⟨0,Block.zero 16⟩,some anySecret,held,some (ascii "\x7b\"name\":\"B\"\x7d"),firstCaps⟩

variable (held : List AkCapability)

theorem secretCall_asks : (secretCall held).asked = some (name "B").1 := by
  rw [SecretCall.asked,secretCall,Option.bind_some]
  decide +kernel

theorem oneSecret_known : ∃ entry ∈ oneSecret.preloaded, entry.1 = name "B" := ⟨_,List.mem_singleton_self _,rfl⟩

theorem secretCall_granted : ((secretCall held).validated (some anySecret) (name "B").1).2 = 0 :=
  bootToken_granted (by decide) (by decide) _ rfl (Glob.denotes_lone_star _)

theorem secretCall_served_iff : Served oneSecret (secretCall held) (name "B").1 ↔
    ∀ cap, held.find? (·.type = .secrets) = some cap → akSecretCheckCap (some cap) (name "B").1 = true := by
  constructor
  · intro served
    exact served.passed
  · intro passed
    refine ⟨by decide,secretCall_granted held,passed,nofun,?_⟩
    intro entry member other member' _ _
    rw [List.mem_singleton.mp member,List.mem_singleton.mp member']

end AuthorityKernel.Wasm.HostCalls
