import AuthorityKernel.Capability.Metering
import AuthorityKernel.Dispatch.Handlers
import AuthorityKernel.Wasm.Interp
import AuthorityKernel.Wasm.Tools

/-! Running a tool for a call: look it up, check the capability a second time, and
interpret its module. -/
namespace AuthorityKernel.Wasm.Tools
open Library Capability Dispatch Heap

/-- What the host functions do during a run: their codes, the checks they make of the
execution's capability, and what they leave of the heap. -/
structure HostRun where
  codes : Host
  checks : List Check
  heap : HeapState → HeapState

structure ExecuteEnv where
  validate : ValidateEnv
  contextAlloc : Bool
  responseAlloc : Bool
  interp : InterpMemory
  registry : Registry
  host : HostRun

/-- A module that is no longer loaded is read from memory that has been freed; the model
treats it as the missing module it should be. -/
def toolModule (state : WasmState) (tool : AkTool) : Option WasmModule :=
  tool.moduleRef.bind fun address => state.modules.find? (·.address == address)

def akWasmExecRun (env : ExecuteEnv) (state : WasmState) (tool : AkTool) (input : Bytes) : Except Int Bytes :=
  match toolModule state tool with
  | none => .error akEWasmInvalidModule
  | some loaded =>
    (akWasmInterpRun env.interp env.registry env.host.codes loaded.bytecode tool.exportName (some input)
      loaded.maxInstructions).outcome.map Prod.fst

def toolRequest (tool : AkTool) (runId : TokenId) : Capability.Request :=
  ⟨tool.capType,tool.capResource,some tool.name,some runId⟩

def toolCheck (env : ExecuteEnv) (tool : AkTool) (runId : TokenId) (cap : Option AkCapability) (caps : CapState) :
    CapState × Int :=
  if tool.capType = CapType.none then (caps,0) else akCapabilityValidate env.validate cap (toolRequest tool runId) caps

def akWasmExecuteTool (env : ExecuteEnv) (state : WasmState) (runId : TokenId) (toolName : CString) (args : Bytes)
    (cap : Option AkCapability) (heap : HeapState) (caps : CapState) : ToolRun :=
  if !state.initialized then ⟨heap,caps,akResponseError env.responseAlloc none akEWasmLoadFailed⟩
  else match akToolGet toolName state with
    | none => ⟨heap,caps,akResponseError env.responseAlloc none akEToolNotFound⟩
    | some tool =>
      let check := toolCheck env tool runId cap caps
      if check.2 ≠ 0 then ⟨heap,check.1,akResponseError env.responseAlloc none check.2⟩
      else if !env.contextAlloc then ⟨heap,check.1,akResponseError env.responseAlloc none akEWasmOom⟩
      else
        ⟨env.host.heap heap,env.host.checks.foldl (recheck cap) check.1,
          match akWasmExecRun env state tool args with
          | .ok output => akResponseSuccess env.responseAlloc none (some output)
          | .error code => akResponseError env.responseAlloc none code⟩

/-- The checks that a run makes of the capability: the tool's own, and those of the host
functions if it gets so far. -/
def executeChecks (env : ExecuteEnv) (state : WasmState) (runId : TokenId) (toolName : CString) (cap : Option AkCapability)
    (caps : CapState) : List Check :=
  if !state.initialized then []
  else match akToolGet toolName state with
    | none => []
    | some tool =>
      (if tool.capType = CapType.none then [] else [⟨env.validate,toolRequest tool runId⟩]) ++
        if (toolCheck env tool runId cap caps).2 = 0 ∧ env.contextAlloc = true then env.host.checks else []

/-- The tool is registered, the capability good for it, and its run completes. -/
def Completes (env : ExecuteEnv) (state : WasmState) (runId : TokenId) (toolName : CString) (args : Bytes)
    (cap : Option AkCapability) (caps : CapState) : Prop :=
  state.initialized = true ∧ ∃ tool, akToolGet toolName state = some tool ∧ (toolCheck env tool runId cap caps).2 = 0 ∧
    env.contextAlloc = true ∧ ∃ output, akWasmExecRun env state tool args = .ok output

variable {answer : AkResponse} {alloc : Bool} {req : Option AkRequest}

theorem akResponseError_failed {code : Int} (answered : akResponseError alloc req code = some answer)
    : answer.status ≠ .ok := by
  unfold akResponseError at answered
  split at answered
  · cases answered
    nofun
  · contradiction

theorem akResponseSuccess_ok {result : Option Bytes} (answered : akResponseSuccess alloc req result = some answer)
    : answer.status = .ok := by
  unfold akResponseSuccess at answered
  split at answered
  · cases answered
    rfl
  · contradiction

section

variable (env : ExecuteEnv) (state : WasmState) (runId : TokenId) (toolName : CString) (args : Bytes)

variable (cap : Option AkCapability) (heap : HeapState) (caps : CapState)

theorem akWasmExecuteTool_success_iff (answer : AkResponse)
    (answered : (akWasmExecuteTool env state runId toolName args cap heap caps).response = some answer) :
    answer.status = .ok ↔ Completes env state runId toolName args cap caps := by
  unfold akWasmExecuteTool at answered
  unfold Completes
  split at answered
  · rename_i unready
    refine iff_of_false (akResponseError_failed answered) fun completes => ?_
    simp [completes.1] at unready
  rename_i ready
  rw [Bool.not_eq_true,Bool.not_eq_false'] at ready
  split at answered
  · rename_i missing
    refine iff_of_false (akResponseError_failed answered) ?_
    rintro ⟨_,tool,found,_⟩
    rw [missing] at found
    contradiction
  rename_i tool found
  -- the tool that is found is the only candidate
  have only : ∀ other, akToolGet toolName state = some other → other = tool :=
    fun other same => Option.some.inj (same.symm.trans found)
  dsimp only at answered
  split at answered
  · rename_i refused
    refine iff_of_false (akResponseError_failed answered) ?_
    rintro ⟨_,other,same,granted,_⟩
    exact refused (only other same ▸ granted)
  rename_i granted
  split at answered
  · rename_i full
    refine iff_of_false (akResponseError_failed answered) ?_
    rintro ⟨_,_,_,_,room,_⟩
    simp [room] at full
  rename_i room
  rw [Bool.not_eq_true,Bool.not_eq_false'] at room
  cases ran : akWasmExecRun env state tool args with
  | error code =>
    simp only [ran] at answered
    refine iff_of_false (akResponseError_failed answered) ?_
    rintro ⟨_,other,same,_,_,output,completed⟩
    rw [only other same,ran] at completed
    contradiction
  | ok output =>
    simp only [ran] at answered
    exact iff_of_true (akResponseSuccess_ok answered) ⟨ready,tool,found,not_not.mp granted,room,output,ran⟩

theorem akWasmExecuteTool_answers :
    (akWasmExecuteTool env state runId toolName args cap heap caps).response.isSome = env.responseAlloc := by
  have failed : ∀ code, (akResponseError env.responseAlloc none code).isSome = env.responseAlloc := by
    intro code
    cases env.responseAlloc <;> rfl
  unfold akWasmExecuteTool
  split
  · exact failed _
  split
  · exact failed _
  dsimp only
  split
  · exact failed _
  split
  · exact failed _
  split
  · unfold akResponseSuccess
    cases env.responseAlloc <;> rfl
  · exact failed _

theorem akWasmExecuteTool_caps :
    (akWasmExecuteTool env state runId toolName args cap heap caps).caps =
      (executeChecks env state runId toolName cap caps).foldl (recheck cap) caps := by
  unfold akWasmExecuteTool executeChecks
  split
  · rfl
  split
  · rfl
  rename_i tool _
  have first : (toolCheck env tool runId cap caps).1 =
      (if tool.capType = CapType.none then [] else [(⟨env.validate,toolRequest tool runId⟩ : Check)]).foldl
        (recheck cap) caps := by
    unfold toolCheck
    split <;> rfl
  rw [List.foldl_append,← first]
  dsimp only
  split
  · rename_i refused
    rw [if_neg fun both => refused both.1]
    rfl
  rename_i granted
  cases env.contextAlloc with
  | false => simp
  | true => simp [not_not.mp granted]

theorem executeChecks_env {check : Check}
    (member : check ∈ executeChecks env state runId toolName cap caps) :
    check.env = env.validate ∨ check ∈ env.host.checks := by
  unfold executeChecks at member
  split at member
  · contradiction
  split at member
  · contradiction
  rcases List.mem_append.mp member with own | host
  · split at own
    · contradiction
    · exact .inl (by rw [List.mem_singleton.mp own])
  · split at host
    · exact .inr host
    · contradiction

end

end AuthorityKernel.Wasm.Tools
