import AuthorityKernel.Capability.Token
import AuthorityKernel.Library.Run
import AuthorityKernel.Wasm.Module
import Mathlib.Data.List.TakeDrop

/-! The registries of loaded modules and of tools. A tool refers to a module that may be
unloaded behind its back, and is stored under a name that may be shorter than the one it
is asked for. -/
namespace AuthorityKernel.Wasm.Tools
open Library Library.Run Capability

def copied (size : Nat) (text : CString) : CString :=
  ⟨text.1.take (size - 1),fun member => text.2 (List.mem_of_mem_take member)⟩

def akMaxWasmModules : Nat := 64
def akMaxTools : Nat := 256
def akWasmDefaultMaxInstructions : Nat := 100 * 1000 * 1000

/-- Records are known by the number of their allocation, which stands for their address. -/
structure WasmModule where
  address : Nat
  name : CString
  bytecode : Bytes
  maxInstructions : Nat

structure AkTool where
  address : Nat
  name : CString
  moduleRef : Option Nat
  exportName : CString
  capType : CapType
  capResource : CString

structure WasmState where
  initialized : Bool
  modules : List WasmModule
  tools : List AkTool
  allocated : Nat

def akWasmInit : WasmState := ⟨true,[],[],0⟩

def validateWasmHeader (bytecode : Bytes) : Bool :=
  8 ≤ bytecode.length && leNat (bytecode.take 4) == inWasmMagic && leNat ((bytecode.drop 4).take 4) == inWasmVersion

structure LoadMemory where
  record : Bool
  bytecode : Bool

def akWasmModuleLoad (memory : LoadMemory) (name : CString) (bytecode : Bytes) (state : WasmState) :
    WasmState × Option Nat :=
  if !state.initialized || akMaxWasmModules ≤ state.modules.length || !validateWasmHeader bytecode ||
      !memory.record || !memory.bytecode then (state,none)
  else
    let loaded : WasmModule := ⟨state.allocated,copied 64 name,bytecode,akWasmDefaultMaxInstructions⟩
    ({ state with modules := state.modules ++ [loaded], allocated := state.allocated + 1 },some loaded.address)

/-- `genuine` says that the key is trusted and the signature is the one of the bytecode. -/
def akWasmModuleLoadVerified (genuine : Bool) (memory : LoadMemory) (name : CString) (bytecode : Bytes)
    (state : WasmState) : WasmState × Option Nat :=
  if !genuine then (state,none) else akWasmModuleLoad memory name bytecode state

/-- The tools are not looked at. -/
def akWasmModuleUnload (ref : Option Nat) (state : WasmState) : WasmState :=
  match ref with
  | none => state
  | some address => { state with modules := state.modules.eraseP (·.address == address) }

def akToolGet (name : CString) (state : WasmState) : Option AkTool := state.tools.find? (·.name == name)

def akToolRegister (memory : Bool) (name : CString) (moduleRef : Option Nat) (exportName : CString) (capType : CapType)
    (capResource : Option CString) (state : WasmState) : WasmState × Int :=
  if !state.initialized then (state,akEWasmLoadFailed)
  else if akMaxTools ≤ state.tools.length then (state,akEQuotaExceeded)
  else if (akToolGet name state).isSome then (state,akEConflict)
  else if !memory then (state,akEWasmOom)
  else
    let tool : AkTool :=
      ⟨state.allocated,copied 64 name,moduleRef,copied 64 exportName,capType,
        (capResource.map (copied 256)).getD .empty⟩
    ({ state with tools := state.tools ++ [tool], allocated := state.allocated + 1 },0)

def akToolUnregister (name : CString) (state : WasmState) : WasmState :=
  { state with tools := state.tools.eraseP (·.name == name) }

inductive RegistryCall
  | load (memory : LoadMemory) (name : CString) (bytecode : Bytes)
  | loadVerified (genuine : Bool) (memory : LoadMemory) (name : CString) (bytecode : Bytes)
  | unload (ref : Option Nat)
  | register (memory : Bool) (name : CString) (moduleRef : Option Nat) (exportName : CString) (capType : CapType)
      (capResource : Option CString)
  | unregister (name : CString)

def perform (state : WasmState) : RegistryCall → WasmState
  | .load memory name bytecode => (akWasmModuleLoad memory name bytecode state).1
  | .loadVerified genuine memory name bytecode => (akWasmModuleLoadVerified genuine memory name bytecode state).1
  | .unload ref => akWasmModuleUnload ref state
  | .register memory name moduleRef exportName capType capResource =>
    (akToolRegister memory name moduleRef exportName capType capResource state).1
  | .unregister name => akToolUnregister name state

/-- The registries with the name each tool was registered under, by the tool's address. -/
structure Noted where
  state : WasmState
  given : Nat → Option CString

/-- The name is noted for the record allocated next; a call that registers nothing leaves
that record to a later one, which notes its own name. -/
def step (noted : Noted) (call : RegistryCall) : Noted where
  state := perform noted.state call
  given := match call with
    | .register _ name _ _ _ _ => Function.update noted.given noted.state.allocated (some name)
    | _ => noted.given

def start : Noted := ⟨akWasmInit,fun _ => none⟩

def Loaded (state : WasmState) (ref : Option Nat) : Prop := ∃ loaded ∈ state.modules, ref = some loaded.address

/-- Names are distinct, every tool is found by the name it was registered under, and its
module is loaded. -/
structure Runnable (noted : Noted) : Prop where
  distinct : (noted.state.tools.map AkTool.name).Nodup
  found : ∀ tool ∈ noted.state.tools, ∃ name, noted.given tool.address = some name ∧
    akToolGet name noted.state = some tool
  loaded : ∀ tool ∈ noted.state.tools, Loaded noted.state tool.moduleRef

def Registers (memory : Bool) (name : CString) (state : WasmState) : Prop :=
  state.tools.length < akMaxTools ∧ akToolGet name state = none ∧ memory = true

/-- A tool is registered under a name that fits, for a loaded module, and a module is
unloaded when no tool refers to it. -/
def Careful (noted : Noted) : RegistryCall → Prop
  | .register memory name moduleRef _ _ _ =>
    Registers memory name noted.state → name.1.length < 64 ∧ Loaded noted.state moduleRef
  | .unload ref => ∀ tool ∈ noted.state.tools, ref.isSome → tool.moduleRef ≠ ref
  | _ => True

variable {tool : AkTool} {memory : Bool} {name : CString} {noted : Noted} {state : WasmState}

theorem akToolGet_name (got : akToolGet name state = some tool) : tool.name = name := by
  have same := List.find?_some got
  exact eq_of_beq same

theorem akToolGet_of_mem (distinct : (state.tools.map AkTool.name).Nodup) (member : tool ∈ state.tools) :
    akToolGet tool.name state = some tool := by
  cases got : akToolGet tool.name state with
  | none =>
    have differs := List.find?_eq_none.mp got tool member
    simp at differs
  | some other =>
    have present := List.mem_of_find?_eq_some got
    rw [List.inj_on_of_nodup_map distinct present member (akToolGet_name got)]

structure Numbered (noted : Noted) : Prop where
  ready : noted.state.initialized = true
  modules : (noted.state.modules.map WasmModule.address).Nodup
  oldModules : ∀ loaded ∈ noted.state.modules, loaded.address < noted.state.allocated
  oldTools : ∀ tool ∈ noted.state.tools, tool.address < noted.state.allocated

theorem akWasmModuleLoad_cases (memory : LoadMemory) (name : CString) (bytecode : Bytes) (state : WasmState) :
    (akWasmModuleLoad memory name bytecode state).1 = state ∨
    ∃ loaded : WasmModule, loaded.address = state.allocated ∧ (akWasmModuleLoad memory name bytecode state).1 =
      { state with modules := state.modules ++ [loaded], allocated := state.allocated + 1 } := by
  unfold akWasmModuleLoad
  split
  · exact .inl rfl
  · exact .inr ⟨_,rfl,rfl⟩

theorem load_numbered (numbered : Numbered noted) (loaded : WasmModule) (new : loaded.address = noted.state.allocated) :
    Numbered { noted with
      state := { noted.state with modules := noted.state.modules ++ [loaded], allocated := noted.state.allocated + 1 } } := by
  refine ⟨numbered.ready,?_,?_,fun tool member => Nat.lt_succ_of_lt (numbered.oldTools tool member)⟩
  · simp only [List.map_append,List.map_cons,List.map_nil]
    refine List.nodup_append.mpr ⟨numbered.modules,List.nodup_singleton _,?_⟩
    rintro address old other new' rfl
    obtain ⟨earlier,member,rfl⟩ := List.mem_map.mp old
    rw [List.mem_singleton,new] at new'
    exact Nat.lt_irrefl _ (new' ▸ numbered.oldModules earlier member)
  · intro other member
    rcases List.mem_append.mp member with old | last
    · exact Nat.lt_succ_of_lt (numbered.oldModules other old)
    · rw [List.mem_singleton.mp last,new]
      exact Nat.lt_succ_self _

theorem akToolRegister_registers (ready : state.initialized = true) (registers : Registers memory name state)
    (moduleRef : Option Nat) (exportName : CString) (capType : CapType) (capResource : Option CString) :
    ∃ tool : AkTool, tool.address = state.allocated ∧ tool.name = copied 64 name ∧ tool.moduleRef = moduleRef ∧
      (akToolRegister memory name moduleRef exportName capType capResource state).1 =
        { state with tools := state.tools ++ [tool], allocated := state.allocated + 1 } := by
  obtain ⟨room,new,rfl⟩ := registers
  unfold akToolRegister
  rw [ready,new,if_neg (by decide),if_neg (by omega),if_neg (by decide),if_neg (by decide)]
  exact ⟨_,rfl,rfl,rfl,rfl⟩

theorem akToolRegister_refuses (refused : ¬ Registers memory name state) (moduleRef : Option Nat)
    (exportName : CString) (capType : CapType) (capResource : Option CString) :
    (akToolRegister memory name moduleRef exportName capType capResource state).1 = state := by
  unfold akToolRegister
  split
  · rfl
  split
  · rfl
  split
  · rfl
  split
  · rfl
  · rename_i room new given
    exact absurd ⟨by omega,by simpa using new,by simpa using given⟩ refused

theorem step_load (memory : LoadMemory) (name : CString) (bytecode : Bytes) {keeps : Noted → Prop}
    (same : keeps noted) (added : ∀ loaded : WasmModule, loaded.address = noted.state.allocated → keeps { noted with
      state := { noted.state with modules := noted.state.modules ++ [loaded], allocated := noted.state.allocated + 1 } })
    :
    keeps (step noted (.load memory name bytecode)) := by
  unfold step perform
  dsimp only
  rcases akWasmModuleLoad_cases memory name bytecode noted.state with unchanged | ⟨loaded,new,grown⟩
  · rw [unchanged]
    exact same
  · rw [grown]
    exact added loaded new

theorem step_loadVerified (noted : Noted) (genuine : Bool) (memory : LoadMemory) (name : CString) (bytecode : Bytes) :
    step noted (.loadVerified genuine memory name bytecode) =
      if genuine then step noted (.load memory name bytecode) else noted := by
  cases genuine <;> rfl

theorem unload_numbered (numbered : Numbered noted) (ref : Option Nat) : Numbered (step noted (.unload ref)) := by
  cases ref with
  | none => exact numbered
  | some address =>
    have kept : (noted.state.modules.eraseP (·.address == address)).Sublist noted.state.modules := List.eraseP_sublist
    exact ⟨numbered.ready,(kept.map _).nodup numbered.modules,
      fun loaded member => numbered.oldModules loaded (kept.subset member),numbered.oldTools⟩

theorem step_numbered (noted : Noted) (call : RegistryCall) (numbered : Numbered noted) :
    Numbered (step noted call) := by
  have load : ∀ memory name bytecode, Numbered (step noted (.load memory name bytecode)) :=
    fun memory name bytecode => step_load memory name bytecode numbered (load_numbered numbered)
  cases call with
  | load memory name bytecode => exact load memory name bytecode
  | loadVerified genuine memory name bytecode =>
    rw [step_loadVerified]
    split
    · exact load memory name bytecode
    · exact numbered
  | unload ref => exact unload_numbered numbered ref
  | register memory name moduleRef exportName capType capResource =>
    by_cases registers : Registers memory name noted.state
    · obtain ⟨tool,new,_,_,grown⟩ := akToolRegister_registers numbered.ready registers moduleRef exportName capType
        capResource
      unfold step perform
      dsimp only
      rw [grown]
      refine ⟨numbered.ready,numbered.modules,
        fun loaded member => Nat.lt_succ_of_lt (numbered.oldModules loaded member),fun other member => ?_⟩
      rcases List.mem_append.mp member with old | last
      · exact Nat.lt_succ_of_lt (numbered.oldTools other old)
      · rw [List.mem_singleton.mp last,new]
        exact Nat.lt_succ_self _
    · have same := akToolRegister_refuses registers moduleRef exportName capType capResource
      unfold step perform
      dsimp only
      rw [same]
      exact ⟨numbered.ready,numbered.modules,numbered.oldModules,numbered.oldTools⟩
  | unregister name =>
    have kept : (noted.state.tools.eraseP (·.name == name)).Sublist noted.state.tools := List.eraseP_sublist
    exact ⟨numbered.ready,numbered.modules,numbered.oldModules,
      fun tool member => numbered.oldTools tool (kept.subset member)⟩

theorem runnable_iff (noted : Noted) : Runnable noted ↔ (noted.state.tools.map AkTool.name).Nodup ∧
    (∀ tool ∈ noted.state.tools, noted.given tool.address = some tool.name) ∧
    ∀ tool ∈ noted.state.tools, Loaded noted.state tool.moduleRef := by
  constructor
  · intro runnable
    refine ⟨runnable.distinct,fun tool member => ?_,runnable.loaded⟩
    obtain ⟨name,given,got⟩ := runnable.found tool member
    rw [given,akToolGet_name got]
  · rintro ⟨distinct,named,loaded⟩
    exact ⟨distinct,fun tool member => ⟨tool.name,named tool member,akToolGet_of_mem distinct member⟩,loaded⟩

theorem load_runnable (runnable : Runnable noted) (loaded : WasmModule) :
    Runnable { noted with
      state := { noted.state with modules := noted.state.modules ++ [loaded], allocated := noted.state.allocated + 1 } } := by
  refine ⟨runnable.distinct,runnable.found,fun tool member => ?_⟩
  obtain ⟨old,present,same⟩ := runnable.loaded tool member
  exact ⟨old,List.mem_append_left _ present,same⟩

theorem eraseP_key {α β : Type} [DecidableEq β] {key : α → β} {entries : List α} (distinct : (entries.map key).Nodup)
    {wanted : β} {entry : α} (member : entry ∈ entries.eraseP (key · == wanted)) : key entry ≠ wanted := by
  rintro rfl
  have present : entry ∈ entries := List.mem_of_mem_eraseP member
  obtain ⟨erased,before,after,_,same,whole,rest⟩ :=
    @List.exists_of_eraseP _ (key · == key entry) _ _ present (beq_self_eq_true (key entry))
  rw [rest] at member
  rw [whole,List.map_append,List.map_cons,List.nodup_middle,List.nodup_cons] at distinct
  apply distinct.1
  rw [eq_of_beq same,← List.map_append]
  exact List.mem_map_of_mem member

theorem unload_runnable_iff (numbered : Numbered noted) (runnable : Runnable noted) (ref : Option Nat) :
    Runnable (step noted (.unload ref)) ↔ Careful noted (.unload ref) := by
  cases ref with
  | none => exact iff_of_true runnable fun tool _ given => absurd given (by decide)
  | some address =>
    constructor
    · intro after tool member _ refers
      obtain ⟨loaded,present,same⟩ := after.loaded tool member
      exact eraseP_key numbered.modules present (Option.some.inj (same.symm.trans refers))
    · intro unused
      refine ⟨runnable.distinct,runnable.found,fun tool member => ?_⟩
      obtain ⟨loaded,present,same⟩ := runnable.loaded tool member
      have other : loaded.address ≠ address := fun equal => unused tool member rfl (equal ▸ same)
      exact ⟨loaded,(List.mem_eraseP_of_neg (by simpa using other)).mpr present,same⟩

theorem unregister_runnable (runnable : Runnable noted) (name : CString) :
    Runnable (step noted (.unregister name)) := by
  have kept : (noted.state.tools.eraseP (·.name == name)).Sublist noted.state.tools := List.eraseP_sublist
  obtain ⟨distinct,named,loaded⟩ := (runnable_iff noted).mp runnable
  exact (runnable_iff _).mpr ⟨(kept.map _).nodup distinct,fun tool member => named tool (kept.subset member),
    fun tool member => loaded tool (kept.subset member)⟩

theorem copied_eq_iff (name : CString) : copied 64 name = name ↔ name.1.length < 64 := by
  rw [Subtype.ext_iff]
  change name.1.take 63 = name.1 ↔ _
  rw [List.take_eq_self_iff]
  omega

theorem register_runnable_iff (numbered : Numbered noted) (runnable : Runnable noted) (memory : Bool) (name : CString)
    (moduleRef : Option Nat) (exportName : CString) (capType : CapType) (capResource : Option CString) :
    Runnable (step noted (.register memory name moduleRef exportName capType capResource)) ↔
      Careful noted (.register memory name moduleRef exportName capType capResource) := by
  obtain ⟨distinct,named,loaded⟩ := (runnable_iff noted).mp runnable
  -- the new name is noted for the next record, which no registered tool has
  have kept : ∀ tool ∈ noted.state.tools,
      Function.update noted.given noted.state.allocated (some name) tool.address = some tool.name := by
    intro tool member
    rw [Function.update_of_ne (Nat.ne_of_lt (numbered.oldTools tool member)),named tool member]
  rw [runnable_iff]
  unfold step perform Careful
  dsimp only
  by_cases registers : Registers memory name noted.state
  · obtain ⟨tool,new,stored,refers,grown⟩ := akToolRegister_registers numbered.ready registers moduleRef exportName capType
      capResource
    rw [grown]
    have last : Function.update noted.given noted.state.allocated (some name) tool.address = some name := by
      rw [new,Function.update_self]
    constructor
    · rintro ⟨_,found,ready⟩ _
      have member : tool ∈ noted.state.tools ++ [tool] := by simp
      have same := found tool member
      rw [last,stored] at same
      exact ⟨(copied_eq_iff name).mp (Option.some.inj same).symm,refers ▸ ready tool member⟩
    · intro careful
      obtain ⟨short,present⟩ := careful registers
      have fits := stored.trans ((copied_eq_iff name).mpr short)
      refine ⟨?_,fun other member => ?_,fun other member => ?_⟩
      · simp only [List.map_append,List.map_cons,List.map_nil,fits]
        refine List.nodup_append.mpr ⟨distinct,List.nodup_singleton _,?_⟩
        rintro old before _ again rfl
        obtain ⟨earlier,there,rfl⟩ := List.mem_map.mp before
        have differs := List.find?_eq_none.mp registers.2.1 earlier there
        exact differs (beq_iff_eq.mpr (List.mem_singleton.mp again))
      · rcases List.mem_append.mp member with old | newest
        · exact kept other old
        · rw [List.mem_singleton.mp newest,last,fits]
      · rcases List.mem_append.mp member with old | newest
        · exact loaded other old
        · rw [List.mem_singleton.mp newest,refers]
          exact present
  · rw [akToolRegister_refuses registers]
    exact iff_of_true ⟨distinct,kept,loaded⟩ fun registered => absurd registered registers

theorem step_runnable_iff (noted : Noted) (call : RegistryCall) (numbered : Numbered noted) (runnable : Runnable noted) :
    Runnable (step noted call) ↔ Careful noted call := by
  have load : ∀ memory name bytecode, Runnable (step noted (.load memory name bytecode)) :=
    fun memory name bytecode => step_load memory name bytecode runnable fun loaded _ => load_runnable runnable loaded
  cases call with
  | load memory name bytecode => exact iff_of_true (load memory name bytecode) trivial
  | loadVerified genuine memory name bytecode =>
    refine iff_of_true ?_ trivial
    rw [step_loadVerified]
    split
    · exact load memory name bytecode
    · exact runnable
  | unload ref => exact unload_runnable_iff numbered runnable ref
  | register memory name moduleRef exportName capType capResource =>
    exact register_runnable_iff numbered runnable memory name moduleRef exportName capType capResource
  | unregister name => exact iff_of_true (unregister_runnable runnable name) trivial

/-- Registered tools stay runnable exactly in the runs that register under names that fit
for loaded modules, and unload no module a tool refers to. -/
theorem tools_runnable_iff (calls : List RegistryCall) :
    Throughout step Runnable start calls ↔ Guarded step Careful start calls :=
  throughout_iff_guarded step_numbered step_runnable_iff start calls ⟨rfl,List.nodup_nil,nofun,nofun⟩
    ⟨List.nodup_nil,nofun,nofun⟩

def emptyModule : Bytes := [0,0x61,0x73,0x6d,1,0,0,0]

def toolName : CString := ⟨[0x74],by decide⟩

def unloadUnderTool : List RegistryCall :=
  [.load ⟨true,true⟩ toolName emptyModule,.register true toolName (some 0) toolName CapType.none none,.unload (some 0)]

theorem tool_outlives_module : ¬ Runnable (run step start unloadUnderTool) := by
  intro runnable
  have gone : (run step start unloadUnderTool).state.modules = [] := by decide +kernel
  let tool : AkTool := ⟨1,toolName,some 0,toolName,CapType.none,⟨[],List.not_mem_nil⟩⟩
  have registered : tool ∈ (run step start unloadUnderTool).state.tools := by
    rw [show (run step start unloadUnderTool).state.tools = [tool] from rfl]
    exact List.mem_singleton_self tool
  obtain ⟨loaded,present,_⟩ := runnable.loaded tool registered
  rw [gone] at present
  exact List.not_mem_nil present

/-- The first `module_count` slots of the registry while it is torn down, and the modules
handed to the unloading function so far. -/
structure Teardown where
  slots : List (Option WasmModule)
  unloaded : List Nat

/-- The slot is cleared after the unloading has moved the next module into it. -/
def shutdownTurn (work : Teardown) (i : Nat) : Teardown :=
  match work.slots[i]? with
  | some (some loaded) =>
    ⟨(work.slots.eraseP (·.any (·.address == loaded.address))).set i none,work.unloaded ++ [loaded.address]⟩
  | _ => work

def akWasmShutdown (state : WasmState) : WasmState × List Nat :=
  if !state.initialized then (state,[])
  else
    let work := run shutdownTurn ⟨state.modules.map some,[]⟩ (List.range state.modules.length)
    (⟨false,[],[],state.allocated⟩,work.unloaded)

structure ShutDown (state : WasmState) : Prop where
  once : ∀ loaded ∈ state.modules, (akWasmShutdown state).2.count loaded.address = 1
  modules : (akWasmShutdown state).1.modules = []
  tools : (akWasmShutdown state).1.tools = []

/-- The module stands in no slot any more and was not unloaded. -/
def Skipped (address : Nat) (work : Teardown) : Prop :=
  (∀ loaded, some loaded ∈ work.slots → loaded.address ≠ address) ∧ address ∉ work.unloaded

theorem shutdownTurn_skipped (address : Nat) (work : Teardown) (i : Nat) (skipped : Skipped address work) :
    Skipped address (shutdownTurn work i) := by
  unfold shutdownTurn
  split
  · rename_i loaded found
    refine ⟨fun other member => ?_,?_⟩
    · rcases List.mem_or_eq_of_mem_set member with kept | cleared
      · exact skipped.1 other (List.mem_of_mem_eraseP kept)
      · exact absurd cleared nofun
    · have other := skipped.1 loaded (List.mem_of_getElem? found)
      simp [skipped.2,other.symm]
  · exact skipped

/-- The first turn clears the slot the second module was moved to. -/
theorem akWasmShutdown_skips (ready : state.initialized = true) (first second : WasmModule) (rest : List WasmModule)
    (modules : state.modules = first :: second :: rest) (distinct : (state.modules.map WasmModule.address).Nodup) :
    second.address ∉ (akWasmShutdown state).2 := by
  rw [modules] at distinct
  simp only [List.map_cons,List.nodup_cons,List.mem_cons,not_or] at distinct
  obtain ⟨⟨differ,_⟩,new,_⟩ := distinct
  have turned : shutdownTurn ⟨(first :: second :: rest).map some,[]⟩ 0 = ⟨none :: rest.map some,[first.address]⟩ := by
    simp [shutdownTurn]
  have skipped : Skipped second.address ⟨none :: rest.map some,[first.address]⟩ := by
    refine ⟨fun loaded member equal => ?_,by simpa using Ne.symm differ⟩
    simp only [List.mem_cons,List.mem_map,Option.some.injEq,exists_eq_right,reduceCtorEq,false_or] at member
    exact new (equal ▸ List.mem_map_of_mem member)
  unfold akWasmShutdown
  rw [ready,modules,List.length_cons,List.range_succ_eq_map,run_cons,turned]
  exact (invariant_run_always (shutdownTurn_skipped _) _ _ skipped).2

/-- Whatever was loaded and registered before, shutting down is complete exactly with at
most one module loaded. -/
theorem shutdown_complete_iff (calls : List RegistryCall) :
    ShutDown (run step start calls).state ↔ (run step start calls).state.modules.length ≤ 1 := by
  have numbered : Numbered (run step start calls) :=
    invariant_run_always step_numbered start calls ⟨rfl,List.nodup_nil,nofun,nofun⟩
  generalize (run step start calls) = noted at numbered
  have ends : (akWasmShutdown noted.state).1.modules = [] ∧ (akWasmShutdown noted.state).1.tools = [] := by
    unfold akWasmShutdown
    rw [numbered.ready]
    exact ⟨rfl,rfl⟩
  constructor
  · intro complete
    match modules : noted.state.modules with
    | [] | [_] => simp
    | first :: second :: rest =>
      have unloaded := complete.once second (by simp [modules])
      have skipped := akWasmShutdown_skips numbered.ready first second rest modules numbered.modules
      rw [List.count_eq_zero_of_not_mem skipped] at unloaded
      contradiction
  · intro few
    refine ⟨fun loaded member => ?_,ends.1,ends.2⟩
    obtain ⟨only,modules⟩ := List.length_eq_one_iff.mp (le_antisymm few (List.length_pos_of_mem member))
    rw [modules,List.mem_singleton] at member
    simp [akWasmShutdown,numbered.ready,modules,member,List.range_succ,shutdownTurn]

def twoModules : WasmState :=
  (run step start [.load ⟨true,true⟩ toolName emptyModule,.load ⟨true,true⟩ toolName emptyModule]).state

theorem shutdown_keeps_second_module : ¬ ShutDown twoModules := by
  intro complete
  have never : ∃ loaded ∈ twoModules.modules, (akWasmShutdown twoModules).2.count loaded.address = 0 := by
    decide +kernel
  obtain ⟨loaded,member,zero⟩ := never
  rw [complete.once loaded member] at zero
  contradiction

end AuthorityKernel.Wasm.Tools
