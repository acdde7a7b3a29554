import AuthorityKernel.Library.Run
import AuthorityKernel.Memory.Orderly

/-! The fault handlers of custom mappings. `mmap` puts the handler of the custom file into the record
it made or extended; the records that splitting makes later do not get one. -/
namespace AuthorityKernel.Memory

open Library.Run Library.Bits

def isCustom (node : Vmap) : Bool := hasFlag node.value.flags vmapMmapTypeCustom

def Customs (known : Vmap → Prop) (rm : Vmaps) : Prop := ∀ node ∈ rm, isCustom node = true → known node

/-- A property of a node that its parts have too, as long as they keep flags, file and handler. -/
def Hereditary (known : Vmap → Prop) : Prop :=
  ∀ (node : Vmap) (part : Range) (value : Attributes), known node → part.Within node.r →
    value.flags = node.value.flags → value.fd = node.value.fd → value.fault = node.value.fault → known ⟨part,value⟩

/-- No custom node reaches over the range on both sides. -/
def Uncut (rm : Vmaps) (q : Range) : Prop := Customs (fun node => ¬ (node.r.start < q.start ∧ q.stop < node.r.stop)) rm

section Nodes

variable {memory : Records} {rm cut after : Vmaps} {q part : Range} {node k : Vmap} {start : Nat} {known : Vmap → Prop}

theorem isCustom_of_flags {a b : Vmap} (same : a.value.flags = b.value.flags) : isCustom a = isCustom b := by
  rw [isCustom,isCustom,same]

theorem customs_allocate (customs : Customs known rm) (plain : isCustom k = false) (ordered : WellOrdered rm)
    (proper : k.r.start < k.r.stop) (small : k.r.stop < addressSpace) (free : Free rm k.r)
    (done : allocateVmapLocked memory rm k = .done after start) : Customs known after := by
  obtain ⟨drops,new,allocated⟩ := allocated_of_done ordered proper small free done
  have flags : new.value.flags = k.value.flags :=
    congrArg Page.flags (allocated.merge.page ordered small ⟨le_refl _,proper⟩)
  intro other kept custom
  rw [allocated.shape] at kept
  rcases mem_swap.mp kept with rfl | ⟨old,-⟩
  · rw [isCustom_of_flags flags,plain] at custom
    cases custom
  · exact customs other old custom

variable {kept : Option Vmap} {pieces : List Vmap}

theorem Rebuilt.customs (rebuilt : Rebuilt memory rm node kept pieces after)
    (ordered : WellOrdered rm) (member : node ∈ rm) (customs : Customs known rm)
    (left : ∀ part ∈ kept, isCustom part = true → known part) (plain : ∀ piece ∈ pieces, isCustom piece = false) :
    Customs known after := by
  induction rebuilt with
  | removed => exact fun other among => customs other (mem_remove.mp among).1
  | moved part done =>
    intro other among custom
    rw [(reinsert_done done).2.2.1] at among
    rcases mem_swap.mp among with rfl | ⟨old,-⟩
    · exact left _ rfl custom
    · exact customs other old custom
  | mapped part rebuilt done ih =>
    obtain ⟨first,rest⟩ := List.forall_mem_cons.mp plain
    have became := rebuilt.became ordered member
    exact customs_allocate (ih left rest) first became.ordered part.proper
      (Nat.lt_of_le_of_lt part.within.2 (ordered.small node member))
      (became.free (free_within ordered member part.within)) done

theorem Removal.customs (removal : Removal memory q rm node after kept pieces)
    (hereditary : Hereditary known) (ordered : WellOrdered rm) (member : node ∈ rm)
    (uncut : isCustom node = true → ¬ (node.r.start < q.start ∧ q.stop < node.r.stop)) (customs : Customs known rm) :
    Customs known after := by
  have alike : ∀ piece ∈ pieces ++ kept.toList, isCustom piece = isCustom node :=
    fun piece among => isCustom_of_flags (removal.each piece among).2
  refine removal.rebuilt.customs ordered member customs (fun part isKept custom => ?_) (fun piece among => ?_)
  · have among : part ∈ pieces ++ kept.toList := List.mem_append_right _ (Option.mem_toList.mpr isKept)
    obtain ⟨file,fault⟩ := removal.same part isKept
    exact hereditary node part.r part.value (customs node member ((alike part among).symm.trans custom))
      (removal.rebuilt.parts part among).within (removal.each part among).2 file fault
  · rw [alike piece (List.mem_append_left _ among)]
    refine Bool.eq_false_iff.mpr fun custom => ?_
    rw [removal.single (uncut custom)] at among
    exact List.not_mem_nil among

theorem removeRange_customs {unmap : Bool} (hereditary : Hereditary known) (ordered : WellOrdered rm)
    (small : q.stop < addressSpace) (uncut : Uncut rm q) (customs : Customs known rm)
    (done : processRemoveRangeLocked memory unmap q rm = some after) : Customs known after :=
  @removeRange_rule _ _ _ _ _ (fun _ => Customs known) ordered small
    (fun _ _ node _ _ _ stays old member holds removal => removal.customs hereditary stays member (uncut node old) holds)
    customs done

variable {clearMask setMask : UInt32} {stop : Nat}

theorem Recolouring.customs (recolouring : Recolouring memory q clearMask setMask rm node after stop)
    (cleared : clearMask &&& vmapMmapTypeCustom = 0) (added : setMask &&& vmapMmapTypeCustom = 0)
    (ordered : WellOrdered rm) (member : node ∈ rm)
    (already : isCustom node = true → node.value.flags &&& clearMask = setMask) (customs : Customs known rm) :
    Customs known after := by
  cases recolouring with
  | same already shape ends =>
    subst shape
    exact customs
  | @parts other kept pieces rebuilt each covers record =>
    have plain : isCustom node = false := Bool.eq_false_iff.mpr fun custom => other (already custom)
    have never : ∀ piece ∈ pieces ++ kept.toList, isCustom piece = false := by
      intro piece among
      rcases each piece among with ⟨-,flags⟩ | ⟨-,flags⟩
      · rw [isCustom,flags,hasFlag,masked_apart cleared added]
        exact plain
      · rw [isCustom_of_flags flags,plain]
    refine rebuilt.customs ordered member customs (fun part isKept custom => ?_)
      (fun piece among => never piece (List.mem_append_left _ among))
    rw [never part (List.mem_append_right _ (Option.mem_toList.mpr isKept))] at custom
    cases custom

theorem Hereditary.both {first second : Vmap → Prop} (one : Hereditary first) (other : Hereditary second) :
    Hereditary (fun node => first node ∧ second node) :=
  fun node part value holds within flags file fault =>
    ⟨one node part value holds.1 within flags file fault,other node part value holds.2 within flags file fault⟩

/-- Where it meets the range, the node has its flags already. -/
def Settled (q : Range) (clearMask setMask : UInt32) (node : Vmap) : Prop :=
  max q.start node.r.start < min q.stop node.r.stop → node.value.flags &&& clearMask = setMask

theorem updateFlagsLoop_customs {narrow : Range → Range} {turns : Nat}
    (cleared : clearMask &&& vmapMmapTypeCustom = 0) (added : setMask &&& vmapMmapTypeCustom = 0)
    (ordered : WellOrdered rm) (valid : q.start ≤ q.stop) (small : q.stop < addressSpace) (narrows : Narrows narrow q)
    (settled : Customs (Settled q clearMask setMask) rm) (customs : Customs known rm)
    (done : updateFlagsLoop memory narrow clearMask setMask turns q rm = some after) : Customs known after := by
  let both : Vmap → Prop := fun node => Settled q clearMask setMask node ∧ known node
  have start : Customs both rm := fun node member custom => ⟨settled node member custom,customs node member custom⟩
  obtain ⟨-,-,-,ends⟩ := @updateFlagsLoop_rule memory narrow clearMask setMask q (fun _ => Customs both) small narrows
    (fun r current vm after stop ordered ends starts knows member within meet recolouring => by
      have range := narrows r ends starts
      exact recolouring.customs cleared added ordered member (fun custom => (knows vm member custom).1 (by omega)) knows)
    turns q rm after ordered rfl (le_refl _) valid start done
  exact fun node member custom => (ends node member custom).2

end Nodes

/-- For each address, the fault handler that `mmap` set when it mapped the page there. -/
abbrev Handlers := Nat → Option Nat

def mmapHandler (p : Process) (prot flags : UInt32) (fd : Descriptor) (offset : Nat) (q : Range) : Option Nat :=
  match mmapFlags prot flags with
  | .error _ => none
  | .ok vmflags => match mmapBacking p flags vmflags fd offset with
    | .error _ => none
    | .ok backing => match mmapCustom backing q offset with
      | .error _ => none
      | .ok k => if isCustom k then some k.value.fault else none

def newHandlers (p : Process) (handlers : Handlers) : Call → Except Int Nat → Handlers
  | .mmap _ length prot flags fd offset,.ok a => fun x =>
    if Range.Holds ⟨a,a + pad length.toNat⟩ x then
      mmapHandler p prot flags fd offset.toNat ⟨a,a + pad length.toNat⟩
    else handlers x
  | _,_ => handlers

def handlerStep (state : Option (Process × Handlers)) (input : Surroundings × Call) : Option (Process × Handlers) :=
  state.bind fun (p,handlers) => (handle input.1 p input.2).map fun (answer,after) =>
    ({ p with vmaps := after },newHandlers p handlers input.2 answer)

def Served (handlers : Handlers) (node : Vmap) : Prop :=
  ∀ x, node.r.Holds x → ∀ handler, handlers x = some handler → node.value.fault = handler

theorem hereditary_served (handlers : Handlers) : Hereditary (Served handlers) := by
  intro node part value served within _ _ fault x holds handler set
  rw [fault]
  exact served x (within.holds holds) handler set

def Agrees (desc handler : Nat) (node : Vmap) : Prop := node.value.fd = desc → node.value.fault = handler

theorem hereditary_agrees (desc handler : Nat) : Hereditary (Agrees desc handler) := by
  intro node part value agrees _ _ file fault same
  rw [fault]
  exact agrees (file.symm.trans same)

section Calls

variable {env : Surroundings} {p : Process} {handlers : Handlers} {answer : Except Int Nat} {rm after : Vmaps}

variable {cleared : Vmaps} {k : Vmap}

theorem setFault_of_allocated {mapped : Vmaps} {new node : Vmap} {start : Nat} {drops : List Nat}
    (allocated : Allocated cleared k mapped start drops new) (ordered : WellOrdered mapped)
    (member : node ∈ setFault mapped start k.value.fault) :
    (node = { new with value.fault := k.value.fault }) ∨ node ∈ cleared := by
  obtain ⟨old,among,rfl⟩ := List.mem_map.mp member
  have here : new ∈ mapped := by
    rw [allocated.shape]
    exact mem_swap.mpr (Or.inl rfl)
  by_cases same : old.start = start
  · obtain rfl := Ordered.Sorted.unique ordered.sorted among here (same.trans allocated.key)
    exact Or.inl (if_pos (beq_iff_eq.mpr same))
  rw [if_neg (by simpa using same)]
  rw [allocated.shape] at among
  rcases mem_swap.mp among with rfl | ⟨stays,-⟩
  · exact absurd allocated.key.symm same
  · exact Or.inr stays

variable {flags : UInt32} {backing : Backing}

theorem mmapClear_customs {q : Range} {known : Vmap → Prop}
    (hereditary : Hereditary known) (ordered : WellOrdered rm) (fits : Fits rm q)
    (uncut : isFixed flags = true → Uncut rm q) (customs : Customs known rm)
    (done : mmapClear env flags backing q rm = some cleared) :
    WellOrdered cleared ∧ Fits cleared q ∧ Customs known cleared := by
  unfold mmapClear at done
  split at done
  · rename_i fixed
    obtain ⟨stays,there,-⟩ := removed_orderly ordered fits.small fits done
    exact ⟨stays,there,removeRange_customs hereditary ordered fits.small (uncut fixed) customs done⟩
  · cases done
    exact ⟨ordered,fits,customs⟩

theorem mmapInsert_plain (ordered : WellOrdered rm)
    (fits : Fits rm k.r) (uncut : isFixed flags = true → Uncut rm k.r) (plain : isCustom k = false)
    (customs : Customs (Served handlers) rm) (done : mmapInsert env flags backing k rm = some after) :
    Customs (Served handlers) after := by
  obtain ⟨cleared,mapped,start,clear,allocated,rfl⟩ := mmapInsert_done done
  obtain ⟨stays,there,kept⟩ := mmapClear_customs (hereditary_served handlers) ordered fits uncut customs clear
  obtain ⟨drops,new,shaped⟩ := allocated_of_done stays there.proper there.small there.free allocated
  have orderedAfter := shaped.ordered stays there.proper there.small
  have flags : new.value.flags = k.value.flags :=
    congrArg Page.flags (shaped.merge.page stays there.small ⟨le_refl _,there.proper⟩)
  intro node member custom
  rcases setFault_of_allocated shaped orderedAfter member with rfl | old
  · have yes : isCustom new = true := custom
    rw [isCustom_of_flags flags,plain] at yes
    cases yes
  · exact kept node old custom

theorem mmapInsert_custom (ordered : WellOrdered rm)
    (fits : Fits rm k.r) (uncut : isFixed flags = true → Uncut rm k.r) (isK : isCustom k = true)
    (customs : Customs (Served handlers) rm) (agree : Customs (Agrees k.value.fd k.value.fault) rm)
    (done : mmapInsert env flags backing k rm = some after) :
    Customs (Served fun x => if k.r.Holds x then some k.value.fault else handlers x) after := by
  obtain ⟨cleared,mapped,start,clear,allocated,rfl⟩ := mmapInsert_done done
  obtain ⟨stays,there,kept⟩ := mmapClear_customs
    ((hereditary_served handlers).both (hereditary_agrees k.value.fd k.value.fault)) ordered fits uncut
    (fun node member custom => ⟨customs node member custom,agree node member custom⟩) clear
  obtain ⟨drops,new,shaped⟩ := allocated_of_done stays there.proper there.small there.free allocated
  have orderedAfter := shaped.ordered stays there.proper there.small
  have outside : ∀ node ∈ cleared, ∀ x, node.r.Holds x → ¬ k.r.Holds x :=
    fun node member x holds => (shaped.clear node member).not_holds holds
  intro node member custom x holds handler set
  dsimp only at set
  rcases setFault_of_allocated shaped orderedAfter member with rfl | old
  · rcases (shaped.merge.covers stays there.proper x).mp holds with inside | ⟨other,among,gone,also⟩
    · rw [if_pos inside] at set
      exact Option.some.inj set
    · -- a node that gave way maps the same file
      obtain ⟨flags,-,-,file,-⟩ := (compare_iff other k).mp (shaped.merge.dropped stays there.proper among gone).2
      obtain ⟨served,agrees⟩ := kept other among ((isCustom_of_flags flags).trans isK)
      rw [if_neg (outside other among x also)] at set
      exact (agrees file).symm.trans (served x also handler set)
  · rw [if_neg (outside node old x holds)] at set
    exact (kept node old custom).1 x holds handler set

variable {prot vmflags : UInt32}

theorem mmapFlags_uncustom (flagged : mmapFlags prot flags = .ok vmflags) : vmflags &&& vmapMmapTypeCustom = 0 := by
  have untyped := mmapFlags_untyped flagged
  rw [and_eq_zero] at untyped ⊢
  intro i isSet
  have none := untyped i isSet
  simp only [bit_or,Bool.or_eq_false_iff] at none
  exact none.2

variable {fd : Descriptor}

theorem custom_record {offset : Nat} {q : Range} (flagged : mmapFlags prot flags = .ok vmflags) (backed : mmapBacking p flags vmflags fd offset = .ok backing)
    (record : mmapCustom backing q offset = .ok k) (custom : isCustom k = true) :
    hasFlag flags mapAnonymous = false ∧ ∃ desc op, fd = .custom desc (some op) ∧ k.value.fd = desc ∧
      k.value.fault = (op ⟨q,backing.record offset⟩ offset).2 := by
  have plain := mmapFlags_uncustom flagged
  obtain ⟨fault,shape⟩ := mmapCustom_ok record
  have flags' : hasFlag (backing.flags ||| backing.kind) vmapMmapTypeCustom = true := by
    rw [shape] at custom
    exact custom
  unfold mmapBacking at backed
  split at backed
  · obtain rfl := Except.ok.inj backed
    have none : ((vmflags ||| vmapFlagThp) ||| vmapMmapTypeAnonymous) &&& vmapMmapTypeCustom = 0 :=
      or_and_eq_zero (or_and_eq_zero plain (by decide)) (by decide)
    simp [hasFlag,none] at flags'
  rename_i named
  refine ⟨by simpa using named,?_⟩
  split at backed
  · cases backed
  · dsimp only at backed
    split at backed
    · cases backed
    split at backed
    · cases backed
    obtain rfl := Except.ok.inj backed
    have none : (vmflags ||| vmapMmapTypeFilebacked) &&& vmapMmapTypeCustom = 0 := or_and_eq_zero plain (by decide)
    simp [hasFlag,none] at flags'
  rename_i desc operation
  split at backed
  · cases backed
  rename_i mappable
  obtain ⟨op,rfl⟩ := Option.ne_none_iff_exists'.mp (by simpa using mappable)
  obtain rfl := Except.ok.inj backed
  refine ⟨desc,op,rfl,by rw [shape]; rfl,?_⟩
  simp only [mmapCustom] at record
  split at record
  · cases record
  rw [← Except.ok.inj record]

/-- What a call has to meet so that the custom nodes keep their handlers: `mmap` keeps the map in
order, cuts no hole into a custom node and maps a custom file with the handler its nodes already
have; `munmap` cuts no hole either; `mprotect` and `madvise` change no custom node. -/
def Serves (p : Process) : Call → Prop
  | .mmap addr length prot flags fd offset =>
    CallMeets (orderly p) p (.mmap addr length prot flags fd offset) ∧
      (isFixed flags = true → Uncut p.vmaps (irangel addr.toNat (pad length.toNat))) ∧
      ∀ desc op, hasFlag flags mapAnonymous = false → fd = .custom desc (some op) →
        ∀ k, Customs (Agrees desc (op k offset.toNat).2) p.vmaps
  | .mremap _ _ _ _ _ => False
  | .mprotect addr len prot =>
    Customs (Settled (irangel addr.toNat (pad len.toNat)) vmapFlagProtMask (protFlags prot)) p.vmaps
  | .munmap addr length => Uncut p.vmaps (irangel addr.toNat (pad length.toNat))
  | .madvise addr length advice =>
    (advice = madvHugepage → Customs (Settled (irangel addr.toNat (pad length.toNat)) 0 vmapFlagThp) p.vmaps) ∧
      (advice = madvNohugepage → Customs (Settled (irangel addr.toNat (pad length.toNat)) vmapFlagThp 0) p.vmaps)

structure InService (p : Process) (handlers : Handlers) : Prop where
  ordered : WellOrdered p.vmaps
  served : Customs (Served handlers) p.vmaps

theorem inService_mmap {addr length offset : UInt64}
    (service : InService p handlers) (serves : Serves p (.mmap addr length prot flags fd offset))
    (done : mmap env p addr.toNat length.toNat prot flags fd offset.toNat = some (answer,after)) :
    InService { p with vmaps := after } (newHandlers p handlers (.mmap addr length prot flags fd offset) answer) := by
  obtain ⟨meets,uncut,agree⟩ := serves
  rcases mmap_done done with ⟨⟨error,rfl⟩,rfl⟩ | ⟨vmflags,place,q,backing,k,mapped,inserted,rfl⟩
  · exact service
  have ranged := mmapped_meets meets mapped
  have fits := mmapRange_fits service.ordered (Nat.pos_of_ne_zero mapped.len) ranged
  have shape := mmapRange_shape fits.proper ranged
  have whole : k.r = q := by
    obtain ⟨fault,rfl⟩ := mmapCustom_ok mapped.record
    rfl
  have there : Fits p.vmaps k.r := whole ▸ fits
  have clean : isFixed flags = true → Uncut p.vmaps k.r := by
    intro fixed
    rw [whole]
    cases ranged with
    | fixed asked shape valid met => exact shape ▸ uncut fixed
    | hinted free | searched free => exact absurd fixed (by simp [free])
  have computed : mmapHandler p prot flags fd offset.toNat q = if isCustom k then some k.value.fault else none := by
    simp only [mmapHandler,mapped.flagged,mapped.backed,mapped.record]
  have set : newHandlers p handlers (.mmap addr length prot flags fd offset) (.ok q.start) =
      fun x => if q.Holds x then (if isCustom k then some k.value.fault else none) else handlers x := by
    funext x
    simp only [newHandlers,← shape,computed]
  refine ⟨(mmapInsert_pages service.ordered there inserted).1,?_⟩
  rw [set,← whole]
  by_cases custom : isCustom k = true
  · obtain ⟨named,desc,op,isFd,file,fault⟩ := custom_record mapped.flagged mapped.backed mapped.record custom
    have agrees : Customs (Agrees k.value.fd k.value.fault) p.vmaps := by
      rw [file,fault]
      exact agree desc op named isFd _
    simp only [custom,if_true]
    exact mmapInsert_custom service.ordered there clean custom service.served agrees inserted
  have plain : isCustom k = false := by simpa using custom
  have still := mmapInsert_plain service.ordered there clean plain service.served inserted
  intro node member isNode x holds handler known
  simp only [plain] at known
  split at known
  · cases known
  · exact still node member isNode x holds handler known

theorem inService_updated {clearMask setMask : UInt32} {narrow : Range → Range} {q : Range}
    (service : InService p handlers) (valid : q.start ≤ q.stop) (small : q.stop < addressSpace)
    (narrows : Narrows narrow q)
    (cleared : clearMask &&& vmapMmapTypeCustom = 0) (added : setMask &&& vmapMmapTypeCustom = 0)
    (settled : Customs (Settled q clearMask setMask) p.vmaps)
    (looped : updateFlagsLoop env.memory narrow clearMask setMask env.turns q p.vmaps = some after) :
    InService { p with vmaps := after } handlers :=
  ⟨(updateFlagsLoop_became service.ordered valid small narrows looped).1,
    updateFlagsLoop_customs cleared added service.ordered valid small narrows settled service.served looped⟩

theorem inService_handle {call : Call} (service : InService p handlers) (serves : Serves p call)
    (done : handle env p call = some (answer,after)) :
    InService { p with vmaps := after } (newHandlers p handlers call answer) := by
  cases call with
  | mmap addr length prot flags fd offset =>
    rw [handle] at done
    exact inService_mmap service serves done
  | mremap oldAddress oldSize newSize flags newAddress => exact serves.elim
  | mprotect addr len prot =>
    have word : addr.toNat < addressSpace := addr.toNat_lt
    rcases mprotect_done word done with rfl | ⟨-,below,whole,fine,looped⟩
    · exact service
    have small : addr.toNat + pad len.toNat < addressSpace := below.trans (by decide)
    have settled : Customs (Settled (irangel addr.toNat (pad len.toNat)) vmapFlagProtMask (protFlags prot)) p.vmaps :=
      serves
    rw [irangel_of_lt small] at settled
    have untyped : protFlags prot &&& vmapMmapTypeCustom = 0 := by
      rw [and_eq_zero]
      intro i isSet
      exact and_eq_zero.mp (by decide) i (and_not_eq_zero.mp (protFlags_within prot) i isSet)
    exact @inService_updated env p handlers after _ _ (fun _ => ⟨addr.toNat,addr.toNat + pad len.toNat⟩)
      ⟨addr.toNat,addr.toNat + pad len.toNat⟩ service (Nat.le_add_right _ _) small
      (fun r _ starts => ⟨le_refl _,starts,rfl⟩) (by decide) untyped settled looped
  | munmap addr length =>
    rcases munmap_done done with ⟨-,rfl⟩ | ⟨-,-,removed⟩
    · exact service
    · have small := irangel_stop_lt addr.toNat (pad length.toNat)
      exact ⟨(removeRange_became service.ordered small removed).ordered,
        removeRange_customs (hereditary_served handlers) service.ordered small serves service.served removed⟩
  | madvise addr length advice =>
    rcases madvise_done done with rfl | ⟨-,whole,clearMask,setMask,masks,looped⟩
    · exact service
    have small := irangel_stop_lt addr.toNat (pad length.toNat)
    have valid := Nat.le_of_lt (wholeRange_valid service.ordered small whole)
    have rest : Narrows (fun r => r) (irangel addr.toNat (pad length.toNat)) :=
      fun r ends starts => ⟨starts,le_refl _,ends⟩
    simp only [List.mem_cons,Prod.mk.injEq,List.not_mem_nil,or_false] at masks
    rcases masks with ⟨huge,rfl,rfl⟩ | ⟨small',rfl,rfl⟩
    · exact inService_updated service valid small rest (by decide) (by decide) (serves.1 huge) looped
    · exact inService_updated service valid small rest (by decide) (by decide) (serves.2 small') looped

end Calls

def ServingCall (state : Option (Process × Handlers)) (input : Surroundings × Call) : Prop :=
  ∀ p handlers, state = some (p,handlers) → Serves p input.2

/-- Every custom node has the handler that was set when its pages were mapped. -/
def Handled (state : Option (Process × Handlers)) : Prop :=
  ∀ p handlers, state = some (p,handlers) → Customs (Served handlers) p.vmaps

/-- In every run of calls that serve the custom nodes, each of them keeps its fault handler. -/
theorem serving_runs_keep_fault_handlers (p : Process) (ordered : WellOrdered p.vmaps)
    (inputs : List (Surroundings × Call)) (guarded : Guarded handlerStep ServingCall (some (p,fun _ => none)) inputs) :
    Throughout handlerStep Handled (some (p,fun _ => none)) inputs := by
  have kept : ∀ state input, ServingCall state input → (∀ p handlers, state = some (p,handlers) → InService p handlers) →
      ∀ p handlers, handlerStep state input = some (p,handlers) → InService p handlers := by
    intro state input serving holds q handlers stepped
    obtain ⟨⟨before,old⟩,present,mapped⟩ := Option.bind_eq_some_iff.mp stepped
    obtain ⟨⟨answer,after⟩,returned,result⟩ := Option.map_eq_some_iff.mp mapped
    cases result
    exact inService_handle (holds before old present) (serving before old present) returned
  have initial : ∀ q handlers, some (p,fun _ => none) = some (q,handlers) → InService q handlers := by
    intro q handlers same
    cases same
    exact ⟨ordered,fun _ _ _ _ _ _ no => by cases no⟩
  exact (throughout_of_guarded kept _ inputs guarded initial).imp
    fun state holds q handlers same => (holds q handlers same).served

def deviceFile : Descriptor := .custom 1 (some fun _ _ => (0,7))

/-- The second mapping of the device replaces the last page of the first and goes on behind it. -/
theorem device_mapping_keeps_fault_handler :
    Throughout handlerStep Handled (some (freshProcess,fun _ => none))
      [(plainSurroundings,.mmap 0x10000 0x3000 3 0x11 deviceFile 0),
        (plainSurroundings,.mmap 0x12000 0x2000 3 0x11 deviceFile 0)] := by
  have fixed : isFixed 0x11 = true := by decide
  have mapped : (handle plainSurroundings freshProcess (.mmap 0x10000 0x3000 3 0x11 deviceFile 0)).map Prod.snd =
      some [⟨⟨0x10000,0x13000⟩,⟨0x436,0x436,0,none,1,7⟩⟩] := by decide +kernel
  refine serving_runs_keep_fault_handlers freshProcess ordered_empty _
    ⟨fun p handlers same => ?_,fun p handlers same => ?_,trivial⟩
  · cases same
    refine ⟨?_,fun _ _ m => (List.not_mem_nil m).elim,fun _ _ _ _ _ _ m => (List.not_mem_nil m).elim⟩
    simp only [CallMeets,fixed,if_true]
    exact fun _ m => (List.not_mem_nil m).elim
  · rw [handlerStep,Option.bind_some] at same
    obtain ⟨⟨answer,after⟩,done,made⟩ := Option.map_eq_some_iff.mp same
    rw [done] at mapped
    cases mapped
    cases made
    refine ⟨?_,?_,?_⟩
    · simp only [CallMeets,fixed,if_true,orderly,Free]
      decide
    · simp only [Uncut,Customs]
      decide
    · rintro desc op - same k node member -
      cases same
      obtain rfl := List.mem_singleton.mp member
      exact fun _ => rfl

/-- Making the middle page of a device mapping read-only leaves two records whose handler nobody set. -/
theorem mprotect_loses_fault_handler :
    ¬ Throughout handlerStep Handled (some (freshProcess,fun _ => none))
      [(plainSurroundings,.mmap 0x10000 0x3000 3 0x11 deviceFile 0),
        (plainSurroundings,.mprotect 0x11000 0x1000 1)] := by
  intro all
  have reached : ((handlerStep (handlerStep (some (freshProcess,fun _ => none))
      (plainSurroundings,.mmap 0x10000 0x3000 3 0x11 deviceFile 0))
      (plainSurroundings,.mprotect 0x11000 0x1000 1)).map fun state =>
        (state.1.vmaps.any fun node => decide (node.r.Holds 0x11000) && isCustom node && node.value.fault == 0,
          state.2 0x11000)) = some (true,some 7) := by decide +kernel
  obtain ⟨⟨p,handlers⟩,present,facts⟩ := Option.map_eq_some_iff.mp reached
  obtain ⟨lost,handler⟩ := Prod.mk.inj facts
  obtain ⟨node,member,both⟩ := List.any_eq_true.mp lost
  simp only [Bool.and_eq_true,decide_eq_true_eq,beq_iff_eq] at both
  have same := all.2.2 p handlers present node member both.1.2 0x11000 both.1.1 7 handler
  rw [both.2] at same
  cases same

end AuthorityKernel.Memory
