import AuthorityKernel.Wasm.Module

/-! Which function a module runs. An export names a function by its index, counted over
the functions of the host and then the local ones; the body is chosen while the code
section is read, behind the imports that have been read by then. -/
namespace AuthorityKernel.Wasm
open Library Library.Reads

section Space

variable (data : Bytes)

def sectionOf (sections : List Section) (id : UInt8) : Option Section := sections.find? fun s => s.id == id

def countIn (s : Section) : Nat := (rdU32 ⟨data,s.stop⟩ s.start).elim 0 Prod.fst

def entriesIn {α : Type} (entry : Rd → Nat → Except Int (α × Nat)) (s : Section) : List α :=
  match rdU32 ⟨data,s.stop⟩ s.start with
  | none => []
  | some count =>
      match readMany (fun _ => entry ⟨data,s.stop⟩) count.1 0 count.2 with
      | .error _ => []
      | .ok entries => entries.1

def importCount (sections : List Section) : Nat := (sectionOf sections secImport).elim 0 (countIn data)

def typesOf (sections : List Section) : List FuncType := (sectionOf sections secType).elim [] (entriesIn data readType)

def functionsOf (sections : List Section) : List Nat :=
  (sectionOf sections secFunction).elim [] (entriesIn data fun r pos => orInvalid (rdU32 r pos))

def exportsOf (sections : List Section) : List Export :=
  (sectionOf sections secExport).elim [] (entriesIn data readExport)

def bodiesOf (sections : List Section) : List Body := (sectionOf sections secCode).elim [] (entriesIn data readBody)

def beforeCode (sections : List Section) : List Section := sections.takeWhile fun s => s.id != secCode

def isNamed (want : Option CString) (e : Export) : Bool :=
  e.kind == 0 && match want with
    | none => true
    | some name => name.1.isEmpty || e.name == name.1

def namedExport (want : Option CString) (sections : List Section) : Option Export :=
  (exportsOf data sections).find? (isNamed want)

def selectedExport (want : Option CString) (sections : List Section) : Option Export :=
  (exportsOf data sections).find? fun e => e.kind == 0 && selects want e

end Space

def WMod.entryType (m : WMod) : Option FuncType :=
  m.body.bind fun body => (m.funcs[body.index]?).bind fun type => m.types[type]?

/-- The body chosen and the counts used are those of the local function that the index
of the named export denotes. -/
def Resolved (data : Bytes) (sections : List Section) (want : Option CString) (m : WMod) : Prop :=
  ∃ named localIndex type, namedExport data want sections = some named ∧
    named.index = importCount data sections + localIndex ∧
    m.body.map EntryBody.body = (bodiesOf data sections)[localIndex]? ∧
    (functionsOf data sections)[localIndex]?.bind (fun declared => (typesOf data sections)[declared]?) = some type ∧
    m.entryType = some type

section Lookup

variable (sections : List Section) (s : Section) (id : UInt8)

theorem sectionOf_snoc_other (other : s.id ≠ id) : sectionOf (sections ++ [s]) id = sectionOf sections id := by
  rw [sectionOf,List.find?_append]
  simp [sectionOf,other]

theorem sectionOf_snoc_new (fresh : ∀ s' ∈ sections, s'.id ≠ id) (same : s.id = id) :
    sectionOf (sections ++ [s]) id = some s := by
  have absent : sections.find? (fun s => s.id == id) = none := by
    simpa [List.find?_eq_none] using fresh
  rw [sectionOf,List.find?_append,absent]
  simp [same]

theorem sectionOf_absent (fresh : ∀ s' ∈ sections, s'.id ≠ id) : sectionOf sections id = none := by
  simpa [sectionOf,List.find?_eq_none] using fresh

end Lookup

theorem noteExport_fold (want : Option CString) (exports : List Export) :
    exports.foldl (noteExport want) none = (exports.find? fun e => e.kind == 0 && selects want e).map Export.index := by
  have settled : ∀ (rest : List Export) (index : Nat), rest.foldl (noteExport want) (some index) = some index := by
    intro rest index
    induction rest with
    | nil => rfl
    | cons e rest ih => simp [noteExport,ih]
  induction exports with
  | nil => rfl
  | cons e rest ih =>
    rw [List.foldl_cons,List.find?_cons]
    by_cases function : e.kind = 0
    · cases matched : selects want e with
      | true => simp [noteExport,function,matched,settled]
      | false => simp [noteExport,function,matched,ih]
    · have other : (e.kind == 0) = false := by simpa using function
      simp [noteExport,function,other,ih]

theorem noteBody_fold (bodies : List (Body × Nat)) (m : WMod) :
    ∃ body, bodies.foldl noteBody m = { m with body } ∧ ∀ chosen, body = some chosen → m.body = some chosen ∨
      (m.entry = some (m.imports.length + chosen.index) ∧ (chosen.body,chosen.index) ∈ bodies) := by
  induction bodies generalizing m with
  | nil => exact ⟨m.body,rfl,fun chosen given => .inl given⟩
  | cons first rest ih =>
    rw [List.foldl_cons]
    by_cases entry : m.entry = some (m.imports.length + first.2)
    · rw [noteBody,if_pos entry]
      obtain ⟨body,result,origin⟩ := ih { m with body := some ⟨first.2,first.1⟩ }
      refine ⟨body,result,fun chosen given => .inr ?_⟩
      rcases origin chosen given with same | ⟨number,member⟩
      · cases same
        exact ⟨entry,List.mem_cons_self⟩
      · exact ⟨number,List.mem_cons_of_mem _ member⟩
    · rw [noteBody,if_neg entry]
      obtain ⟨body,result,origin⟩ := ih m
      exact ⟨body,result,fun chosen given => (origin chosen given).imp_right fun later =>
        ⟨later.1,List.mem_cons_of_mem _ later.2⟩⟩

variable {body : Body} {pos : Nat} {r : Rd} {registry : Registry}

section Parsed

variable (data : Bytes) (s : Section) (m result : WMod)

theorem readMany_entriesIn {α : Type} {entry : Rd → Nat → Except Int (α × Nat)} {count : Nat × Nat}
    {entries : List α × Nat} (counted : rdU32 ⟨data,s.stop⟩ s.start = some count)
    (read : readMany (fun _ => entry ⟨data,s.stop⟩) count.1 0 count.2 = .ok entries) :
    entriesIn data entry s = entries.1 := by
  simp only [entriesIn,counted,read]

theorem parseTypeSection_ok (parsed : parseTypeSection ⟨data,s.stop⟩ m s.start = .ok result) :
    result = { m with types := entriesIn data readType s } := by
  obtain ⟨count,counted,rest⟩ := bind_ok.mp parsed
  have counted := orInvalid_ok.mp counted
  split at rest
  · contradiction
  · obtain ⟨types,read,same⟩ := bind_ok.mp rest
    rw [readMany_entriesIn data s counted read]
    exact (Except.ok.inj same).symm

theorem parseImportSection_ok (parsed : parseImportSection ⟨data,s.stop⟩ registry m s.start = .ok result) :
    ∃ imports, result = { m with imports := m.imports ++ imports } ∧ imports.length = countIn data s := by
  obtain ⟨count,counted,rest⟩ := bind_ok.mp parsed
  have counted := orInvalid_ok.mp counted
  obtain ⟨imports,read,same⟩ := bind_ok.mp rest
  refine ⟨imports.1,(Except.ok.inj same).symm,?_⟩
  rw [readMany_length _ _ _ _ _ read,countIn,counted]
  rfl

theorem readFunction_ok {types : List FuncType} {typeidx : Nat × Nat} (read : readFunction r types pos = .ok typeidx) :
    orInvalid (rdU32 r pos) = .ok typeidx ∧ typeidx.1 < types.length := by
  obtain ⟨value,plain,rest⟩ := bind_ok.mp read
  split at rest
  · contradiction
  · rename_i inside
    cases Except.ok.inj rest
    exact ⟨plain,Nat.not_le.mp inside⟩

theorem parseFunctionSection_ok (parsed : parseFunctionSection ⟨data,s.stop⟩ m s.start = .ok result) :
    ∃ funcs, result = { m with funcs } ∧ funcs = entriesIn data (fun r pos => orInvalid (rdU32 r pos)) s ∧
      ∀ type ∈ funcs, type < m.types.length := by
  obtain ⟨count,counted,rest⟩ := bind_ok.mp parsed
  have counted := orInvalid_ok.mp counted
  split at rest
  · contradiction
  obtain ⟨funcs,read,same⟩ := bind_ok.mp rest
  refine ⟨funcs.1,(Except.ok.inj same).symm,?_,?_⟩
  · apply Eq.symm
    apply readMany_entriesIn data s counted
    exact readMany_mono (fun _ pos value given => (readFunction_ok given).1) _ _ _ _ read
  · exact readMany_all (fun _ pos value next given => (readFunction_ok given).2) _ _ _ _ _ read

theorem parseExportSection_ok (want : Option CString)
    (parsed : parseExportSection ⟨data,s.stop⟩ want m s.start = .ok result) :
    result = { m with entry := (entriesIn data readExport s).foldl (noteExport want) m.entry } := by
  obtain ⟨count,counted,rest⟩ := bind_ok.mp parsed
  have counted := orInvalid_ok.mp counted
  obtain ⟨exports,read,same⟩ := bind_ok.mp rest
  rw [readMany_entriesIn data s counted read]
  exact (Except.ok.inj same).symm

theorem parseCodeSection_ok (parsed : parseCodeSection ⟨data,s.stop⟩ m s.start = .ok result) :
    result = (entriesIn data readBody s).zipIdx.foldl noteBody m ∧ (entriesIn data readBody s).length = m.funcs.length := by
  obtain ⟨count,counted,rest⟩ := bind_ok.mp parsed
  have counted := orInvalid_ok.mp counted
  split at rest
  · contradiction
  rename_i many
  obtain ⟨bodies,read,same⟩ := bind_ok.mp rest
  rw [readMany_entriesIn data s counted read,readMany_length _ _ _ _ _ read]
  exact ⟨(Except.ok.inj same).symm,not_not.mp many⟩

theorem once_ok {id : UInt8} {parse : WMod → Except Int WMod} (parsed : once m id parse = .ok result) :
    id ∉ m.seen ∧ parse { m with seen := id :: m.seen } = .ok result := by
  unfold once at parsed
  split at parsed
  · contradiction
  · rename_i fresh
    exact ⟨fresh,parsed⟩

end Parsed

structure ReadSoFar (data : Bytes) (want : Option CString) (sections : List Section) (m : WMod) : Prop where
  seen : ∀ id, id ≠ secCustom → (id ∈ m.seen ↔ ∃ s ∈ sections, s.id = id)
  types : m.types = typesOf data sections
  imports : m.imports.length = importCount data sections
  funcs : m.funcs = functionsOf data sections
  typed : ∀ type ∈ m.funcs, type < m.types.length
  entry : m.entry = (selectedExport data want sections).map Export.index
  body : ∀ chosen, m.body = some chosen → (∃ s ∈ sections, s.id = secCode) ∧
    m.entry = some (importCount data (beforeCode sections) + chosen.index) ∧
    (bodiesOf data sections)[chosen.index]? = some chosen.body ∧ chosen.index < m.funcs.length

theorem readSoFar_empty (data : Bytes) (want : Option CString) : ReadSoFar data want [] .empty where
  seen := by simp [WMod.empty]
  types := rfl
  imports := rfl
  funcs := rfl
  typed := by simp [WMod.empty]
  entry := rfl
  body := by simp [WMod.empty]

section Steps

variable (data : Bytes) (want : Option CString) (sections : List Section) (s : Section)

theorem beforeCode_snoc (code : ∃ s' ∈ sections, s'.id = secCode) :
    beforeCode (sections ++ [s]) = beforeCode sections := by
  obtain ⟨s',member,same⟩ := code
  rw [beforeCode,List.takeWhile_append,if_neg]
  · rfl
  · intro full
    have whole := List.takeWhile_eq_self_iff.mp ((List.takeWhile_sublist _).eq_of_length full) s' member
    simp [same] at whole

theorem beforeCode_fresh (fresh : ∀ s' ∈ sections, s'.id ≠ secCode) (same : s.id = secCode) :
    beforeCode (sections ++ [s]) = sections := by
  have whole : sections.takeWhile (fun s => s.id != secCode) = sections := by
    apply List.takeWhile_eq_self_iff.mpr
    intro s' member
    simpa using fresh s' member
  rw [beforeCode,List.takeWhile_append,whole,if_pos rfl]
  simp [same]

variable {data want sections} {m result : WMod}

variable (sofar : ReadSoFar data want sections m)

include sofar

theorem ReadSoFar.fresh (id : UInt8) (known : id ≠ secCustom) (unseen : id ∉ m.seen) : ∀ s' ∈ sections, s'.id ≠ id :=
  fun s' member same => unseen ((sofar.seen id known).mpr ⟨s',member,same⟩)

theorem ReadSoFar.seen_snoc (id : UInt8) (same : s.id = id) :
    ∀ other, other ≠ secCustom → (other ∈ id :: m.seen ↔ ∃ s' ∈ sections ++ [s], s'.id = other) := by
  intro other known
  have before := sofar.seen other known
  constructor
  · intro member
    rcases List.mem_cons.mp member with rfl | earlier
    · exact ⟨s,by simp,same⟩
    · obtain ⟨s',inside,equal⟩ := before.mp earlier
      exact ⟨s',List.mem_append_left _ inside,equal⟩
  · rintro ⟨s',inside,equal⟩
    rcases List.mem_append.mp inside with earlier | last
    · exact List.mem_cons_of_mem _ (before.mpr ⟨s',earlier,equal⟩)
    · rw [List.mem_singleton.mp last,same] at equal
      exact equal ▸ List.mem_cons_self

theorem ReadSoFar.body_kept (other : s.id ≠ secCode) :
    ∀ chosen, m.body = some chosen → (∃ s' ∈ sections ++ [s], s'.id = secCode) ∧
      m.entry = some (importCount data (beforeCode (sections ++ [s])) + chosen.index) ∧
      (bodiesOf data (sections ++ [s]))[chosen.index]? = some chosen.body ∧ chosen.index < m.funcs.length := by
  intro chosen given
  obtain ⟨⟨s',inside,equal⟩,entry,body,typed⟩ := sofar.body chosen given
  rw [beforeCode_snoc sections s ⟨s',inside,equal⟩,bodiesOf,sectionOf_snoc_other sections s secCode other]
  exact ⟨⟨s',List.mem_append_left _ inside,equal⟩,entry,body,typed⟩

/-- A section leaves alone what the others are read into. -/
theorem ReadSoFar.others {id : UInt8} (same : s.id = id) :
    (id ≠ secType → m.types = typesOf data (sections ++ [s])) ∧
      (id ≠ secImport → m.imports.length = importCount data (sections ++ [s])) ∧
      (id ≠ secFunction → m.funcs = functionsOf data (sections ++ [s])) ∧
      (id ≠ secExport → m.entry = (selectedExport data want (sections ++ [s])).map Export.index) := by
  have other : ∀ kind, id ≠ kind → sectionOf (sections ++ [s]) kind = sectionOf sections kind :=
    fun kind differ => sectionOf_snoc_other sections s kind (same ▸ differ)
  refine ⟨fun differ => ?_,fun differ => ?_,fun differ => ?_,fun differ => ?_⟩
  · rw [typesOf,other _ differ]
    exact sofar.types
  · rw [importCount,other _ differ]
    exact sofar.imports
  · rw [functionsOf,other _ differ]
    exact sofar.funcs
  · rw [selectedExport,exportsOf,other _ differ]
    exact sofar.entry

theorem ReadSoFar.custom_read (same : s.id = secCustom) : ReadSoFar data want (sections ++ [s]) m := by
  obtain ⟨types,imports,funcs,entry⟩ := sofar.others s same
  refine ⟨?_,types (by decide),imports (by decide),funcs (by decide),sofar.typed,entry (by decide),
    sofar.body_kept s (by rw [same]; decide)⟩
  · intro id known
    rw [sofar.seen id known]
    constructor
    · rintro ⟨s',inside,equal⟩
      exact ⟨s',List.mem_append_left _ inside,equal⟩
    · rintro ⟨s',inside,equal⟩
      rcases List.mem_append.mp inside with earlier | last
      · exact ⟨s',earlier,equal⟩
      · rw [List.mem_singleton.mp last,same] at equal
        exact absurd equal.symm known

theorem ReadSoFar.types_read (same : s.id = secType)
    (parsed : once m secType (fun m => parseTypeSection ⟨data,s.stop⟩ m s.start) = .ok result) :
    ReadSoFar data want (sections ++ [s]) result := by
  obtain ⟨unseen,read⟩ := once_ok m result parsed
  have fresh := sofar.fresh secType (by decide) unseen
  obtain ⟨_,imports,funcs,entry⟩ := sofar.others s same
  rw [parseTypeSection_ok data s _ result read]
  refine ⟨sofar.seen_snoc s secType same,?_,imports (by decide),funcs (by decide),?_,entry (by decide),
    sofar.body_kept s (by rw [same]; decide)⟩
  · rw [typesOf,sectionOf_snoc_new sections s secType fresh same]
    rfl
  · -- functions read before any type can only be none at all
    intro type member
    have before := sofar.typed type member
    rw [sofar.types,typesOf,sectionOf_absent sections secType fresh] at before
    exact absurd before (Nat.not_lt_zero _)

theorem ReadSoFar.imports_read (registry : Registry) (same : s.id = secImport)
    (parsed : once m secImport (fun m => parseImportSection ⟨data,s.stop⟩ registry m s.start) = .ok result) :
    ReadSoFar data want (sections ++ [s]) result := by
  obtain ⟨unseen,read⟩ := once_ok m result parsed
  have fresh := sofar.fresh secImport (by decide) unseen
  obtain ⟨types,_,funcs,entry⟩ := sofar.others s same
  obtain ⟨added,rfl,size⟩ := parseImportSection_ok data s _ result read
  refine ⟨sofar.seen_snoc s secImport same,types (by decide),?_,funcs (by decide),sofar.typed,entry (by decide),
    sofar.body_kept s (by rw [same]; decide)⟩
  · have none : m.imports.length = 0 := by
      rw [sofar.imports,importCount,sectionOf_absent sections secImport fresh]
      rfl
    rw [importCount,sectionOf_snoc_new sections s secImport fresh same,List.length_append,none,size,Nat.zero_add]
    rfl

theorem ReadSoFar.functions_read (same : s.id = secFunction)
    (parsed : once m secFunction (fun m => parseFunctionSection ⟨data,s.stop⟩ m s.start) = .ok result) :
    ReadSoFar data want (sections ++ [s]) result := by
  obtain ⟨unseen,read⟩ := once_ok m result parsed
  have fresh := sofar.fresh secFunction (by decide) unseen
  obtain ⟨types,imports,_,entry⟩ := sofar.others s same
  obtain ⟨funcs,rfl,entries,typed⟩ := parseFunctionSection_ok data s _ result read
  refine ⟨sofar.seen_snoc s secFunction same,types (by decide),imports (by decide),?_,typed,entry (by decide),?_⟩
  · rw [functionsOf,sectionOf_snoc_new sections s secFunction fresh same]
    exact entries
  · -- a body is only chosen among declared functions
    intro chosen given
    have declared := (sofar.body chosen given).2.2.2
    rw [sofar.funcs,functionsOf,sectionOf_absent sections secFunction fresh] at declared
    exact absurd declared (Nat.not_lt_zero _)

theorem ReadSoFar.exports_read (same : s.id = secExport)
    (parsed : once m secExport (fun m => parseExportSection ⟨data,s.stop⟩ want m s.start) = .ok result) :
    ReadSoFar data want (sections ++ [s]) result := by
  obtain ⟨unseen,read⟩ := once_ok m result parsed
  have fresh := sofar.fresh secExport (by decide) unseen
  obtain ⟨types,imports,funcs,_⟩ := sofar.others s same
  have unset : m.entry = none := by
    rw [sofar.entry,selectedExport,exportsOf,sectionOf_absent sections secExport fresh]
    rfl
  rw [parseExportSection_ok data s _ result want read]
  refine ⟨sofar.seen_snoc s secExport same,types (by decide),imports (by decide),funcs (by decide),sofar.typed,?_,?_⟩
  · rw [selectedExport,exportsOf,sectionOf_snoc_new sections s secExport fresh same]
    dsimp only [Option.elim]
    rw [unset,noteExport_fold]
  · intro chosen given
    have entry := (sofar.body chosen given).2.1
    rw [unset] at entry
    contradiction

theorem ReadSoFar.code_read (same : s.id = secCode)
    (parsed : once m secCode (fun m => parseCodeSection ⟨data,s.stop⟩ m s.start) = .ok result) :
    ReadSoFar data want (sections ++ [s]) result := by
  obtain ⟨unseen,read⟩ := once_ok m result parsed
  have fresh := sofar.fresh secCode (by decide) unseen
  obtain ⟨types,imports,funcs,entry⟩ := sofar.others s same
  obtain ⟨folded,size⟩ := parseCodeSection_ok data s _ result read
  obtain ⟨body,noted,origin⟩ := noteBody_fold (entriesIn data readBody s).zipIdx { m with seen := secCode :: m.seen }
  rw [folded,noted]
  refine ⟨sofar.seen_snoc s secCode same,types (by decide),imports (by decide),funcs (by decide),sofar.typed,
    entry (by decide),?_⟩
  · intro chosen given
    rcases origin chosen given with earlier | ⟨number,member⟩
    · obtain ⟨s',inside,equal⟩ := (sofar.body chosen earlier).1
      exact absurd equal (fresh s' inside)
    have place := List.mem_zipIdx_iff_getElem?.mp member
    refine ⟨⟨s,by simp,same⟩,?_,?_,?_⟩
    · rw [beforeCode_fresh sections s fresh same,← sofar.imports]
      exact number
    · rw [bodiesOf,sectionOf_snoc_new sections s secCode fresh same]
      exact place
    · have bound := (List.getElem?_eq_some_iff.mp place).1
      dsimp only at bound size ⊢
      omega

theorem parseSection_sofar (registry : Registry)
    (parsed : parseSection registry want data m s = .ok result) : ReadSoFar data want (sections ++ [s]) result := by
  unfold parseSection at parsed
  split at parsed
  · rename_i same
    rw [← Except.ok.inj parsed]
    exact sofar.custom_read s same
  split at parsed
  · rename_i same
    exact sofar.types_read s same parsed
  split at parsed
  · rename_i same
    exact sofar.imports_read s registry same parsed
  split at parsed
  · rename_i same
    exact sofar.functions_read s same parsed
  split at parsed
  · rename_i same
    exact sofar.exports_read s same parsed
  split at parsed
  · rename_i same
    exact sofar.code_read s same parsed
  · contradiction

end Steps

def readSections (data : Bytes) : (fuel pos : Nat) → Except Int (List Section)
  | 0, _ => throw akEWasmInvalidModule
  | fuel + 1, pos =>
      if data.length ≤ pos then return []
      else do
        let s ← readSection ⟨data,data.length⟩ pos
        let rest ← readSections data fuel s.2
        return s.1 :: rest

def sectionsOf (data : Bytes) : List Section :=
  match readSections data (data.length + 1) 8 with
  | .error _ => []
  | .ok sections => sections

theorem parseSections_sofar (data : Bytes) (want : Option CString) (registry : Registry) (fuel pos : Nat)
    (sections : List Section) (m result : WMod) (sofar : ReadSoFar data want sections m)
    (parsed : parseSections registry want data fuel m pos = .ok result) :
    ∃ rest, readSections data fuel pos = .ok rest ∧ ReadSoFar data want (sections ++ rest) result := by
  induction fuel generalizing pos sections m with
  | zero => contradiction
  | succ fuel ih =>
    rw [parseSections] at parsed
    rw [readSections]
    split at parsed
    · rename_i finished
      rw [if_pos finished,← Except.ok.inj parsed]
      exact ⟨[],rfl,by rwa [List.append_nil]⟩
    rename_i more
    rw [if_neg more]
    obtain ⟨s,framed,remaining⟩ := bind_ok.mp parsed
    obtain ⟨next,one,others⟩ := bind_ok.mp remaining
    obtain ⟨rest,read,final⟩ := ih s.2 _ next (parseSection_sofar s.1 sofar registry one) others
    refine ⟨s.1 :: rest,bind_ok.mpr ⟨s,framed,bind_ok.mpr ⟨rest,read,rfl⟩⟩,?_⟩
    rwa [List.append_assoc] at final

theorem parseModule_sofar {data : Bytes} {want : Option CString} {m : WMod}
    (accepted : parseModule registry want data = .ok m) :
    ReadSoFar data want (sectionsOf data) m ∧ ∃ chosen, m.body = some chosen := by
  obtain ⟨magic,first,rest⟩ := bind_ok.mp accepted
  obtain ⟨version,second,rest⟩ := bind_ok.mp rest
  split at rest
  · contradiction
  obtain ⟨read,parsed,final⟩ := bind_ok.mp rest
  have start : version.2 = 8 := by
    unfold rdU32RawLe at first second
    split at first
    · contradiction
    cases first
    split at second
    · contradiction
    cases second
    rfl
  rw [start] at parsed
  obtain ⟨sections,framed,sofar⟩ :=
    parseSections_sofar data want registry _ 8 [] .empty read (readSoFar_empty data want) parsed
  have same : sectionsOf data = sections := by rw [sectionsOf,framed]
  rw [same]
  split at final
  · rename_i entry chosen _ body
    split at final
    · contradiction
    · cases Except.ok.inj final
      exact ⟨sofar,chosen,body⟩
  · contradiction

theorem readBody_behind {next : Nat} (read : readBody r pos = .ok (body,next)) :
    pos < body.start ∧ body.start ≤ next := by
  obtain ⟨size,sized,rest⟩ := bind_ok.mp read
  have moved := rdU32_moves r pos size.1 size.2 (orInvalid_ok.mp sized)
  split at rest
  · contradiction
  · cases Except.ok.inj rest
    exact ⟨moved.1,Nat.le_add_right _ _⟩

theorem bodiesOf_injective {data : Bytes} {sections : List Section} {first second : Nat}
    (one : (bodiesOf data sections)[first]? = some body) (two : (bodiesOf data sections)[second]? = some body) :
    first = second := by
  have increasing : (bodiesOf data sections).Pairwise fun first second => first.start < second.start := by
    unfold bodiesOf
    cases sectionOf sections secCode with
    | none => exact List.Pairwise.nil
    | some s =>
      change (entriesIn data readBody s).Pairwise _
      unfold entriesIn
      split
      · exact List.Pairwise.nil
      rename_i count _
      split
      · exact List.Pairwise.nil
      rename_i entries read
      exact (readMany_increasing (fun _ pos body next => readBody_behind) _ _ _ _ _ read).1
  have distinct : (bodiesOf data sections).Nodup :=
    increasing.imp fun {first second} before same => absurd (same ▸ before) (Nat.lt_irrefl _)
  have bound := (List.getElem?_eq_some_iff.mp one).1
  exact (List.getElem?_inj bound distinct).mp (one.trans two.symm)

/-- The body that runs is the one the named export denotes exactly when what the name
selects as a C string lies as far behind the imports read before the code as the export
of that very name lies behind all imports. -/
theorem entry_resolved_iff (registry : Registry) (want : Option CString) (data : Bytes) (m : WMod)
    (accepted : parseModule registry want data = .ok m) :
    Resolved data (sectionsOf data) want m ↔
      ∃ named selected, namedExport data want (sectionsOf data) = some named ∧
        selectedExport data want (sectionsOf data) = some selected ∧
        named.index + importCount data (beforeCode (sectionsOf data)) =
          selected.index + importCount data (sectionsOf data) := by
  obtain ⟨sofar,chosen,given⟩ := parseModule_sofar accepted
  obtain ⟨_,entry,body,declared⟩ := sofar.body chosen given
  rw [sofar.entry] at entry
  obtain ⟨selected,found,index⟩ := Option.map_eq_some_iff.mp entry
  obtain ⟨type,function⟩ : ∃ type, m.funcs[chosen.index]? = some type := ⟨_,List.getElem?_eq_getElem declared⟩
  have typed := sofar.typed type (List.mem_of_getElem? function)
  obtain ⟨counts,typeEntry⟩ : ∃ counts, m.types[type]? = some counts := ⟨_,List.getElem?_eq_getElem typed⟩
  constructor
  · rintro ⟨named,localIndex,_,exported,number,same,_,_⟩
    rw [given,Option.map_some] at same
    have place := bodiesOf_injective body same.symm
    exact ⟨named,selected,exported,found,by omega⟩
  · rintro ⟨named,selected',exported,found',balance⟩
    rw [found] at found'
    cases found'
    refine ⟨named,chosen.index,counts,exported,by omega,?_,?_,?_⟩
    · rw [given,body]
      rfl
    · rw [← sofar.funcs,function,← sofar.types,Option.bind_some]
      exact typeEntry
    · rw [WMod.entryType,given,Option.bind_some,function,Option.bind_some]
      exact typeEntry

/-- Sections of small modules: one type, two functions of it with empty bodies, the
function `h` of the host, and the export of function 1 under the name `f`. -/
def typeSection : Bytes := [1,4,1,0x60,0,0]
def importSection : Bytes := [2,6,1,0,1,0x68,0,0]
def functionSection : Bytes := [3,3,2,0,0]
def exportSection : Bytes := [7,5,1,1,0x66,0,1]
def codeSection : Bytes := [10,7,2,2,0,0x0b,2,0,0x0b]

def moduleOf (sections : List Bytes) : Bytes := [0,0x61,0x73,0x6d,1,0,0,0] ++ sections.flatten

def orderedModule : Bytes := moduleOf [typeSection,importSection,functionSection,exportSection,codeSection]

def lateImportModule : Bytes := moduleOf [typeSection,functionSection,exportSection,codeSection,importSection]

/-- Function 0 is exported under the name `f` followed by a NUL, and function 1 as `f`. -/
def nulNameModule : Bytes :=
  moduleOf [typeSection,functionSection,[7,10,2,2,0x66,0,0,0,1,0x66,0,1],codeSection]

def anyHost : Registry := fun _ => some ⟨true,false⟩

def nameF : Option CString := some ⟨[0x66],by decide⟩

theorem ordered_module_resolved :
    ∃ m, parseModule anyHost nameF orderedModule = .ok m ∧ Resolved orderedModule (sectionsOf orderedModule) nameF m :=
  ⟨_,rfl,(entry_resolved_iff anyHost nameF orderedModule _ rfl).mpr
    ⟨⟨[0x66],0,1⟩,⟨[0x66],0,1⟩,by decide +kernel,by decide +kernel,by decide +kernel⟩⟩

/-- With the import behind the code, index 1 denotes the first body, and the second one
runs; the name cut at a NUL selects another function too. -/
theorem entry_misresolved :
    (∃ m, parseModule anyHost nameF lateImportModule = .ok m ∧
      ¬ Resolved lateImportModule (sectionsOf lateImportModule) nameF m) ∧
    ∃ m, parseModule anyHost nameF nulNameModule = .ok m ∧ ¬ Resolved nulNameModule (sectionsOf nulNameModule) nameF m := by
  constructor
  · refine ⟨_,rfl,?_⟩
    rintro ⟨named,localIndex,type,exported,number,same,_,_⟩
    have onlyExport : namedExport lateImportModule nameF (sectionsOf lateImportModule) = some ⟨[0x66],0,1⟩ := by
      decide +kernel
    have imports : importCount lateImportModule (sectionsOf lateImportModule) = 1 := by decide +kernel
    rw [onlyExport] at exported
    cases exported
    rw [imports] at number
    have first : localIndex = 0 := by
      change 1 = 1 + localIndex at number
      omega
    rw [first] at same
    exact absurd same (by decide +kernel)
  · refine ⟨_,rfl,?_⟩
    rintro ⟨named,localIndex,type,exported,number,same,_,_⟩
    have onlyExport : namedExport nulNameModule nameF (sectionsOf nulNameModule) = some ⟨[0x66],0,1⟩ := by
      decide +kernel
    have imports : importCount nulNameModule (sectionsOf nulNameModule) = 0 := by decide +kernel
    rw [onlyExport] at exported
    cases exported
    rw [imports] at number
    have second : localIndex = 1 := by
      change 1 = 0 + localIndex at number
      omega
    rw [second] at same
    exact absurd same (by decide +kernel)

end AuthorityKernel.Wasm
