import AuthorityKernel.Library.Reads
import AuthorityKernel.Wasm.Reader

/-! Reading a module: its sections are taken in the order of the file, and the body to
run is chosen while the code section is read. -/
namespace AuthorityKernel.Wasm
open Library Library.Reads

def inMaxTypes : Nat := 128
def inMaxParams : Nat := 16
def inMaxImports : Nat := 64
def inMaxFuncs : Nat := 256
def inMaxName : Nat := 64
def inWasmMagic : Nat := 0x6d736100
def inWasmVersion : Nat := 1

def secCustom : UInt8 := 0
def secType : UInt8 := 1
def secImport : UInt8 := 2
def secFunction : UInt8 := 3
def secExport : UInt8 := 7
def secCode : UInt8 := 10

/-- Only the counts of a type are kept. -/
structure FuncType where
  params : Nat
  results : Nat
deriving DecidableEq

structure Import where
  type : Nat
  name : CString

structure Export where
  name : Bytes
  kind : UInt8
  index : Nat
deriving DecidableEq

structure Body where
  start : Nat
  stop : Nat
deriving DecidableEq

structure EntryBody where
  index : Nat
  body : Body
deriving DecidableEq

/-- `seen` holds the sections read, and `entry` the index of the function to run. -/
structure WMod where
  types : List FuncType
  imports : List Import
  funcs : List Nat
  seen : List UInt8
  entry : Option Nat
  body : Option EntryBody

def WMod.empty : WMod := ⟨[],[],[],[],none,none⟩

structure HostFn where
  callable : Bool
  asyncCapable : Bool

abbrev Registry := CString → Option HostFn

section Entries

variable (r : Rd)

def readValtypes (count pos : Nat) : Except Int (List UInt8 × Nat) := readMany (fun _ => rdValtype r) count 0 pos

def readType (pos : Nat) : Except Int (FuncType × Nat) := do
  let form ← orInvalid (rdByte r pos)
  if form.1 ≠ 0x60 then throw akEWasmInvalidModule
  let pcount ← orInvalid (rdU32 r form.2)
  if inMaxParams < pcount.1 then throw akEWasmUnsupported
  let params ← readValtypes r pcount.1 pcount.2
  let rcount ← orInvalid (rdU32 r params.2)
  if 1 < rcount.1 then throw akEWasmUnsupported
  let results ← readValtypes r rcount.1 rcount.2
  return (⟨pcount.1,rcount.1⟩,results.2)

def skipName (pos : Nat) : Except Int Nat := do
  let nlen ← orInvalid (rdU32 r pos)
  orInvalid (rdSkip r nlen.1 nlen.2)

/-- A name that is kept must fit its buffer. -/
def readName (pos : Nat) : Except Int (Bytes × Nat) := do
  let nlen ← orInvalid (rdU32 r pos)
  if inMaxName ≤ nlen.1 then throw akEWasmUnsupported
  readMany (fun _ pos => orInvalid (rdByte r pos)) nlen.1 0 nlen.2

/-- Imports are functions without parameters that the registry can call at once. -/
def readImport (registry : Registry) (types : List FuncType) (index pos : Nat) : Except Int (Import × Nat) := do
  let pos ← skipName r pos
  let field ← readName r pos
  let kind ← orInvalid (rdByte r field.2)
  if kind.1 ≠ 0 then throw akEWasmUnsupported
  let typeidx ← orInvalid (rdU32 r kind.2)
  let type ← orInvalid types[typeidx.1]?
  if inMaxImports ≤ index then throw akEWasmUnsupported
  if type.params ≠ 0 then throw akEWasmUnsupported
  match registry (CString.ofBuffer field.1) with
  | none => throw akEWasmUnsupported
  | some fn =>
      if !fn.callable || fn.asyncCapable then throw akEWasmUnsupported
      else return (⟨typeidx.1,CString.ofBuffer field.1⟩,typeidx.2)

def readFunction (types : List FuncType) (pos : Nat) : Except Int (Nat × Nat) := do
  let typeidx ← orInvalid (rdU32 r pos)
  if types.length ≤ typeidx.1 then throw akEWasmInvalidModule
  return typeidx

def readExport (pos : Nat) : Except Int (Export × Nat) := do
  let name ← readName r pos
  let kind ← orInvalid (rdByte r name.2)
  let index ← orInvalid (rdU32 r kind.2)
  return (⟨name.1,kind.1,index.1⟩,index.2)

def readBody (pos : Nat) : Except Int (Body × Nat) := do
  let size ← orInvalid (rdU32 r pos)
  if r.len < size.1 ∨ r.len - size.1 < size.2 then throw akEWasmInvalidModule
  return (⟨size.2,size.2 + size.1⟩,size.2 + size.1)

end Entries

section Sections

variable (r : Rd)

def parseTypeSection (m : WMod) (pos : Nat) : Except Int WMod := do
  let count ← orInvalid (rdU32 r pos)
  if inMaxTypes < count.1 then throw akEWasmUnsupported
  let types ← readMany (fun _ => readType r) count.1 0 count.2
  return { m with types := types.1 }

def parseImportSection (registry : Registry) (m : WMod) (pos : Nat) : Except Int WMod := do
  let count ← orInvalid (rdU32 r pos)
  let imports ← readMany (readImport r registry m.types) count.1 m.imports.length count.2
  return { m with imports := m.imports ++ imports.1 }

def parseFunctionSection (m : WMod) (pos : Nat) : Except Int WMod := do
  let count ← orInvalid (rdU32 r pos)
  if inMaxFuncs < count.1 then throw akEWasmUnsupported
  let funcs ← readMany (fun _ => readFunction r m.types) count.1 0 count.2
  return { m with funcs := funcs.1 }

/-- The name asked for is a C string and is compared as one; without a name any function
will do. -/
def selects (want : Option CString) (e : Export) : Bool :=
  match want with
  | none => true
  | some name => name.1.isEmpty || cstr e.name == name.1

def noteExport (want : Option CString) (entry : Option Nat) (e : Export) : Option Nat :=
  if e.kind ≠ 0 then entry
  else if entry.isSome then entry
  else if selects want e then some e.index else entry

def parseExportSection (want : Option CString) (m : WMod) (pos : Nat) : Except Int WMod := do
  let count ← orInvalid (rdU32 r pos)
  let exports ← readMany (fun _ => readExport r) count.1 0 count.2
  return { m with entry := exports.1.foldl (noteExport want) m.entry }

/-- Bodies are numbered behind the imports read so far. -/
def noteBody (m : WMod) (body : Body × Nat) : WMod :=
  if m.entry = some (m.imports.length + body.2) then { m with body := some ⟨body.2,body.1⟩ } else m

def parseCodeSection (m : WMod) (pos : Nat) : Except Int WMod := do
  let count ← orInvalid (rdU32 r pos)
  if count.1 ≠ m.funcs.length then throw akEWasmInvalidModule
  let bodies ← readMany (fun _ => readBody r) count.1 0 count.2
  return bodies.1.zipIdx.foldl noteBody m

end Sections

structure Section where
  id : UInt8
  start : Nat
  stop : Nat

def readSection (r : Rd) (pos : Nat) : Except Int (Section × Nat) := do
  let id ← orInvalid (rdByte r pos)
  let size ← orInvalid (rdU32 r id.2)
  if r.len < size.1 ∨ r.len - size.1 < size.2 then throw akEWasmInvalidModule
  return (⟨id.1,size.2,size.2 + size.1⟩,size.2 + size.1)

def once (m : WMod) (id : UInt8) (parse : WMod → Except Int WMod) : Except Int WMod :=
  if id ∈ m.seen then throw akEWasmInvalidModule else parse { m with seen := id :: m.seen }

def parseSection (registry : Registry) (want : Option CString) (data : Bytes) (m : WMod) (s : Section) :
    Except Int WMod :=
  let r : Rd := ⟨data,s.stop⟩
  if s.id = secCustom then return m
  else if s.id = secType then once m secType fun m => parseTypeSection r m s.start
  else if s.id = secImport then once m secImport fun m => parseImportSection r registry m s.start
  else if s.id = secFunction then once m secFunction fun m => parseFunctionSection r m s.start
  else if s.id = secExport then once m secExport fun m => parseExportSection r want m s.start
  else if s.id = secCode then once m secCode fun m => parseCodeSection r m s.start
  else throw akEWasmUnsupported

def parseSections (registry : Registry) (want : Option CString) (data : Bytes) :
    (fuel : Nat) → WMod → Nat → Except Int WMod
  | 0, _, _ => throw akEWasmInvalidModule
  | fuel + 1, m, pos =>
      if data.length ≤ pos then return m
      else do
        let s ← readSection ⟨data,data.length⟩ pos
        let m ← parseSection registry want data m s.1
        parseSections registry want data fuel m s.2

def parseModule (registry : Registry) (want : Option CString) (data : Bytes) : Except Int WMod := do
  let magic ← orInvalid (rdU32RawLe ⟨data,data.length⟩ 0)
  let version ← orInvalid (rdU32RawLe ⟨data,data.length⟩ magic.2)
  if magic.1 ≠ inWasmMagic ∨ version.1 ≠ inWasmVersion then throw akEWasmInvalidModule
  let m ← parseSections registry want data (data.length + 1) .empty version.2
  match m.entry, m.body with
  | some entry, some _ => if entry < m.imports.length then throw akEWasmUnsupported else return m
  | _, _ => throw akEWasmExportNotFound

end AuthorityKernel.Wasm
