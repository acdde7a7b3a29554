import AuthorityKernel.Library.Paths
import AuthorityKernel.Wasm.HostCalls

/-! The file functions of tools. A path is matched against the capability as a flat
string and handed on as it was given, so `..` components in it are resolved by nobody
before the host does. -/
namespace AuthorityKernel.Wasm.HostCalls
open Library Capability Proxy Library.Paths

/-- The path of a call, taken from the arguments without undoing escapes. -/
def fsPath (ctx : Option ExecCtx) (args : Option Bytes) : Except Int CString :=
  if (ctx.bind ExecCtx.agent).isNone then .error akECapMissing
  else
    match args.bind (parseJsonString (ascii "path")) with
    | none => .error akESchemaInvalid
    | some path =>
        if path.length = 0 then .error akESchemaInvalid
        else if path.length ≥ 512 then .error akESchemaInvalid
        else .ok (.ofBuffer path)

section Calls

variable (env : HostEnv) (ctx : Option ExecCtx) (args : Option Bytes) (caps : CapState) (proxy : ProxyState)

/-- The four calls differ in the method they ask for, the request they make and what they
return of its answer. -/
def fileCall (method : String) (request : CString → Except Int ProxyRequest)
    (answer : Except Int Reply → Except Int Bytes) : HostOutcome :=
  match fsPath ctx args with
  | .error code => refuse caps proxy code
  | .ok path =>
      let check := validateHostCap env.validate ctx .fs path method caps
      if check.2 ≠ 0 then refuse check.1 proxy check.2
      else if !akProxyConnected env.serial proxy then refuse check.1 proxy akENotImplemented
      else
        match request path with
        | .error code => refuse check.1 proxy code
        | .ok request => forward check.1 proxy env.exchange request answer

def readResult (alloc : Bool) : Except Int Reply → Except Int Bytes
  | .ok (.content content) => createJsonResult alloc "content" (content.getD [])
  | .ok _ => createJsonResult alloc "content" []
  | .error code => .error code

def akHostFsRead : HostOutcome :=
  fileCall env ctx args caps proxy "read" (fun path => .ok (.fsRead path)) (readResult env.resultAlloc)

def writeRequest (path : CString) : Except Int ProxyRequest :=
  match args.bind (parseJsonString (ascii "content")) with
  | none => .error akESchemaInvalid
  | some content => if env.scratchAlloc then .ok (.fsWrite path content) else .error akEWasmOom

def writeResult (alloc : Bool) : Except Int Reply → Except Int Bytes
  | .ok (.written count) => createJsonResult alloc "bytes_written" (decimalNat count.toUInt64.toNat)
  | .ok _ => createJsonResult alloc "bytes_written" (decimalNat 0)
  | .error code => .error code

def akHostFsWrite : HostOutcome :=
  fileCall env ctx args caps proxy "write" (writeRequest env args) (writeResult env.resultAlloc)

def boolText (value : Bool) : Bytes := if value then ascii "true" else ascii "false"

/-- The members of a file's description behind its name or existence. The blank behind the
last key is cut off. -/
def infoMembers (info : FileInfo) : Bytes :=
  boolText info.isDir ++ ascii ", \"mode\": \"" ++ info.mode.1 ++ ascii "\"" ++
    (ascii ", \"mod_time_ms\": ").take 16 ++ decimalNat info.modTimeMs.toNat ++ ascii "\x7d"

def statText (info : FileInfo) : Bytes :=
  ascii "\x7b\"size\": " ++ decimalNat info.size.toNat ++ ascii ", \"exists\": true, \"is_dir\": " ++ infoMembers info

def statResult (alloc : Bool) : Except Int Reply → Except Int Bytes
  | .error code =>
      if code = akProxyERemote then
        if alloc then .ok (ascii "\x7b\"size\": 0, \"exists\": false\x7d") else .error akEWasmOom
      else .error code
  | .ok (.info info) => if alloc then .ok (statText info) else .error akEWasmOom
  | .ok _ => .error akEWasmOom

def akHostFsStat : HostOutcome :=
  fileCall env ctx args caps proxy "stat" (fun path => .ok (.fsStat path)) (statResult env.resultAlloc)

def entryText (info : FileInfo) : Bytes :=
  ascii "\x7b\"name\": \"" ++ escaped info.name.1 ++ ascii "\", \"size\": " ++ decimalNat info.size.toNat ++
    ascii ", \"is_dir\": " ++ infoMembers info

def listText (entries : List FileInfo) : Bytes :=
  ascii "\x7b\"entries\": [" ++ List.intercalate (ascii ", ") (entries.map entryText) ++ ascii "], \"count\": " ++
    decimalNat entries.length ++ ascii "\x7d"

def listResult (alloc : Bool) : Except Int Reply → Except Int Bytes
  | .error code =>
      if code = akProxyERemote then
        if alloc then .ok (ascii "\x7b\"entries\": [], \"count\": 0\x7d") else .error akEWasmOom
      else .error code
  | .ok (.entries entries) => if alloc then .ok (listText entries) else .error akEWasmOom
  | .ok _ => .error akEWasmOom

def akHostFsList : HostOutcome :=
  fileCall env ctx args caps proxy "list" (fun path => .ok (.fsList path)) (listResult env.resultAlloc)

end Calls

inductive FileOp
  | read
  | write
  | stat
  | list

def hostFile (op : FileOp) (env : HostEnv) (ctx : Option ExecCtx) (args : Option Bytes) (caps : CapState)
    (proxy : ProxyState) : HostOutcome :=
  match op with
  | .read => akHostFsRead env ctx args caps proxy
  | .write => akHostFsWrite env ctx args caps proxy
  | .stat => akHostFsStat env ctx args caps proxy
  | .list => akHostFsList env ctx args caps proxy

def requestPath : ProxyRequest → Option CString
  | .fsRead path => some path
  | .fsWrite path _ => some path
  | .fsStat path => some path
  | .fsList path => some path
  | _ => none

variable {ctx : Option ExecCtx} {args : Option Bytes}

theorem fsPath_ok {path : CString} (found : fsPath ctx args = .ok path) :
    ∃ text, args.bind (parseJsonString (ascii "path")) = some text ∧ path = .ofBuffer text := by
  unfold fsPath at found
  split at found
  · cases found
  split at found
  · cases found
  rename_i text given
  split at found
  · cases found
  split at found
  · cases found
  exact ⟨text,given,(Except.ok.inj found).symm⟩

variable {env : HostEnv} {caps : CapState} {proxy : ProxyState} {sent : ProxyRequest}

theorem fileCall_forwarded {method : String} {request : CString → Except Int ProxyRequest}
    {answer : Except Int Reply → Except Int Bytes}
    (forwarded : (fileCall env ctx args caps proxy method request answer).forwarded = some sent) :
    ∃ path agent cap, fsPath ctx args = .ok path ∧ request path = .ok sent ∧ ctx.bind ExecCtx.cap = some cap ∧
      InScope cap ⟨.fs,path,some (name method),some agent⟩ := by
  unfold fileCall at forwarded
  split at forwarded
  · cases forwarded
  rename_i path named
  dsimp only at forwarded
  split at forwarded
  · cases forwarded
  rename_i granted
  obtain ⟨agent,cap,_,held,⟨_,_,_,scope⟩,_⟩ := validateHostCap_zero_iff.mp (not_not.mp granted)
  split at forwarded
  · cases forwarded
  split at forwarded
  · cases forwarded
  rename_i made
  refine ⟨path,agent.runId,cap,named,?_,held,scope⟩
  rw [forward_forwarded _ _ forwarded]
  exact made

theorem hostFile_forwarded {op : FileOp} (forwarded : (hostFile op env ctx args caps proxy).forwarded = some sent) :
    ∃ path method agent cap, fsPath ctx args = .ok path ∧ requestPath sent = some path ∧
      ctx.bind ExecCtx.cap = some cap ∧ InScope cap ⟨.fs,path,some method,some agent⟩ := by
  cases op with
  | read | stat | list =>
    obtain ⟨path,agent,cap,named,made,held,scope⟩ := fileCall_forwarded forwarded
    cases made
    exact ⟨path,_,agent,cap,named,rfl,held,scope⟩
  | write =>
    obtain ⟨path,agent,cap,named,made,held,scope⟩ := fileCall_forwarded forwarded
    unfold writeRequest at made
    split at made
    · cases made
    split at made
    · cases made
      exact ⟨path,_,agent,cap,named,rfl,held,scope⟩
    · cases made

theorem covers_directory {dir path : Bytes} (noStar : starByte ∉ dir) (noAny : anyByte ∉ dir)
    (covered : Covers (dir ++ [47,starByte]) path) : ∃ rest, path = dir ++ 47 :: rest := by
  rw [show dir ++ [47,starByte] = (dir ++ [47]) ++ [starByte] by simp] at covered
  obtain ⟨left,right,rfl,first,_⟩ := (Glob.denotes_append _ _ _).mp covered
  have literal : left = dir ++ [47] := by
    refine (Glob.denotes_literal _ _ ?_ ?_).mp first
    · simpa [starByte] using noStar
    · simpa [anyByte] using noAny
  exact ⟨right,by simp [literal]⟩

/-- What the path names behind the directory leaves the directory only to come back. -/
def StaysBelow (dir : Bytes) (args : Option Bytes) : Prop :=
  ∀ text, args.bind (parseJsonString (ascii "path")) = some text →
    Returns (isRooted (dir ++ [47])) (resolve (dir ++ [47])) (wayOf ((cstr text).drop (dir.length + 1)))

/-- A capability for everything below a directory confines a call exactly if the path in
its arguments does not climb out of the directory by itself. -/
theorem forwarded_inside_iff (op : FileOp) (env : HostEnv) (ctx : ExecCtx) (args : Option Bytes) (caps : CapState)
    (proxy : ProxyState) (dir : CString) (cap : AkCapability) (held : ctx.cap = some cap)
    (resource : cap.resource = dir.1 ++ [47,starByte]) (noStar : starByte ∉ dir.1) (noAny : anyByte ∉ dir.1)
    (sent : ProxyRequest) (path : CString) (forwarded : (hostFile op env (some ctx) args caps proxy).forwarded = some sent)
    (asks : requestPath sent = some path) : LiesInside (dir.1 ++ [47]) path.1 ↔ StaysBelow dir.1 args := by
  obtain ⟨named,method,agent,holder,given,same,held',scope⟩ := hostFile_forwarded forwarded
  obtain rfl : named = path := Option.some.inj (same.symm.trans asks)
  obtain rfl : cap = holder := Option.some.inj (held.symm.trans held')
  obtain ⟨text,parsed,rfl⟩ := fsPath_ok given
  have covered := scope.2.1
  have whole : cstr cap.resource = dir.1 ++ [47,starByte] := by
    rw [resource]
    refine cstr_of_nul_free ?_
    simpa [starByte] using dir.2
  rw [whole] at covered
  obtain ⟨rest,below⟩ := covers_directory noStar noAny covered
  have shape : cstr text = dir.1 ++ 47 :: rest := below
  have behind : (cstr text).drop (dir.1.length + 1) = rest := by simp [shape]
  rw [below,liesInside_below_iff]
  constructor
  · intro returns other found
    rw [parsed] at found
    cases found
    rw [behind]
    exact returns
  · intro stays
    have returns := stays text parsed
    rwa [behind] at returns

def folder : CString := name "/a"

def folderToken : AkCapability := bootToken 2 (name "/a/*") (by decide)

def folderCtx : ExecCtx := ⟨some ⟨0,Block.zero 16⟩,some folderToken⟩

theorem folderToken_resource : folderToken.resource = folder.1 ++ [47,starByte] :=
  show (name "/a/*").1 = folder.1 ++ [47,starByte] by decide +kernel

def pathArgs (path : String) : Option Bytes := some (ascii "\x7b\"path\":\"" ++ ascii path ++ ascii "\"\x7d")

theorem folder_read {path : String} {rest : Bytes} (named : fsPath (some folderCtx) (pathArgs path) = .ok (name path))
    (below : (name path).1 = folder.1 ++ 47 :: rest) :
    (hostFile .read (plainHost []) (some folderCtx) (pathArgs path) firstCaps ⟨true,true,1⟩).forwarded =
      some (.fsRead (name path)) := by
  have covered : Covers (name "/a/*").1 (name path).1 := by
    rw [below]
    refine (Glob.denotes_append [47,97,47] [starByte] _).mpr ⟨[47,97,47],rest,rfl,?_,Glob.denotes_lone_star _⟩
    exact (Glob.denotes_literal _ _ (by decide) (by decide)).mpr rfl
  have granted : (validateHostCap (plainHost []).validate (some folderCtx) .fs (name path) "read" firstCaps).2 = 0 :=
    bootToken_granted (by decide) _ _ rfl covered
  simp only [hostFile,akHostFsRead,fileCall,named,granted]
  rfl

theorem inner_path_confined :
    (hostFile .read (plainHost []) (some folderCtx) (pathArgs "/a/b") firstCaps ⟨true,true,1⟩).forwarded =
        some (.fsRead (name "/a/b")) ∧
      LiesInside (folder.1 ++ [47]) (name "/a/b").1 := by
  have parsed : (pathArgs "/a/b").bind (parseJsonString (ascii "path")) = some (ascii "/a/b") := by decide +kernel
  have forwarded := @folder_read "/a/b" [98] (by decide +kernel) (by decide +kernel)
  refine ⟨forwarded,(forwarded_inside_iff .read (plainHost []) folderCtx (pathArgs "/a/b") firstCaps ⟨true,true,1⟩ folder
    folderToken rfl folderToken_resource (by decide) (by decide) _ _ forwarded rfl).mpr fun text found => ?_⟩
  cases found.symm.trans parsed
  exact ⟨Or.inl (by decide +kernel),by decide +kernel⟩

/-- A tool that may read below `/a` reads `/b`. -/
theorem parent_path_escapes :
    folderCtx.cap = some folderToken ∧ folderToken.resource = folder.1 ++ [47,starByte] ∧
      (hostFile .read (plainHost []) (some folderCtx) (pathArgs "/a/../b") firstCaps ⟨true,true,1⟩).forwarded =
        some (.fsRead (name "/a/../b")) ∧
      resolve (name "/a/../b").1 = ⟨0,[ascii "b"]⟩ ∧ ¬LiesInside (folder.1 ++ [47]) (name "/a/../b").1 :=
  ⟨rfl,folderToken_resource,@folder_read "/a/../b" [46,46,47,98] (by decide +kernel) (by decide +kernel),by decide +kernel,
    by decide +kernel⟩

end AuthorityKernel.Wasm.HostCalls
