import AuthorityKernel.Fs.Names

/-! Path resolution (`lookup_follow`, `filesystem_resolve_sstring`, `filesystem_resolve_sstring_follow`
and `filesystem_follow_links` in `fs/fs.c`). Resolution and the following of links call each other;
the model takes a bound on how deep these calls may nest. -/
namespace AuthorityKernel.Fs

inductive Kind (ν : Type) where
  | directory (children : List (Name × ν))
  | symlink (target : List UInt8)
  | other

structure Entry (ν : Type) where
  kind : Kind ν
  parent : Option ν
  mount : Option (Option ν)

def Entry.children {ν : Type} (entry : Entry ν) : Option (List (Name × ν)) :=
  match entry.kind with
  | .directory children => some children
  | _ => none

def Entry.linktarget {ν : Type} (entry : Entry ν) : Option (List UInt8) :=
  match entry.kind with
  | .symlink target => some target
  | _ => none

/-- The directory entries of all filesystems, the root, and for the root of a mounted filesystem the
directory it is mounted on, unless that is gone. -/
structure Forest (ν : Type) where
  entry : ν → Entry ν
  root : ν
  mountpoint : ν → Option (Option ν)
  rooted : (entry root).children.isSome
  mounted : ∀ t dir, mountpoint t = some (some dir) → (entry dir).children.isSome

variable {ν : Type} [DecidableEq ν]

def Forest.isDir (forest : Forest ν) (t : ν) : Bool := (forest.entry t).children.isSome

def Forest.isSymlink (forest : Forest ν) (t : ν) : Bool := (forest.entry t).linktarget.isSome

def Forest.lookup (forest : Forest ν) (t : ν) (a : Name) : Option ν :=
  if a = dotDot then (forest.entry t).parent
  else if a = dot then some t
  else (forest.entry t).children.bind fun c => (c.find? (fun child => child.1 == a)).map Prod.snd

def Forest.lookupFollow (forest : Forest ν) (t : ν) (a : Name) : Option ν × ν :=
  match forest.lookup t a with
  | none => (none,t)
  | some found =>
    match (forest.entry found).mount with
    | some (some childRoot) => (some childRoot,t)
    | some none => (some found,t)
    | none =>
      if found = t ∧ a = dotDot ∧ found ≠ forest.root then
        match forest.mountpoint found with
        | none => (some found,t)
        | some none => (none,t)
        | some (some mountDir) => (forest.lookup mountDir a,mountDir)
      else (some found,t)

/-- What a resolution comes to: the entry, or an error, and in both cases the directory it is in,
unless that is a null pointer. -/
inductive Resolved (ν : Type) where
  | found (entry : ν) (parent : Option ν)
  | failed (err : Int) (parent : Option ν)
deriving DecidableEq

def resolved (t : Option ν) (p : ν) (err : Int) (f : List UInt8) : Resolved ν :=
  match t with
  | some entry => .found entry (some p)
  | none => .failed err (if 1 < f.length ∧ f.head? = some 0x2f then none else some p)

abbrev Followed (ν : Type) := Option (Except Int ν)

/-- The loop over the characters of a path: how many bytes of the current character are left, the
text, the entry reached, its parent, and the name read so far. Where the text ends inside a
character, the entry reached so far is the answer. -/
def components (forest : Forest ν) (follow : ν → ν → Followed ν) : Nat → List UInt8 → ν → ν → Name → Option (Resolved ν)
  | _,[],t,p,a =>
    if a = [] then some (.found t (some p))
    else if forest.isDir t then
      let next := forest.lookupFollow t a
      some (resolved next.1 next.2 eNoent [])
    else some (.failed eNotdir none)
  | skip + 1,_ :: rest,t,p,a => components forest follow skip rest t p a
  | 0,x :: rest,t,p,a =>
    match utf8Decode (x :: rest) with
    | none => some (.found t none)
    | some (c,len) =>
      if c = slash then
        if a = [] then components forest follow (len - 1) rest t p a
        else
          match forest.lookupFollow t a with
          | (none,dir) => some (resolved none dir eNoent (x :: rest))
          | (some entry,dir) =>
            match follow entry dir with
            | none => none
            | some (.error err) => some (resolved none dir err (x :: rest))
            | some (.ok target) =>
              if forest.isDir target then components forest follow (len - 1) rest target dir []
              else some (.failed eNotdir none)
      else
        match pushCharacter a c with
        | none => some (resolved none p eNametoolong (x :: rest))
        | some name => components forest follow (len - 1) rest t p name

def symlinkHopsMax : Nat := 8

/-- The loop of `filesystem_follow_links`, with the hops that are left. A link whose parent is a null
pointer would not be followed; the entries found without a parent are directories. -/
def followHops (forest : Forest ν) (resolve : ν → List UInt8 → Option (Resolved ν)) (hops : Nat) (link parent : ν) :
    Followed ν :=
  match (forest.entry link).linktarget with
  | none => some (.ok link)
  | some target =>
    match resolve parent target with
    | none => none
    | some (.failed err _) => some (.error err)
    | some (.found next dir) =>
      if forest.isSymlink next then
        match hops,dir with
        | 0,_ => some (.error eLoop)
        | left + 1,some dir => followHops forest resolve left next dir
        | _,none => none
      else some (.ok next)

def filesystemFollowLinks (forest : Forest ν) (resolve : ν → List UInt8 → Option (Resolved ν)) (link parent : ν) :
    Followed ν :=
  if forest.isSymlink link then followHops forest resolve symlinkHopsMax link parent else some (.ok link)

def Forest.start (forest : Forest ν) (cwd : ν) (f : List UInt8) : ν := if f.head? = some 0x2f then forest.root else cwd

def filesystemResolveSstring (forest : Forest ν) : Nat → ν → List UInt8 → Option (Resolved ν)
  | 0,_,_ => none
  | depth + 1,cwd,f =>
    let t := forest.start cwd f
    if f = [] then some (resolved none t eNoent [])
    else components forest
      (filesystemFollowLinks forest fun parent target => filesystemResolveSstring forest depth parent target) 0 f t t []

def filesystemResolveSstringFollow (forest : Forest ν) (depth : Nat) (cwd : ν) (f : List UInt8) : Option (Resolved ν) :=
  match filesystemResolveSstring forest depth cwd f with
  | none => none
  | some (.failed err parent) => some (.failed err parent)
  | some (.found t p) =>
    match p with
    | none => if forest.isSymlink t then none else some (.found t none)
    | some dir =>
      match filesystemFollowLinks forest (filesystemResolveSstring forest depth) t dir with
      | none => none
      | some (.error err) => some (.failed err p)
      | some (.ok target) => some (.found target p)

end AuthorityKernel.Fs
