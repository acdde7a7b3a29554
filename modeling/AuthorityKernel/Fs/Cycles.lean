import Mathlib.Data.Finite.Prod
import AuthorityKernel.Fs.Links

/-! Symbolic links that form a cycle. A cycle of links at the ends of targets is cut off after a few
hops; a link met in the middle of a target while it is being followed keeps resolution from
returning. -/
namespace AuthorityKernel.Fs

open Relation Library.Nesting

variable {ν : Type} [DecidableEq ν]

def Leads (forest : Forest ν) (link next : ν × ν) : Prop := Hop forest link next ∨ Crosses forest link next

/-- `filesystem_resolve_sstring`, or `filesystem_resolve_sstring_follow` when the last link is to be
followed too. -/
def resolution (forest : Forest ν) (last : Bool) (depth : Nat) (cwd : ν) (text : List UInt8) : Option (Resolved ν) :=
  if last then filesystemResolveSstringFollow forest depth cwd text else filesystemResolveSstring forest depth cwd text

def Follows (forest : Forest ν) (last : Bool) (cwd : ν) (text : List UInt8) (call : ν × ν) : Prop :=
  Meets forest cwd text call ∨
    (last = true ∧ ∃ depth, filesystemResolveSstring forest depth cwd text = some (.found call.1 (some call.2)))

def LinksCycle (forest : Forest ν) (last : Bool) (cwd : ν) (text : List UInt8) : Prop :=
  ∃ call, Follows forest last cwd text call ∧ Entangled (Leads forest) call

/-- Resolution returns after finitely many nested calls, and with `ELOOP` if links form a cycle. -/
def Answers (forest : Forest ν) (last : Bool) (cwd : ν) (text : List UInt8) : Prop :=
  ∃ depth answer, resolution forest last depth cwd text = some answer ∧
    (LinksCycle forest last cwd text → ∃ parent, answer = .failed eLoop parent)

variable {reply : Except Int ν} {depth : Nat} {link call : ν × ν}

section Calls

variable {forest : Forest ν}

theorem nested_descends (forest : Forest ν) : Descends (followCall forest) (NestedIn forest) := by
  intro depth call reply inner done nested
  obtain ⟨less,smaller,result,answered,-⟩ := nested_answered done nested
  exact ⟨less,smaller,result,answered⟩

theorem nested_dir {inner : ν × ν} (isDir : forest.isDir link.2 = true) (nested : NestedIn forest link inner) :
    forest.isDir inner.2 = true := by
  obtain ⟨n,-,last,path,target,-,depth,called⟩ := nested
  have lastDir : forest.isDir last.2 = true := by
    induction n generalizing link with
    | zero =>
      obtain rfl : link = last := path
      exact isDir
    | succ n ih =>
      obtain ⟨between,⟨_,_,_,_,found⟩,rest⟩ := path
      exact ih (resolve_sound isDir found) rest
  exact (loop_dirs (start_dir lastDir target)).1 _ called

theorem follow_returns (isDir : forest.isDir link.2 = true)
    (all : ∀ inner, NestedIn forest link inner → Returns (followCall forest) inner) :
    Returns (followCall forest) link := by
  unfold Returns followCall followAt filesystemFollowLinks
  split
  · exact followHops_returns isDir fun n few last inner path crosses => all inner ⟨n,few,last,path,crosses⟩
  · exact ⟨0,_,rfl⟩

theorem followHops_loop {depth : Nat} (inside : ∀ less < depth, ∀ call reply, followCall forest less call = some reply →
      Entangled (Leads forest) call → reply = .error eLoop) {hops : Nat} {link : ν × ν}
    (done : followHops forest (filesystemResolveSstring forest depth) hops link.1 link.2 = some reply)
    (looping : Entangled (Leads forest) link) : reply = .error eLoop := by
  obtain ⟨next,leads,still⟩ := looping.next
  rcases leads with ⟨target,_,isLink,isNext,found⟩ | ⟨target,isLink,meets⟩
  · unfold followHops at done
    rw [isLink] at done
    dsimp only at done
    split at done
    · cases done
    · rename_i failed
      cases resolve_unique failed found
    rename_i answered
    cases resolve_unique answered found
    rw [if_pos isNext] at done
    cases hops with
    | zero => exact (Option.some.inj done).symm
    | succ left => exact followHops_loop inside done still
  · obtain ⟨answer,resolved,failed⟩ := hops_answered done (Nat.zero_le _) rfl isLink
    obtain ⟨less,smaller,result,answered,error⟩ := meets_answered resolved meets
    obtain ⟨parent,isFailed⟩ := error eLoop (inside less smaller next result answered still)
    exact failed eLoop parent isFailed

theorem followCall_loop (done : followCall forest depth call = some reply) (looping : Entangled (Leads forest) call) :
    reply = .error eLoop := by
  induction depth using Nat.strong_induction_on generalizing call reply with
  | _ depth ih =>
    have isLink : forest.isSymlink call.1 = true := by
      obtain ⟨next,⟨_,_,same,_,_⟩ | ⟨_,same,_⟩,-⟩ := looping.next
      · simp [Forest.isSymlink,same]
      · simp [Forest.isSymlink,same]
    rw [followCall,followAt,filesystemFollowLinks,if_pos isLink] at done
    exact followHops_loop (fun less smaller call reply => ih less smaller) done looping

end Calls

section Paths

variable {forest : Forest ν} {last : Bool} {cwd : ν} {text : List UInt8}

theorem resolution_answered {answer : Resolved ν} (done : resolution forest last depth cwd text = some answer)
    (follows : Follows forest last cwd text call) :
    ∃ less reply, followCall forest less call = some reply ∧
      ∀ err, reply = .error err → ∃ parent, answer = .failed err parent := by
  cases last with
  | false =>
    rcases follows with meets | ⟨no,_⟩
    · obtain ⟨less,-,reply,answered,error⟩ := meets_answered done meets
      exact ⟨less,reply,answered,error⟩
    · cases no
  | true =>
    simp only [resolution,if_true,filesystemResolveSstringFollow] at done
    split at done
    · cases done
    · rename_i failed
      cases done
      rcases follows with meets | ⟨-,_,found⟩
      · obtain ⟨less,-,reply,answered,error⟩ := meets_answered failed meets
        exact ⟨less,reply,answered,error⟩
      · cases resolve_unique failed found
    rename_i t p found
    rcases follows with meets | ⟨-,_,same⟩
    · obtain ⟨less,-,reply,answered,error⟩ := meets_answered found meets
      refine ⟨less,reply,answered,fun err isError => ?_⟩
      obtain ⟨parent,no⟩ := error err isError
      cases no
    cases resolve_unique found same
    dsimp only at done
    split at done
    · cases done
    · rename_i answered
      cases done
      refine ⟨depth,_,answered,fun err isError => ?_⟩
      cases isError
      exact ⟨_,rfl⟩
    · rename_i answered
      exact ⟨depth,_,answered,nofun⟩

theorem resolution_returns (isDir : forest.isDir cwd = true)
    (all : ∀ call, Follows forest last cwd text call → Returns (followCall forest) call) :
    ∃ depth answer, resolution forest last depth cwd text = some answer := by
  obtain ⟨depth,answer,done⟩ := resolve_returns fun call meets => all call (Or.inl meets)
  cases last with
  | false => exact ⟨depth,answer,done⟩
  | true =>
    simp only [resolution,if_true,filesystemResolveSstringFollow]
    cases answer with
    | failed err parent => exact ⟨depth,_,by rw [done]⟩
    | found t p =>
      cases p with
      | none =>
        have sound : forest.isDir t = true := resolve_sound isDir done
        refine ⟨depth,.found t none,?_⟩
        rw [done]
        simp only [not_isSymlink_of_isDir sound,Bool.false_eq_true,if_false]
      | some dir =>
        obtain ⟨deep,reply,followed⟩ := all (t,dir) (Or.inr ⟨rfl,depth,done⟩)
        have followed := followAt_mono (Nat.le_max_right depth deep) _ _ _ followed
        refine ⟨max depth deep,?_⟩
        rw [resolve_mono (Nat.le_max_left _ _) done]
        dsimp only
        rw [← followAt,followed]
        cases reply with
        | error | ok => exact ⟨_,rfl⟩

theorem follows_dir (isDir : forest.isDir cwd = true) (follows : Follows forest last cwd text call) :
    forest.isDir call.2 = true := by
  rcases follows with ⟨depth,called⟩ | ⟨-,depth,found⟩
  · exact (loop_dirs (start_dir isDir text)).1 _ called
  · exact resolve_sound isDir found

end Paths

/-- Over finitely many directory entries, resolution answers as it should exactly if no link is
followed again by a call that is nested in its own following. -/
theorem resolution_answers_iff_not_entangled [Finite ν] (forest : Forest ν) (last : Bool) (cwd : ν)
    (isDir : forest.isDir cwd = true) (text : List UInt8) :
    Answers forest last cwd text ↔
      ∀ call, Follows forest last cwd text call → ¬ Entangled (NestedIn forest) call := by
  constructor
  · rintro ⟨depth,answer,done,-⟩ call follows
    obtain ⟨less,reply,answered,-⟩ := resolution_answered done follows
    exact not_entangled_of_returns (nested_descends forest) ⟨less,reply,answered⟩
  · intro free
    have returns : ∀ call, Follows forest last cwd text call → Returns (followCall forest) call :=
      fun call follows => @returns_of_not_entangled _ _ _ _ _ _ (fun call => forest.isDir call.2 = true)
        (fun _ _ isDir nested => nested_dir isDir nested) (fun _ isDir all => follow_returns isDir all)
        (follows_dir isDir follows) (free call follows)
    obtain ⟨depth,answer,done⟩ := resolution_returns isDir returns
    refine ⟨depth,answer,done,fun ⟨call,follows,looping⟩ => ?_⟩
    obtain ⟨less,reply,answered,error⟩ := resolution_answered done follows
    exact error eLoop (followCall_loop answered looping)

def oneLink (target : List UInt8) : Forest Bool where
  entry isLink := if isLink then ⟨.symlink target,none,none⟩ else ⟨.directory [([0x61],true)],some false,none⟩
  root := false
  mountpoint _ := none
  rooted := rfl
  mounted _ _ no := nomatch no

/-- A link to itself is cut off with `ELOOP`. -/
theorem link_to_itself_answers : Answers (oneLink [0x61]) true false [0x61] := by
  refine (resolution_answers_iff_not_entangled (oneLink [0x61]) true false rfl [0x61]).mpr fun call _ entangled => ?_
  -- the target has no middle, so nothing nests
  obtain ⟨inner,⟨n,-,⟨node,parent⟩,-,target,isLink,depth,called⟩,-⟩ := entangled.next
  cases node with
  | false => cases isLink
  | true =>
    cases Option.some.inj isLink
    exact absurd called (List.not_mem_nil)

/-- A link `a` to `a/b` is never resolved in the middle of a path. -/
theorem link_into_itself_never_returns : ¬ Answers (oneLink [0x61,0x2f,0x62]) false false [0x61,0x2f,0x78] := by
  have itself : NestedIn (oneLink [0x61,0x2f,0x62]) (true,false) (true,false) :=
    ⟨0,Nat.zero_le _,(true,false),rfl,[0x61,0x2f,0x62],rfl,0,by decide +kernel⟩
  have follows : Follows (oneLink [0x61,0x2f,0x62]) false false [0x61,0x2f,0x78] (true,false) :=
    Or.inl ⟨0,by decide +kernel⟩
  rintro ⟨depth,answer,done,-⟩
  obtain ⟨less,reply,answered,-⟩ := resolution_answered done follows
  exact not_returns_of_nested_in_itself (nested_descends _) (.single itself) ⟨less,reply,answered⟩

end AuthorityKernel.Fs
