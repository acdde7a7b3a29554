import AuthorityKernel.Library.Nesting
import AuthorityKernel.Fs.Resolve

/-! When path resolution ends. Links at the end of a path are counted; links in the middle of a path
or of a link's target are followed by calls that nest, and a link met there while it is being
followed is followed again, without end. -/
namespace AuthorityKernel.Fs

open Relation Library.Nesting

variable {ν : Type} [DecidableEq ν]

/-- The calls of `filesystem_follow_links` in the loop over a path: the entry and its parent. -/
def followedIn (forest : Forest ν) (follow : ν → ν → Followed ν) : Nat → List UInt8 → ν → ν → Name → List (ν × ν)
  | _,[],_,_,_ => []
  | skip + 1,_ :: rest,t,p,a => followedIn forest follow skip rest t p a
  | 0,x :: rest,t,p,a =>
    match utf8Decode (x :: rest) with
    | none => []
    | some (c,len) =>
      if c = slash then
        if a = [] then followedIn forest follow (len - 1) rest t p a
        else
          match forest.lookupFollow t a with
          | (none,_) => []
          | (some entry,dir) => (entry,dir) ::
            match follow entry dir with
            | some (.ok target) => if forest.isDir target then followedIn forest follow (len - 1) rest target dir [] else []
            | _ => []
      else
        match pushCharacter a c with
        | none => []
        | some name => followedIn forest follow (len - 1) rest t p name

def Resolved.Sound (forest : Forest ν) : Resolved ν → Prop
  | .found entry none => forest.isDir entry = true
  | .found _ (some parent) => forest.isDir parent = true
  | .failed _ _ => True

variable {forest : Forest ν}

theorem lookupFollow_dir {t dir : ν} {a : Name} {found : Option ν} (isDir : forest.isDir t = true)
    (looked : forest.lookupFollow t a = (found,dir)) : forest.isDir dir = true := by
  unfold Forest.lookupFollow at looked
  split at looked
  · cases looked
    exact isDir
  split at looked
  · cases looked
    exact isDir
  · cases looked
    exact isDir
  split at looked
  · split at looked
    · cases looked
      exact isDir
    · cases looked
      exact isDir
    · rename_i mountDir mounted
      cases looked
      exact forest.mounted _ _ mounted
  · cases looked
    exact isDir

/-- One turn of the loop over a path ends it, goes on with the rest, or follows an entry first. -/
inductive Turn (forest : Forest ν) (skip : Nat) (text : List UInt8) (t p : ν) (a : Name) : Prop where
  | ends (answer : Resolved ν) (sound : forest.isDir t = true → forest.isDir p = true → answer.Sound forest)
    (result : ∀ follow, components forest follow skip text t p a = some answer)
    (calls : ∀ follow, followedIn forest follow skip text t p a = [])
  | goes (left : Nat) (rest : List UInt8) (name : Name) (shorter : rest.length < text.length)
    (result : ∀ follow, components forest follow skip text t p a = components forest follow left rest t p name)
    (calls : ∀ follow, followedIn forest follow skip text t p a = followedIn forest follow left rest t p name)
  | follows (entry dir : ν) (looked : forest.lookupFollow t a = (some entry,dir)) (left : Nat) (rest : List UInt8)
    (shorter : rest.length < text.length) (parent : Option ν)
    (result : ∀ follow, components forest follow skip text t p a =
      match follow entry dir with
      | none => none
      | some (.error err) => some (.failed err parent)
      | some (.ok target) =>
        if forest.isDir target then components forest follow left rest target dir [] else some (.failed eNotdir none))
    (calls : ∀ follow, followedIn forest follow skip text t p a = (entry,dir) ::
      match follow entry dir with
      | some (.ok target) => if forest.isDir target then followedIn forest follow left rest target dir [] else []
      | _ => [])

theorem turn (forest : Forest ν) (skip : Nat) (text : List UInt8) (t p : ν) (a : Name) : Turn forest skip text t p a := by
  cases text with
  | nil =>
    by_cases empty : a = []
    · exact .ends (.found t (some p)) (fun _ isDir => isDir) (fun _ => by simp [components,empty]) (fun _ => rfl)
    by_cases isDir : forest.isDir t = true
    · refine .ends (resolved (forest.lookupFollow t a).1 (forest.lookupFollow t a).2 eNoent []) (fun _ _ => ?_)
        (fun _ => by simp [components,empty,isDir]) (fun _ => rfl)
      cases looked : forest.lookupFollow t a with
      | mk found dir =>
        cases found with
        | none => trivial
        | some entry => exact lookupFollow_dir isDir looked
    · exact .ends (.failed eNotdir none) (fun _ _ => trivial) (fun _ => by simp [components,empty,isDir]) (fun _ => rfl)
  | cons x rest =>
    cases skip with
    | succ left => exact .goes left rest a (Nat.lt_succ_self _) (fun _ => rfl) (fun _ => rfl)
    | zero =>
      cases decoded : utf8Decode (x :: rest) with
      | none =>
        exact .ends (.found t none) (fun isDir _ => isDir) (fun _ => by simp [components,decoded])
          (fun _ => by simp [followedIn,decoded])
      | some character =>
        obtain ⟨c,len⟩ := character
        by_cases isSlash : c = slash
        · by_cases empty : a = []
          · exact .goes (len - 1) rest a (Nat.lt_succ_self _) (fun _ => by simp [components,decoded,isSlash,empty])
              (fun _ => by simp [followedIn,decoded,isSlash,empty])
          · cases looked : forest.lookupFollow t a with
            | mk found dir =>
              cases found with
              | none =>
                exact .ends (resolved none dir eNoent (x :: rest)) (fun _ _ => trivial)
                  (fun _ => by simp [components,decoded,isSlash,empty,looked])
                  (fun _ => by simp [followedIn,decoded,isSlash,empty,looked])
              | some entry =>
                refine .follows entry dir looked (len - 1) rest (Nat.lt_succ_self _)
                  (if 1 < (x :: rest).length ∧ (x :: rest).head? = some 0x2f then none else some dir)
                  (fun follow => ?_) (fun follow => by simp [followedIn,decoded,isSlash,empty,looked])
                simp only [components,decoded,isSlash,empty,looked,if_true,if_false]
                cases follow entry dir with
                | none => rfl
                | some answer =>
                  cases answer with
                  | error | ok => rfl
        · cases pushed : pushCharacter a c with
          | none =>
            exact .ends (resolved none p eNametoolong (x :: rest)) (fun _ _ => trivial)
              (fun _ => by simp [components,decoded,isSlash,pushed]) (fun _ => by simp [followedIn,decoded,isSlash,pushed])
          | some name =>
            exact .goes (len - 1) rest name (Nat.lt_succ_self _) (fun _ => by simp [components,decoded,isSlash,pushed])
              (fun _ => by simp [followedIn,decoded,isSlash,pushed])

theorem turn_induction {motive : Nat → List UInt8 → ν → ν → Name → Prop}
    (step : ∀ skip text t p a, (∀ left rest t p name, rest.length < text.length → motive left rest t p name) →
      Turn forest skip text t p a → motive skip text t p a) (skip : Nat) (text : List UInt8) (t p : ν) (a : Name) :
    motive skip text t p a := by
  induction length : text.length using Nat.strong_induction_on generalizing skip text t p a with
  | _ n ih =>
    refine step skip text t p a (fun left rest t p name shorter => ?_) (turn forest skip text t p a)
    exact ih rest.length (length ▸ shorter) left rest t p name rfl

def Extends (f g : ν → ν → Followed ν) : Prop := ∀ link parent answer, f link parent = some answer → g link parent = some answer

section Loop

variable {forest : Forest ν} {f g : ν → ν → Followed ν} {skip : Nat} {text : List UInt8} {t p : ν} {a : Name}
  {answer : Resolved ν} {call : ν × ν}

/-- With a function that answers more, a loop that came to its end makes the same calls and comes to
the same answer, and any loop makes the calls it made. -/
theorem extended (more : Extends f g) :
    (∀ answer, components forest f skip text t p a = some answer → components forest g skip text t p a = some answer ∧
      followedIn forest g skip text t p a = followedIn forest f skip text t p a) ∧
      ∀ call ∈ followedIn forest f skip text t p a, call ∈ followedIn forest g skip text t p a := by
  induction skip, text, t, p, a using turn_induction with
  | step skip text t p a ih turn =>
    cases turn with
    | ends reply sound result calls =>
      rw [result,result,calls,calls]
      exact ⟨fun _ done => ⟨done,rfl⟩,fun _ called => called⟩
    | goes left rest name shorter result calls =>
      rw [result,result,calls,calls]
      exact ih left rest _ _ name shorter
    | follows entry dir looked left rest shorter parent result calls =>
      rw [result,result,calls,calls]
      cases followed : f entry dir with
      | none =>
        refine ⟨fun _ done => ?_,fun call called => ?_⟩
        · cases done
        · rw [List.mem_singleton.mp called]
          exact List.mem_cons_self
      | some reply =>
        rw [more entry dir reply followed]
        cases reply with
        | error err => exact ⟨fun _ done => ⟨done,rfl⟩,fun _ called => called⟩
        | ok target =>
          dsimp only
          split
          · obtain ⟨same,fewer⟩ := ih left rest target dir [] shorter
            exact ⟨fun answer done => ⟨(same answer done).1,congrArg _ (same answer done).2⟩,
              fun call called => (List.mem_cons.mp called).elim (· ▸ List.mem_cons_self)
                fun later => List.mem_cons_of_mem _ (fewer call later)⟩
          · exact ⟨fun _ done => ⟨done,rfl⟩,fun _ called => called⟩

theorem components_mono (more : Extends f g) (done : components forest f skip text t p a = some answer) :
    components forest g skip text t p a = some answer := ((extended more).1 answer done).1

theorem followedIn_answered (done : components forest f skip text t p a = some answer)
    (called : call ∈ followedIn forest f skip text t p a) :
    ∃ reply, f call.1 call.2 = some reply ∧ ∀ err, reply = .error err → ∃ parent, answer = .failed err parent := by
  revert done called
  induction skip, text, t, p, a using turn_induction with
  | step skip text t p a ih turn =>
    cases turn with
    | ends reply sound result calls =>
      rw [calls]
      nofun
    | goes left rest name shorter result calls =>
      rw [result,calls]
      exact ih left rest _ _ name shorter
    | follows entry dir looked left rest shorter parent result calls =>
      rw [result,calls]
      intro done called
      cases followed : f entry dir with
      | none =>
        rw [followed] at done
        cases done
      | some reply =>
        rw [followed] at done called
        rcases List.mem_cons.mp called with rfl | later
        · refine ⟨reply,followed,fun err isError => ?_⟩
          subst isError
          exact ⟨parent,(Option.some.inj done).symm⟩
        cases reply with
        | error err => cases later
        | ok target =>
          dsimp only at done later
          split at done
          · rename_i isDir
            rw [if_pos isDir] at later
            exact ih left rest target dir [] shorter done later
          · rename_i isDir
            rw [if_neg isDir] at later
            cases later

theorem loop_dirs (isDir : forest.isDir t = true) :
    (∀ call ∈ followedIn forest f skip text t p a, forest.isDir call.2 = true) ∧
      ∀ answer, forest.isDir p = true → components forest f skip text t p a = some answer → answer.Sound forest := by
  revert isDir
  induction skip, text, t, p, a using turn_induction with
  | step skip text t p a ih turn =>
    intro isDir
    cases turn with
    | ends reply sound result calls =>
      rw [result,calls]
      exact ⟨fun _ called => (List.not_mem_nil called).elim,
        fun _ parents done => Option.some.inj done ▸ sound isDir parents⟩
    | goes left rest name shorter result calls =>
      rw [result,calls]
      exact ih left rest _ _ name shorter isDir
    | follows entry dir looked left rest shorter parent result calls =>
      rw [result,calls]
      have directory := lookupFollow_dir isDir looked
      refine ⟨fun call called => ?_,fun answer _ done => ?_⟩
      · rcases List.mem_cons.mp called with rfl | later
        · exact directory
        · split at later
          · split at later
            · rename_i isTarget
              exact (ih left rest _ dir [] shorter isTarget).1 call later
            · cases later
          · cases later
      · split at done
        · cases done
        · cases done
          trivial
        · split at done
          · rename_i isTarget
            exact (ih left rest _ dir [] shorter isTarget).2 answer directory done
          · cases done
            trivial

end Loop

variable {reply : Except Int ν} {target : List UInt8} {depth more n : Nat} {cwd : ν} {link last : ν × ν}

variable {answer : Resolved ν}

section Depth

variable {forest : Forest ν}

def followAt (forest : Forest ν) (depth : Nat) : ν → ν → Followed ν :=
  filesystemFollowLinks forest (filesystemResolveSstring forest depth)

omit [DecidableEq ν] in
theorem followHops_mono {f g : ν → List UInt8 → Option (Resolved ν)}
    (more : ∀ cwd text answer, f cwd text = some answer → g cwd text = some answer) {hops : Nat} {link parent : ν}
    {reply : Except Int ν} (done : followHops forest f hops link parent = some reply) :
    followHops forest g hops link parent = some reply := by
  unfold followHops at done ⊢
  split at done
  · exact done
  split at done
  · cases done
  · rename_i answered
    rw [more _ _ _ answered]
    exact done
  rename_i dir answered
  rw [more _ _ _ answered]
  dsimp only
  split at done
  · rename_i isLink
    rw [if_pos isLink]
    cases hops with
    | zero => exact done
    | succ left =>
      cases dir with
      | none => exact done
      | some dir => exact followHops_mono more done
  · rename_i isLink
    rw [if_neg isLink]
    exact done

omit [DecidableEq ν] in
theorem followLinks_mono {f g : ν → List UInt8 → Option (Resolved ν)}
    (more : ∀ cwd text answer, f cwd text = some answer → g cwd text = some answer) :
    Extends (filesystemFollowLinks forest f) (filesystemFollowLinks forest g) := by
  intro link parent reply done
  unfold filesystemFollowLinks at done ⊢
  split at done
  · rename_i isLink
    rw [if_pos isLink]
    exact followHops_mono more done
  · rename_i isLink
    rw [if_neg isLink]
    exact done

theorem resolve_mono (deeper : depth ≤ more) {text : List UInt8}
    (done : filesystemResolveSstring forest depth cwd text = some answer) :
    filesystemResolveSstring forest more cwd text = some answer := by
  induction depth generalizing more cwd text answer with
  | zero => cases done
  | succ depth ih =>
    obtain ⟨more,rfl⟩ := Nat.exists_eq_add_of_lt deeper
    simp only [filesystemResolveSstring] at done ⊢
    split at done
    · rename_i empty
      rw [if_pos empty]
      exact done
    · rename_i text'
      rw [if_neg text']
      exact components_mono (followLinks_mono fun _ _ _ same => ih (Nat.le_add_right _ _) same) done

theorem followAt_mono (deeper : depth ≤ more) : Extends (followAt forest depth) (followAt forest more) :=
  followLinks_mono fun _ _ _ done => resolve_mono deeper done

theorem resolve_succ {text : List UInt8} (some : text ≠ []) :
    filesystemResolveSstring forest (depth + 1) cwd text =
      components forest (followAt forest depth) 0 text (forest.start cwd text) (forest.start cwd text) [] := by
  simp only [filesystemResolveSstring,if_neg some]
  rfl

end Depth

def Meets (forest : Forest ν) (cwd : ν) (text : List UInt8) (call : ν × ν) : Prop :=
  ∃ depth, call ∈ followedIn forest (followAt forest depth) 0 text (forest.start cwd text) (forest.start cwd text) []

def Hop (forest : Forest ν) (link next : ν × ν) : Prop :=
  ∃ target depth, (forest.entry link.1).linktarget = some target ∧ forest.isSymlink next.1 = true ∧
    filesystemResolveSstring forest depth link.2 target = some (.found next.1 (some next.2))

def Crosses (forest : Forest ν) (link inner : ν × ν) : Prop :=
  ∃ target, (forest.entry link.1).linktarget = some target ∧ Meets forest link.2 target inner

def Hops (forest : Forest ν) : Nat → ν × ν → ν × ν → Prop
  | 0,link,next => link = next
  | n + 1,link,next => ∃ between, Hop forest link between ∧ Hops forest n between next

/-- The second link is followed by a nested call while the first one is being followed. -/
def NestedIn (forest : Forest ν) (link inner : ν × ν) : Prop :=
  ∃ n ≤ symlinkHopsMax, ∃ last, Hops forest n link last ∧ Crosses forest last inner

section Nested

variable {forest : Forest ν}

theorem resolve_unique {one other : Nat} {text : List UInt8} {a b : Resolved ν}
    (first : filesystemResolveSstring forest one cwd text = some a)
    (second : filesystemResolveSstring forest other cwd text = some b) : a = b := by
  have left := resolve_mono (Nat.le_max_left one other) first
  have right := resolve_mono (Nat.le_max_right one other) second
  exact Option.some.inj (left.symm.trans right)

theorem meets_answered {text : List UInt8} {call : ν × ν}
    (done : filesystemResolveSstring forest depth cwd text = some answer) (meets : Meets forest cwd text call) :
    ∃ less < depth, ∃ reply, followAt forest less call.1 call.2 = some reply ∧
      ∀ err, reply = .error err → ∃ parent, answer = .failed err parent := by
  obtain ⟨other,called⟩ := meets
  have some : text ≠ [] := by
    rintro rfl
    cases called
  cases depth with
  | zero => cases done
  | succ less =>
    rw [resolve_succ some] at done
    have wide := (extended (followAt_mono (Nat.le_max_right less other))).2 call called
    rw [((extended (followAt_mono (Nat.le_max_left less other))).1 answer done).2] at wide
    obtain ⟨reply,answered,error⟩ := followedIn_answered done wide
    exact ⟨less,Nat.lt_succ_self _,reply,answered,error⟩

theorem hops_answered {hops : Nat}
    (done : followHops forest (filesystemResolveSstring forest depth) hops link.1 link.2 = some reply)
    (few : n ≤ hops) (path : Hops forest n link last) (isLink : (forest.entry last.1).linktarget = some target) :
    ∃ answer, filesystemResolveSstring forest depth last.2 target = some answer ∧
      ∀ err parent, answer = .failed err parent → reply = .error err := by
  induction n generalizing hops link with
  | zero =>
    obtain rfl : link = last := path
    unfold followHops at done
    rw [isLink] at done
    dsimp only at done
    split at done
    · cases done
    · rename_i answered
      refine ⟨_,answered,fun err parent same => ?_⟩
      cases same
      exact (Option.some.inj done).symm
    · rename_i answered
      exact ⟨_,answered,nofun⟩
  | succ n ih =>
    obtain ⟨between,⟨target',depth',isLink',isNext,answered⟩,rest⟩ := path
    obtain ⟨left,rfl⟩ := Nat.exists_eq_add_of_lt few
    unfold followHops at done
    rw [isLink'] at done
    dsimp only at done
    split at done
    · cases done
    · rename_i failed
      cases resolve_unique failed answered
    rename_i found
    cases resolve_unique found answered
    rw [if_pos isNext] at done
    exact ih done (by omega) rest

theorem hops_isSymlink (path : Hops forest n link last) (isLink : (forest.entry last.1).linktarget = some target) :
    forest.isSymlink link.1 = true := by
  cases n with
  | zero =>
    obtain rfl : link = last := path
    simp [Forest.isSymlink,isLink]
  | succ n =>
    obtain ⟨_,⟨_,_,same,_,_⟩,_⟩ := path
    simp [Forest.isSymlink,same]

theorem nested_answered {inner : ν × ν} (done : followAt forest depth link.1 link.2 = some reply)
    (nested : NestedIn forest link inner) :
    ∃ less < depth, ∃ result, followAt forest less inner.1 inner.2 = some result ∧
      ∀ err, result = .error err → reply = .error err := by
  obtain ⟨n,few,last,path,target,isLink,meets⟩ := nested
  rw [followAt,filesystemFollowLinks,if_pos (hops_isSymlink path isLink)] at done
  obtain ⟨answer,resolved,failed⟩ := hops_answered done few path isLink
  obtain ⟨less,smaller,result,answered,error⟩ := meets_answered resolved meets
  refine ⟨less,smaller,result,answered,fun err same => ?_⟩
  obtain ⟨parent,isFailed⟩ := error err same
  exact failed err parent isFailed

end Nested

def followCall (forest : Forest ν) (depth : Nat) (call : ν × ν) : Followed ν := followAt forest depth call.1 call.2

section Returning

variable {forest : Forest ν}

omit [DecidableEq ν] in
theorem start_dir {cwd : ν} (isDir : forest.isDir cwd = true) (text : List UInt8) :
    forest.isDir (forest.start cwd text) = true := by
  unfold Forest.start
  split
  · exact forest.rooted
  · exact isDir

omit [DecidableEq ν] in
theorem not_isSymlink_of_isDir {t : ν} (isDir : forest.isDir t = true) : forest.isSymlink t = false := by
  unfold Forest.isDir Entry.children at isDir
  unfold Forest.isSymlink Entry.linktarget
  split at isDir
  · rename_i same
    rw [same]
    rfl
  · cases isDir

theorem resolve_sound {text : List UInt8} (isDir : forest.isDir cwd = true)
    (done : filesystemResolveSstring forest depth cwd text = some answer) : answer.Sound forest := by
  cases depth with
  | zero => cases done
  | succ depth =>
    have start := start_dir isDir text
    simp only [filesystemResolveSstring] at done
    split at done
    · cases done
      trivial
    · exact (loop_dirs start).2 answer start done

theorem components_returns {skip : Nat} {text : List UInt8} {t p : ν} {a : Name}
    (all : ∀ depth, ∀ call ∈ followedIn forest (followAt forest depth) skip text t p a, Returns (followCall forest) call) :
    ∃ depth answer, components forest (followAt forest depth) skip text t p a = some answer := by
  induction skip, text, t, p, a using turn_induction with
  | step skip text t p a ih turn =>
    cases turn with
    | ends reply sound result calls => exact ⟨0,reply,result _⟩
    | goes left rest name shorter result calls =>
      obtain ⟨depth,answer,done⟩ := ih left rest _ _ name shorter fun depth call called => all depth call (by rwa [calls])
      exact ⟨depth,answer,by rw [result,done]⟩
    | follows entry dir looked left rest shorter parent result calls =>
      obtain ⟨depth,reply,followed⟩ := all 0 (entry,dir) (by rw [calls]; exact List.mem_cons_self)
      have followed : followAt forest depth entry dir = some reply := followed
      cases reply with
      | error err => exact ⟨depth,.failed err parent,by rw [result,followed]⟩
      | ok target =>
        by_cases isDir : forest.isDir target = true
        · have later : ∀ deep, ∀ call ∈ followedIn forest (followAt forest deep) left rest target dir [],
              Returns (followCall forest) call := by
            intro deep call called
            refine all (max depth deep) call ?_
            rw [calls,followAt_mono (Nat.le_max_left _ _) _ _ _ followed]
            dsimp only
            rw [if_pos isDir]
            exact List.mem_cons_of_mem _ ((extended (followAt_mono (Nat.le_max_right _ _))).2 call called)
          obtain ⟨deep,answer,done⟩ := ih left rest target dir [] shorter later
          refine ⟨max depth deep,answer,?_⟩
          rw [result,followAt_mono (Nat.le_max_left _ _) _ _ _ followed]
          dsimp only
          rw [if_pos isDir]
          exact components_mono (followAt_mono (Nat.le_max_right _ _)) done
        · refine ⟨depth,.failed eNotdir none,?_⟩
          rw [result,followed]
          dsimp only
          rw [if_neg isDir]

theorem resolve_returns {text : List UInt8}
    (all : ∀ call, Meets forest cwd text call → Returns (followCall forest) call) :
    ∃ depth answer, filesystemResolveSstring forest depth cwd text = some answer := by
  by_cases empty : text = []
  · exact ⟨1,resolved none (forest.start cwd text) eNoent [],by simp only [filesystemResolveSstring,if_pos empty]⟩
  · obtain ⟨depth,answer,done⟩ := components_returns fun depth call called => all call ⟨depth,called⟩
    exact ⟨depth + 1,answer,by rw [resolve_succ empty]; exact done⟩

theorem followHops_returns {hops : Nat} {link : ν × ν} (isDir : forest.isDir link.2 = true)
    (all : ∀ n ≤ hops, ∀ last inner, Hops forest n link last → Crosses forest last inner →
      Returns (followCall forest) inner) :
    ∃ depth reply, followHops forest (filesystemResolveSstring forest depth) hops link.1 link.2 = some reply := by
  unfold followHops
  cases isLink : (forest.entry link.1).linktarget with
  | none => exact ⟨0,.ok link.1,rfl⟩
  | some target =>
    obtain ⟨depth,answer,done⟩ := resolve_returns fun call meets =>
      all 0 (Nat.zero_le _) link call rfl ⟨target,isLink,meets⟩
    have sound := resolve_sound isDir done
    dsimp only
    cases answer with
    | failed err parent => exact ⟨depth,.error err,by rw [done]⟩
    | found next dir =>
      by_cases isNext : forest.isSymlink next = true
      · cases hops with
        | zero => exact ⟨depth,.error eLoop,by rw [done]; exact if_pos isNext⟩
        | succ left =>
          cases dir with
          | none =>
            rw [not_isSymlink_of_isDir sound] at isNext
            cases isNext
          | some dir =>
            have hop : Hop forest link (next,dir) := ⟨target,depth,isLink,isNext,done⟩
            obtain ⟨deep,reply,followed⟩ := @followHops_returns left (next,dir) sound fun n few last inner path crosses =>
              all (n + 1) (Nat.succ_le_succ few) last inner ⟨_,hop,path⟩ crosses
            refine ⟨max depth deep,reply,?_⟩
            rw [resolve_mono (Nat.le_max_left _ _) done]
            dsimp only
            rw [if_pos isNext]
            exact followHops_mono (fun _ _ _ same => resolve_mono (Nat.le_max_right _ _) same) followed
      · exact ⟨depth,.ok next,by rw [done]; exact if_neg isNext⟩

end Returning

end AuthorityKernel.Fs
