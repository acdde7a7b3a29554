import AuthorityKernel.Policy.Load

/-! The URL check against the host a URL names. The check takes the text in front of the first
slash or colon; RFC 3986 takes the authority apart. Where the two differ, some policy lets the
URL pass and forbids its host. -/
namespace AuthorityKernel.Policy
open Library

def behindLast (separator : UInt8) (text : Bytes) : Bytes := (text.reverse.takeWhile (· != separator)).reverse

/-- Without user info and port. An address in brackets ends with its bracket. -/
def authorityHost (authority : Bytes) : Bytes :=
  let named := behindLast 64 authority
  if named.head? = some 91 then named.takeWhile (· != 93) ++ (named.dropWhile (· != 93)).take 1
  else named.takeWhile (· != 58)

def endsAuthority (byte : UInt8) : Bool := byte == 47 || byte == 63 || byte == 35

def endsScheme (byte : UInt8) : Bool := byte == 58 || endsAuthority byte

def behindScheme (url : Bytes) : Bytes :=
  match url.dropWhile fun byte => !endsScheme byte with
  | 58 :: rest => if url.head? = some 58 then url else rest
  | _ => url

/-- The host component of a URL, taken apart as in appendix B of RFC 3986. A URL without an
authority has none. -/
def urlHost (url : Bytes) : Option Bytes :=
  match behindScheme url with
  | 47 :: 47 :: rest => some (authorityHost (rest.takeWhile fun byte => !endsAuthority byte))
  | _ => none

/-- A text that a URL starts with, behind `http://` or `https://` where it has one of them, up
to its first slash or colon. -/
structure LeadingName (url name : Bytes) : Prop where
  placed : ∃ after, (url = ascii "http://" ++ (name ++ after) ∨ url = ascii "https://" ++ (name ++ after) ∨
      url = name ++ after ∧ ¬ascii "http://" <+: url ∧ ¬ascii "https://" <+: url) ∧
    ∀ byte ∈ after.head?, byte = 47 ∨ byte = 58
  plain : ∀ byte ∈ name, byte ≠ 47 ∧ byte ≠ 58

theorem behindLast_subset (separator : UInt8) (text : Bytes) : behindLast separator text ⊆ text := by
  intro byte member
  exact List.mem_reverse.mp ((List.takeWhile_sublist _).subset (List.mem_reverse.mp member))

theorem behindLast_length_le (separator : UInt8) (text : Bytes) :
    (behindLast separator text).length ≤ text.length := by
  have shorter := (List.takeWhile_sublist (p := (· != separator)) (l := text.reverse)).length_le
  simpa [behindLast] using shorter

theorem authorityHost_part (authority : Bytes) :
    (authorityHost authority).length ≤ authority.length ∧ authorityHost authority ⊆ authority := by
  have part : (authorityHost authority).Sublist (behindLast 64 authority) := by
    unfold authorityHost
    dsimp only
    split
    · have pieces := (List.take_sublist 1 ((behindLast 64 authority).dropWhile (· != 93))).append_left
        ((behindLast 64 authority).takeWhile (· != 93))
      rwa [List.takeWhile_append_dropWhile] at pieces
    · exact List.takeWhile_sublist _
  exact ⟨part.length_le.trans (behindLast_length_le 64 authority),
    List.Subset.trans part.subset (behindLast_subset 64 authority)⟩

def inName (byte : UInt8) : Bool := byte != 47 && byte != 58

theorem inName_iff (byte : UInt8) : inName byte = true ↔ byte ≠ 47 ∧ byte ≠ 58 := by
  simp [inName]

theorem takeWhile_inName {name after : Bytes} (plain : ∀ byte ∈ name, byte ≠ 47 ∧ byte ≠ 58)
    (stops : ∀ byte ∈ after.head?, byte = 47 ∨ byte = 58) : (name ++ after).takeWhile inName = name := by
  rw [List.takeWhile_append_of_pos fun byte member => (inName_iff byte).mpr (plain byte member)]
  cases after with
  | nil => simp
  | cons byte rest =>
    have stop : inName byte = false := by
      rcases stops byte rfl with rfl | rfl <;> rfl
    simp [stop]

theorem leadingName_iff (url : CString) (name : Bytes) : LeadingName url.1 name ↔ name = urlDomain url := by
  have domain : urlDomain url = (skipScheme url.1).takeWhile inName := rfl
  constructor
  · rintro ⟨⟨after,placed,stops⟩,plain⟩
    have skipped : skipScheme url.1 = name ++ after := by
      rcases placed with http | https | ⟨bare,noHttp,noHttps⟩
      · rw [http]
        rfl
      · rw [https]
        rfl
      · rw [skipScheme,if_neg (by rwa [List.isPrefixOf_iff_prefix]),if_neg (by rwa [List.isPrefixOf_iff_prefix]),bare]
    rw [domain,skipped,takeWhile_inName plain stops]
  · rintro rfl
    have whole : skipScheme url.1 = urlDomain url ++ (skipScheme url.1).dropWhile inName :=
      (List.takeWhile_append_dropWhile).symm
    refine ⟨⟨(skipScheme url.1).dropWhile inName,?_,?_⟩,?_⟩
    · rw [← whole]
      by_cases http : ascii "http://" <+: url.1
      · obtain ⟨rest,split⟩ := http
        rw [← split]
        exact Or.inl rfl
      by_cases https : ascii "https://" <+: url.1
      · obtain ⟨rest,split⟩ := https
        rw [← split]
        exact Or.inr (Or.inl rfl)
      · refine Or.inr (Or.inr ⟨?_,http,https⟩)
        rw [skipScheme,if_neg (by rwa [List.isPrefixOf_iff_prefix]),if_neg (by rwa [List.isPrefixOf_iff_prefix])]
    · intro byte head
      have stop := List.head?_dropWhile_not inName (skipScheme url.1)
      rw [Option.mem_def.mp head] at stop
      simpa [inName,or_iff_not_imp_left] using stop
    · intro byte member
      exact (inName_iff byte).mp (List.mem_takeWhile_imp member)

theorem takeWhile_shorter {first second : UInt8 → Bool} {byte : UInt8} {text : Bytes}
    (stops : first byte = false) (member : byte ∈ text.takeWhile second) :
    (text.takeWhile first).length < (text.takeWhile second).length := by
  induction text with
  | nil => simp at member
  | cons head tail ih =>
    rw [List.takeWhile_cons] at member ⊢
    rw [List.takeWhile_cons]
    cases taken : second head with
    | false => simp [taken] at member
    | true =>
      cases kept : first head with
      | false => simp
      | true =>
        simp only [taken,if_true,List.mem_cons] at member
        rcases member with rfl | later
        · rw [kept] at stops
          cases stops
        · simpa using ih later

variable {host : Bytes} {url : CString}

theorem urlHost_authority {url : Bytes} (found : urlHost url = some host) :
    ∃ rest, behindScheme url = 47 :: 47 :: rest ∧
      host = authorityHost (rest.takeWhile fun byte => !endsAuthority byte) := by
  unfold urlHost at found
  split at found
  · rename_i rest split
    exact ⟨rest,split,(Option.some.inj found).symm⟩
  · cases found

theorem bare_unmarked {url rest : Bytes} (authority : behindScheme url = 47 :: 47 :: rest) :
    (63 : UInt8) ∉ url.takeWhile inName := by
  unfold behindScheme at authority
  split at authority
  · rename_i tail split
    split at authority
    · rw [authority]
      simp [inName]
    have scheme : url.takeWhile inName = url.takeWhile fun byte => !endsScheme byte := by
      conv_lhs => rw [← List.takeWhile_append_dropWhile (p := fun byte => !endsScheme byte) (l := url)]
      rw [split]
      refine takeWhile_inName ?_ (by simp)
      intro byte member
      have plain := List.mem_takeWhile_imp member
      simp only [endsScheme,endsAuthority,Bool.not_eq_true',Bool.or_eq_false_iff,beq_eq_false_iff_ne] at plain
      exact ⟨plain.2.1.1,plain.1⟩
    rw [scheme]
    intro member
    have plain := List.mem_takeWhile_imp member
    simp [endsScheme,endsAuthority] at plain
  · rw [authority]
    simp [inName]

theorem urlHost_unmarked (found : urlHost url.1 = some host) :
    (63 : UInt8) ∉ host ∧ ((63 : UInt8) ∈ urlDomain url → host.length < (urlDomain url).length) := by
  obtain ⟨rest,authority,rfl⟩ := urlHost_authority found
  obtain ⟨shorter,part⟩ := authorityHost_part (rest.takeWhile fun byte => !endsAuthority byte)
  have domain : urlDomain url = (skipScheme url.1).takeWhile inName := rfl
  constructor
  · intro member
    have plain := List.mem_takeWhile_imp (part member)
    simp [endsAuthority] at plain
  · intro member
    have behind : skipScheme url.1 = rest := by
      by_cases http : ascii "http://" <+: url.1
      · obtain ⟨tail,split⟩ := http
        rw [← split] at authority ⊢
        have named : behindScheme (ascii "http://" ++ tail) = 47 :: 47 :: tail := rfl
        rw [named,List.cons.injEq,List.cons.injEq] at authority
        exact authority.2.2
      by_cases https : ascii "https://" <+: url.1
      · obtain ⟨tail,split⟩ := https
        rw [← split] at authority ⊢
        have named : behindScheme (ascii "https://" ++ tail) = 47 :: 47 :: tail := rfl
        rw [named,List.cons.injEq,List.cons.injEq] at authority
        exact authority.2.2
      · have bare : skipScheme url.1 = url.1 := by
          rw [skipScheme,if_neg (by rwa [List.isPrefixOf_iff_prefix]),if_neg (by rwa [List.isPrefixOf_iff_prefix])]
        rw [domain,bare] at member
        exact absurd member (bare_unmarked authority)
    rw [domain,behind] at member ⊢
    exact Nat.lt_of_le_of_lt shorter (takeWhile_shorter rfl member)

def singleRule (pattern : CString) (allow : Bool) : AkPolicy :=
  { emptyPolicy with domainRules := [⟨pattern,allow⟩], defaultDomainAllow := !allow }

theorem singleRule_check (pattern : CString) (allow : Bool) (domain : CString) :
    akPolicyCheckDomain (singleRule pattern allow) domain = if akPatternMatch pattern domain then allow else !allow := by
  unfold akPolicyCheckDomain singleRule
  cases matched : akPatternMatch pattern domain <;> simp [matched]

theorem exists_policy (first second : CString)
    (different : ∃ pattern, Glob.Separates starByte anyByte pattern first.1 second.1) :
    ∃ policy, akPolicyCheckDomain policy first = true ∧ akPolicyCheckDomain policy second = false := by
  obtain ⟨pattern,onlyOne,symbols⟩ := different
  have free : (0 : UInt8) ∉ pattern := by
    intro member
    rcases symbols 0 member with wild | inFirst | inSecond
    · exact absurd wild (by decide)
    · exact first.2 inFirst
    · exact second.2 inSecond
  have apart : akPatternMatch ⟨pattern,free⟩ first ≠ akPatternMatch ⟨pattern,free⟩ second := by
    rw [ne_eq,Bool.eq_iff_iff,akPatternMatch_iff,akPatternMatch_iff]
    exact onlyOne
  refine ⟨singleRule ⟨pattern,free⟩ (akPatternMatch ⟨pattern,free⟩ first),?_,?_⟩
  all_goals
    rw [singleRule_check]
    revert apart
    cases akPatternMatch ⟨pattern,free⟩ first <;> cases akPatternMatch ⟨pattern,free⟩ second <;> simp

theorem behindScheme_subset (url : Bytes) : behindScheme url ⊆ url := by
  unfold behindScheme
  split
  · rename_i rest split
    split
    · exact List.Subset.refl url
    · intro byte member
      have behind : byte ∈ url.dropWhile fun byte => !endsScheme byte := split ▸ List.mem_cons_of_mem 58 member
      exact (List.dropWhile_sublist _).subset behind
  · exact List.Subset.refl url

theorem host_nul_free (found : urlHost url.1 = some host) : (0 : UInt8) ∉ host := by
  obtain ⟨rest,authority,rfl⟩ := urlHost_authority found
  intro member
  have inRest := (List.takeWhile_sublist _).subset ((authorityHost_part _).2 member)
  have inUrl := behindScheme_subset url.1 (authority ▸ List.mem_cons_of_mem 47 (List.mem_cons_of_mem 47 inRest))
  exact url.2 inUrl

theorem domain_nul_free (url : CString) : (0 : UInt8) ∉ urlDomain url := by
  intro member
  have inRest : (0 : UInt8) ∈ skipScheme url.1 := (List.takeWhile_sublist _).subset member
  unfold skipScheme at inRest
  split at inRest
  · exact url.2 ((List.drop_sublist 7 _).subset inRest)
  split at inRest
  · exact url.2 ((List.drop_sublist 8 _).subset inRest)
  exact url.2 inRest

theorem urlDomain_length_le (url : CString) : (urlDomain url).length ≤ url.1.length := by
  refine (List.takeWhile_sublist _).length_le.trans ?_
  unfold skipScheme
  split
  · exact (List.drop_sublist 7 _).length_le
  split
  · exact (List.drop_sublist 8 _).length_le
  exact le_refl _

theorem name_told_apart (found : urlHost url.1 = some host) (different : urlDomain url ≠ host) :
    ∃ policy, akPolicyCheckDomain policy (.ofBuffer (urlDomain url)) = true ∧
      akPolicyCheckDomain policy (.ofBuffer host) = false := by
  apply exists_policy
  have name : (CString.ofBuffer (urlDomain url)).1 = urlDomain url := cstr_of_nul_free (domain_nul_free url)
  have named : (CString.ofBuffer host).1 = host := cstr_of_nul_free (host_nul_free found)
  rw [name,named]
  obtain ⟨unmarked,longer⟩ := urlHost_unmarked found
  refine Glob.exists_separates (by decide) _ _ fun shape => different ?_
  -- a question mark is in neither, and so a star of one is a star of the other
  rw [← List.forall₂_eq_eq_eq]
  rw [Glob.SameShape,List.forall₂_iff_zip] at shape
  rw [List.forall₂_iff_zip]
  refine ⟨shape.1,?_⟩
  intro a b pair
  obtain ⟨inName,inHost⟩ := List.of_mem_zip pair
  have plainA : a ≠ anyByte := by
    rintro rfl
    have shorter := longer inName
    omega
  have plainB : b ≠ anyByte := by
    rintro rfl
    exact unmarked inHost
  rcases shape.2 pair with same | ⟨wildA,wildB⟩
  · exact same
  · exact (wildA.resolve_right plainA).trans (wildB.resolve_right plainB).symm

/-- Every policy that lets a URL pass allows its host exactly if the name the URL leads with is
its host, or one that no policy lets pass. -/
theorem url_check_sound_iff (url : CString) :
    (∀ host ∈ urlHost url.1, ∀ policy, akPolicyCheckUrl policy url = true →
        akPolicyCheckDomain policy (.ofBuffer host) = true) ↔
      ∀ host ∈ urlHost url.1, ∃ name, LeadingName url.1 name ∧ (name = host ∨ name = [] ∨ 256 < name.length) := by
  constructor
  · intro sound host found
    refine ⟨urlDomain url,(leadingName_iff url _).mpr rfl,?_⟩
    by_contra differs
    simp only [not_or,Nat.not_lt] at differs
    obtain ⟨different,nonempty,short⟩ := differs
    obtain ⟨policy,passes,denied⟩ := name_told_apart found different
    have checked : akPolicyCheckUrl policy url = true := by
      rw [akPolicyCheckUrl,if_neg (by simp [nonempty,short])]
      exact passes
    rw [sound host found policy checked] at denied
    cases denied
  · intro leads host found policy passes
    obtain ⟨name,leading,agrees⟩ := leads host found
    obtain rfl := (leadingName_iff url name).mp leading
    unfold akPolicyCheckUrl at passes
    dsimp only at passes
    split at passes
    · cases passes
    rename_i sized
    rcases agrees with same | empty | long
    · rwa [same] at passes
    · exact absurd (Or.inl (by rw [empty]; rfl)) sized
    · exact absurd (Or.inr long) sized

/-- The user info of this URL is the only domain allowed; its host is another. -/
def disguisedUrl : CString := .ofBuffer (ascii "http://good.example:80@evil.example/")

/-- The URL passes although its host is denied. -/
theorem disguised_url_passes :
    urlHost disguisedUrl.1 = some (ascii "evil.example") ∧
      akPolicyCheckUrl (singleRule (.ofBuffer (ascii "good.example")) true) disguisedUrl = true ∧
      akPolicyCheckDomain (singleRule (.ofBuffer (ascii "good.example")) true) (.ofBuffer (ascii "evil.example")) =
        false := by
  decide +kernel

end AuthorityKernel.Policy
