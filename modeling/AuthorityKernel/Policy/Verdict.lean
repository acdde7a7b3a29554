import AuthorityKernel.Policy.Effect

/-! What a document permits: names that some allow pattern covers and no deny pattern covers.
The parser keeps 255 bytes of a pattern and stops at a NUL, so the verdict is that of the
document only for patterns that lose nothing that matters. -/
namespace AuthorityKernel.Policy
open Library Library.JsonText

/-- The verdict of the patterns as written. -/
def Permits (patterns : List (Quoted × Bool)) (name : CString) : Prop :=
  (∃ item ∈ patterns, item.2 = true ∧ Covers item.1.bytes name.1) ∧
    ∀ item ∈ patterns, item.2 = false → ¬Covers item.1.bytes name.1

/-- The pattern covers the same names after it went through the parser's buffer. -/
def Kept (pattern : Bytes) : Prop :=
  (0 : UInt8) ∉ pattern ∧ (pattern.length ≤ 255 ∨
    (∀ byte ∈ pattern.drop 255, byte = starByte) ∧ Glob.EndsOpen starByte anyByte (pattern.take 255))

variable (name : CString) (bytes pattern : Bytes) (patterns : List (Quoted × Bool)) (rules : List Rule) (rule : Rule)

theorem cstr_eq_self (free : (0 : UInt8) ∉ bytes) : cstr bytes = bytes := by
  rw [cstr,List.takeWhile_eq_self_iff]
  intro byte member
  simpa using fun same : byte = 0 => free (same ▸ member)

theorem kept_iff (quoted : Quoted) :
    (∀ name : CString, Covers (quoted.held akPolicyMaxStr).1 name.1 ↔ Covers quoted.bytes name.1) ↔
      Kept quoted.bytes := by
  have held : (quoted.held akPolicyMaxStr).1 = cstr (quoted.bytes.take 255) := rfl
  have distinct : anyByte ≠ starByte := by decide
  by_cases free : (0 : UInt8) ∈ quoted.bytes
  · refine iff_of_false ?_ (fun kept => kept.1 free)
    intro same
    have self := (same (quoted.held akPolicyMaxStr)).mp (Glob.denotes_self _)
    exact (quoted.held akPolicyMaxStr).2 (Glob.mem_of_denotes (by decide) free self)
  have cutFree : (0 : UInt8) ∉ quoted.bytes.take 255 := fun member => free (List.mem_of_mem_take member)
  rw [held,cstr_eq_self _ cutFree,Kept]
  by_cases short : quoted.bytes.length ≤ 255
  · rw [List.take_of_length_le short]
    exact iff_of_true (fun _ => Iff.rfl) ⟨free,.inl short⟩
  have lost : quoted.bytes.drop 255 ≠ [] := by
    rw [← List.length_pos_iff,List.length_drop]
    omega
  have whole := List.take_append_drop 255 quoted.bytes
  have cut := @Glob.denotes_cut_iff _ _ starByte anyByte distinct (quoted.bytes.take 255) _ lost
  rw [whole] at cut
  simp only [free,short,not_false_eq_true,true_and,false_or]
  constructor
  · intro same
    refine cut.mp fun text inside => same ⟨text,?_⟩
    intro zero
    rcases inside 0 zero with isAny | member
    · exact absurd isAny (by decide)
    · exact cutFree member
  · rintro ⟨stars,ends⟩ name
    have open_end := Glob.denotes_append_stars distinct _ _ name.1 ends stars
    rw [whole] at open_end
    exact open_end.symm

def DeniesFirst (rules : List Rule) : Prop := rules.Pairwise fun first second => first.allow = true → second.allow = true

theorem placeRule_deniesFirst (denies : DeniesFirst rules) : DeniesFirst (placeRule rules rule) := by
  unfold placeRule
  split
  · rename_i front
    refine List.pairwise_cons.mpr ⟨?_,denies⟩
    intro other member allowed
    rw [allowed,Bool.not_true,Bool.false_or,List.isEmpty_iff] at front
    rw [front] at member
    cases member
  rename_i behind
  rw [Bool.or_eq_true,not_or] at behind
  refine List.pairwise_append.mpr ⟨denies,List.pairwise_singleton _ _,?_⟩
  intro first _ last member _
  rw [List.mem_singleton.mp member]
  simpa using behind.1

theorem mem_placeRule (other : Rule) : other ∈ placeRule rules rule ↔ other = rule ∨ other ∈ rules := by
  unfold placeRule
  split
  · exact List.mem_cons
  · rw [List.mem_append,List.mem_singleton,or_comm]

theorem placed_deniesFirst (denies : DeniesFirst rules) : DeniesFirst (patterns.foldl placeName rules) := by
  induction patterns generalizing rules with
  | nil => exact denies
  | cons item patterns ih => exact ih _ (placeRule_deniesFirst rules _ denies)

theorem mem_placed :
    rule ∈ patterns.foldl placeName rules ↔
      rule ∈ rules ∨ ∃ item ∈ patterns, rule = ⟨item.1.held akPolicyMaxStr,item.2⟩ := by
  induction patterns generalizing rules with
  | nil => simp
  | cons item patterns ih =>
    rw [List.foldl_cons,ih,placeName,mem_placeRule]
    simp only [List.mem_cons,exists_eq_or_imp]
    tauto

theorem first_match (matched : Rule → Bool) (denies : DeniesFirst rules) :
    (match rules.find? matched with
      | some rule => rule.allow
      | none => false) = true ↔
      (∃ rule ∈ rules, rule.allow = true ∧ matched rule = true) ∧
        ∀ rule ∈ rules, rule.allow = false → matched rule = false := by
  induction rules with
  | nil => simp
  | cons rule rules ih =>
    obtain ⟨later,denies⟩ := List.pairwise_cons.mp denies
    cases hit : matched rule with
    | false =>
      rw [List.find?_cons_of_neg (by simp [hit]),ih denies]
      simp [hit]
    | true =>
      rw [List.find?_cons_of_pos hit]
      dsimp only
      constructor
      · intro allowed
        refine ⟨⟨rule,List.mem_cons_self,allowed,hit⟩,?_⟩
        intro other member denied
        rcases List.mem_cons.mp member with rfl | behind
        · rw [allowed] at denied
          cases denied
        · rw [later other behind allowed] at denied
          cases denied
      · rintro ⟨_,none⟩
        by_contra denied
        rw [Bool.not_eq_true] at denied
        have missed := none rule List.mem_cons_self denied
        rw [hit] at missed
        cases missed

def HeldPermits (patterns : List (Quoted × Bool)) (name : CString) : Prop :=
  (∃ item ∈ patterns, item.2 = true ∧ Covers (item.1.held akPolicyMaxStr).1 name.1) ∧
    ∀ item ∈ patterns, item.2 = false → ¬Covers (item.1.held akPolicyMaxStr).1 name.1

theorem placed_verdict {matched : Rule → Bool} {name : CString}
    (decides : ∀ rule, matched rule = true ↔ Covers rule.pattern.1 name.1) :
    (match (patterns.foldl placeName []).find? matched with
      | some rule => rule.allow
      | none => false) = true ↔ HeldPermits patterns name := by
  rw [first_match _ matched (placed_deniesFirst patterns [] List.Pairwise.nil),HeldPermits]
  refine and_congr ?_ ?_
  · constructor
    · rintro ⟨rule,member,allowed,hit⟩
      rw [decides] at hit
      obtain ⟨item,inside,rfl⟩ := ((mem_placed patterns [] rule).mp member).resolve_left List.not_mem_nil
      exact ⟨item,inside,allowed,hit⟩
    · rintro ⟨item,inside,allowed,covers⟩
      exact ⟨⟨item.1.held akPolicyMaxStr,item.2⟩,(mem_placed patterns [] _).mpr (.inr ⟨item,inside,rfl⟩),allowed,
        (decides _).mpr covers⟩
  · constructor
    · intro none item inside denied covers
      have missed := none ⟨item.1.held akPolicyMaxStr,item.2⟩ ((mem_placed patterns [] _).mpr (.inr ⟨item,inside,rfl⟩))
        denied
      rw [(decides _).mpr covers] at missed
      cases missed
    · intro none rule member denied
      obtain ⟨item,inside,rfl⟩ := ((mem_placed patterns [] rule).mp member).resolve_left List.not_mem_nil
      rw [← Bool.not_eq_true,decides]
      exact none item inside denied

theorem tool_matched :
    (rule.pattern == name || akPatternMatch rule.pattern name) = true ↔ Covers rule.pattern.1 name.1 := by
  rw [Bool.or_eq_true,beq_iff_eq,akPatternMatch_iff]
  constructor
  · rintro (rfl | covers)
    · exact Glob.denotes_self _
    · exact covers
  · exact .inr

theorem loaded_verdict {env : LoadEnv} {verifyKey : Option (Block 32)} {data : Bytes} {policy : AkPolicy}
    (loaded : akPolicyLoad env verifyKey data = some policy) {doc : Document} (writes : Writes doc data) :
    (∀ name, akPolicyCheckTool policy name = true ↔ HeldPermits doc.toolPatterns name) ∧
      ∀ domain, akPolicyCheckDomain policy domain = true ↔ HeldPermits doc.domainPatterns domain := by
  obtain ⟨denyTools,denyDomains,_⟩ := akPolicyLoad_defaults loaded
  obtain ⟨parsed,read,content⟩ := akPolicyLoad_parsed loaded
  have effect := writes.parsed env emptyPolicy parsed read
  have tools : policy.toolRules = doc.toolPatterns.foldl placeName [] := by
    rw [content]
    rw [effect,Document.effect_toolRules]
    rfl
  have domains : policy.domainRules = doc.domainPatterns.foldl placeName [] := by
    rw [content]
    rw [effect,Document.effect_domainRules]
    rfl
  constructor
  · intro name
    rw [akPolicyCheckTool,tools,denyTools]
    exact placed_verdict doc.toolPatterns (tool_matched name)
  · intro domain
    rw [akPolicyCheckDomain,domains,denyDomains]
    exact placed_verdict doc.domainPatterns fun rule => akPatternMatch_iff rule.pattern domain

theorem heldPermits_iff (kept : ∀ item ∈ patterns, Kept item.1.bytes) (name : CString)
    : HeldPermits patterns name ↔ Permits patterns name := by
  have same (item : Quoted × Bool) (member : item ∈ patterns) := (kept_iff item.1).mpr (kept item member) name
  refine and_congr ?_ ?_
  · refine exists_congr fun item => and_congr_right fun member => and_congr_right fun _ => same item member
  · refine forall_congr' fun item => forall_congr' fun member => forall_congr' fun _ => not_congr (same item member)

/-! Every pattern can be written. -/

def pieceFor (byte : UInt8) : Piece := if ordinary : byte ≠ 34 ∧ byte ≠ 92 then .plain byte ordinary else .escape byte

theorem decode_pieces : decode (bytes.map pieceFor) = some bytes := by
  induction bytes with
  | nil => rfl
  | cons byte bytes ih =>
    rw [List.map_cons,pieceFor]
    split
    · rw [decode,ih]
      rfl
    rename_i special
    rw [decode,ih]
    by_cases quote : byte = 34
    · rw [quote]
      rfl
    have backslash : byte = 92 := by
      by_contra other
      exact special ⟨quote,other⟩
    rw [backslash]
    rfl

def quoted (bytes : Bytes) : Quoted := ⟨bytes.map pieceFor,bytes,decode_pieces bytes⟩

def noBlanks : Blanks := ⟨[],by simp⟩

def plainField {β : Type} (key : String) (value : β) : Field β :=
  ⟨noBlanks,quoted (ascii key),noBlanks,value,noBlanks,false⟩

def nameList (name : Bytes) : ArrayValue := .names ⟨noBlanks,[⟨noBlanks,quoted name,noBlanks,false⟩],noBlanks,by simp⟩

def oneTool (pattern : Bytes) : Document where
  object := ⟨noBlanks,[plainField "tools" (.tools ⟨noBlanks,[plainField "allow" (nameList pattern)],noBlanks⟩)],noBlanks⟩
  trail := noBlanks

theorem oneTool_valid : (oneTool pattern).Valid ampleMemory := by
  intro field member
  rw [List.mem_singleton.mp member]
  refine ⟨(by decide : ((quoted (ascii "tools")).held 64).1 = ascii "tools"),?_⟩
  intro inner listed
  rw [List.mem_singleton.mp listed]
  exact (by decide : (fieldFor (toolFields ampleMemory) ((quoted (ascii "allow")).held 64)).isSome = true)

theorem oneTool_applies :
    (oneTool pattern).apply ampleMemory emptyPolicy =
      some { emptyPolicy with toolRules := [⟨(quoted pattern).held akPolicyMaxStr,true⟩] } := by
  rfl

theorem oneTool_loads :
    ∃ policy, akPolicyLoad ampleMemory none ((oneTool pattern).text ampleMemory) = some policy := by
  have nonempty : (oneTool pattern).text ampleMemory ≠ [] := List.cons_ne_nil _ _
  rw [akPolicyLoad,if_neg nonempty,if_neg (by decide),akPolicyParseJson_text _ _ (oneTool_valid pattern),
    oneTool_applies]
  exact ⟨_,rfl⟩

/-- For every set of patterns: the checks of all loaded policies with such patterns answer what
their documents permit exactly if none of the patterns loses anything in the parser's buffer. -/
theorem deny_wins_iff (patterns : Set Bytes) :
    (∀ env verifyKey data policy doc, akPolicyLoad env verifyKey data = some policy → Writes doc data →
        (∀ item ∈ doc.toolPatterns ++ doc.domainPatterns, item.1.bytes ∈ patterns) →
          (∀ name, akPolicyCheckTool policy name = true ↔ Permits doc.toolPatterns name) ∧
            ∀ domain, akPolicyCheckDomain policy domain = true ↔ Permits doc.domainPatterns domain) ↔
      ∀ pattern ∈ patterns, Kept pattern := by
  constructor
  · intro answers pattern member
    obtain ⟨policy,loaded⟩ := oneTool_loads pattern
    have writes : Writes (oneTool pattern) ((oneTool pattern).text ampleMemory) := ⟨oneTool_valid pattern,rfl⟩
    have listed : (oneTool pattern).toolPatterns = [(quoted pattern,true)] := rfl
    have drawn : ∀ item ∈ (oneTool pattern).toolPatterns ++ (oneTool pattern).domainPatterns,
        item.1.bytes ∈ patterns := by
      intro item inside
      rw [listed] at inside
      rw [List.mem_singleton.mp inside]
      exact member
    have right := (answers _ _ _ policy _ loaded writes drawn).1
    have held := (loaded_verdict loaded writes).1
    refine (kept_iff (quoted pattern)).mp fun name => ?_
    have same := (held name).symm.trans (right name)
    rw [listed] at same
    simpa [HeldPermits,Permits] using same
  · intro kept env verifyKey data policy doc loaded writes drawn
    obtain ⟨tools,domains⟩ := loaded_verdict loaded writes
    constructor
    · intro name
      exact (tools name).trans (heldPermits_iff _ (fun item member => kept _ (drawn item (by simp [member]))) name)
    · intro domain
      exact (domains domain).trans (heldPermits_iff _ (fun item member => kept _ (drawn item (by simp [member]))) domain)

def longName : Bytes := List.replicate 256 97

/-- All tools are allowed but one, whose name has 256 letters. -/
def longDeny : Document where
  object := ⟨noBlanks,[plainField "tools" (.tools ⟨noBlanks,[{ plainField "allow" (nameList [starByte]) with comma := true },
    plainField "deny" (nameList longName)],noBlanks⟩)],noBlanks⟩
  trail := noBlanks

def longDenyText : Bytes :=
  ascii "\x7b\"tools\":\x7b\"allow\":[\"*\"],\"deny\":[\"" ++ longName ++ ascii "\"]\x7d\x7d"

theorem longDeny_written : Writes longDeny longDenyText where
  valid := by
    intro field member
    rw [List.mem_singleton.mp member]
    refine ⟨(by decide : ((quoted (ascii "tools")).held 64).1 = ascii "tools"),?_⟩
    intro inner listed
    rcases List.mem_cons.mp listed with rfl | listed
    · exact (by decide : (fieldFor (toolFields ampleMemory) ((quoted (ascii "allow")).held 64)).isSome = true)
    · rw [List.mem_singleton.mp listed]
      exact (by decide : (fieldFor (toolFields ampleMemory) ((quoted (ascii "deny")).held 64)).isSome = true)
  text := by decide +kernel

theorem long_deny_lost :
    ∃ policy, akPolicyLoad ampleMemory none longDenyText = some policy ∧ Writes longDeny longDenyText ∧
      akPolicyCheckTool policy (.ofBuffer longName) = true ∧ ¬Permits longDeny.toolPatterns (.ofBuffer longName) := by
  have loads : (akPolicyLoad ampleMemory none longDenyText).any
      (fun policy => akPolicyCheckTool policy (.ofBuffer longName)) = true := by decide +kernel
  obtain ⟨policy,loaded,allowed⟩ := (Option.any_eq_true _ _).mp loads
  refine ⟨policy,loaded,longDeny_written,allowed,?_⟩
  intro permits
  have whole : (CString.ofBuffer longName).1 = longName := by decide +kernel
  have listed : longDeny.toolPatterns = [(quoted [starByte],true),(quoted longName,false)] := rfl
  refine permits.2 (quoted longName,false) (by rw [listed]; simp) rfl ?_
  rw [whole]
  exact Glob.denotes_self longName

end AuthorityKernel.Policy
