import AuthorityKernel.Capability.Token

/-! How much of a token its canonical text determines. Every field is read back
from one end or the other, except that unescaped method names may run together. -/
namespace AuthorityKernel.Capability
open Library

/-- The authority two tokens carry is the same. -/
structure SameAuthority (a b : AkCapability) : Prop where
  type : a.type = b.type
  resource : a.resource = b.resource
  methods : a.methods = b.methods
  runId : a.runId = b.runId
  tid : a.tid = b.tid
  issuedMs : a.issuedMs = b.issuedMs
  ttlMs : a.ttlMs = b.ttlMs
  rateLimit : a.rateLimit = b.rateLimit
  rateWindowMs : a.rateWindowMs = b.rateWindowMs

structure SameSettings (a b : AkCapability) : Prop where
  type : a.type = b.type
  resource : a.resource = b.resource
  runId : a.runId = b.runId
  tid : a.tid = b.tid
  issuedMs : a.issuedMs = b.issuedMs
  ttlMs : a.ttlMs = b.ttlMs
  rateLimit : a.rateLimit = b.rateLimit
  rateWindowMs : a.rateWindowMs = b.rateWindowMs
  kid : a.kid = b.kid

theorem int32_injective {x y : UInt32} (same : x.toInt32.toInt = y.toInt32.toInt) : x = y :=
  congrArg Int32.toUInt32 (Int32.toInt_inj.mp same)

theorem byte_injective {x y : UInt8} (same : (x.toNat : Int) = y.toNat) : x = y :=
  UInt8.toNat_inj.mp (Int.ofNat_inj.mp same)

theorem code_injective {x y : CapType} (same : (x.code.toNat : Int) = y.code.toNat) : x = y := by
  obtain ⟨code⟩ := x
  obtain ⟨code'⟩ := y
  exact congrArg CapType.mk (byte_injective same)

def front (cap : AkCapability) : Bytes :=
  ascii "\x7b\"issued_ms\":" ++ decimalInt cap.issuedMs.toInt64.toInt ++
  ascii ",\"kid\":" ++ decimalInt cap.kid.toNat ++
  ascii ",\"methods\":[" ++ methodsText cap.methods

variable (a b : AkCapability) (methods : List CString)

theorem canonical_tail (same : akCapabilityCanonicalize a = akCapabilityCanonicalize b) :
    front a = front b ∧ a.type = b.type ∧ a.ttlMs = b.ttlMs ∧ a.tid = b.tid ∧ a.runId = b.runId ∧
      a.resource = b.resource ∧ a.rateWindowMs = b.rateWindowMs ∧ a.rateLimit = b.rateLimit := by
  obtain ⟨same,type⟩ := split_number _ _ (ascii ",\"type\"") _ _ (List.append_cancel_right same)
  obtain ⟨same,ttl⟩ := split_number _ _ (ascii "\",\"ttl_ms\"") _ _ same
  obtain ⟨same,tid⟩ := split_hex same
  obtain ⟨same,runId⟩ := split_hex same
  rw [List.append_assoc _ (ascii ",\"resource\":\""),List.append_assoc _ (ascii ",\"resource\":\"")] at same
  have quoted : ∀ text : Bytes, ascii ",\"resource\":\"" ++ text = ascii ",\"resource\"" ++ 58 :: 34 :: text :=
    fun _ => rfl
  rw [quoted,quoted,← List.append_assoc,← List.append_assoc] at same
  obtain ⟨same,resource⟩ := split_escaped (by decide) same
  obtain ⟨same,window⟩ := split_number _ _ (ascii ",\"rate_window_ms\"") _ _ (List.append_cancel_right same)
  obtain ⟨same,limit⟩ := split_number _ _ (ascii "],\"rate_limit\"") _ _ same
  exact ⟨same,code_injective type,int32_injective ttl,tid,runId,resource,int32_injective window,
    int32_injective limit⟩

theorem canonical_front (same : front a = front b) :
    a.issuedMs = b.issuedMs ∧ a.kid = b.kid ∧ methodsText a.methods = methodsText b.methods := by
  have shape : ∀ cap : AkCapability, front cap = ascii "\x7b\"issued_ms\":" ++
      (decimalInt cap.issuedMs.toInt64.toInt ++ 44 :: (ascii "\"kid\":" ++
        (decimalInt cap.kid.toNat ++ 44 :: (ascii "\"methods\":[" ++ methodsText cap.methods)))) := by
    intro cap
    simp [front,ascii]
  rw [shape,shape,List.append_cancel_left_eq] at same
  obtain ⟨issued,same⟩ := split_first (44 : UInt8) _ _ _ _ same (comma_free_decimalInt _) (comma_free_decimalInt _)
  rw [List.append_cancel_left_eq] at same
  obtain ⟨kid,same⟩ := split_first (44 : UInt8) _ _ _ _ same (comma_free_decimalInt _) (comma_free_decimalInt _)
  exact ⟨toInt64_injective (decimalInt_injective issued),byte_injective (decimalInt_injective kid),
    List.append_cancel_left same⟩

theorem canonicalize_eq_iff :
    akCapabilityCanonicalize a = akCapabilityCanonicalize b ↔
      SameSettings a b ∧ methodsText a.methods = methodsText b.methods := by
  constructor
  · intro same
    obtain ⟨fronts,type,ttl,tid,runId,resource,window,limit⟩ := canonical_tail a b same
    obtain ⟨issued,kid,methods⟩ := canonical_front a b fronts
    exact ⟨⟨type,resource,runId,tid,issued,ttl,limit,window,kid⟩,methods⟩
  · rintro ⟨settings,methods⟩
    unfold akCapabilityCanonicalize
    rw [settings.type,settings.resource,settings.runId,settings.tid,settings.issuedMs,settings.ttlMs,
      settings.rateLimit,settings.rateWindowMs,settings.kid,methods]

/-- The method names with `","` between them, as they stand between the first and
the last quote of the list. -/
def joinedNames (methods : List CString) : Bytes :=
  List.intercalate (ascii "\",\"") (methods.map Subtype.val)

/-- Two different lists of names that read the same once quoted and joined. -/
def NamesRunTogether (a b : List CString) : Prop :=
  a ≠ b ∧ a ≠ [] ∧ b ≠ [] ∧ joinedNames a = joinedNames b

theorem methodsText_cons (name : CString) (rest : List CString) :
    methodsText (name :: rest) =
      34 :: (name.1 ++ 34 :: (if rest = [] then [] else 44 :: methodsText rest)) := by
  cases rest with
  | nil | cons => simp [methodsText,quotedName]

theorem methodsText_eq_joined (some : methods ≠ []) :
    methodsText methods = 34 :: (joinedNames methods ++ [34]) := by
  induction methods with
  | nil => exact absurd rfl some
  | cons name rest ih =>
    rw [methodsText_cons]
    cases rest with
    | nil => simp [joinedNames]
    | cons next rest =>
      rw [if_neg (by simp),ih (by simp)]
      simp [joinedNames,ascii]

theorem methodsText_eq_nil (empty : methodsText methods = []) :
    methods = [] := by
  cases methods with
  | nil => rfl
  | cons name rest => simp [methodsText_cons] at empty

theorem methodsText_eq_iff {a b : List CString} (different : a ≠ b) :
    methodsText a = methodsText b ↔ NamesRunTogether a b := by
  by_cases emptyA : a = []
  · have other : b ≠ [] := fun emptyB => different (emptyA.trans emptyB.symm)
    refine iff_of_false (fun same => ?_) (fun together => together.2.1 emptyA)
    rw [emptyA] at same
    exact other (methodsText_eq_nil b same.symm)
  by_cases emptyB : b = []
  · refine iff_of_false (fun same => ?_) (fun together => together.2.2.1 emptyB)
    rw [emptyB] at same
    exact emptyA (methodsText_eq_nil a same)
  rw [methodsText_eq_joined a emptyA,methodsText_eq_joined b emptyB]
  constructor
  · intro same
    exact ⟨different,emptyA,emptyB,List.append_cancel_right (List.cons.inj same).2⟩
  · intro together
    rw [together.2.2.2]

/-- Equal canonical texts mean equal authority unless the two tokens differ only in
method names that run together. -/
theorem canonical_text_determines_authority_iff :
    (akCapabilityCanonicalize a = akCapabilityCanonicalize b → SameAuthority a b) ↔
      ¬ (SameSettings a b ∧ NamesRunTogether a.methods b.methods) := by
  constructor
  · rintro determines ⟨settings,together⟩
    have texts := (methodsText_eq_iff together.1).mpr together
    exact together.1 (determines ((canonicalize_eq_iff a b).mpr ⟨settings,texts⟩)).methods
  · intro apart same
    obtain ⟨settings,texts⟩ := (canonicalize_eq_iff a b).mp same
    have methods : a.methods = b.methods := by
      by_contra different
      exact apart ⟨settings,(methodsText_eq_iff different).mp texts⟩
    exact ⟨settings.type,settings.resource,methods,settings.runId,settings.tid,settings.issuedMs,
      settings.ttlMs,settings.rateLimit,settings.rateWindowMs⟩

def toolTokenFor (methods : List CString) (count : methods.length ≤ 8)
    (sizes : ∀ name ∈ methods, name.1.length < 32) : AkCapability where
  type := .tool
  resource := ascii "*"
  methods := methods
  issuedMs := 0
  ttlMs := 1000
  rateLimit := 0
  rateWindowMs := 0
  runId := Block.zero 16
  tid := Block.zero 16
  kid := 0
  mac := Block.zero 32
  resource_lt := by decide
  methods_le := count
  method_lt := sizes

def twoMethodToken : AkCapability := toolTokenFor [⟨ascii "a",by decide⟩,⟨ascii "b",by decide⟩] (by decide) (by decide)
def oneMethodToken : AkCapability := toolTokenFor [⟨ascii "a\",\"b",by decide⟩] (by decide) (by decide)

/-- The two grants sign the same text. -/
theorem two_methods_sign_as_one :
    akCapabilityCanonicalize twoMethodToken = akCapabilityCanonicalize oneMethodToken ∧
      ¬ SameAuthority twoMethodToken oneMethodToken := by
  constructor
  · rw [canonicalize_eq_iff]
    exact ⟨⟨rfl,rfl,rfl,rfl,rfl,rfl,rfl,rfl,rfl⟩,by decide⟩
  · intro same
    exact absurd same.methods (by decide)

end AuthorityKernel.Capability
