import AuthorityKernel.Policy.Load
import AuthorityKernel.Policy.Tokens
import AuthorityKernel.Library.Guards

/-! Objects and arrays of names in policy documents, read by loops that never ask whether a
comma was due. -/
namespace AuthorityKernel.Policy
open Library Library.Scan Library.JsonText

structure Field (β : Type) where
  lead : Blanks
  key : Quoted
  gap : Blanks
  value : β
  trail : Blanks
  comma : Bool

structure ObjectText (β : Type) where
  lead : Blanks
  fields : List (Field β)
  close : Blanks

def commaText (comma : Bool) : Bytes := if comma then [44] else []

theorem follows_blanks (blanks : Blanks) {byte : UInt8} (rest : Bytes) (stop : byte = 44 ∨ byte = 125 ∨ byte = 34) :
    Follows (blanks.1 ++ byte :: rest) := by
  intro first leads
  rcases List.eq_nil_or_concat blanks.1 with none | ⟨_,_,some⟩
  · rw [none] at leads
    cases leads
    exact Or.inr stop
  have inside : first ∈ blanks.1 := by
    cases present : blanks.1 with
    | nil => simp [present] at some
    | cons head tail =>
      rw [present] at leads
      cases leads
      exact List.mem_cons_self
  exact Or.inl (blanks.2 first inside)

def Blanks.append (first second : Blanks) : Blanks :=
  ⟨first.1 ++ second.1,fun byte inside => (List.mem_append.mp inside).elim (first.2 byte) (second.2 byte)⟩

/-- What a reader of member values accepts, and what it does with it. -/
structure Reader (member : AkPolicy → CString → Bytes → Option (AkPolicy × Bytes)) (β : Type) where
  text : β → Bytes
  Valid : CString → β → Prop
  apply : CString → β → AkPolicy → Option AkPolicy
  sound : ∀ policy key p updated rest, member policy key p = some (updated,rest) →
    ∃ value, Valid key value ∧ p = text value ++ rest ∧ apply key value policy = some updated
  complete : ∀ policy key value rest, Valid key value → Follows rest →
    member policy key (text value ++ rest) = (apply key value policy).map fun updated => (updated,rest)

variable {policy updated : AkPolicy} {rest : Bytes} {result : AkPolicy × Bytes}

section Objects

variable {member : AkPolicy → CString → Bytes → Option (AkPolicy × Bytes)} {β : Type} (reader : Reader member β)
  (maxLen : Nat)

def Field.text (field : Field β) : Bytes :=
  field.lead.1 ++ (field.key.text ++ (field.gap.1 ++ 58 :: (reader.text field.value ++
    (field.trail.1 ++ commaText field.comma))))

def Field.Valid (field : Field β) : Prop := reader.Valid (field.key.held maxLen) field.value

def Field.apply (policy : AkPolicy) (field : Field β) : Option AkPolicy :=
  reader.apply (field.key.held maxLen) field.value policy

def ObjectText.text (object : ObjectText β) : Bytes :=
  object.lead.1 ++ 123 :: (object.fields.flatMap (Field.text reader) ++ (object.close.1 ++ [125]))

def ObjectText.Valid (object : ObjectText β) : Prop := ∀ field ∈ object.fields, field.Valid reader maxLen

def ObjectText.apply (object : ObjectText β) (policy : AkPolicy) : Option AkPolicy :=
  object.fields.foldlM (Field.apply reader maxLen) policy

def fieldsText (fields : List (Field β)) (close : Blanks) (rest : Bytes) : Bytes :=
  fields.flatMap (Field.text reader) ++ (close.1 ++ 125 :: rest)

theorem fieldsText_cons (field : Field β) (fields : List (Field β)) (close : Blanks) (rest : Bytes) :
    fieldsText reader (field :: fields) close rest =
      field.lead.1 ++ (field.key.text ++ (field.gap.1 ++ 58 :: (reader.text field.value ++
        (field.trail.1 ++ (commaText field.comma ++ fieldsText reader fields close rest))))) := by
  simp [fieldsText,Field.text]

variable (comma : Bool) (trail : Blanks) (fields : List (Field β)) (close : Blanks)

theorem fieldsText_head (rest : Bytes) :
    ∃ (blanks : Blanks) (byte : UInt8) (tail : Bytes), (byte = 34 ∨ byte = 125) ∧
      fieldsText reader fields close rest = blanks.1 ++ byte :: tail := by
  cases fields with
  | nil => exact ⟨close,125,rest,Or.inr rfl,rfl⟩
  | cons field fields =>
    rw [fieldsText_cons,Quoted.text,literal_append]
    exact ⟨field.lead,34,_,Or.inl rfl,rfl⟩

theorem skipComma_fieldsText
    (rest : Bytes) :
    skipComma (trail.1 ++ (commaText comma ++ fieldsText reader fields close rest)) =
      if comma then fieldsText reader fields close rest else pjSkipWs (fieldsText reader fields close rest) := by
  cases comma with
  | true =>
    rw [skipComma,commaText,if_pos rfl,List.singleton_append,pjSkipWs_blanks trail _ (by rintro _ ⟨⟩; rfl)]
    rfl
  | false =>
    obtain ⟨blanks,byte,tail,stop,whole⟩ := fieldsText_head reader fields close rest
    have stops : ∀ first ∈ (byte :: tail).head?, blank first = false := by
      rintro _ ⟨⟩
      rcases stop with rfl | rfl <;> rfl
    have joined : pjSkipWs (trail.1 ++ (blanks.1 ++ byte :: tail)) = byte :: tail := by
      rw [← List.append_assoc]
      exact pjSkipWs_blanks (Blanks.append trail blanks) _ stops
    have plain : byte ≠ 44 := by rcases stop with rfl | rfl <;> decide
    rw [commaText,if_neg Bool.false_ne_true,List.nil_append,whole,skipComma,joined,
      pjSkipWs_blanks blanks _ stops]
    exact if_neg plain

theorem follows_fieldsText
    (rest : Bytes) : Follows (trail.1 ++ (commaText comma ++ fieldsText reader fields close rest)) := by
  cases comma with
  | true => exact follows_blanks trail _ (Or.inl rfl)
  | false =>
    obtain ⟨blanks,byte,tail,stop,whole⟩ := fieldsText_head reader fields close rest
    rw [commaText,if_neg Bool.false_ne_true,List.nil_append,whole,← List.append_assoc]
    exact follows_blanks (Blanks.append trail blanks) tail (Or.inr stop.symm)

theorem objectTurn_again {next : AkPolicy} {text : Bytes}
    (again : objectTurn maxLen member policy text = .again next rest) :
    ∃ field : Field β, field.Valid reader maxLen ∧ text = field.text reader ++ rest ∧
      Field.apply reader maxLen policy field = some next := by
  unfold objectTurn at again
  split at again
  · cases again
  rename_i byte tail blanks
  obtain ⟨-,again⟩ := Guards.passed again nofun
  split at again
  · cases again
  rename_i name after parsed
  obtain ⟨key,gap,same,rfl⟩ := parseKey_split parsed
  split at again
  · cases again
  rename_i updated behind read
  cases again
  obtain ⟨value,valid,rfl,applied⟩ := reader.sound _ _ _ _ _ read
  obtain ⟨lead,whole⟩ := pjSkipWs_split text
  obtain ⟨trail,left⟩ := pjSkipWs_split behind
  rw [blanks,same] at whole
  refine ⟨⟨lead,key,gap,value,trail,decide ((pjSkipWs behind).head? = some 44)⟩,valid,?_,applied⟩
  have comma : behind = trail.1 ++ (commaText (decide ((pjSkipWs behind).head? = some 44)) ++ skipComma behind) := by
    unfold skipComma
    cases next : pjSkipWs behind with
    | nil => simpa [next,commaText] using left
    | cons first others =>
      by_cases isComma : first = 44
      · subst isComma
        simpa [next,commaText] using left
      · simpa [next,commaText,isComma] using left
  rw [whole,Field.text]
  conv_lhs => rw [comma]
  simp

include reader in
theorem objectTurn_consuming : Consuming (objectTurn maxLen member) := by
  intro policy text next rest again
  obtain ⟨field,_,rfl,_⟩ := objectTurn_again reader maxLen again
  simp only [Field.text,List.length_append,List.length_cons]
  omega

theorem objectTurn_done {text : Bytes} (done : objectTurn maxLen member policy text = .done result) :
    ∃ close : Blanks, text = close.1 ++ 125 :: result.2 ∧ policy = result.1 := by
  unfold objectTurn at done
  split at done
  · cases done
  rename_i byte tail skipped
  split at done
  · rename_i closing
    cases done
    obtain ⟨close,left⟩ := pjSkipWs_split text
    rw [skipped,closing] at left
    exact ⟨close,left,rfl⟩
  · repeat' split at done
    all_goals cases done

include reader in
theorem scan_skipWs (policy : AkPolicy) (p : Bytes) :
    scan (objectTurn maxLen member) policy (pjSkipWs p) = scan (objectTurn maxLen member) policy p := by
  have consuming := objectTurn_consuming reader maxLen
  rw [scan_eq consuming,scan_eq consuming]
  simp only [objectTurn,pjSkipWs_idem]

theorem scan_fieldsText {fields : List (Field β)} (close : Blanks) (rest : Bytes)
    (valid : ∀ field ∈ fields, field.Valid reader maxLen) (policy : AkPolicy) :
    scan (objectTurn maxLen member) policy (fieldsText reader fields close rest) =
      (fields.foldlM (Field.apply reader maxLen) policy).map fun updated => (updated,rest) := by
  have consuming := objectTurn_consuming reader maxLen
  induction fields generalizing policy with
  | nil =>
    have last : objectTurn maxLen member policy (fieldsText reader [] close rest) = .done (policy,rest) := by
      rw [fieldsText,List.flatMap_nil,List.nil_append,objectTurn,pjSkipWs_blanks close _ (by rintro _ ⟨⟩; rfl)]
      rfl
    rw [scan_eq consuming,last]
    rfl
  | cons field fields ih =>
    have key : ∀ behind, pjSkipWs (field.lead.1 ++ (field.key.text ++ behind)) = field.key.text ++ behind := by
      intro behind
      refine pjSkipWs_blanks field.lead _ ?_
      rw [Quoted.text_head]
      rintro _ ⟨⟩
      rfl
    have value := reader.complete policy (field.key.held maxLen) field.value
      (field.trail.1 ++ (commaText field.comma ++ fieldsText reader fields close rest))
      (valid field List.mem_cons_self) (follows_fieldsText reader field.comma field.trail fields close rest)
    have turn : objectTurn maxLen member policy (fieldsText reader (field :: fields) close rest) =
        (Field.apply reader maxLen policy field).elim .fail fun updated =>
          .again updated (if field.comma then fieldsText reader fields close rest
            else pjSkipWs (fieldsText reader fields close rest)) := by
      rw [fieldsText_cons,objectTurn,key,Quoted.text,literal_append]
      dsimp only
      rw [if_neg (by decide),← literal_append,← Quoted.text,parseKey_quoted]
      dsimp only
      rw [value,Field.apply]
      cases reader.apply (field.key.held maxLen) field.value policy with
      | none => rfl
      | some updated => simp only [Option.map_some,skipComma_fieldsText,Option.elim_some]
    rw [scan_eq consuming,turn,List.foldlM_cons]
    cases Field.apply reader maxLen policy field with
    | none => rfl
    | some updated =>
      rw [Option.elim_some]
      dsimp only
      have later := ih (fun field inside => valid field (List.mem_cons_of_mem _ inside)) updated
      split
      · exact later
      · rw [scan_skipWs reader maxLen]
        exact later

theorem parseObject_text {object : ObjectText β} (valid : object.Valid reader maxLen) (policy : AkPolicy)
    (rest : Bytes) :
    parseObject maxLen member policy (object.text reader ++ rest) =
      (object.apply reader maxLen policy).map fun updated => (updated,rest) := by
  have whole : object.text reader ++ rest = object.lead.1 ++ 123 :: fieldsText reader object.fields object.close rest := by
    simp [ObjectText.text,fieldsText]
  rw [whole,parseObject,pjSkipWs_blanks object.lead _ (by rintro _ ⟨⟩; rfl)]
  dsimp only
  rw [if_pos rfl]
  exact scan_fieldsText reader maxLen object.close rest valid policy

theorem parseObject_split {p : Bytes} (read : parseObject maxLen member policy p = some (updated,rest)) :
    ∃ object : ObjectText β, object.Valid reader maxLen ∧ p = object.text reader ++ rest ∧
      object.apply reader maxLen policy = some updated := by
  unfold parseObject at read
  split at read
  · cases read
  rename_i byte tail blanks
  obtain ⟨brace,read⟩ := Guards.entered read nofun
  obtain ⟨lead,whole⟩ := pjSkipWs_split p
  rw [blanks,brace] at whole
  have gathered := @scan_gathers _ _ _ (objectTurn maxLen member) _ (Field.text reader) (Field.apply reader maxLen)
    (fun field _ => field.Valid reader maxLen) (fun _ => True)
    (fun state text next rest again => by
      obtain ⟨field,valid,whole,applied⟩ := objectTurn_again reader maxLen again
      exact ⟨field,whole,applied,valid⟩)
    (fun _ _ _ _ _ _ _ => trivial) policy tail (updated,rest) read
  obtain ⟨fields,last,left,text,applied,done,valid,_,_⟩ := gathered
  obtain ⟨close,rfl,rfl⟩ := objectTurn_done maxLen done
  refine ⟨⟨lead,fields,close⟩,fun field inside => ?_,by rw [whole,text]; simp [ObjectText.text],applied⟩
  obtain ⟨_,fits⟩ := valid field inside
  exact fits

end Objects

structure Element where
  lead : Blanks
  name : Quoted
  trail : Blanks
  comma : Bool

/-- An array of names. Commas stand between the names and may stand behind the last. -/
structure ArrayText where
  lead : Blanks
  elements : List Element
  close : Blanks
  separated : ∀ element ∈ elements.dropLast, element.comma = true

def Element.text (element : Element) : Bytes :=
  element.lead.1 ++ (element.name.text ++ (element.trail.1 ++ commaText element.comma))

def ArrayText.text (array : ArrayText) : Bytes :=
  array.lead.1 ++ 91 :: (array.elements.flatMap Element.text ++ (array.close.1 ++ [93]))

section Arrays

variable (add : AkPolicy → CString → Option AkPolicy)

def Element.apply (policy : AkPolicy) (element : Element) : Option AkPolicy :=
  add policy (element.name.held akPolicyMaxStr)

def ArrayText.apply (array : ArrayText) (policy : AkPolicy) : Option AkPolicy :=
  array.elements.foldlM (Element.apply add) policy

def elementsText (elements : List Element) (close : Blanks) (rest : Bytes) : Bytes :=
  elements.flatMap Element.text ++ (close.1 ++ 93 :: rest)

theorem elementsText_cons (element : Element) (elements : List Element) (close : Blanks) (rest : Bytes) :
    elementsText (element :: elements) close rest = element.lead.1 ++ (element.name.text ++ (element.trail.1 ++
      (commaText element.comma ++ elementsText elements close rest))) := by
  simp [elementsText,Element.text]

theorem stringArrayTurn_close (close : Blanks) (rest : Bytes) (policy : AkPolicy) :
    stringArrayTurn add policy (close.1 ++ 93 :: rest) = .done (policy,rest) := by
  rw [stringArrayTurn,pjSkipWs_blanks close _ (by rintro _ ⟨⟩; rfl)]
  rfl

theorem stringArrayTurn_element {element : Element} {behind : Bytes} (policy : AkPolicy)
    (stop : element.comma = true ∨ ∃ (close : Blanks) (rest : Bytes), behind = close.1 ++ 93 :: rest) :
    stringArrayTurn add policy (element.lead.1 ++ (element.name.text ++ (element.trail.1 ++
      (commaText element.comma ++ behind)))) =
      match Element.apply add policy element with
      | none => .fail
      | some updated => .again updated (if element.comma then behind else pjSkipWs behind) := by
  have name : ∀ after, pjSkipWs (element.lead.1 ++ (element.name.text ++ after)) = element.name.text ++ after := by
    intro after
    refine pjSkipWs_blanks element.lead _ ?_
    rw [Quoted.text_head]
    rintro _ ⟨⟩
    rfl
  rw [stringArrayTurn,name,Quoted.text,literal_append]
  dsimp only
  rw [if_neg (by decide),← literal_append,← Quoted.text,pjParseString_quoted]
  dsimp only
  rw [Element.apply]
  cases add policy (element.name.held akPolicyMaxStr) with
  | none => rfl
  | some updated =>
    cases comma : element.comma with
    | true =>
      rw [commaText,if_pos rfl,List.singleton_append,pjSkipWs_blanks element.trail _ (by rintro _ ⟨⟩; rfl)]
      rfl
    | false =>
      rw [comma] at stop
      obtain ⟨close,rest,rfl⟩ := stop.resolve_left Bool.false_ne_true
      have bracket : pjSkipWs (element.trail.1 ++ (close.1 ++ 93 :: rest)) = 93 :: rest := by
        rw [← List.append_assoc]
        exact pjSkipWs_blanks (Blanks.append element.trail close) _ (by rintro _ ⟨⟩; rfl)
      rw [commaText,if_neg Bool.false_ne_true,List.nil_append,bracket,
        pjSkipWs_blanks close _ (by rintro _ ⟨⟩; rfl)]
      rfl

theorem stringArrayTurn_again {next : AkPolicy} {text : Bytes}
    (again : stringArrayTurn add policy text = .again next rest) :
    ∃ element : Element, text = element.text ++ rest ∧ Element.apply add policy element = some next ∧
      (element.comma = true ∨ rest.head? = some 93) ∧ text.head? ≠ some 93 := by
  unfold stringArrayTurn at again
  split at again
  · cases again
  rename_i byte tail blanks
  obtain ⟨notClosed,again⟩ := Guards.passed again nofun
  have opened : text.head? ≠ some 93 := by
    intro closed
    cases text with
    | nil => cases closed
    | cons first others =>
      cases closed
      have same : (93 : UInt8) :: others = byte :: tail := blanks
      exact notClosed (List.cons.inj same).1.symm
  split at again
  · cases again
  rename_i held after parsed
  obtain ⟨name,same,rfl⟩ := pjParseString_split _ _ held after parsed
  obtain ⟨lead,whole⟩ := pjSkipWs_split text
  obtain ⟨trail,left⟩ := pjSkipWs_split after
  rw [blanks,same] at whole
  split at again
  · cases again
  rename_i updated added
  split at again
  · cases again
  rename_i mark last skipped
  rw [skipped] at left
  split at again
  · rename_i comma
    cases again
    refine ⟨⟨lead,name,trail,true⟩,?_,added,Or.inl rfl,opened⟩
    rw [whole,left,comma]
    simp [Element.text,commaText]
  · obtain ⟨closing,again⟩ := Guards.entered again nofun
    cases again
    refine ⟨⟨lead,name,trail,false⟩,?_,added,Or.inr (by rw [closing]; rfl),opened⟩
    rw [whole,left]
    simp [Element.text,commaText]

theorem stringArrayTurn_consuming : Consuming (stringArrayTurn add) := by
  intro policy text next rest again
  obtain ⟨element,rfl,_⟩ := stringArrayTurn_again add again
  simp only [Element.text,Quoted.text,literal,List.length_append,List.length_cons]
  omega

theorem stringArrayTurn_done {text : Bytes} (done : stringArrayTurn add policy text = .done result) :
    ∃ close : Blanks, text = close.1 ++ 93 :: result.2 ∧ policy = result.1 := by
  unfold stringArrayTurn at done
  split at done
  · cases done
  rename_i byte tail skipped
  split at done
  · rename_i closing
    cases done
    obtain ⟨close,left⟩ := pjSkipWs_split text
    rw [skipped,closing] at left
    exact ⟨close,left,rfl⟩
  · repeat' split at done
    all_goals cases done

theorem scanNames_skipWs (policy : AkPolicy) (p : Bytes) :
    scan (stringArrayTurn add) policy (pjSkipWs p) = scan (stringArrayTurn add) policy p := by
  rw [scan_eq (stringArrayTurn_consuming add),scan_eq (stringArrayTurn_consuming add)]
  simp only [stringArrayTurn,pjSkipWs_idem]

theorem scan_elementsText {elements : List Element} (close : Blanks) (rest : Bytes)
    (separated : ∀ element ∈ elements.dropLast, element.comma = true) (policy : AkPolicy) :
    scan (stringArrayTurn add) policy (elementsText elements close rest) =
      (elements.foldlM (Element.apply add) policy).map fun updated => (updated,rest) := by
  have consuming := stringArrayTurn_consuming add
  induction elements generalizing policy with
  | nil =>
    rw [scan_eq consuming,elementsText,List.flatMap_nil,List.nil_append,stringArrayTurn_close]
    rfl
  | cons element elements ih =>
    have stop : element.comma = true ∨
        ∃ (behind : Blanks) (after : Bytes), elementsText elements close rest = behind.1 ++ 93 :: after := by
      cases elements with
      | nil => exact Or.inr ⟨close,rest,rfl⟩
      | cons => exact Or.inl (separated element (by simp))
    have later : ∀ updated, scan (stringArrayTurn add) updated (elementsText elements close rest) =
        (elements.foldlM (Element.apply add) updated).map fun final => (final,rest) := by
      refine ih fun other inside => separated other ?_
      cases elements with
      | nil => cases inside
      | cons => exact List.mem_cons_of_mem _ inside
    rw [scan_eq consuming,elementsText_cons,stringArrayTurn_element add policy stop,List.foldlM_cons]
    cases Element.apply add policy element with
    | none => rfl
    | some updated =>
      dsimp only
      split
      · exact later updated
      · rw [scanNames_skipWs]
        exact later updated

theorem pjParseStringArray_text (array : ArrayText) (policy : AkPolicy) (rest : Bytes) :
    pjParseStringArray add policy (array.text ++ rest) =
      (array.apply add policy).map fun updated => (updated,rest) := by
  have whole : array.text ++ rest = array.lead.1 ++ 91 :: elementsText array.elements array.close rest := by
    simp [ArrayText.text,elementsText]
  rw [whole,pjParseStringArray,pjSkipWs_blanks array.lead _ (by rintro _ ⟨⟩; rfl)]
  dsimp only
  rw [if_pos rfl]
  exact scan_elementsText add array.close rest array.separated policy

theorem pjParseStringArray_split {p : Bytes} (read : pjParseStringArray add policy p = some (updated,rest)) :
    ∃ array : ArrayText, p = array.text ++ rest ∧ array.apply add policy = some updated := by
  unfold pjParseStringArray at read
  split at read
  · cases read
  rename_i byte tail blanks
  obtain ⟨bracket,read⟩ := Guards.entered read nofun
  obtain ⟨lead,whole⟩ := pjSkipWs_split p
  rw [blanks,bracket] at whole
  have gathered := @scan_gathers _ _ _ (stringArrayTurn add) _ Element.text (Element.apply add)
    (fun element rest => element.comma = true ∨ rest.head? = some 93) (fun element => element.comma = true)
    (fun state text next rest again => by
      obtain ⟨element,whole,applied,stop,_⟩ := stringArrayTurn_again add again
      exact ⟨element,whole,applied,stop⟩)
    (fun element state text next rest stop again => by
      obtain ⟨_,_,_,_,opened⟩ := stringArrayTurn_again add again
      exact stop.resolve_right opened)
    policy tail (updated,rest) read
  obtain ⟨elements,last,left,text,applied,done,_,separated,_⟩ := gathered
  obtain ⟨close,rfl,rfl⟩ := stringArrayTurn_done add done
  exact ⟨⟨lead,elements,close,separated⟩,by rw [whole,text]; simp [ArrayText.text],applied⟩

end Arrays

end AuthorityKernel.Policy
