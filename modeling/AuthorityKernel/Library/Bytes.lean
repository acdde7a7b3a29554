import Mathlib.Data.List.TakeWhile
import Mathlib.Data.Vector.Defs
import Mathlib.Tactic.Ring

/-! Byte strings, NUL-terminated strings and little-endian words: the data every
buffer of a kernel is read as. -/
namespace AuthorityKernel.Library

abbrev Bytes := List UInt8

/-- A block of exactly `n` bytes, as a C array of that size holds. -/
abbrev Block (n : Nat) := List.Vector UInt8 n

def Block.zero (n : Nat) : Block n := ⟨List.replicate n 0,List.length_replicate⟩

def ascii (text : String) : Bytes := text.toList.map fun c => UInt8.ofNat c.toNat

/-- A NUL-terminated string: its bytes up to the terminator, none of which is NUL. -/
abbrev CString := { bytes : Bytes // (0 : UInt8) ∉ bytes }

def CString.empty : CString := ⟨[],List.not_mem_nil⟩

/-- What a reader of NUL-terminated strings sees of a buffer. -/
def cstr (buffer : Bytes) : Bytes := buffer.takeWhile (· != 0)

variable (buffer : Bytes) (lead rest : Bytes) (value : UInt64)

theorem cstr_nul_free : (0 : UInt8) ∉ cstr buffer := by
  intro member
  have nonzero := List.mem_takeWhile_imp member
  simp at nonzero

theorem cstr_length_le : (cstr buffer).length ≤ buffer.length :=
  (List.takeWhile_sublist _).length_le

theorem cstr_of_nul_free {bytes : Bytes} (free : (0 : UInt8) ∉ bytes) : cstr bytes = bytes := by
  apply List.takeWhile_eq_self_iff.mpr
  intro byte member
  have nonzero : byte ≠ 0 := fun zero => free (zero ▸ member)
  simpa using nonzero

theorem cstr_take (count : Nat) : cstr (buffer.take count) = (cstr buffer).take count := by
  induction buffer generalizing count with
  | nil => simp [cstr]
  | cons byte rest ih =>
    cases count with
    | zero => simp [cstr]
    | succ count =>
      have step := ih count
      unfold cstr at step ⊢
      by_cases nul : byte = 0
      · simp [nul]
      · simp [nul,step]

def CString.ofBuffer (buffer : Bytes) : CString := ⟨cstr buffer,cstr_nul_free buffer⟩

def leBytes : Nat → Nat → Bytes
  | 0, _ => []
  | n + 1, value => UInt8.ofNat value :: leBytes n (value / 256)

def leNat : Bytes → Nat
  | [] => 0
  | byte :: rest => byte.toNat + 256 * leNat rest

@[simp] theorem leBytes_length (n value : Nat) : (leBytes n value).length = n := by
  induction n generalizing value with
  | zero => rfl
  | succ n ih => simp [leBytes,ih]

theorem leNat_leBytes (n value : Nat) : leNat (leBytes n value) = value % 256 ^ n := by
  induction n generalizing value with
  | zero => simp [leBytes,leNat,Nat.mod_one]
  | succ n ih =>
    have head : (UInt8.ofNat value).toNat = value % 256 := by simp
    rw [leBytes,leNat,ih,head,pow_succ',Nat.mod_mul]

theorem leNat_lt (bytes : Bytes) : leNat bytes < 256 ^ bytes.length := by
  induction bytes with
  | nil => exact Nat.one_pos
  | cons byte rest ih =>
    have range := byte.toNat_lt
    rw [leNat,List.length_cons,pow_succ']
    omega

theorem leNat_injective (first second : Bytes) (size : first.length = second.length)
    (same : leNat first = leNat second) : first = second := by
  induction first generalizing second with
  | nil => exact (List.length_eq_zero_iff.mp size.symm).symm
  | cons byte rest ih =>
    cases second with
    | nil => simp at size
    | cons byte' rest' =>
      have range := byte.toNat_lt
      have range' := byte'.toNat_lt
      rw [leNat,leNat] at same
      have tails : leNat rest = leNat rest' := by omega
      rw [ih rest' (Nat.succ.inj size) tails,UInt8.toNat_inj.mp (by omega : byte.toNat = byte'.toNat)]

def u64Bytes (value : UInt64) : Bytes := leBytes 8 value.toNat

def u64OfBytes (bytes : Bytes) : UInt64 := UInt64.ofNat (leNat bytes)

@[simp] theorem u64Bytes_length : (u64Bytes value).length = 8 := leBytes_length _ _

@[simp] theorem u64OfBytes_u64Bytes : u64OfBytes (u64Bytes value) = value := by
  have small : value.toNat < 256 ^ 8 := value.toNat_lt
  rw [u64OfBytes,u64Bytes,leNat_leBytes,Nat.mod_eq_of_lt small,UInt64.ofNat_toNat]

def slice (buffer : Bytes) (start count : Nat) : Bytes := (buffer.drop start).take count

def fieldAt (data : Bytes) (offset width : Nat) : Nat := leNat (slice data offset width)

def blockAt (data : Bytes) (offset n : Nat) : Block n :=
  ⟨List.ofFn fun i : Fin n => data.getD (offset + i) 0,List.length_ofFn⟩

theorem slice_skip (start count : Nat) (beyond : lead.length ≤ start) :
    slice (lead ++ rest) start count = slice rest (start - lead.length) count := by
  rw [slice,List.drop_append,List.drop_eq_nil_of_le beyond,List.nil_append,slice]

theorem slice_head (field rest : Bytes) (count : Nat) (size : field.length = count) :
    slice (field ++ rest) 0 count = field := by
  rw [slice,List.drop_zero,← size,List.take_left]

theorem slice_getD (start : Nat) {count k : Nat} (inside : k < count) :
    (slice buffer start count).getD k 0 = buffer.getD (start + k) 0 := by
  rw [slice,List.getD_eq_getElem?_getD,List.getElem?_take_of_lt inside,List.getElem?_drop,← List.getD_eq_getElem?_getD]

theorem slice_length {buffer : Bytes} {start count : Nat} (inside : start + count ≤ buffer.length) :
    (slice buffer start count).length = count := by
  rw [slice,List.length_take_of_le]
  rw [List.length_drop]
  omega

theorem fieldAt_skip (offset width : Nat) (beyond : lead.length ≤ offset) :
    fieldAt (lead ++ rest) offset width = fieldAt rest (offset - lead.length) width := by
  rw [fieldAt,slice_skip lead rest offset width beyond,fieldAt]

theorem fieldAt_head (width value : Nat) (rest : Bytes) :
    fieldAt (leBytes width value ++ rest) 0 width = value % 256 ^ width := by
  rw [fieldAt,slice_head _ _ _ (leBytes_length width value),leNat_leBytes]

theorem blockAt_skip (offset n : Nat) (beyond : lead.length ≤ offset) :
    blockAt (lead ++ rest) offset n = blockAt rest (offset - lead.length) n := by
  have same : ∀ i : Nat, (lead ++ rest).getD (offset + i) 0 = rest.getD (offset - lead.length + i) 0 := by
    intro i
    rw [List.getD_eq_getElem?_getD,List.getD_eq_getElem?_getD,List.getElem?_append_right (by omega)]
    congr 2
    omega
  simp only [blockAt,same]
  rfl

theorem blockAt_head {n : Nat} (field : Block n) (rest : Bytes) : blockAt (field.1 ++ rest) 0 n = field := by
  obtain ⟨bytes,size⟩ := field
  have same : (List.ofFn fun i : Fin n => (bytes ++ rest).getD (0 + i) 0) = bytes := by
    apply List.ext_getElem (by rw [List.length_ofFn,size])
    intro place inside within
    rw [List.getElem_ofFn,Nat.zero_add,List.getD_eq_getElem?_getD,List.getElem?_append_left within,
      List.getElem?_eq_getElem within,Option.getD_some]
  exact Subtype.ext same

section Records
variable {α : Type*} (record : α → Bytes) (width : Nat) (wide : ∀ item, (record item).length = width)
include wide

theorem records_length (items : List α) : (items.flatMap record).length = items.length * width := by
  induction items with
  | nil => simp
  | cons item rest ih => rw [List.flatMap_cons,List.length_append,ih,wide,List.length_cons,Nat.succ_mul,Nat.add_comm]

theorem records_take (items : List α) (count : Nat) :
    (items.take count).flatMap record = (items.flatMap record).take (count * width) := by
  induction items generalizing count with
  | nil => simp
  | cons item rest ih =>
    cases count with
    | zero => simp
    | succ count =>
      rw [List.take_succ_cons,List.flatMap_cons,List.flatMap_cons,ih,Nat.succ_mul,Nat.add_comm,← wide item,
        List.take_length_add_append]

end Records

end AuthorityKernel.Library
