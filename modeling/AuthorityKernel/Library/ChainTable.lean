import Mathlib.Data.List.Nodup
import Mathlib.Data.List.Lookmap

/-! Hash tables whose buckets are chains of entries, each entry carrying its full
key. Seen through `lookup` such a table is a finite map from keys: colliding
hashes never mix two keys up, and a sweep removes exactly the entries it drops. -/
namespace AuthorityKernel.Library

structure ChainTable (α : Type*) where
  buckets : List (UInt64 × List α)
  distinct : (buckets.map Prod.fst).Nodup

namespace ChainTable

variable {α κ : Type*}

def empty : ChainTable α := ⟨[],List.nodup_nil⟩

def find (table : ChainTable α) (hash : UInt64) : List α := (table.buckets.lookup hash).getD []

def set (table : ChainTable α) (hash : UInt64) (chain : List α) : ChainTable α where
  buckets := (hash,chain) :: table.buckets.filter (fun bucket => bucket.1 != hash)
  distinct := by
    rw [List.map_cons,List.nodup_cons]
    constructor
    · simp
    · exact table.distinct.sublist ((List.filter_sublist).map Prod.fst)

def entries (table : ChainTable α) : List α := table.buckets.flatMap Prod.snd

def sweep (table : ChainTable α) (keep : α → Bool) : ChainTable α where
  buckets := (table.buckets.map fun bucket => (bucket.1,bucket.2.filter keep)).filter
    fun bucket => !bucket.2.isEmpty
  distinct := by
    have sameKeys : ((table.buckets.map fun bucket => (bucket.1,bucket.2.filter keep)).map Prod.fst) =
        table.buckets.map Prod.fst := by simp
    exact (sameKeys ▸ table.distinct).sublist ((List.filter_sublist).map Prod.fst)

def mapEntries (table : ChainTable α) (change : α → α) : ChainTable α where
  buckets := table.buckets.map fun bucket => (bucket.1,bucket.2.map change)
  distinct := by
    have sameKeys : ((table.buckets.map fun bucket => (bucket.1,bucket.2.map change)).map Prod.fst) =
        table.buckets.map Prod.fst := by simp
    exact sameKeys ▸ table.distinct

@[simp] theorem find_empty (hash : UInt64) : (empty : ChainTable α).find hash = [] := rfl

@[simp] theorem find_set_same (table : ChainTable α) (hash : UInt64) (chain : List α) :
    (table.set hash chain).find hash = chain := by
  simp [find,set]

variable (buckets : List (UInt64 × List α))

theorem lookup_filter_ne (hash other : UInt64)
    (different : other ≠ hash) :
    (buckets.filter fun bucket => bucket.1 != hash).lookup other = buckets.lookup other := by
  induction buckets with
  | nil => rfl
  | cons bucket rest ih =>
    obtain ⟨stored,chain⟩ := bucket
    by_cases same : stored = hash
    · subst same
      have skipped : (other == stored) = false := by simpa using different
      simp [List.lookup_cons,skipped,ih]
    · have kept : (stored != hash) = true := by simpa using same
      simp [kept,List.lookup_cons,ih]

theorem find_set_other (table : ChainTable α) (hash other : UInt64) (chain : List α)
    (different : other ≠ hash) : (table.set hash chain).find other = table.find other := by
  have skipped : (other == hash) = false := by simpa using different
  simp [find,set,List.lookup_cons,skipped,lookup_filter_ne _ _ _ different]

theorem lookup_eq_none_of_not_mem (hash : UInt64)
    (absent : hash ∉ buckets.map Prod.fst) : buckets.lookup hash = none := by
  rw [List.lookup_eq_none_iff]
  intro bucket member
  have different : hash ≠ bucket.1 := fun same => absent (same ▸ List.mem_map_of_mem member)
  simpa using different

theorem lookup_of_mem {buckets : List (UInt64 × List α)} {hash : UInt64} {chain : List α}
    (distinct : (buckets.map Prod.fst).Nodup) (member : (hash,chain) ∈ buckets) :
    buckets.lookup hash = some chain := by
  induction buckets with
  | nil => simp at member
  | cons bucket rest ih =>
    rw [List.map_cons,List.nodup_cons] at distinct
    rcases List.mem_cons.mp member with rfl | later
    · simp
    · have different : hash ≠ bucket.1 := fun same => distinct.1 (same ▸ List.mem_map_of_mem later)
      rw [List.lookup_cons,beq_false_of_ne different]
      exact ih distinct.2 later

theorem lookup_sweep (keep : α → Bool) (hash : UInt64)
    (distinct : (buckets.map Prod.fst).Nodup) :
    ((((buckets.map fun bucket => (bucket.1,bucket.2.filter keep)).filter
      fun bucket => !bucket.2.isEmpty).lookup hash).getD []) =
      ((buckets.lookup hash).getD []).filter keep := by
  induction buckets with
  | nil => rfl
  | cons bucket rest ih =>
    obtain ⟨stored,chain⟩ := bucket
    rw [List.map_cons,List.nodup_cons] at distinct
    have tail := ih distinct.2
    by_cases same : hash = stored
    · subst same
      have absent := lookup_eq_none_of_not_mem _ _ distinct.1
      rw [absent,Option.getD_none,List.filter_nil] at tail
      cases kept : chain.filter keep with
      | nil => simpa [List.lookup_cons,kept] using tail
      | cons first others => simp [kept]
    · have skipped : (hash == stored) = false := by simpa using same
      cases kept : chain.filter keep with
      | nil | cons => simpa [List.lookup_cons,kept,skipped] using tail

@[simp] theorem find_sweep (table : ChainTable α) (keep : α → Bool) (hash : UInt64) :
    (table.sweep keep).find hash = (table.find hash).filter keep :=
  lookup_sweep table.buckets keep hash table.distinct

section Keyed

variable [DecidableEq κ] (hash : κ → UInt64) (key : α → κ)

def lookup (table : ChainTable α) (wanted : κ) : Option α :=
  (table.find (hash wanted)).find? fun entry => key entry = wanted

def insert (table : ChainTable α) (entry : α) : ChainTable α :=
  table.set (hash (key entry)) (entry :: table.find (hash (key entry)))

def modify (table : ChainTable α) (wanted : κ) (change : α → α) : ChainTable α :=
  table.set (hash wanted) ((table.find (hash wanted)).lookmap fun entry =>
    if key entry = wanted then some (change entry) else none)

variable {hash key}

variable (chain : List α) (wanted other : κ) (change : α → α)

@[simp] theorem lookup_empty : lookup hash key (empty : ChainTable α) wanted = none := rfl

theorem lookup_key (table : ChainTable α) (wanted : κ) (entry : α)
    (found : lookup hash key table wanted = some entry) : key entry = wanted := by
  have matched := List.find?_some found
  simpa using matched

@[simp] theorem lookup_insert_same (table : ChainTable α) (entry : α) :
    lookup hash key (insert hash key table entry) (key entry) = some entry := by
  simp [lookup,insert]

theorem lookup_insert_other (table : ChainTable α) (entry : α) (wanted : κ)
    (different : key entry ≠ wanted) :
    lookup hash key (insert hash key table entry) wanted = lookup hash key table wanted := by
  by_cases collide : hash wanted = hash (key entry)
  · simp [lookup,insert,collide,different]
  · rw [lookup,insert,find_set_other _ _ _ _ collide,lookup]

theorem find?_lookmap_same
    (keepsKey : ∀ entry, key (change entry) = key entry) :
    (chain.lookmap fun entry => if key entry = wanted then some (change entry) else none).find?
        (fun entry => key entry = wanted) =
      (chain.find? fun entry => key entry = wanted).map change := by
  induction chain with
  | nil => rfl
  | cons entry rest ih =>
    by_cases matched : key entry = wanted
    · simp [matched,keepsKey]
    · simp [matched,ih]

theorem find?_lookmap_other
    (keepsKey : ∀ entry, key (change entry) = key entry) (different : other ≠ wanted) :
    (chain.lookmap fun entry => if key entry = wanted then some (change entry) else none).find?
        (fun entry => key entry = other) =
      chain.find? fun entry => key entry = other := by
  induction chain with
  | nil => rfl
  | cons entry rest ih =>
    by_cases matched : key entry = wanted
    · simp [matched,keepsKey,different.symm]
    · simp [matched,List.find?_cons,ih]

theorem lookup_modify_same (table : ChainTable α) (wanted : κ) (change : α → α)
    (keepsKey : ∀ entry, key (change entry) = key entry) :
    lookup hash key (modify hash key table wanted change) wanted = (lookup hash key table wanted).map change := by
  rw [lookup,modify,find_set_same,find?_lookmap_same _ _ _ keepsKey,lookup]

theorem find?_lookmap_found (entry : α)
    (found : (chain.find? fun entry => key entry = wanted) = some entry) (keepsKey : key (change entry) = wanted) :
    (chain.lookmap fun entry => if key entry = wanted then some (change entry) else none).find?
        (fun entry => key entry = wanted) = some (change entry) := by
  induction chain with
  | nil => simp at found
  | cons first rest ih =>
    by_cases matched : key first = wanted
    · obtain rfl : first = entry := by simpa [matched] using found
      simp [matched,keepsKey]
    · simp [matched,ih (by simpa [matched] using found)]

theorem lookup_modify_found (table : ChainTable α) (wanted : κ) (change : α → α) (entry : α)
    (found : lookup hash key table wanted = some entry) (keepsKey : key (change entry) = wanted) :
    lookup hash key (modify hash key table wanted change) wanted = some (change entry) := by
  rw [lookup,modify,find_set_same]
  exact find?_lookmap_found _ wanted change entry found keepsKey

theorem lookup_modify_other (table : ChainTable α) (wanted other : κ) (change : α → α)
    (keepsKey : ∀ entry, key (change entry) = key entry) (different : other ≠ wanted) :
    lookup hash key (modify hash key table wanted change) other = lookup hash key table other := by
  by_cases collide : hash other = hash wanted
  · rw [lookup,modify,collide,find_set_same,find?_lookmap_other _ _ _ _ keepsKey different,lookup,collide]
  · rw [lookup,modify,find_set_other _ _ _ _ collide,lookup]

theorem lookup_sweep_of_keep (table : ChainTable α) (keep : α → Bool) (wanted : κ) (entry : α)
    (found : lookup hash key table wanted = some entry) (kept : keep entry = true) :
    lookup hash key (table.sweep keep) wanted = some entry := by
  rw [lookup,find_sweep,List.find?_filter]
  rw [lookup] at found
  rw [List.find?_eq_some_iff_append] at found ⊢
  obtain ⟨matched,before,after,split,earlier⟩ := found
  refine ⟨by simp [kept,matched],before,after,split,?_⟩
  intro other member
  have unmatched := earlier other member
  simp at unmatched
  simp [unmatched]

theorem lookup_sweep_eq_none (table : ChainTable α) (keep : α → Bool) (wanted : κ)
    (absent : lookup hash key table wanted = none) :
    lookup hash key (table.sweep keep) wanted = none := by
  rw [lookup,List.find?_eq_none] at absent ⊢
  intro entry member
  rw [find_sweep,List.mem_filter] at member
  exact absent entry member.1

variable (hash key) in
def Stores (table : ChainTable α) (entry : α) : Prop := entry ∈ table.find (hash (key entry))

theorem stores_of_lookup (table : ChainTable α) (wanted : κ) (entry : α)
    (found : lookup hash key table wanted = some entry) : Stores hash key table entry := by
  rw [Stores,lookup_key table wanted entry found]
  exact List.mem_of_find?_eq_some found

theorem lookup_isSome_of_stores (table : ChainTable α) (entry : α) (stored : Stores hash key table entry) :
    (lookup hash key table (key entry)).isSome = true := by
  rw [lookup,List.find?_isSome]
  exact ⟨entry,stored,by simp⟩

omit [DecidableEq κ] in
theorem stores_sweep (table : ChainTable α) (keep : α → Bool) (entry : α) :
    Stores hash key (table.sweep keep) entry ↔ Stores hash key table entry ∧ keep entry = true := by
  rw [Stores,find_sweep,List.mem_filter,Stores]

omit [DecidableEq κ] in
theorem stores_insert (table : ChainTable α) (new entry : α) (stored : Stores hash key (insert hash key table new) entry) :
    entry = new ∨ Stores hash key table entry := by
  by_cases collide : hash (key entry) = hash (key new)
  · rw [Stores,insert,collide,find_set_same,List.mem_cons] at stored
    rw [Stores,collide]
    exact stored
  · rw [Stores,insert,find_set_other _ _ _ _ collide] at stored
    exact Or.inr stored

variable (hash key) in
/-- Each entry is in the chain of its own key, and no chain holds a key twice. -/
structure WellKeyed (table : ChainTable α) : Prop where
  placed : ∀ bucket, ∀ entry ∈ table.find bucket, hash (key entry) = bucket
  distinct : ∀ bucket, ((table.find bucket).map key).Nodup

omit [DecidableEq κ] in
omit [DecidableEq κ] in
theorem WellKeyed.sweep {table : ChainTable α} (keyed : WellKeyed hash key table) (keep : α → Bool) :
    WellKeyed hash key (table.sweep keep) where
  placed := by
    intro bucket entry member
    rw [find_sweep,List.mem_filter] at member
    exact keyed.placed bucket entry member.1
  distinct := by
    intro bucket
    rw [find_sweep]
    exact (keyed.distinct bucket).sublist ((List.filter_sublist).map key)

variable {table : ChainTable α}

theorem WellKeyed.insert (keyed : WellKeyed hash key table) (entry : α)
    (absent : lookup hash key table (key entry) = none) :
    WellKeyed hash key (ChainTable.insert hash key table entry) where
  placed := by
    intro bucket other member
    by_cases same : bucket = hash (key entry)
    · subst same
      rw [ChainTable.insert,find_set_same,List.mem_cons] at member
      rcases member with rfl | older
      · rfl
      · exact keyed.placed _ other older
    · rw [ChainTable.insert,find_set_other _ _ _ _ same] at member
      exact keyed.placed bucket other member
  distinct := by
    intro bucket
    by_cases same : bucket = hash (key entry)
    · subst same
      rw [ChainTable.insert,find_set_same,List.map_cons,List.nodup_cons]
      refine ⟨?_,keyed.distinct _⟩
      intro member
      obtain ⟨other,stored,equal⟩ := List.mem_map.mp member
      rw [lookup,List.find?_eq_none] at absent
      exact absent other stored (by simpa using equal)
    · rw [ChainTable.insert,find_set_other _ _ _ _ same]
      exact keyed.distinct bucket

theorem find_modify_keys (table : ChainTable α) (wanted : κ) (change : α → α)
    (keepsKey : ∀ entry, key (change entry) = key entry) (bucket : UInt64) :
    ((modify hash key table wanted change).find bucket).map key = (table.find bucket).map key := by
  by_cases same : bucket = hash wanted
  · subst same
    rw [modify,find_set_same]
    apply List.lookmap_map_eq
    intro entry changed produced
    split at produced
    · cases produced
      exact (keepsKey entry).symm
    · simp at produced
  · rw [modify,find_set_other _ _ _ _ same]

theorem WellKeyed.modify (keyed : WellKeyed hash key table) (wanted : κ) (change : α → α)
    (keepsKey : ∀ entry, key (change entry) = key entry) :
    WellKeyed hash key (ChainTable.modify hash key table wanted change) := by
  have sameKeys : ∀ bucket, ((ChainTable.modify hash key table wanted change).find bucket).map key =
      (table.find bucket).map key := find_modify_keys table wanted change keepsKey
  constructor
  · intro bucket entry member
    have listed : key entry ∈ (table.find bucket).map key := sameKeys bucket ▸ List.mem_map_of_mem member
    obtain ⟨original,stored,equal⟩ := List.mem_map.mp listed
    rw [← equal]
    exact keyed.placed bucket original stored
  · intro bucket
    rw [sameKeys]
    exact keyed.distinct bucket

theorem WellKeyed.lookup_sweep (keyed : WellKeyed hash key table) (keep : α → Bool)
    (wanted : κ) : lookup hash key (table.sweep keep) wanted = (lookup hash key table wanted).filter keep := by
  cases found : lookup hash key table wanted with
  | none => exact lookup_sweep_eq_none table keep wanted found
  | some entry =>
    cases kept : keep entry with
    | true => rw [lookup_sweep_of_keep table keep wanted entry found kept,Option.filter_some_pos kept]
    | false =>
      rw [Option.filter_some_neg (by simp [kept]),lookup,List.find?_eq_none]
      intro other member matched
      rw [find_sweep,List.mem_filter] at member
      have sameKey : key other = key entry := by
        rw [lookup_key table wanted entry found]
        simpa using matched
      have same := List.inj_on_of_nodup_map (keyed.distinct (hash wanted)) member.1
        (List.mem_of_find?_eq_some found) sameKey
      rw [same,kept] at member
      exact Bool.false_ne_true member.2

omit [DecidableEq κ] in
theorem mem_entries (table : ChainTable α) (entry : α) :
    entry ∈ table.entries ↔ ∃ bucket, entry ∈ table.find bucket := by
  simp only [entries,List.mem_flatMap,find]
  constructor
  · rintro ⟨⟨bucket,chain⟩,stored,member⟩
    refine ⟨bucket,?_⟩
    rw [lookup_of_mem table.distinct stored]
    exact member
  · rintro ⟨bucket,member⟩
    cases found : table.buckets.lookup bucket with
    | none => simp [found] at member
    | some chain =>
      rw [found] at member
      obtain ⟨before,after,split,-⟩ := List.lookup_eq_some_iff.mp found
      refine ⟨(bucket,chain),?_,member⟩
      rw [split]
      exact List.mem_append_right before List.mem_cons_self

variable (key) in
def keys (table : ChainTable α) : List κ := table.entries.map key

omit [DecidableEq κ] in
theorem mem_keys (table : ChainTable α) (wanted : κ) :
    wanted ∈ table.keys key ↔ ∃ bucket, wanted ∈ (table.find bucket).map key := by
  simp only [keys,List.mem_map,mem_entries]
  grind

omit [DecidableEq κ] in
theorem mem_keys_insert (table : ChainTable α) (entry : α) (wanted : κ) :
    wanted ∈ (insert hash key table entry).keys key ↔ wanted = key entry ∨ wanted ∈ table.keys key := by
  have inserted : ∀ bucket, wanted ∈ ((insert hash key table entry).find bucket).map key ↔
      (bucket = hash (key entry) ∧ wanted = key entry) ∨ wanted ∈ (table.find bucket).map key := by
    intro bucket
    by_cases same : bucket = hash (key entry)
    · subst same
      simp [insert,List.mem_cons]
    · simp [insert,find_set_other _ _ _ _ same,same]
  simp only [mem_keys,inserted,exists_or,exists_and_right,exists_eq,true_and]

theorem mem_keys_modify (table : ChainTable α) (wanted other : κ) {change : α → α}
    (keepsKey : ∀ entry, key (change entry) = key entry) :
    other ∈ (modify hash key table wanted change).keys key ↔ other ∈ table.keys key := by
  rw [mem_keys,mem_keys]
  simp only [find_modify_keys table wanted change keepsKey]

omit [DecidableEq κ] in
theorem mem_keys_sweep {table : ChainTable α} {keep : α → Bool} {wanted : κ}
    (member : wanted ∈ (table.sweep keep).keys key) : wanted ∈ table.keys key := by
  rw [mem_keys] at member ⊢
  obtain ⟨bucket,member⟩ := member
  rw [find_sweep] at member
  exact ⟨bucket,List.map_subset key (List.filter_subset_self _) member⟩

theorem mem_keys_of_lookup {wanted : κ} {entry : α}
    (found : lookup hash key table wanted = some entry) : wanted ∈ table.keys key := by
  rw [mem_keys]
  refine ⟨hash wanted,List.mem_map.mpr ⟨entry,List.mem_of_find?_eq_some found,?_⟩⟩
  exact lookup_key table wanted entry found

omit [DecidableEq κ] in
theorem WellKeyed.keys_nodup {table : ChainTable α} (keyed : WellKeyed hash key table) :
    (table.keys key).Nodup := by
  rw [keys,entries,List.map_flatMap,List.nodup_flatMap]
  have located : ∀ bucket ∈ table.buckets, table.find bucket.1 = bucket.2 := by
    intro bucket member
    rw [find,lookup_of_mem table.distinct member]
    rfl
  constructor
  · intro bucket member
    rw [← located bucket member]
    exact keyed.distinct bucket.1
  · have apart : table.buckets.Pairwise fun first second => first.1 ≠ second.1 :=
      List.pairwise_map.mp table.distinct
    refine apart.imp_of_mem ?_
    intro first second memberFirst memberSecond different
    change List.Disjoint _ _
    rw [List.disjoint_left]
    intro shared inFirst inSecond
    obtain ⟨entry,stored,rfl⟩ := List.mem_map.mp inFirst
    obtain ⟨other,storedOther,same⟩ := List.mem_map.mp inSecond
    rw [← located first memberFirst] at stored
    rw [← located second memberSecond] at storedOther
    apply different
    rw [← keyed.placed _ entry stored,← keyed.placed _ other storedOther,same]

end Keyed

end ChainTable

end AuthorityKernel.Library
