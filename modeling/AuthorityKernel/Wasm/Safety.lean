import AuthorityKernel.Wasm.Exec

/-! What the check of a body guarantees for its execution: only offsets at which an
instruction was decoded are visited, always further on, so a run ends and none of the
traps for undecodable code is ever taken. -/
namespace AuthorityKernel.Wasm
open Library Library.Reads

variable {offsets : List Nat} {pos : Nat} {α : Type}

variable {entries : List α} {i idx : Nat} {op : UInt8} {v : Validated}

variable {off : Nat}

section Decoding

variable (r : Rd) (numImports totalLocals : Nat)

def kindAt (off : Nat) : OpKind := opKind (r.data.getD off 0)

def Decodes (off next : Nat) : Prop :=
  off < r.len ∧ scanImmediate r numImports totalLocals (r.data.getD off 0) (off + 1) = .ok next

def Chain (start : Nat) : List Nat → Nat → Prop
  | [], pos => pos = start
  | off :: earlier, pos => Decodes r numImports totalLocals off pos ∧ Chain start earlier off

variable {r numImports totalLocals}

theorem scanImmediate_ok {pos next : Nat} (read : scanImmediate r numImports totalLocals op pos = .ok next) :
    match opKind op with
    | .i32Const => ∃ v, rdS32 r pos = some (v,next)
    | .i64Const => ∃ v, rdS64 r pos = some (v,next)
    | .localGet | .localSet | .localTee => ∃ idx, rdU32 r pos = some (idx,next) ∧ idx < totalLocals
    | .call => ∃ idx, rdU32 r pos = some (idx,next) ∧ idx < numImports
    | .ifOp => next = pos + 1
    | .other => next = pos ∧ isSupportedNumeric op = true
    | .unreachable | .nop | .ret | .drop | .elseOp | .endOp => next = pos := by
  unfold scanImmediate at read
  cases kind : opKind op <;> rw [kind] at read <;> dsimp only at read ⊢
  case i32Const | i64Const =>
    obtain ⟨v,got,rest⟩ := bind_ok.mp read
    cases Except.ok.inj rest
    exact ⟨v.1,orInvalid_ok.mp got⟩
  case localGet | localSet | localTee | call =>
    obtain ⟨idx,got,rest⟩ := bind_ok.mp read
    split at rest
    · contradiction
    · rename_i inside
      cases Except.ok.inj rest
      exact ⟨idx.1,orInvalid_ok.mp got,Nat.not_le.mp inside⟩
  case ifOp =>
    obtain ⟨bt,got,rest⟩ := bind_ok.mp read
    split at rest
    · cases Except.ok.inj rest
      exact (rdByte_moves r _ bt.1 bt.2 (orInvalid_ok.mp got)).1
    · contradiction
  case other =>
    split at read
    · rename_i supported
      exact ⟨(Except.ok.inj read).symm,supported⟩
    · contradiction
  all_goals exact (Except.ok.inj read).symm

theorem Decodes.lt {next : Nat} (decodes : Decodes r numImports totalLocals off next) : off < next := by
  have read := scanImmediate_ok decodes.2
  split at read
  case h_1 =>
    obtain ⟨v,got⟩ := read
    have moved := rdSignedLoop_moves 32 r 5 0 0 _ _ _ got
    omega
  case h_2 =>
    obtain ⟨v,got⟩ := read
    have moved := rdSignedLoop_moves 64 r 10 0 0 _ _ _ got
    omega
  all_goals first
    | omega
    | obtain ⟨idx,got,_⟩ := read
      have moved := rdU32_moves r _ _ _ got
      omega

theorem Chain.lt {start : Nat} (chain : Chain r numImports totalLocals start offsets pos) :
    ∀ off ∈ offsets, start ≤ off ∧ off < pos := by
  induction offsets generalizing pos with
  | nil => simp
  | cons last earlier ih =>
    obtain ⟨decodes,rest⟩ := chain
    have step := decodes.lt
    have begin : start ≤ last := by
      cases earlier with
      | nil => exact le_of_eq rest.symm
      | cons before _ =>
        have inside := ih rest before List.mem_cons_self
        omega
    intro off member
    rcases List.mem_cons.mp member with rfl | before
    · exact ⟨begin,step⟩
    · have inside := ih rest off before
      omega

theorem Chain.next {start : Nat} (chain : Chain r numImports totalLocals start offsets pos) :
    ∀ off ∈ offsets, ∃ next ∈ pos :: offsets, Decodes r numImports totalLocals off next := by
  induction offsets generalizing pos with
  | nil => simp
  | cons last earlier ih =>
    obtain ⟨decodes,rest⟩ := chain
    intro off member
    rcases List.mem_cons.mp member with rfl | before
    · exact ⟨pos,List.mem_cons_self,decodes⟩
    · obtain ⟨next,inside,step⟩ := ih rest off before
      exact ⟨next,List.mem_cons_of_mem _ inside,step⟩

theorem Chain.start_mem {start : Nat} (chain : Chain r numImports totalLocals start offsets pos) :
    start ∈ pos :: offsets := by
  induction offsets generalizing pos with
  | nil => exact List.mem_singleton.mpr chain.symm
  | cons last earlier ih => exact List.mem_cons_of_mem _ (ih chain.2)

end Decoding

section Records

variable (r : Rd) (numImports totalLocals : Nat)

structure IfRec.Placed (offsets : List Nat) (rec : IfRec) : Prop where
  opens : rec.ifOff ∈ offsets
  parts : rec.elseOff ≠ 0 → rec.elseOff ∈ offsets ∧ rec.ifOff < rec.elseOff ∧ kindAt r rec.elseOff = .elseOp
  closes : rec.endOff ≠ 0 → rec.endOff ∈ offsets ∧ rec.ifOff < rec.endOff ∧ rec.elseOff < rec.endOff ∧
    kindAt r rec.endOff = .endOp

/-- Every instruction of the kind so far has a record that names its offset. -/
def Tracks (kind : OpKind) (field : IfRec → Nat) (recs : List IfRec) (offsets : List Nat) : Prop :=
  ∀ off ∈ offsets, kindAt r off = kind → ∃ (i : Nat) (rec : IfRec), recs[i]? = some rec ∧ field rec = off

/-- The state of the check: the records cover every `if` and `else` so far, and those
without an end are the open ones. -/
structure Scan.Sound (start : Nat) (s : Scan) : Prop where
  chain : Chain r numImports totalLocals start s.offsets s.pos
  placed : ∀ (i : Nat) (rec : IfRec), s.recs[i]? = some rec → rec.Placed r s.offsets
  opened : ∀ i ∈ s.ctrl, ∃ rec : IfRec, s.recs[i]? = some rec ∧ rec.endOff = 0
  closed : ∀ (i : Nat) (rec : IfRec), s.recs[i]? = some rec → rec.endOff = 0 → i ∈ s.ctrl
  distinct : s.ctrl.Nodup
  ifs : Tracks r .ifOp IfRec.ifOff s.recs s.offsets
  elses : Tracks r .elseOp IfRec.elseOff s.recs s.offsets

theorem Scan.sound_start (start : Nat) : Scan.Sound r numImports totalLocals start ⟨start,[],[],[]⟩ where
  chain := rfl
  placed := by simp
  opened := by simp
  closed := by simp
  distinct := List.nodup_nil
  ifs := nofun
  elses := nofun

variable {r numImports totalLocals}

theorem IfRec.Placed.mono {rec : IfRec} (placed : rec.Placed r offsets) (off : Nat) :
    rec.Placed r (off :: offsets) where
  opens := List.mem_cons_of_mem _ placed.opens
  parts := fun some => ⟨List.mem_cons_of_mem _ (placed.parts some).1,(placed.parts some).2⟩
  closes := fun some => ⟨List.mem_cons_of_mem _ (placed.closes some).1,(placed.closes some).2⟩

theorem modify_some {place : Nat} {f : α → α} {entry : α} (found : (entries.modify place f)[i]? = some entry) :
    ∃ old, entries[i]? = some old ∧ entry = if place = i then f old else old := by
  rw [List.getElem?_modify] at found
  obtain ⟨old,given,same⟩ := Option.map_eq_some_iff.mp found
  exact ⟨old,given,same.symm⟩

theorem some_modify (place : Nat) (f : α → α) {old : α} (given : entries[i]? = some old) :
    (entries.modify place f)[i]? = some (if place = i then f old else old) := by
  rw [List.getElem?_modify,given]
  rfl

variable {recs : List IfRec}

theorem Tracks.extend {kind : OpKind} {field : IfRec → Nat} {recs' : List IfRec}
    (covers : Tracks r kind field recs offsets)
    (kept : ∀ (i : Nat) (rec : IfRec), recs[i]? = some rec → field rec ∈ offsets →
      ∃ rec', recs'[i]? = some rec' ∧ field rec' = field rec)
    (here : kindAt r off = kind → ∃ (i : Nat) (rec : IfRec), recs'[i]? = some rec ∧ field rec = off) :
    Tracks r kind field recs' (off :: offsets) := by
  intro place member same
  rcases List.mem_cons.mp member with rfl | before
  · exact here same
  · obtain ⟨i,rec,given,named⟩ := covers place before same
    obtain ⟨rec',given',equal⟩ := kept i rec given (named ▸ before)
    exact ⟨i,rec',given',equal.trans named⟩

theorem Tracks.modify {kind : OpKind} {field : IfRec → Nat}
    (covers : Tracks r kind field recs offsets) {top : Nat} {change : IfRec → IfRec} (other : kindAt r off ≠ kind)
    (same : ∀ rec, field (change rec) = field rec) : Tracks r kind field (recs.modify top change) (off :: offsets) := by
  refine covers.extend (fun i rec given _ => ⟨_,some_modify top change given,?_⟩) fun here => absurd here other
  split
  · exact same rec
  · rfl

variable {s : Scan}

theorem Scan.Sound.plain {start next : Nat} (sound : s.Sound r numImports totalLocals start)
    (decodes : Decodes r numImports totalLocals s.pos next) (noIf : kindAt r s.pos ≠ .ifOp)
    (noElse : kindAt r s.pos ≠ .elseOp) :
    Scan.Sound r numImports totalLocals start { s with pos := next, offsets := s.pos :: s.offsets } where
  chain := ⟨decodes,sound.chain⟩
  placed := fun i rec given => (sound.placed i rec given).mono s.pos
  opened := sound.opened
  closed := sound.closed
  distinct := sound.distinct
  ifs := sound.ifs.extend (fun _ rec given _ => ⟨rec,given,rfl⟩) fun kind => absurd kind noIf
  elses := sound.elses.extend (fun _ rec given _ => ⟨rec,given,rfl⟩) fun kind => absurd kind noElse

theorem Scan.Sound.openIf {start next : Nat} (sound : s.Sound r numImports totalLocals start)
    (decodes : Decodes r numImports totalLocals s.pos next) (kind : kindAt r s.pos = .ifOp) :
    Scan.Sound r numImports totalLocals start
      ⟨next,s.recs.length :: s.ctrl,s.recs ++ [⟨s.pos,0,0⟩],s.pos :: s.offsets⟩ := by
  have old : ∀ (i : Nat) (rec : IfRec), s.recs[i]? = some rec → (s.recs ++ [⟨s.pos,0,0⟩])[i]? = some rec := by
    intro i rec given
    rwa [List.getElem?_append_left (List.getElem?_eq_some_iff.mp given).1]
  have new : (s.recs ++ [⟨s.pos,0,0⟩])[s.recs.length]? = some ⟨s.pos,0,0⟩ := by
    rw [List.getElem?_append_right (le_refl _),Nat.sub_self]
    rfl
  have either : ∀ (i : Nat) (rec : IfRec), (s.recs ++ [⟨s.pos,0,0⟩])[i]? = some rec →
      s.recs[i]? = some rec ∨ (i = s.recs.length ∧ rec = ⟨s.pos,0,0⟩) := by
    intro i rec given
    have bound := (List.getElem?_eq_some_iff.mp given).1
    rw [List.length_append,List.length_singleton] at bound
    by_cases before : i < s.recs.length
    · rw [List.getElem?_append_left before] at given
      exact .inl given
    · have last : i = s.recs.length := by omega
      rw [last,new] at given
      exact .inr ⟨last,(Option.some.inj given).symm⟩
  refine ⟨⟨decodes,sound.chain⟩,?_,?_,?_,?_,?_,?_⟩
  · intro i rec given
    rcases either i rec given with before | ⟨_,rfl⟩
    · exact (sound.placed i rec before).mono s.pos
    · exact ⟨List.mem_cons_self,by simp,by simp⟩
  · intro i member
    rcases List.mem_cons.mp member with rfl | before
    · exact ⟨_,new,rfl⟩
    · obtain ⟨rec,given,unclosed⟩ := sound.opened i before
      exact ⟨rec,old i rec given,unclosed⟩
  · intro i rec given unclosed
    rcases either i rec given with before | ⟨rfl,_⟩
    · exact List.mem_cons_of_mem _ (sound.closed i rec before unclosed)
    · exact List.mem_cons_self
  · refine List.nodup_cons.mpr ⟨?_,sound.distinct⟩
    intro member
    obtain ⟨rec,given,_⟩ := sound.opened _ member
    exact absurd (List.getElem?_eq_some_iff.mp given).1 (lt_irrefl _)
  · exact sound.ifs.extend (fun i rec given _ => ⟨rec,old i rec given,rfl⟩) fun _ => ⟨s.recs.length,_,new,rfl⟩
  · exact sound.elses.extend (fun i rec given _ => ⟨rec,old i rec given,rfl⟩) fun same => nomatch kind.symm.trans same

section Inner

variable {start next top : Nat} {rest : List Nat} {s : Scan} (sound : s.Sound r numImports totalLocals start)
    (decodes : Decodes r numImports totalLocals s.pos next) (ctrl : s.ctrl = top :: rest)
include sound decodes ctrl

theorem Scan.Sound.takeElse (positive : 0 < start) (kind : kindAt r s.pos = .elseOp)
    (single : (s.recs[top]?).any (fun rec => rec.elseOff != 0) = false) :
    Scan.Sound r numImports totalLocals start
      ⟨next,s.ctrl,s.recs.modify top fun rec => { rec with elseOff := s.pos },s.pos :: s.offsets⟩ := by
  obtain ⟨innermost,given,unclosed⟩ := sound.opened top (ctrl ▸ List.mem_cons_self)
  have unparted : innermost.elseOff = 0 := by simpa [given] using single
  have inside := sound.chain.lt
  refine ⟨⟨decodes,sound.chain⟩,?_,?_,?_,sound.distinct,?_,?_⟩
  · intro i rec found
    obtain ⟨old,before,rfl⟩ := modify_some found
    have placed := sound.placed i old before
    split
    · rename_i same
      rw [← same,given] at before
      cases before
      refine ⟨List.mem_cons_of_mem _ placed.opens,fun _ => ⟨List.mem_cons_self,(inside _ placed.opens).2,kind⟩,?_⟩
      exact fun ended => absurd unclosed ended
    · exact placed.mono s.pos
  · intro i member
    obtain ⟨rec,found,open_⟩ := sound.opened i member
    refine ⟨_,some_modify top _ found,?_⟩
    split <;> exact open_
  · intro i rec found ended
    obtain ⟨old,before,rfl⟩ := modify_some found
    apply sound.closed i old before
    split at ended <;> exact ended
  · exact sound.ifs.modify (by rw [kind]; nofun) fun _ => rfl
  · refine sound.elses.extend (fun i rec found before => ⟨_,some_modify top _ found,?_⟩)
      fun _ => ⟨top,_,some_modify top _ given,by rw [if_pos rfl]⟩
    split
    · -- the innermost record had no `else` yet
      rename_i equal
      rw [← equal,given] at found
      cases found
      have later := (inside _ before).1
      omega
    · rfl

theorem Scan.Sound.closeIf (kind : kindAt r s.pos = .endOp) :
    Scan.Sound r numImports totalLocals start
      ⟨next,rest,s.recs.modify top fun rec => { rec with endOff := s.pos },s.pos :: s.offsets⟩ := by
  have inside := sound.chain.lt
  have distinct := List.nodup_cons.mp (ctrl ▸ sound.distinct)
  obtain ⟨innermost,given,_⟩ := sound.opened top (ctrl ▸ List.mem_cons_self)
  have begun := (inside _ (sound.placed top innermost given).opens).2
  refine ⟨⟨decodes,sound.chain⟩,?_,?_,?_,distinct.2,?_,?_⟩
  · intro i rec found
    obtain ⟨old,before,rfl⟩ := modify_some found
    have placed := sound.placed i old before
    split
    · refine ⟨List.mem_cons_of_mem _ placed.opens,(placed.mono s.pos).parts,fun _ => ⟨List.mem_cons_self,?_,?_,kind⟩⟩
      · exact (inside _ placed.opens).2
      · by_cases parted : old.elseOff = 0
        · change old.elseOff < s.pos
          omega
        · exact (inside _ (placed.parts parted).1).2
    · exact placed.mono s.pos
  · intro i member
    obtain ⟨rec,found,unclosed⟩ := sound.opened i (ctrl ▸ List.mem_cons_of_mem _ member)
    refine ⟨rec,?_,unclosed⟩
    rw [some_modify top _ found,if_neg]
    rintro rfl
    exact distinct.1 member
  · intro i rec found ended
    obtain ⟨old,before,rfl⟩ := modify_some found
    split at ended
    · change s.pos = 0 at ended
      omega
    rename_i other
    have among := sound.closed i old before ended
    rw [ctrl] at among
    exact (List.mem_cons.mp among).resolve_left fun same => other same.symm
  · exact sound.ifs.modify (by rw [kind]; nofun) fun _ => rfl
  · exact sound.elses.modify (by rw [kind]; nofun) fun _ => rfl

end Inner

theorem scanStep_moves {next : Scan} (step : scanStep r numImports totalLocals s = .ok (.more next)) :
    s.pos < next.pos := by
  obtain ⟨⟨op,after⟩,got,rest⟩ := bind_ok.mp step
  obtain ⟨place,immediate,control⟩ := bind_ok.mp rest
  obtain ⟨rfl,inside,rfl⟩ := rdByte_moves r s.pos op after (orInvalid_ok.mp got)
  have decodes : Decodes r numImports totalLocals s.pos place := ⟨by omega,immediate⟩
  have same : next.pos = place := by
    unfold scanControl at control
    split at control
    · split at control
      · contradiction
      · cases Except.ok.inj control
        rfl
    · contradiction
    · split at control
      · contradiction
      · cases Except.ok.inj control
        rfl
    · split at control
      · contradiction
      · cases Except.ok.inj control
    · cases Except.ok.inj control
      rfl
    · cases Except.ok.inj control
      rfl
  exact same ▸ decodes.lt

theorem scanStep_sound {start : Nat} {turn : ScanTurn} (sound : s.Sound r numImports totalLocals start)
    (positive : 0 < start) (step : scanStep r numImports totalLocals s = .ok turn) :
    match turn with
    | .more next => next.Sound r numImports totalLocals start
    | .finished funcEnd final => funcEnd = s.pos ∧ s.pos < r.len ∧ s.ctrl = [] ∧ final.recs = s.recs ∧
        final.offsets = s.pos :: s.offsets := by
  obtain ⟨⟨op,after⟩,got,rest⟩ := bind_ok.mp step
  obtain ⟨next,immediate,control⟩ := bind_ok.mp rest
  obtain ⟨rfl,inside,rfl⟩ := rdByte_moves r s.pos op after (orInvalid_ok.mp got)
  have decodes : Decodes r numImports totalLocals s.pos next := ⟨by omega,immediate⟩
  unfold scanControl at control
  split at control
  · rename_i _ kind
    split at control
    · contradiction
    · cases Except.ok.inj control
      exact sound.openIf decodes kind
  · contradiction
  · rename_i top rest kind ctrl
    split at control
    · contradiction
    · rename_i single
      cases Except.ok.inj control
      exact sound.takeElse decodes ctrl positive kind (Bool.eq_false_iff.mpr single)
  · rename_i ctrl
    split at control
    · contradiction
    · cases Except.ok.inj control
      exact ⟨rfl,by omega,ctrl,rfl,rfl⟩
  · rename_i top rest kind ctrl
    cases Except.ok.inj control
    exact sound.closeIf decodes ctrl kind
  rename_i noIf noElse noElse' _ _
  cases Except.ok.inj control
  refine sound.plain decodes noIf ?_
  intro kind
  cases ctrl : s.ctrl with
  | nil => exact noElse kind ctrl
  | cons top rest => exact noElse' top rest kind ctrl

theorem scanLoop_sound (fuel start : Nat) (s final : Scan) (funcEnd : Nat) (sound : s.Sound r numImports totalLocals start)
    (positive : 0 < start) (accepted : scanLoop r numImports totalLocals fuel s = .ok (funcEnd,final)) :
    ∃ earlier, final.offsets = funcEnd :: earlier ∧ funcEnd < r.len ∧
      Scan.Sound r numImports totalLocals start ⟨funcEnd,[],final.recs,earlier⟩ := by
  induction fuel generalizing s with
  | zero => contradiction
  | succ fuel ih =>
    rw [scanLoop] at accepted
    obtain ⟨turn,step,rest⟩ := bind_ok.mp accepted
    have outcome := scanStep_sound sound positive step
    cases turn with
    | more next => exact ih next outcome rest
    | finished found last =>
      obtain ⟨place,inside,closed,recs,offsets⟩ := outcome
      cases Except.ok.inj rest
      refine ⟨s.offsets,by rw [offsets,place],place ▸ inside,?_⟩
      rw [place,recs,← closed]
      exact sound

theorem scanLoop_stable (first second : Nat) (s : Scan) (enough : r.len < s.pos + first) (enough' : r.len < s.pos + second) :
    scanLoop r numImports totalLocals first s = scanLoop r numImports totalLocals second s := by
  induction first generalizing second s with
  | zero =>
    cases second with
    | zero => rfl
    | succ second =>
      have beyond : rdByte r s.pos = none := by
        rw [rdByte,if_neg (by omega)]
      simp [scanLoop,scanStep,beyond,orInvalid,bind,Except.bind]
      rfl
  | succ first ih =>
    cases second with
    | zero =>
      have beyond : rdByte r s.pos = none := by
        rw [rdByte,if_neg (by omega)]
      simp [scanLoop,scanStep,beyond,orInvalid,bind,Except.bind]
      rfl
    | succ second =>
      rw [scanLoop,scanLoop]
      cases step : scanStep r numImports totalLocals s with
      | error code => rfl
      | ok turn =>
        cases turn with
        | finished found last => rfl
        | more next =>
          have moved : s.pos < next.pos := scanStep_moves step
          exact ih second next (by omega) (by omega)

end Records

structure Validated.Checked (r : Rd) (numImports : Nat) (v : Validated) (earlier : List Nat) : Prop where
  offsets : v.offsets = v.funcEnd :: earlier
  inside : v.funcEnd < r.len
  sound : Scan.Sound r numImports v.totalLocals v.instrStart ⟨v.funcEnd,[],v.recs,earlier⟩

theorem readLocals_moves (r : Rd) (count total pos : Nat) (result : Nat × Nat)
    (read : readLocals r count total pos = .ok result) : pos ≤ result.2 := by
  induction count generalizing total pos with
  | zero =>
    cases Except.ok.inj read
    exact le_refl _
  | succ count ih =>
    rw [readLocals] at read
    obtain ⟨n,got,rest⟩ := bind_ok.mp read
    obtain ⟨vt,typed,rest⟩ := bind_ok.mp rest
    have first := rdU32_moves r pos n.1 n.2 (orInvalid_ok.mp got)
    have second : n.2 < vt.2 := by
      obtain ⟨byte,read',kind⟩ := bind_ok.mp typed
      have moved := rdByte_moves r n.2 byte.1 byte.2 (orInvalid_ok.mp read')
      have same : vt = byte := by
        split at kind
        · exact (Except.ok.inj kind).symm
        · split at kind <;> contradiction
      rw [same]
      omega
    split at rest
    · contradiction
    · have later := ih _ _ rest
      omega

theorem validateBody_checked (r : Rd) (numImports paramCount bodyStart : Nat) (v : Validated)
    (accepted : validateBody r numImports paramCount bodyStart = .ok v) : ∃ earlier, v.Checked r numImports earlier := by
  obtain ⟨count,got,rest⟩ := bind_ok.mp accepted
  obtain ⟨declared,locals,rest⟩ := bind_ok.mp rest
  obtain ⟨⟨funcEnd,final⟩,scanned,result⟩ := bind_ok.mp rest
  cases Except.ok.inj result
  have first := rdU32_moves r bodyStart count.1 count.2 (orInvalid_ok.mp got)
  have second := readLocals_moves r count.1 paramCount count.2 declared locals
  obtain ⟨earlier,offsets,inside,sound⟩ := scanLoop_sound _ declared.2 _ final funcEnd
    (Scan.sound_start r numImports declared.1 declared.2) (by omega) scanned
  exact ⟨earlier,offsets,inside,sound⟩

section Execution

def Stop.Expected (reason : Stop) : Prop :=
  reason ≠ .badImmediate ∧ reason ≠ .noRecord ∧ reason ≠ .unknownNumeric

def Onward (v : Validated) (s : ExecState) : Except Stop ExecState → Prop
  | .ok next => next.pc ∈ v.offsets ∧ s.pc < next.pc ∧ next.gas = s.gas
  | .error reason => reason.Expected

def Harmless (result : Except Stop α) : Prop := ∀ reason, result = .error reason → reason.Expected

theorem onward_bind {s : ExecState} {first : Except Stop α} {next : α → Except Stop ExecState}
    (harmless : Harmless first) (onward : ∀ value, first = .ok value → Onward v s (next value)) :
    Onward v s (first >>= next) := by
  cases given : first with
  | error reason => exact harmless reason given
  | ok value => exact onward value given

theorem onward_ok {s : ExecState} {value : α} {next : α → Except Stop ExecState} (onward : Onward v s (next value)) :
    Onward v s (Except.ok value >>= next) := onward

theorem Harmless.bind {β : Type} {first : Except Stop α} {next : α → Except Stop β} (harmless : Harmless first)
    (after : ∀ value, Harmless (next value)) : Harmless (first >>= next) := by
  intro reason failed
  rcases bind_error.mp failed with early | ⟨value,_,late⟩
  · exact harmless reason early
  · exact after value reason late

theorem opPop_harmless (stack : List UInt64) : Harmless (opPop stack) := by
  intro reason failed
  cases stack with
  | nil =>
    cases failed
    simp [Stop.Expected]
  | cons top rest => contradiction

theorem opPush_harmless (stack : List UInt64) (value : UInt64) : Harmless (opPush stack value) := by
  intro reason failed
  unfold opPush at failed
  split at failed
  · cases failed
    simp [Stop.Expected]
  · contradiction

theorem binary_expected (supported : isSupportedNumeric op = true) (noEqz32 : op ≠ 0x45) (noEqz64 : op ≠ 0x50)
    {a b : UInt64} {reason : Stop} (failed : binary op a b = .error reason) : reason.Expected := by
  simp only [isSupportedNumeric,decide_eq_true_eq,List.mem_cons,List.not_mem_nil,or_false] at supported
  have divides : reason = .divideByZero := by
    rcases supported with rfl | rfl | rfl | rfl | rfl | rfl | rfl | rfl | rfl | rfl | rfl | rfl | rfl | rfl | rfl | rfl |
      rfl | rfl | rfl | rfl | rfl | rfl | rfl | rfl | rfl | rfl | rfl | rfl | rfl | rfl | rfl | rfl <;>
      simp [binary] at failed noEqz32 noEqz64
    all_goals
      split at failed
      · exact (Except.error.inj failed).symm
      · contradiction
  rw [divides]
  simp [Stop.Expected]

theorem numeric_harmless (op : UInt8) (supported : isSupportedNumeric op = true) (stack : List UInt64) :
    Harmless (numeric op stack) := by
  unfold numeric
  split
  · exact (opPop_harmless _).bind fun a => opPush_harmless _ _
  split
  · exact (opPop_harmless _).bind fun a => opPush_harmless _ _
  rename_i noEqz32 noEqz64
  refine (opPop_harmless _).bind fun b => (opPop_harmless _).bind fun a => ?_
  exact Harmless.bind (fun _ failed => binary_expected supported noEqz32 noEqz64 failed) fun res => opPush_harmless _ _

variable {env : ExecEnv}

theorem localIndex_ok {s : ExecState} {next : Nat} (got : rdU32 env.r (s.pc + 1) = some (idx,next))
    (bound : idx < env.body.totalLocals) : localIndex env s = .ok (idx,next) := by
  rw [localIndex,got]
  exact if_neg (Nat.not_le.mpr bound)

theorem callHost_onward {s : ExecState} {next : Nat} (got : rdU32 env.r (s.pc + 1) = some (idx,next))
    (bound : idx < env.m.imports.length) (inside : next ∈ env.body.offsets) (further : s.pc < next)
    : Onward env.body s (callHost env s) := by
  unfold callHost
  rw [got]
  refine onward_ok ?_
  rw [List.getElem?_eq_getElem bound]
  refine onward_bind (by simp [Harmless,orTrap]) fun function given => ?_
  refine onward_bind ?_ fun rc _ => ?_
  · intro reason failed
    cases answer : env.host s.calls function.name with
    | none =>
      rw [answer] at failed
      cases Except.error.inj failed
      exact ⟨by decide,by decide,by decide⟩
    | some rc =>
      rw [answer] at failed
      contradiction
  · dsimp only
    split
    · exact ⟨by decide,by decide,by decide⟩
    split
    · exact onward_bind (opPush_harmless _ _) fun stack _ => ⟨inside,further,rfl⟩
    exact ⟨inside,further,rfl⟩

section Instruction

variable {env : ExecEnv} {earlier : List Nat} (checked : env.body.Checked env.r env.m.imports.length earlier)
include checked

theorem Validated.Checked.next_mem (off : Nat) (member : off ∈ earlier) :
    ∃ next ∈ env.body.offsets, Decodes env.r env.m.imports.length env.body.totalLocals off next := by
  rw [checked.offsets]
  exact checked.sound.chain.next off member

theorem Validated.Checked.behind_mem (off : Nat) (member : off ∈ earlier)
    (kind : kindAt env.r off = .elseOp ∨ kindAt env.r off = .endOp) : off + 1 ∈ env.body.offsets := by
  obtain ⟨next,inside,decodes⟩ := checked.next_mem off member
  have read := scanImmediate_ok decodes.2
  unfold kindAt at kind
  rcases kind with kind | kind <;> rw [kind] at read <;> exact read ▸ inside

theorem Validated.Checked.record (rec : IfRec) (member : rec ∈ env.body.recs) :
    rec.endOff + 1 ∈ env.body.offsets ∧ rec.ifOff < rec.endOff ∧ rec.elseOff < rec.endOff ∧
      (rec.elseOff ≠ 0 → rec.elseOff + 1 ∈ env.body.offsets ∧ rec.ifOff < rec.elseOff) := by
  obtain ⟨i,given⟩ := List.getElem?_of_mem member
  have placed := checked.sound.placed i rec given
  have ended : rec.endOff ≠ 0 := fun unclosed => by
    have opened := checked.sound.closed i rec given unclosed
    simp at opened
  obtain ⟨inside,later,behind,kind⟩ := placed.closes ended
  refine ⟨checked.behind_mem _ inside (.inr kind),later,behind,fun parted => ?_⟩
  obtain ⟨inside',between,kind'⟩ := placed.parts parted
  exact ⟨checked.behind_mem _ inside' (.inl kind'),between⟩

theorem execInstr_onward (s : ExecState) (member : s.pc ∈ earlier) :
    Onward env.body s (execInstr env (env.r.data.getD s.pc 0) s) := by
  obtain ⟨next,inside,decodes⟩ := checked.next_mem s.pc member
  have further := decodes.lt
  have read := scanImmediate_ok decodes.2
  unfold execInstr
  cases kind : opKind (env.r.data.getD s.pc 0) <;> rw [kind] at read <;> dsimp only at read ⊢
  case unreachable => exact ⟨by decide,by decide,by decide⟩
  case nop | endOp =>
    subst read
    exact ⟨inside,further,rfl⟩
  case ret => exact ⟨by decide,by decide,by decide⟩
  case drop =>
    subst read
    exact onward_bind (opPop_harmless _) fun t _ => ⟨inside,further,rfl⟩
  case i32Const | i64Const =>
    obtain ⟨v,got⟩ := read
    rw [got]
    exact onward_ok (onward_bind (opPush_harmless _ _) fun stack _ => ⟨inside,further,rfl⟩)
  case localGet =>
    obtain ⟨idx,got,bound⟩ := read
    rw [localIndex_ok got bound]
    exact onward_ok (onward_bind (opPush_harmless _ _) fun stack _ => ⟨inside,further,rfl⟩)
  case localSet | localTee =>
    obtain ⟨idx,got,bound⟩ := read
    rw [localIndex_ok got bound]
    exact onward_ok (onward_bind (opPop_harmless _) fun v _ => ⟨inside,further,rfl⟩)
  case call =>
    obtain ⟨idx,got,bound⟩ := read
    exact callHost_onward got bound inside further
  case ifOp =>
    have entered : next = s.pc + 2 := read
    refine onward_bind (opPop_harmless _) fun cond _ => ?_
    split
    · exact ⟨entered ▸ inside,Nat.lt_add_of_pos_right (by decide),rfl⟩
    obtain ⟨i,rec,given,place⟩ := checked.sound.ifs s.pc member kind
    obtain ⟨found,lookup⟩ : ∃ found, findRecByIf env.body.recs s.pc = some found :=
      Option.isSome_iff_exists.mp (List.find?_isSome.mpr ⟨rec,List.mem_of_getElem? given,by simpa using place⟩)
    have same : found.ifOff = s.pc := by simpa using List.find?_some lookup
    obtain ⟨behind,later,_,parted⟩ := checked.record found (List.mem_of_find?_eq_some lookup)
    rw [lookup]
    refine onward_ok ?_
    by_cases alone : found.elseOff = 0
    · simp only [alone,ne_eq,not_true_eq_false,if_false]
      exact ⟨behind,by change s.pc < found.endOff + 1; omega,rfl⟩
    · simp only [alone,ne_eq,not_false_eq_true,if_true]
      obtain ⟨taken,between⟩ := parted alone
      exact ⟨taken,by change s.pc < found.elseOff + 1; omega,rfl⟩
  case elseOp =>
    obtain ⟨i,rec,given,place⟩ := checked.sound.elses s.pc member kind
    obtain ⟨found,lookup⟩ : ∃ found, findRecByElse env.body.recs s.pc = some found :=
      Option.isSome_iff_exists.mp (List.find?_isSome.mpr ⟨rec,List.mem_of_getElem? given,by simpa using place⟩)
    have same : found.elseOff = s.pc := by simpa using List.find?_some lookup
    obtain ⟨behind,_,later,_⟩ := checked.record found (List.mem_of_find?_eq_some lookup)
    rw [lookup]
    refine onward_ok ?_
    exact ⟨behind,by change s.pc < found.endOff + 1; omega,rfl⟩
  case other =>
    obtain ⟨rfl,supported⟩ := read
    exact onward_bind (numeric_harmless _ supported _) fun stack _ => ⟨inside,further,rfl⟩

theorem execStep_onward (s : ExecState) (member : s.pc ∈ env.body.offsets) :
    match execStep env s with
    | .next next => next.pc ∈ env.body.offsets ∧ s.pc < next.pc ∧ next.gas = s.gas + 1 ∧ next.gas ≤ env.gasLimit
    | .stop reason final => reason.Expected ∧ final.gas ≤ s.gas + 1 ∧ (s.gas ≤ env.gasLimit → final.gas ≤ env.gasLimit + 1) := by
  unfold execStep
  by_cases ended : env.r.len ≤ s.pc ∨ s.pc = env.body.funcEnd
  · rw [if_pos ended]
    exact ⟨⟨by decide,by decide,by decide⟩,Nat.le_succ _,fun modest => Nat.le_succ_of_le modest⟩
  rw [if_neg ended]
  by_cases spent : env.gasLimit < s.gas + 1
  · rw [if_pos spent]
    exact ⟨⟨by decide,by decide,by decide⟩,le_refl _,fun modest => Nat.succ_le_succ modest⟩
  rw [if_neg spent]
  have before : s.pc ∈ earlier := by
    rw [checked.offsets] at member
    exact (List.mem_cons.mp member).resolve_left fun last => ended (.inr last)
  have onward := execInstr_onward checked { s with gas := s.gas + 1 } before
  cases outcome : execInstr env (env.r.data.getD s.pc 0) { s with gas := s.gas + 1 } with
  | error reason =>
    rw [outcome] at onward
    exact ⟨onward,le_refl _,fun _ => by dsimp only; omega⟩
  | ok next =>
    rw [outcome] at onward
    exact ⟨onward.1,onward.2.1,onward.2.2,by rw [onward.2.2]; dsimp only; omega⟩

end Instruction

def remaining (v : Validated) (pc : Nat) : Nat := (v.offsets.filter fun off => pc ≤ off).length

theorem remaining_lt {pc next : Nat} (member : pc ∈ v.offsets) (later : pc < next) :
    remaining v next < remaining v pc := by
  have fewer : (v.offsets.filter fun off => next ≤ off).Sublist (v.offsets.filter fun off => pc ≤ off) := by
    apply List.monotone_filter_right
    intro place beyond
    simp only [decide_eq_true_eq] at beyond ⊢
    omega
  refine Nat.lt_of_le_of_ne fewer.length_le fun same => ?_
  -- of equal length the lists are equal, and only the longer one has `pc`
  have here : pc ∈ v.offsets.filter fun off => next ≤ off := by
    rw [fewer.eq_of_length same]
    exact List.mem_filter.mpr ⟨member,by simp⟩
  have beyond := (List.mem_filter.mp here).2
  simp only [decide_eq_true_eq] at beyond
  omega

theorem execLoop_ends {earlier : List Nat} (checked : env.body.Checked env.r env.m.imports.length earlier)
    (fuel : Nat) (s : ExecState) (member : s.pc ∈ env.body.offsets) (modest : s.gas ≤ env.gasLimit)
    (enough : remaining env.body s.pc ≤ fuel) :
    ∃ reason final, execLoop env fuel s = some (reason,final) ∧ reason.Expected ∧ final.gas ≤ env.gasLimit + 1 ∧
      final.gas ≤ s.gas + remaining env.body s.pc := by
  induction fuel generalizing s with
  | zero =>
    have some : 0 < remaining env.body s.pc := List.length_pos_of_mem (List.mem_filter.mpr ⟨member,by simp⟩)
    omega
  | succ fuel ih =>
    have some : 0 < remaining env.body s.pc := List.length_pos_of_mem (List.mem_filter.mpr ⟨member,by simp⟩)
    have onward := execStep_onward checked s member
    rw [execLoop]
    cases turn : execStep env s with
    | stop reason final =>
      rw [turn] at onward
      exact ⟨reason,final,rfl,onward.1,onward.2.2 modest,by omega⟩
    | next next =>
      rw [turn] at onward
      obtain ⟨inside,further,charged,within⟩ := onward
      have fewer := remaining_lt member further
      obtain ⟨reason,final,ended,expected,bounded,counted⟩ := ih next inside within (by omega)
      exact ⟨reason,final,ended,expected,bounded,by omega⟩

/-- Executing a body that the check has accepted visits decoded offsets only, each one
behind the last, stops for no undecodable code and within as many steps as there are
instructions, and uses no more gas than that or one more than its limit. -/
theorem checked_execution_safe (data : Bytes) (m : WMod) (paramCount bodyStart bodyEnd gasLimit : Nat) (host : Host)
    (v : Validated) (accepted : validateBody ⟨data,bodyEnd⟩ m.imports.length paramCount bodyStart = .ok v)
    (locals : List UInt64) :
    (∀ s, Relation.ReflTransGen (fun s next => execStep ⟨⟨data,bodyEnd⟩,m,v,gasLimit,host⟩ s = .next next)
        ⟨v.instrStart,0,[],locals,0⟩ s →
      s.pc ∈ v.offsets ∧
      (∀ next, execStep ⟨⟨data,bodyEnd⟩,m,v,gasLimit,host⟩ s = .next next → s.pc < next.pc) ∧
      ∀ reason final, execStep ⟨⟨data,bodyEnd⟩,m,v,gasLimit,host⟩ s = .stop reason final →
        reason ≠ .badImmediate ∧ reason ≠ .noRecord ∧ reason ≠ .unknownNumeric) ∧
    ∃ reason final, execLoop ⟨⟨data,bodyEnd⟩,m,v,gasLimit,host⟩ v.offsets.length ⟨v.instrStart,0,[],locals,0⟩ =
        some (reason,final) ∧ final.gas ≤ gasLimit + 1 ∧ final.gas ≤ v.offsets.length := by
  obtain ⟨earlier,checked⟩ := validateBody_checked ⟨data,bodyEnd⟩ m.imports.length paramCount bodyStart v accepted
  have start : v.instrStart ∈ v.offsets := by
    rw [checked.offsets]
    exact checked.sound.chain.start_mem
  constructor
  · intro s reached
    have member : s.pc ∈ v.offsets := by
      induction reached with
      | refl => exact start
      | tail _ step ih =>
        have onward := @execStep_onward ⟨⟨data,bodyEnd⟩,m,v,gasLimit,host⟩ earlier checked _ ih
        rw [step] at onward
        exact onward.1
    have onward := @execStep_onward ⟨⟨data,bodyEnd⟩,m,v,gasLimit,host⟩ earlier checked s member
    refine ⟨member,fun next step => ?_,fun reason final step => ?_⟩
    · rw [step] at onward
      exact onward.2.1
    · rw [step] at onward
      exact onward.1
  · have few : remaining v v.instrStart ≤ v.offsets.length := List.length_filter_le _ _
    obtain ⟨reason,final,ended,_,bounded,counted⟩ := @execLoop_ends
      ⟨⟨data,bodyEnd⟩,m,v,gasLimit,host⟩ earlier checked v.offsets.length ⟨v.instrStart,0,[],locals,0⟩ start
      (Nat.zero_le _) few
    refine ⟨reason,final,ended,bounded,?_⟩
    dsimp only at counted
    omega

/-- `if` with both branches, on a constant: the check lets it through. -/
theorem constant_if_safe :
    ∃ v, validateBody ⟨[0,0x41,1,0x04,0x7F,0x41,2,0x05,0x41,3,0x0B,0x0B],12⟩ 0 0 0 = .ok v ∧
      ∃ reason final, execLoop ⟨⟨[0,0x41,1,0x04,0x7F,0x41,2,0x05,0x41,3,0x0B,0x0B],12⟩,.empty,v,100,fun _ _ => none⟩
        v.offsets.length ⟨v.instrStart,0,[],[],0⟩ = some (reason,final) ∧ final.gas ≤ 101 ∧ final.gas ≤ v.offsets.length :=
  ⟨_,rfl,(checked_execution_safe [0,0x41,1,0x04,0x7F,0x41,2,0x05,0x41,3,0x0B,0x0B] .empty 0 0 12 100 (fun _ _ => none)
    _ rfl []).2⟩

end Execution

end AuthorityKernel.Wasm
