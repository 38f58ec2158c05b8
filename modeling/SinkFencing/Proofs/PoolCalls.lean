import SinkFencing.Proofs.SlotLease

namespace SinkFencing.SlotPool

variable {pool next : SlotPool} {id : TxnId} {slot : UInt64}

/-- Frees the slot of an id in place. What was changed stays changed, even if the call is refused. -/
def free (id : TxnId) : ExceptT Fault (StateM SlotPool) Unit := do
  let parts ← id.parts
  let pool ← get
  if pool.issues parts then
    let (found, leased) := pool.leased.remove parts.sequence
    set { pool with leased }
    if found then return
  throw (.refused (.notLeased id.text))

/-- What one may ask of a pool that can change it. -/
inductive Call
  | acquire
  | release (id : TxnId)

inductive Reply
  | leased (id : TxnId)
  | freed
  | refused (fault : Fault)
deriving DecidableEq

def serve (pool : SlotPool) : Call → Reply × SlotPool
  | .acquire => (.leased pool.acquire.1, pool.acquire.2)
  | .release id =>
    match (free id).run.run pool with
    | (.ok _, next) => (.freed, next)
    | (.error fault, next) => (.refused fault, next)

def after (pool : SlotPool) (calls : List Call) : SlotPool :=
  calls.foldl (fun pool call => (pool.serve call).2) pool

def replies (pool : SlotPool) : List Call → List Reply
  | [] => []
  | call :: rest => (pool.serve call).1 :: (pool.serve call).2.replies rest

def Reply.id? : Reply → Option TxnId
  | .leased id => some id
  | .freed | .refused _ => none

def handedOut (pool : SlotPool) (calls : List Call) : List TxnId :=
  (pool.replies calls).filterMap Reply.id?

/-- The most slots that are leased at once, before, between and after calls. -/
def peak (pool : SlotPool) : List Call → Nat
  | [] => pool.leased.size
  | call :: rest => max pool.leased.size ((pool.serve call).2.peak rest)

/-- A pool before its first call, and the ids that it was restored from. -/
inductive Start (stem : String) (placement : Placement) : List TxnId → SlotPool → Prop
  | fresh : Start stem placement [] (fresh stem placement)
  | restored {ids : List TxnId} {pool : SlotPool} (h : restore stem placement ids = .ok pool) :
      Start stem placement ids pool

/-- The id reads as this slot of the pool, leased or not. -/
def Names (pool : SlotPool) (id : TxnId) (slot : UInt64) : Prop :=
  id.parts = .ok ⟨pool.stem, pool.placement.index, slot⟩

theorem issues_iff {parts : TxnId.Parts} : pool.issues parts = true ↔
    parts = ⟨pool.stem, pool.placement.index, parts.sequence⟩ := by
  cases parts
  simp [issues]

theorem names_idOf (pool : SlotPool) (slot : UInt64) : pool.Names (pool.idOf slot) slot :=
  TxnId.parts_compose _ _ _

theorem Names.slot_eq {other : UInt64} (h : pool.Names id slot) (h' : pool.Names id other) :
    slot = other := by
  have he := Except.ok.inj (h.symm.trans h')
  exact congrArg TxnId.Parts.sequence he

theorem idOf_inj {other : UInt64} : pool.idOf slot = pool.idOf other ↔ slot = other := by
  refine ⟨fun he => ?_, fun he => congrArg _ he⟩
  have names : pool.Names (pool.idOf slot) other := he ▸ names_idOf pool other
  exact (names_idOf pool slot).slot_eq names

theorem names_of_issues {parts : TxnId.Parts} (h : id.parts = .ok parts)
    (issues : pool.issues parts = true) : pool.Names id parts.sequence :=
  h.trans (congrArg Except.ok (issues_iff.1 issues))

def vacate (pool : SlotPool) (slot : UInt64) : SlotPool :=
  { pool with leased := pool.leased.erase slot }

theorem reclaim_of_names (names : pool.Names id slot) (fits : slot.toNat + 1 < UInt64.size) :
    pool.reclaim id = .ok (pool.mark slot) := by
  have hissues : pool.issues ⟨pool.stem, pool.placement.index, slot⟩ = true := issues_iff.2 rfl
  rw [reclaim, names]
  simp only [bind, Except.bind]
  rw [if_neg (by simpa using hissues), if_neg (Nat.ne_of_lt fits)]
  rfl

/-- The first of the ids is taken back just if it names a slot that has a size past it. -/
theorem foldlM_reclaim_cons_iff {rest : List TxnId} : (id :: rest).foldlM reclaim pool = .ok next ↔
    ∃ slot, pool.Names id slot ∧ slot.toNat + 1 < UInt64.size ∧
      rest.foldlM reclaim (pool.mark slot) = .ok next := by
  rw [List.foldlM_cons]
  constructor
  · intro h
    cases hr : pool.reclaim id with
    | error fault => rw [hr] at h; cases h
    | ok marked =>
      rw [hr] at h
      obtain ⟨parts, hparts, hissues, hlast, rfl⟩ := of_reclaim hr
      have fits := Nat.lt_of_le_of_ne parts.sequence.toNat_lt_size hlast
      exact ⟨parts.sequence, names_of_issues hparts hissues, fits, h⟩
  · intro h
    obtain ⟨slot, names, fits, hrest⟩ := h
    rw [reclaim_of_names names fits]
    exact hrest

theorem release_of_names (names : pool.Names id slot) (leased : slot ∈ pool.leased) :
    pool.release id = .ok (pool.vacate slot) := by
  have hissues : pool.issues ⟨pool.stem, pool.placement.index, slot⟩ = true := issues_iff.2 rfl
  rw [release, names]
  simp only [bind, Except.bind]
  rw [if_pos ⟨hissues, leased⟩]
  rfl

/-- Why an id is refused that is not leased. It depends on the id alone. -/
def refusal (id : TxnId) : Fault :=
  match id.parts with
  | .ok _ => .refused (.notLeased id.text)
  | .error fault => fault

theorem refusal_of_parts {parts : TxnId.Parts} (h : id.parts = .ok parts) :
    refusal id = .refused (.notLeased id.text) := by
  rw [refusal, h]

theorem release_of_not_leased (h : ∀ slot, pool.Names id slot → slot ∉ pool.leased) :
    pool.release id = .error (refusal id) := by
  cases hp : id.parts with
  | error fault =>
    rw [release, refusal, hp]
    rfl
  | ok parts =>
    have hnot : ¬ (pool.issues parts = true ∧ parts.sequence ∈ pool.leased) := by
      intro hleased
      exact h parts.sequence (names_of_issues hp hleased.1) hleased.2
    rw [refusal_of_parts hp, release, hp]
    simp only [bind, Except.bind]
    rw [if_neg hnot]
    rfl

theorem vacate_of_not_mem (h : slot ∉ pool.leased) : pool.vacate slot = pool := by
  rw [vacate, Ascending.erase_of_not_mem h]

theorem free_eq_release (pool : SlotPool) (id : TxnId) : (free id).run.run pool =
    match pool.release id with
    | .ok next => (.ok (), next)
    | .error fault => (.error fault, pool) := by
  cases hp : id.parts with
  | error fault =>
    rw [free, release, hp]
    rfl
  | ok parts =>
    rw [free, hp]
    change (if pool.issues parts = true then _ else _ : ExceptT Fault (StateM SlotPool) Unit).run.run
      pool = _
    by_cases hissues : pool.issues parts = true
    · have names : pool.Names id parts.sequence := names_of_issues hp hissues
      rw [if_pos hissues]
      change (if decide (parts.sequence ∈ pool.leased) = true then _ else _ :
        ExceptT Fault (StateM SlotPool) Unit).run.run (pool.vacate parts.sequence) = _
      by_cases hleased : parts.sequence ∈ pool.leased
      · rw [if_pos (decide_eq_true hleased), release_of_names names hleased]
        rfl
      · -- What was taken out was not in, so nothing has changed.
        have hnot (slot : UInt64) (hslot : pool.Names id slot) : slot ∉ pool.leased := by
          rw [hslot.slot_eq names]
          exact hleased
        rw [if_neg (by simpa using hleased), vacate_of_not_mem hleased, release_of_not_leased hnot,
          refusal_of_parts hp]
        rfl
    · have hnot (slot : UInt64) (hslot : pool.Names id slot) : slot ∉ pool.leased := by
        have he := Except.ok.inj (hp.symm.trans hslot)
        exact absurd (issues_iff.2 (by rw [he])) hissues
      rw [if_neg hissues, release_of_not_leased hnot, refusal_of_parts hp]
      rfl

theorem serve_of_names (names : pool.Names id slot) (leased : slot ∈ pool.leased) :
    pool.serve (.release id) = (.freed, pool.vacate slot) := by
  rw [serve, free_eq_release, release_of_names names leased]

theorem serve_of_not_leased (unleased : ∀ slot, pool.Names id slot → slot ∉ pool.leased) :
    pool.serve (.release id) = (.refused (refusal id), pool) := by
  rw [serve, free_eq_release, release_of_not_leased unleased]

/-- What a pool answers to a call, and the pool that is left. -/
inductive Served (pool : SlotPool) : Call → Reply → SlotPool → Prop
  | acquired : Served pool .acquire (.leased (pool.idOf pool.lowestFree)) (pool.mark pool.lowestFree)
  | freed {id : TxnId} {slot : UInt64} (names : pool.Names id slot) (leased : slot ∈ pool.leased) :
      Served pool (.release id) .freed (pool.vacate slot)
  | refused {id : TxnId} (unleased : ∀ slot, pool.Names id slot → slot ∉ pool.leased) :
      Served pool (.release id) (.refused (refusal id)) pool

theorem served (pool : SlotPool) (call : Call) :
    Served pool call (pool.serve call).1 (pool.serve call).2 := by
  cases call with
  | acquire => exact .acquired
  | release id =>
    by_cases h : ∃ slot, pool.Names id slot ∧ slot ∈ pool.leased
    · obtain ⟨slot, names, leased⟩ := h
      rw [serve_of_names names leased]
      exact .freed names leased
    · have unleased (slot : UInt64) (names : pool.Names id slot) : slot ∉ pool.leased :=
        fun leased => h ⟨slot, names, leased⟩
      rw [serve_of_not_leased unleased]
      exact .refused unleased

theorem mem_handedOut_cons {call : Call} {rest : List Call} :
    id ∈ pool.handedOut (call :: rest) ↔
      (pool.serve call).1 = .leased id ∨ id ∈ (pool.serve call).2.handedOut rest := by
  rw [handedOut, replies, List.filterMap_cons]
  cases (pool.serve call).1 with
  | leased other => simp [Reply.id?, handedOut, eq_comm]
  | freed | refused => simp [Reply.id?, handedOut]

theorem Start.issuer {stem : String} {placement : Placement} {ids : List TxnId}
    (h : Start stem placement ids pool) : pool.stem = stem ∧ pool.placement = placement := by
  cases h with
  | fresh => exact ⟨rfl, rfl⟩
  | restored h =>
    obtain ⟨hstem, hplacement, -⟩ := of_restore h
    exact ⟨hstem, hplacement⟩

theorem Served.issuer_eq {call : Call} {reply : Reply} (h : Served pool call reply next) :
    next.stem = pool.stem ∧ next.placement = pool.placement := by
  cases h <;> exact ⟨rfl, rfl⟩

theorem Served.idOf_eq {call : Call} {reply : Reply} (h : Served pool call reply next) :
    next.idOf slot = pool.idOf slot := by
  rw [idOf, h.issuer_eq.1, h.issuer_eq.2]
  rfl

theorem Served.names_iff {call : Call} {reply : Reply} (h : Served pool call reply next) :
    next.Names id slot ↔ pool.Names id slot := by
  rw [Names, h.issuer_eq.1, h.issuer_eq.2]
  rfl

theorem issuer_after (pool : SlotPool) (calls : List Call) :
    (pool.after calls).stem = pool.stem ∧ (pool.after calls).placement = pool.placement := by
  induction calls generalizing pool with
  | nil => exact ⟨rfl, rfl⟩
  | cons call rest ih =>
    obtain ⟨hstem, hplacement⟩ := ih (pool.serve call).2
    obtain ⟨hstem', hplacement'⟩ := (pool.served call).issuer_eq
    exact ⟨hstem.trans hstem', hplacement.trans hplacement'⟩

theorem Start.issuer_after {stem : String} {placement : Placement} {ids : List TxnId}
    (h : Start stem placement ids pool) (calls : List Call) :
    (pool.after calls).stem = stem ∧ (pool.after calls).placement = placement := by
  obtain ⟨hstem, hplacement⟩ := SlotPool.issuer_after pool calls
  exact ⟨hstem.trans h.issuer.1, hplacement.trans h.issuer.2⟩

theorem size_le_peak (pool : SlotPool) (calls : List Call) : pool.leased.size ≤ pool.peak calls := by
  cases calls with
  | nil => exact Nat.le_refl _
  | cons call rest => exact Nat.le_max_left _ _

/-- What every call keeps, all calls keep, as long as never all slots are leased. -/
theorem after_induction {P : SlotPool → Prop}
    (step : ∀ pool call, P pool → (pool.serve call).2.leased.size < UInt64.size →
      P (pool.serve call).2)
    (start : P pool) {calls : List Call} (room : pool.peak calls < UInt64.size) :
    P (pool.after calls) := by
  induction calls generalizing pool with
  | nil => exact start
  | cons call rest ih =>
    have hrest : (pool.serve call).2.peak rest < UInt64.size :=
      Nat.lt_of_le_of_lt (Nat.le_max_right _ _) room
    have hnext : (pool.serve call).2.leased.size < UInt64.size :=
      Nat.lt_of_le_of_lt (size_le_peak _ rest) hrest
    exact ih (step pool call start hnext) hrest

end SinkFencing.SlotPool
