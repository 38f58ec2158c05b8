import SinkFencing.Proofs.ProbingOrder

namespace SinkFencing

open TxnId

/-- Every fencing call among the events is answered with the epoch that the table holds. -/
def AnsweredBy (table : TxnId → Epoch) (events : List Event) : Prop :=
  ∀ id answer, Event.abort id answer ∈ events → answer = .ok (table id)

def Used (table : TxnId → Epoch) (id : TxnId) : Prop := (table id).isUnused = false

namespace AnsweredBy

variable {table : TxnId → Epoch} {events events' : List Event}

theorem left (h : AnsweredBy table (events ++ events')) : AnsweredBy table events :=
  fun id answer hmem => h id answer (List.mem_append_left _ hmem)

theorem right (h : AnsweredBy table (events ++ events')) : AnsweredBy table events' :=
  fun id answer hmem => h id answer (List.mem_append_right _ hmem)

theorem tail {event : Event} (h : AnsweredBy table (event :: events)) : AnsweredBy table events :=
  fun id answer hmem => h id answer (List.mem_cons_of_mem _ hmem)

theorem nil (table : TxnId → Epoch) : AnsweredBy table [] := fun _ _ hmem => by cases hmem

theorem abort (id : TxnId) (h : AnsweredBy table events) :
    AnsweredBy table (.abort id (.ok (table id)) :: events) := by
  intro id' answer hmem
  rcases List.mem_cons.1 hmem with he | hmem
  · cases he
    rfl
  · exact h id' answer hmem

theorem of_tail {event : Event} (other : event.abortCall? = none) (h : AnsweredBy table events) :
    AnsweredBy table (event :: events) := by
  intro id answer hmem
  rcases List.mem_cons.1 hmem with he | hmem
  · rw [← he] at other
    cases other
  · exact h id answer hmem

theorem congr {table' : TxnId → Epoch} (h : AnsweredBy table events)
    (same : ∀ id ∈ calls events, table' id = table id) : AnsweredBy table' events := by
  intro id answer hmem
  have hid : id ∈ calls events := List.mem_filterMap.2 ⟨_, hmem, rfl⟩
  rw [same id hid]
  exact h id answer hmem

end AnsweredBy

/-- Going from `first` in strides, `x` is met after nothing but used places. -/
def Reaches {α : Type} (place : α → Nat) (stride : Nat) (used : α → Prop) (first x : α) : Prop :=
  ∃ k, place x = place first + k * stride ∧
    ∀ j < k, ∀ y, place y = place first + j * stride → used y

namespace Reaches

variable {α : Type} {place : α → Nat} {stride : Nat} {used : α → Prop} {first next x : α}

theorem self (place : α → Nat) (stride : Nat) (used : α → Prop) (x : α) :
    Reaches place stride used x x := ⟨0, by omega, fun j hj => by omega⟩

theorem iff_of_not_used (inj : Function.Injective place) (h : ¬ used first) :
    Reaches place stride used first x ↔ x = first := by
  constructor
  · intro hx
    obtain ⟨k, hk, hused⟩ := hx
    by_cases h0 : k = 0
    · subst h0
      exact inj (by omega)
    · exact absurd (hused 0 (by omega) first (by omega)) h
  · intro he
    rw [he]
    exact self place stride used first

theorem iff_of_last (inj : Function.Injective place) (h : ∀ y, place y < place first + stride) :
    Reaches place stride used first x ↔ x = first := by
  constructor
  · intro hx
    obtain ⟨k, hk, -⟩ := hx
    by_cases h0 : k = 0
    · subst h0
      exact inj (by omega)
    · -- A second place would lie out of range.
      have hlt := h x
      have hle : 1 * stride ≤ k * stride := Nat.mul_le_mul_right stride (by omega)
      omega
  · intro he
    rw [he]
    exact self place stride used first

theorem iff_of_used (inj : Function.Injective place) (h : used first)
    (step : place next = place first + stride) :
    Reaches place stride used first x ↔ x = first ∨ Reaches place stride used next x := by
  have shift (j : Nat) : place next + j * stride = place first + (j + 1) * stride := by
    rw [step, Nat.succ_mul]
    omega
  constructor
  · intro hx
    obtain ⟨k, hk, hused⟩ := hx
    cases k with
    | zero => exact .inl (inj (by omega))
    | succ k =>
      refine .inr ⟨k, by rw [hk, shift], fun j hj y hy => ?_⟩
      exact hused (j + 1) (by omega) y (by rw [hy, shift])
  · intro hx
    rcases hx with he | ⟨k, hk, hused⟩
    · rw [he]
      exact self place stride used first
    · refine ⟨k + 1, by rw [hk, shift], fun j hj y hy => ?_⟩
      cases j with
      | zero =>
        have he : y = first := inj (by omega)
        rw [he]
        exact h
      | succ j => exact hused j (by omega) y (by rw [hy, shift])

/-- With strides of one, everything from `start` up to before the target is in use. -/
theorem iff_between {used : UInt64 → Prop} {start sequence : UInt64} :
    Reaches UInt64.toNat 1 used start sequence ↔
      start ≤ sequence ∧ ∀ q, start ≤ q → q < sequence → used q := by
  simp only [UInt64.le_iff_toNat_le, UInt64.lt_iff_toNat_lt]
  constructor
  · intro h
    obtain ⟨k, hk, hused⟩ := h
    refine ⟨by omega, fun q hstart hq => ?_⟩
    exact hused (q.toNat - start.toNat) (by omega) q (by omega)
  · intro h
    obtain ⟨hstart, hused⟩ := h
    refine ⟨sequence.toNat - start.toNat, by omega, fun j hj q hq => ?_⟩
    exact hused q (by omega) (by omega)

end Reaches

namespace Probing

variable {σ : Type} {table : TxnId → Epoch} {scope : Scope} {stem : String} {events : List Event}

theorem toNat_injective32 : Function.Injective UInt32.toNat := fun _ _ h => UInt32.toNat_inj.1 h

theorem toNat_injective64 : Function.Injective UInt64.toNat := fun _ _ h => UInt64.toNat_inj.1 h

theorem lt_of_nextSequence_eq_none {s : UInt64} (h : nextSequence s = none) (q : UInt64) :
    q.toNat < s.toNat + 1 := by
  have := q.toNat_lt_size
  unfold nextSequence at h
  split at h
  · cases h
  · omega

theorem lt_of_nextOwner_eq_none {p : Placement} {owner : UInt32} (h : p.nextOwner owner = none)
    (o : UInt32) : o.toNat < owner.toNat + p.parallelism.toNat := by
  have := o.toNat_lt_size
  unfold Placement.nextOwner at h
  split at h
  · cases h
  · omega

/-- The sequences of an owner that a climb from `sequence` meets. -/
def ClimbReaches (table : TxnId → Epoch) (stem : String) (owner : UInt32) : UInt64 → UInt64 → Prop :=
  Reaches UInt64.toNat 1 fun q => Used table (.compose stem owner q)

/-- The owners of the placement that a walk from an owner meets. -/
def WalkReaches (table : TxnId → Epoch) (scope : Scope) (stem : String) : UInt32 → UInt32 → Prop :=
  Reaches UInt32.toNat scope.placement.parallelism.toNat fun o =>
    Used table (.compose stem o scope.start)

theorem Climb.answer_of_table {owner : UInt32} {sequence : UInt64} {answer : Except Fault Nat}
    (h : Climb stem owner sequence events answer) (ht : AnsweredBy table events) :
    ∃ used, answer = .ok used ∧ (0 < used ↔ Used table (.compose stem owner sequence)) := by
  induction h with
  | failed sequence fault => cases ht _ _ List.mem_cons_self
  | unused sequence fresh =>
    cases ht _ _ List.mem_cons_self
    exact ⟨0, rfl, by simp [Used, fresh]⟩
  | top sequence used last =>
    cases ht _ _ List.mem_cons_self
    exact ⟨1, rfl, by simp [Used, used]⟩
  | up used step rest ih =>
    cases ht _ _ List.mem_cons_self
    obtain ⟨n, rfl, -⟩ := ih ht.right
    exact ⟨n + 1, rfl, by simp [Used, used]⟩

theorem Climb.mem_calls_iff {owner : UInt32} {sequence : UInt64} {answer : Except Fault Nat}
    (h : Climb stem owner sequence events answer) (ht : AnsweredBy table events) (stem' : String)
    (o : UInt32) (q : UInt64) :
    compose stem' o q ∈ calls events ↔
      stem' = stem ∧ o = owner ∧ ClimbReaches table stem owner sequence q := by
  induction h with
  | failed sequence fault => cases ht _ _ List.mem_cons_self
  | unused sequence fresh =>
    cases ht _ _ List.mem_cons_self
    rw [ClimbReaches, Reaches.iff_of_not_used toNat_injective64 (by simp [Used, fresh])]
    simp [compose_inj]
  | top sequence used last =>
    cases ht _ _ List.mem_cons_self
    rw [ClimbReaches, Reaches.iff_of_last toNat_injective64 (lt_of_nextSequence_eq_none last)]
    simp [compose_inj]
  | up used step rest ih =>
    -- The probe of this sequence is the first call, and the rest of the climb starts at the next.
    cases ht _ _ List.mem_cons_self
    rw [ClimbReaches, Reaches.iff_of_used toNat_injective64 used (toNat_nextSequence step)]
    rw [calls_append, calls_probeEvents, List.mem_append, List.mem_singleton, ih ht.right,
      compose_inj, ← and_or_left, ← and_or_left]
    rfl

theorem Walk.answer_of_table {owner : UInt32} {answer : Except Fault Unit}
    (h : Walk scope stem owner events answer) (ht : AnsweredBy table events) : answer = .ok () := by
  induction h with
  | failed climb =>
    obtain ⟨_, h, -⟩ := climb.answer_of_table ht
    cases h
  | unused | top => rfl
  | up _ _ _ _ ih => exact ih ht.right.tail

theorem Walk.mem_calls_iff {owner : UInt32} {answer : Except Fault Unit}
    (h : Walk scope stem owner events answer) (ht : AnsweredBy table events) (stem' : String)
    (o : UInt32) (q : UInt64) :
    compose stem' o q ∈ calls events ↔ stem' = stem ∧
      WalkReaches table scope stem owner o ∧ ClimbReaches table stem o scope.start q := by
  -- A climb that ends the walk meets no other owner.
  have only {owner : UInt32} {events : List Event} {answer : Except Fault Nat}
      (climb : Climb stem owner scope.start events answer) (ht : AnsweredBy table events)
      (hw : WalkReaches table scope stem owner o ↔ o = owner) :
      compose stem' o q ∈ calls events ↔ stem' = stem ∧
        WalkReaches table scope stem owner o ∧ ClimbReaches table stem o scope.start q := by
    rw [climb.mem_calls_iff ht, hw]
    constructor
    · intro h
      obtain ⟨hstem, howner, h⟩ := h
      subst howner
      exact ⟨hstem, rfl, h⟩
    · intro h
      obtain ⟨hstem, howner, h⟩ := h
      subst howner
      exact ⟨hstem, rfl, h⟩
  induction h with
  | failed climb =>
    obtain ⟨_, h, -⟩ := climb.answer_of_table ht
    cases h
  | unused climb =>
    obtain ⟨used, h, hused⟩ := climb.answer_of_table ht
    cases h
    -- The climb found its first id unused, so the walk goes no further.
    refine only climb ht (Reaches.iff_of_not_used toNat_injective32 fun hu => ?_)
    exact Nat.lt_irrefl 0 (hused.2 hu)
  | top climb pos last =>
    rw [calls_append, calls_note, calls_nil, List.append_nil]
    exact only climb ht.left
      (Reaches.iff_of_last toNat_injective32 (lt_of_nextOwner_eq_none last))
  | @up owner next events later used answer climb pos step rest ih =>
    obtain ⟨n, h, hused⟩ := climb.answer_of_table ht.left
    cases h
    have hlater : compose stem' o q ∈ calls later ↔ _ := ih ht.right.tail
    rw [calls_append, calls_note, List.mem_append, hlater, climb.mem_calls_iff ht.left,
      WalkReaches, Reaches.iff_of_used toNat_injective32 (hused.1 pos)
        (Placement.toNat_nextOwner step)]
    constructor
    · intro h
      rcases h with ⟨hstem, howner, h⟩ | ⟨hstem, hw, h⟩
      · subst howner
        exact ⟨hstem, .inl rfl, h⟩
      · exact ⟨hstem, .inr hw, h⟩
    · intro h
      obtain ⟨hstem, howner | hw, h⟩ := h
      · subst howner
        exact .inl ⟨hstem, rfl, h⟩
      · exact .inr ⟨hstem, hw, h⟩

theorem Sweep.answer_of_table {stems : List String} {answer : Except Fault Unit}
    (h : Sweep scope stems events answer) (ht : AnsweredBy table events) : answer = .ok () := by
  induction h with
  | done => rfl
  | failed walk => exact walk.answer_of_table ht
  | next _ _ ih => exact ih ht.right

theorem Sweep.mem_calls_iff {stems : List String} {answer : Except Fault Unit}
    (h : Sweep scope stems events answer) (ht : AnsweredBy table events) (stem : String)
    (o : UInt32) (q : UInt64) :
    compose stem o q ∈ calls events ↔ stem ∈ stems ∧
      WalkReaches table scope stem scope.placement.index o ∧
      ClimbReaches table stem o scope.start q := by
  induction h with
  | done => simp
  | failed walk => cases walk.answer_of_table ht
  | next walk _ ih =>
    rw [calls_append, List.mem_append, walk.mem_calls_iff ht.left, ih ht.right, List.mem_cons]
    constructor
    · intro h
      rcases h with ⟨hstem, h⟩ | ⟨hstem, h⟩
      · subst hstem
        exact ⟨.inl rfl, h⟩
      · exact ⟨.inr hstem, h⟩
    · intro h
      obtain ⟨hstem | hstem, h⟩ := h
      · subst hstem
        exact .inl ⟨rfl, h⟩
      · exact .inr ⟨hstem, h⟩

/-- The parts of the ids that a pass reaches when the table answers it. -/
structure Reached (table : TxnId → Epoch) (scope : Scope) (parts : Parts) : Prop where
  known : parts.stem ∈ scope.stems
  /-- The owner is one of the placement's, and all that come before it used the start. -/
  owner : ∃ k, parts.owner.toNat =
      scope.placement.index.toNat + k * scope.placement.parallelism.toNat ∧
    ∀ j < k, ∀ o : UInt32,
      o.toNat = scope.placement.index.toNat + j * scope.placement.parallelism.toNat →
        Used table (.compose parts.stem o scope.start)
  start_le : scope.start ≤ parts.sequence
  /-- The owner used all sequences from the start up to this one. -/
  below : ∀ q, scope.start ≤ q → q < parts.sequence → Used table (.compose parts.stem parts.owner q)

theorem reached_start (known : stem ∈ scope.stems) :
    Reached table scope ⟨stem, scope.placement.index, scope.start⟩ :=
  ⟨known, Reaches.self UInt32.toNat _ _ scope.placement.index, UInt64.le_refl _,
    fun q hq hlt => absurd (UInt64.lt_of_lt_of_le hlt hq) (UInt64.lt_irrefl q)⟩

/-- A pass that a table answers succeeds, and calls just the ids that the table lets it reach. -/
theorem mem_calls_iff {client : Client σ} {scope : Scope} {s : σ}
    (ht : AnsweredBy table (run client scope s).events) (parts : Parts) :
    parts.compose ∈ (run client scope s).abortCalls ↔ Reached table scope parts := by
  have h := (sweep_run client scope s).mem_calls_iff ht parts.stem parts.owner parts.sequence
  rw [ClimbReaches, Reaches.iff_between] at h
  constructor
  · intro hmem
    obtain ⟨hstem, howner, hstart, hbelow⟩ := h.1 hmem
    exact ⟨hstem, howner, hstart, hbelow⟩
  · intro hreached
    exact h.2 ⟨hreached.known, hreached.owner, hreached.start_le, hreached.below⟩

theorem answer_of_table {client : Client σ} {scope : Scope} {s : σ}
    (ht : AnsweredBy table (run client scope s).events) : (run client scope s).answer = .ok () :=
  (sweep_run client scope s).answer_of_table ht

theorem ascend_of_table {client : Client σ} {scope : Scope} {s : σ}
    (ht : AnsweredBy table (run client scope s).events) :
    Ascend (Reached table scope) (run client scope s).abortCalls :=
  (ascend_run client scope s).of_mem fun p hp => (mem_calls_iff ht p).1 hp

end Probing

/-- A client that answers every fencing call from a table, and cannot list. -/
def Client.ofTable (table : TxnId → Epoch) : Client Unit := ⟨fun id s => (.ok (table id), s), none⟩

theorem answeredBy_ofTable {table : TxnId → Epoch} {s t : Unit} {events : List Event}
    (h : Transcript (Client.ofTable table) s events t) : AnsweredBy table events := by
  induction h with
  | done => exact .nil table
  | abort _ ih => exact ih.abort _
  | list lists => cases lists
  | note _ ih => exact ih.of_tail rfl

end SinkFencing
