import Mathlib.Algebra.Ring.Nat
import SinkFencing.Proofs.Noninterference
import SinkFencing.Proofs.Rerun

namespace SinkFencing

open TxnId

namespace Probing

variable {σ : Type} {table table' : TxnId → Epoch} {scope : Scope} {stem : String} {events : List Event}

/-- The owner is the placement's of this rank, counted from zero. -/
def Ranked (scope : Scope) (rank : Nat) (owner : UInt32) : Prop :=
  owner.toNat = scope.placement.index.toNat + rank * scope.placement.parallelism.toNat

theorem Ranked.inj {rank rank' : Nat} {owner : UInt32} (h : Ranked scope rank owner)
    (h' : Ranked scope rank' owner) : rank = rank' := by
  refine Nat.eq_of_mul_eq_mul_right scope.placement.parallelism_pos ?_
  unfold Ranked at h h'
  omega

theorem Ranked.exists_lower {rank lower : Nat} {owner : UInt32} (h : Ranked scope rank owner)
    (hlt : lower < rank) : ∃ o, Ranked scope lower o := by
  have hstride : lower * scope.placement.parallelism.toNat < rank * scope.placement.parallelism.toNat :=
    Nat.mul_lt_mul_of_pos_right hlt scope.placement.parallelism_pos
  have hsize := owner.toNat_lt_size
  unfold Ranked at h
  exact ⟨.ofNat (scope.placement.index.toNat + lower * scope.placement.parallelism.toNat),
    UInt32.toNat_ofNat_of_lt (by omega)⟩

/-- From the start on, the owner of each rank used an interval of so many sequences, which begins at the
start. Those of the first so many owners are not empty. -/
structure Intervals (table : TxnId → Epoch) (scope : Scope) (stem : String) (owners : Nat)
    (lengths : Nat → Nat) : Prop where
  used_iff : ∀ rank owner, Ranked scope rank owner → ∀ q, scope.start ≤ q →
    (Used table (compose stem owner q) ↔ q.toNat < scope.start.toNat + lengths rank)
  pos_iff : ∀ rank, 0 < lengths rank ↔ rank < owners

/-- For each stem the first so many owners of the placement used intervals, and no later one any sequence. -/
def GapFreeBy (table : TxnId → Epoch) (scope : Scope) (owners : String → Nat) : Prop :=
  ∃ lengths : String → Nat → Nat,
    ∀ stem ∈ scope.stems, Intervals table scope stem (owners stem) (lengths stem)

def grown (owners : Nat) (lengths : Nat → Nat) (rank : Nat) : Nat :=
  if rank ≤ owners then lengths rank + 1 else 0

namespace Intervals

variable {owners : Nat} {lengths : Nat → Nat} {rank : Nat} {owner : UInt32} {q : UInt64}

theorem used_start_iff (h : Intervals table scope stem owners lengths) (hrank : Ranked scope rank owner) :
    Used table (compose stem owner scope.start) ↔ rank < owners := by
  rw [h.used_iff rank owner hrank _ (UInt64.le_refl _), ← h.pos_iff rank]
  omega

theorem reached_iff (h : Intervals table scope stem owners lengths) (known : stem ∈ scope.stems)
    (hrank : Ranked scope rank owner) (start_le : scope.start ≤ q) :
    Reached table scope ⟨stem, owner, q⟩ ↔
      rank ≤ owners ∧ q.toNat ≤ scope.start.toNat + lengths rank := by
  constructor
  · intro hreached
    obtain ⟨k, hk, hbefore⟩ := hreached.owner
    obtain rfl : k = rank := Ranked.inj hk hrank
    refine ⟨Nat.le_of_not_lt fun hlt => ?_, Nat.le_of_not_lt fun hlt => ?_⟩
    · -- The owner after the last that used any would have used the start.
      obtain ⟨next, hnext⟩ := hrank.exists_lower hlt
      exact Nat.lt_irrefl owners ((h.used_start_iff hnext).1 (hbefore owners hlt next hnext))
    · -- The sequence after the interval would be in use.
      have hsize := q.toNat_lt_size
      have hnext : (UInt64.ofNat (scope.start.toNat + lengths k)).toNat =
          scope.start.toNat + lengths k := UInt64.toNat_ofNat_of_lt (by omega)
      have hle : scope.start ≤ UInt64.ofNat (scope.start.toNat + lengths k) := by
        rw [UInt64.le_iff_toNat_le, hnext]
        omega
      have hused := hreached.below _ hle (by rw [UInt64.lt_iff_toNat_lt, hnext]; exact hlt)
      have := (h.used_iff k owner hrank _ hle).1 hused
      omega
  · intro hbounds
    obtain ⟨howners, hlength⟩ := hbounds
    refine ⟨known, ⟨rank, hrank, fun j hj o ho => ?_⟩, start_le, fun q' hstart hlt => ?_⟩
    · exact (h.used_start_iff ho).2 (Nat.lt_of_lt_of_le hj howners)
    · have hlt : q'.toNat < q.toNat := UInt64.lt_iff_toNat_lt.1 hlt
      exact (h.used_iff rank owner hrank q' hstart).2 (by omega)

/-- A pass leaves intervals, each of them longer by one, and a new one. -/
theorem after (h : Intervals table scope stem owners lengths) (known : stem ∈ scope.stems)
    (used : ∀ parts : Parts, Used table' parts.compose ↔
      Used table parts.compose ∨ Reached table scope parts) :
    Intervals table' scope stem (owners + 1) (grown owners lengths) := by
  refine ⟨fun rank owner hrank q start_le => ?_, fun rank => ?_⟩
  · have hused : Used table' (compose stem owner q) ↔ _ := used ⟨stem, owner, q⟩
    have hpos := h.pos_iff rank
    rw [hused, Parts.compose, h.used_iff rank owner hrank q start_le, h.reached_iff known hrank start_le,
      grown]
    split <;> omega
  · rw [grown]
    split <;> omega

end Intervals

theorem GapFreeBy.gapFree {owners : String → Nat} (h : GapFreeBy table scope owners) :
    GapFree table scope := by
  obtain ⟨lengths, intervals⟩ := h
  intro stem known
  have h := intervals stem known
  refine ⟨scope.placement.index.toNat + owners stem * scope.placement.parallelism.toNat,
    fun owner owns => ?_⟩
  obtain ⟨rank, hrank⟩ := Placement.owns_iff_exists.1 owns
  have hfirst : owner.toNat < scope.placement.index.toNat +
      owners stem * scope.placement.parallelism.toNat ↔ rank < owners stem := by
    rw [hrank, Nat.add_lt_add_iff_left, Nat.mul_lt_mul_right scope.placement.parallelism_pos]
  refine ⟨fun hlt => ⟨(h.used_start_iff hrank).2 (hfirst.1 hlt), fun q q' start_le hlt hused => ?_⟩,
    fun hle q start_le hused => ?_⟩
  · have hused' := (h.used_iff rank owner hrank q'
      (UInt64.le_trans start_le (UInt64.le_of_lt hlt))).1 hused
    exact (h.used_iff rank owner hrank q start_le).2 (Nat.lt_trans (UInt64.lt_iff_toNat_lt.1 hlt) hused')
  · have hused' := (h.used_iff rank owner hrank q start_le).1 hused
    have hle' : scope.start.toNat ≤ q.toNat := UInt64.le_iff_toNat_le.1 start_le
    have hpos := h.pos_iff rank
    omega

/-- No call asks for the last sequence, and no owner that used the start has no next one. -/
structure InRange (scope : Scope) (events : List Event) : Prop where
  sequence : ∀ parts : Parts, parts.compose ∈ calls events → parts.sequence.toNat + 1 < UInt64.size
  owner : ∀ stem owner epoch, .abort (compose stem owner scope.start) (.ok epoch) ∈ events →
    epoch.isUnused = false → owner.toNat + scope.placement.parallelism.toNat < UInt32.size

namespace InRange

variable {events' : List Event}

theorem of_subset (h : InRange scope events) (sub : events' ⊆ events) : InRange scope events' := by
  refine ⟨fun parts hcall => ?_, fun stem owner epoch hmem used => ?_⟩
  · obtain ⟨event, hevent, he⟩ := List.mem_filterMap.1 hcall
    exact h.sequence parts (List.mem_filterMap.2 ⟨event, sub hevent, he⟩)
  · exact h.owner stem owner epoch (sub hmem) used

theorem left (h : InRange scope (events ++ events')) : InRange scope events :=
  h.of_subset (List.subset_append_left _ _)

theorem right (h : InRange scope (events ++ events')) : InRange scope events' :=
  h.of_subset (List.subset_append_right _ _)

end InRange

/-- The calls of a walk over the owners below a rank. -/
def callsBelow (lengths : Nat → Nat) (rank : Nat) : Nat :=
  ((List.range rank).map fun k => lengths k + 1).sum

theorem callsBelow_succ (lengths : Nat → Nat) (rank : Nat) :
    callsBelow lengths (rank + 1) = callsBelow lengths rank + (lengths rank + 1) := by
  simp [callsBelow, List.range_succ, List.sum_append]

theorem callsBelow_grown (owners : Nat) (lengths : Nat → Nat) :
    callsBelow (grown owners lengths) (owners + 2) =
      callsBelow lengths (owners + 1) + (owners + 2) := by
  have hbelow (rank : Nat) (hle : rank ≤ owners + 1) :
      callsBelow (grown owners lengths) rank = callsBelow lengths rank + rank := by
    induction rank with
    | zero => rfl
    | succ rank ih =>
      rw [callsBelow_succ, callsBelow_succ, ih (by omega), grown, if_pos (by omega)]
      omega
  rw [callsBelow_succ, hbelow _ (Nat.le_refl _), grown, if_neg (by omega)]
  omega

/-- A stem takes one call more for each of its owners, one for a new owner, and one for what ends the walk. -/
theorem sum_callsBelow_grown (owners : String → Nat) (lengths : String → Nat → Nat)
    (stems : List String) :
    (stems.map fun stem => callsBelow (grown (owners stem) (lengths stem)) (owners stem + 2)).sum =
      (stems.map fun stem => callsBelow (lengths stem) (owners stem + 1)).sum +
        (stems.map fun stem => owners stem + 2).sum := by
  induction stems with
  | nil => rfl
  | cons stem stems ih =>
    simp only [List.map_cons, List.sum_cons]
    rw [ih, callsBelow_grown]
    omega

theorem Climb.length_calls {owner : UInt32} {sequence : UInt64} {answer : Except Fault Nat}
    (h : Climb stem owner sequence events answer) (ht : AnsweredBy table events)
    (inRange : InRange scope events) {bound : Nat}
    (used_iff : ∀ q, sequence ≤ q → (Used table (compose stem owner q) ↔ q.toNat < bound)) :
    (calls events).length = bound - sequence.toNat + 1 := by
  induction h with
  | failed sequence fault => cases ht _ _ List.mem_cons_self
  | unused sequence fresh =>
    cases ht _ _ List.mem_cons_self
    have hlt : ¬ sequence.toNat < bound := by
      rw [← used_iff sequence (UInt64.le_refl _), Used, fresh]
      exact Bool.noConfusion
    rw [calls_probeEvents, List.length_singleton]
    omega
  | top sequence _ last =>
    have hlt := inRange.sequence ⟨stem, owner, sequence⟩ List.mem_cons_self
    rw [nextSequence, if_pos hlt] at last
    cases last
  | @up sequence next epoch _ _ used step rest ih =>
    cases ht _ _ List.mem_cons_self
    have hlt : sequence.toNat < bound := (used_iff sequence (UInt64.le_refl _)).1 used
    have hnext := toNat_nextSequence step
    have hrest := ih ht.right inRange.right fun q hq =>
      used_iff q (UInt64.le_trans (UInt64.le_of_lt (lt_of_nextSequence step)) hq)
    rw [calls_append, calls_probeEvents, List.length_append, hrest, List.length_singleton]
    omega

theorem Climb.used_start {owner : UInt32} {sequence : UInt64} {used : Nat}
    (h : Climb stem owner sequence events (.ok used)) (pos : 0 < used) :
    ∃ epoch : Epoch, epoch.isUnused = false ∧
      .abort (compose stem owner sequence) (.ok epoch) ∈ events := by
  generalize ha : (Except.ok used : Except Fault Nat) = answer at h
  cases h with
  | failed => cases ha
  | unused =>
    cases ha
    exact absurd pos (Nat.lt_irrefl 0)
  | top _ hused => exact ⟨_, hused, List.mem_cons_self⟩
  | up hused => exact ⟨_, hused, List.mem_cons_self⟩

theorem Walk.length_calls {owner : UInt32} {answer : Except Fault Unit}
    (h : Walk scope stem owner events answer) (ht : AnsweredBy table events)
    (inRange : InRange scope events) {owners rank : Nat} {lengths : Nat → Nat}
    (intervals : Intervals table scope stem owners lengths) (hrank : Ranked scope rank owner)
    (hle : rank ≤ owners) :
    (calls events).length + callsBelow lengths rank = callsBelow lengths (owners + 1) := by
  have climbed {owner : UInt32} {rank : Nat} {events : List Event} {answer : Except Fault Nat}
      (climb : Climb stem owner scope.start events answer) (ht : AnsweredBy table events)
      (inRange : InRange scope events) (hrank : Ranked scope rank owner) :
      (calls events).length = lengths rank + 1 := by
    rw [climb.length_calls ht inRange (intervals.used_iff rank owner hrank), Nat.add_sub_cancel_left]
  induction h generalizing rank with
  | failed climb =>
    obtain ⟨_, h, -⟩ := climb.answer_of_table ht
    cases h
  | unused climb =>
    obtain ⟨used, h, hused⟩ := climb.answer_of_table ht
    cases h
    rw [intervals.used_start_iff hrank] at hused
    obtain rfl : rank = owners := by omega
    rw [callsBelow_succ, climbed climb ht inRange hrank]
    omega
  | top climb pos last =>
    obtain ⟨epoch, used, hmem⟩ := climb.used_start pos
    have hlt := inRange.left.owner _ _ _ hmem used
    rw [Placement.nextOwner, if_pos hlt] at last
    cases last
  | @up owner next events later used answer climb pos step rest ih =>
    obtain ⟨n, h, hused⟩ := climb.answer_of_table ht.left
    cases h
    have hlt : rank < owners := (intervals.used_start_iff hrank).1 (hused.1 pos)
    have hnext : Ranked scope (rank + 1) next := by
      rw [Ranked, Placement.toNat_nextOwner step, hrank, Nat.succ_mul, Nat.add_assoc]
    have hrest := ih ht.right.tail (inRange.right.of_subset (List.subset_cons_self _ _)) hnext hlt
    rw [callsBelow_succ] at hrest
    rw [calls_append, calls_note, List.length_append, climbed climb ht.left inRange.left hrank]
    omega

theorem Sweep.length_calls {stems : List String} {answer : Except Fault Unit}
    (h : Sweep scope stems events answer) (ht : AnsweredBy table events)
    (inRange : InRange scope events) {owners : String → Nat} {lengths : String → Nat → Nat}
    (intervals : ∀ stem ∈ stems, Intervals table scope stem (owners stem) (lengths stem)) :
    (calls events).length =
      (stems.map fun stem => callsBelow (lengths stem) (owners stem + 1)).sum := by
  have walked {stem : String} {events : List Event} {answer : Except Fault Unit}
      (walk : Walk scope stem scope.placement.index events answer) (ht : AnsweredBy table events)
      (inRange : InRange scope events)
      (intervals : Intervals table scope stem (owners stem) (lengths stem)) :
      (calls events).length = callsBelow (lengths stem) (owners stem + 1) := by
    have hfirst : Ranked scope 0 scope.placement.index := by simp [Ranked]
    exact walk.length_calls ht inRange intervals hfirst (Nat.zero_le _)
  induction h with
  | done => rfl
  | failed walk => cases walk.answer_of_table ht
  | next walk _ ih =>
    obtain ⟨hfirst, hrest⟩ := List.forall_mem_cons.1 intervals
    rw [calls_append, List.length_append, walked walk ht.left inRange.left hfirst,
      ih ht.right inRange.right hrest, List.map_cons, List.sum_cons]

/-- A pass is in range where there is room for one more owner, and for one more sequence of each. -/
theorem InRange.of_intervals {client : Client σ} {s : σ}
    (ht : AnsweredBy table (run client scope s).events) {owners : String → Nat}
    {lengths : String → Nat → Nat}
    (intervals : ∀ stem ∈ scope.stems, Intervals table scope stem (owners stem) (lengths stem))
    (sequences : ∀ stem ∈ scope.stems, ∀ rank ≤ owners stem,
      scope.start.toNat + lengths stem rank + 1 < UInt64.size)
    (room : ∀ stem ∈ scope.stems, scope.placement.index.toNat +
      owners stem * scope.placement.parallelism.toNat < UInt32.size) :
    InRange scope (run client scope s).events := by
  refine ⟨fun parts hcall => ?_, fun stem owner epoch hmem used => ?_⟩
  · have hreached := (mem_calls_iff ht parts).1 hcall
    obtain ⟨rank, hrank, -⟩ := hreached.owner
    obtain ⟨hle, hlength⟩ := ((intervals _ hreached.known).reached_iff hreached.known hrank
      hreached.start_le).1 hreached
    have := sequences _ hreached.known rank hle
    omega
  · have hcall : compose stem owner scope.start ∈ (run client scope s).abortCalls :=
      List.mem_filterMap.2 ⟨_, hmem, rfl⟩
    have hreached := (mem_calls_iff ht ⟨stem, owner, scope.start⟩).1 hcall
    obtain ⟨rank, hrank, -⟩ := hreached.owner
    have hused : Used table (compose stem owner scope.start) := by
      rw [Used, ← Except.ok.inj (ht _ _ hmem)]
      exact used
    have hlt : rank < owners stem := ((intervals stem hreached.known).used_start_iff hrank).1 hused
    have hstride : (rank + 1) * scope.placement.parallelism.toNat ≤
        owners stem * scope.placement.parallelism.toNat := Nat.mul_le_mul_right _ hlt
    have := room stem hreached.known
    rw [Nat.succ_mul] at hstride
    simp only at hrank
    omega

def afterPasses (lists : Bool) (scope : Scope) (b : Broker) : Nat → Broker
  | 0 => b
  | m + 1 => (Strategy.probing.pass (Broker.clientWith lists) scope (afterPasses lists scope b m)).state

section Passes

variable {b : Broker} {lists : Bool} {owners : String → Nat} {lengths : String → Nat → Nat}

theorem used_pass_iff (reachable : b.Reachable) (hb : b.abortsLeft = none) (parts : Parts) :
    Used (Strategy.probing.pass (Broker.clientWith lists) scope b).state.table parts.compose ↔
      Used b.table parts.compose ∨ Reached b.table scope parts := by
  rw [Broker.state_clientWith hb, Broker.used_fenceAll_iff reachable.sound (Strategy.nodup_calls _ _ _ _)]
  exact or_congr_right (mem_calls_iff (Broker.answeredBy_clientWith hb .probing lists scope) parts)

/-- Where the owners left no gaps, all ids of the scope that are in use are called. -/
theorem mem_calls_of_used (hb : b.abortsLeft = none) (gapFree : GapFree b.table scope) {parts : Parts}
    (claims : scope.claims parts = true) (start_le : scope.start ≤ parts.sequence)
    (used : Used b.table parts.compose) :
    parts.compose ∈ (Strategy.probing.pass (Broker.clientWith lists) scope b).abortCalls :=
  (mem_calls_iff (Broker.answeredBy_clientWith hb .probing lists scope) parts).2
    (gapFree.reached claims start_le used)

/-- A pass leaves nothing open that the next one would meet. -/
theorem closed_of_mem_calls (reachable : b.Reachable) (hb : b.abortsLeft = none)
    (gapFree : GapFree b.table scope) :
    let after := (Strategy.probing.pass (Broker.clientWith lists) scope b).state
    ∀ id ∈ (Strategy.probing.pass (Broker.clientWith lists) scope after).abortCalls,
      after.isOpen id.text = false := by
  intro after id hid
  have hstate : after = b.fenceAll _ := Broker.state_clientWith hb .probing lists scope
  obtain ⟨parts, rfl, hstem, howns, start_le⟩ :=
    (ascend_run (Broker.clientWith lists) scope after).exists_of_mem hid
  refine Bool.eq_false_iff.2 fun hopen => ?_
  rw [hstate, Broker.isOpen_fenceAll] at hopen
  have claims : scope.claims parts = true := Scope.claims_iff.2 ⟨hstem, Placement.owns_iff.1 howns⟩
  exact hopen.2 (mem_calls_of_used hb gapFree claims start_le (reachable.used_of_isOpen hopen.1))

/-- What holds of a broker before each of the passes. -/
structure Ready (scope : Scope) (owners : String → Nat) (b : Broker) : Prop where
  reachable : b.Reachable
  aborts : b.abortsLeft = none
  gapFree : GapFreeBy b.table scope owners

namespace Ready

theorem pass (h : Ready scope owners b) : Ready scope (fun stem => owners stem + 1)
    (Strategy.probing.pass (Broker.clientWith lists) scope b).state := by
  obtain ⟨lengths, intervals⟩ := h.gapFree
  refine ⟨?_, ?_, fun stem => grown (owners stem) (lengths stem), fun stem known => ?_⟩
  · exact h.reachable.of_transcript (Broker.transcript_of_clientWith (pass_truthful _ scope .probing b))
  · rw [Broker.state_clientWith h.aborts, Broker.abortsLeft_fenceAll, h.aborts]
  · exact (intervals stem known).after known (used_pass_iff h.reachable h.aborts)

theorem afterPasses (h : Ready scope owners b) (m : Nat) :
    Ready scope (fun stem => owners stem + m) (afterPasses lists scope b m) := by
  induction m with
  | zero => exact h
  | succ m ih => exact ih.pass

theorem length_calls (h : Ready scope owners b) {lengths : String → Nat → Nat}
    (intervals : ∀ stem ∈ scope.stems, Intervals b.table scope stem (owners stem) (lengths stem))
    (inRange : InRange scope (Strategy.probing.pass (Broker.clientWith lists) scope b).events) :
    (Strategy.probing.pass (Broker.clientWith lists) scope b).abortCalls.length =
      (scope.stems.elems.map fun stem => callsBelow (lengths stem) (owners stem + 1)).sum :=
  (sweep_run (Broker.clientWith lists) scope b).length_calls
    (Broker.answeredBy_clientWith h.aborts .probing lists scope) inRange intervals

theorem length_calls_next (h : Ready scope owners b) :
    let first := Strategy.probing.pass (Broker.clientWith lists) scope b
    let second := Strategy.probing.pass (Broker.clientWith lists) scope first.state
    InRange scope first.events → InRange scope second.events → second.abortCalls.length =
      first.abortCalls.length + (scope.stems.elems.map fun stem => owners stem + 2).sum := by
  intro first second inRange inRange'
  obtain ⟨lengths, intervals⟩ := h.gapFree
  have grows (stem : String) (known : stem ∈ scope.stems) :
      Intervals first.state.table scope stem (owners stem + 1) (grown (owners stem) (lengths stem)) :=
    (intervals stem known).after known (used_pass_iff h.reachable h.aborts)
  calc second.abortCalls.length
    _ = (scope.stems.elems.map fun stem =>
          callsBelow (grown (owners stem) (lengths stem)) (owners stem + 2)).sum :=
      h.pass.length_calls grows inRange'
    _ = _ := by rw [sum_callsBelow_grown, ← h.length_calls intervals inRange]

end Ready

/-- Passes over a scope whose owners left no gaps all succeed, and leave no gaps. All but the first leave the
open transactions as they are. While the ids are in range, each pass makes one call more than the last for
each owner that used any, and two for each stem. The passes are counted from zero. -/
theorem passes_grow (reachable : b.Reachable) (hb : b.abortsLeft = none) (lists : Bool) (scope : Scope)
    (owners : String → Nat) (gapFree : GapFreeBy b.table scope owners) (m : Nat) :
    let before := afterPasses lists scope b
    let pass m := Strategy.probing.pass (Broker.clientWith lists) scope (before m)
    (pass m).answer = .ok () ∧
    GapFreeBy (before m).table scope (fun stem => owners stem + m) ∧
    (0 < m → (pass m).state.fenced = (before m).fenced ∧ (pass m).state.opened = (before m).opened) ∧
    (InRange scope (pass m).events → InRange scope (pass (m + 1)).events →
      (pass (m + 1)).abortCalls.length = (pass m).abortCalls.length +
        (scope.stems.elems.map fun stem => owners stem + m + 2).sum) := by
  intro before pass
  have ready (m : Nat) : Ready scope (fun stem => owners stem + m) (before m) :=
    Ready.afterPasses ⟨reachable, hb, gapFree⟩ m
  refine ⟨?_, (ready m).gapFree, fun pos => ?_, (ready m).length_calls_next⟩
  · exact answer_of_table (Broker.answeredBy_clientWith (ready m).aborts .probing lists scope)
  · obtain ⟨m, rfl⟩ := Nat.exists_eq_succ_of_ne_zero (Nat.ne_of_gt pos)
    have hstate : (pass (m + 1)).state = (before (m + 1)).fenceAll (pass (m + 1)).abortCalls :=
      Broker.state_clientWith (ready (m + 1)).aborts .probing lists scope
    rw [hstate]
    refine (Broker.fenceAll_idle_iff (Strategy.probing.nodup_calls _ _ _)).2 ?_
    exact closed_of_mem_calls (ready m).reachable (ready m).aborts (ready m).gapFree.gapFree

theorem intervals_stopped : Intervals Restart.stopped.table Restart.successor "app" 2
    fun rank => Restart.usedBy (2 * rank) := by
  refine ⟨fun rank owner hrank q _ => ?_, fun rank => ?_⟩
  · have howner : owner.toNat = 0 + rank * 2 := hrank
    have hstart : Restart.successor.start.toNat = 0 := rfl
    rw [Restart.used_stopped_iff, howner, hstart, Nat.zero_add, Nat.zero_add, Nat.mul_comm]
  · rw [Restart.usedBy_pos_iff]
    omega

/-- Three subtasks stopped without a gap. The first of two that take over makes eight calls to recover, then
twelve, and closes nothing more. -/
theorem passes_grow_downscaled :
    let b := Restart.stopped
    let scope := Restart.successor
    let before := afterPasses true scope b
    let pass m := Strategy.probing.pass (Broker.clientWith true) scope (before m)
    b.Reachable ∧ b.abortsLeft = none ∧ GapFreeBy b.table scope (fun _ => 2) ∧
      InRange scope (pass 0).events ∧ InRange scope (pass 1).events ∧
      (pass 0).abortCalls.length = 8 ∧ (pass 1).abortCalls.length = 12 ∧
      (pass 1).state.fenced = (pass 0).state.fenced := by
  intro b scope before pass
  have reachable : b.Reachable := Restart.reachable_stopped
  have hb : b.abortsLeft = none := rfl
  let lengths (_ : String) (rank : Nat) : Nat := Restart.usedBy (2 * rank)
  have intervals : ∀ stem ∈ scope.stems, Intervals b.table scope stem 2 (lengths stem) := by
    intro stem hstem
    rw [List.mem_singleton.1 (Ascending.mem_ofList.1 hstem)]
    exact intervals_stopped
  have gapFree : GapFreeBy b.table scope (fun _ => 2) := ⟨lengths, intervals⟩
  have ready : Ready scope (fun _ => 2) b := ⟨reachable, hb, gapFree⟩
  have inRange : InRange scope (pass 0).events :=
    .of_intervals (Broker.answeredBy_clientWith hb .probing true scope) intervals
      (fun _ _ => by decide) fun _ _ => by decide
  have inRange' : InRange scope (pass 1).events :=
    .of_intervals (Broker.answeredBy_clientWith ready.pass.aborts .probing true scope)
      (fun stem known => (intervals stem known).after known (used_pass_iff reachable hb))
      (fun _ _ => by decide) fun _ _ => by decide
  obtain ⟨-, -, -, hgrows⟩ := passes_grow reachable hb true scope (fun _ => 2) gapFree 0
  obtain ⟨-, -, hidle, -⟩ := passes_grow reachable hb true scope (fun _ => 2) gapFree 1
  have hfirst : (pass 0).abortCalls.length = 8 := ready.length_calls intervals inRange
  refine ⟨reachable, hb, gapFree, inRange, inRange', hfirst, ?_, (hidle Nat.one_pos).1⟩
  rw [hgrows inRange inRange', hfirst]
  rfl

end Passes

end Probing

end SinkFencing
