import SinkFencing.Proofs.BrokerReachable
import SinkFencing.Proofs.ProbingEffect

namespace SinkFencing

open TxnId

namespace Probing

variable {table table' : TxnId → Epoch} {scope : Scope} {parts : Parts}

theorem Reached.claims (h : Reached table scope parts) : scope.claims parts = true := by
  obtain ⟨k, hk, -⟩ := h.owner
  have howns := Placement.owns_iff_exists.2 ⟨k, hk⟩
  exact Scope.claims_iff.2 ⟨h.known, Placement.owns_iff.1 howns⟩

/-- A pass over the scope asks for the first of these ids before it comes to the second. -/
inductive OnWay (scope : Scope) : Parts → Parts → Prop
  | owner {stem : String} {o owner : UInt32} {sequence : UInt64}
      (owns : scope.placement.owns o = true) (lower : o < owner) :
      OnWay scope ⟨stem, o, scope.start⟩ ⟨stem, owner, sequence⟩
  | sequence {stem : String} {owner : UInt32} {q sequence : UInt64}
      (start_le : scope.start ≤ q) (lower : q < sequence) :
      OnWay scope ⟨stem, owner, q⟩ ⟨stem, owner, sequence⟩

namespace OnWay

variable {x y z : Parts}

theorem irrefl (x : Parts) : ¬ OnWay scope x x := by
  intro h
  cases h with
  | owner _ lower => exact UInt32.lt_irrefl _ lower
  | sequence _ lower => exact UInt64.lt_irrefl _ lower

theorem trans (h : OnWay scope x y) (h' : OnWay scope y z) : OnWay scope x z := by
  cases h with
  | owner owns lower =>
    cases h' with
    | owner _ lower' => exact .owner owns (UInt32.lt_trans lower lower')
    | sequence _ _ => exact .owner owns lower
  | sequence start_le lower =>
    cases h' with
    | owner _ _ => exact absurd (UInt64.lt_of_le_of_lt start_le lower) (UInt64.lt_irrefl _)
    | sequence _ lower' => exact .sequence start_le (UInt64.lt_trans lower lower')

/-- Of two ids on the way to a third, one is on the way to the other. -/
theorem connected (h : OnWay scope x z) (h' : OnWay scope y z) (hne : x ≠ y) :
    OnWay scope x y ∨ OnWay scope y x := by
  cases h with
  | @owner stem o owner _ owns lower =>
    cases h' with
    | @owner _ o' _ _ owns' lower' =>
      have ho : o ≠ o' := fun e => hne (by rw [e])
      rcases Nat.lt_or_gt_of_ne fun e => ho (UInt32.toNat_inj.1 e) with hlt | hlt
      · exact .inl (.owner owns (UInt32.lt_iff_toNat_lt.2 hlt))
      · exact .inr (.owner owns' (UInt32.lt_iff_toNat_lt.2 hlt))
    | sequence _ _ => exact .inl (.owner owns lower)
  | @sequence stem owner q _ start_le lower =>
    cases h' with
    | owner owns' lower' => exact .inr (.owner owns' lower')
    | @sequence _ _ q' _ start_le' lower' =>
      have hq : q ≠ q' := fun e => hne (by rw [e])
      rcases Nat.lt_or_gt_of_ne fun e => hq (UInt64.toNat_inj.1 e) with hlt | hlt
      · exact .inl (.sequence start_le (UInt64.lt_iff_toNat_lt.2 hlt))
      · exact .inr (.sequence start_le' (UInt64.lt_iff_toNat_lt.2 hlt))

theorem candidate (h : OnWay scope x y) (claims : scope.claims y = true) :
    scope.claims x = true ∧ scope.start ≤ x.sequence := by
  obtain ⟨known, howner⟩ := Scope.claims_iff.1 claims
  cases h with
  | owner owns _ => exact ⟨Scope.claims_iff.2 ⟨known, Placement.owns_iff.1 owns⟩, UInt64.le_refl _⟩
  | sequence start_le _ => exact ⟨Scope.claims_iff.2 ⟨known, howner⟩, start_le⟩

end OnWay

/-- A pass reaches an id of its scope if everything on the way was in use. -/
theorem reached_iff : Reached table scope parts ↔
    scope.claims parts = true ∧ scope.start ≤ parts.sequence ∧
      ∀ earlier, OnWay scope earlier parts → Used table earlier.compose := by
  constructor
  · intro h
    refine ⟨h.claims, h.start_le, fun earlier way => ?_⟩
    obtain ⟨k, hk, hbefore⟩ := h.owner
    cases way with
    | @owner _ o owner _ owns lower =>
      obtain ⟨j, hj⟩ := Placement.owns_iff_exists.1 owns
      have hlt : o.toNat < owner.toNat := UInt32.lt_iff_toNat_lt.1 lower
      have hjk : j < k := by
        apply Nat.lt_of_mul_lt_mul_right (a := scope.placement.parallelism.toNat)
        simp only at hk
        omega
      exact hbefore j hjk o hj
    | sequence start_le lower => exact h.below _ start_le lower
  · intro h
    obtain ⟨claims, start_le, hused⟩ := h
    obtain ⟨known, howner⟩ := Scope.claims_iff.1 claims
    obtain ⟨k, hk⟩ := Placement.owns_iff_exists.1 (Placement.owns_iff.2 howner)
    refine ⟨known, ⟨k, hk, fun j hj o ho => ?_⟩, start_le, fun q hq hlt => ?_⟩
    · have hstride : j * scope.placement.parallelism.toNat < k * scope.placement.parallelism.toNat :=
        Nat.mul_lt_mul_of_pos_right hj scope.placement.parallelism_pos
      have lower : o < parts.owner := UInt32.lt_iff_toNat_lt.2 (by omega)
      exact hused ⟨parts.stem, o, scope.start⟩
        (.owner (Placement.owns_iff_exists.2 ⟨j, ho⟩) lower)
    · exact hused ⟨parts.stem, parts.owner, q⟩ (.sequence hq hlt)

/-- From the start on, each stem was used by the first so many owners of the placement, and by each of them
without a gap. -/
def GapFree (table : TxnId → Epoch) (scope : Scope) : Prop :=
  ∀ stem ∈ scope.stems, ∃ owners : Nat, ∀ owner, scope.placement.owns owner = true →
    (owner.toNat < owners → Used table (.compose stem owner scope.start) ∧
      ∀ q q', scope.start ≤ q → q < q' → Used table (.compose stem owner q') →
        Used table (.compose stem owner q)) ∧
    (owners ≤ owner.toNat → ∀ q, scope.start ≤ q → ¬ Used table (.compose stem owner q))

theorem GapFree.used_of_onWay (gapFree : GapFree table scope) (claims : scope.claims parts = true)
    (start_le : scope.start ≤ parts.sequence) (used : Used table parts.compose) {earlier : Parts}
    (way : OnWay scope earlier parts) : Used table earlier.compose := by
  obtain ⟨known, howner⟩ := Scope.claims_iff.1 claims
  obtain ⟨owners, hgapFree⟩ := gapFree parts.stem known
  obtain ⟨hfull, hnone⟩ := hgapFree parts.owner (Placement.owns_iff.2 howner)
  have hlt : parts.owner.toNat < owners := by
    apply Nat.lt_of_not_le
    intro hle
    exact hnone hle parts.sequence start_le used
  cases way with
  | @owner _ o _ _ owns lower =>
    -- A lower owner used the start as well.
    exact ((hgapFree o owns).1 (Nat.lt_trans (UInt32.lt_iff_toNat_lt.1 lower) hlt)).1
  | sequence hstart lower => exact (hfull hlt).2 _ _ hstart lower used

/-- Where the owners left no gap, a pass reaches all the used ids of its scope. -/
theorem GapFree.reached (gapFree : GapFree table scope) (claims : scope.claims parts = true)
    (start_le : scope.start ≤ parts.sequence) (used : Used table parts.compose) :
    Reached table scope parts :=
  reached_iff.2 ⟨claims, start_le, fun _ way => gapFree.used_of_onWay claims start_le used way⟩

theorem Reached.mono (used : ∀ parts : Parts, scope.claims parts = true →
      Used table parts.compose → Used table' parts.compose)
    (h : Reached table scope parts) : Reached table' scope parts := by
  obtain ⟨claims, start_le, hused⟩ := reached_iff.1 h
  refine reached_iff.2 ⟨claims, start_le, fun earlier way => ?_⟩
  exact used earlier (way.candidate claims).1 (hused earlier way)

/-- What is reached depends only on the ids that the scope claims. -/
theorem Reached.congr (same : ∀ parts : Parts, scope.claims parts = true →
      table' parts.compose = table parts.compose)
    (h : Reached table scope parts) : Reached table' scope parts := by
  apply h.mono
  intro parts claims hused
  rw [Used, same parts claims]
  exact hused

/-- A table in which a pass has used what it reached lets the next pass past one gap. -/
theorem reached_again_iff
    (after : ∀ parts : Parts, Used table' parts.compose ↔
      Used table parts.compose ∨ Reached table scope parts) :
    Reached table' scope parts ↔ scope.claims parts = true ∧ scope.start ≤ parts.sequence ∧
      ∀ x y, OnWay scope x parts → OnWay scope y parts → ¬ Used table x.compose →
        ¬ Used table y.compose → x = y := by
  rw [reached_iff]
  refine and_congr_right fun claims => and_congr_right fun _ => ?_
  constructor
  · intro hused x y hx hy hxu hyu
    -- Both were reached, so neither can be on the way to the other.
    have reached (z : Parts) (way : OnWay scope z parts) (hz : ¬ Used table z.compose) :
        Reached table scope z := ((after z).1 (hused z way)).resolve_left hz
    refine Classical.byContradiction fun hne => ?_
    rcases hx.connected hy hne with way | way
    · exact hxu ((reached_iff.1 (reached y hy hyu)).2.2 x way)
    · exact hyu ((reached_iff.1 (reached x hx hxu)).2.2 y way)
  · intro honly x hx
    rw [after]
    by_cases hxu : Used table x.compose
    · exact .inl hxu
    · obtain ⟨hclaims, hstart⟩ := hx.candidate claims
      refine .inr (reached_iff.2 ⟨hclaims, hstart, fun y hy => ?_⟩)
      refine Classical.byContradiction fun hyu => ?_
      have he : y = x := honly y x (hy.trans hx) hx hyu hxu
      rw [he] at hy
      exact OnWay.irrefl x hy

end Probing

namespace Broker

theorem used_fenceAll_iff {b : Broker} (sound : Sound b) {ids : List TxnId} (nodup : ids.Nodup)
    (id : TxnId) : Used (b.fenceAll ids).table id ↔ Used b.table id ∨ id ∈ ids := by
  rw [Used, table, epochOf_fenceAll nodup]
  by_cases h : id ∈ ids
  · have hnext := Epoch.isUnused_eq_false (Epoch.next_pos (sound.epoch_nonneg id.text))
    rw [if_pos h]
    exact iff_of_true hnext (.inr h)
  · rw [if_neg h]
    exact ⟨.inl, fun hused => hused.resolve_right h⟩

theorem not_used_empty (id : TxnId) : ¬ Used empty.table id := Bool.noConfusion

theorem used_begin_iff {b : Broker} (sound : Sound b) (id id' : TxnId) (topic : Option String) :
    Used (b.begin id.text topic).table id' ↔ Used b.table id' ∨ id' = id := by
  rw [Used, table, epochOf_begin]
  by_cases h : id' = id
  · have hnext := Epoch.isUnused_eq_false (Epoch.next_pos (sound.epoch_nonneg id.text))
    rw [if_pos (congrArg TxnId.text h.symm)]
    exact iff_of_true hnext (.inr h)
  · rw [if_neg fun he => h (TxnId.ext_of_text he).symm]
    exact ⟨.inl, fun hused => hused.resolve_right h⟩

theorem used_beginAll_iff {b : Broker} (sound : Sound b) (topic : Option String) (ids : List TxnId)
    (id : TxnId) : Used (b.beginAll topic ids).table id ↔ Used b.table id ∨ id ∈ ids := by
  induction ids generalizing b with
  | nil => simp [beginAll]
  | cons first ids ih =>
    have hrest : Used ((b.begin first.text topic).beginAll topic ids).table id ↔ _ :=
      ih (sound.begin first.text topic)
    rw [used_begin_iff sound, or_assoc, ← List.mem_cons] at hrest
    exact hrest

theorem used_pass_iff {b : Broker} (reachable : b.Reachable) (hb : b.abortsLeft = none)
    (scope : Scope) (parts : Parts) :
    Used (Strategy.probing.pass client scope b).state.table parts.compose ↔
      Used b.table parts.compose ∨ Probing.Reached b.table scope parts := by
  rw [state_pass hb, used_fenceAll_iff reachable.sound (Strategy.nodup_calls _ _ _ _),
    Probing.compose_mem_calls_iff hb]

end Broker

end SinkFencing
