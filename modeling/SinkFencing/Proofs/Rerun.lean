import SinkFencing.Proofs.ListingEffect
import SinkFencing.Proofs.ProbingRestart

namespace SinkFencing

open TxnId

namespace Broker

variable {b : Broker} {ids : List TxnId}

theorem fenced_fenceAll_eq_iff (nodup : ids.Nodup) :
    (b.fenceAll ids).fenced = b.fenced ↔ ∀ id ∈ ids, b.isOpen id.text = false := by
  rw [fenced_fenceAll nodup, List.append_right_eq_self, List.filter_eq_nil_iff]
  constructor
  · intro h id hid
    exact Bool.eq_false_iff.2 (h id.text (List.mem_map_of_mem hid))
  · intro h name hname
    obtain ⟨id, hid, he⟩ := List.mem_map.1 hname
    rw [← he, h id hid]
    exact Bool.false_ne_true

theorem opened_fenceAll_of_closed (h : ∀ id ∈ ids, b.isOpen id.text = false) :
    (b.fenceAll ids).opened = b.opened := by
  rw [opened_fenceAll]
  refine List.filter_eq_self.2 fun entry hentry => decide_eq_true fun hmem => ?_
  have hopen : b.isOpen entry.1 = true := Assoc.isSome_find?_of_mem hentry
  rw [h ⟨entry.1⟩ hmem] at hopen
  cases hopen

/-- Fencing leaves the open transactions as they are just if it meets none of them. -/
theorem fenceAll_idle_iff (nodup : ids.Nodup) :
    ((b.fenceAll ids).fenced = b.fenced ∧ (b.fenceAll ids).opened = b.opened) ↔
      ∀ id ∈ ids, b.isOpen id.text = false := by
  constructor
  · intro h
    exact (fenced_fenceAll_eq_iff nodup).1 h.1
  · intro h
    exact ⟨(fenced_fenceAll_eq_iff nodup).2 h, opened_fenceAll_of_closed h⟩

end Broker

namespace Probing

variable {table table' : TxnId → Epoch} {scope : Scope} {parts : Parts}

/-- The scope claims the id, and of the ids on the way to it just one was never used. -/
structure Masked (table : TxnId → Epoch) (scope : Scope) (parts : Parts) : Prop where
  claims : scope.claims parts = true
  start_le : scope.start ≤ parts.sequence
  gap : ∃ gap, OnWay scope gap parts ∧ ¬ Used table gap.compose ∧
    ∀ other, OnWay scope other parts → ¬ Used table other.compose → other = gap

/-- What only the second of two passes reaches. -/
theorem masked_iff (after : ∀ parts : Parts, Used table' parts.compose ↔
      Used table parts.compose ∨ Reached table scope parts) :
    Masked table scope parts ↔ Reached table' scope parts ∧ ¬ Reached table scope parts := by
  rw [reached_again_iff after, reached_iff]
  constructor
  · intro h
    obtain ⟨gap, way, hgap, honly⟩ := h.gap
    refine ⟨⟨h.claims, h.start_le, fun x y hx hy hxu hyu => ?_⟩, fun h => hgap (h.2.2 gap way)⟩
    rw [honly x hx hxu, honly y hy hyu]
  · intro h
    obtain ⟨⟨claims, start_le, honly⟩, hnot⟩ := h
    have hgap : ∃ gap, OnWay scope gap parts ∧ ¬ Used table gap.compose := by
      refine Classical.byContradiction fun hnone => hnot ⟨claims, start_le, fun earlier way => ?_⟩
      exact Classical.byContradiction fun hunused => hnone ⟨earlier, way, hunused⟩
    obtain ⟨gap, way, hunused⟩ := hgap
    exact ⟨claims, start_le, gap, way, hunused,
      fun other hother h => honly other gap hother way h hunused⟩

theorem not_masked_of_contiguous (contiguous : Restart.Contiguous table scope.stems scope.start)
    (used : Used table parts.compose) : ¬ Masked table scope parts := by
  intro h
  obtain ⟨gap, way, hgap, -⟩ := h.gap
  exact hgap (contiguous.gapFree.used_of_onWay h.claims h.start_le used way)

end Probing

theorem Listing.no_target_after {b : Broker} {scope : Scope}
    (legible : Legible b scope.stems scope.topics) (id : TxnId) :
    ¬ Target (Strategy.listing.pass Broker.client scope b).state scope id := by
  intro h
  have hlisted := h.listed
  rw [Broker.state_pass legible.aborts, Broker.listed_fenceAll] at hlisted
  -- It was a target of the first pass, which called it.
  exact hlisted.2 (((Listing.mem_calls_iff legible).2 id).2 ⟨hlisted.1, h.claimed, h.not_pending⟩)

namespace Strategy

/-- Whether one pass of the strategy over the scope leaves no transaction for a second. -/
def Settles (strategy : Strategy) (b : Broker) (scope : Scope) : Prop :=
  match strategy with
  | .listing => True
  | .probing => ∀ parts : Parts, b.isOpen parts.compose.text = true →
      ¬ Probing.Masked b.table scope parts

variable {b : Broker} {scope : Scope}

/-- Where the owners left no gap, one pass settles all that the scope can reach. -/
theorem settles_of_contiguous (reachable : b.Reachable)
    (contiguous : Restart.Contiguous b.table scope.stems scope.start) :
    Strategy.probing.Settles b scope := by
  intro parts hopen
  exact Probing.not_masked_of_contiguous contiguous (reachable.used_of_isOpen hopen)

/-- The second of two probing passes closes what was masked from the first. -/
theorem closes_masked (reachable : b.Reachable) (hb : b.abortsLeft = none) {parts : Parts}
    (hopen : b.isOpen parts.compose.text = true) (masked : Probing.Masked b.table scope parts) :
    let first := Strategy.probing.pass Broker.client scope b
    let second := Strategy.probing.pass Broker.client scope first.state
    first.state.isOpen parts.compose.text = true ∧ parts.compose ∈ second.abortCalls := by
  intro first second
  have hb' : first.state.abortsLeft = none := Broker.abortsLeft_pass hb .probing scope
  obtain ⟨hreached, hnot⟩ :=
    (Probing.masked_iff (Broker.used_pass_iff reachable hb scope)).1 masked
  refine ⟨?_, (Probing.compose_mem_calls_iff hb' scope parts).2 hreached⟩
  rw [Broker.state_pass hb, Broker.isOpen_fenceAll, Probing.compose_mem_calls_iff hb]
  exact ⟨hopen, hnot⟩

theorem exists_masked (reachable : b.Reachable) (hb : b.abortsLeft = none) {id : TxnId} :
    let first := Strategy.probing.pass Broker.client scope b
    let second := Strategy.probing.pass Broker.client scope first.state
    id ∈ second.abortCalls → first.state.isOpen id.text = true → ∃ parts : Parts,
      b.isOpen parts.compose.text = true ∧ Probing.Masked b.table scope parts := by
  intro first second hcall hopen
  have hb' : first.state.abortsLeft = none := Broker.abortsLeft_pass hb .probing scope
  obtain ⟨parts, he, hreached⟩ := (Probing.mem_calls_pass_iff hb' scope id).1 hcall
  rw [Broker.state_pass hb, Broker.isOpen_fenceAll, he, Probing.compose_mem_calls_iff hb] at hopen
  exact ⟨parts, hopen.1, (Probing.masked_iff (Broker.used_pass_iff reachable hb scope)).2
    ⟨hreached, hopen.2⟩⟩

/-- A pass that is run again succeeds, and leaves the open transactions as they are just if the strategy
settles them at once. Listing does, and calls nothing the second time. -/
theorem rerun_settled_iff (strategy : Strategy) (b : Broker) (scope : Scope)
    (reachable : b.Reachable) (hb : b.abortsLeft = none) (hl : b.listingFails = false)
    (succeeded : (strategy.pass Broker.client scope b).answer = .ok ()) :
    let first := strategy.pass Broker.client scope b
    let second := strategy.pass Broker.client scope first.state
    second.answer = .ok () ∧
    ((second.state.fenced = first.state.fenced ∧ second.state.opened = first.state.opened) ↔
      strategy.Settles b scope) ∧
    (strategy = .listing → second.abortCalls = [] ∧ second.state.epochs = first.state.epochs) := by
  intro first second
  have hb' : first.state.abortsLeft = none := Broker.abortsLeft_pass hb strategy scope
  have hstate : second.state = first.state.fenceAll second.abortCalls :=
    Broker.state_pass hb' strategy scope
  have idle := Broker.fenceAll_idle_iff (b := first.state)
    (strategy.nodup_calls Broker.client scope first.state)
  rw [← Broker.state_pass hb' strategy scope] at idle
  cases strategy with
  | probing =>
    refine ⟨Probing.answer_pass hb' scope, idle.trans ?_, fun h => by cases h⟩
    constructor
    · intro hclosed parts hopen masked
      obtain ⟨hleft, hcall⟩ := closes_masked reachable hb hopen masked
      rw [hclosed _ hcall] at hleft
      cases hleft
    · intro settles id hcall
      refine Bool.eq_false_iff.2 fun hleft => ?_
      obtain ⟨parts, hopen, masked⟩ := exists_masked reachable hb hcall hleft
      exact settles parts hopen masked
  | listing =>
    have legible := Listing.legible_of_answer reachable hb hl scope succeeded
    obtain ⟨hanswer, hcalls⟩ := Listing.mem_calls_iff (legible.pass .listing scope)
    have hnone : second.abortCalls = [] := by
      refine List.eq_nil_iff_forall_not_mem.2 fun id hid => ?_
      exact Listing.no_target_after legible id ((hcalls id).1 hid)
    rw [hnone] at hstate
    refine ⟨hanswer, ?_, fun _ => ⟨hnone, ?_⟩⟩
    · rw [hstate]
      exact iff_of_true ⟨rfl, rfl⟩ trivial
    · rw [hstate]
      rfl

/-- Three subtasks stopped without a gap. The first of two that take over can run either pass twice without
harm: the first pass closes what the third has left, and the second nothing. -/
theorem rerun_settled_downscaled :
    let b := Restart.stopped
    let scope := Restart.successor
    let first (strategy : Strategy) := strategy.pass Broker.client scope b
    let second (strategy : Strategy) := strategy.pass Broker.client scope (first strategy).state
    b.Reachable ∧ b.isOpen (compose "app" 2 1).text = true ∧
      (∀ strategy, (first strategy).answer = .ok () ∧
        (first strategy).state.isOpen (compose "app" 2 1).text = false) ∧
      (second .probing).state.opened = (first .probing).state.opened ∧
      (second .listing).abortCalls = [] := by
  intro b scope first second
  have reachable : b.Reachable := Restart.reachable_stopped
  have hb : b.abortsLeft = none := rfl
  have hl : b.listingFails = false := rfl
  have legible : Listing.Legible b scope.stems scope.topics :=
    (Listing.legible_beginAll Restart.begun (some "orders") _ _).commit _
  have probes : (first .probing).answer = .ok () := Probing.answer_pass hb scope
  have lists : (first .listing).answer = .ok () := (Listing.mem_calls_iff legible).1
  have hopen : b.isOpen (compose "app" 2 1).text = true := rfl
  have contiguous : Restart.Contiguous b.table scope.stems scope.start := Restart.contiguous_stopped
  have settles := settles_of_contiguous reachable contiguous
  have hcall : compose "app" 2 1 ∈ (first .probing).abortCalls :=
    (Probing.compose_mem_calls_iff hb scope ⟨"app", 2, 1⟩).2
      (contiguous.gapFree.reached (by decide) (by decide) (reachable.used_of_isOpen hopen))
  refine ⟨reachable, hopen, fun strategy => ?_, ?_, ?_⟩
  · cases strategy with
    | probing =>
      refine ⟨probes, Bool.eq_false_iff.2 fun hleft => ?_⟩
      rw [Broker.state_pass hb, Broker.isOpen_fenceAll] at hleft
      exact hleft.2 hcall
    | listing => exact ⟨lists, by decide +kernel⟩
  · exact ((rerun_settled_iff .probing b scope reachable hb hl probes).2.1.2 settles).2
  · exact ((rerun_settled_iff .listing b scope reachable hb hl lists).2.2 rfl).1

/-- Two owners committed the sequence 0 and one opened the next: each used its ids without a gap, and
still only the second of two passes from 1 on closes the open transaction. -/
theorem probing_rerun_closes :
    let id := compose "app"
    let b := ((((Broker.empty.begin (id 0 0).text none).commit (id 0 0).text).2.begin (id 1 0).text
      none).commit (id 1 0).text).2.begin (id 1 1).text none
    let scope := Scope.ofStem ⟨0, 1, by decide⟩ 1 "app" [] (by decide)
    let first := Strategy.probing.pass Broker.client scope b
    let second := Strategy.probing.pass Broker.client scope first.state
    b.Reachable ∧ first.answer = .ok () ∧ first.state.isOpen (id 1 1).text = true ∧
      second.state.isOpen (id 1 1).text = false ∧ second.state.fenced ≠ first.state.fenced := by
  intro id b scope first second
  have reachable : b.Reachable :=
    ((((Broker.Reachable.empty.step (.begin _ _)).step (.commit _)).step (.begin _ _)).step
      (.commit _)).step (.begin _ _)
  have hb : b.abortsLeft = none := rfl
  have hb' : first.state.abortsLeft = none := Broker.abortsLeft_pass hb .probing scope
  have masked : Probing.Masked b.table scope ⟨"app", 1, 1⟩ := by
    have hclaims : scope.claims ⟨"app", 1, 1⟩ = true := by decide
    have hgap : (b.table (id 0 1)).isUnused = true := by decide
    refine ⟨hclaims, UInt64.le_refl 1, ⟨"app", 0, 1⟩, .owner (by decide) (by decide), ?_, ?_⟩
    · rw [Used, Parts.compose, hgap]
      exact Bool.noConfusion
    · intro other way _
      cases way with
      | @owner _ o _ _ _ lower =>
        have ho : o = 0 := UInt32.toNat_inj.1 (Nat.lt_one_iff.1 (UInt32.lt_iff_toNat_lt.1 lower))
        rw [ho]
        rfl
      | sequence start_le lower =>
        exact absurd (UInt64.lt_of_le_of_lt start_le lower) (UInt64.lt_irrefl 1)
  have hopen : b.isOpen (Parts.compose ⟨"app", 1, 1⟩).text = true := by
    rw [Broker.isOpen_begin]
    exact if_pos rfl
  obtain ⟨hleft, hcall⟩ := closes_masked reachable hb hopen masked
  have hstate : second.state = first.state.fenceAll second.abortCalls :=
    Broker.state_pass hb' .probing scope
  refine ⟨reachable, Probing.answer_pass hb scope, hleft, Bool.eq_false_iff.2 fun hstill => ?_, ?_⟩
  · rw [hstate] at hstill
    exact ((Broker.isOpen_fenceAll _ _ _).1 hstill).2 hcall
  · intro he
    rw [hstate, Broker.fenced_fenceAll_eq_iff (Strategy.probing.nodup_calls _ _ _)] at he
    rw [he _ hcall] at hleft
    cases hleft

end Strategy

end SinkFencing
