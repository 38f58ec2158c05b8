import SinkFencing.Proofs.ListingEffect
import SinkFencing.Proofs.ProbingRestart

namespace SinkFencing

open TxnId

variable {b : Broker} {scope : Scope}

theorem Listing.isOpen_pass_iff_of_none (legible : Legible b scope.stems scope.topics)
    (covered : ∀ name, b.isOpen name = true → b.Listed scope.topics name)
    (none_pending : scope.pending.elems = []) (name : String) :
    (Strategy.listing.pass Broker.client scope b).state.isOpen name = true ↔ b.isOpen name = true ∧
      ∀ parts, Parts.read name = .ok parts → scope.claims parts = false := by
  have hpending : ⟨name⟩ ∉ scope.pending := by
    rw [Ascending.mem_iff, none_pending]
    exact List.not_mem_nil
  rw [isOpen_pass_iff legible covered, or_iff_right hpending]

theorem Probing.isOpen_pass_iff (hb : b.abortsLeft = none) (scope : Scope) (name : String) :
    (Strategy.probing.pass Broker.client scope b).state.isOpen name = true ↔ b.isOpen name = true ∧
      ∀ parts, Reached b.table scope parts → name ≠ parts.compose.text := by
  rw [Broker.state_pass hb, Broker.isOpen_fenceAll b _ ⟨name⟩, mem_calls_pass_iff hb]
  refine and_congr_right fun _ => ?_
  constructor
  · intro h parts hreached he
    exact h ⟨parts, ext_of_text he, hreached⟩
  · intro h hcall
    obtain ⟨parts, he, hreached⟩ := hcall
    exact h parts hreached (congrArg text he)

namespace Strategy

section

variable (legible : Listing.Legible b scope.stems scope.topics)
  (covered : ∀ name, b.isOpen name = true → b.Listed scope.topics name)
  (none_pending : scope.pending.elems = [])

include legible covered none_pending

theorem isOpen_probing_of_listing {name : String}
    (h : (Strategy.listing.pass Broker.client scope b).state.isOpen name = true) :
    (Strategy.probing.pass Broker.client scope b).state.isOpen name = true := by
  obtain ⟨hopen, hforeign⟩ := (Listing.isOpen_pass_iff_of_none legible covered none_pending name).1 h
  refine (Probing.isOpen_pass_iff legible.aborts scope name).2 ⟨hopen, fun parts hreached he => ?_⟩
  -- What probing calls is claimed by the scope.
  have hforeign := hforeign parts (he ▸ parts_compose _ _ _)
  rw [hreached.claims] at hforeign
  cases hforeign

/-- The passes leave the same open just if probing reaches all that the scope claims. -/
theorem agree_iff :
    (∀ name, (Strategy.probing.pass Broker.client scope b).state.isOpen name =
      (Strategy.listing.pass Broker.client scope b).state.isOpen name) ↔
    ∀ name parts, b.isOpen name = true → Parts.read name = .ok parts →
      scope.claims parts = true → name = parts.compose.text ∧ Probing.Reached b.table scope parts := by
  have listing (name : String) := Listing.isOpen_pass_iff_of_none legible covered none_pending name
  have probing (name : String) := Probing.isOpen_pass_iff legible.aborts scope name
  constructor
  · intro agree name parts hopen hparts claims
    -- Listing closes the name, so probing does, which calls nothing but composed ids.
    have hclosed : ¬ ∀ other, Probing.Reached b.table scope other → name ≠ other.compose.text := by
      intro h
      have hlisting := agree name ▸ (probing name).2 ⟨hopen, h⟩
      rw [((listing name).1 hlisting).2 parts hparts] at claims
      cases claims
    obtain ⟨other, hreached, he⟩ : ∃ other, Probing.Reached b.table scope other ∧
        name = other.compose.text := by simpa using hclosed
    have hother : Parts.read name = .ok other := he ▸ parts_compose _ _ _
    rw [hparts] at hother
    cases hother
    exact ⟨he, hreached⟩
  · intro reaches name
    refine Bool.eq_iff_iff.2 ⟨fun h => ?_, isOpen_probing_of_listing legible covered none_pending⟩
    obtain ⟨hopen, hnot⟩ := (probing name).1 h
    refine (listing name).2 ⟨hopen, fun parts hparts => Bool.eq_false_iff.2 fun claims => ?_⟩
    obtain ⟨he, hreached⟩ := reaches name parts hopen hparts claims
    exact hnot parts hreached he

/-- Both passes succeed, and what listing leaves open probing leaves open too. They leave the same if the
owners of the placement used their ids without gaps, and all transactions of the scope bear composed ids
from the start on. -/
theorem listing_agrees_with_probing :
    let listed := Strategy.listing.pass Broker.client scope b
    let probed := Strategy.probing.pass Broker.client scope b
    listed.answer = .ok () ∧ probed.answer = .ok () ∧
      (∀ name, listed.state.isOpen name = true → probed.state.isOpen name = true) ∧
      (Probing.GapFree b.table scope →
        (∀ name parts, b.isOpen name = true → Parts.read name = .ok parts →
          scope.claims parts = true → name = parts.compose.text ∧ scope.start ≤ parts.sequence) →
        ∀ name, probed.state.isOpen name = listed.state.isOpen name) := by
  intro listed probed
  refine ⟨(Listing.mem_calls_iff legible).1, Probing.answer_pass legible.aborts scope,
    fun name => isOpen_probing_of_listing legible covered none_pending, fun gapFree composed => ?_⟩
  refine (agree_iff legible covered none_pending).2 fun name parts hopen hparts claims => ?_
  obtain ⟨he, start_le⟩ := composed name parts hopen hparts claims
  have used : Used b.table parts.compose := by
    rw [he] at hopen
    exact legible.reachable.used_of_isOpen hopen
  exact ⟨he, gapFree.reached claims start_le used⟩

end

/-- Three subtasks stopped without a gap. Of what they have left, either pass of the first of two that take
over leaves just the second one's open. -/
theorem listing_agrees_with_probing_downscaled :
    let b := Restart.stopped
    let scope := Restart.successor
    let listed := Strategy.listing.pass Broker.client scope b
    let probed := Strategy.probing.pass Broker.client scope b
    Listing.Legible b scope.stems scope.topics ∧ scope.pending.elems = [] ∧
      Probing.GapFree b.table scope ∧ b.opened.length = 5 ∧
      listed.state.opened.map Prod.fst = [(compose "app" 1 0).text] ∧
      ∀ name, probed.state.isOpen name = listed.state.isOpen name := by
  intro b scope listed probed
  have legible : Listing.Legible b scope.stems scope.topics :=
    (Listing.legible_beginAll Restart.begun (some "orders") _ _).commit _
  have gapFree : Probing.GapFree b.table scope := Restart.contiguous_stopped.gapFree
  have covered (name : String) (hopen : b.isOpen name = true) : b.Listed scope.topics name :=
    Restart.listed_stopped hopen
  have agrees := listing_agrees_with_probing legible covered rfl
  refine ⟨legible, rfl, gapFree, by decide +kernel, by decide +kernel,
    agrees.2.2.2 gapFree fun name parts hopen hparts _ => ?_⟩
  obtain ⟨other, -, hother⟩ := List.mem_map.1 (Restart.isOpen_stopped_iff.1 hopen).2
  have he : other.compose.text = name := congrArg text hother
  have hread : Parts.read name = .ok other := he ▸ parts_compose _ _ _
  rw [hparts] at hread
  cases hread
  exact ⟨he.symm, UInt64.le_iff_toNat_le.2 (Nat.zero_le _)⟩

end Strategy

end SinkFencing
